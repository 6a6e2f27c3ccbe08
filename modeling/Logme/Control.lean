import Logme.CmdSubsystem
import Logme.ControlPolicy

/-!
# Executing a control command

`controlInternal` checks the policy, asks the control extension and runs the
handler of the command.  A command may say in what format it wants its answer:
then the rest of it is executed, and for JSON the text of the answer is wrapped
in an object.  A run keeps the calls it makes, of the extension and of built-in
handlers.
-/

namespace Logme

/-- A control extension answers whether it has handled the command. -/
abbrev ControlExtension :=
  Name → ControlState → (Bool × Name) × ControlState

inductive ControlCall where
  | extension (command : Name)
  | builtin (command : Name)
  deriving DecidableEq

structure Executed where
  state : ControlState
  calls : List ControlCall
  response : Name

/-! ## The built-in commands -/

def logmeVersion : Name := ascii "2.4.20"

def commandVersion (s : ControlState) (response : Name) : ControlState × Name :=
  (s, response ++ ascii "Logme version: " ++ logmeVersion ++ CmdLogs.newline ++
    ascii "Control protocol: 1" ++ CmdLogs.newline)

def logsCommand (env : ControlEnvironment) (s : ControlState) (arr : List Name)
    (response : Name) : ControlState × Name :=
  (s, response ++
    (CmdLogs.commandLogs env.disk env.home env.extensions arr).response)

/-- The handler of a built-in command; every handler handles its command. -/
def builtin (env : ControlEnvironment) (s : ControlState) (c : Name)
    (items : List Name) (response : Name) : Option (ControlState × Name) :=
  if c = ascii "help" then some (s, env.help response)
  else if c = ascii "version" then some (commandVersion s response)
  else if c = ascii "list" then some (commandList s response)
  else if c = ascii "channel" then some (commandChannel env s items response)
  else if c = ascii "subsystem" then some (commandSubsystem env s items response)
  else if c = ascii "backend" then some (commandBackend env s items)
  else if c = ascii "flags" then some (commandFlags s items)
  else if c = ascii "level" then some (commandLevel s items)
  else if c = ascii "trace" then some (commandTrace s items)
  else if c = ascii "logstat" then some (commandLogStatistics env s items)
  else if c = ascii "overview" then some (s, response ++ env.shows s items)
  else if c = ascii "logs" then some (logsCommand env s items response)
  else none

/-! ## Dispatching a command -/

/-- The words of a command; the first one is lowered, and the second one of
`trace`. -/
def controlItems (command : Name) : List Name :=
  match wordSplit command with
  | [] => []
  | first :: rest =>
      let c := toLowerAscii first
      match rest with
      | [] => [c]
      | second :: more =>
          if c = ascii "trace" then c :: toLowerAscii second :: more
          else c :: second :: more

def rejectedReply (reason : Name) : Name :=
  ascii "error: command rejected by control policy: " ++ reason

def unsupportedReply (items : List Name) : Name :=
  ascii "error: unsupported command: " ++ items.headD (ascii "<empty>")

/-- The handlers, with what the extension has left in the response. -/
def runBuiltin (env : ControlEnvironment) (s : ControlState)
    (items : List Name) (calls : List ControlCall) (response : Name) : Executed :=
  match items with
  | [] => ⟨s, calls, unsupportedReply []⟩
  | c :: _ =>
      match builtin env s c items response with
      | some (s', response') => ⟨s', calls ++ [.builtin c], response'⟩
      | none => ⟨s, calls, unsupportedReply items⟩

/-- The lambda `ControlInternal`. -/
def controlInternal (env : ControlEnvironment)
    (extension : Option ControlExtension) (policy : ControlPolicy)
    (s : ControlState) (command : Name) : Executed :=
  let items := controlItems command
  match checkControlPolicy items policy with
  | .error reason => ⟨s, [], rejectedReply reason⟩
  | .ok () =>
      match extension with
      | none => runBuiltin env s items [] []
      | some extension =>
          if policy.allowExtensions then
            let answer := extension command s
            if answer.1.1 ∧ items.head? ≠ some (ascii "help") then
              ⟨answer.2, [.extension command], answer.1.2⟩
            else
              runBuiltin env answer.2 items [.extension command] answer.1.2
          else runBuiltin env s items [] []

/-! ## JSON answers -/

/-- `JsonEscape`. -/
def controlJsonEscape (s : Name) : Name :=
  s.flatMap fun c =>
    if c = 0x5C then ascii "\\\\"
    else if c = 0x22 then ascii "\\\""
    else if c = 0x08 then ascii "\\b"
    else if c = 0x0C then ascii "\\f"
    else if c = 0x0A then ascii "\\n"
    else if c = 0x0D then ascii "\\r"
    else if c = 0x09 then ascii "\\t"
    else if c < 0x20 then ascii "\\u" ++ padZero 4 (hexLower c.toNat)
    else [c]
where
  hexLower (n : Nat) : Name :=
    (Nat.toDigits 16 n).map fun d => UInt8.ofNat d.toNat

def quoted (s : Name) : Name := ascii "\"" ++ controlJsonEscape s ++ ascii "\""

def separated (values : List Name) : Name := List.intercalate (ascii ",") values

/-- The values of the members of `data`. -/
inductive DataValue where
  | string (s : Name)
  | int (n : Nat)
  | bool (b : Bool)
  | stringMap (values : List (Name × Name))
  | stringArray (values : List Name)
  deriving DecidableEq

def DataValue.text : DataValue → Name
  | .string s => quoted s
  | .int n => decimalBytes n
  | .bool b => if b then ascii "true" else ascii "false"
  | .stringMap values =>
      ascii "\x7b" ++ separated (values.map fun value =>
        quoted value.1 ++ ascii ":" ++ quoted value.2) ++ ascii "\x7d"
  | .stringArray values =>
      ascii "[" ++ separated (values.map quoted) ++ ascii "]"

/-- A member with one of the names of the source, which need no escapes. -/
def memberText (member : Name × DataValue) : Name :=
  ascii "\"" ++ member.1 ++ ascii "\":" ++ member.2.text

def splitReplyLines (s : Name) : List Name :=
  (splitBytes (· = 0x0A) s).map fun line =>
    if line.getLast? = some 0x0D then line.dropLast else line

def firstLine (s : Name) : Name := s.takeWhile (· ≠ 0x0A)

def digitOf (c : UInt8) : Nat :=
  if 0x30 ≤ c ∧ c ≤ 0x39 then c.toNat - 0x30
  else if 0x61 ≤ c ∧ c ≤ 0x7A then c.toNat - 0x61 + 10
  else if 0x41 ≤ c ∧ c ≤ 0x5A then c.toNat - 0x41 + 10
  else 36

/-- `strtoull` that finds the base in the prefix of the number. -/
def strtoullAnyBase (s : Name) : Nat :=
  let start := (cString s).dropWhile isSpaceByte
  let negative : Bool := start.head? = some 0x2D
  let unsigned := if negative ∨ start.head? = some 0x2B then start.tail else start
  let based : Nat × Name :=
    match unsigned with
    | 0x30 :: x :: c :: rest =>
        if (x = 0x78 ∨ x = 0x58) ∧ digitOf c < 16 then (16, c :: rest)
        else (8, unsigned)
    | 0x30 :: _ => (8, unsigned)
    | _ => (10, unsigned)
  let value := (based.2.takeWhile fun c => digitOf c < based.1).foldl
    (fun n c => based.1 * n + digitOf c) 0
  if 2 ^ 64 ≤ value then 2 ^ 64 - 1
  else if negative then (2 ^ 64 - value) % 2 ^ 64
  else value

inductive SubsystemSection where
  | none
  | blocked
  | allowed
  | levels
  deriving DecidableEq

/-- What the loop over the lines of a `subsystem` answer has gathered: the
lists that it has met, and the members of single answers. -/
structure SubsystemData where
  inSection : SubsystemSection := .none
  blocked : Option (List Name) := none
  allowed : Option (List Name) := none
  levels : Option (List (Name × Name)) := none
  members : List (Name × DataValue) := []

/-- One line of a `subsystem` answer, trimmed. -/
def SubsystemData.readLine (d : SubsystemData) (line : Name) : SubsystemData :=
  let single (name : Name) (value : DataValue) : SubsystemData :=
    { d with members := d.members ++ [(name, value)], inSection := .none }
  if line = [] then d
  else if line = ascii "Blocked subsystems: none" then
    { d with blocked := some [], inSection := .none }
  else if line = ascii "Allowed subsystems: none" then
    { d with allowed := some [], inSection := .none }
  else if line = ascii "Subsystem levels: none" then
    { d with levels := some [], inSection := .none }
  else if line = ascii "Blocked subsystems:" then
    { d with blocked := some [], inSection := .blocked }
  else if line = ascii "Allowed subsystems:" then
    { d with allowed := some [], inSection := .allowed }
  else if line = ascii "Subsystem levels:" then
    { d with levels := some [], inSection := .levels }
  else if startsWith (ascii "Blocked: ") line then
    single (ascii "blocked") (.bool (line.drop 9 = ascii "true"))
  else if startsWith (ascii "Allowed: ") line then
    single (ascii "allowed") (.bool (line.drop 9 = ascii "true"))
  else if startsWith (ascii "Level: ") line then
    single (ascii "level") (.string (line.drop 7))
  else
    match d.inSection with
    | .blocked => { d with blocked := some (d.blocked.getD [] ++ [line]) }
    | .allowed => { d with allowed := some (d.allowed.getD [] ++ [line]) }
    | .levels =>
        let name := trimBlanks (line.takeWhile (· ≠ 0x3A))
        let level := trimBlanks ((line.dropWhile (· ≠ 0x3A)).drop 1)
        if name = [] ∨ level = [] then d
        else { d with levels := some (d.levels.getD [] ++ [(name, level)]) }
    | .none => d

def subsystemMembers (text : Name) : List (Name × DataValue) :=
  let d := (splitReplyLines text).foldl
    (fun d line => d.readLine (trimBlanks line)) ({} : SubsystemData)
  d.members ++
    (d.blocked.map fun l => (ascii "blockedSubsystems", .stringArray l)).toList ++
    (d.allowed.map fun l => (ascii "allowedSubsystems", .stringArray l)).toList ++
    (d.levels.map fun l => (ascii "subsystemLevels", .stringMap l)).toList

def listMembers (text : Name) : List (Name × DataValue) :=
  let lines := ((splitReplyLines text).map trimBlanks).filter (· ≠ [])
  [(ascii "channels", .stringArray
    (lines.map fun line => if line = defaultName then [] else line))]

def flagsMembers (text : Name) : List (Name × DataValue) :=
  let line := trimBlanks (firstLine text)
  if startsWith (ascii "Flags:") line then
    let rest := trimBlanks (line.drop 6)
    let hex := trimBlanks (rest.takeWhile (· ≠ 0x20))
    let names := trimBlanks ((rest.dropWhile (· ≠ 0x20)).drop 1)
    [(ascii "value", .int (if hex = [] then 0 else strtoullAnyBase hex)),
      (ascii "names", .stringArray (wordSplit names))]
  else []

def levelMembers (text : Name) : List (Name × DataValue) :=
  let line := trimBlanks (firstLine text)
  if startsWith (ascii "Level:") line then
    let v := trimBlanks (line.drop 6)
    if v = [] then [] else [(ascii "level", .string v)]
  else []

/-- The members of `data` before the text itself. -/
def dataMembers (remainder text : Name) : List (Name × DataValue) :=
  match wordSplit (toLowerAscii remainder) with
  | [] => []
  | c :: _ =>
      if c = ascii "subsystem" then subsystemMembers text
      else if c = ascii "list" then listMembers text
      else if c = ascii "flags" then flagsMembers text
      else if c = ascii "level" then levelMembers text
      else []

/-- The text is no error. -/
def isOk (text : Name) : Bool := !startsWith (ascii "error:") text

/-- The error member of an answer that is not ok. -/
def errorText (text : Name) : Name :=
  (text.drop 6).dropWhile fun c => c = 0x20 || c = 0x09

def jsonReply (remainder text : Name) : Name :=
  let members := if isOk text then dataMembers remainder text else []
  ascii "\x7b\"ok\":" ++ (if isOk text then ascii "true" else ascii "false") ++
    ascii ",\"error\":" ++
    (if isOk text then ascii "null" else quoted (errorText text)) ++
    ascii ",\"data\":\x7b" ++
    separated ((members ++ [(ascii "text", DataValue.string text)]).map memberText) ++
    ascii "\x7d\x7d"

/-! ## Formats -/

/-- `Logger::Control`. -/
def control (env : ControlEnvironment) (extension : Option ControlExtension)
    (policy : ControlPolicy) (s : ControlState) (command : Name) : Executed :=
  match wordSplit (toLowerAscii command) with
  | first :: format :: _ =>
      if first = ascii "format" then
        if policy.allowFormatCommand = false then
          ⟨s, [], rejectedReply (ascii "format command is disabled")⟩
        else
          let remainder := splitRemainderAfterWords command 2
          let executed := controlInternal env extension policy s remainder
          if format = ascii "json" then
            { executed with response := jsonReply remainder executed.response }
          else if format = ascii "text" ∨ format = ascii "plain" ∨
              format = ascii "plain/text" then executed
          else ⟨s, [], ascii "error: invalid format"⟩
      else controlInternal env extension policy s command
  | _ => controlInternal env extension policy s command

end Logme
