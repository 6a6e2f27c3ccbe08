import Logme.CmdChannel

/-!
# The `flags` command

Every flag is a field of the 32-bit set, given by its first bit and its width.
A command is read word by word into a copy of the flags of the channel, which
are set when every word has been understood.
-/

namespace Logme

/-- Store an integer in a bit field. -/
def OutputFlags.setField (f : OutputFlags) (start width : Nat) (v : Int) :
    OutputFlags :=
  let mask : BitVec 32 := BitVec.ofNat 32 (2 ^ width - 1)
  ⟨(f.value &&& ~~~(mask <<< start)) |||
    ((BitVec.ofInt 32 v &&& mask) <<< start)⟩

def OutputFlags.highlight (f : OutputFlags) : Bool := f.value.getLsbD 12

def OutputFlags.console (f : OutputFlags) : Nat :=
  (f.value.extractLsb' 13 3).toNat

/-! ## The text of flags -/

def timestampType : Nat → Name
  | 0 => []
  | 1 => ascii "Local"
  | 2 => ascii "TZ"
  | 3 => ascii "UTC"
  | _ => ascii "Unknown"

def locationType : Nat → Name
  | 0 => []
  | 1 => ascii "Short"
  | 2 => ascii "Full"
  | _ => ascii "Unknown"

def consoleType : Nat → Name
  | 0 => ascii "cout"
  | 1 => ascii "warncerr"
  | 2 => ascii "errcerr"
  | 3 => ascii "cerrcerr"
  | 4 => ascii "cerr"
  | _ => ascii "Unknown"

def formatType : Nat → Name
  | 0 => ascii "text"
  | 1 => ascii "json"
  | 2 => ascii "xml"
  | _ => ascii "Unknown"

/-- `FormatFlag`, with the text of the value. -/
def formatFlag (name value : Name) : Name :=
  if value = [] then name else name ++ ascii ":" ++ value

/-- `APPEND_FLAG`: the flags that are set, with their texts. -/
def OutputFlags.names (f : OutputFlags) : List Name :=
  let flag (set : Bool) (name : String) (value : Name) : List Name :=
    if set then [formatFlag (ascii name) value] else []
  flag (f.timestamp ≠ 0) "Timestamp" (timestampType f.timestamp) ++
    flag f.signature "Signature" [] ++
    flag (f.location ≠ 0) "Location" (locationType f.location) ++
    flag f.method "Method" [] ++
    flag f.eol "Eol" [] ++
    flag f.errorPrefix "ErrorPrefix" [] ++
    flag f.duration "Duration" [] ++
    flag f.threadID "ThreadID" [] ++
    flag f.processID "ProcessID" [] ++
    flag f.channel "Channel" [] ++
    flag f.highlight "Highlight" [] ++
    flag (f.console ≠ 0) "Console" (consoleType f.console) ++
    flag f.disableLink "DisableLink" [] ++
    flag f.threadTransition "ThreadTransition" [] ++
    flag f.subsystem "Subsystem" [] ++
    flag (f.format ≠ 0) "Format" (formatType f.format)

/-- `ToString` with blanks and brackets. -/
def OutputFlags.bracketed (f : OutputFlags) : Name :=
  match f.names with
  | [] => []
  | names => ascii "[" ++ CmdLogs.joinWords names ++ ascii "]"

def formatFlags (f : OutputFlags) : Name :=
  ascii "Flags: 0x" ++ padZero 8 (hexUpper f.value.toNat) ++ ascii " " ++
    f.bracketed

/-! ## Reading a flag -/

def timeStampValues : List (Name × Int) :=
  [([], 1), (ascii "none", 0), (ascii "local", 1), (ascii "tz", 2),
    (ascii "utc", 3)]

def locationValues : List (Name × Int) :=
  [([], 0), (ascii "none", 0), (ascii "short", 1), (ascii "full", 2)]

def consoleValues : List (Name × Int) :=
  [([], 0), (ascii "cout", 0), (ascii "warncerr", 1), (ascii "errcerr", 2),
    (ascii "cerrcerr", 3), (ascii "cerr", 4)]

def formatValues : List (Name × Int) :=
  [([], 0), (ascii "text", 0), (ascii "json", 1), (ascii "xml", 2)]

def parseBool (s : Name) : Option Bool :=
  let v := toLowerAscii s
  if v = [] ∨ v = ascii "1" ∨ v = ascii "true" ∨ v = ascii "on" ∨
      v = ascii "yes" then some true
  else if v = ascii "0" ∨ v = ascii "false" ∨ v = ascii "off" ∨ v = ascii "no" then
    some false
  else none

/-- `ParseInt`: `strtol` of a whole C string, which saturates; only the low
bits of the value are used. -/
def parseInt (s : Name) : Option Int :=
  if s = [] then none
  else
    match scanInteger (cString s) with
    | none => if cString s = [] then some 0 else none
    | some (negative, digits, rest) =>
        if rest ≠ [] then none
        else if negative then some (max (-(digitsValue digits : Int)) (-2 ^ 63))
        else some (min (digitsValue digits : Int) (2 ^ 63 - 1))

inductive FlagKind where
  | value (values : List (Name × Int))
  | switch

/-- The flags that the command knows: their names, fields and values. -/
def knownFlags : List (Name × Nat × Nat × FlagKind) :=
  [(ascii "timestamp", 0, 2, .value timeStampValues),
    (ascii "location", 3, 2, .value locationValues),
    (ascii "console", 13, 3, .value consoleValues),
    (ascii "format", 19, 2, .value formatValues),
    (ascii "signature", 2, 1, .switch),
    (ascii "method", 5, 1, .switch),
    (ascii "eol", 6, 1, .switch),
    (ascii "errorprefix", 7, 1, .switch),
    (ascii "duration", 8, 1, .switch),
    (ascii "threadid", 9, 1, .switch),
    (ascii "processid", 10, 1, .switch),
    (ascii "channel", 11, 1, .switch),
    (ascii "highlight", 12, 1, .switch),
    (ascii "disablelink", 16, 1, .switch),
    (ascii "transition", 17, 1, .switch)]

/-- The value of a flag; without one, an enumerated flag is 1 and a switch is
on. -/
def flagValue (name value : Name) : FlagKind → Except Name Int
  | .value values =>
      if value = [] then .ok 1
      else
        match (findNamed values value).orElse fun _ => parseInt value with
        | some v => .ok v
        | none =>
            .error (ascii "invalid value for " ++ name ++ ascii ": " ++ value)
  | .switch =>
      match parseBool value with
      | some b => .ok (if b then 1 else 0)
      | none =>
          .error (ascii "invalid value for " ++ name ++ ascii ": " ++ value)

/-- One round of the loop of `CommandFlags`. -/
def readFlag (f : OutputFlags) (token : Name) : Except Name OutputFlags :=
  if token = [] then .ok f
  else
    let name := toLowerAscii (token.takeWhile (· ≠ 0x3D))
    let value := (token.dropWhile (· ≠ 0x3D)).drop 1
    match knownFlags.find? fun flag => flag.1 = name with
    | none => .error (ascii "unknown flag: " ++ name)
    | some (_, start, width, kind) =>
        match flagValue name value kind with
        | .error error => .error error
        | .ok v => .ok (f.setField start width v)

def readFlags : OutputFlags → List Name → Except Name OutputFlags
  | f, [] => .ok f
  | f, token :: rest =>
      match readFlag f token with
      | .error error => .error error
      | .ok f => readFlags f rest

/-- `Logger::CommandFlags`. -/
def commandFlags (s : ControlState) (arr : List Name) : ControlState × Name :=
  match getChannelFromArgs s arr 1 with
  | .error error => (s, errorReply error)
  | .ok (c, index) =>
      let flags := ((s.logger.heap[c]?).map Channel.flags).getD .zero
      match arr.drop index with
      | [] => (s, formatFlags flags)
      | words =>
          match readFlags flags words with
          | .error error => (s, errorReply error)
          | .ok f =>
              (s.modifyChannel c (Channel.setFlags · f)
                (Channel.setFlags_subset · _),
                formatFlags f ++ CmdLogs.newline ++ okReply)

end Logme
