import Logme.CmdBackend

/-!
# Reading a configuration

The text of a configuration is read by a JSON library.  The parsers of the
sections look at the values they expect and collect settings; when a value is
not what they expect they report it and give up.  A parser is therefore a value
together with the messages it has reported, in their order.  Asking a value
that cannot have members for one raises an exception.
-/

namespace Logme

/-- A JSON value.  The members of an object are in the order in which
`getMemberNames` returns them, `number` is an integral number. -/
inductive JsonValue where
  | null
  | bool (b : Bool)
  | number (n : Int)
  | real
  | string (s : Name)
  | array (items : List JsonValue)
  | object (members : List (Name × JsonValue))

/-- A report of a parser; `internal` when it goes to `CHINT` and not to the
channel of the thread. -/
structure ConfigMessage where
  level : Level
  internal : Bool
  text : Name
  deriving DecidableEq

inductive ParseOutcome (α : Type) where
  | value (a : α)
  | rejected
  | thrown

structure Parsed (α : Type) where
  messages : List ConfigMessage
  outcome : ParseOutcome α

namespace Parsed

variable {α β : Type}

def bind (p : Parsed α) (next : α → Parsed β) : Parsed β :=
  match p.outcome with
  | .value a => ⟨p.messages ++ (next a).messages, (next a).outcome⟩
  | .rejected => ⟨p.messages, .rejected⟩
  | .thrown => ⟨p.messages, .thrown⟩

instance : Monad Parsed where
  pure a := ⟨[], .value a⟩
  bind := bind

/-- `LogmeE(CHINT, …)`, and the parser returns `false`. -/
def reject (text : Name) : Parsed α := ⟨[⟨.error, true, text⟩], .rejected⟩

/-- `LogmeE(…)` without a channel, and the parser returns `false`. -/
def rejectHere (text : Name) : Parsed α := ⟨[⟨.error, false, text⟩], .rejected⟩

def fail : Parsed α := ⟨[], .rejected⟩

def throws : Parsed α := ⟨[], .thrown⟩

/-- `LogmeW(CHINT, …)` -/
def warn (text : Name) : Parsed Unit := ⟨[⟨.warn, true, text⟩], .value ()⟩

/-- A value that is of the expected type, or a report. -/
def require (value : Option α) (text : Name) : Parsed α :=
  match value with
  | some a => pure a
  | none => reject text

end Parsed

namespace JsonValue

/-- `isMember` and the value; `none` when there is no such member. -/
def member? (v : JsonValue) (name : Name) : Parsed (Option JsonValue) :=
  match v with
  | .object members => pure (members.lookup name)
  | .null => pure none
  | _ => Parsed.throws

def asObject? : JsonValue → Option (List (Name × JsonValue))
  | object members => some members
  | _ => none

def asArray? : JsonValue → Option (List JsonValue)
  | array items => some items
  | _ => none

def asString? : JsonValue → Option Name
  | string s => some s
  | _ => none

def asBool? : JsonValue → Option Bool
  | bool b => some b
  | _ => none

/-- `isInt` and `asInt`. -/
def asInt? : JsonValue → Option Int
  | number n => if -2 ^ 31 ≤ n ∧ n < 2 ^ 31 then some n else none
  | _ => none

def asUInt? : JsonValue → Option Nat
  | number n => if 0 ≤ n ∧ n < 2 ^ 32 then some n.toNat else none
  | _ => none

def asUInt64? : JsonValue → Option Nat
  | number n => if 0 ≤ n ∧ n < 2 ^ 64 then some n.toNat else none
  | _ => none

/-- The text of a member that is a string; `none` when there is no member. -/
def stringMember? (v : JsonValue) (name text : Name) : Parsed (Option Name) := do
  match ← v.member? name with
  | none => pure none
  | some value => some <$> Parsed.require value.asString? text

def boolMember? (v : JsonValue) (name text : Name) : Parsed (Option Bool) := do
  match ← v.member? name with
  | none => pure none
  | some value => some <$> Parsed.require value.asBool? text

end JsonValue

/-- `Name2Value`, for any case. -/
def name2Value {α : Type} (values : List (String × α)) (name : Name) : Option α :=
  (values.find? fun entry => toLowerAscii name = ascii entry.1).map Prod.snd

/-- What the library was built for. -/
structure BuildTarget where
  windows : Bool
  macos : Bool
  linux : Bool
  debug : Bool

def platformValues (build : BuildTarget) : List (String × Bool) :=
  [("", true), ("any", true), ("none", false),
    ("windows", build.windows), ("win", build.windows), ("win32", build.windows),
    ("mac", build.macos), ("macos", build.macos), ("apple", build.macos),
    ("linux", build.linux)]

def buildValues (build : BuildTarget) : List (String × Bool) :=
  [("", true), ("any", true), ("none", false),
    ("debug", build.debug), ("checked", build.debug), ("release", !build.debug)]

def checkPlatform (build : BuildTarget) (name : Name) : Parsed Bool :=
  match name2Value (platformValues build) name with
  | some ok => pure ok
  | none => Parsed.rejectHere (ascii "unsupported \"platform\": " ++ cString name)

def checkBuild (build : BuildTarget) (name : Name) : Parsed Bool :=
  match name2Value (buildValues build) name with
  | some ok => pure ok
  | none => Parsed.rejectHere (ascii "unsupported type of \"build\": " ++ cString name)

/-- The members of the path of a section. -/
def pathMembers (path : Name) : List Name :=
  (splitBytes (· = 0x7C) path).filter (· ≠ [])

def getConfigSection (root : JsonValue) (path : Name) : Parsed JsonValue :=
  (pathMembers path).foldlM (fun config member => do
    match ← config.member? member with
    | none => Parsed.reject (ascii "No such member: \"" ++ cString member ++ ascii "\"")
    | some value => pure value) root

end Logme
