import Mathlib.Data.List.DropRight
import Logme.Channel

/-!
# Fields of structured output

The JSON and XML formats print the same fields under configurable names.  A
JSON field is separated from the one before it, so the output carries the
`first` flag of the source with it.  A C string is the list of its bytes
before the final 0.
-/

namespace Logme

def ascii (text : String) : List UInt8 :=
  text.toList.map fun c => UInt8.ofNat c.toNat

/-- `%llu`. -/
def decimalBytes (n : Nat) : List UInt8 :=
  (Nat.toDigits 10 n).map fun c => UInt8.ofNat c.toNat

/-- `%i`. -/
def signedBytes (i : Int) : List UInt8 :=
  if i < 0 then 0x2D :: decimalBytes i.natAbs else decimalBytes i.natAbs

/-- `%llX`. -/
def hexUpper (n : Nat) : List UInt8 :=
  (Nat.toDigits 16 n).map fun c => UInt8.ofNat c.toUpper.toNat

/-- Zeros up to the given width. -/
def padZero (width : Nat) (digits : List UInt8) : List UInt8 :=
  List.replicate (width - digits.length) 0x30 ++ digits

inductive OutputField where
  | timestamp
  | level
  | processId
  | threadId
  | channel
  | subsystem
  | file
  | line
  | method
  | message
  | duration
  deriving DecidableEq

/-- `GetOutputFieldName`: the names can be set at run time. -/
abbrev OutputFieldNames := OutputField → Name

def defaultFieldNames : OutputFieldNames
  | .timestamp => ascii "timestamp"
  | .level => ascii "level"
  | .processId => ascii "process_id"
  | .threadId => ascii "thread_id"
  | .channel => ascii "channel"
  | .subsystem => ascii "subsystem"
  | .file => ascii "file"
  | .line => ascii "line"
  | .method => ascii "method"
  | .message => ascii "message"
  | .duration => ascii "duration"

/-- `GetStructuredLevelName`. -/
def Level.structuredName : Level → Name
  | .debug => ascii "debug"
  | .info => ascii "info"
  | .warn => ascii "warn"
  | .error => ascii "error"
  | .critical => ascii "critical"

def trimRight (text : List UInt8) : List UInt8 :=
  text.rdropWhile fun c => c == 0x20 || c == 0x09 || c == 0x0D || c == 0x0A

/-- `MakeRepeatedText`. -/
def repeatPrefix (count : Nat) : List UInt8 :=
  ascii "repeated " ++ decimalBytes count ++ ascii " times: "

/-! ## JSON -/

/-- One byte in `AppendJsonEscaped`. -/
def escapeJson (c : UInt8) : List UInt8 :=
  if c = 0x22 then [0x5C, 0x22]
  else if c = 0x5C then [0x5C, 0x5C]
  else if c = 0x08 then ascii "\\b"
  else if c = 0x0C then ascii "\\f"
  else if c = 0x0A then ascii "\\n"
  else if c = 0x0D then ascii "\\r"
  else if c = 0x09 then ascii "\\t"
  else if c < 0x20 then ascii "\\u" ++ padZero 4 (hexUpper c.toNat)
  else [c]

def appendJsonEscaped (output text : List UInt8) : List UInt8 :=
  output ++ [0x22] ++ text.flatMap escapeJson ++ [0x22]

structure JsonOutput where
  output : List UInt8
  first : Bool

namespace JsonOutput

/-- The name of a field and the colon, after a comma unless the field is the
first one. -/
def appendJsonFieldName (o : JsonOutput) (name : Name) : JsonOutput :=
  let output := if o.first then o.output else o.output ++ [0x2C]
  ⟨appendJsonEscaped output name ++ [0x3A], false⟩

def appendJsonStringField (o : JsonOutput) (name : Name) (value : List UInt8) :
    JsonOutput :=
  let o := o.appendJsonFieldName name
  { o with output := appendJsonEscaped o.output value }

def appendJsonUInt64Field (o : JsonOutput) (name : Name) (value : Nat) :
    JsonOutput :=
  let o := o.appendJsonFieldName name
  { o with output := o.output ++ decimalBytes value }

/-- A field that is printed under a condition. -/
def when (condition : Bool) (append : JsonOutput → JsonOutput) (o : JsonOutput) :
    JsonOutput :=
  if condition then append o else o

/-- A string field whose value may be the null pointer. -/
def appendOptional (o : JsonOutput) (name : Name) (value : Option (List UInt8)) :
    JsonOutput :=
  match value with
  | some value => o.appendJsonStringField name value
  | none => o

end JsonOutput

/-! ## XML -/

/-- One byte in `AppendXmlEscaped`. -/
def escapeXml (c : UInt8) : List UInt8 :=
  if c = 0x26 then ascii "&amp;"
  else if c = 0x3C then ascii "&lt;"
  else if c = 0x3E then ascii "&gt;"
  else if c = 0x22 then ascii "&quot;"
  else if c = 0x27 then ascii "&apos;"
  else [c]

def appendXmlElement (output : List UInt8) (name : Name) (value : List UInt8) :
    List UInt8 :=
  output ++ [0x3C] ++ name ++ [0x3E] ++ value.flatMap escapeXml ++
    ascii "</" ++ name ++ [0x3E]

/-- An element whose value may be the null pointer. -/
def appendOptionalElement (output : List UInt8) (name : Name)
    (value : Option (List UInt8)) : List UInt8 :=
  match value with
  | some value => appendXmlElement output name value
  | none => output

end Logme
