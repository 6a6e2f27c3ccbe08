import Mathlib.Data.List.DropRight
import Logme.Library.TextSearch
import Logme.StructuredOutput

/-!
# The `logmefmt` tool

The converter reads its input line by line, parses each line as a record and
writes the record in the other format.  A position in a line is the text from
there on.  The text format with its regular expressions is left out.
-/

namespace Logme.Logmefmt

open TextSearch

/-- The fields of a `Record`. -/
abbrev Record := List (Name × List UInt8)

inductive Format where
  | json
  | xml
  deriving DecidableEq

/-- The paths and the help flag are read by `main` only. -/
structure Options where
  input : Format
  output : Format
  finalize : Bool := false
  root : List UInt8 := ascii "log"
  inputFields : List (Name × Name) := []
  outputFields : List (Name × Name) := []

/-- `std::isspace` in the C locale. -/
def isSpace (c : UInt8) : Bool := c == 0x20 || (0x09 ≤ c && c ≤ 0x0D)

def trim (text : List UInt8) : List UInt8 := (text.dropWhile isSpace).rdropWhile isSpace

/-- `RenameFields`; a `std::map` has one entry for a name. -/
def renameFields (record : Record) (fields : List (Name × Name)) : Record :=
  record.map fun item => ((fields.lookup item.1).getD item.1, item.2)

/-! ## JSON -/

/-- One byte in `AppendJsonEscaped`. -/
def escapeJson (c : UInt8) : List UInt8 :=
  if c = 0x22 then ascii "\\\""
  else if c = 0x5C then ascii "\\\\"
  else if c = 0x08 then ascii "\\b"
  else if c = 0x0C then ascii "\\f"
  else if c = 0x0A then ascii "\\n"
  else if c = 0x0D then ascii "\\r"
  else if c = 0x09 then ascii "\\t"
  else if c < 0x20 then
    let hex := ascii "0123456789ABCDEF"
    ascii "\\u00" ++ [hex.getD (c / 16).toNat 0, hex.getD (c % 16).toNat 0]
  else [c]

def appendJsonEscaped (output value : List UInt8) : List UInt8 :=
  output ++ [0x22] ++ value.flatMap escapeJson ++ [0x22]

/-- The letter of an escape other than `u`; an unknown one stands for itself. -/
def unescapeLetter (c : UInt8) : UInt8 :=
  if c = 0x62 then 0x08
  else if c = 0x66 then 0x0C
  else if c = 0x6E then 0x0A
  else if c = 0x72 then 0x0D
  else if c = 0x74 then 0x09
  else c

/-- The loop of `ReadJsonString`: the value up to the closing quote, and the
text behind it.  A `\u` escape is kept as it is written. -/
def readJsonChars : List UInt8 → Option (List UInt8 × List UInt8)
  | [] => none
  | c :: text =>
      if c = 0x22 then some ([], text)
      else if c ≠ 0x5C then (readJsonChars text).map fun read => (c :: read.1, read.2)
      else
        match text with
        | [] => none
        | c :: text =>
            if c = 0x75 then
              match text with
              | h₁ :: h₂ :: h₃ :: h₄ :: text =>
                  (readJsonChars text).map fun read =>
                    (ascii "\\u" ++ [h₁, h₂, h₃, h₄] ++ read.1, read.2)
              | _ => none
            else (readJsonChars text).map fun read => (unescapeLetter c :: read.1, read.2)

def readJsonString : List UInt8 → Option (List UInt8 × List UInt8)
  | [] => none
  | c :: text => if c = 0x22 then readJsonChars text else none

def skipSpaces (text : List UInt8) : List UInt8 := text.dropWhile isSpace

/-- The text up to a comma or a brace. -/
def readJsonRawValue (text : List UInt8) : Option (List UInt8 × List UInt8) :=
  let value := trim (text.takeWhile fun c => c != 0x2C && c != 0x7D)
  if value = [] then none
  else some (value, text.dropWhile fun c => c != 0x2C && c != 0x7D)

def readJsonValue (text : List UInt8) : Option (List UInt8 × List UInt8) :=
  if text.head? = some 0x22 then readJsonString text else readJsonRawValue text

/-- The name of a field, the colon and the value. -/
def readJsonField (text : List UInt8) : Option ((Name × List UInt8) × List UInt8) := do
  let (name, text) ← readJsonString text
  match skipSpaces text with
  | c :: text =>
      if c = 0x3A then
        let (value, text) ← readJsonValue (skipSpaces text)
        return ((name, value), text)
      else none
  | [] => none

/-- The loop of `ParseJsonRecord`; each field takes bytes from the text, whose
length bounds the number of turns. -/
def parseJsonFields : Nat → List UInt8 → Record → Option Record
  | 0, _, _ => none
  | turns + 1, text, fields =>
      if text = [] then none
      else
        let text := skipSpaces text
        if text.head? = some 0x7D then some fields
        else
          match readJsonField text with
          | none => none
          | some (field, text) =>
              let fields := fields ++ [field]
              match skipSpaces text with
              | [] => none
              | c :: text =>
                  if c = 0x2C then parseJsonFields turns text fields
                  else if c = 0x7D then some fields
                  else parseJsonFields turns (c :: text) fields

def parseJsonRecord (line : List UInt8) : Option Record :=
  match skipSpaces (trim line) with
  | [] => none
  | c :: text => if c = 0x7B then parseJsonFields (text.length + 1) text [] else none

/-- `FormatJsonRecord`; the flag says that a field stands before. -/
def appendJsonFields (output : List UInt8) : Bool → Record → List UInt8
  | _, [] => output
  | more, field :: fields =>
      let output := if more then output ++ [0x2C] else output
      let output := appendJsonEscaped output field.1 ++ [0x3A]
      appendJsonFields (appendJsonEscaped output field.2) true fields

def formatJsonRecord (record : Record) : List UInt8 :=
  appendJsonFields [0x7B] false record ++ [0x7D]

/-! ## XML -/

def xmlUnescape (value : List UInt8) : List UInt8 :=
  let value := TextSearch.replaceAll (ascii "&quot;") [0x22] value
  let value := TextSearch.replaceAll (ascii "&apos;") [0x27] value
  let value := TextSearch.replaceAll (ascii "&lt;") [0x3C] value
  let value := TextSearch.replaceAll (ascii "&gt;") [0x3E] value
  TextSearch.replaceAll (ascii "&amp;") [0x26] value

/-- The name in a start tag ends before white space. -/
def tagName (tag : List UInt8) : Name :=
  tag.takeWhile fun c => !(c == 0x20 || c == 0x09 || c == 0x0D || c == 0x0A)

def closeTag (name : Name) : List UInt8 := 0x3C :: (0x2F :: name ++ [0x3E])

/-- The loop of `ParseXmlRecord`: `behind` is the number of bytes from
`eventEnd` on, so `pos < eventEnd` when more are left. -/
def parseXmlFields (behind : Nat) : Nat → List UInt8 → Record → Option Record
  | 0, _, _ => none
  | turns + 1, text, fields =>
      if text.length ≤ behind then some fields
      else
        match splitFirst [0x3C] text with
        | none => some fields
        | some (_, opened) =>
            if opened.length + 1 ≤ behind then some fields
            else if opened.head? = some 0x2F then some fields
            else
              match splitFirst [0x3E] opened with
              | none => none
              | some (tag, content) =>
                  match splitFirst (closeTag (tagName tag)) content with
                  | none => none
                  | some (value, text) =>
                      parseXmlFields behind turns text
                        (fields ++ [(tagName tag, xmlUnescape value)])

def parseXmlRecord (line : List UInt8) : Option Record :=
  let text := trim line
  match splitFirst [0x3E] text, splitLast (ascii "</") text with
  | some (event, text'), some (before, _) =>
      if before.length ≤ event.length then none
      else parseXmlFields (text.length - before.length) (text'.length + 1) text' []
  | _, _ => none

/-- One byte in `AppendXmlEscaped` is escaped as in the library. -/
def formatXmlRecord (record : Record) : List UInt8 :=
  record.foldl (fun output field => appendXmlElement output field.1 field.2)
    (ascii "<event>") ++ ascii "</event>"

/-! ## The conversion -/

def parseRecord (line : List UInt8) : Format → Option Record
  | .json => parseJsonRecord line
  | .xml => parseXmlRecord line

def formatRecord (record : Record) : Format → List UInt8
  | .json => formatJsonRecord record
  | .xml => formatXmlRecord record

namespace Options

def writeBegin (options : Options) : List UInt8 :=
  if !options.finalize then []
  else
    match options.output with
    | .json => ascii "[\n"
    | .xml => [0x3C] ++ options.root ++ ascii ">\n"

def writeEnd (options : Options) (empty : Bool) : List UInt8 :=
  if !options.finalize then []
  else
    match options.output with
    | .json => (if empty then [] else [0x0A]) ++ ascii "]\n"
    | .xml => ascii "</" ++ options.root ++ ascii ">\n"

def writeRecord (options : Options) (record : Record) (first : Bool) : List UInt8 :=
  let formatted := formatRecord record options.output
  if options.finalize then
    match options.output with
    | .json => (if first then [] else ascii ",\n") ++ ascii "  " ++ formatted
    | .xml => ascii "  " ++ formatted ++ [0x0A]
  else formatted ++ [0x0A]

end Options

/-- What a conversion has written, and whether it succeeded. -/
structure Conversion where
  output : List UInt8
  success : Bool
  deriving DecidableEq

/-- The loop of `Convert`; a line that is no record ends it. -/
def convertLines (options : Options) : List (List UInt8) → List UInt8 → Bool → Conversion
  | [], output, first => ⟨output ++ options.writeEnd first, true⟩
  | line :: lines, output, first =>
      if trim line = [] then convertLines options lines output first
      else
        match parseRecord line options.input with
        | none => ⟨output, false⟩
        | some record =>
            let record := renameFields record options.inputFields
            let record := renameFields record options.outputFields
            convertLines options lines (output ++ options.writeRecord record first) false

def convert (options : Options) (input : List UInt8) : Conversion :=
  convertLines options (splitLines 0x0A input) options.writeBegin true

end Logme.Logmefmt
