import Logme.Library.Xml
import Logme.JsonOutput

/-!
# The XML of `Context::ApplyXml`

An XML line shows the fields of a JSON line, each as an element with the name
of the field and its value as character data.  Values are escaped but names
are not, and nothing is done about bytes that XML cannot show, so a record is
read back exactly when each of its names is an XML name and each of its values
is XML text without carriage returns.
-/

namespace Logme

/-! ## The escapes -/

theorem escapeXml_cases (b : UInt8) :
    (escapeXml b = [b] ∧ b ≠ 0x26 ∧ b ≠ 0x3C ∧ b ≠ 0x3E) ∨
      (0x3C ∉ escapeXml b ∧ 0x0D ∉ escapeXml b ∧ ∀ rest,
        Xml.readText none (escapeXml b ++ rest) = (Xml.readText none rest).map (b :: ·)) := by
  by_cases hmarkup : b = 0x26 ∨ b = 0x3C ∨ b = 0x3E ∨ b = 0x22 ∨ b = 0x27
  · right
    rcases hmarkup with rfl | rfl | rfl | rfl | rfl
    all_goals
      refine ⟨by decide, by decide, ?_⟩
      intro rest
      simp [escapeXml, ascii, Xml.readText, Xml.entity]
  · left
    rw [not_or, not_or, not_or, not_or] at hmarkup
    rcases hmarkup with ⟨hamp, hless, hgreater, hquote, hapostrophe⟩
    simp [escapeXml, hamp, hless, hgreater, hquote, hapostrophe]

theorem escapeXml_faithful : Xml.Faithful escapeXml where
  read b rest := by
    rcases escapeXml_cases b with ⟨hself, hamp, hless, hgreater⟩ | ⟨-, -, hread⟩
    · simp [hself, Xml.readText, hamp, hless, hgreater]
    · exact hread rest
  markup b := by
    rcases escapeXml_cases b with ⟨hself, -, hless, -⟩ | ⟨hmarkup, -⟩
    · rw [hself, List.mem_singleton]
      exact hless.symm
    · exact hmarkup
  noReturn b hb := by
    rcases escapeXml_cases b with ⟨hself, -⟩ | ⟨-, hreturn, -⟩
    · rw [hself, List.mem_singleton]
      exact hb.symm
    · exact hreturn

/-! ## The elements -/

def eventName : Name := ascii "event"

theorem isName_eventName : Xml.isName eventName = true := by
  rw [Xml.isName, Unicode.decode_ascii (by decide)]
  decide

/-- A field whose value is written as text. -/
def textField (field : Name × Json.Value) : Xml.Field :=
  match field.2 with
  | .string bytes => (field.1, bytes)
  | .number n => (field.1, decimalBytes n)

/-- An output with an element for each of the fields. -/
def HoldsElements (output : List UInt8) (fields : List (Name × Json.Value)) : Prop :=
  output = Xml.startTag eventName ++
    (fields.map textField).flatMap (Xml.writeElement escapeXml)

namespace HoldsElements

variable {output : List UInt8} {fields : List (Name × Json.Value)}

theorem start : HoldsElements (ascii "<event>") [] := by
  unfold HoldsElements
  decide

theorem append (h : HoldsElements output fields) (name : Name) (value : Json.Value) :
    HoldsElements (appendXmlElement output name (textField (name, value)).2)
      (fields ++ [(name, value)]) := by
  unfold HoldsElements at h ⊢
  have hname : (textField (name, value)).1 = name := by cases value <;> rfl
  simp [appendXmlElement, h, hname, Xml.writeElement, Xml.startTag, Xml.endTag,
    Xml.closing, ascii]

theorem appendOptional (h : HoldsElements output fields) (name : Name)
    (value : Option (List UInt8)) :
    HoldsElements (appendOptionalElement output name value)
      (fields ++ (value.map fun value => (name, .string value)).toList) := by
  cases value with
  | none => simpa [appendOptionalElement] using h
  | some value => exact h.append name (.string value)

/-- Elements under a condition. -/
theorem whenShown (h : HoldsElements output fields) {condition : Prop}
    [Decidable condition] {shown : Bool} (hshown : shown = true ↔ condition)
    {output' : List UInt8} {more : List (Name × Json.Value)}
    (hmore : HoldsElements output' (fields ++ more)) :
    HoldsElements (if condition then output' else output)
      (fields ++ if shown then more else []) := by
  by_cases hcondition : condition
  · rw [if_pos hcondition, if_pos (hshown.mpr hcondition)]
    exact hmore
  · rw [if_neg hcondition, if_neg fun h => hcondition (hshown.mp h), List.append_nil]
    exact h

theorem appendWhen (h : HoldsElements output fields) {condition : Prop}
    [Decidable condition] {shown : Bool} (hshown : shown = true ↔ condition)
    (name : Name) (value : Json.Value) :
    HoldsElements
      (if condition then appendXmlElement output name (textField (name, value)).2 else output)
      (fields ++ if shown then [(name, value)] else []) :=
  h.whenShown hshown (h.append name value)

theorem foldl (h : HoldsElements output fields) (more : List (Name × Name)) :
    HoldsElements (more.foldl (fun output field => appendXmlElement output field.1 field.2)
      output) (fields ++ more.map fun field => (field.1, .string field.2)) := by
  induction more generalizing output fields with
  | nil => simpa using h
  | cons field more ih => simpa [textField] using ih (h.append field.1 (.string field.2))

end HoldsElements

namespace Message

/-- The selected fields with the time stamp and the method name that a context
holds, as text. -/
def xmlFields (m : Message) (s : ApplyState) (flags : OutputFlags) : List Xml.Field :=
  (m.shownFields s flags).map textField

theorem xmlOutput_eq (m : Message) (s : ApplyState) (flags : OutputFlags) :
    m.xmlOutput s flags = Xml.writeRecord escapeXml eventName (m.xmlFields s flags) := by
  have h := HoldsElements.start
  have htime : (flags.timestamp != 0) = true ↔ flags.timestamp ≠ 0 := bne_iff_ne
  replace h := h.appendWhen htime (m.fieldName .timestamp)
    (.string (trimRight s.timestamp))
  replace h := h.appendWhen (Iff.refl (flags.signature = true)) (m.fieldName .level)
    (.string m.level.structuredName)
  replace h := h.appendWhen (Iff.refl (flags.processID = true)) (m.fieldName .processId)
    (.number m.process)
  replace h := h.appendWhen (Iff.refl (flags.threadID = true)) (m.fieldName .threadId)
    (.number m.thread)
  replace h := h.appendWhen (Iff.refl (flags.channel = true)) (m.fieldName .channel)
    (.string m.channelName)
  replace h := h.appendWhen (Iff.refl ((flags.subsystem && m.subsystem != 0) = true))
    (m.fieldName .subsystem) (.string (trimRight m.subsystemName))
  have hline := (h.append (m.fieldName .file) (.string (m.fileName flags))).append
    (m.fieldName .line) (.number (m.line % 0x10000000000000000).toNat)
  rw [List.append_assoc] at hline
  have hlocation : (flags.location != 0) = true ↔ flags.location ≠ 0 := bne_iff_ne
  replace h := h.whenShown hlocation hline
  replace h := h.whenShown (Iff.refl (flags.printsMethod = true))
    (h.appendOptional (m.fieldName .method) (s.method.map MethodName.text))
  replace h := (h.foldl m.threadFields).append (m.fieldName .message)
    (.string m.messageText)
  replace h := h.appendOptional (m.fieldName .duration) (m.appendText flags)
  have hclose : ascii "</event>" = Xml.endTag eventName := by decide
  rw [Xml.writeRecord, ← hclose]
  exact congrArg (· ++ ascii "</event>") h

/-! ## The lines of a context -/

/-- What was rendered last as XML is still what the context would render. -/
def KeepsXml (m : Message) (s : ApplyState) : Prop :=
  s.applied.format = 2 → s.lastData = some (m.rendering s s.applied)

theorem keepsXml_newContext (m : Message) (memory : List UInt8) :
    m.KeepsXml (m.newContext memory) :=
  m.keepsFormat_newContext memory (by decide)

theorem keepsXml_apply {m : Message} (s : ApplyState) (ch : OutputChannel)
    (flags : OutputFlags) (h : m.KeepsXml s) : m.KeepsXml (m.apply s ch flags) :=
  keepsFormat_apply (fun f hf => by simp [OutputFlags.isText, hf]) s ch flags h

/-- The fields of a line: a call with the flags of the last one returns its
line again, another call fills the parts it prints first. -/
def selectedFields (m : Message) (s : ApplyState) (ch : OutputChannel)
    (flags : OutputFlags) : List Xml.Field :=
  m.xmlFields (if s.applied = flags then s else s.prepare m ch flags) flags

/-- A line of a structured format is the rendering of the state that the call
shows. -/
theorem apply_line {m : Message} {s : ApplyState} (flags : OutputFlags)
    (hkeeps : s.applied = m.flagsOf s flags → s.lastData = some (m.rendering s s.applied))
    (htext : (m.flagsOf s flags).isText = false) (ch : OutputChannel) :
    (m.apply s ch flags).lastData =
      some (m.rendering
        (if s.applied = m.flagsOf s flags then s else s.prepare m ch (m.flagsOf s flags))
        (m.flagsOf s flags)) := by
  rcases m.apply_cases s ch flags with ⟨happlied, hagain⟩ | ⟨hnew, hrendered⟩
  · rw [hagain, if_pos happlied, hkeeps happlied, happlied]
  · rw [if_neg hnew, hrendered.lastData (by simp [Renders, htext]),
      rendering_congr hrendered.parts]

theorem rendering_xml (m : Message) (s : ApplyState) {flags : OutputFlags}
    (hxml : flags.format = 2) :
    m.rendering s flags =
      Xml.writeRecord escapeXml eventName (m.xmlFields s flags) ++ eolBytes flags := by
  rw [rendering, if_neg (by omega), if_pos hxml, xmlOutput_eq]

end Message

/-! ## Thread fields -/

/-- A `ThreadField`: any two strings, also with bytes 0 inside. -/
structure ThreadField where
  name : List UInt8
  value : List UInt8
  deriving DecidableEq

namespace ThreadField

def strings (field : ThreadField) : Name × Name := (field.name, field.value)

/-- The C strings that are printed. -/
def cStrings (field : ThreadField) : Name × Name :=
  (BufferCursor.cString field.name, BufferCursor.cString field.value)

end ThreadField

def Message.withThreadFields (m : Message) (fields : List (Name × Name)) : Message :=
  { m with threadFields := fields }

theorem cString_of_notMem {text : List UInt8} (h : 0 ∉ text) :
    BufferCursor.cString text = text := by
  rw [BufferCursor.cString, List.takeWhile_eq_self_iff]
  intro c hc
  rw [bne_iff_ne]
  rintro rfl
  exact h hc

theorem ThreadField.cStrings_of_shown {field : ThreadField} (h : Xml.Shown field.strings) :
    field.cStrings = field.strings := by
  have hname : 0 ∉ field.name := Xml.notMem_of_isName h.name (by decide) (by decide)
  have hvalue : 0 ∉ field.value := Xml.notMem_of_isText h.text (by decide) (by decide)
  rw [ThreadField.cStrings, cString_of_notMem hname, cString_of_notMem hvalue,
    ThreadField.strings]

namespace Message

theorem mem_selectedFields_threadField {m : Message} {field : Name × Name}
    (h : field ∈ m.threadFields) (s : ApplyState) (ch : OutputChannel)
    (flags : OutputFlags) : field ∈ m.selectedFields s ch flags := by
  have hmember : (field.1, Json.Value.string field.2) ∈
      m.threadFields.map fun field => (field.1, Json.Value.string field.2) :=
    List.mem_map_of_mem h
  apply List.mem_map.mpr
  refine ⟨(field.1, .string field.2), ?_, rfl⟩
  unfold shownFields jsonFields
  simp only [List.mem_append]
  exact Or.inl (Or.inl (Or.inr hmember))

/-- Printed as C strings, the selected fields are the same if the thread fields
among them are. -/
theorem selectedFields_cStrings {m : Message} {fields : List ThreadField} {s : ApplyState}
    {ch : OutputChannel} {flags : OutputFlags}
    (h : ∀ field : ThreadField, field.strings ∈
      (m.withThreadFields (fields.map ThreadField.strings)).selectedFields s ch flags →
        field.cStrings = field.strings) :
    (m.withThreadFields (fields.map ThreadField.cStrings)).selectedFields s ch flags =
      (m.withThreadFields (fields.map ThreadField.strings)).selectedFields s ch flags := by
  have hstrings : fields.map ThreadField.cStrings = fields.map ThreadField.strings := by
    refine List.map_congr_left fun field hfield => h field ?_
    exact mem_selectedFields_threadField (List.mem_map_of_mem hfield) _ _ _
  rw [hstrings]

end Message

/-- After any calls on a context, the line of a call that selects XML is read
as the element of the selected fields exactly when each of their names is an
XML name and each of their values XML text without carriage returns. -/
theorem Message.xml_line_read_iff (m : Message) (fields : List ThreadField)
    (memory : List UInt8) (calls : List ApplyCall) (ch : OutputChannel)
    (flags : OutputFlags) (hxml : (flags.override m.ovr).format = 2) :
    let printed := m.withThreadFields (fields.map ThreadField.cStrings)
    let before := printed.applyAll (printed.newContext memory) calls
    let selected := (m.withThreadFields (fields.map ThreadField.strings)).selectedFields
      before ch (printed.flagsOf before flags)
    ∃ line, (printed.apply before ch flags).lastData = some line ∧
      (Xml.readRecord line = some (eventName, selected) ↔
        ∀ field ∈ selected, Xml.Shown field) := by
  intro printed before selected
  have hkeeps : printed.KeepsXml before :=
    Message.applyAll_invariant Message.keepsXml_apply
      (printed.keepsXml_newContext memory) calls
  have hshown : (printed.flagsOf before flags).format = 2 :=
    (printed.flagsOf_format before flags).trans hxml
  have hline := Message.apply_line flags (fun happlied => hkeeps (happlied ▸ hshown))
    (by simp [OutputFlags.isText, hshown]) ch
  refine ⟨_, hline, Xml.readRecord_shown, ?_⟩
  intro hselected
  have hfields : printed.selectedFields before ch (printed.flagsOf before flags) =
      selected :=
    Message.selectedFields_cStrings fun field hfield =>
      ThreadField.cStrings_of_shown (hselected _ hfield)
  rw [printed.rendering_xml _ hshown]
  change Xml.readRecord (Xml.writeRecord escapeXml eventName
    (printed.selectedFields before ch (printed.flagsOf before flags)) ++ _) = _
  rw [hfields]
  refine (escapeXml_faithful.readRecord_writeRecord_iff isName_eventName selected ?_ ?_).mpr
    hselected
  · unfold eolBytes
    split <;> decide
  · unfold eolBytes
    split <;> decide

/-- A message without anything but its text. -/
def shortMessage : Message where
  level := .info
  channelName := ascii "main"
  subsystem := 0
  method := none
  fullName := []
  line := 0
  procPrint := false
  procPrintIn := false
  appendProc := none
  ovr := none
  repeatCount := 0
  text := ascii "m"
  capacity := 16
  time := ⟨⟨2024, 1, 2, 3, 4, 5, 6⟩, ⟨2024, 1, 2, 1, 4, 5, 6⟩, 7200⟩
  process := 1
  thread := 2
  threadFields := []
  fieldName := defaultFieldNames

theorem Message.xml_line_read_iff_user :
    let message := shortMessage.withThreadFields [(ascii "user", ascii "x<y")]
    ∃ line, (message.apply (message.newContext []) {} ⟨0x100000⟩).lastData = some line ∧
      Xml.readRecord line =
        some (eventName, [(ascii "user", ascii "x<y"), (ascii "message", ascii "m")]) := by
  rcases shortMessage.xml_line_read_iff [⟨ascii "user", ascii "x<y"⟩] [] [] {} ⟨0x100000⟩
    (by decide) with ⟨line, hline, hread⟩
  refine ⟨line, hline, hread.mpr ?_⟩
  intro field hfield
  have hmem : field ∈ [(ascii "user", ascii "x<y"), (ascii "message", ascii "m")] := hfield
  simp only [List.mem_cons, List.not_mem_nil, or_false] at hmem
  rcases hmem with rfl | rfl
  all_goals
    constructor
    · rw [Xml.isName, Unicode.decode_ascii (by decide)]
      decide
    · rw [Xml.isText, Unicode.decode_ascii (by decide)]
      decide
    · decide

/-- A thread field named `a b` makes the start tag `<a b>`. -/
theorem Message.spaced_name_not_read :
    let message := shortMessage.withThreadFields [(ascii "a b", ascii "x")]
    (message.apply (message.newContext []) {} ⟨0x100000⟩).lastData =
        some (ascii "<event><a b>x</a b><message>m</message></event>") ∧
      Xml.readRecord (ascii "<event><a b>x</a b><message>m</message></event>") ≠
        some (eventName, [(ascii "a b", ascii "x"), (ascii "message", ascii "m")]) := by
  refine ⟨by decide, ?_⟩
  intro hread
  have hname := (Xml.readRecord_shown hread (ascii "a b", ascii "x") (by simp)).name
  rw [Xml.isName, Unicode.decode_ascii (by decide)] at hname
  exact absurd hname (by decide)

end Logme
