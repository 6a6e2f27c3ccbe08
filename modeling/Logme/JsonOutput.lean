import Logme.ContextApply
import Logme.Library.Json

/-!
# JSON lines

`ApplyJson` writes one object whose members are the selected fields in their
order, whatever bytes the names and values consist of.  The escape is faithful
byte by byte; the `first` flag separates the fields that are present; and a
line that `Apply` returns again is the one of its last rendering.
-/

namespace Logme

open Json

/-! ## The escape -/

/-- An ASCII byte that does not end a line. -/
def isPlain (c : UInt8) : Bool := c < 0x80 && c != 0x0A

/-- The four digits of an escaped control byte are read back as the byte. -/
def readsBack (n : Nat) : List UInt8 → Bool
  | [h₁, h₂, h₃, h₄] =>
      decide (readHex4 h₁ h₂ h₃ h₄ = some [UInt8.ofNat n]) &&
        [h₁, h₂, h₃, h₄].all isPlain
  | _ => false

theorem escapeJson_control {b : UInt8} (hcontrol : b < 0x20) :
    ∃ h₁ h₂ h₃ h₄, padZero 4 (hexUpper b.toNat) = [h₁, h₂, h₃, h₄] ∧
      readHex4 h₁ h₂ h₃ h₄ = some [b] ∧ [h₁, h₂, h₃, h₄].all isPlain = true := by
  have hall : ∀ n < 32, readsBack n (padZero 4 (hexUpper n)) = true := by
    decide
  have hb := hall b.toNat (UInt8.lt_iff_toNat_lt.mp hcontrol)
  unfold readsBack at hb
  split at hb
  next h₁ h₂ h₃ h₄ hdigits =>
    rw [Bool.and_eq_true, decide_eq_true_eq, UInt8.ofNat_toNat] at hb
    exact ⟨h₁, h₂, h₃, h₄, hdigits, hb.1, hb.2⟩
  next => cases hb

theorem escapeJson_faithful : Faithful escapeJson :=
  .of_readsAsByte <| Unicode.forall_byte <| by decide +kernel

/-- A byte stands for itself, or it is an ASCII byte and so is its escape. -/
theorem escapeJson_cases (b : UInt8) :
    (escapeJson b = [b] ∧ ¬ b < 0x20) ∨
      (b < 0x80 ∧ (escapeJson b).all isPlain = true) := by
  unfold escapeJson
  split
  next h => subst h; exact .inr (by decide)
  split
  next h => subst h; exact .inr (by decide)
  split
  next h => subst h; exact .inr (by decide)
  split
  next h => subst h; exact .inr (by decide)
  split
  next h => subst h; exact .inr (by decide)
  split
  next h => subst h; exact .inr (by decide)
  split
  next h => subst h; exact .inr (by decide)
  split
  next hcontrol =>
    rcases escapeJson_control hcontrol with ⟨h₁, h₂, h₃, h₄, hdigits, -, hplain⟩
    have hlabel : (ascii "\\u").all isPlain = true := by decide
    rw [hdigits, List.all_append, hlabel, hplain]
    exact .inr ⟨UInt8.lt_trans hcontrol (by decide), rfl⟩
  next hcontrol => exact .inl ⟨rfl, hcontrol⟩

theorem escapeJson_keepsUtf8 : KeepsUtf8 escapeJson where
  ascii b hb c hc := by
    rcases escapeJson_cases b with ⟨hself, -⟩ | ⟨-, hplain⟩
    · rw [hself, List.mem_singleton] at hc
      exact hc ▸ hb
    · have hcPlain := List.all_eq_true.mp hplain c hc
      exact of_decide_eq_true (Bool.and_eq_true_iff.mp hcPlain).1
  raw b hb := by
    rcases escapeJson_cases b with ⟨hself, -⟩ | ⟨hlow, -⟩
    · exact hself
    · exact absurd hlow hb

theorem newline_notMem_escapeJson (b : UInt8) : 0x0A ∉ escapeJson b := by
  intro hc
  rcases escapeJson_cases b with ⟨hself, hcontrol⟩ | ⟨-, hplain⟩
  · rw [hself, List.mem_singleton] at hc
    exact hcontrol (hc ▸ by decide)
  · exact absurd (List.all_eq_true.mp hplain _ hc) (by decide)

/-! ## The members -/

/-- An output with the given members: a `first` output has none. -/
structure JsonOutput.Holds (o : JsonOutput) (members : List (Name × Value)) :
    Prop where
  output : o.output =
    0x7B :: [0x2C].intercalate (members.map (writeMember escapeJson))
  first : o.first = members.isEmpty

namespace JsonOutput

theorem intercalate_append_singleton (parts : List (List UInt8)) (part : List UInt8) :
    [0x2C].intercalate (parts ++ [part]) =
      (if parts.isEmpty then [] else [0x2C].intercalate parts ++ [0x2C]) ++ part := by
  induction parts with
  | nil => simp
  | cons first parts ih =>
      cases parts with
      | nil => simp
      | cons next parts => simpa using ih

variable {o : JsonOutput} {members : List (Name × Value)}

theorem holds_start : Holds ⟨[0x7B], true⟩ [] := ⟨by simp, rfl⟩

/-- The separator, the name and a written value are one more member. -/
theorem Holds.appendMember (h : Holds o members) (name : Name) (value : Value) :
    Holds ⟨(o.appendJsonFieldName name).output ++ writeValue escapeJson value, false⟩
      (members ++ [(name, value)]) := by
  refine ⟨?_, by simp⟩
  have hescaped : ∀ output : List UInt8, appendJsonEscaped output name =
      output ++ writeString escapeJson name := by
    intro output
    simp [appendJsonEscaped, writeString]
  have hisEmpty : (members.map (writeMember escapeJson)).isEmpty = members.isEmpty := by
    cases members <;> rfl
  rw [List.map_append, List.map_singleton, intercalate_append_singleton, hisEmpty,
    appendJsonFieldName, h.first, h.output, hescaped]
  cases members with
  | nil => simp [writeMember]
  | cons member members => simp [writeMember]

theorem Holds.appendJsonStringField (h : Holds o members) (name : Name)
    (value : List UInt8) :
    Holds (o.appendJsonStringField name value) (members ++ [(name, .string value)]) := by
  have hmember := h.appendMember name (.string value)
  have hvalue : (o.appendJsonStringField name value).output =
      (o.appendJsonFieldName name).output ++ writeString escapeJson value := by
    simp [JsonOutput.appendJsonStringField, appendJsonEscaped, writeString]
  exact ⟨hvalue.trans hmember.output, hmember.first⟩

theorem Holds.appendJsonUInt64Field (h : Holds o members) (name : Name) (value : Nat) :
    Holds (o.appendJsonUInt64Field name value) (members ++ [(name, .number value)]) := by
  have hmember := h.appendMember name (.number value)
  exact ⟨hmember.output, hmember.first⟩

/-- Fields under a condition are members under that condition. -/
theorem Holds.when (h : Holds o members) (condition : Bool)
    (append : JsonOutput → JsonOutput) (more : List (Name × Value))
    (happend : Holds (append o) (members ++ more)) :
    Holds (o.when condition append) (members ++ if condition then more else []) := by
  unfold JsonOutput.when
  cases condition with
  | true => exact happend
  | false => simpa using h

theorem Holds.stringWhen (h : Holds o members) (condition : Bool) (name : Name)
    (value : List UInt8) :
    Holds (o.when condition fun o => o.appendJsonStringField name value)
      (members ++ if condition then [(name, .string value)] else []) :=
  h.when condition _ _ (h.appendJsonStringField name value)

theorem Holds.uint64When (h : Holds o members) (condition : Bool) (name : Name)
    (value : Nat) :
    Holds (o.when condition fun o => o.appendJsonUInt64Field name value)
      (members ++ if condition then [(name, .number value)] else []) :=
  h.when condition _ _ (h.appendJsonUInt64Field name value)

theorem Holds.locationWhen (h : Holds o members) (condition : Bool)
    (file : Name) (path : List UInt8) (line : Name) (number : Nat) :
    Holds (o.when condition fun o =>
        (o.appendJsonStringField file path).appendJsonUInt64Field line number)
      (members ++
        if condition then [(file, .string path), (line, .number number)] else []) := by
  apply h.when condition
  have hboth := (h.appendJsonStringField file path).appendJsonUInt64Field line number
  rwa [List.append_assoc] at hboth

theorem Holds.appendOptional (h : Holds o members) (name : Name)
    (value : Option (List UInt8)) :
    Holds (o.appendOptional name value)
      (members ++ (value.map fun value => (name, .string value)).toList) := by
  cases value with
  | none => simpa [JsonOutput.appendOptional] using h
  | some value => exact h.appendJsonStringField name value

theorem Holds.optionalWhen (h : Holds o members) (condition : Bool) (name : Name)
    (value : Option (List UInt8)) :
    Holds (o.when condition fun o => o.appendOptional name value)
      (members ++ if condition then
        (value.map fun value => (name, .string value)).toList else []) :=
  h.when condition _ _ (h.appendOptional name value)

theorem Holds.foldl (h : Holds o members) (fields : List (Name × Name)) :
    Holds (fields.foldl (fun o field => o.appendJsonStringField field.1 field.2) o)
      (members ++ fields.map fun field => (field.1, .string field.2)) := by
  induction fields generalizing o members with
  | nil => simpa using h
  | cons field fields ih =>
      simpa using ih (h.appendJsonStringField field.1 field.2)

end JsonOutput

/-! ## The object of a message -/

namespace Message

/-- The selected fields in their order, for a time stamp and a method name. -/
def jsonFields (m : Message) (timestamp : Name) (method : Option Name)
    (flags : OutputFlags) : List (Name × Value) :=
  let name := m.fieldName
  (if flags.timestamp != 0 then [(name .timestamp, .string (trimRight timestamp))]
    else []) ++
  (if flags.signature then [(name .level, .string m.level.structuredName)] else []) ++
  (if flags.processID then [(name .processId, .number m.process)] else []) ++
  (if flags.threadID then [(name .threadId, .number m.thread)] else []) ++
  (if flags.channel then [(name .channel, .string m.channelName)] else []) ++
  (if flags.subsystem && m.subsystem != 0 then
    [(name .subsystem, .string (trimRight m.subsystemName))] else []) ++
  (if flags.location != 0 then
    [(name .file, .string (m.fileName flags)),
      (name .line, .number (m.line % 0x10000000000000000).toNat)] else []) ++
  (if flags.printsMethod then
    (method.map fun method => (name .method, .string method)).toList else []) ++
  (m.threadFields.map fun field => (field.1, .string field.2)) ++
  [(name .message, .string m.messageText)] ++
  ((m.appendText flags).map fun text => (name .duration, .string text)).toList

theorem jsonFields_congr {m : Message} {flags : OutputFlags} {t t' : Name}
    {method method' : Option Name} (htime : flags.timestamp ≠ 0 → t = t')
    (hmethod : flags.printsMethod = true → method = method') :
    m.jsonFields t method flags = m.jsonFields t' method' flags := by
  have hstamp : (if flags.timestamp != 0 then
        [(m.fieldName .timestamp, Value.string (trimRight t))] else []) =
      if flags.timestamp != 0 then
        [(m.fieldName .timestamp, Value.string (trimRight t'))] else [] := by
    split
    next h => rw [htime (by simpa using h)]
    next => rfl
  have hname : (if flags.printsMethod then
        (method.map fun method => (m.fieldName .method, Value.string method)).toList
        else []) =
      if flags.printsMethod then
        (method'.map fun method => (m.fieldName .method, Value.string method)).toList
        else [] := by
    split
    next h => rw [hmethod h]
    next => rfl
  simp only [jsonFields, hstamp, hname]

/-- The fields with the time stamp and the method name that a context holds. -/
def shownFields (m : Message) (s : ApplyState) (flags : OutputFlags) :
    List (Name × Value) :=
  m.jsonFields s.timestamp (s.method.map MethodName.text) flags

theorem jsonOutput_eq (m : Message) (s : ApplyState) (flags : OutputFlags) :
    m.jsonOutput s flags = writeObject escapeJson (m.shownFields s flags) := by
  have h := JsonOutput.holds_start
  replace h := h.stringWhen (flags.timestamp != 0) (m.fieldName .timestamp)
    (trimRight s.timestamp)
  replace h := h.stringWhen flags.signature (m.fieldName .level) m.level.structuredName
  replace h := h.uint64When flags.processID (m.fieldName .processId) m.process
  replace h := h.uint64When flags.threadID (m.fieldName .threadId) m.thread
  replace h := h.stringWhen flags.channel (m.fieldName .channel) m.channelName
  replace h := h.stringWhen (flags.subsystem && m.subsystem != 0)
    (m.fieldName .subsystem) (trimRight m.subsystemName)
  replace h := h.locationWhen (flags.location != 0) (m.fieldName .file)
    (m.fileName flags) (m.fieldName .line) (m.line % 0x10000000000000000).toNat
  replace h := h.optionalWhen flags.printsMethod (m.fieldName .method)
    (s.method.map MethodName.text)
  replace h := (h.foldl m.threadFields).appendJsonStringField
    (m.fieldName .message) m.messageText
  replace h := h.appendOptional (m.fieldName .duration) (m.appendText flags)
  exact congrArg (· ++ [0x7D]) h.output

theorem rendering_json (m : Message) (s : ApplyState) {flags : OutputFlags}
    (hjson : flags.format = 1) :
    m.rendering s flags = writeObject escapeJson (m.shownFields s flags) ++ eolBytes flags := by
  rw [rendering, if_pos hjson, jsonOutput_eq]

/-- What was rendered last as JSON is still what the context would render. -/
def KeepsJson (m : Message) (s : ApplyState) : Prop :=
  s.applied.format = 1 → s.lastData = some (m.rendering s s.applied)

theorem keepsJson_newContext (m : Message) (memory : List UInt8) :
    m.KeepsJson (m.newContext memory) :=
  m.keepsFormat_newContext memory Nat.one_ne_zero

theorem keepsJson_apply {m : Message} (s : ApplyState) (ch : OutputChannel)
    (flags : OutputFlags) (h : m.KeepsJson s) : m.KeepsJson (m.apply s ch flags) :=
  keepsFormat_apply (fun f hf => by simp [OutputFlags.isText, hf]) s ch flags h

/-- The flags that a call leaves in `Applied` are those it renders with. -/
theorem apply_applied (m : Message) (s : ApplyState) (ch : OutputChannel)
    (flags : OutputFlags) : (m.apply s ch flags).applied = m.flagsOf s flags := by
  rcases m.apply_cases s ch flags with ⟨happlied, hagain⟩ | ⟨-, hrendered⟩
  · rw [hagain, happlied]
  · exact hrendered.applied

theorem apply_newContext_fields (m : Message) (memory : List UInt8) (ch : OutputChannel)
    (flags : OutputFlags) (hjson : (flags.override m.ovr).format = 1) :
    let shown := m.flagsOf (m.newContext memory) flags
    m.shownFields (m.apply (m.newContext memory) ch flags) shown =
      m.jsonFields (m.time.initTimestamp shown.timestamp)
        (m.method.map fun text => (ch.shortenMethod m.ovr ⟨text, false⟩).text) shown := by
  intro shown
  have hshown : shown.format = 1 := (m.flagsOf_format _ flags).trans hjson
  rcases m.apply_cases (m.newContext memory) ch flags with ⟨happlied, -⟩ | ⟨-, hrendered⟩
  · have hinitial : m.initialApplied = shown := happlied
    rw [← hinitial, initialApplied_format] at hshown
    cases hshown
  · have hparts := hrendered.parts
    apply jsonFields_congr
    · intro htime
      rw [hparts.timestamp, ApplyState.prepare_timestamp, if_pos ⟨htime, rfl⟩]
    · intro hmethod
      rw [hparts.method, ApplyState.prepare_method, if_pos hmethod]
      simp [newContext, Function.comp_def]

end Message

/-- Every JSON line that `Apply` returns, after any calls on the context, is
one object on one line that is read as the selected fields in their order; it
is UTF-8 where they are.  In a new context the time stamp and the method are
those of the message. -/
theorem Message.json_line_faithful (m : Message) (memory : List UInt8)
    (calls : List ApplyCall) (ch : OutputChannel) (flags : OutputFlags)
    (hjson : (flags.override m.ovr).format = 1) :
    let before := m.applyAll (m.newContext memory) calls
    let shown := m.flagsOf before flags
    let after := m.apply before ch flags
    ∃ object,
      after.lastData = some (object ++ eolBytes shown) ∧ 0x0A ∉ object ∧
        readObject object = some (m.shownFields after shown) ∧
        ((∀ field ∈ m.shownFields after shown, Utf8 field.1 ∧ field.2.Utf8) →
          Utf8 object) ∧
        (calls = [] → m.shownFields after shown =
          m.jsonFields (m.time.initTimestamp shown.timestamp)
            (m.method.map fun text => (ch.shortenMethod m.ovr ⟨text, false⟩).text)
            shown) := by
  intro before shown after
  have hshown : shown.format = 1 := (m.flagsOf_format before flags).trans hjson
  have hkeeps : m.KeepsJson after :=
    Message.keepsJson_apply before ch flags
      (Message.applyAll_invariant Message.keepsJson_apply
        (m.keepsJson_newContext memory) calls)
  have happlied : after.applied = shown := m.apply_applied before ch flags
  refine ⟨writeObject escapeJson (m.shownFields after shown), ?_, ?_, ?_, ?_, ?_⟩
  · rw [hkeeps (happlied ▸ hshown), happlied, m.rendering_json after hshown]
  · exact notMem_writeObject newline_notMem_escapeJson (by decide) (by decide) _
  · simpa using escapeJson_faithful.readObject_writeObject
      (m.shownFields after shown) [] (by simp)
  · exact escapeJson_keepsUtf8.writeObject
  · rintro rfl
    exact m.apply_newContext_fields memory ch flags hjson

/-- A message with a quote, a control byte and a line break. -/
private def quotedMessage : Message where
  level := .info
  channelName := ascii "main"
  subsystem := 0
  method := none
  fullName := []
  line := 0
  procPrint := false
  procPrintIn := false
  appendProc := none
  ovr := none
  repeatCount := 0
  text := [0x22, 0x01, 0x0A]
  capacity := 16
  time := ⟨⟨2024, 1, 2, 3, 4, 5, 6⟩, ⟨2024, 1, 2, 1, 4, 5, 6⟩, 7200⟩
  process := 1
  thread := 2
  threadFields := []
  fieldName := defaultFieldNames

theorem Message.json_line_faithful_quoted :
    ∃ object, (quotedMessage.apply (quotedMessage.newContext []) {} ⟨0x80800⟩).lastData =
        some object ∧
      readObject object = some [(ascii "channel", .string (ascii "main")),
        (ascii "message", .string [0x22, 0x01, 0x0A])] := by
  rcases quotedMessage.json_line_faithful [] [] {} ⟨0x80800⟩ (by decide) with
    ⟨object, hline, -, hread, -⟩
  refine ⟨object, hline.trans ?_, hread.trans (by decide)⟩
  exact congrArg some (List.append_nil object)

end Logme
