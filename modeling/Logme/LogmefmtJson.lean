import Logme.Logmefmt
import Logme.XmlOutput

/-!
# Reading JSON records with `logmefmt`

`ReadJsonString` undoes the escapes of one letter and keeps a `\u` escape as
it is written.  The reader finds the fields of a written record again, in
their order and with every byte but the control bytes without an escape of one
letter, for which it returns the six bytes of their escape.
-/

namespace Logme.Logmefmt

open Json (Value writeString writeValue writeMember writeObject)

/-! ## Escapes -/

/-- A byte that is read back: control bytes need an escape of one letter. -/
def isReadable (b : UInt8) : Bool :=
  !(b < 0x20) || [0x08, 0x09, 0x0A, 0x0C, 0x0D].contains b

/-- The bytes that are read for a written byte. -/
def readsAs (b : UInt8) : List UInt8 := if isReadable b then [b] else Logme.escapeJson b

theorem escapeJson_eq (b : UInt8) : escapeJson b = Logme.escapeJson b := by
  by_cases hcontrol : b < 0x20
  · have hall : ∀ n < 32, escapeJson (UInt8.ofNat n) = Logme.escapeJson (UInt8.ofNat n) := by
      decide
    have hb := hall b.toNat (UInt8.lt_iff_toNat_lt.mp hcontrol)
    rwa [UInt8.ofNat_toNat] at hb
  · unfold escapeJson Logme.escapeJson
    rw [if_neg hcontrol, if_neg hcontrol]
    rfl

theorem readJsonChars_quote (text : List UInt8) :
    readJsonChars (0x22 :: text) = some ([], text) := by
  rw [readJsonChars.eq_def]
  rfl

theorem readJsonChars_letter {c : UInt8} (h : c ≠ 0x75) (text : List UInt8) :
    readJsonChars (0x5C :: c :: text) =
      (readJsonChars text).map fun read => (unescapeLetter c :: read.1, read.2) := by
  rw [readJsonChars.eq_def]
  simp [h]

/-- Six bytes that begin a `\u` escape, which are readable themselves. -/
def isHexEscape : List UInt8 → Bool
  | [c, u, h₁, h₂, h₃, h₄] =>
      c == 0x5C && u == 0x75 && [c, u, h₁, h₂, h₃, h₄].all isReadable
  | _ => false

theorem isHexEscape_of_unreadable {b : UInt8} (h : isReadable b = false) :
    isHexEscape (Logme.escapeJson b) = true := by
  have hcontrol : b < 0x20 := by
    by_contra hlarge
    simp [isReadable, hlarge] at h
  have hall : ∀ n < 32, isReadable (UInt8.ofNat n) = false →
      isHexEscape (Logme.escapeJson (UInt8.ofNat n)) = true := by
    decide
  have hb := hall b.toNat (UInt8.lt_iff_toNat_lt.mp hcontrol)
  rw [UInt8.ofNat_toNat] at hb
  exact hb h

theorem escapeJson_unreadable {b : UInt8} (h : isReadable b = false) :
    ∃ h₁ h₂ h₃ h₄, Logme.escapeJson b = [0x5C, 0x75, h₁, h₂, h₃, h₄] ∧
      (Logme.escapeJson b).all isReadable = true := by
  have hescape := isHexEscape_of_unreadable h
  unfold isHexEscape at hescape
  split at hescape
  next c u h₁ h₂ h₃ h₄ heq =>
    rw [Bool.and_eq_true, Bool.and_eq_true, beq_iff_eq, beq_iff_eq] at hescape
    rcases hescape with ⟨⟨rfl, rfl⟩, hall⟩
    exact ⟨h₁, h₂, h₃, h₄, heq, heq ▸ hall⟩
  next => cases hescape

/-- Whatever is read is readable. -/
theorem isReadable_of_mem_readsAs {b c : UInt8} (h : c ∈ readsAs b) :
    isReadable c = true := by
  unfold readsAs at h
  split at h
  next hb =>
    rw [List.mem_singleton] at h
    exact h ▸ hb
  next hb =>
    rcases escapeJson_unreadable (Bool.eq_false_iff.mpr hb) with ⟨_, _, _, _, -, hall⟩
    exact List.all_eq_true.mp hall c h

/-- Every byte of a text can be read back. -/
def Readable (text : List UInt8) : Prop := ∀ b ∈ text, isReadable b = true

theorem flatMap_readsAs_of_readable {text : List UInt8} (h : Readable text) :
    text.flatMap readsAs = text := by
  have hself : ∀ b ∈ text, readsAs b = [b] := by
    intro b hb
    rw [readsAs, if_pos (h b hb)]
  rw [List.flatMap_congr hself, List.flatMap_singleton']

theorem readJsonChars_escapeJson (b : UInt8) (text : List UInt8) :
    readJsonChars (Logme.escapeJson b ++ text) =
      (readJsonChars text).map fun read => (readsAs b ++ read.1, read.2) := by
  cases hreadable : isReadable b with
  | false =>
      rcases escapeJson_unreadable hreadable with ⟨h₁, h₂, h₃, h₄, hescape, -⟩
      rw [readsAs, hreadable, hescape, readJsonChars.eq_def]
      rfl
  | true =>
      rw [readsAs, hreadable, Logme.escapeJson]
      split
      next h => subst h; exact readJsonChars_letter (by decide) text
      split
      next h => subst h; exact readJsonChars_letter (by decide) text
      split
      next h => subst h; exact readJsonChars_letter (by decide) text
      split
      next h => subst h; exact readJsonChars_letter (by decide) text
      split
      next h => subst h; exact readJsonChars_letter (by decide) text
      split
      next h => subst h; exact readJsonChars_letter (by decide) text
      split
      next h => subst h; exact readJsonChars_letter (by decide) text
      split
      next hb hf hn hr ht hcontrol =>
        simp [isReadable, hcontrol, hb, hf, hn, hr, ht] at hreadable
      next hquote hbackslash _ _ _ _ _ hcontrol =>
        rw [List.singleton_append, readJsonChars.eq_def]
        simp [hquote, hbackslash]

theorem readJsonChars_flatMap (value text : List UInt8) :
    readJsonChars (value.flatMap Logme.escapeJson ++ 0x22 :: text) =
      some (value.flatMap readsAs, text) := by
  induction value with
  | nil => exact readJsonChars_quote text
  | cons b value ih =>
      rw [List.flatMap_cons, List.append_assoc, readJsonChars_escapeJson, ih]
      rfl

/-! ## Fields -/

theorem readJsonString_writeString (value text : List UInt8) :
    readJsonString (writeString Logme.escapeJson value ++ text) =
      some (value.flatMap readsAs, text) := by
  have hwritten : writeString Logme.escapeJson value ++ text =
      0x22 :: (value.flatMap Logme.escapeJson ++ 0x22 :: text) := by
    simp [writeString]
  rw [hwritten, readJsonString, if_pos rfl, readJsonChars_flatMap]

theorem skipSpaces_cons {c : UInt8} (h : isSpace c = false) (text : List UInt8) :
    skipSpaces (c :: text) = c :: text := by
  simp [skipSpaces, h]

/-- A digit is no white space, no quote and no end of a raw value. -/
theorem isDigit_cases {c : UInt8} (h : Json.isDigit c = true) :
    isSpace c = false ∧ c ≠ 0x22 ∧ c ≠ 0x2C ∧ c ≠ 0x7D := by
  have hrange := Bool.and_eq_true_iff.mp h
  have hlow : 0x30 ≤ c := of_decide_eq_true hrange.1
  have hhigh : c ≤ 0x39 := of_decide_eq_true hrange.2
  refine ⟨?_, ?_, ?_, ?_⟩
  · rw [Bool.eq_false_iff]
    intro hspace
    rw [isSpace, Bool.or_eq_true, Bool.and_eq_true, beq_iff_eq, decide_eq_true_eq,
      decide_eq_true_eq] at hspace
    rcases hspace with rfl | ⟨-, hcontrol⟩
    · exact absurd hlow (by decide)
    · exact absurd (UInt8.le_trans hlow hcontrol) (by decide)
  · rintro rfl
    exact absurd hlow (by decide)
  · rintro rfl
    exact absurd hlow (by decide)
  · rintro rfl
    exact absurd hhigh (by decide)

theorem trim_append {text space : List UInt8} (hne : text ≠ [])
    (hhead : ∀ c ∈ text.head?, isSpace c = false)
    (hlast : ∀ c ∈ text.getLast?, isSpace c = false) (hspace : space.all isSpace = true) :
    trim (text ++ space) = text := by
  have hdrop : (text ++ space).dropWhile isSpace = text ++ space := by
    cases text with
    | nil => exact absurd rfl hne
    | cons c text => simp [hhead c (by simp)]
  have hkept : text.rdropWhile isSpace = text := by
    rw [List.rdropWhile_eq_self_iff]
    intro hne
    rw [hlast _ (by rw [List.getLast?_eq_getLast_of_ne_nil hne]; rfl)]
    simp
  have hspaces : ∀ c ∈ space.reverse, isSpace c = true := by
    intro c hc
    exact List.all_eq_true.mp hspace c (List.mem_reverse.mp hc)
  rw [trim, hdrop, List.rdropWhile, List.reverse_append,
    List.dropWhile_append_of_pos hspaces, ← List.rdropWhile, hkept]

/-- What follows a value in an object. -/
def EndsValue (text : List UInt8) : Prop :=
  ∃ c rest, text = c :: rest ∧ (c = 0x2C ∨ c = 0x7D)

theorem readJsonRawValue_writeNumber (n : Nat) {text : List UInt8} (htext : EndsValue text) :
    readJsonRawValue (Json.writeNumber n ++ text) = some (Json.writeNumber n, text) := by
  have hdigit : ∀ c ∈ Json.writeNumber n, isSpace c = false ∧ (c != 0x2C && c != 0x7D) = true := by
    intro c hc
    rcases isDigit_cases (Json.isDigit_of_mem_writeNumber hc) with ⟨hspace, -, hcomma, hbrace⟩
    simp [hspace, hcomma, hbrace]
  rcases htext with ⟨c, rest, rfl, hend⟩
  have hstop : (c != 0x2C && c != 0x7D) = false := by
    rcases hend with rfl | rfl <;> decide
  have hstops : (c :: rest).takeWhile (fun c => c != 0x2C && c != 0x7D) = [] := by
    rw [List.takeWhile_cons, hstop]
    rfl
  have hrest : (c :: rest).dropWhile (fun c => c != 0x2C && c != 0x7D) = c :: rest := by
    rw [List.dropWhile_cons, hstop]
    rfl
  have hne : Json.writeNumber n ≠ [] := by
    simp [Json.writeNumber]
  have htrim : trim (Json.writeNumber n) = Json.writeNumber n := by
    have hspaces := trim_append hne (fun c hc => (hdigit c (List.mem_of_mem_head? hc)).1)
      (fun c hc => (hdigit c (List.mem_of_mem_getLast? hc)).1)
      (show ([] : List UInt8).all isSpace = true by rfl)
    rwa [List.append_nil] at hspaces
  rw [readJsonRawValue, List.takeWhile_append_of_pos fun c hc => (hdigit c hc).2, hstops,
    List.dropWhile_append_of_pos fun c hc => (hdigit c hc).2, hrest, List.append_nil, htrim]
  exact if_neg hne

theorem writeNumber_readsAs (n : Nat) :
    (Json.writeNumber n).flatMap readsAs = Json.writeNumber n := by
  apply flatMap_readsAs_of_readable
  intro c hc
  have hrange := Bool.and_eq_true_iff.mp (Json.isDigit_of_mem_writeNumber hc)
  have hlow : 0x30 ≤ c := of_decide_eq_true hrange.1
  have hlarge : ¬ c < 0x20 := UInt8.not_lt.mpr (UInt8.le_trans (by decide) hlow)
  simp [isReadable, hlarge]

/-- The field that is read for a written member. -/
def readMember (member : Name × Value) : Name × List UInt8 :=
  (member.1.flatMap readsAs, (textField member).2.flatMap readsAs)

theorem readJsonValue_writeValue (member : Name × Value) {text : List UInt8}
    (htext : EndsValue text) :
    readJsonValue (writeValue Logme.escapeJson member.2 ++ text) =
      some ((readMember member).2, text) := by
  rcases member with ⟨name, value⟩
  cases value with
  | string bytes =>
      have hquote : (writeString Logme.escapeJson bytes ++ text).head? = some 0x22 := rfl
      rw [writeValue, readJsonValue, if_pos hquote, readJsonString_writeString]
      rfl
  | number n =>
      have hquote : (Json.writeNumber n ++ text).head? ≠ some 0x22 := by
        cases hdigits : Json.writeNumber n with
        | nil => simp [Json.writeNumber] at hdigits
        | cons c digits =>
            have hdigit : c ∈ Json.writeNumber n := by simp [hdigits]
            simpa using (isDigit_cases (Json.isDigit_of_mem_writeNumber hdigit)).2.1
      have hread : (readMember (name, .number n)).2 = Json.writeNumber n :=
        writeNumber_readsAs n
      rw [writeValue, readJsonValue, if_neg hquote, readJsonRawValue_writeNumber n htext, hread]

theorem skipSpaces_writeValue (value : Value) (text : List UInt8) :
    skipSpaces (writeValue Logme.escapeJson value ++ text) =
      writeValue Logme.escapeJson value ++ text := by
  cases value with
  | string bytes => exact skipSpaces_cons (by decide) _
  | number n =>
      cases hdigits : writeValue Logme.escapeJson (.number n) with
      | nil => simp [writeValue, Json.writeNumber] at hdigits
      | cons c digits =>
          have hdigit : c ∈ Json.writeNumber n := by
            rw [← writeValue, hdigits]
            simp
          exact skipSpaces_cons (isDigit_cases (Json.isDigit_of_mem_writeNumber hdigit)).1 _

theorem readJsonField_writeMember (member : Name × Value) {text : List UInt8}
    (htext : EndsValue text) :
    readJsonField (writeMember Logme.escapeJson member ++ text) =
      some (readMember member, text) := by
  have hwritten : writeMember Logme.escapeJson member ++ text =
      writeString Logme.escapeJson member.1 ++
        0x3A :: (writeValue Logme.escapeJson member.2 ++ text) := by
    simp [writeMember]
  simp only [readJsonField, hwritten, readJsonString_writeString, Option.bind_eq_bind,
    Option.bind_some, skipSpaces_cons (show isSpace 0x3A = false by decide), if_true,
    skipSpaces_writeValue, readJsonValue_writeValue member htext]
  rfl

/-! ## Records -/

/-- One turn of the loop: the field, and the comma or brace behind it. -/
theorem parseJsonFields_writeMember (turns : Nat) (member : Name × Value) {c : UInt8}
    (hend : c = 0x2C ∨ c = 0x7D) (text : List UInt8) (fields : Record) :
    parseJsonFields (turns + 1) (writeMember Logme.escapeJson member ++ c :: text) fields =
      if c = 0x2C then parseJsonFields turns text (fields ++ [readMember member])
      else some (fields ++ [readMember member]) := by
  have hends : EndsValue (c :: text) := ⟨c, text, rfl, hend⟩
  have hfield := readJsonField_writeMember member hends
  have hspace : isSpace c = false := by
    rcases hend with rfl | rfl <;> decide
  have hwritten : writeMember Logme.escapeJson member ++ c :: text =
      0x22 :: (member.1.flatMap Logme.escapeJson ++ 0x22 :: 0x3A ::
        (writeValue Logme.escapeJson member.2 ++ c :: text)) := by
    simp [writeMember, writeString]
  rw [hwritten] at hfield ⊢
  simp only [parseJsonFields, skipSpaces_cons (show isSpace 0x22 = false by decide), hfield,
    skipSpaces_cons hspace, List.head?_cons, List.cons_ne_nil, if_false, Option.some.injEq,
    show (0x22 : UInt8) ≠ 0x7D by decide]
  rcases hend with rfl | rfl <;> simp

theorem parseJsonFields_intercalate (members : List (Name × Value)) (text : List UInt8)
    {turns : Nat} (hturns : members.length < turns) (fields : Record) :
    parseJsonFields turns
        ([0x2C].intercalate (members.map (writeMember Logme.escapeJson)) ++ 0x7D :: text)
        fields =
      some (fields ++ members.map readMember) := by
  induction members generalizing turns fields with
  | nil =>
      cases turns with
      | zero => simp at hturns
      | succ turns => simp [parseJsonFields, skipSpaces, isSpace]
  | cons member members ih =>
      cases turns with
      | zero => simp at hturns
      | succ turns =>
          cases members with
          | nil =>
              rw [List.map_singleton, List.intercalate_singleton,
                parseJsonFields_writeMember turns member (Or.inr rfl)]
              simp
          | cons next members =>
              rw [List.map_cons, List.map_cons, List.intercalate_cons_cons, List.append_assoc,
                List.append_assoc, List.singleton_append,
                parseJsonFields_writeMember turns member (Or.inl rfl), if_pos rfl,
                ← List.map_cons, ih (by simpa using hturns)]
              simp

theorem length_lt_writeObject (members : List (Name × Value)) :
    members.length <
      ([0x2C].intercalate (members.map (writeMember Logme.escapeJson)) ++ [0x7D]).length + 1 := by
  induction members with
  | nil => simp
  | cons member members ih =>
      cases members with
      | nil => simp
      | cons next members =>
          rw [List.map_cons, List.map_cons, List.intercalate_cons_cons, ← List.map_cons]
          simp only [List.length_append, List.length_cons] at ih ⊢
          omega

/-- A written object is read as the fields of its members, with white space
behind it. -/
theorem parseJsonRecord_writeObject (members : List (Name × Value)) {space : List UInt8}
    (hspace : space.all isSpace = true) :
    parseJsonRecord (writeObject Logme.escapeJson members ++ space) =
      some (members.map readMember) := by
  have htrim : trim (writeObject Logme.escapeJson members ++ space) =
      writeObject Logme.escapeJson members := by
    refine trim_append (by simp [writeObject]) ?_ ?_ hspace
    · simp [writeObject, isSpace]
    · simp [writeObject, isSpace, List.getLast?_cons]
  rw [parseJsonRecord, htrim, writeObject, skipSpaces_cons (by decide)]
  exact parseJsonFields_intercalate members [] (length_lt_writeObject members) []

/-! ## The records of the tool -/

/-- The members of a record. -/
def members (record : Record) : List (Name × Value) :=
  record.map fun field => (field.1, .string field.2)

theorem appendJsonEscaped_eq (output value : List UInt8) :
    appendJsonEscaped output value = output ++ writeString Logme.escapeJson value := by
  have hescape : escapeJson = Logme.escapeJson := funext escapeJson_eq
  simp [appendJsonEscaped, writeString, hescape]

theorem appendJsonFields_eq (output : List UInt8) (more : Bool) (record : Record) :
    appendJsonFields output more record =
      output ++ (if more && !record.isEmpty then [0x2C] else []) ++
        [0x2C].intercalate ((members record).map (writeMember Logme.escapeJson)) := by
  induction record generalizing output more with
  | nil => simp [appendJsonFields, members]
  | cons field record ih =>
      simp only [appendJsonFields, ih, appendJsonEscaped_eq]
      cases record with
      | nil => cases more <;> simp [members, writeMember, writeValue]
      | cons next record => cases more <;> simp [members, writeMember, writeValue]

theorem formatJsonRecord_eq (record : Record) :
    formatJsonRecord record = writeObject Logme.escapeJson (members record) := by
  rw [formatJsonRecord, appendJsonFields_eq]
  simp [writeObject]

/-- A record with the bytes that are read for its own. -/
def readsBackAs (record : Record) : Record :=
  record.map fun field => (field.1.flatMap readsAs, field.2.flatMap readsAs)

def ReadableRecord (record : Record) : Prop :=
  ∀ field ∈ record, Readable field.1 ∧ Readable field.2

theorem parseJsonRecord_formatJsonRecord (record : Record) :
    parseJsonRecord (formatJsonRecord record) = some (readsBackAs record) := by
  have hread := parseJsonRecord_writeObject (members record)
    (show ([] : List UInt8).all isSpace = true by rfl)
  rw [List.append_nil, ← formatJsonRecord_eq] at hread
  rw [hread, members, List.map_map]
  rfl

theorem readableRecord_readsBackAs (record : Record) :
    ReadableRecord (readsBackAs record) := by
  intro field hfield
  rcases List.mem_map.mp hfield with ⟨source, -, rfl⟩
  constructor
  · intro b hb
    rcases List.mem_flatMap.mp hb with ⟨c, -, hc⟩
    exact isReadable_of_mem_readsAs hc
  · intro b hb
    rcases List.mem_flatMap.mp hb with ⟨c, -, hc⟩
    exact isReadable_of_mem_readsAs hc

theorem readsBackAs_of_readable {record : Record} (h : ReadableRecord record) :
    readsBackAs record = record := by
  have hself : ∀ field ∈ record,
      (field.1.flatMap readsAs, field.2.flatMap readsAs) = field := by
    intro field hfield
    rw [flatMap_readsAs_of_readable (h field hfield).1,
      flatMap_readsAs_of_readable (h field hfield).2]
  rw [readsBackAs, List.map_congr_left hself, List.map_id']

/-! ## The lines of the library -/

/-- What `logmefmt` reads of a line of `ApplyJson` are the selected fields. -/
theorem parseJsonRecord_rendering (m : Message) (s : ApplyState) {flags : OutputFlags}
    (hjson : flags.format = 1) :
    parseJsonRecord (m.rendering s flags) = some (readsBackAs (m.xmlFields s flags)) := by
  rw [m.rendering_json s hjson, parseJsonRecord_writeObject]
  · rw [Message.xmlFields, readsBackAs, List.map_map]
    apply congrArg some
    apply List.map_congr_left
    rintro ⟨name, value⟩ -
    cases value <;> rfl
  · unfold Message.eolBytes
    split <;> decide

theorem cStrings_of_readable {field : ThreadField} (hname : Readable field.name)
    (hvalue : Readable field.value) : field.cStrings = field.strings := by
  have hzero : isReadable 0 = false := by decide
  have hname : 0 ∉ field.name := fun hmem => by simp [hname 0 hmem] at hzero
  have hvalue : 0 ∉ field.value := fun hmem => by simp [hvalue 0 hmem] at hzero
  rw [ThreadField.cStrings, cString_of_notMem hname, cString_of_notMem hvalue,
    ThreadField.strings]

/-- `logmefmt` reads a record back, from its own JSON and from the line of the
library for those fields, exactly when every control byte in it has an escape
of one letter. -/
theorem json_record_read_iff (record : Record) (m : Message) (fields : List ThreadField)
    (memory : List UInt8) (calls : List ApplyCall) (ch : OutputChannel)
    (flags : OutputFlags) :
    (parseJsonRecord (formatJsonRecord record) = some record ↔ ReadableRecord record) ∧
    ((flags.override m.ovr).format = 1 →
      let printed := m.withThreadFields (fields.map ThreadField.cStrings)
      let before := printed.applyAll (printed.newContext memory) calls
      let selected := (m.withThreadFields (fields.map ThreadField.strings)).selectedFields
        before ch (printed.flagsOf before flags)
      ∃ line, (printed.apply before ch flags).lastData = some line ∧
        (parseJsonRecord line = some selected ↔ ReadableRecord selected)) := by
  constructor
  · rw [parseJsonRecord_formatJsonRecord, Option.some_inj]
    constructor
    · intro h
      exact h ▸ readableRecord_readsBackAs record
    · exact readsBackAs_of_readable
  · intro hjson printed before selected
    have hkeeps : printed.KeepsJson before :=
      Message.applyAll_invariant Message.keepsJson_apply
        (printed.keepsJson_newContext memory) calls
    have hshown : (printed.flagsOf before flags).format = 1 :=
      (printed.flagsOf_format before flags).trans hjson
    have hline := Message.apply_line flags
      (fun happlied => hkeeps (happlied ▸ hshown)) (by simp [OutputFlags.isText, hshown]) ch
    refine ⟨_, hline, ?_⟩
    rw [parseJsonRecord_rendering printed _ hshown, Option.some_inj]
    change readsBackAs (printed.selectedFields before ch (printed.flagsOf before flags)) =
      selected ↔ _
    constructor
    · intro h
      exact h ▸ readableRecord_readsBackAs _
    · intro hselected
      have hfields : printed.selectedFields before ch (printed.flagsOf before flags) =
          selected :=
        Message.selectedFields_cStrings fun field hfield =>
          cStrings_of_readable (hselected _ hfield).1 (hselected _ hfield).2
      rw [hfields, readsBackAs_of_readable hselected]

theorem json_record_read_iff_quoted :
    let message := shortMessage.withThreadFields [(ascii "user", [0x22, 0x0A, 0x2C])]
    ∃ line, (message.apply (message.newContext []) {} ⟨0x80000⟩).lastData = some line ∧
      parseJsonRecord line =
        some [(ascii "user", [0x22, 0x0A, 0x2C]), (ascii "message", ascii "m")] := by
  rcases (json_record_read_iff [] shortMessage [⟨ascii "user", [0x22, 0x0A, 0x2C]⟩] [] [] {}
    ⟨0x80000⟩).2 (by decide) with ⟨line, hline, hread⟩
  refine ⟨line, hline, hread.mpr ?_⟩
  intro field hfield
  have hmem : field ∈ [(ascii "user", [0x22, 0x0A, 0x2C]), (ascii "message", ascii "m")] :=
    hfield
  simp only [List.mem_cons, List.not_mem_nil, or_false] at hmem
  rcases hmem with rfl | rfl
  all_goals
    constructor
    · exact List.all_eq_true.mp (by decide)
    · exact List.all_eq_true.mp (by decide)

/-- The escape of a byte 1 stays in the value. -/
theorem json_escape_kept :
    parseJsonRecord (formatJsonRecord [(ascii "message", [0x01])]) =
        some [(ascii "message", ascii "\\u0001")] ∧
      parseJsonRecord (formatJsonRecord [(ascii "message", [0x01])]) ≠
        some [(ascii "message", [0x01])] := by
  rw [parseJsonRecord_formatJsonRecord]
  decide

end Logme.Logmefmt
