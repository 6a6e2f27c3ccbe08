import Mathlib.Data.List.TakeWhile
import Logme.FormatSizeHint

/-!
# The text of a record

`DoLog` hands a string argument of the format `%s` on as it is.  For any other
format it takes a buffer of the hinted or of the largest size, keeps back one
byte, and lets the fast formatter or `vsnprintf` write into the rest.
-/

namespace Logme

open StepSystem

/-- A format with its arguments at a call site; `buffer` is what `alloca`
returns. -/
structure RecordCall (κ : Type) where
  site : κ
  format : FormatString
  args : Nat → VaArg
  buffer : Nat
  format_ne : format.address ≠ 0
  buffer_ne : buffer ≠ 0

/-- The bytes written from the start of `TempBuffer` on, with `TempBufferSize`
and the number of bytes there are. -/
structure TempBuffer where
  bytes : List Char
  size : Nat
  capacity : Nat
  deriving DecidableEq

/-- `%p` as the C library spells it. -/
def libraryPointer (value : Nat) : List Char :=
  if value = 0 then ['(', 'n', 'i', 'l', ')'] else fastPointer value

/-- `SetText`. -/
def setText (text : Option CString) : TempBuffer :=
  let chars := (text.map CString.chars).getD []
  ⟨chars ++ [nul], chars.length, chars.length + 16⟩

/-- `vsnprintf` with all but the last byte, and the length that `DoLog` makes of
its result. -/
def vsnprintfBuffer (text : List Char) (size : Nat) : TempBuffer :=
  ⟨text.take (size - 1 - 1) ++ [nul], min text.length (size - 1), size⟩

namespace FastFormatCaches

variable {κ : Type} [DecidableEq κ]

omit [DecidableEq κ] in
def allocated (c : FastFormatCaches κ) (call : RecordCall κ) : Nat :=
  if (c.context call.site).state = .ready ∧
      (c.context call.site).ffe.format = call.format.address ∧
      (c.context call.site).ffe.bufferSizeHint ≠ 0 then
    (c.context call.site).ffe.bufferSizeHint
  else 16384

/-- `TempBuffer` after formatting, for arguments on which `vsnprintf` does not
fail. -/
def formatRecord (other : List Char → (Nat → VaArg) → List Char)
    (c : FastFormatCaches κ) (call : RecordCall κ) : TempBuffer :=
  if call.format.chars = ['%', 's'] then setText (call.args 0).string
  else
    match (c.tryFastFormat
      ⟨call.site, call.buffer, c.allocated call - 1, call.format, call.args⟩).2 with
    | some formatted => ⟨formatted.buffer, formatted.outLen, c.allocated call⟩
    | none =>
        vsnprintfBuffer (message libraryPointer other call.format.chars call.args)
          (c.allocated call)

/-- The entry that is found for the format, or else built. -/
def entryFor (c : FastFormatCaches κ) (call : RecordCall κ) : FastFormatEntry :=
  (c.findFastFormat call.site call.format.address).2.getD
    (buildFastFormat call.format.address call.format.chars)

end FastFormatCaches

/-- The buffer holds the message, cut where the buffer ends, and its length. -/
structure RecordsText (text : List Char) (t : TempBuffer) : Prop where
  length : t.size = (textOf t.bytes).length
  begins : textOf t.bytes <+: text
  whole : text.length + 2 ≤ t.capacity → textOf t.bytes = text
  inside : t.bytes.length ≤ t.capacity

/-- When the text is recorded with its length: `%s` has a string; a format that
`vsnprintf` gets has a text without zero bytes that fits; the fast formatter
spells no null pointer before the end of the buffer; and where the entry was
built from another text, what it spells now is the message all the same. -/
def Measured {κ : Type} [DecidableEq κ] (other : List Char → (Nat → VaArg) → List Char)
    (c : FastFormatCaches κ) (call : RecordCall κ) : Prop :=
  let text := message libraryPointer other call.format.chars call.args
  let room := c.allocated call - 2
  if call.format.chars = ['%', 's'] then (call.args 0).string ≠ none
  else if (c.entryFor call).kind1 = .none then text.length ≤ room ∧ nul ∉ text
  else if c.entryFor call = buildFastFormat call.format.address call.format.chars then
    (message fastPointer other call.format.chars call.args).take room = text.take room
  else
    let spelled := ((c.entryFor call).spell call.format call.args).take room
    nul ∉ spelled ∧ spelled <+: text ∧ (text.length ≤ room → spelled = text)

/-! ## Texts in buffers -/

@[simp] theorem textOf_append_nul (text : List Char) : textOf (text ++ [nul]) = textOf text := by
  induction text with
  | nil => rfl
  | cons ch text ih =>
      unfold textOf at ih ⊢
      rw [List.cons_append, List.takeWhile_cons, List.takeWhile_cons, ih]

theorem textOf_eq_self {text : List Char} : textOf text = text ↔ nul ∉ text := by
  rw [textOf, List.takeWhile_eq_self_iff]
  simp only [ne_eq, decide_eq_true_eq]
  constructor
  · exact fun hall hnul => hall nul hnul rfl
  · exact fun hnul ch hch heq => hnul (heq ▸ hch)

/-- A zero byte in a text ends it early. -/
theorem length_eq_textOf {text : List Char} :
    text.length = (textOf text).length ↔ nul ∉ text := by
  rw [← textOf_eq_self]
  constructor
  · exact fun hlength => (List.takeWhile_prefix _).eq_of_length hlength.symm
  · exact fun hself => (congrArg List.length hself).symm

/-- A buffer of `size` bytes with the first bytes of what is spelled. -/
theorem recordsText_take_iff {text spelled : List Char} {size : Nat} (hsize : 2 ≤ size) :
    RecordsText text
        ⟨spelled.take (size - 1 - 1) ++ [nul], (spelled.take (size - 1 - 1)).length, size⟩ ↔
      nul ∉ spelled.take (size - 2) ∧ spelled.take (size - 2) <+: text ∧
        (text.length ≤ size - 2 → spelled.take (size - 2) = text) := by
  have hroom : size - 1 - 1 = size - 2 := by omega
  rw [hroom]
  constructor
  · intro h
    obtain ⟨hlength, hbegins, hwhole, -⟩ := h
    dsimp only at hlength hbegins hwhole
    rw [textOf_append_nul] at hlength hbegins hwhole
    have hnul := length_eq_textOf.mp hlength
    rw [textOf_eq_self.mpr hnul] at hbegins hwhole
    exact ⟨hnul, hbegins, fun hfits => hwhole (by omega)⟩
  · intro ⟨hnul, hbegins, hwhole⟩
    have hself := textOf_eq_self.mpr hnul
    constructor
    · rw [textOf_append_nul, hself]
    · rw [textOf_append_nul, hself]
      exact hbegins
    · intro hfits
      rw [textOf_append_nul, hself]
      exact hwhole (by dsimp only at hfits; omega)
    · rw [List.length_append, List.length_take, List.length_singleton]
      dsimp only
      omega

/-- `DoLog` takes a text that is cut for one byte longer than it is. -/
theorem recordsText_vsnprintf_iff {text : List Char} {size : Nat} (hsize : 2 ≤ size) :
    RecordsText text (vsnprintfBuffer text size) ↔ text.length ≤ size - 2 ∧ nul ∉ text := by
  by_cases hfits : text.length ≤ size - 2
  · have hbuffer : vsnprintfBuffer text size =
        ⟨text.take (size - 1 - 1) ++ [nul], (text.take (size - 1 - 1)).length, size⟩ := by
      rw [vsnprintfBuffer, TempBuffer.mk.injEq]
      refine ⟨rfl, ?_, rfl⟩
      rw [List.length_take]
      omega
    rw [hbuffer, recordsText_take_iff hsize, List.take_of_length_le hfits]
    constructor
    · exact fun h => ⟨hfits, h.1⟩
    · exact fun h => ⟨h.2, List.prefix_refl text, fun _ => rfl⟩
  · apply iff_of_false
    · intro h
      have hlength := h.length
      have hshort : (textOf (text.take (size - 1 - 1))).length ≤
          (text.take (size - 1 - 1)).length := (List.takeWhile_prefix _).length_le
      rw [vsnprintfBuffer] at hlength
      dsimp only at hlength
      rw [textOf_append_nul] at hlength
      rw [List.length_take] at hshort
      omega
    · exact fun h => hfits h.1

theorem recordsText_setText_iff (text : Option CString) :
    RecordsText ((text.map CString.chars).getD ['(', 'n', 'u', 'l', 'l', ')']) (setText text) ↔
      text ≠ none := by
  cases text with
  | none => exact iff_of_false (fun h => absurd (h.whole (by decide)) (by decide)) (by simp)
  | some text =>
      apply iff_of_true _ (by simp)
      have hself := textOf_eq_self.mpr text.noNul
      unfold setText
      rw [Option.map_some, Option.getD_some, Option.getD_some]
      dsimp only
      constructor
      · rw [textOf_append_nul, hself]
      · exact ⟨[], by rw [textOf_append_nul, hself, List.append_nil]⟩
      · intro _
        rw [textOf_append_nul, hself]
      · rw [List.length_append, List.length_singleton]
        dsimp only
        omega

/-! ## Spellings of pointers -/

/-- The two spellings of a message part at its first null pointer. -/
theorem message_eq_of_prefix (other : List Char → (Nat → VaArg) → List Char)
    (format : List Char) (args : Nat → VaArg)
    (h : message fastPointer other format args <+: message libraryPointer other format args) :
    message fastPointer other format args = message libraryPointer other format args := by
  fun_induction message fastPointer other format args with
  | case1 args => rfl
  | case2 args ch rest hch ih =>
      rw [message.eq_def libraryPointer] at h ⊢
      simp only [if_pos hch] at h ⊢
      rw [ih (List.cons_prefix_cons.mp h).2]
  | case3 ch args hpercent =>
      rw [message.eq_def libraryPointer]
      simp only [if_neg hpercent]
  | case4 ch args hpercent rest ih =>
      rw [message.eq_def libraryPointer] at h ⊢
      simp only [if_neg hpercent, if_true, libraryPointer] at h ⊢
      split at h
      case isTrue hnull =>
        -- the two spellings differ in their first character
        rw [hnull, fastPointer, List.cons_append, List.cons_append] at h
        exact absurd (List.cons_prefix_cons.mp h).1 (by decide)
      case isFalse hpointer =>
        rw [if_neg hpointer, ih ((List.prefix_append_right_inj _).mp h)]
  | case5 ch args hpercent spec rest hspec text htext ih =>
      rw [message.eq_def libraryPointer] at h ⊢
      simp only [if_neg hpercent, if_neg hspec, htext] at h ⊢
      rw [ih ((List.prefix_append_right_inj _).mp h)]
  | case6 ch args hpercent spec rest hspec hnone =>
      rw [message.eq_def libraryPointer]
      simp only [if_neg hpercent, if_neg hspec, hnone]

/-- What the fast formatter spells in the buffer begins the message exactly if
it is the message up to the end of the buffer. -/
theorem message_take_iff (other : List Char → (Nat → VaArg) → List Char) (format : List Char)
    (args : Nat → VaArg) (room : Nat) :
    ((message fastPointer other format args).take room <+:
          message libraryPointer other format args ∧
        ((message libraryPointer other format args).length ≤ room →
          (message fastPointer other format args).take room =
            message libraryPointer other format args)) ↔
      (message fastPointer other format args).take room =
        (message libraryPointer other format args).take room := by
  have hbegin := message_eq_of_prefix other format args
  generalize message fastPointer other format args = fast at hbegin ⊢
  generalize message libraryPointer other format args = library at hbegin ⊢
  constructor
  · intro ⟨hbegins, _⟩
    by_cases hshort : fast.length ≤ room
    · rw [List.take_of_length_le hshort] at hbegins
      rw [hbegin hbegins]
    · have hcut := List.prefix_iff_eq_take.mp hbegins
      rw [List.length_take, Nat.min_eq_left (by omega)] at hcut
      exact hcut
  · intro hsame
    rw [hsame]
    exact ⟨List.take_prefix room library, fun hfits => List.take_of_length_le hfits⟩

theorem nul_notMem_toDigits_hex (n : Nat) : nul ∉ Nat.toDigits 16 n := by
  have hdigit : ∀ n < 16, nul ≠ Nat.digitChar n := by decide
  induction n using Nat.strong_induction_on with
  | _ n ih =>
      by_cases hsmall : n < 16
      · rw [Nat.toDigits_of_lt_base hsmall, List.mem_singleton]
        exact hdigit n hsmall
      · rw [Nat.toDigits_of_base_le (by decide) (by omega), List.mem_append,
          List.mem_singleton, not_or]
        exact ⟨ih (n / 16) (by omega), hdigit _ (Nat.mod_lt n (by decide))⟩

theorem nul_notMem_argText (kind : FastFormatKind) (arg : VaArg) : nul ∉ argText kind arg := by
  cases kind with
  | none => exact List.not_mem_nil
  | literal => exact List.not_mem_nil
  | formatS => exact nul_notMem_stringArg arg
  | formatD => exact nul_notMem_decimal _
  | formatI => exact nul_notMem_decimal _
  | formatU => exact nul_notMem_decimal _
  | formatP =>
      rw [argText, fastPointer, List.mem_cons, List.mem_cons, not_or, not_or]
      exact ⟨by decide, by decide, nul_notMem_toDigits_hex _⟩

/-- The fast formatter adds no zero byte. -/
theorem Layout.nul_notMem {format : List Char} {entry : FastFormatEntry}
    (hlayout : Layout format entry) (hnul : nul ∉ format)
    (other : List Char → (Nat → VaArg) → List Char) (args : Nat → VaArg) :
    nul ∉ message fastPointer other format args := by
  cases hlayout with
  | literal ha _ _ =>
      rw [message_literal fastPointer other ha]
      exact hnul
  | one ha hb hkind _ _ _ _ =>
      rw [message_append fastPointer other ha, message_percent fastPointer other hkind,
        message_literal fastPointer other hb, specText_fast hkind]
      simp only [List.mem_append, List.mem_cons, not_or] at hnul ⊢
      exact ⟨hnul.1, nul_notMem_argText _ _, hnul.2.2.2⟩
  | two ha hb hc hkind hkind' _ _ _ _ _ _ =>
      rw [message_append fastPointer other ha, message_percent fastPointer other hkind,
        message_append fastPointer other hb, message_percent fastPointer other hkind',
        message_literal fastPointer other hc, specText_fast hkind, specText_fast hkind']
      simp only [List.mem_append, List.mem_cons, not_or] at hnul ⊢
      exact ⟨hnul.1, nul_notMem_argText _ _, hnul.2.2.2.1, nul_notMem_argText _ _,
        hnul.2.2.2.2.2.2⟩

/-! ## The three paths -/

section Paths

variable {κ : Type} [DecidableEq κ] {c : FastFormatCaches κ} {call : RecordCall κ}

/-- `TryFastFormat` executes the entry of the format. -/
theorem tryFastFormat_entryFor (c : FastFormatCaches κ) (call : RecordCall κ) {size : Nat}
    (hsize : 0 < size) :
    (c.tryFastFormat ⟨call.site, call.buffer, size, call.format, call.args⟩).2 =
      executeFastFormat (c.entryFor call) call.format size call.args := by
  have hcall : ¬ (call.format.address = 0 ∨ call.buffer = 0 ∨ size = 0) := by
    intro h
    obtain hformat | hbuffer | hzero := h
    · exact call.format_ne hformat
    · exact call.buffer_ne hbuffer
    · omega
  rw [FastFormatCaches.tryFastFormat, FastFormatCaches.entryFor]
  dsimp only
  rw [if_neg hcall]
  split
  next c' cached hfind => rw [hfind, Option.getD_some]
  next c' hfind => rw [hfind, Option.getD_none]

/-- An entry that was built from some text. -/
def Built (entry : FastFormatEntry) : Prop :=
  ∃ format text, entry = buildFastFormat format text

theorem finishFormat_hint_cases (n : Nat) (entry : FastFormatEntry) :
    (finishFormat n entry).bufferSizeHint = entry.bufferSizeHint ∨
      32 ≤ (finishFormat n entry).bufferSizeHint := by
  have halign : ∀ size, 32 ≤ alignBufferSizeHint (size + 2) := by
    intro size
    unfold alignBufferSizeHint
    omega
  unfold finishFormat
  dsimp only
  split_ifs
  all_goals first
    | exact .inl rfl
    | exact .inr (halign _)

/-- A hint is there for a whole line of the alignment or not at all. -/
theorem Built.hint {entry : FastFormatEntry} (h : Built entry) :
    entry.bufferSizeHint = 0 ∨ 32 ≤ entry.bufferSizeHint := by
  obtain ⟨format, text, rfl⟩ := h
  unfold buildFastFormat
  split
  case isTrue => exact .inl rfl
  case isFalse =>
    split
    case isTrue => exact .inl rfl
    case isFalse =>
      dsimp only
      split
      next entry hscan =>
        left
        exact ((scanFormat_kept _ _ _).2 _ hscan).2
      next entry hscan =>
        have hzero := ((scanFormat_kept _ _ _).1 _ hscan).2
        obtain hsame | hlarge := finishFormat_hint_cases text.length entry
        · left
          rw [hsame, hzero]
          rfl
        · exact .inr hlarge

omit [DecidableEq κ] in
theorem two_le_allocated (hbuilt : FormatSession.AllEntries Built c) (call : RecordCall κ) :
    2 ≤ c.allocated call := by
  unfold FastFormatCaches.allocated
  split
  case isTrue h =>
    have hhint := (hbuilt.site call.site).hint
    omega
  case isFalse => decide

theorem built_entryFor (hbuilt : FormatSession.AllEntries Built c) (call : RecordCall κ) :
    Built (c.entryFor call) := by
  have hfind := (hbuilt.find call.site call.format.address).2
  unfold FastFormatCaches.entryFor
  cases hentry : (c.findFastFormat call.site call.format.address).2 with
  | none => exact ⟨_, _, rfl⟩
  | some entry => exact (hfind entry hentry).1

/-- Whatever has been formatted before, the recorded size is the length of the
recorded text, and this the message, exactly in the cases of `Measured`. -/
theorem recordsText_iff (other : List Char → (Nat → VaArg) → List Char) {s : FormatSession κ}
    (hreach : Reachable FormatSession.step FormatSession.initial s) (call : RecordCall κ) :
    RecordsText (message libraryPointer other call.format.chars call.args)
        (s.caches.formatRecord other call) ↔
      Measured other s.caches call := by
  have hbuilt : FormatSession.AllEntries Built s.caches :=
    FormatSession.allEntries_of_reachable hreach fun format text => ⟨format, text, rfl⟩
  have hsize := two_le_allocated hbuilt call
  unfold FastFormatCaches.formatRecord Measured
  by_cases hstring : call.format.chars = ['%', 's']
  · have htext : message libraryPointer other call.format.chars call.args =
        ((call.args 0).string.map CString.chars).getD ['(', 'n', 'u', 'l', 'l', ')'] := by
      have hkind : specKind 's' = some .formatS := rfl
      rw [hstring, message_percent libraryPointer other hkind]
      cases hargs : (call.args 0).string <;>
        simp [specText, conversion, stringArg, hargs, message]
    rw [if_pos hstring, htext]
    dsimp only
    rw [if_pos hstring]
    exact recordsText_setText_iff _
  · rw [if_neg hstring, tryFastFormat_entryFor s.caches call (by omega)]
    dsimp only
    rw [if_neg hstring]
    by_cases hnone : (s.caches.entryFor call).kind1 = .none
    · rw [if_pos hnone, executeFastFormat_none hnone]
      exact recordsText_vsnprintf_iff hsize
    · -- the entry may stem from another format that was at the same address
      obtain ⟨format, text, hentry⟩ := built_entryFor hbuilt call
      have hlayout : Layout text (s.caches.entryFor call) := by
        rw [hentry] at hnone ⊢
        exact (buildFastFormat_fast hnone).2.1
      rw [if_neg hnone, executeFastFormat_spell hlayout call.format call.args (by omega)]
      dsimp only
      rw [recordsText_take_iff hsize]
      split
      case isFalse => rfl
      case isTrue hfresh =>
        have hlayout' : Layout call.format.chars (s.caches.entryFor call) := by
          rw [hfresh] at hnone ⊢
          exact (buildFastFormat_fast hnone).2.1
        have hnul : nul ∉ (message fastPointer other call.format.chars call.args).take
            (s.caches.allocated call - 2) := by
          intro hmem
          exact hlayout'.nul_notMem call.format.noNul other call.args (List.mem_of_mem_take hmem)
        rw [hlayout'.spell_eq other, and_iff_right hnul, message_take_iff]

end Paths

/-- A number in a field of 20000 characters. -/
def wideCall : RecordCall Unit where
  site := ()
  format := ⟨⟨['%', '2', '0', '0', '0', '0', 'd'], by decide⟩, 1, fun _ => nul⟩
  args := fun _ => ⟨none, 7, 0⟩
  buffer := 1
  format_ne := by decide
  buffer_ne := by decide

/-- What the C library makes of a field of 20000 characters. -/
def wideField (_ : List Char) (args : Nat → VaArg) : List Char :=
  List.replicate (20000 - (decimal (args 0).word.toInt).length) ' ' ++
    decimal (args 0).word.toInt

theorem recordsText_iff_wideCall :
    RecordsText (message libraryPointer wideField wideCall.format.chars wideCall.args)
        ((FastFormatCaches.initial : FastFormatCaches Unit).formatRecord wideField wideCall) ↔
      Measured wideField (FastFormatCaches.initial : FastFormatCaches Unit) wideCall :=
  recordsText_iff wideField (s := FormatSession.initial) .refl wideCall

/-- The recorded size of the cut field is one more than its length. -/
theorem not_recordsText_wideCall :
    ¬ RecordsText (message libraryPointer wideField wideCall.format.chars wideCall.args)
      ((FastFormatCaches.initial : FastFormatCaches Unit).formatRecord wideField wideCall) := by
  intro h
  have hbuffer : (FastFormatCaches.initial : FastFormatCaches Unit).formatRecord wideField
      wideCall = vsnprintfBuffer (List.replicate 19999 ' ' ++ ['7']) 16384 := rfl
  have htext : message libraryPointer wideField wideCall.format.chars wideCall.args =
      List.replicate 19999 ' ' ++ ['7'] := rfl
  rw [hbuffer, htext, recordsText_vsnprintf_iff (by decide)] at h
  rw [List.length_append, List.length_replicate] at h
  exact absurd h.1 (by decide)

end Logme
