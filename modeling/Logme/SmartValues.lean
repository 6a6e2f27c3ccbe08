import Logme.CmdBackend
import Logme.StructuredLists

/-!
# Sizes and intervals

`ParseSmartValue` reads a number with an optional unit, and `FormatSmartValue`
writes one with the first unit of its table that divides it.  The parser takes
the first name of the table that the text ends with, so a name is hidden when
the end of it is a name before it: no text of milliseconds is read as one.
-/

namespace Logme

/-! ## Writing -/

/-- The third column of `ByteSizeSuffixes`. -/
def byteSizeFormatName (name : Name) : Option Name :=
  if name = ascii "gb" then some (ascii "Gb")
  else if name = ascii "mb" then some (ascii "Mb")
  else if name = ascii "kb" then some (ascii "Kb")
  else if name = ascii "b" then some (ascii "b")
  else none

/-- The third column of `IntervalSuffixes`. -/
def intervalFormatName (name : Name) : Option Name :=
  if name = ascii "weeks" then some (ascii "w")
  else if name = ascii "days" then some (ascii "d")
  else if name = ascii "hours" then some (ascii "h")
  else if name = ascii "minutes" then some (ascii "min")
  else if name = ascii "seconds" then some (ascii "s")
  else if name = ascii "ms" then some (ascii "ms")
  else none

/-- One round of the loop of `FormatSmartValue`. -/
def formatWith (formatName : Name → Option Name) (value : Nat) (suffix : Name × Nat) :
    Option Name :=
  match formatName suffix.1 with
  | none => none
  | some unit =>
      if suffix.2 = 0 then none
      else if value = 0 ∧ suffix.2 ≠ 1 then none
      else if value % suffix.2 ≠ 0 then none
      else some (decimalBytes (value / suffix.2) ++ unit)

def formatSmartValue (suffixes : List (Name × Nat)) (formatName : Name → Option Name)
    (value : Nat) : Name :=
  match suffixes.findSome? (formatWith formatName value) with
  | some text => text
  | none => decimalBytes value

def formatByteSize (value : Nat) : Name :=
  formatSmartValue byteSizeSuffixes byteSizeFormatName value

def formatInterval (value : Nat) : Name :=
  formatSmartValue intervalSuffixes intervalFormatName value

/-! ## What a text says -/

/-- A number with no unit or with one of the table. -/
structure NumberWithUnit (suffixes : List (Name × Nat)) (digits unit : Name) (value : Nat) :
    Prop where
  digits_ne_nil : digits ≠ []
  digits_all : ∀ c ∈ digits, Json.isDigit c = true
  factor : ∃ factor, (unit = [] ∧ factor = 1 ∨ (unit, factor) ∈ suffixes) ∧
    value = digitsValue digits * factor

/-- The text is the number and the unit and nothing else. -/
def ExactText (suffixes : List (Name × Nat)) (text : Name) (value : Nat) : Prop :=
  ∃ digits unit, text = digits ++ unit ∧ NumberWithUnit suffixes digits unit value

/-- The case of letters is ignored, and so are spaces around the number and the
unit. -/
def SmartText (suffixes : List (Name × Nat)) (text unit : Name) (value : Nat) : Prop :=
  ∃ digits blanks,
    toLowerAscii (trimSpaces text) = digits ++ blanks ++ unit ∧
    (∀ c ∈ blanks, isSpaceByte c = true) ∧ NumberWithUnit suffixes digits unit value

/-- The names that the loop over the table never reaches. -/
def hiddenSuffixes (suffixes : List (Name × Nat)) : List (Name × Nat) :=
  suffixes.filter fun e => suffixes.find? (·.1.isSuffixOf e.1) ≠ some e

def leadingNumber (text : Name) : Nat :=
  digitsValue ((toLowerAscii (trimSpaces text)).takeWhile Json.isDigit)

def unitFactor (suffixes : List (Name × Nat)) (text : Name) : Nat :=
  match suffixes.find? fun suffix => suffix.1.isSuffixOf (toLowerAscii (trimSpaces text)) with
  | some suffix => suffix.2
  | none => 1

/-- `strtoull` takes a sign, stops at a zero byte and gives the largest number
for one that is too large; these texts and the hidden units are left out. -/
structure RegularText (suffixes : List (Name × Nat)) (text : Name) : Prop where
  zero_not_mem : 0 ∉ text
  no_sign : ∀ c ∈ (trimSpaces text).head?, c ≠ 0x2D ∧ c ≠ 0x2B
  in_range : unitFactor suffixes text = 1 → leadingNumber text < 2 ^ 64
  no_hidden : ∀ e ∈ hiddenSuffixes suffixes, ∀ value, ¬ SmartText suffixes text e.1 value

/-! ## Digits -/

theorem digitsValue_decimalBytes (n : Nat) : digitsValue (decimalBytes n) = n :=
  Json.value_writeNumber n

theorem isDigit_of_mem_decimalBytes {n : Nat} {c : UInt8} (hc : c ∈ decimalBytes n) :
    Json.isDigit c = true :=
  Json.isDigit_of_mem_writeNumber hc

theorem decimalBytes_ne_nil (n : Nat) : decimalBytes n ≠ [] :=
  fun hnil => Nat.toDigits_ne_nil (List.map_eq_nil_iff.mp hnil)

theorem ne_of_isDigit {c d : UInt8} (hc : Json.isDigit c = true)
    (hd : Json.isDigit d = false) : c ≠ d := by
  rintro rfl
  rw [hc] at hd
  cases hd

theorem isSpaceByte_of_isDigit {c : UInt8} (hc : Json.isDigit c = true) :
    isSpaceByte c = false := by
  have hspaces := fun d hd => ne_of_isDigit (d := d) hc hd
  simp only [isSpaceByte, Bool.or_eq_false_iff, decide_eq_false_iff_not]
  exact ⟨⟨⟨⟨⟨hspaces _ rfl, hspaces _ rfl⟩, hspaces _ rfl⟩, hspaces _ rfl⟩,
    hspaces _ rfl⟩, hspaces _ rfl⟩

theorem toLowerByte_of_isDigit {c : UInt8} (hc : Json.isDigit c = true) :
    toLowerByte c = c := by
  have hhigh : c ≤ 0x39 := of_decide_eq_true (Bool.and_eq_true_iff.mp hc).2
  refine if_neg fun hletter => ?_
  exact absurd (UInt8.le_trans hletter.1 hhigh) (by decide)

/-- The text begins with no space and no sign. -/
def Unsigned (s : Name) : Prop :=
  ∀ c ∈ s.head?, isSpaceByte c = false ∧ c ≠ 0x2D ∧ c ≠ 0x2B

theorem unsigned_of_digits {digits : Name}
    (hall : ∀ c ∈ digits, Json.isDigit c = true) : Unsigned digits := by
  intro c hc
  have hdigit := hall c (List.mem_of_mem_head? hc)
  exact ⟨isSpaceByte_of_isDigit hdigit, ne_of_isDigit hdigit rfl, ne_of_isDigit hdigit rfl⟩

theorem scanInteger_unsigned {s : Name} (hs : Unsigned s) :
    scanInteger s =
      if s.takeWhile Json.isDigit = [] then none
      else some (false, s.takeWhile Json.isDigit, s.dropWhile Json.isDigit) := by
  cases s with
  | nil => rfl
  | cons first rest =>
      obtain ⟨hspace, hminus, hplus⟩ := hs first rfl
      have hstart : (first :: rest).dropWhile isSpaceByte = first :: rest :=
        List.dropWhile_cons_of_neg (by simp [hspace])
      simp only [scanInteger, hstart]
      split
      next h => exact absurd (List.cons.inj h).1 hminus
      next h => exact absurd (List.cons.inj h).1 hplus
      next => rfl

theorem zero_not_mem_digits {digits : Name}
    (hall : ∀ c ∈ digits, Json.isDigit c = true) : 0 ∉ digits :=
  fun hzero => ne_of_isDigit (hall 0 hzero) rfl rfl

theorem readUnsigned_digits {digits : Name} (hne : digits ≠ [])
    (hall : ∀ c ∈ digits, Json.isDigit c = true) :
    readUnsigned digits =
      if 2 ^ 64 ≤ digitsValue digits then some (2 ^ 64 - 1)
      else some (digitsValue digits) := by
  have htake : digits.takeWhile Json.isDigit = digits := List.takeWhile_eq_self_iff.mpr hall
  have hdrop : digits.dropWhile Json.isDigit = [] := List.dropWhile_eq_nil_iff.mpr hall
  rw [readUnsigned, cString_eq_self (zero_not_mem_digits hall),
    scanInteger_unsigned (unsigned_of_digits hall), htake, hdrop, if_neg hne]
  rfl

/-- Without a sign and without a zero byte only digits are read to the end. -/
theorem digits_of_readUnsigned {s : Name} {value : Nat} (hne : s ≠ []) (hzero : 0 ∉ s)
    (hs : Unsigned s) (h : readUnsigned s = some value) :
    ∀ c ∈ s, Json.isDigit c = true := by
  rw [readUnsigned, cString_eq_self hzero, scanInteger_unsigned hs] at h
  split at h
  next => rw [if_neg hne] at h; cases h
  next negative digits rest hscan =>
    by_cases hrest : rest = []
    · split at hscan
      next => cases hscan
      next =>
        cases hscan
        exact List.dropWhile_eq_nil_iff.mp hrest
    · rw [if_pos hrest] at h
      cases h

/-! ## Units -/

def isLetter (c : UInt8) : Bool := 0x61 ≤ c && c ≤ 0x7A

/-- What stands before a unit has no part in the choice of its name. -/
theorem isSuffixOf_run {name run unit : Name} (hname : ∀ c ∈ name, isLetter c = true)
    (hrun : ∀ c ∈ run.getLast?, isLetter c = false) :
    name.isSuffixOf (run ++ unit) = name.isSuffixOf unit := by
  rw [Bool.eq_iff_iff, List.isSuffixOf_iff_suffix, List.isSuffixOf_iff_suffix]
  constructor
  · intro hsuffix
    rcases Nat.le_total name.length unit.length with hle | hle
    · exact List.suffix_of_suffix_length_le hsuffix (List.suffix_append run unit) hle
    · obtain ⟨more, rfl⟩ :=
        List.suffix_of_suffix_length_le (List.suffix_append run unit) hsuffix hle
      have hmore : more <:+ run := by
        obtain ⟨before, hbefore⟩ := hsuffix
        rw [← List.append_assoc] at hbefore
        exact ⟨before, List.append_cancel_right hbefore⟩
      cases more using List.reverseRecOn with
      | nil => exact List.suffix_rfl
      | append_singleton more last =>
          obtain ⟨before, rfl⟩ := hmore
          have hlast := hrun last (by simp)
          rw [hname last (by simp)] at hlast
          cases hlast
  · exact fun hsuffix => hsuffix.trans (List.suffix_append run unit)

structure SuffixTable (suffixes : List (Name × Nat)) : Prop where
  name_ne_nil : ∀ e ∈ suffixes, e.1 ≠ []
  letters : ∀ e ∈ suffixes, e.1.all isLetter = true
  factor_pos : ∀ e ∈ suffixes, 0 < e.2

theorem byteSizeTable : SuffixTable byteSizeSuffixes := by
  constructor <;> decide

theorem intervalTable : SuffixTable intervalSuffixes := by
  constructor <;> decide

example : hiddenSuffixes byteSizeSuffixes = [] := by decide

example : (hiddenSuffixes intervalSuffixes).map Prod.fst =
    [ascii "second", ascii "milliseconds", ascii "millisecond", ascii "ms"] := by decide

theorem SuffixTable.find?_run {suffixes : List (Name × Nat)} (h : SuffixTable suffixes)
    {run : Name} (hrun : ∀ c ∈ run.getLast?, isLetter c = false) (unit : Name) :
    suffixes.find? (·.1.isSuffixOf (run ++ unit)) = suffixes.find? (·.1.isSuffixOf unit) := by
  rw [← List.head?_filter, ← List.head?_filter]
  exact congrArg List.head? <| List.filter_congr fun e he =>
    isSuffixOf_run (List.all_eq_true.mp (h.letters e he)) hrun

theorem SuffixTable.find?_digits {suffixes : List (Name × Nat)} (h : SuffixTable suffixes)
    {run : Name} (hrun : ∀ c ∈ run.getLast?, isLetter c = false) :
    suffixes.find? (·.1.isSuffixOf run) = none := by
  have hfind := h.find?_run hrun []
  rw [List.append_nil] at hfind
  rw [hfind, List.find?_eq_none]
  intro e he hsuffix
  rw [List.isSuffixOf_iff_suffix, List.suffix_nil] at hsuffix
  exact h.name_ne_nil e he hsuffix

/-! ## Reading -/

/-- The last steps, once the number is cut off. -/
def multiplied (number : Name) (factor : Nat) : Option Nat :=
  if number = [] then none
  else
    match readUnsigned number with
    | none => none
    | some value =>
        if (2 ^ 64 - 1) / factor < value then none else some (value * factor)

theorem parseSmartValue_of_find?_none {suffixes : List (Name × Nat)} {text v : Name}
    (hv : toLowerAscii (trimSpaces text) = v)
    (hfind : suffixes.find? (·.1.isSuffixOf v) = none) :
    parseSmartValue suffixes text = multiplied v 1 := by
  simp only [parseSmartValue, hv, hfind, or_self]
  rfl

theorem parseSmartValue_of_find?_some {suffixes : List (Name × Nat)} {text run unit : Name}
    {factor : Nat} (hv : toLowerAscii (trimSpaces text) = run ++ unit)
    (hfind : suffixes.find? (·.1.isSuffixOf (run ++ unit)) = some (unit, factor)) :
    parseSmartValue suffixes text = multiplied (trimSpaces run) factor := by
  have htake : (run ++ unit).take ((run ++ unit).length - unit.length) = run := by
    rw [List.length_append, Nat.add_sub_cancel, List.take_left]
  have hnil : run ++ unit = [] ∨ trimSpaces run = [] ↔ trimSpaces run = [] := by
    refine or_iff_right_of_imp fun hnil => ?_
    rw [(List.append_eq_nil_iff.mp hnil).1]
    rfl
  simp only [parseSmartValue, hv, hfind, htake, hnil]
  rfl

theorem multiplied_digits {digits : Name} {factor : Nat} (hne : digits ≠ [])
    (hall : ∀ c ∈ digits, Json.isDigit c = true) (hfactor : 0 < factor)
    (hlt : digitsValue digits * factor < 2 ^ 64) :
    multiplied digits factor = some (digitsValue digits * factor) := by
  have hle : digitsValue digits ≤ digitsValue digits * factor :=
    Nat.le_mul_of_pos_right _ hfactor
  have hquotient : ¬ (2 ^ 64 - 1) / factor < digitsValue digits := by
    rw [Nat.not_lt, Nat.le_div_iff_mul_le hfactor]
    omega
  rw [multiplied, if_neg hne, readUnsigned_digits hne hall, if_neg (by omega)]
  exact if_neg hquotient

/-- A number that is too large is read as the largest one, and only with the
factor 1 is the product then not too large. -/
theorem multiplied_eq_some {number : Name} {factor value : Nat} (hfactor : 0 < factor)
    (hzero : 0 ∉ number) (hunsigned : Unsigned number)
    (hrange : factor = 1 → (∀ c ∈ number, Json.isDigit c = true) →
      digitsValue number < 2 ^ 64)
    (h : multiplied number factor = some value) :
    number ≠ [] ∧ (∀ c ∈ number, Json.isDigit c = true) ∧
      value = digitsValue number * factor ∧ value < 2 ^ 64 := by
  rw [multiplied] at h
  split at h
  next => cases h
  next hne =>
    split at h
    next => cases h
    next read hread =>
      have hall := digits_of_readUnsigned hne hzero hunsigned hread
      rw [readUnsigned_digits hne hall] at hread
      split at h
      next => cases h
      next hquotient =>
        cases h
        rw [Nat.not_lt, Nat.le_div_iff_mul_le hfactor] at hquotient
        split at hread
        next hlarge =>
          cases hread
          have hone : factor = 1 := by
            by_contra hne
            have htwo : (2 ^ 64 - 1) * 2 ≤ (2 ^ 64 - 1) * factor :=
              Nat.mul_le_mul_left _ (by omega)
            omega
          exact absurd (hrange hone hall) (Nat.not_lt.mpr hlarge)
        next =>
          cases hread
          exact ⟨hne, hall, rfl, by omega⟩

/-! ### Trimmed texts -/

theorem trimmed_append_blanks {space : UInt8 → Bool} {s : Name}
    (hs : ∀ c ∈ s.head?, space c = false) :
    ∃ blanks, s = trimmed space s ++ blanks ∧ ∀ c ∈ blanks, space c = true := by
  have hdrop : s.dropWhile space = s := by
    cases s with
    | nil => rfl
    | cons c s => exact List.dropWhile_cons_of_neg (by simp [hs c rfl])
  refine ⟨(s.reverse.takeWhile space).reverse, ?_, ?_⟩
  · rw [trimmed, hdrop, ← List.reverse_append, List.takeWhile_append_dropWhile,
      List.reverse_reverse]
  · intro c hc
    exact List.mem_takeWhile_imp (List.mem_reverse.mp hc)

theorem trimmed_digits_blanks {digits blanks : Name}
    (hall : ∀ c ∈ digits, Json.isDigit c = true)
    (hblanks : ∀ c ∈ blanks, isSpaceByte c = true) :
    trimSpaces (digits ++ blanks) = digits := by
  induction blanks using List.reverseRecOn with
  | nil =>
      rw [List.append_nil, trimSpaces, trimmed_eq_self_iff]
      exact ⟨fun c hc => isSpaceByte_of_isDigit (hall c (List.mem_of_mem_head? hc)),
        fun c hc => isSpaceByte_of_isDigit (hall c (List.mem_of_getLast? hc))⟩
  | append_singleton blanks c ih =>
      rw [← List.append_assoc, trimSpaces, trimmed_concat (hblanks c (by simp))]
      exact ih fun d hd => hblanks d (List.mem_append_left _ hd)

theorem toLowerByte_eq_zero_iff : ∀ c : UInt8, toLowerByte c = 0 → c = 0 :=
  Unicode.forall_byte <| by decide +kernel

theorem toLowerByte_sign : ∀ c : UInt8, c ≠ 0x2D ∧ c ≠ 0x2B →
    toLowerByte c ≠ 0x2D ∧ toLowerByte c ≠ 0x2B :=
  Unicode.forall_byte <| by decide +kernel

theorem not_isLetter_of_isSpaceByte : ∀ c : UInt8, isSpaceByte c = true → isLetter c = false :=
  Unicode.forall_byte <| by decide +kernel

theorem not_isLetter_of_isDigit : ∀ c : UInt8, Json.isDigit c = true → isLetter c = false :=
  Unicode.forall_byte <| by decide +kernel

variable {suffixes : List (Name × Nat)} {text : Name}

theorem RegularText.zero_not_mem_lower (h : RegularText suffixes text) :
    0 ∉ toLowerAscii (trimSpaces text) := by
  intro hzero
  obtain ⟨c, hc, hlower⟩ := List.mem_map.mp hzero
  rw [toLowerByte_eq_zero_iff c hlower] at hc
  exact h.zero_not_mem (trimmed_subset _ _ hc)

theorem RegularText.unsigned (h : RegularText suffixes text) :
    Unsigned (toLowerAscii (trimSpaces text)) := by
  intro c hc
  rw [toLowerAscii, List.head?_map, Option.mem_map] at hc
  obtain ⟨first, hfirst, rfl⟩ := hc
  have htrimmed := trimmed_eq_self_iff.mp (trimmed_trimmed isSpaceByte text)
  refine ⟨?_, toLowerByte_sign first (h.no_sign first hfirst)⟩
  exact (congrFun isSpaceByte_toLowerByte first).trans (htrimmed.1 first hfirst)

theorem getLast?_lower_trimSpaces (text : Name) :
    ∀ c ∈ (toLowerAscii (trimSpaces text)).getLast?, isSpaceByte c = false := by
  intro c hc
  rw [toLowerAscii, List.getLast?_map, Option.mem_map] at hc
  obtain ⟨last, hlast, rfl⟩ := hc
  have htrimmed := trimmed_eq_self_iff.mp (trimmed_trimmed isSpaceByte text)
  exact (congrFun isSpaceByte_toLowerByte last).trans (htrimmed.2 last hlast)

/-! ### Exactness -/

/-- A number with a unit that is found under its own name is read. -/
theorem SuffixTable.parseSmartValue_of_smartText (htable : SuffixTable suffixes)
    {unit : Name} {value : Nat} (hvisible : ∀ e ∈ hiddenSuffixes suffixes, e.1 ≠ unit)
    (htext : SmartText suffixes text unit value) (hvalue : value < 2 ^ 64) :
    parseSmartValue suffixes text = some value := by
  obtain ⟨digits, blanks, hv, hblanks, hne, hall, factor, hunit, rfl⟩ := htext
  have hrun : ∀ c ∈ (digits ++ blanks).getLast?, isLetter c = false := by
    intro c hc
    rcases List.mem_append.mp (List.mem_of_getLast? hc) with hc | hc
    · exact not_isLetter_of_isDigit c (hall c hc)
    · exact not_isLetter_of_isSpaceByte c (hblanks c hc)
  rcases hunit with ⟨rfl, rfl⟩ | hunit
  · rw [List.append_nil] at hv
    have hnil : blanks = [] := by
      cases blanks using List.reverseRecOn with
      | nil => rfl
      | append_singleton blanks last =>
          have hlast := getLast?_lower_trimSpaces text last (by rw [hv]; simp)
          rw [hblanks last (by simp)] at hlast
          cases hlast
    rw [hnil, List.append_nil] at hv hrun
    rw [parseSmartValue_of_find?_none hv (htable.find?_digits hrun)]
    exact multiplied_digits hne hall Nat.one_pos hvalue
  · have hfind : suffixes.find? (·.1.isSuffixOf unit) = some (unit, factor) := by
      by_contra hfind
      exact hvisible (unit, factor)
        (List.mem_filter.mpr ⟨hunit, decide_eq_true hfind⟩) rfl
    rw [← htable.find?_run hrun] at hfind
    rw [parseSmartValue_of_find?_some hv hfind, trimmed_digits_blanks hall hblanks]
    exact multiplied_digits hne hall (htable.factor_pos _ hunit) hvalue

theorem leadingNumber_eq {digits rest : Name}
    (hv : toLowerAscii (trimSpaces text) = digits ++ rest)
    (hall : ∀ c ∈ digits, Json.isDigit c = true)
    (hrest : ∀ c ∈ rest, Json.isDigit c = false) :
    leadingNumber text = digitsValue digits := by
  rw [leadingNumber, hv, List.takeWhile_append_of_pos hall]
  cases rest with
  | nil => simp
  | cons c rest => simp [hrest c]

theorem SuffixTable.not_isDigit_unit (htable : SuffixTable suffixes) {blanks : Name}
    {e : Name × Nat} (he : e ∈ suffixes) (hblanks : ∀ c ∈ blanks, isSpaceByte c = true) :
    ∀ c ∈ blanks ++ e.1, Json.isDigit c = false := by
  intro c hc
  by_contra hdigit
  rw [Bool.not_eq_false] at hdigit
  rcases List.mem_append.mp hc with hc | hc
  · exact absurd (hblanks c hc) (by simp [isSpaceByte_of_isDigit hdigit])
  · have hletter := List.all_eq_true.mp (htable.letters e he) c hc
    rw [not_isLetter_of_isDigit c hdigit] at hletter
    cases hletter

theorem SuffixTable.smartText_of_parseSmartValue (htable : SuffixTable suffixes)
    (hregular : RegularText suffixes text) {value : Nat}
    (h : parseSmartValue suffixes text = some value) :
    ∃ unit, SmartText suffixes text unit value ∧ value < 2 ^ 64 := by
  have hunsigned := hregular.unsigned
  have hzero := hregular.zero_not_mem_lower
  have hrange := hregular.in_range
  cases hfind : suffixes.find? (·.1.isSuffixOf (toLowerAscii (trimSpaces text))) with
  | none =>
      rw [parseSmartValue_of_find?_none rfl hfind] at h
      have hone : unitFactor suffixes text = 1 := by rw [unitFactor, hfind]
      have hv : toLowerAscii (trimSpaces text) = toLowerAscii (trimSpaces text) ++ [] :=
        (List.append_nil _).symm
      obtain ⟨hne, hall, hvalue, hlt⟩ :=
        multiplied_eq_some Nat.one_pos hzero hunsigned (fun _ hall => by
          rw [← leadingNumber_eq hv hall (by simp)]
          exact hrange hone) h
      refine ⟨[], ⟨toLowerAscii (trimSpaces text), [], by simp, by simp, hne, hall, 1, ?_⟩, hlt⟩
      exact ⟨.inl ⟨rfl, rfl⟩, hvalue⟩
  | some e =>
      obtain ⟨unit, factor⟩ := e
      have hmem := List.mem_of_find?_eq_some hfind
      have hfactor : unitFactor suffixes text = factor := by rw [unitFactor, hfind]
      have hsuffix := List.find?_some hfind
      obtain ⟨run, hv⟩ := List.isSuffixOf_iff_suffix.mp hsuffix
      change run ++ unit = _ at hv
      rw [← hv] at hunsigned hzero hfind
      obtain ⟨blanks, hrun, hblanks⟩ :=
        trimmed_append_blanks (s := run)
          fun c hc => (hunsigned c (List.mem_head?_append_of_mem_head? hc)).1
      change run = trimSpaces run ++ blanks at hrun
      rw [parseSmartValue_of_find?_some hv.symm hfind] at h
      have hcut : toLowerAscii (trimSpaces text) = trimSpaces run ++ (blanks ++ unit) := by
        rw [← List.append_assoc, ← hrun, hv]
      have hnumber : Unsigned (trimSpaces run) := by
        intro c hc
        apply hunsigned c
        rw [hv, hcut]
        exact List.mem_head?_append_of_mem_head? hc
      have hbyte : 0 ∉ trimSpaces run :=
        fun hmem => hzero (List.mem_append_left _ (trimmed_subset _ _ hmem))
      obtain ⟨hne, hall, hvalue, hlt⟩ :=
        multiplied_eq_some (htable.factor_pos _ hmem) hbyte hnumber (fun hone hall => by
          rw [← leadingNumber_eq hcut hall (htable.not_isDigit_unit hmem hblanks)]
          exact hrange (hfactor.trans hone)) h
      refine ⟨unit, ⟨trimSpaces run, blanks, ?_, hblanks, hne, hall, factor, ?_⟩, hlt⟩
      · rw [hcut, List.append_assoc]
      · exact ⟨.inr hmem, hvalue⟩

theorem SuffixTable.parseSmartValue_iff (htable : SuffixTable suffixes)
    (hregular : RegularText suffixes text) (value : Nat) :
    parseSmartValue suffixes text = some value ↔
      ∃ unit, SmartText suffixes text unit value ∧ value < 2 ^ 64 := by
  constructor
  · exact htable.smartText_of_parseSmartValue hregular
  · rintro ⟨unit, htext, hvalue⟩
    refine htable.parseSmartValue_of_smartText (fun e he heq => ?_) htext hvalue
    exact hregular.no_hidden e he value (heq ▸ htext)

/-- Sizes and intervals are read exactly. -/
theorem sizes_and_intervals_parse_exactly (text : Name) (value : Nat) :
    (RegularText byteSizeSuffixes text →
      (parseByteSize text = some value ↔
        ∃ unit, SmartText byteSizeSuffixes text unit value ∧ value < 2 ^ 64)) ∧
    (RegularText intervalSuffixes text →
      (parseInterval text = some value ↔
        ∃ unit, SmartText intervalSuffixes text unit value ∧ value < 2 ^ 64)) :=
  ⟨fun hregular => byteSizeTable.parseSmartValue_iff hregular value,
    fun hregular => intervalTable.parseSmartValue_iff hregular value⟩

theorem not_smartText_of_suffix {unit : Name}
    (h : unit.isSuffixOf (toLowerAscii (trimSpaces text)) = false) (value : Nat) :
    ¬ SmartText suffixes text unit value := by
  rintro ⟨digits, blanks, hv, -⟩
  rw [hv, Bool.eq_false_iff, Ne, List.isSuffixOf_iff_suffix] at h
  exact h (List.suffix_append _ unit)

theorem no_sign_of_head? {s : Name} (first : UInt8) (hs : s.head? = some first)
    (hfirst : first ≠ 0x2D ∧ first ≠ 0x2B) : ∀ c ∈ s.head?, c ≠ 0x2D ∧ c ≠ 0x2B := by
  intro c hc
  rw [hs] at hc
  cases hc
  exact hfirst

theorem sizes_and_intervals_parse_exactly_spaced :
    (parseByteSize (ascii " 5 KB") = some 5120 ↔
      ∃ unit, SmartText byteSizeSuffixes (ascii " 5 KB") unit 5120 ∧ 5120 < 2 ^ 64) ∧
    (parseInterval (ascii "90 Min") = some 5400000 ↔
      ∃ unit, SmartText intervalSuffixes (ascii "90 Min") unit 5400000 ∧ 5400000 < 2 ^ 64) := by
  constructor
  · refine (sizes_and_intervals_parse_exactly _ _).1
      ⟨by decide, no_sign_of_head? 0x35 (by decide) (by decide), by decide, ?_⟩
    exact fun e he => absurd he (by decide +revert)
  · refine (sizes_and_intervals_parse_exactly _ _).2
      ⟨by decide, no_sign_of_head? 0x39 (by decide) (by decide), by decide, ?_⟩
    have hhidden : ∀ e ∈ hiddenSuffixes intervalSuffixes,
        e.1.isSuffixOf (toLowerAscii (trimSpaces (ascii "90 Min"))) = false := by decide
    exact fun e he => not_smartText_of_suffix (hhidden e he)

/-- A space before the number is trimmed and the case of a unit is ignored. -/
theorem parseByteSize_spaced_not_exact :
    parseByteSize (ascii " 5KB") = some 5120 ∧
      ¬ ExactText byteSizeSuffixes (ascii " 5KB") 5120 := by
  refine ⟨by decide, ?_⟩
  rintro ⟨digits, unit, htext, hnumber⟩
  obtain ⟨first, rest, rfl⟩ := List.exists_cons_of_ne_nil hnumber.digits_ne_nil
  have hfirst := hnumber.digits_all first List.mem_cons_self
  rw [← (List.cons.inj htext).1] at hfirst
  cases hfirst

/-! ## Writing and reading -/

/-- One unit of `FormatSmartValue`. -/
def unitText (value : Nat) (unit : Name × Nat) : Option Name :=
  if unit.2 = 0 then none
  else if value = 0 ∧ unit.2 ≠ 1 then none
  else if value % unit.2 ≠ 0 then none
  else some (decimalBytes (value / unit.2) ++ unit.1)

def formatUnits (suffixes : List (Name × Nat)) (formatName : Name → Option Name) :
    List (Name × Nat) :=
  suffixes.filterMap fun e => (formatName e.1).map fun unit => (unit, e.2)

theorem findSome?_formatWith (formatName : Name → Option Name) (value : Nat) :
    suffixes.findSome? (formatWith formatName value) =
      (formatUnits suffixes formatName).findSome? (unitText value) := by
  induction suffixes with
  | nil => rfl
  | cons e suffixes ih =>
      rw [List.findSome?_cons, ih, formatUnits, formatUnits, List.filterMap_cons, formatWith]
      cases formatName e.1 with
      | none => rfl
      | some unit => rfl

theorem formatSmartValue_of_findSome? {formatName : Name → Option Name} {value : Nat}
    (h : (formatUnits suffixes formatName).findSome? (unitText value) = some text) :
    formatSmartValue suffixes formatName value = text := by
  rw [formatSmartValue, findSome?_formatWith, h]

theorem unitText_isSome {value : Nat} {unit : Name × Nat} (hpos : 0 < unit.2)
    (hzero : value = 0 → unit.2 = 1) (hdvd : unit.2 ∣ value) :
    (unitText value unit).isSome = true := by
  rw [unitText, if_neg (Nat.ne_of_gt hpos), if_neg fun h => h.2 (hzero h.1),
    if_neg fun h => h (Nat.mod_eq_zero_of_dvd hdvd)]
  rfl

theorem unitText_eq_some {value : Nat} {unit : Name × Nat}
    (h : unitText value unit = some text) :
    (value = 0 → unit.2 = 1) ∧ unit.2 ∣ value ∧
      text = decimalBytes (value / unit.2) ++ unit.1 := by
  rw [unitText] at h
  split at h
  next => cases h
  next =>
    split at h
    next => cases h
    next hzero =>
      split at h
      next => cases h
      next hmod =>
        rw [not_and, Decidable.not_not] at hzero
        rw [Decidable.not_not] at hmod
        exact ⟨hzero, Nat.dvd_of_mod_eq_zero hmod, (Option.some.inj h).symm⟩

theorem decimalBytes_digits (n : Nat) : ∀ c ∈ decimalBytes n, Json.isDigit c = true :=
  fun _ hc => isDigit_of_mem_decimalBytes hc

theorem isSpaceByte_of_isLetter {c : UInt8} (hc : isLetter (toLowerByte c) = true) :
    isSpaceByte c = false := by
  by_contra hblank
  rw [Bool.not_eq_false, ← congrFun isSpaceByte_toLowerByte c] at hblank
  rw [not_isLetter_of_isSpaceByte _ hblank] at hc
  cases hc

/-- A number and letters have no spaces around them. -/
theorem trimSpaces_written {digits unit : Name}
    (hdigits : ∀ c ∈ digits, Json.isDigit c = true)
    (hunit : ∀ c ∈ unit, isLetter (toLowerByte c) = true) :
    trimSpaces (digits ++ unit) = digits ++ unit := by
  have hspace : ∀ c ∈ digits ++ unit, isSpaceByte c = false := by
    intro c hc
    rcases List.mem_append.mp hc with hc | hc
    · exact isSpaceByte_of_isDigit (hdigits c hc)
    · exact isSpaceByte_of_isLetter (hunit c hc)
  exact trimmed_eq_self_iff.mpr ⟨fun c hc => hspace c (List.mem_of_mem_head? hc),
    fun c hc => hspace c (List.mem_of_getLast? hc)⟩

theorem toLowerAscii_written {digits unit : Name}
    (hdigits : ∀ c ∈ digits, Json.isDigit c = true)
    (hunit : ∀ c ∈ unit, isLetter (toLowerByte c) = true) :
    toLowerAscii (trimSpaces (digits ++ unit)) = digits ++ toLowerAscii unit := by
  have hlower : toLowerAscii digits = digits :=
    (List.map_congr_left fun c hc => toLowerByte_of_isDigit (hdigits c hc)).trans
      (List.map_id _)
  rw [trimSpaces_written hdigits hunit, toLowerAscii, List.map_append]
  exact congrArg (· ++ toLowerAscii unit) hlower

/-- What is written with a unit that is found under its own name is read as it
was. -/
theorem SuffixTable.parseSmartValue_unitText (htable : SuffixTable suffixes)
    {unit : Name × Nat} {value : Nat} (hunit : (toLowerAscii unit.1, unit.2) ∈ suffixes)
    (hvisible : ∀ e ∈ hiddenSuffixes suffixes, e.1 ≠ toLowerAscii unit.1)
    (htext : unitText value unit = some text) (hvalue : value < 2 ^ 64) :
    parseSmartValue suffixes text = some value := by
  obtain ⟨-, hdvd, rfl⟩ := unitText_eq_some htext
  have hdigits := decimalBytes_digits (value / unit.2)
  have hletters : ∀ c ∈ unit.1, isLetter (toLowerByte c) = true := fun c hc =>
    List.all_eq_true.mp (htable.letters _ hunit) _ (List.mem_map_of_mem hc)
  refine htable.parseSmartValue_of_smartText hvisible
    ⟨decimalBytes (value / unit.2), [], ?_, by simp, decimalBytes_ne_nil _, hdigits,
      unit.2, .inr hunit, ?_⟩ hvalue
  · rw [toLowerAscii_written hdigits hletters, List.append_nil]
  · rw [digitsValue_decimalBytes, Nat.div_mul_cancel hdvd]

/-! ### Sizes -/

def byteSizeUnits : List (Name × Nat) :=
  formatUnits byteSizeSuffixes byteSizeFormatName

theorem byteSizeUnits_found : ∀ unit ∈ byteSizeUnits,
    (toLowerAscii unit.1, unit.2) ∈ byteSizeSuffixes ∧
      ∀ e ∈ hiddenSuffixes byteSizeSuffixes, e.1 ≠ toLowerAscii unit.1 := by decide

/-- A size is read as it was written. -/
theorem parseByteSize_formatByteSize (value : UInt64) :
    parseByteSize (formatByteSize value.toNat) = some value.toNat := by
  have hbyte : (ascii "b", 1) ∈ byteSizeUnits := by decide
  have hsome : (byteSizeUnits.findSome? (unitText value.toNat)).isSome = true :=
    List.findSome?_isSome_iff.mpr
      ⟨_, hbyte, unitText_isSome Nat.one_pos (fun _ => rfl) (Nat.one_dvd _)⟩
  obtain ⟨text, htext⟩ := Option.isSome_iff_exists.mp hsome
  obtain ⟨unit, hunit, hwritten⟩ := List.exists_of_findSome?_eq_some htext
  obtain ⟨hmem, hvisible⟩ := byteSizeUnits_found unit hunit
  rw [formatByteSize, formatSmartValue_of_findSome? htext]
  exact byteSizeTable.parseSmartValue_unitText hmem hvisible hwritten value.toNat_lt

/-! ### Intervals -/

/-- The units of a second and more. -/
def intervalUnits : List (Name × Nat) :=
  (formatUnits intervalSuffixes intervalFormatName).dropLast

theorem formatUnits_interval : formatUnits intervalSuffixes intervalFormatName =
    intervalUnits ++ [(ascii "ms", 1)] := by decide

theorem intervalUnits_found : ∀ unit ∈ intervalUnits,
    (toLowerAscii unit.1, unit.2) ∈ intervalSuffixes ∧
      ∀ e ∈ hiddenSuffixes intervalSuffixes, e.1 ≠ toLowerAscii unit.1 := by decide

theorem intervalUnits_seconds : ∀ unit ∈ intervalUnits, 1000 ∣ unit.2 := by decide

/-- The end of `ms` is the name of the second, and `m` is no digit. -/
theorem parseInterval_milliseconds (n : Nat) :
    parseInterval (decimalBytes n ++ ascii "ms") = none := by
  have hdigits := decimalBytes_digits n
  have hms : (ascii "ms").all (fun c => isLetter (toLowerByte c)) = true := by decide
  have hm : (ascii "m").all (fun c => isLetter (toLowerByte c)) = true := by decide
  have hrun : ∀ c ∈ (decimalBytes n).getLast?, isLetter c = false :=
    fun c hc => not_isLetter_of_isDigit c (hdigits c (List.mem_of_getLast? hc))
  have hfind : intervalSuffixes.find?
      (·.1.isSuffixOf ((decimalBytes n ++ ascii "m") ++ ascii "s")) =
      some (ascii "s", 1000) := by
    rw [List.append_assoc, intervalTable.find?_run hrun]
    decide
  have hv : toLowerAscii (trimSpaces (decimalBytes n ++ ascii "ms")) =
      (decimalBytes n ++ ascii "m") ++ ascii "s" := by
    rw [toLowerAscii_written hdigits (List.all_eq_true.mp hms), List.append_assoc]
    rfl
  rw [parseInterval, parseSmartValue_of_find?_some hv hfind,
    trimSpaces_written hdigits (List.all_eq_true.mp hm)]
  have hunsigned : Unsigned (decimalBytes n ++ ascii "m") := by
    rw [Unsigned, List.head?_append_of_ne_nil _ (decimalBytes_ne_nil n)]
    exact unsigned_of_digits hdigits
  have hzero : 0 ∉ decimalBytes n ++ ascii "m" := by
    rw [List.mem_append]
    exact not_or.mpr ⟨zero_not_mem_digits hdigits, by decide⟩
  rw [multiplied]
  split
  next => rfl
  next hne =>
    split
    next => rfl
    next hread =>
      have hdigit := digits_of_readUnsigned hne hzero hunsigned hread 0x6D (by simp [ascii])
      cases hdigit

/-- An interval is read as it was written if it is a number of seconds. -/
theorem parseInterval_formatInterval_iff (value : UInt64) :
    parseInterval (formatInterval value.toNat) = some value.toNat ↔
      value.toNat ≠ 0 ∧ 1000 ∣ value.toNat := by
  have hfind : (formatUnits intervalSuffixes intervalFormatName).findSome?
      (unitText value.toNat) =
      (intervalUnits.findSome? (unitText value.toNat)).or
        ([(ascii "ms", 1)].findSome? (unitText value.toNat)) := by
    rw [formatUnits_interval, List.findSome?_append]
  constructor
  · intro hread
    by_contra hseconds
    have hnone : intervalUnits.findSome? (unitText value.toNat) = none := by
      rw [List.findSome?_eq_none_iff]
      intro unit hunit
      have hthousand := intervalUnits_seconds unit hunit
      by_contra hsome
      obtain ⟨text, htext⟩ := Option.ne_none_iff_exists'.mp hsome
      obtain ⟨hone, hdvd, -⟩ := unitText_eq_some htext
      refine hseconds ⟨fun hzero => ?_, hthousand.trans hdvd⟩
      rw [hone hzero] at hthousand
      exact absurd hthousand (by decide)
    have hwritten : (unitText value.toNat (ascii "ms", 1)).isSome = true :=
      unitText_isSome Nat.one_pos (fun _ => rfl) (Nat.one_dvd _)
    obtain ⟨text, htext⟩ := Option.isSome_iff_exists.mp hwritten
    rw [hnone, Option.none_or, List.findSome?_singleton, htext] at hfind
    rw [formatInterval, formatSmartValue_of_findSome? hfind,
      (unitText_eq_some htext).2.2, parseInterval_milliseconds] at hread
    cases hread
  · rintro ⟨hne, hdvd⟩
    have hsecond : (ascii "s", 1000) ∈ intervalUnits := by decide
    have hsome : (intervalUnits.findSome? (unitText value.toNat)).isSome = true :=
      List.findSome?_isSome_iff.mpr
        ⟨_, hsecond, unitText_isSome (by decide) (fun hzero => absurd hzero hne) hdvd⟩
    obtain ⟨text, htext⟩ := Option.isSome_iff_exists.mp hsome
    obtain ⟨unit, hunit, hwritten⟩ := List.exists_of_findSome?_eq_some htext
    obtain ⟨hmem, hvisible⟩ := intervalUnits_found unit hunit
    rw [htext, Option.some_or] at hfind
    rw [formatInterval, formatSmartValue_of_findSome? hfind]
    exact intervalTable.parseSmartValue_unitText hmem hvisible hwritten value.toNat_lt

theorem interval_five_not_read :
    formatInterval 5 = ascii "5ms" ∧ parseInterval (formatInterval 5) = none := by decide

end Logme
