import Mathlib.Algebra.GroupWithZero.Nat
import Logme.SmartValues
import Logme.Timestamps

/-!
# Timestamps with their zone

The text is read back here with fields of fixed width: the local date and time
and the offset, which together denote an instant in seconds.  `CreateTZD`
prints the offset in hours, and as minutes the seconds beyond whole minutes.
-/

namespace Logme

/-! ## Reading a text back -/

def readDigits (width : Nat) (text : Name) : Option (Nat × Name) :=
  if (text.take width).length = width ∧ (text.take width).all Json.isDigit then
    some (digitsValue (text.take width), text.drop width)
  else none

/-- A year has four characters, the first of which may be a minus sign. -/
def readYear (text : Name) : Option (Int × Name) :=
  match text with
  | 0x2D :: text => (readDigits 3 text).map fun read => (-read.1, read.2)
  | _ => (readDigits 4 text).map fun read => ((read.1 : Int), read.2)

def readSign (text : Name) : Option (Int × Name) :=
  match text with
  | 0x2B :: text => some (1, text)
  | 0x2D :: text => some (-1, text)
  | _ => none

def expectByte (b : UInt8) (text : Name) : Option Name :=
  if text.head? = some b then some text.tail else none

def readDate (text : Name) : Option (Int × Nat × Nat × Name) := do
  let (year, text) ← readYear text
  let text ← expectByte 0x2D text
  let (month, text) ← readDigits 2 text
  let text ← expectByte 0x2D text
  let (day, text) ← readDigits 2 text
  some (year, month, day, text)

def readClock (text : Name) : Option (Nat × Nat × Nat × Name) := do
  let (hour, text) ← readDigits 2 text
  let text ← expectByte 0x3A text
  let (minute, text) ← readDigits 2 text
  let text ← expectByte 0x3A text
  let (second, text) ← readDigits 2 text
  some (hour, minute, second, text)

/-- The offset in seconds. -/
def readZone (text : Name) : Option (Int × Name) := do
  let (sign, text) ← readSign text
  let (hours, text) ← readDigits 2 text
  let text ← expectByte 0x3A text
  let (minutes, text) ← readDigits 2 text
  some (sign * (3600 * hours + 60 * minutes), text)

/-- The instant of `YYYY-MM-DDThh:mm:ss+hh:mm` with a space at the end. -/
def parseTimestamp (text : Name) : Option Int := do
  let (year, month, day, text) ← readDate text
  let text ← expectByte 0x54 text
  let (hour, minute, second, text) ← readClock text
  let (zone, text) ← readZone text
  if text = [0x20] then
    some ((fixedOffset zone).mktime
      { sec := second, min := minute, hour := hour, mday := day, mon := month - 1, wday := 0,
        year := year - 1900 })
  else none

theorem expectByte_cons (b : UInt8) (text : Name) : expectByte b (b :: text) = some text := by
  rw [expectByte, List.head?_cons, if_pos rfl, List.tail_cons]

theorem readDigits_append (digits : Name) (hall : ∀ c ∈ digits, Json.isDigit c = true)
    (rest : Name) :
    readDigits digits.length (digits ++ rest) = some (digitsValue digits, rest) := by
  rw [readDigits, List.take_left, List.drop_left,
    if_pos ⟨rfl, List.all_eq_true.mpr hall⟩]

/-! ## Padded numbers -/

theorem isDigit_of_mem_padZero {width n : Nat} {c : UInt8}
    (hc : c ∈ padZero width (decimalBytes n)) : Json.isDigit c = true := by
  obtain hc | hc := List.mem_append.mp hc
  · rw [List.eq_of_mem_replicate hc]
    rfl
  · exact isDigit_of_mem_decimalBytes hc

theorem digitsValue_padZero (width n : Nat) :
    digitsValue (padZero width (decimalBytes n)) = n := by
  have hzeros : ∀ k, (List.replicate k (0x30 : UInt8)).foldl
      (fun n c => 10 * n + (c.toNat - 0x30)) 0 = 0 := by
    intro k
    induction k with
    | zero => rfl
    | succ k ih => exact ih
  rw [digitsValue, padZero, List.foldl_append, hzeros]
  exact digitsValue_decimalBytes n

theorem length_decimalBytes_le_iff {n width : Nat} (hwidth : 0 < width) :
    (decimalBytes n).length ≤ width ↔ n < 10 ^ width := by
  rw [decimalBytes, List.length_map, Nat.length_toDigits_le_iff (by decide) hwidth]

theorem length_padZero {n width : Nat} (hwidth : 0 < width) (hn : n < 10 ^ width) :
    (padZero width (decimalBytes n)).length = width := by
  have hlength := (length_decimalBytes_le_iff hwidth).mpr hn
  rw [padZero, List.length_append, List.length_replicate]
  omega

theorem readDigits_padZero {n width : Nat} (hwidth : 0 < width) (hn : n < 10 ^ width)
    (rest : Name) :
    readDigits width (padZero width (decimalBytes n) ++ rest) = some (n, rest) := by
  have hread := readDigits_append (padZero width (decimalBytes n))
    (fun c hc => isDigit_of_mem_padZero hc) rest
  rw [length_padZero hwidth hn, digitsValue_padZero] at hread
  exact hread

theorem padInt_of_nonneg {width : Nat} {i : Int} (hi : 0 ≤ i) :
    padInt width i = padZero width (decimalBytes i.natAbs) := by
  rw [padInt, if_neg (by omega)]

theorem readDigits_padInt {width : Nat} {i : Int} (hwidth : 0 < width) (hi : 0 ≤ i)
    (hlt : i.natAbs < 10 ^ width) (rest : Name) :
    readDigits width (padInt width i ++ rest) = some (i.natAbs, rest) := by
  rw [padInt_of_nonneg hi, readDigits_padZero hwidth hlt]

theorem readYear_digits {text : Name} (hdigit : ∀ c ∈ text.head?, Json.isDigit c = true) :
    readYear text = (readDigits 4 text).map fun read => ((read.1 : Int), read.2) := by
  unfold readYear
  split
  case h_1 rest => exact absurd (hdigit 0x2D rfl) (by decide)
  case h_2 => rfl

theorem head_padZero {width n : Nat} {rest : Name} {c : UInt8}
    (hc : (padZero width (decimalBytes n) ++ rest).head? = some c) : Json.isDigit c = true := by
  have hne : padZero width (decimalBytes n) ≠ [] := by
    intro hnil
    exact decimalBytes_ne_nil n (List.append_eq_nil_iff.mp hnil).2
  rw [List.head?_append_of_ne_nil _ hne] at hc
  exact isDigit_of_mem_padZero (List.mem_of_head? hc)

theorem readYear_padInt {year : Int} (hlow : -1000 < year) (hhigh : year < 10000)
    (rest : Name) : readYear (padInt 4 year ++ rest) = some (year, rest) := by
  by_cases hnegative : year < 0
  · rw [padInt, if_pos hnegative, List.cons_append, readYear,
      readDigits_padZero (by decide) (by omega), Option.map_some]
    congr 2
    omega
  · have hnonneg : 0 ≤ year := Int.not_lt.mp hnegative
    have hread : readDigits 4 (padInt 4 year ++ rest) = some (year.natAbs, rest) :=
      readDigits_padInt (by decide) hnonneg (by omega) rest
    rw [readYear_digits, hread, Option.map_some, Int.natAbs_of_nonneg hnonneg]
    intro c hc
    rw [padInt_of_nonneg hnonneg] at hc
    exact head_padZero hc

theorem readDigits_rest {width : Nat} {text : Name} {read : Nat × Name}
    (h : readDigits width text = some read) : read.2 = text.drop width := by
  unfold readDigits at h
  split at h
  case isTrue => rw [← Option.some.inj h]
  case isFalse => exact absurd h (by simp)

theorem readYear_rest {text : Name} {read : Int × Name} (h : readYear text = some read) :
    read.2 = text.drop 4 := by
  unfold readYear at h
  split at h
  case h_1 rest =>
    obtain ⟨digits, hdigits, rfl⟩ := Option.map_eq_some_iff.mp h
    have hrest := readDigits_rest hdigits
    exact hrest
  case h_2 =>
    obtain ⟨digits, hdigits, rfl⟩ := Option.map_eq_some_iff.mp h
    exact readDigits_rest hdigits

/-- A text is not read when its fifth character continues the year. -/
theorem parseTimestamp_long_year {text : Name} {c : UInt8} (hc : text[4]? = some c)
    (hdash : c ≠ 0x2D) : parseTimestamp text = none := by
  have hdate : readDate text = none := by
    rw [readDate]
    cases hyear : readYear text with
    | none => rfl
    | some read =>
        have hhead : read.2.head? ≠ some 0x2D := by
          rw [readYear_rest hyear, List.head?_drop, hc]
          exact fun h => hdash (Option.some.inj h)
        have hexpect : expectByte 0x2D read.2 = none := by rw [expectByte, if_neg hhead]
        simp [hexpect]
  rw [parseTimestamp, hdate]
  rfl

/-! ## The parts of the text -/

theorem brokenDown_ranges (s : Int) :
    (0 ≤ (brokenDown s).sec ∧ (brokenDown s).sec < 60) ∧
      (0 ≤ (brokenDown s).min ∧ (brokenDown s).min < 60) ∧
      (0 ≤ (brokenDown s).hour ∧ (brokenDown s).hour < 24) ∧
      (1 ≤ (brokenDown s).mday ∧ (brokenDown s).mday ≤ 31) ∧
      (0 ≤ (brokenDown s).mon ∧ (brokenDown s).mon < 12) := by
  have hmonth := Calendar.monthOf_spec (s / 86400)
  have hnext := Calendar.monthStart_succ_le (Calendar.monthOf (s / 86400))
  dsimp only [brokenDown]
  omega

/-- `YYYY-MM-DD`. -/
def dateText (tm : Tm) : Name :=
  padInt 4 (tm.year + 1900) ++ 0x2D :: (padInt 2 (tm.mon + 1) ++ 0x2D :: padInt 2 tm.mday)

/-- `hh:mm:ss`. -/
def clockText (tm : Tm) : Name :=
  padInt 2 tm.hour ++ 0x3A :: (padInt 2 tm.min ++ 0x3A :: padInt 2 tm.sec)

theorem stampText_eq (tm : Tm) (milliseconds : Int) :
    stampText tm milliseconds =
      (dateText tm ++ 0x20 :: (clockText tm ++ 0x3A :: (padInt 3 milliseconds ++ [0x20]))).take
        30 := by
  simp [stampText, dateText, clockText]

/-- The hours that are printed, with their sign, and the minutes. -/
def printedHours (d : Int) : Int := (d.tdiv 3600).tmod 60

def printedMinutes (d : Int) : Nat := d.natAbs % 60

def printedSign (d : Int) : Int := if printedHours d < 0 then -1 else 1

def printedOffset (d : Int) : Int :=
  printedSign d * (3600 * (printedHours d).natAbs + 60 * printedMinutes d)

theorem printed_ranges (d : Int) : (printedHours d).natAbs < 60 ∧ printedMinutes d < 60 := by
  have hhours := Int.natAbs_tmod (d.tdiv 3600) 60
  unfold printedHours printedMinutes
  constructor
  · rw [hhours]
    exact Nat.mod_lt _ (by decide)
  · exact Nat.mod_lt _ (by decide)

theorem createTZD_eq (d : Int) :
    MessageTime.createTZD d =
      (if printedHours d < 0 then 0x2D else 0x2B) ::
        (padZero 2 (decimalBytes (printedHours d).natAbs) ++
          0x3A :: (padZero 2 (decimalBytes (printedMinutes d)) ++ [0x20])) := by
  obtain ⟨hhours, hminutes⟩ := printed_ranges d
  have hlength : ∀ {n : Nat}, n < 60 → (padZero 2 (decimalBytes n)).length = 2 := by
    intro n hn
    exact length_padZero (by decide) (by omega)
  have htake : MessageTime.createTZD d =
      ((if printedHours d < 0 then [0x2D] else [0x2B]) ++
        padZero 2 (decimalBytes (printedHours d).natAbs) ++ [0x3A] ++
        padZero 2 (decimalBytes (printedMinutes d)) ++ [0x20]).take 14 := rfl
  rw [htake, List.take_of_length_le]
  · split <;> simp
  · split <;> simp [hlength hhours, hlength hminutes]

theorem readSign_printed (d : Int) (rest : Name) :
    readSign ((if printedHours d < 0 then 0x2D else 0x2B) :: rest) =
      some (printedSign d, rest) := by
  unfold printedSign
  split <;> rfl

theorem readDigits_two {i : Int} (hi : 0 ≤ i) (hlt : i < 100) (rest : Name) :
    readDigits 2 (padInt 2 i ++ rest) = some (i.natAbs, rest) :=
  readDigits_padInt (by decide) hi (by omega) rest

theorem readDate_text {s : Int} (hlow : -1000 < (brokenDown s).year + 1900)
    (hhigh : (brokenDown s).year + 1900 < 10000) (rest : Name) :
    readDate (dateText (brokenDown s) ++ rest) =
      some ((brokenDown s).year + 1900, ((brokenDown s).mon + 1).natAbs,
        (brokenDown s).mday.natAbs, rest) := by
  obtain ⟨-, -, -, hmday, hmon⟩ := brokenDown_ranges s
  have hmonth := readDigits_two (i := (brokenDown s).mon + 1) (by omega) (by omega)
  have hday := readDigits_two (i := (brokenDown s).mday) (by omega) (by omega)
  simp [readDate, dateText, readYear_padInt hlow hhigh, expectByte_cons, hmonth, hday]

theorem readClock_text (s : Int) (rest : Name) :
    readClock (clockText (brokenDown s) ++ rest) =
      some ((brokenDown s).hour.natAbs, (brokenDown s).min.natAbs, (brokenDown s).sec.natAbs,
        rest) := by
  obtain ⟨hsec, hmin, hhour, -, -⟩ := brokenDown_ranges s
  simp [readClock, clockText, expectByte_cons, readDigits_two hhour.1 (by omega),
    readDigits_two hmin.1 (by omega), readDigits_two hsec.1 (by omega)]

theorem readZone_createTZD (d : Int) :
    readZone (MessageTime.createTZD d) = some (printedOffset d, [0x20]) := by
  obtain ⟨hhours, hminutes⟩ := printed_ranges d
  have hzone : ∀ {n : Nat}, n < 60 → ∀ rest : Name,
      readDigits 2 (padZero 2 (decimalBytes n) ++ rest) = some (n, rest) := by
    intro n hn rest
    exact readDigits_padZero (by decide) (by omega) rest
  simp [readZone, createTZD_eq, readSign_printed, expectByte_cons, hzone hhours, hzone hminutes,
    printedOffset]

theorem parseTimestamp_text {s : Int} (hlow : -1000 < (brokenDown s).year + 1900)
    (hhigh : (brokenDown s).year + 1900 < 10000) (d : Int) :
    parseTimestamp (dateText (brokenDown s) ++ 0x54 :: (clockText (brokenDown s) ++
      MessageTime.createTZD d)) = some (s - printedOffset d) := by
  obtain ⟨hsec, hmin, hhour, hmday, hmon⟩ := brokenDown_ranges s
  have hseconds := mktime_brokenDown (printedOffset d) s
  have hmonth : (((brokenDown s).mon + 1).natAbs : Int) - 1 = (brokenDown s).mon := by omega
  rw [parseTimestamp, readDate_text hlow hhigh]
  simp only [Option.bind_eq_bind, Option.bind_some, expectByte_cons, readClock_text,
    readZone_createTZD, if_true, hmonth, Int.add_sub_cancel, Int.natAbs_of_nonneg hsec.1,
    Int.natAbs_of_nonneg hmin.1, Int.natAbs_of_nonneg hhour.1,
    Int.natAbs_of_nonneg (Int.le_trans (by decide) hmday.1)]
  exact congrArg some hseconds

/-! ## The text with the zone -/

theorem zero_notMem_padZero (width n : Nat) : 0 ∉ padZero width (decimalBytes n) :=
  fun hzero => absurd (isDigit_of_mem_padZero hzero) (by decide)

theorem zero_notMem_padInt (width : Nat) (i : Int) : 0 ∉ padInt width i := by
  unfold padInt
  split
  case isTrue =>
    rw [List.mem_cons, not_or]
    exact ⟨by decide, zero_notMem_padZero _ _⟩
  case isFalse => exact zero_notMem_padZero _ _

theorem length_padInt_two {i : Int} (hi : 0 ≤ i) (hlt : i < 100) : (padInt 2 i).length = 2 := by
  rw [padInt_of_nonneg hi, length_padZero (by decide) (by omega)]

theorem length_padInt_four {i : Int} (hlow : -1000 < i) (hhigh : i < 10000) :
    (padInt 4 i).length = 4 := by
  by_cases hnegative : i < 0
  · rw [padInt, if_pos hnegative, List.length_cons, length_padZero (by decide) (by omega)]
  · rw [padInt_of_nonneg (by omega), length_padZero (by decide) (by omega)]

theorem padInt_long {year : Int} (hlong : year ≤ -1000 ∨ 10000 ≤ year) :
    ∃ c, (padInt 4 year)[4]? = some c ∧ Json.isDigit c = true := by
  have hdigits : ∀ {width k : Nat}, 0 < width → ¬ year.natAbs < 10 ^ width → k = width →
      ∃ c, (padZero width (decimalBytes year.natAbs))[k]? = some c ∧ Json.isDigit c = true := by
    intro width k hwidth hlarge hk
    have hlength := (length_decimalBytes_le_iff hwidth).not.mpr hlarge
    have hk : k < (padZero width (decimalBytes year.natAbs)).length := by
      rw [padZero, List.length_append]
      omega
    exact ⟨_, List.getElem?_eq_getElem hk, isDigit_of_mem_padZero (List.getElem_mem hk)⟩
  obtain hlow | hhigh := hlong
  · rw [padInt, if_pos (by omega), List.getElem?_cons_succ]
    exact hdigits (by decide) (by omega) rfl
  · rw [padInt_of_nonneg (by omega)]
    exact hdigits (by decide) (by omega) rfl

theorem withZone_text {date clock more tzd : Name} (hdate : date.length = 10)
    (hclock : clock.length = 8) (hzero : 0 ∉ date ++ 0x54 :: (clock ++ tzd))
    (htzd : tzd.length ≤ 12) :
    withZone ((date ++ 0x20 :: (clock ++ more)).take 30) tzd = date ++ 0x54 :: (clock ++ tzd) := by
  have hstamp : (date ++ 0x20 :: (clock ++ more)).take 30 =
      date ++ 0x20 :: (clock ++ more.take 11) := by
    rw [List.take_append, List.take_of_length_le (by omega), hdate, List.take_succ_cons,
      List.take_append, List.take_of_length_le (by omega), hclock]
  have hbuffer : ∀ zeros : Name,
      (((date ++ 0x20 :: (clock ++ more.take 11)) ++ zeros).set 10 0x54).take 19 =
        date ++ 0x54 :: clock := by
    intro zeros
    rw [List.append_assoc, List.set_append_right _ _ (by omega), hdate, List.cons_append,
      Nat.sub_self, List.set_cons_zero, List.take_append, List.take_of_length_le (by omega), hdate,
      List.take_succ_cons, List.append_assoc, List.take_append, hclock, Nat.sub_self,
      List.take_zero, List.append_nil, List.take_of_length_le (by omega)]
  have hzeros : BufferCursor.cString [0] = [] := rfl
  have happend : date ++ 0x54 :: clock ++ tzd ++ [0] = date ++ 0x54 :: (clock ++ tzd) ++ [0] := by
    simp
  rw [withZone, hstamp]
  rw [hbuffer, List.take_of_length_le htzd, happend,
    BufferCursor.cString_append_of_notMem hzero, hzeros, List.append_nil]

/-- A year of five characters stays in front. -/
theorem withZone_long_year {first : Name} (hfirst : first.length = 5) (hzero : 0 ∉ first)
    (more tzd : Name) : (withZone ((first ++ more).take 30) tzd)[4]? = first[4]? := by
  have hstamp : (first ++ more).take 30 = first ++ more.take 25 := by
    rw [List.take_append, List.take_of_length_le (by omega), hfirst]
  have hbuffer : ∀ zeros : Name, ∃ rest,
      ((first ++ more.take 25 ++ zeros).set 10 0x54).take 19 = first ++ rest := by
    intro zeros
    rw [List.append_assoc, List.set_append_right _ _ (by omega), List.take_append,
      List.take_of_length_le (by omega)]
    exact ⟨_, rfl⟩
  rw [withZone, hstamp]
  obtain ⟨rest, hrest⟩ := hbuffer (List.replicate (32 - (first ++ more.take 25).length) 0)
  rw [hrest, List.append_assoc, List.append_assoc,
    BufferCursor.cString_append_of_notMem hzero, List.getElem?_append_left (by omega)]

theorem length_dateText {s : Int} (h : -1000 < (brokenDown s).year + 1900)
    (h' : (brokenDown s).year + 1900 < 10000) : (dateText (brokenDown s)).length = 10 := by
  obtain ⟨-, -, -, hmday, hmon⟩ := brokenDown_ranges s
  rw [dateText, List.length_append, List.length_cons, List.length_append, List.length_cons,
    length_padInt_four h h', length_padInt_two (by omega) (by omega),
    length_padInt_two (by omega) (by omega)]

theorem length_clockText (s : Int) : (clockText (brokenDown s)).length = 8 := by
  obtain ⟨hsec, hmin, hhour, -⟩ := brokenDown_ranges s
  rw [clockText, List.length_append, List.length_cons, List.length_append, List.length_cons,
    length_padInt_two hhour.1 (by omega), length_padInt_two hmin.1 (by omega),
    length_padInt_two hsec.1 (by omega)]

theorem length_createTZD (d : Int) : (MessageTime.createTZD d).length ≤ 12 := by
  obtain ⟨hhours, hminutes⟩ := printed_ranges d
  rw [createTZD_eq, List.length_cons, List.length_append, List.length_cons,
    List.length_append, length_padZero (by decide) (by omega),
    length_padZero (by decide) (by omega)]
  decide

/-- A year of five characters is cut, and what stands in its place is no stamp. -/
theorem parseTimestamp_withZone_long {s milliseconds d : Int}
    (hyear : ¬ (-1000 < (brokenDown s).year + 1900 ∧ (brokenDown s).year + 1900 < 10000)) :
    parseTimestamp (withZone (stampText (brokenDown s) milliseconds)
      (MessageTime.createTZD d)) = none := by
  obtain ⟨c, hc, hdigit⟩ : ∃ c, (padInt 4 ((brokenDown s).year + 1900))[4]? = some c ∧
      Json.isDigit c = true := padInt_long (by omega)
  have hlong := (List.getElem?_eq_some_iff.mp hc).1
  have hfirst : ((padInt 4 ((brokenDown s).year + 1900)).take 5)[4]? = some c := by
    rw [List.getElem?_take, if_pos (by decide), hc]
  have hzero : 0 ∉ (padInt 4 ((brokenDown s).year + 1900)).take 5 := fun h =>
    zero_notMem_padInt _ _ (List.mem_of_mem_take h)
  rw [stampText_eq]
  refine parseTimestamp_long_year ?_ (ne_of_isDigit hdigit rfl)
  rw [dateText, ← List.take_append_drop 5 (padInt 4 _), List.append_assoc, List.append_assoc,
    withZone_long_year (by rw [List.length_take]; omega) hzero, hfirst]

/-- The text of a stamp and an offset denotes the stamp's local time without
the offset that is printed, or nothing. -/
theorem parseTimestamp_withZone (s milliseconds d : Int) :
    parseTimestamp (withZone (stampText (brokenDown s) milliseconds)
        (MessageTime.createTZD d)) =
      if -1000 < (brokenDown s).year + 1900 ∧ (brokenDown s).year + 1900 < 10000 then
        some (s - printedOffset d)
      else none := by
  split
  case isTrue hyear =>
    have hzero : 0 ∉ dateText (brokenDown s) ++ 0x54 :: (clockText (brokenDown s) ++
        MessageTime.createTZD d) := by
      rw [createTZD_eq]
      split <;> simp [dateText, clockText, zero_notMem_padInt, zero_notMem_padZero]
    rw [stampText_eq, withZone_text (length_dateText hyear.1 hyear.2) (length_clockText s) hzero
      (length_createTZD d), parseTimestamp_text hyear.1 hyear.2]
  case isFalse hyear => exact parseTimestamp_withZone_long hyear

/-! ## A zone with a fixed offset -/

/-- A zone that is always the same number of minutes ahead of UTC. -/
structure FixedZone extends CTime where
  minutes : Int
  fixed : ∀ u, toCTime.zone.offset u = 60 * minutes

namespace FixedZone

variable (z : FixedZone)

theorem resolve_reading (isdst t : Int) : z.resolve isdst (z.zone.reading t) = t := by
  rw [z.zone.resolve_fixed z.fixed (z.resolves isdst), LocalClock.reading, z.fixed]
  omega

theorem createTZD_fixed (t : Int) :
    z.createTZD t = MessageTime.createTZD (Int.bmod (60 * z.minutes) (2 ^ 32)) := by
  have hlocal : z.mktime (z.isdst t) (z.localtime t) = t := z.resolve_reading (z.isdst t) t
  have hutc : z.mktime 0 (z.gmtime t) = t - 60 * z.minutes :=
    z.zone.resolve_fixed z.fixed (z.resolves 0) t
  rw [CTime.createTZD, hlocal, hutc, Int.sub_sub_self]

end FixedZone

/-- The offset is printed exactly when it is whole hours, fewer than 60. -/
theorem printedOffset_eq_iff (minutes : Int) :
    printedOffset (Int.bmod (60 * minutes) (2 ^ 32)) = 60 * minutes ↔
      60 ∣ minutes ∧ -3600 < minutes ∧ minutes < 3600 := by
  have hself : -3600 < minutes ∧ minutes < 3600 →
      Int.bmod (60 * minutes) (2 ^ 32) = 60 * minutes := by
    intro hbounds
    rw [bmod_int_eq_self_iff]
    omega
  have hsign : ∀ d, printedSign d = 1 ∨ printedSign d = -1 := by
    intro d
    unfold printedSign
    split <;> simp
  constructor
  · intro hprinted
    have hranges := printed_ranges (Int.bmod (60 * minutes) (2 ^ 32))
    have hbounds : -3600 < minutes ∧ minutes < 3600 := by
      rw [printedOffset] at hprinted
      obtain h | h := hsign (Int.bmod (60 * minutes) (2 ^ 32)) <;> rw [h] at hprinted <;> omega
    rw [hself hbounds] at hprinted
    have hminutes : printedMinutes (60 * minutes) = 0 := by
      unfold printedMinutes
      omega
    rw [printedOffset, hminutes] at hprinted
    refine ⟨?_, hbounds⟩
    obtain h | h := hsign (60 * minutes) <;> rw [h] at hprinted <;> omega
  · intro ⟨hhours, hbounds⟩
    obtain ⟨hours, rfl⟩ := hhours
    rw [hself hbounds]
    have hprintedHours : printedHours (60 * (60 * hours)) = hours := by
      have hquotient : (60 * (60 * hours)).tdiv 3600 = hours := by
        rw [← Int.mul_assoc]
        exact Int.mul_tdiv_cancel_left hours (by decide)
      rw [printedHours, hquotient, Int.tmod_eq_emod]
      split <;> omega
    have hminutes : printedMinutes (60 * (60 * hours)) = 0 := by
      unfold printedMinutes
      omega
    rw [printedOffset, printedSign, hprintedHours, hminutes]
    split <;> omega

/-! ## Stamps that are kept -/

/-- The cache after calls for local time. -/
def CTime.cacheAfter (c : CTime) (calls : List TimeReading) : StampCache :=
  calls.foldl c.initTimestampLocal {}

/-- The instant of the stamp that a call shows: its own, unless the tick count
is that of the last stamp. -/
def StampCache.shownInstant (cache : StampCache) (r : TimeReading) : Option Int :=
  if r.ticks ≠ cache.lastStampTicks then some r.seconds
  else cache.lastStamp.map DateTimeValue.linearTime

/-- What is kept is the text of the stamp that is kept. -/
structure StampCache.Holds (c : CTime) (cache : StampCache) : Prop where
  empty : cache.lastStamp = none → cache.timestamp = []
  stamp : ∀ d, cache.lastStamp = some d →
    cache.timestamp = stampText (c.localtime d.linearTime) d.milliseconds

theorem CTime.now_holds (c : CTime) (r : TimeReading) :
    (c.now r).time = c.localtime (c.now r).linearTime := by
  rw [c.now_eq]
  rfl

theorem StampCache.Holds.initTimestampLocal {c : CTime} {cache : StampCache}
    (h : cache.Holds c) (r : TimeReading) : (c.initTimestampLocal cache r).Holds c := by
  unfold CTime.initTimestampLocal StampCache.refresh
  split
  case isTrue =>
    constructor
    · intro hnone
      exact absurd hnone (by simp)
    · intro d hd
      obtain rfl := Option.some.inj hd
      rw [← c.now_holds r]
  case isFalse => exact h

theorem CTime.cacheAfter_holds (c : CTime) (calls : List TimeReading) :
    (c.cacheAfter calls).Holds c := by
  have hrun : ∀ (calls : List TimeReading) (cache : StampCache), cache.Holds c →
      (calls.foldl c.initTimestampLocal cache).Holds c := by
    intro calls
    induction calls with
    | nil => exact fun _ h => h
    | cons r calls ih => exact fun _ h => ih _ (h.initTimestampLocal r)
  apply hrun
  constructor
  · exact fun _ => rfl
  · exact fun d hd => absurd hd (by simp)

namespace FixedZone

variable (z : FixedZone)

/-- The text of a call denotes the instant of the stamp that it shows. -/
def Denotes (calls : List TimeReading) (r : TimeReading) (t : Int) : Prop :=
  ∃ s, (z.cacheAfter calls).shownInstant r = some s ∧
    parseTimestamp (z.timestampTZ (z.cacheAfter calls) r t) = some s

/-- A stamp is shown whose local year has four characters, and the offset is
whole hours, fewer than 60. -/
def Representable (calls : List TimeReading) (r : TimeReading) : Prop :=
  ∃ s, (z.cacheAfter calls).shownInstant r = some s ∧
    (-1000 < (z.localtime s).year + 1900 ∧ (z.localtime s).year + 1900 < 10000) ∧
      60 ∣ z.minutes ∧ -3600 < z.minutes ∧ z.minutes < 3600

/-- The text that a call shows. -/
theorem timestampTZ_shown {cache : StampCache} (hcache : cache.Holds z.toCTime) {r : TimeReading}
    {s : Int} (hshown : cache.shownInstant r = some s) (t : Int) :
    ∃ milliseconds, z.timestampTZ cache r t =
      withZone (stampText (z.localtime s) milliseconds)
        (MessageTime.createTZD (Int.bmod (60 * z.minutes) (2 ^ 32))) := by
  rw [CTime.timestampTZ, z.createTZD_fixed, CTime.initTimestampLocal, StampCache.refresh]
  unfold StampCache.shownInstant at hshown
  split at hshown
  case isTrue hticks =>
    obtain rfl := Option.some.inj hshown
    exact ⟨(z.now r).milliseconds, by rw [if_pos hticks, z.now_time]⟩
  case isFalse hticks =>
    obtain ⟨d, hd, rfl⟩ := Option.map_eq_some_iff.mp hshown
    exact ⟨d.milliseconds, by rw [if_neg hticks, hcache.stamp d hd]⟩

/-- What is read back: the printed offset takes the place of the zone's. -/
theorem parseTimestamp_shown {cache : StampCache} (hcache : cache.Holds z.toCTime)
    {r : TimeReading} {s : Int} (hshown : cache.shownInstant r = some s) (t : Int) :
    parseTimestamp (z.timestampTZ cache r t) =
      if -1000 < (z.localtime s).year + 1900 ∧ (z.localtime s).year + 1900 < 10000 then
        some (s + 60 * z.minutes - printedOffset (Int.bmod (60 * z.minutes) (2 ^ 32)))
      else none := by
  obtain ⟨milliseconds, htext⟩ := z.timestampTZ_shown hcache hshown t
  have hreading : z.zone.reading s = s + 60 * z.minutes := by
    rw [LocalClock.reading, z.fixed]
  rw [htext, CTime.localtime, hreading, parseTimestamp_withZone]

/-- The text with the zone denotes its instant exactly for whole hours. -/
theorem denotes_iff (calls : List TimeReading) (r : TimeReading) (t : Int) :
    z.Denotes calls r t ↔ z.Representable calls r := by
  unfold Denotes Representable
  apply exists_congr
  intro s
  apply and_congr_right
  intro hshown
  rw [z.parseTimestamp_shown (z.cacheAfter_holds calls) hshown t,
    ← printedOffset_eq_iff z.minutes]
  split
  case isTrue hyear =>
    rw [and_iff_right hyear, Option.some.injEq]
    omega
  case isFalse hyear => exact iff_of_false (by simp) fun h => hyear h.1

end FixedZone

/-- A clock that stands five and a half hours ahead of UTC. -/
private def halfHourClock : LocalClock := ⟨fun _ => 19800⟩

private theorem halfHourClock_resolves :
    halfHourClock.Resolves fun l => (fixedOffset 19800).mktime (brokenDown l) := by
  intro u
  simp only [mktime_brokenDown, LocalClock.reading, halfHourClock]
  omega

private def halfHour : FixedZone where
  zone := halfHourClock
  isdst _ := 0
  mktime _ tm := (fixedOffset 19800).mktime tm
  mktime_wday _ _ _ := rfl
  mktime_shown _ := halfHourClock_resolves
  minutes := 330
  fixed _ := rfl

/-- The beginning of 1970 is shown as half an hour past it. -/
theorem not_denotes_halfHour : ¬ halfHour.Denotes [] ⟨1, 0, 0⟩ 0 := by
  intro ⟨s, hshown, hparse⟩
  obtain rfl := Option.some.inj hshown
  rw [halfHour.parseTimestamp_shown (halfHour.cacheAfter_holds []) hshown] at hparse
  exact absurd hparse (by decide)

end Logme
