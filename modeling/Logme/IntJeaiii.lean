import Logme.FastFormat
import Logme.Library.BoundedStores
import Logme.StructuredOutput
import Logme.ZoneTimestamps

/-!
# `PrintIntJeaiii`

The digits are taken from a table of pairs and stored from the last one to
the first, behind a `-` for a negative number.  The text is the decimal one
whenever it fits with its terminating zero; else the result is -1.  No byte
behind the given size is touched.
-/

namespace Logme

open BoundedStores

namespace IntJeaiii

def DIGITS : List UInt8 :=
  ascii "00010203040506070809" ++ ascii "10111213141516171819" ++
    ascii "20212223242526272829" ++ ascii "30313233343536373839" ++
    ascii "40414243444546474849" ++ ascii "50515253545556575859" ++
    ascii "60616263646566676869" ++ ascii "70717273747576777879" ++
    ascii "80818283848586878889" ++ ascii "90919293949596979899"

/-- `q[0] = DIGITS[r * 2]; q[1] = DIGITS[r * 2 + 1]`. -/
def storePair (size : Nat) (cells : List UInt8) (q : Nat) (r : UInt32) :
    Option (List UInt8) := do
  let high ← DIGITS[(r * 2).toNat]?
  let cells ← store size cells q [high]
  let low ← DIGITS[(r * 2 + 1).toNat]?
  store size cells (q + 1) [low]

/-- The one or two digits in front. -/
def storeFront (size : Nat) (cells : List UInt8) (q : Nat) (v : UInt32) :
    Option (List UInt8) :=
  if v < 10 then do
    let q ← back q 1
    store size cells q [(0x30 + v).toUInt8]
  else do
    let q ← back q 2
    storePair size cells q v

/-- The pairs of digits, from the last one on, as long as `v` has three. -/
def storePairs (size : Nat) (cells : List UInt8) (q : Nat) (v : UInt32) :
    Option (List UInt8) :=
  if v < 100 then storeFront size cells q v
  else do
    let q2 := v / 100
    let r := v - q2 * 100
    let q ← back q 2
    let cells ← storePair size cells q r
    storePairs size cells q q2
  termination_by v.toNat
  decreasing_by
    rename_i h
    rw [UInt32.lt_iff_toNat_lt] at h
    rw [UInt32.toNat_div]
    simp only [UInt32.reduceToNat] at h ⊢
    omega

/-- The digits and the terminating zero from `p` on; `room` is what is left
of the size. -/
def printUnsigned (size : Nat) (cells : List UInt8) (p room : Nat) (u : UInt32) :
    Option (List UInt8 × Int) :=
  if u < 100 then
    if u < 10 then
      if room < 2 then some (cells, -1)
      else do
        let cells ← store size cells p [(0x30 + u).toUInt8]
        let cells ← store size cells (p + 1) [0]
        some (cells, (p + 1 : Nat))
    else if room < 3 then some (cells, -1)
    else do
      let cells ← storePair size cells p u
      let cells ← store size cells (p + 2) [0]
      some (cells, (p + 2 : Nat))
  else if u < 10000 then
    let len := if u < 1000 then 3 else 4
    if room ≤ len then some (cells, -1)
    else do
      let r := u % 100
      let v := u / 100
      let q ← back (p + len) 2
      let cells ← storePair size cells q r
      let cells ← storeFront size cells q v
      let cells ← store size cells (p + len) [0]
      some (cells, (p + len : Nat))
  else
    let len :=
      if u ≥ 1000000000 then 10
      else if u ≥ 100000000 then 9
      else if u ≥ 10000000 then 8
      else if u ≥ 1000000 then 7
      else if u ≥ 100000 then 6
      else if u ≥ 10000 then 5
      else 1
    if room ≤ len then some (cells, -1)
    else do
      let cells ← storePairs size cells (p + len) u
      let cells ← store size cells (p + len) [0]
      some (cells, (p + len : Nat))

/-- `(uint32_t)(-(int64_t)value)`. -/
def magnitude (value : Int32) : UInt32 := (-value.toInt64).toUInt64.toUInt32

end IntJeaiii

open IntJeaiii

/-- The buffer and what is returned; a null pointer has no buffer. -/
def PrintIntJeaiii (buffer : Option (List UInt8)) (size : Nat) (value : Int32) :
    Option (Option (List UInt8) × Int) :=
  match buffer with
  | none => some (none, -1)
  | some cells =>
      if size = 0 then some (some cells, -1)
      else if value < 0 then
        if size < 2 then some (some cells, -1)
        else do
          let cells ← store size cells 0 [0x2D]
          let printed ← printUnsigned size cells 1 (size - 1) (magnitude value)
          some (some printed.1, printed.2)
      else do
        let printed ← printUnsigned size cells 0 size value.toUInt32
        some (some printed.1, printed.2)

namespace IntJeaiii

/-! ## Decimal digits in pairs -/

def digitByte (n : Nat) : UInt8 := UInt8.ofNat (0x30 + n)

def pairBytes (n : Nat) : List UInt8 := [digitByte (n / 10), digitByte (n % 10)]

theorem digitByte_digitChar {n : Nat} (hn : n < 10) :
    UInt8.ofNat n.digitChar.toNat = digitByte n := by
  revert n
  decide

theorem decimalBytes_of_lt {n : Nat} (hn : n < 10) : decimalBytes n = [digitByte n] := by
  rw [decimalBytes, Nat.toDigits_of_lt_base hn, List.map_singleton, digitByte_digitChar hn]

theorem decimalBytes_of_le {n : Nat} (hn : 10 ≤ n) :
    decimalBytes n = decimalBytes (n / 10) ++ [digitByte (n % 10)] := by
  have hlast : n % 10 < 10 := Nat.mod_lt n (by decide)
  rw [decimalBytes, Nat.toDigits_of_base_le (by decide) hn, List.map_append,
    List.map_singleton, digitByte_digitChar hlast, decimalBytes]

theorem decimalBytes_pair {n : Nat} (hten : 10 ≤ n) (hn : n < 100) :
    decimalBytes n = pairBytes n := by
  rw [decimalBytes_of_le hten, decimalBytes_of_lt (by omega)]
  rfl

theorem decimalBytes_append_pair {n : Nat} (hn : 100 ≤ n) :
    decimalBytes n = decimalBytes (n / 100) ++ pairBytes (n % 100) := by
  have hfront : n / 10 / 10 = n / 100 := Nat.div_div_eq_div_mul n 10 10
  have hhigh : n / 10 % 10 = n % 100 / 10 := by omega
  have hlow : n % 100 % 10 = n % 10 := by omega
  rw [decimalBytes_of_le (by omega), decimalBytes_of_le (by omega : 10 ≤ n / 10), hfront,
    pairBytes, hhigh, hlow, List.append_assoc]
  rfl

theorem digits_pair {r : Nat} (hr : r < 100) :
    DIGITS[r * 2]? = some (digitByte (r / 10)) ∧
      DIGITS[r * 2 + 1]? = some (digitByte (r % 10)) := by
  revert r
  decide

/-! ## Unsigned numbers of 32 bits -/

theorem toUInt8_digit (v : UInt32) :
    (0x30 + v).toUInt8 = digitByte v.toNat := by
  have hzero : (0x30 : UInt32).toNat = 0x30 := rfl
  apply UInt8.toNat_inj.mp
  rw [UInt32.toNat_toUInt8, UInt32.toNat_add, hzero, digitByte, UInt8.toNat_ofNat']
  omega

theorem toNat_div_hundred (v : UInt32) : (v / 100).toNat = v.toNat / 100 := by
  have hhundred : (100 : UInt32).toNat = 100 := rfl
  rw [UInt32.toNat_div, hhundred]

theorem toNat_sub_hundred (v : UInt32) : (v - v / 100 * 100).toNat = v.toNat % 100 := by
  have hhundred : (100 : UInt32).toNat = 100 := rfl
  have hmul : (v / 100 * 100).toNat = v.toNat / 100 * 100 := by
    have hlt := v.toNat_lt
    rw [UInt32.toNat_mul, UInt32.toNat_div, hhundred, Nat.mod_eq_of_lt (by omega)]
  have hle : v / 100 * 100 ≤ v := by
    rw [UInt32.le_iff_toNat_le, hmul]
    omega
  rw [UInt32.toNat_sub_of_le _ _ hle, hmul]
  omega

theorem toNat_magnitude {value : Int32} (hvalue : value < 0) :
    (magnitude value).toNat = value.toInt.natAbs := by
  rw [Int32.lt_iff_toInt_lt] at hvalue
  have hzero : (0 : Int32).toInt = 0 := rfl
  have hle := value.le_toInt
  have hneg : (-value.toInt64).toInt = -value.toInt := by
    rw [Int64.toInt_neg, Int32.toInt_toInt64]
    apply Int.bmod_eq_of_le <;> omega
  have hcond := BitVec.toInt_eq_toNat_cond (-value.toInt64).toBitVec
  have hbits : (-value.toInt64).toBitVec.toNat = value.toInt.natAbs := by
    have hsame : (-value.toInt64).toBitVec.toInt = -value.toInt := hneg
    have hlt := (-value.toInt64).toBitVec.isLt
    split at hcond <;> omega
  have hwide : (-value.toInt64).toUInt64.toNat = value.toInt.natAbs := hbits
  rw [magnitude, UInt64.toNat_toUInt32, hwide]
  omega

theorem toNat_toUInt32 {value : Int32} (hvalue : ¬ value < 0) :
    value.toUInt32.toNat = value.toInt.natAbs := by
  rw [Int32.lt_iff_toInt_lt] at hvalue
  have hzero : (0 : Int32).toInt = 0 := rfl
  have hcond := BitVec.toInt_eq_toNat_cond value.toBitVec
  have hsame : value.toBitVec.toInt = value.toInt := rfl
  have hlt := value.toBitVec.isLt
  have hbits : value.toBitVec.toNat = value.toInt.natAbs := by
    split at hcond <;> omega
  exact hbits

/-! ## Storing the digits -/

theorem storePair_parts {size : Nat} {before hole : List UInt8} {r : UInt32}
    (hhole : hole.length = 2) (hsize : before.length + 2 ≤ size) (hr : r.toNat < 100)
    (after : List UInt8) :
    storePair size (before ++ hole ++ after) before.length r =
      some (before ++ pairBytes r.toNat ++ after) := by
  obtain ⟨a, b, rfl⟩ := List.length_eq_two.mp hhole
  have hhigh : (r * 2).toNat = r.toNat * 2 := by
    have htwo : (2 : UInt32).toNat = 2 := rfl
    rw [UInt32.toNat_mul, htwo]
    omega
  have hlow : (r * 2 + 1).toNat = r.toNat * 2 + 1 := by
    have hone : (1 : UInt32).toNat = 1 := rfl
    rw [UInt32.toNat_add, hhigh, hone]
    omega
  have hfirst : store size (before ++ [a, b] ++ after) before.length [digitByte (r.toNat / 10)] =
      some (before ++ [digitByte (r.toNat / 10)] ++ ([b] ++ after)) := by
    have hfits : before.length + [digitByte (r.toNat / 10)].length ≤ size := by
      rw [List.length_singleton]
      omega
    have hplace : [a].length = [digitByte (r.toNat / 10)].length := rfl
    have hparts := store_parts before hplace hfits ([b] ++ after)
    simpa using hparts
  have hsecond : store size (before ++ [digitByte (r.toNat / 10)] ++ ([b] ++ after))
      (before.length + 1) [digitByte (r.toNat % 10)] =
        some (before ++ pairBytes r.toNat ++ after) := by
    have hfits : (before ++ [digitByte (r.toNat / 10)]).length +
        [digitByte (r.toNat % 10)].length ≤ size := by
      rw [List.length_append]
      exact hsize
    have hplace : [b].length = [digitByte (r.toNat % 10)].length := rfl
    have hparts := store_parts (before ++ [digitByte (r.toNat / 10)]) hplace hfits after
    simpa [pairBytes] using hparts
  rw [storePair, hhigh, hlow, (digits_pair hr).1, (digits_pair hr).2]
  simp only [Option.bind_eq_bind, Option.bind_some, hfirst, hsecond]

theorem storeFront_parts {size : Nat} {before hole : List UInt8} {v : UInt32}
    (hv : v.toNat < 100) (hhole : hole.length = (decimalBytes v.toNat).length)
    (hsize : before.length + hole.length ≤ size) (after : List UInt8) :
    storeFront size (before ++ hole ++ after) (before.length + hole.length) v =
      some (before ++ decimalBytes v.toNat ++ after) := by
  by_cases hten : v.toNat < 10
  · rw [decimalBytes_of_lt hten] at hhole ⊢
    have hv' : v < 10 := UInt32.lt_iff_toNat_lt.mpr hten
    rw [storeFront, if_pos hv', hhole, List.length_singleton, back_add, toUInt8_digit]
    exact store_parts before hhole (by rw [← hhole]; exact hsize) after
  · have hpair := decimalBytes_pair (by omega) hv
    rw [hpair] at hhole ⊢
    have hv' : ¬ v < 10 := fun h => hten (UInt32.lt_iff_toNat_lt.mp h)
    rw [storeFront, if_neg hv', hhole]
    have hback : back (before.length + (pairBytes v.toNat).length) 2 = some before.length :=
      back_add before.length 2
    rw [hback]
    exact storePair_parts hhole (by rw [hhole] at hsize; exact hsize) hv after

theorem storePairs_parts {size : Nat} {before hole : List UInt8} {v : UInt32}
    (hhole : hole.length = (decimalBytes v.toNat).length)
    (hsize : before.length + hole.length ≤ size) (after : List UInt8) :
    storePairs size (before ++ hole ++ after) (before.length + hole.length) v =
      some (before ++ decimalBytes v.toNat ++ after) := by
  induction hvalue : v.toNat using Nat.strongRecOn generalizing v hole after with
  | _ value ih =>
      subst hvalue
      by_cases hv : v.toNat < 100
      · have hv' : v < 100 := UInt32.lt_iff_toNat_lt.mpr hv
        rw [storePairs, if_pos hv']
        exact storeFront_parts hv hhole hsize after
      · have hv' : ¬ v < 100 := fun h => hv (UInt32.lt_iff_toNat_lt.mp h)
        have hdigits := decimalBytes_append_pair (by omega : 100 ≤ v.toNat)
        rw [← toNat_div_hundred] at hdigits
        have hlength := hhole
        rw [hdigits, List.length_append] at hlength
        obtain ⟨front, pair, rfl, hfront, hpair⟩ := exists_append_of_length hlength
        change pair.length = 2 at hpair
        have hback : back (before.length + (front ++ pair).length) 2 =
            some (before.length + front.length) := by
          rw [List.length_append, hpair]
          exact back_add (before.length + front.length) 2
        have hstore : storePair size (before ++ (front ++ pair) ++ after)
            (before.length + front.length) (v - v / 100 * 100) =
              some (before ++ front ++ (pairBytes (v.toNat % 100) ++ after)) := by
          rw [List.length_append, hpair] at hsize
          have hfits : (before ++ front).length + 2 ≤ size := by
            rw [List.length_append]
            omega
          have hlt : (v - v / 100 * 100).toNat < 100 := by
            rw [toNat_sub_hundred]
            exact Nat.mod_lt _ (by decide)
          have hparts := storePair_parts hpair hfits hlt after
          rw [toNat_sub_hundred] at hparts
          simpa using hparts
        have hless : (v / 100).toNat < v.toNat := by
          rw [toNat_div_hundred]
          omega
        have hrest := ih _ hless hfront (by rw [List.length_append] at hsize; omega)
          (pairBytes (v.toNat % 100) ++ after) rfl
        rw [storePairs, if_neg hv', hdigits]
        simp only [Option.bind_eq_bind]
        rw [hback, Option.bind_some, hstore, Option.bind_some, hrest]
        simp

/-- The three or four digits of the middle range. -/
theorem storePair_storeFront {size : Nat} {cells : List UInt8} {q : Nat} {v : UInt32}
    (hlow : ¬ v < 100) (hhigh : v < 10000) :
    storePairs size cells q v = (do
      let q ← back q 2
      let cells ← storePair size cells q (v % 100)
      storeFront size cells q (v / 100)) := by
  have hmod : v - v / 100 * 100 = v % 100 := by
    apply UInt32.toNat_inj.mp
    have hhundred : (100 : UInt32).toNat = 100 := rfl
    rw [toNat_sub_hundred, UInt32.toNat_mod, hhundred]
  have hfront : v / 100 < 100 := by
    rw [UInt32.lt_iff_toNat_lt] at hhigh ⊢
    have hbound : (10000 : UInt32).toNat = 10000 := rfl
    have hhundred : (100 : UInt32).toNat = 100 := rfl
    rw [toNat_div_hundred, hhundred]
    omega
  have hlast : ∀ cells q, storePairs size cells q (v / 100) =
      storeFront size cells q (v / 100) := by
    intro cells q
    rw [storePairs, if_pos hfront]
  rw [storePairs, if_neg hlow]
  simp only [hmod, hlast]

/-! ## The text of a number -/

/-- The digits of `u` and a zero from place `p` on. -/
def PrintsDigits (size : Nat) (before rest : List UInt8) (u : UInt32) : Prop :=
  let text := decimalBytes u.toNat
  printUnsigned size (before ++ rest) before.length (size - before.length) u =
    if text.length < size - before.length then
      some (before ++ text ++ 0 :: rest.drop (text.length + 1),
        ((before.length + text.length : Nat) : Int))
    else some (before ++ rest, -1)

theorem store_terminator {size : Nat} {before text rest : List UInt8}
    (hfits : text.length < size - before.length) (hrest : size - before.length ≤ rest.length) :
    store size (before ++ text ++ rest.drop text.length) (before.length + text.length) [0] =
      some (before ++ text ++ 0 :: rest.drop (text.length + 1)) := by
  have hbound : (before ++ text).length + [(0 : UInt8)].length ≤ size := by
    simp only [List.length_append, List.length_singleton]
    omega
  have hcells : [(0 : UInt8)].length ≤ (rest.drop text.length).length := by
    simp only [List.length_drop, List.length_singleton]
    omega
  have hparts := store_append (before ++ text) hbound hcells
  rw [List.length_append] at hparts
  rw [hparts, List.drop_drop]
  simp

theorem length_decimalBytes_eq {n width : Nat} (hwidth : 0 < width) (hlow : 10 ^ width ≤ n)
    (hhigh : n < 10 ^ (width + 1)) : (decimalBytes n).length = width + 1 := by
  have hle := (length_decimalBytes_le_iff (Nat.succ_pos width)).mpr hhigh
  have hnot := mt (length_decimalBytes_le_iff (n := n) hwidth).mp (by omega)
  omega

theorem length_decimalBytes_of_ge {n : Nat} (hlow : 10000 ≤ n) (hn : n < 4294967296) :
    (decimalBytes n).length =
      if 1000000000 ≤ n then 10
      else if 100000000 ≤ n then 9
      else if 10000000 ≤ n then 8
      else if 1000000 ≤ n then 7
      else if 100000 ≤ n then 6
      else if 10000 ≤ n then 5
      else 1 := by
  split_ifs <;> exact length_decimalBytes_eq (by decide) (by omega) (by omega)

theorem storePairs_text {size : Nat} {before rest : List UInt8} {u : UInt32} {len : Nat}
    (hrest : size - before.length ≤ rest.length) (hlen : (decimalBytes u.toNat).length = len)
    (hfits : len < size - before.length) :
    storePairs size (before ++ rest) (before.length + len) u =
      some (before ++ decimalBytes u.toNat ++ rest.drop len) := by
  have hlength : rest.length = len + (rest.length - len) := by omega
  obtain ⟨hole, behind, rfl, hhole, -⟩ := exists_append_of_length hlength
  have hsize : before.length + hole.length ≤ size := by omega
  have hparts := storePairs_parts (hhole.trans hlen.symm) hsize behind
  rw [hhole] at hparts
  rw [← List.append_assoc, hparts, ← hhole, List.drop_left]

/-- The paths differ in the number of digits that they count on. -/
theorem printsDigits_of_len {size : Nat} {before rest : List UInt8} {u : UInt32} {len : Nat}
    (hrest : size - before.length ≤ rest.length) (hlen : (decimalBytes u.toNat).length = len)
    (hprint : printUnsigned size (before ++ rest) before.length (size - before.length) u =
      if size - before.length ≤ len then some (before ++ rest, -1)
      else do
        let cells ← storePairs size (before ++ rest) (before.length + len) u
        let cells ← store size cells (before.length + len) [0]
        some (cells, ((before.length + len : Nat) : Int))) :
    PrintsDigits size before rest u := by
  rw [PrintsDigits, hprint, hlen]
  by_cases hfits : len < size - before.length
  · rw [if_neg (by omega), if_pos hfits, storePairs_text hrest hlen hfits]
    subst hlen
    simp only [Option.bind_eq_bind, Option.bind_some]
    rw [store_terminator hfits hrest, Option.bind_some]
  · rw [if_pos (by omega), if_neg hfits]

theorem printsDigits_of_lt_hundred {size : Nat} {before rest : List UInt8} {u : UInt32}
    (hrest : size - before.length ≤ rest.length) (hu : u < 100) :
    PrintsDigits size before rest u := by
  have hu' : u.toNat < 100 := UInt32.lt_iff_toNat_lt.mp hu
  by_cases hten : u < 10
  · have hten' : u.toNat < 10 := UInt32.lt_iff_toNat_lt.mp hten
    have hlen : (decimalBytes u.toNat).length = 1 := by
      rw [decimalBytes_of_lt hten']
      rfl
    have hpairs : storePairs size (before ++ rest) (before.length + 1) u =
        store size (before ++ rest) before.length [(0x30 + u).toUInt8] := by
      rw [storePairs, if_pos hu, storeFront, if_pos hten, back_add]
      rfl
    refine printsDigits_of_len hrest hlen ?_
    rw [printUnsigned, if_pos hu, if_pos hten, hpairs]
    exact if_congr Nat.lt_succ_iff rfl rfl
  · have hten' : ¬ u.toNat < 10 := fun h => hten (UInt32.lt_iff_toNat_lt.mpr h)
    have hlen : (decimalBytes u.toNat).length = 2 := by
      rw [decimalBytes_pair (by omega) hu']
      rfl
    have hpairs : storePairs size (before ++ rest) (before.length + 2) u =
        storePair size (before ++ rest) before.length u := by
      rw [storePairs, if_pos hu, storeFront, if_neg hten, back_add]
      rfl
    refine printsDigits_of_len hrest hlen ?_
    rw [printUnsigned, if_pos hu, if_neg hten, hpairs]
    exact if_congr Nat.lt_succ_iff rfl rfl

theorem printsDigits_of_lt_tenThousand {size : Nat} {before rest : List UInt8} {u : UInt32}
    (hrest : size - before.length ≤ rest.length) (hlow : ¬ u < 100) (hhigh : u < 10000) :
    PrintsDigits size before rest u := by
  have hlow' : ¬ u.toNat < 100 := fun h => hlow (UInt32.lt_iff_toNat_lt.mpr h)
  have hhigh' : u.toNat < 10000 := UInt32.lt_iff_toNat_lt.mp hhigh
  have hlen : (decimalBytes u.toNat).length = if u < 1000 then 3 else 4 := by
    split
    next hmiddle =>
      have hmiddle' : u.toNat < 1000 := UInt32.lt_iff_toNat_lt.mp hmiddle
      exact length_decimalBytes_eq (by decide) (by omega) hmiddle'
    next hmiddle =>
      have hmiddle' : ¬ u.toNat < 1000 := fun h => hmiddle (UInt32.lt_iff_toNat_lt.mpr h)
      exact length_decimalBytes_eq (by decide) (by omega) hhigh'
  refine printsDigits_of_len hrest hlen ?_
  rw [printUnsigned, if_neg hlow, if_pos hhigh, storePair_storeFront hlow hhigh]
  simp only [bind_assoc]

theorem printsDigits_general {size : Nat} {before rest : List UInt8} {u : UInt32}
    (hrest : size - before.length ≤ rest.length) (hlow : ¬ u < 100) (hhigh : ¬ u < 10000) :
    PrintsDigits size before rest u := by
  have hhigh' : ¬ u.toNat < 10000 := fun h => hhigh (UInt32.lt_iff_toNat_lt.mpr h)
  refine printsDigits_of_len hrest ?_ (by rw [printUnsigned, if_neg hlow, if_neg hhigh])
  simp only [ge_iff_le, UInt32.le_iff_toNat_le, UInt32.reduceToNat]
  exact length_decimalBytes_of_ge (by omega) u.toNat_lt

theorem printUnsigned_text {size : Nat} (before : List UInt8) {rest : List UInt8}
    (hrest : size - before.length ≤ rest.length) (u : UInt32) :
    PrintsDigits size before rest u := by
  by_cases hhundred : u < 100
  · exact printsDigits_of_lt_hundred hrest hhundred
  · by_cases htenThousand : u < 10000
    · exact printsDigits_of_lt_tenThousand hrest hhundred htenThousand
    · exact printsDigits_general hrest hhundred htenThousand

end IntJeaiii

theorem printIntJeaiii_of_nonneg {cells : List UInt8} {size : Nat} {value : Int32}
    (hcells : size ≤ cells.length) (hvalue : ¬ value < 0) :
    PrintIntJeaiii (some cells) size value =
      if (decimalBytes value.toUInt32.toNat).length < size then
        some (some (decimalBytes value.toUInt32.toNat ++
          0 :: cells.drop ((decimalBytes value.toUInt32.toNat).length + 1)),
            ((decimalBytes value.toUInt32.toNat).length : Int))
      else some (some cells, -1) := by
  have hprinted := printUnsigned_text [] hcells value.toUInt32
  simp only [PrintsDigits, List.nil_append, List.length_nil, Nat.sub_zero, Nat.zero_add]
    at hprinted
  rw [PrintIntJeaiii]
  by_cases hsize : size = 0
  · rw [if_pos hsize, if_neg (by omega)]
  · simp only [if_neg hsize, if_neg hvalue, hprinted, Option.bind_eq_bind]
    split <;> rfl

theorem printIntJeaiii_of_neg {b : UInt8} {rest : List UInt8} {size : Nat} {value : Int32}
    (hsize : 2 ≤ size) (hrest : size ≤ rest.length + 1) (hvalue : value < 0) :
    PrintIntJeaiii (some (b :: rest)) size value =
      if (decimalBytes (magnitude value).toNat).length < size - 1 then
        some (some (0x2D :: decimalBytes (magnitude value).toNat ++
          0 :: rest.drop ((decimalBytes (magnitude value).toNat).length + 1)),
            ((1 + (decimalBytes (magnitude value).toNat).length : Nat) : Int))
      else some (some (0x2D :: rest), -1) := by
  have hstore : store size (b :: rest) 0 [0x2D] = some ([0x2D] ++ rest) :=
    store_append [] (by simp only [List.length_nil, List.length_singleton]; omega) (by simp)
  have hroom : size - [(0x2D : UInt8)].length ≤ rest.length := by
    rw [List.length_singleton]
    omega
  have hprinted := printUnsigned_text [0x2D] hroom (magnitude value)
  simp only [PrintsDigits, List.length_singleton] at hprinted
  rw [PrintIntJeaiii]
  simp only [if_neg (by omega : ¬ size = 0), if_pos hvalue, if_neg (by omega : ¬ size < 2),
    hstore, Option.bind_eq_bind, Option.bind_some, hprinted]
  split <;> rfl

theorem signedBytes_of_neg {value : Int32} (hvalue : value < 0) :
    signedBytes value.toInt = 0x2D :: decimalBytes (magnitude value).toNat := by
  have hsign : value.toInt < 0 := Int32.lt_iff_toInt_lt.mp hvalue
  rw [signedBytes, if_pos hsign, toNat_magnitude hvalue]

theorem signedBytes_of_nonneg {value : Int32} (hvalue : ¬ value < 0) :
    signedBytes value.toInt = decimalBytes value.toUInt32.toNat := by
  have hsign : ¬ value.toInt < 0 := fun h => hvalue (Int32.lt_iff_toInt_lt.mpr h)
  rw [signedBytes, if_neg hsign, toNat_toUInt32 hvalue]

theorem printIntJeaiii_of_fits {cells : List UInt8} {size : Nat} {value : Int32}
    (hcells : size ≤ cells.length) (hfits : (signedBytes value.toInt).length < size) :
    PrintIntJeaiii (some cells) size value =
      some (some (signedBytes value.toInt ++
        0 :: cells.drop ((signedBytes value.toInt).length + 1)),
          ((signedBytes value.toInt).length : Int)) := by
  by_cases hvalue : value < 0
  · rw [signedBytes_of_neg hvalue, List.length_cons] at hfits
    obtain ⟨b, rest, rfl⟩ := List.exists_cons_of_length_pos (by omega : 0 < cells.length)
    rw [printIntJeaiii_of_neg (by omega) hcells hvalue, if_pos (by omega), Nat.add_comm 1,
      signedBytes_of_neg hvalue]
    rfl
  · rw [signedBytes_of_nonneg hvalue] at hfits ⊢
    rw [printIntJeaiii_of_nonneg hcells hvalue, if_pos hfits]

/-- Only the `-` can have been stored. -/
theorem printIntJeaiii_of_full {cells : List UInt8} {size : Nat} {value : Int32}
    (hcells : size ≤ cells.length) (hfull : size ≤ (signedBytes value.toInt).length) :
    ∃ cells', PrintIntJeaiii (some cells) size value = some (some cells', -1) ∧
      cells'.length = cells.length ∧ cells'.drop size = cells.drop size := by
  by_cases hvalue : value < 0
  · rw [signedBytes_of_neg hvalue, List.length_cons] at hfull
    by_cases hroom : size < 2
    · refine ⟨cells, ?_, rfl, rfl⟩
      rw [PrintIntJeaiii]
      simp [hvalue, hroom]
    · obtain ⟨b, rest, rfl⟩ := List.exists_cons_of_length_pos (by omega : 0 < cells.length)
      obtain ⟨behind, rfl⟩ := Nat.exists_eq_add_of_lt (by omega : 0 < size)
      refine ⟨0x2D :: rest, ?_, rfl, ?_⟩
      · rw [printIntJeaiii_of_neg (by omega) hcells hvalue, if_neg (by omega)]
      · rw [Nat.zero_add, List.drop_succ_cons, List.drop_succ_cons]
  · rw [signedBytes_of_nonneg hvalue] at hfull
    refine ⟨cells, ?_, rfl, rfl⟩
    rw [printIntJeaiii_of_nonneg hcells hvalue, if_neg (by omega)]

/-- What is returned and left in the cells: the text with a zero behind it,
or -1 and nothing behind the size. -/
theorem printIntJeaiii_text {cells : List UInt8} {size : Nat} (hcells : size ≤ cells.length)
    (value : Int32) :
    PrintIntJeaiii none size value = some (none, -1) ∧
      let text := signedBytes value.toInt
      if text.length < size then
        PrintIntJeaiii (some cells) size value =
          some (some (text ++ 0 :: cells.drop (text.length + 1)), (text.length : Int))
      else
        ∃ cells', PrintIntJeaiii (some cells) size value = some (some cells', -1) ∧
          cells'.length = cells.length ∧ cells'.drop size = cells.drop size := by
  refine ⟨rfl, ?_⟩
  dsimp only
  split
  next hfits => exact printIntJeaiii_of_fits hcells hfits
  next hfull => exact printIntJeaiii_of_full hcells (by omega)

theorem printIntJeaiii_text_minus_ten :
    4 ≤ (List.replicate 5 (0xFF : UInt8)).length ∧
      PrintIntJeaiii (some (List.replicate 5 0xFF)) 4 (-10) =
        some (some (ascii "-10" ++ [0, 0xFF]), 3) := by
  have hcells : 4 ≤ (List.replicate 5 (0xFF : UInt8)).length := by decide
  have htext : signedBytes (-10 : Int32).toInt = ascii "-10" := by decide
  have hprinted := (printIntJeaiii_text hcells (-10)).2
  rw [htext] at hprinted
  exact ⟨hcells, hprinted⟩

/-! ## The digits of a fast format -/

theorem signedBytes_eq_decimal (i : Int) :
    signedBytes i = (decimal i).map fun c => UInt8.ofNat c.toNat := by
  rw [signedBytes, decimal, decimalBytes]
  split <;> rfl

theorem length_signedBytes_le (value : Int32) : (signedBytes value.toInt).length ≤ 11 := by
  have hle := value.le_toInt
  have hlt := value.toInt_lt
  have hdigits : (decimalBytes value.toInt.natAbs).length ≤ 10 :=
    (length_decimalBytes_le_iff (by decide)).mpr (by omega)
  rw [signedBytes]
  split
  · rw [List.length_cons]
    omega
  · omega

/-- The 32 bytes of `AppendInt` take every number. -/
theorem printIntJeaiii_temp {temp : List UInt8} (htemp : temp.length = 32) (value : Int32) :
    ∃ cells, ∃ len : Nat,
      PrintIntJeaiii (some temp) 32 value = some (some cells, (len : Int)) ∧
        cells.take len = (decimal value.toInt).map fun c => UInt8.ofNat c.toNat := by
  have hfits : (signedBytes value.toInt).length < 32 := by
    have hlength := length_signedBytes_le value
    omega
  have hprinted := printIntJeaiii_of_fits (by omega : 32 ≤ temp.length) hfits
  refine ⟨_, _, hprinted, ?_⟩
  rw [List.take_left, signedBytes_eq_decimal]

end Logme
