import Mathlib.Algebra.Group.Nat.Defs
import Mathlib.Algebra.Group.Int.Defs
import Mathlib.Data.List.Basic
import Mathlib.Data.List.Infix

/-!
# Writing everything

`write` and `writev` may take fewer bytes than they are given.  `WriteAll` and
`WriteAllVector` repeat them until everything is written: after a short
`writev` the vector that is written in part is finished by `WriteAll`, and the
next `writev` starts behind it.
-/

namespace Logme
namespace FileIo

/-! ## System calls -/

/-- One call of `write` or `writev` for a number of bytes: it is interrupted
some times before it has taken any, and then fails or takes bytes. -/
structure SystemCall where
  interruptions : Nat
  taken : (requested : Nat) → Option (Fin (requested + 1))

/-- The loop that repeats a call while it is interrupted. -/
def awaitCall (call : SystemCall) (requested : Nat) : Nat → Option (Fin (requested + 1))
  | 0 => call.taken requested
  | interruptions + 1 => awaitCall call requested interruptions

/-- The calls that have returned, and the bytes handed to the file. -/
structure Progress where
  calls : Nat
  handed : List UInt8

/-- The conversion of a size to `int`. -/
def toInt (n : Nat) : Int := (n : Int).bmod (2 ^ 32)

variable (os : Nat → SystemCall)

/-- A call for the front of `data`, and what `int rc` holds of its result. -/
def callFor (s : Progress) (data : List UInt8) (requested : Nat) : Int × Progress :=
  match awaitCall (os s.calls) requested (os s.calls).interruptions with
  | none => (-1, { s with calls := s.calls + 1 })
  | some n => (toInt n, ⟨s.calls + 1, s.handed ++ data.take n⟩)

/-- The size is passed as `unsigned int`. -/
def writeRaw (s : Progress) (data : List UInt8) : Int × Progress :=
  callFor os s data (data.length % 2 ^ 32)

def writeRawVector (s : Progress) (iov : List (List UInt8)) : Int × Progress :=
  callFor os s iov.flatten iov.flatten.length

/-! ## The loops -/

/-- A round writes a byte at least, or is the last one. -/
def writeAllLoop (data : List UInt8) : Nat → Nat → Progress → Option (Int × Progress)
  | 0, _, _ => none
  | rounds + 1, written, s =>
      if written < data.length then
        match writeRaw os s (data.drop written) with
        | (rc, s) =>
            if rc < 0 then some (-1, s)
            else if rc = 0 then some (-1, s)
            else writeAllLoop data rounds (written + rc.toNat) s
      else some (toInt written, s)

/-- `WriteAll`; `none` stands for a loop that does not end. -/
def writeAll (s : Progress) (data : List UInt8) : Option (Int × Progress) :=
  writeAllLoop os data (data.length + 1) 0 s

/-- The loops that step over empty vectors. -/
def skipEmpty (iov : List (List UInt8)) : List (List UInt8) :=
  iov.dropWhile List.isEmpty

theorem length_skipEmpty (iov : List (List UInt8)) : (skipEmpty iov).length ≤ iov.length :=
  (List.dropWhile_suffix _).length_le

/-- The loop after a short write: the vectors not yet written, and how much of
the first one is.  `none` stands for reading behind the last vector. -/
def skipWritten (remaining offset : Nat) :
    List (List UInt8) → Option (List (List UInt8) × Nat)
  | [] => if remaining = 0 then some ([], offset) else none
  | v :: rest =>
      if remaining = 0 then some (v :: rest, offset)
      else if remaining < v.length - offset then some (v :: rest, offset + remaining)
      else skipWritten (remaining - (v.length - offset)) 0 (skipEmpty rest)
termination_by iov => iov.length
decreasing_by
  have hshort := length_skipEmpty rest
  simp only [List.length_cons]
  omega

def writeAllVectorLoop :
    Nat → List (List UInt8) → Nat → Nat → Progress → Option (Int × Progress)
  | 0, _, _, _, _ => none
  | rounds + 1, iov, offset, written, s =>
      match skipEmpty iov with
      | [] => some (toInt written, s)
      | v :: rest =>
          if offset ≠ 0 then
            match writeAll os s (v.drop offset) with
            | none => none
            | some (rc, s) =>
                if rc < 0 then some (-1, s)
                else writeAllVectorLoop rounds rest 0 (written + rc.toNat) s
          else
            match writeRawVector os s (v :: rest) with
            | (rc, s) =>
                if rc < 0 then some (-1, s)
                else if rc = 0 then some (-1, s)
                else
                  match skipWritten rc.toNat 0 (v :: rest) with
                  | none => none
                  | some (iov, offset) =>
                      writeAllVectorLoop rounds iov offset (written + rc.toNat) s

/-- `WriteAllVector`. -/
def writeAllVector (s : Progress) (iov : List (List UInt8)) : Option (Int × Progress) :=
  writeAllVectorLoop os (iov.flatten.length + 1) iov 0 0 s

/-! ## One call -/

theorem toInt_of_lt {n : Nat} (h : n < 2 ^ 31) : toInt n = n := by
  unfold toInt
  rw [Int.bmod_eq_of_le] <;> omega

theorem awaitCall_eq (call : SystemCall) (requested interruptions : Nat) :
    awaitCall call requested interruptions = call.taken requested := by
  induction interruptions with
  | zero => rfl
  | succ interruptions ih => exact ih

variable {os}

/-- A call fails and takes nothing, or takes a front of the data. -/
theorem callFor_cases (s : Progress) {data : List UInt8} (h : data.length < 2 ^ 31) :
    ((callFor os s data data.length).1 < 0 ∧
        (callFor os s data data.length).2.handed = s.handed) ∨
      ∃ n ≤ data.length, (callFor os s data data.length).1 = n ∧
        (callFor os s data data.length).2.handed = s.handed ++ data.take n := by
  unfold callFor
  rw [awaitCall_eq]
  cases (os s.calls).taken data.length with
  | none => exact .inl ⟨by simp, rfl⟩
  | some n =>
      have hn : n.val ≤ data.length := Nat.le_of_lt_succ n.isLt
      have hrc : toInt n.val = n.val := toInt_of_lt (by omega)
      dsimp only
      rw [hrc]
      exact .inr ⟨n, hn, rfl, rfl⟩

/-! ## What a loop has written -/

/-- What a function that writes `data` leaves: a front of it has been handed to
the file, all of it when the function reports so. -/
structure Writes (s : Progress) (data : List UInt8) (rc : Int) (s' : Progress) :
    Prop where
  front : ∃ front, front <+: data ∧ s'.handed = s.handed ++ front
  whole : 0 ≤ rc → s'.handed = s.handed ++ data ∧ rc = data.length

/-- Everything that was left has been written. -/
theorem Writes.rest {s₀ s s' : Progress} {done rest : List UInt8} {rc : Int}
    (hdone : s.handed = s₀.handed ++ done)
    (hfront : ∃ front, front <+: rest ∧ s'.handed = s.handed ++ front)
    (hwhole : 0 ≤ rc → s'.handed = s.handed ++ rest ∧ rc = (done ++ rest).length) :
    Writes s₀ (done ++ rest) rc s' := by
  constructor
  · obtain ⟨front, hfront, hhanded⟩ := hfront
    refine ⟨done ++ front, (List.prefix_append_right_inj done).mpr hfront, ?_⟩
    rw [hhanded, hdone, List.append_assoc]
  · intro hrc
    obtain ⟨hhanded, hcount⟩ := hwhole hrc
    exact ⟨by rw [hhanded, hdone, List.append_assoc], hcount⟩

theorem Writes.failed {s₀ s : Progress} {done rest : List UInt8}
    (hdone : s.handed = s₀.handed ++ done) : Writes s₀ (done ++ rest) (-1) s :=
  .rest hdone ⟨[], List.nil_prefix, by simp⟩ (by simp)

theorem writeAllLoop_writes {data : List UInt8} (h : data.length < 2 ^ 31) {s₀ : Progress} :
    ∀ (rounds written : Nat) (s : Progress), written ≤ data.length →
      data.length - written < rounds → s.handed = s₀.handed ++ data.take written →
      ∃ rc s', writeAllLoop os data rounds written s = some (rc, s') ∧ Writes s₀ data rc s' := by
  intro rounds
  induction rounds with
  | zero => intro written s _ hrounds; omega
  | succ rounds ih =>
      intro written s hwritten hrounds hhanded
      have hsplit := List.take_append_drop written data
      have hfailed : Writes s₀ data (-1) s := by
        have hfailed : Writes s₀ (data.take written ++ data.drop written) (-1) s :=
          .failed hhanded
        rwa [hsplit] at hfailed
      unfold writeAllLoop
      split
      next hmore =>
        have hlength : (data.drop written).length = data.length - written :=
          List.length_drop
        have hsize : (data.drop written).length % 2 ^ 32 = (data.drop written).length :=
          Nat.mod_eq_of_lt (by omega)
        have hcall := @callFor_cases os s (data.drop written) (by omega)
        unfold writeRaw
        rw [hsize]
        generalize callFor os s (data.drop written) (data.drop written).length = result at hcall
        obtain ⟨rc, s'⟩ := result
        dsimp only at hcall ⊢
        rcases hcall with ⟨hrc, hsame⟩ | ⟨n, hn, rfl, htaken⟩
        · rw [if_pos hrc]
          refine ⟨-1, s', rfl, ?_⟩
          have hfailed : Writes s₀ (data.take written ++ data.drop written) (-1) s' :=
            .failed (hsame.trans hhanded)
          rwa [hsplit] at hfailed
        · have htake : data.take written ++ (data.drop written).take n =
              data.take (written + n) := (List.take_add ..).symm
          have hhanded' : s'.handed = s₀.handed ++ data.take (written + n) := by
            rw [htaken, hhanded, List.append_assoc, htake]
          rw [if_neg (by omega)]
          split
          next hzero =>
            refine ⟨-1, s', rfl, ?_⟩
            have hfailed : Writes s₀
                (data.take (written + n) ++ data.drop (written + n)) (-1) s' :=
              .failed hhanded'
            rwa [List.take_append_drop] at hfailed
          next hpos =>
            rw [Int.toNat_natCast]
            exact ih (written + n) s' (by omega) (by omega) hhanded'
      next hdone =>
        have hall : written = data.length := by omega
        subst hall
        refine ⟨_, s, rfl, ⟨data, List.prefix_rfl, ?_⟩, ?_⟩
        · rw [hhanded, List.take_length]
        · intro _
          exact ⟨by rw [hhanded, List.take_length], toInt_of_lt h⟩

/-- `WriteAll` returns; what it has written is a front of the data, and all of
it when it reports success. -/
theorem writeAll_writes (s : Progress) {data : List UInt8} (h : data.length < 2 ^ 31) :
    ∃ rc s', writeAll os s data = some (rc, s') ∧ Writes s data rc s' :=
  writeAllLoop_writes h (data.length + 1) 0 s (by omega) (by omega) (by simp)

/-! ## Vectors -/

/-- What is still to be written of the vectors. -/
def pending (offset : Nat) : List (List UInt8) → List UInt8
  | [] => []
  | v :: rest => v.drop offset ++ rest.flatten

/-- A vector that is written in part has a byte left. -/
def InFirst (offset : Nat) (iov : List (List UInt8)) : Prop :=
  offset = 0 ∨ ∃ v rest, iov = v :: rest ∧ offset < v.length

theorem pending_cons (offset : Nat) (v : List UInt8) (rest : List (List UInt8)) :
    pending offset (v :: rest) = v.drop offset ++ rest.flatten := rfl

theorem pending_zero (iov : List (List UInt8)) : pending 0 iov = iov.flatten := by
  cases iov <;> rfl

theorem flatten_skipEmpty (iov : List (List UInt8)) : (skipEmpty iov).flatten = iov.flatten := by
  induction iov with
  | nil => rfl
  | cons v rest ih =>
      cases v with
      | nil => exact ih
      | cons b v => rfl

theorem skipEmpty_of_inFirst {offset : Nat} {iov : List (List UInt8)} (h : InFirst offset iov)
    (hoffset : offset ≠ 0) : skipEmpty iov = iov := by
  rcases h with rfl | ⟨v, rest, rfl, hlt⟩
  · exact absurd rfl hoffset
  · cases v with
    | nil => exact absurd hlt (Nat.not_lt_zero _)
    | cons b v => rfl

/-- Stepping over empty vectors leaves what is pending. -/
theorem pending_skipEmpty {offset : Nat} {iov : List (List UInt8)} (h : InFirst offset iov) :
    pending offset (skipEmpty iov) = pending offset iov := by
  by_cases hoffset : offset = 0
  · subst hoffset
    rw [pending_zero, pending_zero, flatten_skipEmpty]
  · rw [skipEmpty_of_inFirst h hoffset]

/-- The first vector behind the empty ones has a byte. -/
theorem length_pos_of_skipEmpty {iov : List (List UInt8)} {v : List UInt8}
    {rest : List (List UInt8)} (h : skipEmpty iov = v :: rest) : 0 < v.length := by
  have hhead := List.head?_dropWhile_not List.isEmpty iov
  unfold skipEmpty at h
  rw [h] at hhead
  exact List.length_pos_iff.mpr (by simpa using hhead)

/-- After a short write exactly the bytes that were taken are left out. -/
theorem skipWritten_spec (remaining offset : Nat) (iov : List (List UInt8))
    (hfirst : InFirst offset iov) (h : remaining ≤ (pending offset iov).length) :
    ∃ iov' offset', skipWritten remaining offset iov = some (iov', offset') ∧
      InFirst offset' iov' ∧ pending offset' iov' = (pending offset iov).drop remaining := by
  fun_induction skipWritten remaining offset iov with
  | case1 offset => exact ⟨[], offset, rfl, hfirst, rfl⟩
  | case2 remaining offset hremaining => exact absurd (Nat.le_zero.mp h) hremaining
  | case3 offset v rest => exact ⟨v :: rest, offset, rfl, hfirst, rfl⟩
  | case4 remaining offset v rest hremaining hshort =>
      refine ⟨v :: rest, offset + remaining, rfl, .inr ⟨v, rest, rfl, by omega⟩, ?_⟩
      have hfits : remaining ≤ (v.drop offset).length := by rw [List.length_drop]; omega
      rw [pending_cons, pending_cons, List.drop_append_of_le_length hfits, List.drop_drop]
  | case5 remaining offset v rest hremaining hlong ih =>
      have hlength : (v.drop offset).length = v.length - offset := List.length_drop
      have hpending : pending 0 (skipEmpty rest) = rest.flatten := by
        rw [pending_zero, flatten_skipEmpty]
      rw [pending_cons, List.length_append] at h
      obtain ⟨iov', offset', hskip, hfirst', hrest⟩ :=
        ih (.inl rfl) (by rw [hpending]; omega)
      refine ⟨iov', offset', hskip, hfirst', ?_⟩
      have hgone : (v.drop offset).drop remaining = [] := List.drop_of_length_le (by omega)
      rw [hrest, hpending, pending_cons, List.drop_append, hlength, hgone, List.nil_append]

/-- Each round hands over the front of what is pending, a byte of it at least. -/
theorem writeAllVectorLoop_writes {data : List UInt8} (h : data.length < 2 ^ 31)
    {s₀ : Progress} :
    ∀ (rounds : Nat) (iov : List (List UInt8)) (offset : Nat) (s : Progress)
      (done : List UInt8), done ++ pending offset iov = data → InFirst offset iov →
      (pending offset iov).length < rounds → s.handed = s₀.handed ++ done →
      ∃ rc s', writeAllVectorLoop os rounds iov offset done.length s = some (rc, s') ∧
        Writes s₀ data rc s' := by
  intro rounds
  induction rounds with
  | zero => intro iov offset s done _ _ hrounds; omega
  | succ rounds ih =>
      intro iov offset s done hdata hfirst hrounds hhanded
      have hlength : done.length + (pending offset iov).length = data.length := by
        rw [← hdata, List.length_append]
      have hskip := pending_skipEmpty hfirst
      unfold writeAllVectorLoop
      generalize hnext : skipEmpty iov = next at hskip
      cases next with
      | nil =>
          have hnil : pending offset iov = [] := hskip.symm
          rw [hnil, List.append_nil] at hdata
          subst hdata
          refine ⟨_, s, rfl, ⟨done, List.prefix_rfl, hhanded⟩, fun _ => ⟨hhanded, ?_⟩⟩
          exact toInt_of_lt h
      | cons v rest =>
          dsimp only
          have hbyte := length_pos_of_skipEmpty hnext
          rw [← hskip] at hdata hrounds hlength
          split
          next hoffset =>
            have hsame := skipEmpty_of_inFirst hfirst hoffset
            rw [hnext] at hsame
            subst hsame
            rw [pending_cons, List.length_append] at hrounds hlength
            rw [pending_cons] at hdata
            obtain ⟨rc, s', hcall, hwrites⟩ :=
              @writeAll_writes os s (v.drop offset) (by omega)
            rw [hcall]
            dsimp only
            split
            next hrc =>
              obtain ⟨front, hfront, hhanded'⟩ := hwrites.front
              refine ⟨-1, s', rfl, ?_⟩
              rw [← hdata]
              refine .rest hhanded ⟨front, ?_, hhanded'⟩ (fun h => absurd h (by decide))
              exact hfront.trans (List.prefix_append _ _)
            next hrc =>
              obtain ⟨hhanded', hrc'⟩ := hwrites.whole (by omega)
              have hpositive : 0 < (v.drop offset).length := by
                rcases hfirst with rfl | ⟨v', rest', heq, hlt⟩
                · exact absurd rfl hoffset
                · cases heq
                  rw [List.length_drop]
                  omega
              rw [hrc', Int.toNat_natCast, ← List.length_append]
              rw [← List.append_assoc] at hdata
              rw [hhanded, List.append_assoc] at hhanded'
              refine ih rest 0 s' _ ?_ (.inl rfl) ?_ hhanded'
              · rw [pending_zero, hdata]
              · rw [pending_zero]
                omega
          next hoffset =>
            have hzero : offset = 0 := by omega
            subst hzero
            rw [pending_zero] at hdata hrounds hlength
            have hcall := @callFor_cases os s (v :: rest).flatten (by omega)
            unfold writeRawVector
            generalize callFor os s (v :: rest).flatten (v :: rest).flatten.length = result
              at hcall
            obtain ⟨rc, s'⟩ := result
            dsimp only at hcall ⊢
            rcases hcall with ⟨hrc, hsame⟩ | ⟨n, hn, rfl, htaken⟩
            · rw [if_pos hrc]
              refine ⟨-1, s', rfl, ?_⟩
              rw [← hdata]
              exact .failed (hsame.trans hhanded)
            · rw [if_neg (by omega)]
              split
              next hnone =>
                have hn0 : n = 0 := by omega
                subst hn0
                rw [List.take_zero, List.append_nil] at htaken
                refine ⟨-1, s', rfl, ?_⟩
                rw [← hdata]
                exact .failed (htaken.trans hhanded)
              next hsome =>
                rw [Int.toNat_natCast]
                obtain ⟨iov', offset', hskip', hfirst', hrest⟩ :=
                  skipWritten_spec n 0 (v :: rest) (.inl rfl) (by rw [pending_zero]; exact hn)
                rw [pending_zero] at hrest
                rw [hskip']
                dsimp only
                have htake : ((v :: rest).flatten.take n).length = n := by
                  rw [List.length_take, Nat.min_eq_left hn]
                have hcount : done.length + n = (done ++ (v :: rest).flatten.take n).length := by
                  rw [List.length_append, htake]
                rw [hcount]
                rw [hhanded, List.append_assoc] at htaken
                refine ih iov' offset' s' _ ?_ hfirst' ?_ htaken
                · rw [hrest, List.append_assoc, List.take_append_drop, hdata]
                · rw [hrest, List.length_drop]
                  omega

/-- `WriteAllVector` ends; the bytes handed to the file are a front of the
buffers in order, and all of them when it reports success, which it does with
their number. -/
theorem writeAllVector_in_order (s : Progress) (iov : List (List UInt8))
    (h : iov.flatten.length < 2 ^ 31) :
    ∃ rc s', writeAllVector os s iov = some (rc, s') ∧
      (0 ≤ rc → s'.handed = s.handed ++ iov.flatten ∧ rc = iov.flatten.length) ∧
      (rc < 0 → ∃ front, front <+: iov.flatten ∧ s'.handed = s.handed ++ front) := by
  obtain ⟨rc, s', hend, hwrites⟩ :=
    @writeAllVectorLoop_writes os _ h _ (iov.flatten.length + 1) iov 0 s []
      (by rw [pending_zero, List.nil_append]) (.inl rfl) (by rw [pending_zero]; omega)
      (List.append_nil _).symm
  exact ⟨rc, s', hend, hwrites.whole, fun _ => hwrites.front⟩

/-- A call that is interrupted once and takes one byte. -/
def takesOneByte : SystemCall := ⟨1, fun requested => some ⟨min 1 requested, by omega⟩⟩

theorem writeAllVector_byte_by_byte :
    ∃ rc s', writeAllVector (fun _ => takesOneByte) ⟨0, []⟩ [[], [104, 105], [], [10]] =
        some (rc, s') ∧
      (0 ≤ rc → s'.handed = [104, 105, 10] ∧ rc = 3) ∧
      (rc < 0 → ∃ front, front <+: [104, 105, 10] ∧ s'.handed = [] ++ front) :=
  writeAllVector_in_order ⟨0, []⟩ [[], [104, 105], [], [10]] (by decide)

end FileIo
end Logme
