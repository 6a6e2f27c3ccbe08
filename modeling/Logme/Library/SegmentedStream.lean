import Mathlib.Data.List.Basic

/-!
# A stream kept in segments

A stream is written to an active segment, which is closed from time to time
under a label.  The closed segments in order, followed by the active one, are
the stream; the segments of one label, followed by the active one while it
carries this label, are what was written under the label.
-/

structure SegmentedStream (τ β : Type*) where
  segments : List (τ × List β)
  active : List β

namespace SegmentedStream

variable {τ β : Type*}

def whole (s : SegmentedStream τ β) : List β :=
  s.segments.flatMap Prod.snd ++ s.active

def write (s : SegmentedStream τ β) (bytes : List β) :
    SegmentedStream τ β :=
  { s with active := s.active ++ bytes }

/-- Close the active segment under a label. -/
def cut (s : SegmentedStream τ β) (t : τ) : SegmentedStream τ β where
  segments := s.segments ++ [(t, s.active)]
  active := []

/-- What is in the closed segments of a label. -/
def under [DecidableEq τ] (s : SegmentedStream τ β) (t : τ) : List β :=
  (s.segments.filter fun segment => segment.1 = t).flatMap Prod.snd

/-- Bytes were written, and the active segment was closed under labels of `T`
before, between and after them. -/
inductive Writes (T : τ → Prop) :
    SegmentedStream τ β → SegmentedStream τ β → List β → Prop
  | refl (s : SegmentedStream τ β) : Writes T s s []
  | write {s s' : SegmentedStream τ β} {bytes : List β}
      (before : Writes T s s' bytes) (more : List β) :
      Writes T s (s'.write more) (bytes ++ more)
  | cut {s s' : SegmentedStream τ β} {bytes : List β}
      (before : Writes T s s' bytes) {t : τ} (label : T t) :
      Writes T s (s'.cut t) bytes

theorem Writes.mono {T T' : τ → Prop} {s s' : SegmentedStream τ β}
    {bytes : List β} (hwrites : Writes T s s' bytes)
    (himp : ∀ t, T t → T' t) : Writes T' s s' bytes := by
  induction hwrites with
  | refl => exact .refl _
  | write _ more ih => exact ih.write more
  | cut _ hlabel ih => exact ih.cut (himp _ hlabel)

theorem Writes.trans {T : τ → Prop} {s s' s'' : SegmentedStream τ β}
    {bytes bytes' : List β} (hfirst : Writes T s s' bytes)
    (hsecond : Writes T s' s'' bytes') :
    Writes T s s'' (bytes ++ bytes') := by
  induction hsecond with
  | refl => rwa [List.append_nil]
  | write _ more ih =>
      rw [← List.append_assoc]
      exact ih.write more
  | cut _ hlabel ih => exact ih.cut hlabel

/-- Closing a segment changes nothing in the stream. -/
theorem whole_cut (s : SegmentedStream τ β) (t : τ) :
    (s.cut t).whole = s.whole := by
  simp [whole, cut]

theorem whole_write (s : SegmentedStream τ β) (bytes : List β) :
    (s.write bytes).whole = s.whole ++ bytes := by
  simp [whole, write]

theorem Writes.whole {T : τ → Prop} {s s' : SegmentedStream τ β}
    {bytes : List β} (hwrites : Writes T s s' bytes) :
    s'.whole = s.whole ++ bytes := by
  induction hwrites with
  | refl => rw [List.append_nil]
  | write _ more ih => rw [whole_write, ih, List.append_assoc]
  | cut _ _ ih => rw [whole_cut, ih]

section Labels

variable [DecidableEq τ]

theorem under_cut_self (s : SegmentedStream τ β) (t : τ) :
    (s.cut t).under t = s.under t ++ s.active := by
  simp [under, cut]

theorem under_cut_of_ne (s : SegmentedStream τ β) {t t' : τ}
    (hne : t' ≠ t) : (s.cut t).under t' = s.under t' := by
  simp [under, cut, Ne.symm hne]

theorem Writes.under_self {T : τ → Prop} {t : τ}
    {s s' : SegmentedStream τ β} {bytes : List β}
    (hwrites : Writes T s s' bytes) (honly : ∀ t', T t' → t' = t) :
    s'.under t ++ s'.active = s.under t ++ s.active ++ bytes := by
  induction hwrites with
  | refl => rw [List.append_nil]
  | write _ more ih =>
      simp only [SegmentedStream.write, under] at ih ⊢
      rw [← List.append_assoc, ih, List.append_assoc]
  | cut _ hlabel ih =>
      rw [honly _ hlabel, under_cut_self, SegmentedStream.cut,
        List.append_nil]
      exact ih

theorem Writes.under_of_ne {T : τ → Prop} {t : τ}
    {s s' : SegmentedStream τ β} {bytes : List β}
    (hwrites : Writes T s s' bytes) (hnot : ¬ T t) :
    s'.under t = s.under t := by
  induction hwrites with
  | refl => rfl
  | write _ _ ih => exact ih
  | @cut _ _ _ t' hlabel ih =>
      have hne : t ≠ t' := fun h => hnot (h ▸ hlabel)
      rw [under_cut_of_ne _ hne, ih]

end Labels

end SegmentedStream
