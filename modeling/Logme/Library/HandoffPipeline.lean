import Logme.Library.StepSystem
import Mathlib.Data.List.Perm.Basic

/-!
# A hand-off pipeline with detached segments

A writer side extends a current segment.  Any number of owners may detach the
current segment and later, in a second step, put the segment they detached at
the end of a ready list; a single consumer takes the whole ready list.  The
two-step hand-off is what makes order a question: between its two steps a
segment is neither current nor ready.

Two facts are proved for all runs.  Nothing is lost or duplicated whatever
the order of the steps is, and the original order is kept as long as the
segments become ready in the order in which they were detached.
-/

namespace HandoffPipeline

open StepSystem

/-- The pipeline, with the history of everything accepted so far. -/
structure Pipeline (τ β : Type*) where
  accepted : List β
  delivered : List β
  ready : List β
  detached : List (τ × List β)
  current : List β

inductive Move (τ β : Type*) where
  | accept (xs : List β)
  | detach (owner : τ)
  | enqueue (owner : τ)
  | deliver

variable {τ β : Type*}

/-- Everything in the pipeline, from the oldest stage to the newest. -/
def Pipeline.content (s : Pipeline τ β) : List β :=
  s.delivered ++ s.ready ++ s.detached.flatMap Prod.snd ++ s.current

/-- Remove the first segment of an owner from the detached list. -/
def takeSegment [DecidableEq τ] (owner : τ) :
    List (τ × List β) → Option (List β × List (τ × List β))
  | [] => none
  | segment :: rest =>
      if segment.1 = owner then some (segment.2, rest)
      else
        match takeSegment owner rest with
        | none => none
        | some (xs, others) => some (xs, segment :: others)

def Pipeline.step [DecidableEq τ] (s : Pipeline τ β) :
    Move τ β → Option (Pipeline τ β)
  | .accept xs =>
      some { s with accepted := s.accepted ++ xs, current := s.current ++ xs }
  | .detach owner =>
      some { s with detached := s.detached ++ [(owner, s.current)], current := [] }
  | .enqueue owner =>
      match takeSegment owner s.detached with
      | none => none
      | some (xs, others) =>
          some { s with ready := s.ready ++ xs, detached := others }
  | .deliver =>
      some { s with delivered := s.delivered ++ s.ready, ready := [] }

/-- A segment becomes ready only when it is the oldest detached one. -/
def Pipeline.InOrder (s : Pipeline τ β) : Move τ β → Prop
  | .enqueue owner => (s.detached.map Prod.fst).head? = some owner
  | _ => True

theorem takeSegment_perm [DecidableEq τ] {owner : τ}
    {segments others : List (τ × List β)} {xs : List β}
    (htake : takeSegment owner segments = some (xs, others)) :
    segments.Perm ((owner, xs) :: others) := by
  induction segments generalizing others with
  | nil => simp [takeSegment] at htake
  | cons segment rest ih =>
      simp only [takeSegment] at htake
      by_cases howner : segment.1 = owner
      · rw [if_pos howner] at htake
        obtain ⟨rfl, rfl⟩ := by simpa using htake
        rw [← howner]
      · rw [if_neg howner] at htake
        cases hrest : takeSegment owner rest with
        | none => simp [hrest] at htake
        | some found =>
            rw [hrest] at htake
            obtain ⟨rfl, rfl⟩ := by simpa using htake
            exact ((ih hrest).cons segment).trans (.swap _ _ _)

/-- When the detached list is indexed by its owners, taking an owner's
segment erases that owner. -/
theorem takeSegment_map [DecidableEq τ] (held : τ → List β) (owner : τ)
    (owners : List τ) (hmem : owner ∈ owners) :
    takeSegment owner (owners.map fun t => (t, held t)) =
      some (held owner, (owners.erase owner).map fun t => (t, held t)) := by
  induction owners with
  | nil => simp at hmem
  | cons first rest ih =>
      by_cases hfirst : first = owner
      · subst first
        simp [takeSegment]
      · have hrest : owner ∈ rest := by
          simpa [Ne.symm hfirst] using hmem
        have herase : (first :: rest).erase owner = first :: rest.erase owner :=
          List.erase_cons_tail (by simpa using hfirst)
        simp [takeSegment, hfirst, ih hrest, herase]

/-! ## Nothing is lost or duplicated -/

theorem Pipeline.step_conserves [DecidableEq τ]
    {s t : Pipeline τ β} {move : Move τ β}
    (hs : s.content.Perm s.accepted) (hstep : s.step move = some t) :
    t.content.Perm t.accepted := by
  cases move with
  | accept xs =>
      obtain rfl := by simpa [Pipeline.step] using hstep
      have happend := hs.append_right xs
      simpa [Pipeline.content, List.append_assoc] using happend
  | detach owner =>
      obtain rfl := by simpa [Pipeline.step] using hstep
      simpa [Pipeline.content, List.append_assoc] using hs
  | enqueue owner =>
      simp only [Pipeline.step] at hstep
      cases htake : takeSegment owner s.detached with
      | none => simp [htake] at hstep
      | some found =>
          obtain ⟨xs, others⟩ := found
          obtain rfl := by simpa [htake] using hstep
          have hperm :
              (s.detached.flatMap Prod.snd).Perm
                (xs ++ others.flatMap Prod.snd) := by
            simpa using (takeSegment_perm htake).flatMap_right Prod.snd
          refine List.Perm.trans ?_ hs
          simp only [Pipeline.content, List.append_assoc]
          refine List.Perm.append_left _ (List.Perm.append_left _ ?_)
          simpa [List.append_assoc] using (hperm.symm.append_right s.current)
  | deliver =>
      obtain rfl := by simpa [Pipeline.step] using hstep
      simpa [Pipeline.content, List.append_assoc] using hs

/-- Whatever the order of the steps, the pipeline holds exactly what was
accepted, up to order. -/
theorem run_conserves [DecidableEq τ] {ok : Pipeline τ β → Move τ β → Prop}
    {s t : Pipeline τ β} (hrun : Run Pipeline.step ok s t)
    (hs : s.content.Perm s.accepted) : t.content.Perm t.accepted :=
  hrun.invariant (I := fun s => s.content.Perm s.accepted)
    (fun _ _ _ hinv _ hstep => Pipeline.step_conserves hinv hstep) hs

/-! ## Order is kept when segments become ready in order -/

theorem Pipeline.step_ordered [DecidableEq τ]
    {s t : Pipeline τ β} {move : Move τ β}
    (hs : s.content = s.accepted) (horder : s.InOrder move)
    (hstep : s.step move = some t) : t.content = t.accepted := by
  cases move with
  | accept xs =>
      obtain rfl := by simpa [Pipeline.step] using hstep
      simp [Pipeline.content, ← hs, List.append_assoc]
  | detach owner =>
      obtain rfl := by simpa [Pipeline.step] using hstep
      simp [Pipeline.content, ← hs, List.append_assoc]
  | enqueue owner =>
      obtain ⟨accepted, delivered, ready, detached, current⟩ := s
      cases detached with
      | nil => simp [Pipeline.InOrder] at horder
      | cons segment rest =>
          have howner : segment.1 = owner := by
            simpa [Pipeline.InOrder] using horder
          obtain rfl := by
            simpa [Pipeline.step, takeSegment, howner] using hstep
          simpa [Pipeline.content, List.append_assoc] using hs
  | deliver =>
      obtain rfl := by simpa [Pipeline.step] using hstep
      simp [Pipeline.content, ← hs, List.append_assoc]

/-- A run in which segments become ready in the order of their detachment
keeps the accepted order through every stage. -/
theorem run_ordered [DecidableEq τ] {s t : Pipeline τ β}
    (hrun : Run Pipeline.step Pipeline.InOrder s t)
    (hs : s.content = s.accepted) : t.content = t.accepted :=
  hrun.invariant (I := fun s => s.content = s.accepted)
    (fun _ _ _ hinv hok hstep => Pipeline.step_ordered hinv hok hstep) hs

end HandoffPipeline
