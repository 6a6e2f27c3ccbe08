import Mathlib.Data.List.Forall2

/-!
# Streams of self-delimiting frames

A reader `next` takes one frame off the front of a stream and returns its
payload and what follows.  A frame is *self-delimiting* when the reader takes
exactly this frame off, whatever follows it.  This file relates the loop that
reads a stream to its end with the decomposition of the stream into frames.
-/

namespace FramedStream

variable {α β : Type*}

/-- `frame` is read as `x`, and exactly `frame` is consumed. -/
def Encodes (next : List α → Option (β × List α)) (frame : List α) (x : β) :
    Prop :=
  frame ≠ [] ∧ ∀ rest, next (frame ++ rest) = some (x, rest)

/-- Whatever the reader takes off a stream is a self-delimiting frame. -/
def SelfDelimiting (next : List α → Option (β × List α)) : Prop :=
  ∀ stream x rest, next stream = some (x, rest) →
    ∃ frame, stream = frame ++ rest ∧ Encodes next frame x

/-- Reading frames off `stream` yields `xs` and leaves `tail`. -/
inductive Reads (next : List α → Option (β × List α)) :
    List α → List β → List α → Prop
  | stop (tail : List α) : Reads next tail [] tail
  | frame {stream rest tail : List α} {x : β} {xs : List β}
      (head : next stream = some (x, rest)) (others : Reads next rest xs tail) :
      Reads next stream (x :: xs) tail

/-- Read a stream to its end; the bound on the number of frames is what the
recursion is on. -/
def readAll (next : List α → Option (β × List α)) :
    Nat → List α → Option (List β)
  | _, [] => some []
  | 0, _ :: _ => none
  | bound + 1, a :: stream =>
      match next (a :: stream) with
      | none => none
      | some (x, rest) => (readAll next bound rest).map (x :: ·)

section Frames

variable {next : List α → Option (β × List α)}

theorem Encodes.ne_nil {frame : List α} {x : β}
    (h : Encodes next frame x) : frame ≠ [] := h.1

theorem Encodes.next_append {frame : List α} {x : β}
    (h : Encodes next frame x) (rest : List α) :
    next (frame ++ rest) = some (x, rest) := h.2 rest

/-- A concatenation of frames is read frame by frame. -/
theorem Reads.of_frames {frames : List (List α)} {xs : List β}
    (h : List.Forall₂ (Encodes next) frames xs) (tail : List α) :
    Reads next (frames.flatten ++ tail) xs tail := by
  induction h with
  | nil => exact .stop tail
  | @cons frame x frames xs hframe _ ih =>
      refine .frame ?_ ih
      rw [List.flatten_cons, List.append_assoc]
      exact hframe.next_append _

theorem Reads.frames (hnext : SelfDelimiting next)
    {stream tail : List α} {xs : List β} (h : Reads next stream xs tail) :
    ∃ frames, List.Forall₂ (Encodes next) frames xs ∧
      stream = frames.flatten ++ tail := by
  induction h with
  | stop tail => exact ⟨[], .nil, rfl⟩
  | @frame stream rest tail x xs hhead _ ih =>
      rcases ih with ⟨frames, hframes, hrest⟩
      rcases hnext _ _ _ hhead with ⟨frame, hstream, hframe⟩
      refine ⟨frame :: frames, .cons hframe hframes, ?_⟩
      rw [hstream, hrest, List.flatten_cons, List.append_assoc]

theorem Reads.append {stream middle tail : List α} {xs ys : List β}
    (h : Reads next stream xs middle) (h' : Reads next middle ys tail) :
    Reads next stream (xs ++ ys) tail := by
  induction h with
  | stop => exact h'
  | frame hhead _ ih => exact .frame hhead (ih h')

/-- A stream that is read to its end is read on from wherever reading it has
stopped before. -/
theorem Reads.remaining {stream middle tail : List α} {xs ys : List β}
    (h : Reads next stream xs middle) (h' : Reads next stream ys tail)
    (htail : next tail = none) :
    ∃ zs, ys = xs ++ zs ∧ Reads next middle zs tail := by
  induction h generalizing ys with
  | stop => exact ⟨ys, rfl, h'⟩
  | frame hhead _ ih =>
      cases h' with
      | stop => simp [htail] at hhead
      | frame hhead' hothers' =>
          rw [hhead'] at hhead
          simp only [Option.some.injEq, Prod.mk.injEq] at hhead
          rcases hhead with ⟨rfl, rfl⟩
          rcases ih hothers' with ⟨zs, rfl, hzs⟩
          exact ⟨zs, rfl, hzs⟩

/-- Where reading stops decides what was read. -/
theorem Reads.unique {stream tail tail' : List α} {xs ys : List β}
    (h : Reads next stream xs tail) (h' : Reads next stream ys tail')
    (htail : next tail = none) (htail' : next tail' = none) :
    xs = ys ∧ tail = tail' := by
  rcases h.remaining h' htail' with ⟨zs, rfl, hzs⟩
  cases hzs with
  | stop => exact ⟨(List.append_nil xs).symm, rfl⟩
  | frame hhead _ => simp [htail] at hhead

theorem frames_length_le {frames : List (List α)} {xs : List β}
    (h : List.Forall₂ (Encodes next) frames xs) :
    frames.length ≤ frames.flatten.length := by
  induction h with
  | nil => simp
  | cons hframe _ ih =>
      have hpos := List.length_pos_iff.mpr hframe.ne_nil
      simp only [List.length_cons, List.flatten_cons, List.length_append]
      omega

/-- The stream of a list of frames is read back as the list of payloads. -/
theorem readAll_frames {frames : List (List α)} {xs : List β}
    (h : List.Forall₂ (Encodes next) frames xs) {bound : Nat}
    (hbound : frames.length ≤ bound) :
    readAll next bound frames.flatten = some xs := by
  induction h generalizing bound with
  | nil => cases bound <;> rfl
  | @cons frame x frames xs hframe _ ih =>
      cases bound with
      | zero => simp at hbound
      | succ bound =>
          have hrest : readAll next bound frames.flatten = some xs :=
            ih (by simpa using hbound)
          have hhead := hframe.next_append frames.flatten
          cases hcons : frame with
          | nil => exact absurd hcons hframe.ne_nil
          | cons a frame' =>
              rw [hcons, List.cons_append] at hhead
              rw [List.flatten_cons, List.cons_append]
              simp only [readAll]
              rw [hhead]
              simp [hrest]

end Frames

end FramedStream
