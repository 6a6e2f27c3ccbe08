import Logme.FileBackend
import Mathlib.Data.List.Basic

/-!
# From the queue to the file

Every function of the backend only moves bytes from the end of the queue to
the file.  What a batch does to the file is given as a relation that composes;
each function then does the same with some first part of the queue.
-/

namespace Logme

namespace FileBackend

variable {φ : Type}

/-- A synchronous backend does not queue. -/
def QueueUnused (b : FileBackend φ) : Prop :=
  b.async = false → b.queue.bytes = []

/-- Whether `AppendOutputData` takes `n` bytes. -/
def takes (b : FileBackend φ) (n : Nat) (a : Allocation) : Bool :=
  !b.shutdownFlag && (!b.async || b.queue.accepts n a)

/-- Bytes were written by calls of `WriteAll`, whatever these returned. -/
inductive WritesAll (dev : FileDevice φ) (io : φ) : φ → List UInt8 → Prop
  | done : WritesAll dev io io []
  | write {io' : φ} {bytes : List UInt8} (before : WritesAll dev io io' bytes)
      (more : List UInt8) :
      WritesAll dev io (dev.writeAll io' more).2 (bytes ++ more)

/-- `E` describes what the device does with a batch or a record. -/
structure MovesBytes (dev : FileDevice φ) (E : φ → φ → List UInt8 → Prop) :
    Prop where
  refl : ∀ io, E io io []
  trans : ∀ io io' io'' bytes bytes', E io io' bytes → E io' io'' bytes' →
    E io io'' (bytes ++ bytes')
  refused : ∀ io bytes, (dev.applySizeLimit io bytes.length).1 = false →
    E io (dev.applySizeLimit io bytes.length).2 bytes
  written : ∀ io io' bytes, (dev.applySizeLimit io bytes.length).1 = true →
    WritesAll dev (dev.applySizeLimit io bytes.length).2 io' bytes →
    E io io' bytes

/-- The backend has taken in `bytes`; a first part of the queue has gone to
the file. -/
structure Moves (E : φ → φ → List UInt8 → Prop) (b b' : FileBackend φ)
    (bytes : List UInt8) : Prop where
  output : ∃ out, E b.io b'.io out ∧
    out ++ b'.queue.bytes = b.queue.bytes ++ bytes
  unused : b.QueueUnused → b'.QueueUnused

section Transfer

variable {dev : FileDevice φ} {E : φ → φ → List UInt8 → Prop}

theorem Moves.trans (hmoves : MovesBytes dev E) {b b' b'' : FileBackend φ}
    {bytes bytes' : List UInt8} (hfirst : Moves E b b' bytes)
    (hsecond : Moves E b' b'' bytes') : Moves E b b'' (bytes ++ bytes') where
  output := by
    rcases hfirst.output with ⟨out, hout, hbytes⟩
    rcases hsecond.output with ⟨out', hout', hbytes'⟩
    refine ⟨out ++ out', hmoves.trans _ _ _ _ _ hout hout', ?_⟩
    rw [List.append_assoc, hbytes', ← List.append_assoc, hbytes,
      List.append_assoc]
  unused := fun h => hsecond.unused (hfirst.unused h)

theorem Moves.transNil (hmoves : MovesBytes dev E) (b b' b'' : FileBackend φ)
    (hfirst : Moves E b b' []) (hsecond : Moves E b' b'' []) :
    Moves E b b'' [] :=
  hfirst.trans hmoves hsecond

/-- The file and the bytes in the queue stay as they are. -/
theorem Moves.of_same (hmoves : MovesBytes dev E) {b b' : FileBackend φ}
    (hio : b'.io = b.io) (hbytes : b'.queue.bytes = b.queue.bytes)
    (hasync : b'.async = b.async) : Moves E b b' [] where
  output := by
    refine ⟨[], ?_, by simp [hbytes]⟩
    rw [hio]
    exact hmoves.refl b.io
  unused := fun h hsync => by
    rw [hbytes]
    exact h (by rwa [hasync] at hsync)

theorem Moves.refl (hmoves : MovesBytes dev E) (b : FileBackend φ) :
    Moves E b b [] :=
  .of_same hmoves rfl rfl rfl

/-! ## The worker's side -/

theorem WritesAll.trans {io io' io'' : φ} {bytes bytes' : List UInt8}
    (hfirst : WritesAll dev io io' bytes)
    (hsecond : WritesAll dev io' io'' bytes') :
    WritesAll dev io io'' (bytes ++ bytes') := by
  induction hsecond with
  | done => rwa [List.append_nil]
  | write _ more ih =>
      rw [← List.append_assoc]
      exact ih.write more

theorem writeVector_writes (dev : FileDevice φ)
    (iov : List (DataBuffer UInt8)) (ok : Bool) (io : φ) :
    WritesAll dev io (writeVector dev iov ok io).2
      (iov.flatMap DataBuffer.data) := by
  unfold writeVector
  split
  next hempty =>
    rw [hempty]
    exact .done
  next =>
    have hwrite := (.done : WritesAll dev io io []).write
      (iov.flatMap DataBuffer.data)
    split
    next hresult =>
      rw [hresult] at hwrite
      exact hwrite
    next hresult =>
      rw [hresult] at hwrite
      exact hwrite

theorem writeBuffers_writes (dev : FileDevice φ)
    (buffers iov : List (DataBuffer UInt8)) (ok : Bool) (io : φ) :
    WritesAll dev io (writeBuffers dev buffers iov ok io).2
      ((iov ++ buffers).flatMap DataBuffer.data) := by
  induction buffers generalizing iov ok io with
  | nil =>
      rw [List.append_nil]
      exact writeVector_writes dev iov ok io
  | cons buffer rest ih =>
      have hsplit : iov ++ buffer :: rest = (iov ++ [buffer]) ++ rest := by
        simp
      unfold writeBuffers
      rw [hsplit]
      split
      next =>
        have hvector := writeVector_writes dev (iov ++ [buffer]) ok io
        rw [List.flatMap_append]
        exact hvector.trans (by simpa using ih [] _ _)
      next => exact ih (iov ++ [buffer]) ok io

theorem writeBatch_moves (hmoves : MovesBytes dev E) (io : φ)
    (data : List (DataBuffer UInt8)) :
    E io (writeBatch dev io data (data.flatMap DataBuffer.data).length).2
      (data.flatMap DataBuffer.data) := by
  have hrefused := hmoves.refused io (data.flatMap DataBuffer.data)
  have hwritten := fun io' => hmoves.written io io'
    (data.flatMap DataBuffer.data)
  unfold writeBatch
  split
  next hresult =>
    rw [hresult] at hrefused
    exact hrefused rfl
  next hresult =>
    rw [hresult] at hwritten
    exact hwritten _ rfl (by simpa using writeBuffers_writes dev data [] true _)

theorem writeReadyData_moves (hmoves : MovesBytes dev E)
    (b : FileBackend φ) : Moves E b (writeReadyData dev b).2 [] := by
  unfold writeReadyData BufferQueue.takeReady
  split
  next queue htake =>
    simp only [Prod.mk.injEq] at htake
    rcases htake with ⟨hready, rfl⟩
    exact .of_same hmoves rfl (by simp [BufferQueue.bytes, hready]) rfl
  next data queue _ htake =>
    simp only [Prod.mk.injEq] at htake
    rcases htake with ⟨rfl, rfl⟩
    constructor
    · refine ⟨b.queue.readyList.flatMap DataBuffer.data,
        writeBatch_moves hmoves b.io b.queue.readyList, ?_⟩
      dsimp only
      split_ifs <;> simp [BufferQueue.bytes]
    · intro hunused hsync
      have hbytes := hunused hsync
      simp only [BufferQueue.bytes, List.append_eq_nil_iff] at hbytes
      dsimp only
      split_ifs <;> simp [BufferQueue.bytes, hbytes.2]

theorem publishCurrentCounted_moves (hmoves : MovesBytes dev E)
    (b : FileBackend φ) (a : Allocation) :
    Moves E b (b.publishCurrentCounted a).2 [] :=
  .of_same hmoves rfl (b.queue.publishCurrent_spec a).bytes rfl

theorem workerFunc_moves (hmoves : MovesBytes dev E) (b : FileBackend φ)
    (now later : Nat) (a : Allocation) :
    Moves E b (workerFunc dev b now later a).2 [] := by
  unfold workerFunc
  dsimp only
  rcases updateFlushTimeAfterWork_frame
      (workerLoop dev a maxWriteLoops
        (b.shutdownFlag || decide (b.flushTime = RIGHT_NOW)) b) now later with
    ⟨time, hframe⟩
  rw [hframe]
  have hloop := workerLoop_rel dev a (Moves.refl hmoves)
    (Moves.transNil hmoves) (writeReadyData_moves hmoves)
    (publishCurrentCounted_moves hmoves) maxWriteLoops
    (b.shutdownFlag || decide (b.flushTime = RIGHT_NOW)) b
  exact hloop.trans hmoves (.of_same hmoves rfl rfl rfl)

theorem requestFlush_moves (hmoves : MovesBytes dev E) (b : FileBackend φ)
    (time : Nat) : Moves E b (b.requestFlush time).1 [] := by
  unfold requestFlush
  split
  next => exact .refl hmoves b
  next => exact .of_same hmoves rfl rfl rfl

theorem flush_moves (hmoves : MovesBytes dev E) (b : FileBackend φ)
    (alloc : Nat → Allocation) : Moves E b (b.flush alloc).1 [] := by
  unfold flush
  split
  next => exact .refl hmoves b
  next =>
    have hloop := publishLoop_rel (Moves.refl hmoves) (Moves.transNil hmoves)
      (publishCurrentCounted_moves hmoves) alloc 2 b
    exact hloop.trans hmoves (requestFlush_moves hmoves _ RIGHT_NOW)

theorem freeze_moves (hmoves : MovesBytes dev E) (b : FileBackend φ) :
    Moves E b b.freeze.1 [] := by
  have hflag : Moves E b { b with shutdownFlag := true } [] :=
    .of_same hmoves rfl rfl rfl
  unfold freeze
  dsimp only
  split
  next => exact hflag.trans hmoves (requestFlush_moves hmoves _ RIGHT_NOW)
  next => exact hflag

theorem onShutdown_moves (hmoves : MovesBytes dev E) (b : FileBackend φ)
    (a : Allocation) : Moves E b (onShutdown dev b a) [] :=
  onShutdownLoop_rel dev a (Moves.refl hmoves) (Moves.transNil hmoves)
    (writeReadyData_moves hmoves) (publishCurrentCounted_moves hmoves) 4 b

/-! ## Appending -/

/-- A synchronous backend writes what it is given at once. -/
theorem appendSync_moves (hmoves : MovesBytes dev E) (b : FileBackend φ)
    (text : List UInt8) (hqueue : b.queue.bytes = []) :
    Moves E b (appendSync dev b text).backend text := by
  have hrefused := hmoves.refused b.io text
  have hwritten := fun io' => hmoves.written b.io io' text
  unfold appendSync
  split
  next io hresult =>
    rw [hresult] at hrefused
    exact ⟨⟨text, hrefused rfl, by simp [hqueue]⟩, id⟩
  next io hresult =>
    rw [hresult] at hwritten
    have hwrite := (.done : WritesAll dev io io []).write text
    have hout := hwritten _ rfl hwrite
    split
    next hall =>
      rw [hall] at hout
      exact ⟨⟨text, hout, by simp [hqueue]⟩, id⟩
    next hall =>
      rw [hall] at hout
      exact ⟨⟨text, hout, by simp [hqueue]⟩, id⟩

theorem scheduleFlush_moves (hmoves : MovesBytes dev E) (b : FileBackend φ)
    (firstData : Bool) (now : Nat) :
    Moves E b (b.scheduleFlush firstData now).1 [] := by
  have hset : ∀ time,
      Moves E b
        { b with queue := b.queue.setCurrentFirstWriteTime time } [] :=
    fun time => .of_same hmoves rfl (by simp [BufferQueue.bytes]) rfl
  have hrequest := fun time =>
    (hset time).trans hmoves (requestFlush_moves hmoves _ RIGHT_NOW)
  unfold scheduleFlush
  split
  next =>
    cases firstData with
    | true =>
        dsimp only
        split
        next => exact hrequest _
        next => exact hset _
    | false =>
        dsimp only
        split
        next => exact requestFlush_moves hmoves b RIGHT_NOW
        next => exact .refl hmoves b
  next =>
    split
    next =>
      split
      next => exact (hset now).trans hmoves (requestFlush_moves hmoves _ _)
      next => exact hset _
    next => exact .refl hmoves b

theorem appendAsync_moves (hmoves : MovesBytes dev E) (b : FileBackend φ)
    (text : List UInt8) (clock : Clock) (a : Allocation)
    (hasync : b.async = true) :
    Moves E b (appendAsync b text clock a).backend
      (if b.queue.accepts text.length a then text else []) := by
  have hspec := b.queue.append_spec text
    (b.writeTime b.flushTime clock.first) a
  have hok := b.queue.append_ok text (b.writeTime b.flushTime clock.first) a
  rw [← hok]
  unfold appendAsync
  cases happend : b.queue.append text (b.writeTime b.flushTime clock.first) a with
  | mk result queue =>
      rw [happend] at hspec
      have hbytes := hspec.bytes
      dsimp only at hbytes ⊢
      cases hresult : result.ok with
      | false =>
          rw [hresult, if_neg (by simp)] at hbytes
          have hsame : Moves E b { b with queue := queue } [] :=
            .of_same hmoves rfl hbytes rfl
          simpa using hsame
      | true =>
          rw [hresult, if_pos rfl] at hbytes
          have hqueued : Moves E b
              { b with
                queue := queue
                queuedBytes := b.queuedBytes + text.length } text := by
            refine ⟨⟨[], hmoves.refl b.io, ?_⟩, fun _ hsync => ?_⟩
            · simp [hbytes]
            · simp [hasync] at hsync
          simpa using hqueued.trans hmoves
            (scheduleFlush_moves hmoves _ result.firstData clock.second)

theorem appendOutputData_moves (hmoves : MovesBytes dev E)
    (b : FileBackend φ) (text : List UInt8) (clock : Clock) (a : Allocation)
    (hunused : b.QueueUnused) :
    Moves E b (appendOutputData dev b text clock a).backend
      (if b.takes text.length a then text else []) := by
  unfold appendOutputData takes
  by_cases hshutdown : b.shutdownFlag = true
  · rw [if_pos hshutdown]
    simpa [hshutdown] using Moves.refl hmoves b
  · rw [if_neg hshutdown]
    rw [Bool.not_eq_true] at hshutdown
    by_cases hempty : text.length = 0
    · rw [if_pos hempty]
      simpa [List.length_eq_zero_iff.mp hempty] using Moves.refl hmoves b
    · rw [if_neg hempty]
      cases hasync : b.async with
      | false =>
          rw [if_pos rfl]
          simpa [hshutdown] using
            appendSync_moves hmoves b text (hunused hasync)
      | true =>
          rw [if_neg (by simp)]
          simpa [hshutdown] using
            appendAsync_moves hmoves b text clock a hasync

end Transfer

end FileBackend

end Logme
