import Logme.BufferQueue
import Logme.Library.StepSystem

/-!
# Accounting of the buffers of a queue

Every buffer of a queue is current, free, ready, or outside: in a local
variable of the running function or in the hands of a consumer.  The counters
are related to these numbers by `Accounted`, which every lock section keeps;
the member functions are compositions of sections, and a run of calls is a run
of member functions.
-/

namespace Logme
namespace BufferQueue

open StepSystem

variable {β : Type}

/-- The counters of a queue with `outside` buffers outside of it.  Only the
adaptive limit depends on the growth having stayed `inRange`. -/
structure Accounted (inRange : Prop) (q : BufferQueue β) (outside : Nat) :
    Prop where
  total : q.totalBuffers = 1 + q.freeList.length + q.readyList.length + outside
  used : q.usedBuffersCount + q.freeList.length = q.totalBuffers
  bounded : q.options.maxTotalBuffers ≠ 0 →
    q.totalBuffers ≤ q.options.maxTotalBuffers
  adaptive : inRange → q.options.baseFreeLimit ≤ q.adaptiveFreeLimit

variable {inRange : Prop}

/-! ## The free list -/

theorem lowerFreeLimit_ge (base free : Nat) {limit : Nat} (h : base ≤ limit) :
    base ≤ lowerFreeLimit base free limit := by
  induction limit with
  | zero => exact h
  | succ limit ih =>
      rw [lowerFreeLimit]
      split
      next hlower => exact ih (by omega)
      next => exact h

/-- The values of `TotalBuffers` that the second loop of `DecayFreeLocked`
decrements. -/
def dropExcessReads (limit : Nat) : List (DataBuffer β) → Nat → List Nat
  | [], _ => []
  | _ :: rest, total =>
      if limit < rest.length + 1 then
        total :: dropExcessReads limit rest (fetchSub total 1)
      else []

def decayReads (q : BufferQueue β) : List Nat :=
  dropExcessReads
    (lowerFreeLimit q.options.baseFreeLimit q.freeList.length q.adaptiveFreeLimit)
    q.freeList q.totalBuffers

theorem fetchSub_of_le {value amount : Nat} (h : amount ≤ value) :
    fetchSub value amount = value - amount := if_pos h

/-- Dropping buffers takes as many from the counter as from the list. -/
theorem dropExcess_counts (limit : Nat) (free : List (DataBuffer β))
    (total : Nat) (h : free.length ≤ total) :
    (dropExcess limit free total).2 + free.length =
        total + (dropExcess limit free total).1.length ∧
      (dropExcess limit free total).2 ≤ total ∧
      ∀ value ∈ dropExcessReads limit free total, 0 < value := by
  induction free generalizing total with
  | nil => simp [dropExcess, dropExcessReads]
  | cons buffer rest ih =>
      simp only [List.length_cons] at h
      rw [dropExcess, dropExcessReads]
      split
      next =>
        rcases ih (total - 1) (by omega) with ⟨hcounts, hle, hreads⟩
        rw [fetchSub_of_le (by omega)]
        refine ⟨?_, by omega, ?_⟩
        · simp only [List.length_cons]
          omega
        · intro value hvalue
          rcases List.mem_cons.mp hvalue with rfl | hvalue
          · omega
          · exact hreads value hvalue
      next => simp

theorem Accounted.decay {q : BufferQueue β} {outside : Nat}
    (h : Accounted inRange q outside) :
    Accounted inRange q.decayFreeLocked outside := by
  have htotal := h.total
  have hused := h.used
  rcases dropExcess_counts
    (lowerFreeLimit q.options.baseFreeLimit q.freeList.length
      q.adaptiveFreeLimit) q.freeList q.totalBuffers (by omega)
    with ⟨hcounts, hle, -⟩
  refine ⟨?_, ?_, ?_, fun hrange => lowerFreeLimit_ge _ _ (h.adaptive hrange)⟩
  · simp only [decayFreeLocked]
    omega
  · simp only [decayFreeLocked]
    omega
  · intro hmax
    exact Nat.le_trans hle (h.bounded hmax)

theorem Accounted.decayReads_pos {q : BufferQueue β} {outside : Nat}
    (h : Accounted inRange q outside) : ∀ value ∈ q.decayReads, 0 < value := by
  have htotal := h.total
  exact (dropExcess_counts _ q.freeList q.totalBuffers (by omega)).2.2

/-- The queue after the push of `ReleaseBuffer`, before the decay. -/
def pushFree (q : BufferQueue β) (buffer : DataBuffer β) : BufferQueue β :=
  { q with
    freeList := q.freeList ++ [buffer.reset]
    usedBuffersCount := fetchSub q.usedBuffersCount 1 }

def releaseReads (q : BufferQueue β) (buffer : DataBuffer β) : List Nat :=
  q.usedBuffersCount :: (q.pushFree buffer).decayReads

theorem Accounted.pushFree {q : BufferQueue β} {outside : Nat}
    (h : Accounted inRange q (outside + 1)) (buffer : DataBuffer β) :
    Accounted inRange (q.pushFree buffer) outside := by
  have htotal := h.total
  have hused := h.used
  refine ⟨?_, ?_, h.bounded, h.adaptive⟩
  · simp only [BufferQueue.pushFree, List.length_append, List.length_singleton]
    omega
  · simp only [BufferQueue.pushFree, List.length_append, List.length_singleton]
    rw [fetchSub_of_le (by omega)]
    omega

theorem Accounted.release {q : BufferQueue β} {outside : Nat}
    (h : Accounted inRange q (outside + 1)) (buffer : DataBuffer β) :
    Accounted inRange (q.releaseBuffer buffer) outside :=
  (h.pushFree buffer).decay

theorem Accounted.releaseReads_pos {q : BufferQueue β} {outside : Nat}
    (h : Accounted inRange q (outside + 1)) (buffer : DataBuffer β) :
    ∀ value ∈ q.releaseReads buffer, 0 < value := by
  intro value hvalue
  have htotal := h.total
  have hused := h.used
  rcases List.mem_cons.mp hvalue with rfl | hvalue
  · omega
  · exact (h.pushFree buffer).decayReads_pos value hvalue

/-! ## Recycling -/

def recycleReads : List (DataBuffer β) → Nat → List Nat
  | [], _ => []
  | _ :: rest, used => used :: recycleReads rest (fetchSub used 1)

theorem recycle_counts (buffers : List (DataBuffer β)) (used : Nat)
    (h : buffers.length ≤ used) :
    buffers.foldl (fun used _ => fetchSub used 1) used + buffers.length = used ∧
      ∀ value ∈ recycleReads buffers used, 0 < value := by
  induction buffers generalizing used with
  | nil => simp [recycleReads]
  | cons buffer rest ih =>
      simp only [List.length_cons] at h
      have hrest := ih (used - 1) (by omega)
      rw [List.foldl_cons, recycleReads, fetchSub_of_le (by omega)]
      constructor
      · have := hrest.1
        simp only [List.length_cons]
        omega
      · intro value hvalue
        rcases List.mem_cons.mp hvalue with rfl | hvalue
        · omega
        · exact hrest.2 value hvalue

theorem Accounted.recycle {q : BufferQueue β} {outside : Nat}
    {buffers : List (DataBuffer β)}
    (h : Accounted inRange q (outside + buffers.length)) :
    Accounted inRange (q.recycle buffers) outside := by
  have htotal := h.total
  have hused := h.used
  have hfold := (recycle_counts buffers q.usedBuffersCount (by omega)).1
  refine ⟨?_, ?_, h.bounded, h.adaptive⟩
  · simp only [BufferQueue.recycle, List.length_append, List.length_map]
    omega
  · simp only [BufferQueue.recycle, List.length_append, List.length_map]
    omega

theorem Accounted.recycleReads_pos {q : BufferQueue β} {outside : Nat}
    {buffers : List (DataBuffer β)}
    (h : Accounted inRange q (outside + buffers.length)) :
    ∀ value ∈ recycleReads buffers q.usedBuffersCount, 0 < value := by
  have htotal := h.total
  have hused := h.used
  exact (recycle_counts buffers q.usedBuffersCount (by omega)).2

/-! ## Taking a replacement -/

/-- A new buffer would be created for the next replacement. -/
def creates (q : BufferQueue β) : Bool :=
  q.freeList.isEmpty && !q.atBufferLimit

/-- `MaybeGrowAdaptive` does not step past the end of `size_t`. -/
def GrowthFits (q : BufferQueue β) : Prop :=
  q.adaptiveFreeLimit + 1 < 2 ^ 64 ∨
    (q.growthCap ≠ 0 ∧ q.growthCap ≤ q.adaptiveFreeLimit)

instance (q : BufferQueue β) : Decidable q.GrowthFits :=
  inferInstanceAs (Decidable (_ ∨ _))

/-- What the search for a replacement does to the accounts. -/
structure Replacement (inRange : Prop) (q : BufferQueue β) (outside : Nat)
    (r : Option (DataBuffer β × Bool) × BufferQueue β) : Prop where
  missing : r.1 = none → Accounted inRange r.2 outside
  found : ∀ replacement, r.1 = some replacement →
    Accounted inRange r.2 (outside + 1) ∧ replacement.2 = q.creates
  current : r.2.current = q.current
  flag : r.2.hasCurrentDataFlag = q.hasCurrentDataFlag
  fits : r.2.GrowthFits ↔ q.GrowthFits

theorem Accounted.tryTakeFree {q : BufferQueue β} {outside : Nat}
    {buffer : DataBuffer β} {rest : List (DataBuffer β)}
    (h : Accounted inRange q outside) (hfree : q.freeList = buffer :: rest) :
    Accounted inRange
      { q with freeList := rest, usedBuffersCount := q.usedBuffersCount + 1 }
      (outside + 1) := by
  have htotal := h.total
  have hused := h.used
  rw [hfree, List.length_cons] at htotal hused
  refine ⟨?_, ?_, h.bounded, h.adaptive⟩
  · dsimp only
    omega
  · dsimp only
    omega

theorem Accounted.countCreated {q : BufferQueue β} {outside : Nat}
    (h : Accounted inRange q outside) (hlimit : q.atBufferLimit = false) :
    Accounted inRange q.countCreated (outside + 1) := by
  have htotal := h.total
  have hused := h.used
  refine ⟨?_, ?_, ?_, h.adaptive⟩
  · simp only [BufferQueue.countCreated]
    omega
  · simp only [BufferQueue.countCreated]
    omega
  · intro hmax
    have hroom : q.totalBuffers < q.options.maxTotalBuffers := by
      simp only [BufferQueue.countCreated] at hmax
      simpa [atBufferLimit, hmax] using hlimit
    exact hroom

theorem Accounted.takeReplacement {q : BufferQueue β} {outside : Nat}
    (h : Accounted inRange q outside) (a : Allocation) :
    Replacement inRange q outside (q.takeReplacement a) := by
  unfold BufferQueue.takeReplacement tryTakeFreeBuffer
  cases hfree : q.freeList with
  | nil =>
      dsimp only [tryCreateBuffer]
      by_cases hlimit : q.atBufferLimit = true
      · rw [if_pos hlimit]
        exact ⟨fun _ => h, by simp, rfl, rfl, Iff.rfl⟩
      · have hroom : q.atBufferLimit = false := by simpa using hlimit
        rw [if_neg hlimit]
        refine ⟨by simp, ?_, rfl, rfl, Iff.rfl⟩
        rintro replacement hsome
        simp only [Option.some.injEq] at hsome
        subst hsome
        exact ⟨h.countCreated hroom, by simp [creates, hfree, hroom]⟩
  | cons buffer rest =>
      refine ⟨by simp, ?_, rfl, rfl, Iff.rfl⟩
      rintro replacement hsome
      simp only [Option.some.injEq] at hsome
      subst hsome
      exact ⟨h.tryTakeFree hfree, by simp [creates, hfree]⟩

theorem Accounted.maybeGrow {q : BufferQueue β} {outside : Nat}
    (h : Accounted inRange q outside) {grown : Bool}
    (hfits : inRange → grown = true → q.GrowthFits) :
    Accounted inRange (q.maybeGrowAdaptive grown) outside := by
  unfold maybeGrowAdaptive
  split
  next => exact h
  next hgrown =>
    split
    next => exact h
    next hcap =>
      refine ⟨h.total, h.used, h.bounded, ?_⟩
      intro hrange
      have hadaptive := h.adaptive hrange
      rcases hfits hrange (by simpa using hgrown) with hsmall | hfull
      · dsimp only
        rw [Nat.mod_eq_of_lt hsmall]
        omega
      · exact absurd hfull hcap

theorem Accounted.enqueue {q : BufferQueue β} {outside : Nat}
    (h : Accounted inRange q (outside + 1)) (buffer : DataBuffer β) :
    Accounted inRange (q.enqueueReady buffer) outside := by
  unfold enqueueReady
  split
  next => exact h.release buffer
  next =>
    have htotal := h.total
    refine ⟨?_, h.used, h.bounded, h.adaptive⟩
    simp only [List.length_append, List.length_singleton]
    omega

def enqueueReads (q : BufferQueue β) (buffer : DataBuffer β) : List Nat :=
  if buffer.size = 0 then q.releaseReads buffer else []

theorem Accounted.enqueueReads_pos {q : BufferQueue β} {outside : Nat}
    (h : Accounted inRange q (outside + 1)) (buffer : DataBuffer β) :
    ∀ value ∈ q.enqueueReads buffer, 0 < value := by
  unfold enqueueReads
  split
  next => exact h.releaseReads_pos buffer
  next => simp

/-- The counters do not depend on the current buffer. -/
theorem Accounted.of_current {q : BufferQueue β} {outside : Nat}
    (h : Accounted inRange q outside) (current : DataBuffer β) (time : Nat)
    (flag : Bool) :
    Accounted inRange
      { q with
        current := current
        currentFirstWriteTime := time
        hasCurrentDataFlag := flag } outside :=
  ⟨h.total, h.used, h.bounded, h.adaptive⟩

theorem Accounted.appendCurrent {q : BufferQueue β} {outside : Nat}
    (h : Accounted inRange q outside) (p : List β) (time : Nat)
    (hfits : q.current.canAppend p.length) :
    Accounted inRange (q.appendCurrent p time hfits) outside := by
  unfold BufferQueue.appendCurrent
  split
  next => exact h.of_current _ _ _
  next => exact h.of_current _ _ _

/-! ## Member functions -/

def appendReads (q : BufferQueue β) (p : List β) (firstWriteTime : Nat)
    (a : Allocation) : List Nat :=
  if p.length = 0 ∨ q.current.canAppend p.length then []
  else
    match q.takeReplacement a with
    | (none, _) => []
    | (some (replacement, allocated), q') =>
        if h : q'.current.canAppend p.length then
          (q'.appendCurrent p firstWriteTime h).releaseReads replacement
        else if h : replacement.reset.canAppend p.length then
          ((q'.replaceAndAppend replacement.reset p firstWriteTime h)
            |>.maybeGrowAdaptive allocated).enqueueReads q'.current
        else q'.releaseReads replacement

/-- The decrements of the two publishing functions; `refused` is the test
under `DataLock`. -/
def publishReads (q : BufferQueue β) (refused : Bool) (a : Allocation) :
    List Nat :=
  match q.takeReplacement a with
  | (none, _) => []
  | (some (replacement, allocated), q') =>
      if refused then q'.releaseReads replacement
      else
        ((q'.replaceCurrent replacement).maybeGrowAdaptive allocated)
          |>.enqueueReads q'.current

/-- `Append` creates a buffer and puts it in place of the current one. -/
def appendGrows (q : BufferQueue β) (p : List β) (a : Allocation) : Bool :=
  decide (p.length ≠ 0 ∧ ¬ q.current.canAppend p.length ∧
    p.length ≤ (a.buffer q.options : DataBuffer β).capacity) && q.creates

/-- A publishing function that passes its tests creates a buffer. -/
def publishGrows (q : BufferQueue β) (refused : Bool) : Bool :=
  !refused && q.creates

/-- A function leaves the accounts in order and wraps no counter. -/
structure Conserves (inRange : Prop) (outside : Nat) (next : BufferQueue β)
    (reads : List Nat) : Prop where
  accounted : Accounted inRange next outside
  reads_pos : ∀ value ∈ reads, 0 < value

theorem takeReplacement_created (q : BufferQueue β) (a : Allocation)
    {replacement : DataBuffer β} (hcreates : q.creates = true)
    (h : (q.takeReplacement a).1 = some (replacement, true)) :
    replacement = a.buffer q.options := by
  simp only [creates, Bool.and_eq_true, List.isEmpty_iff,
    Bool.not_eq_true'] at hcreates
  rcases hcreates with ⟨hfree, hlimit⟩
  simp only [takeReplacement, tryTakeFreeBuffer, hfree, tryCreateBuffer, hlimit,
    Bool.false_eq_true, if_false, Option.some.injEq, Prod.mk.injEq,
    and_true] at h
  exact h.symm

theorem Accounted.give_back {q : BufferQueue β} {outside : Nat}
    (h : Accounted inRange q (outside + 1)) (buffer : DataBuffer β) :
    Conserves inRange outside (q.releaseBuffer buffer) (q.releaseReads buffer) :=
  ⟨h.release buffer, h.releaseReads_pos buffer⟩

theorem Accounted.hand_over {q : BufferQueue β} {outside : Nat}
    (h : Accounted inRange q (outside + 1)) (buffer : DataBuffer β) {grown : Bool}
    (hfits : inRange → grown = true → q.GrowthFits) :
    Conserves inRange outside ((q.maybeGrowAdaptive grown).enqueueReady buffer)
      ((q.maybeGrowAdaptive grown).enqueueReads buffer) :=
  ⟨(h.maybeGrow hfits).enqueue buffer, (h.maybeGrow hfits).enqueueReads_pos buffer⟩

theorem Accounted.append {q : BufferQueue β} {outside : Nat}
    (h : Accounted inRange q outside) (p : List β) (time : Nat) (a : Allocation)
    (hfits : inRange → q.appendGrows p a = true → q.GrowthFits) :
    Conserves inRange outside (q.append p time a).2 (q.appendReads p time a) := by
  unfold BufferQueue.append appendReads
  by_cases hempty : p.length = 0
  · rw [if_pos hempty, if_pos (.inl hempty)]
    exact ⟨h, by simp⟩
  · rw [if_neg hempty]
    by_cases happend : q.current.canAppend p.length
    · rw [dif_pos happend, if_pos (.inr happend)]
      exact ⟨h.appendCurrent p time happend, by simp⟩
    · rw [dif_neg happend, if_neg (by simp [hempty, happend])]
      have hsearch := h.takeReplacement a
      cases htake : q.takeReplacement a with
      | mk found q' =>
          rw [htake] at hsearch
          cases found with
          | none => exact ⟨hsearch.missing rfl, by simp⟩
          | some replacement =>
              rcases replacement with ⟨replacement, allocated⟩
              rcases hsearch.found _ rfl with ⟨hfound, hallocated⟩
              have hagain : ¬ q'.current.canAppend p.length := by
                have hcurrent : q'.current = q.current := hsearch.current
                rw [hcurrent]
                exact happend
              dsimp only at hfound hallocated ⊢
              simp only [dif_neg hagain]
              by_cases hroom : replacement.reset.canAppend p.length
              · simp only [dif_pos hroom]
                refine (hfound.of_current _ time true).hand_over _ ?_
                intro hrange hnew
                rw [hnew] at hallocated htake
                have hbuffer := q.takeReplacement_created a hallocated.symm
                  (congrArg Prod.fst htake)
                rw [hbuffer] at hroom
                apply hsearch.fits.mpr
                apply hfits hrange
                have hcapacity : p.length ≤
                    (a.buffer q.options : DataBuffer β).capacity := by
                  simpa [DataBuffer.canAppend, DataBuffer.size,
                    DataBuffer.reset] using hroom
                simp [appendGrows, hempty, happend, hcapacity, ← hallocated]
              · simp only [dif_neg hroom]
                exact hfound.give_back _

theorem Accounted.publishCurrent {q : BufferQueue β} {outside : Nat}
    (h : Accounted inRange q outside) (a : Allocation)
    (hfits : inRange → q.publishGrows (q.current.size == 0) = true → q.GrowthFits) :
    Conserves inRange outside (q.publishCurrent a).2
      (q.publishReads (q.current.size == 0) a) := by
  have hsearch := h.takeReplacement a
  unfold BufferQueue.publishCurrent publishReads
  cases htake : q.takeReplacement a with
  | mk found q' =>
      rw [htake] at hsearch
      cases found with
      | none => exact ⟨hsearch.missing rfl, by simp⟩
      | some replacement =>
          rcases replacement with ⟨replacement, allocated⟩
          rcases hsearch.found _ rfl with ⟨hfound, hallocated⟩
          have hcurrent : q'.current = q.current := hsearch.current
          dsimp only at hfound hallocated ⊢
          rw [hcurrent]
          by_cases hsize : q.current.size = 0
          · rw [if_pos hsize, if_pos (by simpa using hsize)]
            exact hfound.give_back _
          · rw [if_neg hsize, if_neg (by simpa using hsize)]
            refine (hfound.of_current _ 0 false).hand_over _ ?_
            intro hrange hnew
            apply hsearch.fits.mpr
            apply hfits hrange
            simp [publishGrows, hsize, ← hallocated, hnew]

/-- The test of `PublishCurrentIfMatches` under `DataLock`. -/
def matchRefused (q : BufferQueue β) (expected : Option Nat) : Bool :=
  decide (some q.current.address ≠ expected ∨ q.current.size = 0)

theorem Accounted.publishCurrentIfMatches {q : BufferQueue β} {outside : Nat}
    (h : Accounted inRange q outside) {expected : Option Nat} (a : Allocation)
    (hexpected : expected ≠ none)
    (hfits : inRange → q.publishGrows (q.matchRefused expected) = true → q.GrowthFits) :
    Conserves inRange outside (q.publishCurrentIfMatches expected a).2
      (q.publishReads (q.matchRefused expected) a) := by
  have hsearch := h.takeReplacement a
  unfold BufferQueue.publishCurrentIfMatches publishReads
  rw [if_neg hexpected]
  cases htake : q.takeReplacement a with
  | mk found q' =>
      rw [htake] at hsearch
      cases found with
      | none => exact ⟨hsearch.missing rfl, by simp⟩
      | some replacement =>
          rcases replacement with ⟨replacement, allocated⟩
          rcases hsearch.found _ rfl with ⟨hfound, hallocated⟩
          have hcurrent : q'.current = q.current := hsearch.current
          dsimp only at hfound hallocated ⊢
          rw [hcurrent]
          by_cases hrefused :
              some q.current.address ≠ expected ∨ q.current.size = 0
          · rw [if_pos hrefused, if_pos (by simpa [matchRefused] using hrefused)]
            exact hfound.give_back _
          · rw [if_neg hrefused, if_neg (by simpa [matchRefused] using hrefused)]
            refine (hfound.of_current _ 0 false).hand_over _ ?_
            intro hrange hnew
            apply hsearch.fits.mpr
            apply hfits hrange
            have hmatch : q.matchRefused expected = false := by
              simpa [matchRefused] using hrefused
            simp [publishGrows, hmatch, ← hallocated, hnew]

/-- `PublishCurrentIfMatches` keeps the flag exact, as `PublishCurrent` does. -/
theorem publishCurrentIfMatches_flag (q : BufferQueue β)
    (expected : Option Nat) (a : Allocation) (hexact : q.FlagExact) :
    (q.publishCurrentIfMatches expected a).2.FlagExact := by
  have hkept := q.takeReplacement_flagExact a hexact
  unfold BufferQueue.publishCurrentIfMatches
  split
  next => exact hexact
  next =>
    cases htake : q.takeReplacement a with
    | mk found q' =>
        rw [htake] at hkept
        cases found with
        | none => exact hkept
        | some replacement =>
            dsimp only
            split
            next => exact hkept
            next =>
              rw [FlagExact, enqueueReady_flag, maybeGrowAdaptive_flag,
                enqueueReady_current, maybeGrowAdaptive_current]
              simp [replaceCurrent]

/-! ## Runs of calls -/

/-- A queue and the buffers that its consumers have taken. -/
structure Circulation (β : Type) where
  queue : BufferQueue β
  inHands : List (DataBuffer β)

/-- A consumer recycles `returned` and keeps `kept`; it may have changed what
the buffers hold. -/
inductive Call (β : Type) where
  | append (p : List β) (firstWriteTime : Nat) (a : Allocation)
  | setCurrentFirstWriteTime (value : Nat)
  | prepareSoftFlushCurrent
  | publishCurrent (a : Allocation)
  | publishCurrentIfMatches (expected : Option Nat) (a : Allocation)
  | takeReady
  | recycle (returned kept : List (DataBuffer β))
  | trimFreeBuffersIfIdle

namespace Circulation

def start (options : Options) (a : Allocation) : Circulation β where
  queue := .new options a
  inHands := []

/-- The buffers of the two lists together are the ones in `inHands`. -/
def returns (s : Circulation β) (returned kept : List (DataBuffer β)) : Prop :=
  ((returned ++ kept).map (·.address)).Perm (s.inHands.map (·.address))

instance (s : Circulation β) (returned kept : List (DataBuffer β)) :
    Decidable (s.returns returned kept) :=
  inferInstanceAs (Decidable (List.Perm _ _))

def step (s : Circulation β) : Call β → Option (Circulation β)
  | .append p time a => some { s with queue := (s.queue.append p time a).2 }
  | .setCurrentFirstWriteTime value =>
      some { s with queue := s.queue.setCurrentFirstWriteTime value }
  | .prepareSoftFlushCurrent =>
      some { s with queue := s.queue.prepareSoftFlushCurrent.2.2 }
  | .publishCurrent a => some { s with queue := (s.queue.publishCurrent a).2 }
  | .publishCurrentIfMatches expected a =>
      some { s with queue := (s.queue.publishCurrentIfMatches expected a).2 }
  | .takeReady =>
      some ⟨s.queue.takeReady.2, s.inHands ++ s.queue.takeReady.1⟩
  | .recycle returned kept =>
      if s.returns returned kept then some ⟨s.queue.recycle returned, kept⟩
      else none
  | .trimFreeBuffersIfIdle =>
      some { s with queue := s.queue.trimFreeBuffersIfIdle }

/-- The counter values that the decrements of a call read. -/
def decrementReads (s : Circulation β) : Call β → List Nat
  | .append p time a => s.queue.appendReads p time a
  | .publishCurrent a => s.queue.publishReads (s.queue.current.size == 0) a
  | .publishCurrentIfMatches expected a =>
      if expected = none then []
      else s.queue.publishReads (s.queue.matchRefused expected) a
  | .recycle returned _ => recycleReads returned s.queue.usedBuffersCount
  | .trimFreeBuffersIfIdle => s.queue.decayReads
  | .setCurrentFirstWriteTime _ | .prepareSoftFlushCurrent | .takeReady => []

/-- The call puts a buffer that it has created in place of the current one,
which is when the adaptive limit grows. -/
def grows (s : Circulation β) : Call β → Bool
  | .append p _ a => s.queue.appendGrows p a
  | .publishCurrent _ => s.queue.publishGrows (s.queue.current.size == 0)
  | .publishCurrentIfMatches expected _ =>
      expected.isSome && s.queue.publishGrows (s.queue.matchRefused expected)
  | _ => false

/-- The call does not grow an adaptive limit that is at the end of `size_t`. -/
def GrowsInRange (s : Circulation β) (call : Call β) : Prop :=
  s.grows call = true → s.queue.GrowthFits

instance (s : Circulation β) (call : Call β) : Decidable (s.GrowsInRange call) :=
  inferInstanceAs (Decidable (_ → _))

/-- The conservation law of a queue in use. -/
structure Conserved (s : Circulation β) : Prop where
  total : s.queue.totalBuffers =
    1 + s.queue.freeList.length + s.queue.readyList.length + s.inHands.length
  used : s.queue.usedBuffersCount + s.queue.freeList.length =
    s.queue.totalBuffers
  bounded : s.queue.options.maxTotalBuffers ≠ 0 →
    s.queue.totalBuffers ≤ s.queue.options.maxTotalBuffers
  adaptive : s.queue.options.baseFreeLimit ≤ s.queue.adaptiveFreeLimit
  flag : s.queue.hasCurrentDataFlag = true ↔ s.queue.current.size ≠ 0
  neverWraps : ∀ call, (s.step call).isSome →
    ∀ value ∈ s.decrementReads call, 0 < value

/-- The invariant of a run. -/
structure Inv (inRange : Prop) (s : Circulation β) : Prop where
  accounted : Accounted inRange s.queue s.inHands.length
  flagExact : s.queue.FlagExact

theorem start_inv (options : Options) (a : Allocation) :
    Inv inRange (start options a : Circulation β) := by
  refine ⟨⟨rfl, rfl, ?_, fun _ => Nat.le_refl _⟩, new_flagExact options a⟩
  intro hmax
  exact Nat.one_le_iff_ne_zero.mpr hmax

theorem returns_length {s : Circulation β} {returned kept : List (DataBuffer β)}
    (h : s.returns returned kept) :
    kept.length + returned.length = s.inHands.length := by
  have hlength := h.length_eq
  simp only [List.length_map, List.length_append] at hlength
  omega

/-- One call: the accounts stay in order and no decrement wraps. -/
theorem step_conserves {s next : Circulation β} {call : Call β}
    (hinv : Inv inRange s) (hfits : inRange → s.GrowsInRange call)
    (hstep : s.step call = some next) :
    Inv inRange next ∧ ∀ value ∈ s.decrementReads call, 0 < value := by
  rcases hinv with ⟨haccounted, hflag⟩
  cases call with
  | append p time a =>
      simp only [step, Option.some.injEq] at hstep
      subst hstep
      have hspec := haccounted.append p time a hfits
      exact ⟨⟨hspec.accounted, (append_spec _ _ _ _).flagExact hflag⟩,
        hspec.reads_pos⟩
  | setCurrentFirstWriteTime value =>
      simp only [step, Option.some.injEq] at hstep
      subst hstep
      refine ⟨?_, by simp [decrementReads]⟩
      unfold BufferQueue.setCurrentFirstWriteTime
      split_ifs
      · exact ⟨haccounted, hflag⟩
      · exact ⟨haccounted.of_current _ _ _, hflag⟩
      · exact ⟨haccounted.of_current _ _ _, hflag⟩
  | prepareSoftFlushCurrent =>
      simp only [step, Option.some.injEq] at hstep
      subst hstep
      refine ⟨?_, by simp [decrementReads]⟩
      unfold BufferQueue.prepareSoftFlushCurrent
      split_ifs
      · exact ⟨haccounted, hflag⟩
      · exact ⟨haccounted.of_current _ _ _, hflag⟩
      · exact ⟨haccounted, hflag⟩
  | publishCurrent a =>
      simp only [step, Option.some.injEq] at hstep
      subst hstep
      have hspec := haccounted.publishCurrent a hfits
      exact ⟨⟨hspec.accounted, (publishCurrent_spec _ _).flagExact hflag⟩,
        hspec.reads_pos⟩
  | publishCurrentIfMatches expected a =>
      simp only [step, Option.some.injEq] at hstep
      subst hstep
      have hflag' := publishCurrentIfMatches_flag _ expected a hflag
      cases expected with
      | none => exact ⟨⟨haccounted, hflag'⟩, by simp [decrementReads]⟩
      | some address =>
          have hmatched : some address ≠ none := by simp
          have hspec := haccounted.publishCurrentIfMatches a hmatched
            (by simpa [GrowsInRange, grows] using hfits)
          exact ⟨⟨hspec.accounted, hflag'⟩, hspec.reads_pos⟩
  | takeReady =>
      simp only [step, Option.some.injEq] at hstep
      subst hstep
      refine ⟨⟨⟨?_, haccounted.used, haccounted.bounded, haccounted.adaptive⟩,
        hflag⟩, by simp [decrementReads]⟩
      have htotal := haccounted.total
      simp only [BufferQueue.takeReady, List.length_nil, List.length_append]
      omega
  | recycle returned kept =>
      simp only [step] at hstep
      split at hstep
      next hreturns =>
        simp only [Option.some.injEq] at hstep
        subst hstep
        rw [← returns_length hreturns] at haccounted
        exact ⟨⟨haccounted.recycle, hflag⟩, haccounted.recycleReads_pos⟩
      next => simp at hstep
  | trimFreeBuffersIfIdle =>
      simp only [step, Option.some.injEq] at hstep
      subst hstep
      exact ⟨⟨haccounted.decay, hflag⟩, haccounted.decayReads_pos⟩

theorem Inv.mono {inRange' : Prop} {s : Circulation β} (hinv : Inv inRange s)
    (h : inRange' → inRange) : Inv inRange' s := by
  refine ⟨⟨hinv.accounted.total, hinv.accounted.used, hinv.accounted.bounded, ?_⟩,
    hinv.flagExact⟩
  intro hrange
  exact hinv.accounted.adaptive (h hrange)

theorem Inv.conserved {s : Circulation β} (hinv : Inv True s) : s.Conserved where
  total := hinv.accounted.total
  used := hinv.accounted.used
  bounded := hinv.accounted.bounded
  adaptive := hinv.accounted.adaptive trivial
  flag := by
    have hflag := hinv.flagExact
    rw [FlagExact] at hflag
    rw [hflag, ne_eq, ne_eq, DataBuffer.size_eq_zero]
  neverWraps := by
    intro call hsome
    obtain ⟨next, hnext⟩ := Option.isSome_iff_exists.mp hsome
    have hcounts : Inv False s := hinv.mono False.elim
    exact (step_conserves hcounts False.elim hnext).2

/-- In every run in which no call grows an adaptive limit at the end of
`size_t`, the accounts are conserved in every state. -/
theorem accounts_conserved (options : Options) (a : Allocation)
    {s : Circulation β} (hrun : Run step GrowsInRange (start options a) s) :
    s.Conserved := by
  apply Inv.conserved
  apply hrun.invariant _ (start_inv options a)
  intro s call next hinv hfits hstep
  exact (step_conserves hinv (fun _ => hfits) hstep).1

/-- Two buffers of two bytes, at most three buffers, one of them kept free. -/
private def smallQueue : Options :=
  { bufferSize := 2, baseFreeLimit := 1, maxTotalBuffers := 3 }

/-- A consumer takes two full buffers and recycles the first. -/
theorem accounts_conserved_one_in_hands :
    ∃ s : Circulation UInt8,
      s.inHands.length = 1 ∧ s.queue.freeList.length = 1 ∧ s.Conserved := by
  rcases exists_run_of_exec step GrowsInRange
      (start smallQueue ⟨0, none⟩ : Circulation UInt8)
      [.append [1, 2] 10 ⟨1, none⟩, .append [3] 11 ⟨1, none⟩,
        .publishCurrent ⟨2, none⟩, .takeReady,
        .recycle [.new 0 2] [.new 1 2]]
      (fun s => decide (s.inHands.length = 1) &&
        decide (s.queue.freeList.length = 1)) (by decide) with ⟨s, hrun, hcheck⟩
  rw [Bool.and_eq_true, decide_eq_true_eq, decide_eq_true_eq] at hcheck
  exact ⟨s, hcheck.1, hcheck.2, accounts_conserved smallQueue ⟨0, none⟩ hrun⟩

/-- Every returned buffer is to be kept. -/
private def keepEverything : Options :=
  { bufferSize := 1, baseFreeLimit := 2 ^ 64 - 1 }

/-- The first buffer that is created for such a queue makes the adaptive limit
wrap to 0. -/
theorem adaptive_limit_wraps :
    ¬ ∀ (options : Options) (a : Allocation) (s : Circulation UInt8),
      Reachable step (start options a) s → s.Conserved := by
  intro hall
  rcases exists_reachable_of_exec step
      (start keepEverything ⟨0, none⟩ : Circulation UInt8)
      [.append [1] 10 ⟨1, none⟩, .publishCurrent ⟨1, none⟩]
      (fun s => decide (s.queue.adaptiveFreeLimit < s.queue.options.baseFreeLimit))
      (by decide) with ⟨s, hreach, hcheck⟩
  have hbase := (hall keepEverything ⟨0, none⟩ s hreach).adaptive
  exact absurd hbase (Nat.not_le.mpr (of_decide_eq_true hcheck))

end Circulation
end BufferQueue
end Logme
