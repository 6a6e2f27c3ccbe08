import Logme.DataBuffer

/-!
# The buffer queue, lock section by lock section

`BufferQueue` hands full buffers from the logging threads to the worker.  Its
functions are sequences of short sections, each under one of `DataLock` (the
lock of the owning channel), `ReadyLock` and `FreeLock`.  This file gives the
state and every section as a function on it, and the member functions as the
compositions that a thread which is not interrupted performs.  The statistics
counters are left out: no modelled function reads them.
-/

namespace Logme

/-- `fetch_sub` on a `size_t` counter: below zero it wraps. -/
def fetchSub (value amount : Nat) : Nat :=
  if amount ≤ value then value - amount else value + 2 ^ 64 - amount

/-- `BufferQueue::Options`; the cache callbacks are represented by the
`Allocation` given to the operations that may create a buffer. -/
structure Options where
  bufferSize : Nat := 64 * 1024
  baseFreeLimit : Nat := 6
  maxTotalBuffers : Nat := 0
  maxAdaptiveFreeLimit : Nat := 0
  deriving DecidableEq

/-- Where a created buffer comes from: its address, and the capacity of the
cached buffer when the shared cache supplies one. -/
structure Allocation where
  address : Nat
  cachedCapacity : Option Nat := none
  deriving DecidableEq

def Allocation.buffer {β : Type} (options : Options) (a : Allocation) :
    DataBuffer β :=
  .new a.address (a.cachedCapacity.getD options.bufferSize)

structure BufferQueue (β : Type) where
  options : Options
  freeList : List (DataBuffer β)
  readyList : List (DataBuffer β)
  current : DataBuffer β
  hasCurrentDataFlag : Bool
  currentFirstWriteTime : Nat
  usedBuffersCount : Nat
  totalBuffers : Nat
  adaptiveFreeLimit : Nat
  signaled : Bool

namespace BufferQueue

variable {β : Type}

/-- The constructor: one empty current buffer. -/
def new (options : Options) (a : Allocation) : BufferQueue β where
  options := options
  freeList := []
  readyList := []
  current := a.buffer options
  hasCurrentDataFlag := false
  currentFirstWriteTime := 0
  usedBuffersCount := 1
  totalBuffers := 1
  adaptiveFreeLimit := options.baseFreeLimit
  signaled := false

/-! ## `FreeLock` sections -/

def tryTakeFreeBuffer (q : BufferQueue β) :
    Option (DataBuffer β) × BufferQueue β :=
  match q.freeList with
  | [] => (none, q)
  | buffer :: rest =>
      (some buffer,
        { q with freeList := rest, usedBuffersCount := q.usedBuffersCount + 1 })

/-- The test made twice by `TryCreateBuffer`. -/
def atBufferLimit (q : BufferQueue β) : Bool :=
  q.options.maxTotalBuffers != 0 &&
    decide (q.options.maxTotalBuffers ≤ q.totalBuffers)

def countCreated (q : BufferQueue β) : BufferQueue β :=
  { q with
    totalBuffers := q.totalBuffers + 1
    usedBuffersCount := q.usedBuffersCount + 1 }

/-- First loop of `DecayFreeLocked`: lower the adaptive limit towards the base
limit while the free list stays within it. -/
def lowerFreeLimit (base free : Nat) : Nat → Nat
  | 0 => 0
  | limit + 1 =>
      if base < limit + 1 ∧ free ≤ limit then lowerFreeLimit base free limit
      else limit + 1

/-- Second loop of `DecayFreeLocked`: drop buffers from the front while the
free list is longer than the limit. -/
def dropExcess (limit : Nat) :
    List (DataBuffer β) → Nat → List (DataBuffer β) × Nat
  | [], total => ([], total)
  | buffer :: rest, total =>
      if limit < rest.length + 1 then dropExcess limit rest (fetchSub total 1)
      else (buffer :: rest, total)

def decayFreeLocked (q : BufferQueue β) : BufferQueue β :=
  let limit :=
    lowerFreeLimit q.options.baseFreeLimit q.freeList.length q.adaptiveFreeLimit
  let kept := dropExcess limit q.freeList q.totalBuffers
  { q with
    adaptiveFreeLimit := limit
    freeList := kept.1
    totalBuffers := kept.2 }

def releaseBuffer (q : BufferQueue β) (buffer : DataBuffer β) : BufferQueue β :=
  decayFreeLocked
    { q with
      freeList := q.freeList ++ [buffer.reset]
      usedBuffersCount := fetchSub q.usedBuffersCount 1 }

/-- `cap` in `MaybeGrowAdaptive`; 0 stands for no limit. -/
def growthCap (q : BufferQueue β) : Nat :=
  if q.options.maxAdaptiveFreeLimit ≠ 0 then q.options.maxAdaptiveFreeLimit
  else q.options.maxTotalBuffers

/-- The limit starts at an option of the caller, so its increment can reach
the end of `size_t`; the other counters count buffers in memory. -/
def maybeGrowAdaptive (q : BufferQueue β) (allocatedBecauseNoFree : Bool) :
    BufferQueue β :=
  if allocatedBecauseNoFree = false then q
  else if q.growthCap ≠ 0 ∧ q.growthCap ≤ q.adaptiveFreeLimit then q
  else { q with adaptiveFreeLimit := (q.adaptiveFreeLimit + 1) % 2 ^ 64 }

def recycle (q : BufferQueue β) (buffers : List (DataBuffer β)) :
    BufferQueue β :=
  { q with
    freeList := q.freeList ++ buffers.map DataBuffer.reset
    usedBuffersCount :=
      buffers.foldl (fun used _ => fetchSub used 1) q.usedBuffersCount }

def trimFreeBuffersIfIdle (q : BufferQueue β) : BufferQueue β :=
  q.decayFreeLocked

/-! ## `ReadyLock` sections -/

/-- `EnqueueReady`: an empty buffer goes back to the free list instead. -/
def enqueueReady (q : BufferQueue β) (buffer : DataBuffer β) : BufferQueue β :=
  if buffer.size = 0 then q.releaseBuffer buffer
  else { q with readyList := q.readyList ++ [buffer], signaled := true }

def takeReady (q : BufferQueue β) : List (DataBuffer β) × BufferQueue β :=
  (q.readyList, { q with readyList := [], signaled := false })

def hasReady (q : BufferQueue β) : Bool := !q.readyList.isEmpty

def getOldestReadyDataTime (q : BufferQueue β) : Nat :=
  match q.readyList with
  | [] => 0
  | buffer :: _ => buffer.firstWriteTime

/-! ## `DataLock` sections and the atomics that shadow the current buffer -/

/-- The append to the current buffer, made in two places of `Append`. -/
def appendCurrent (q : BufferQueue β) (p : List β) (firstWriteTime : Nat)
    (h : q.current.canAppend p.length) : BufferQueue β :=
  if q.current.size = 0 then
    { q with
      current := (q.current.append p h).setFirstWriteTime firstWriteTime
      currentFirstWriteTime := firstWriteTime
      hasCurrentDataFlag := true }
  else { q with current := q.current.append p h }

/-- `Append` replaces the full current buffer and writes to the new one. -/
def replaceAndAppend (q : BufferQueue β) (replacement : DataBuffer β)
    (p : List β) (firstWriteTime : Nat)
    (h : replacement.canAppend p.length) : BufferQueue β :=
  { q with
    current := (replacement.append p h).setFirstWriteTime firstWriteTime
    currentFirstWriteTime := firstWriteTime
    hasCurrentDataFlag := true }

/-- `PublishCurrent` replaces the current buffer by an empty one. -/
def replaceCurrent (q : BufferQueue β) (replacement : DataBuffer β) :
    BufferQueue β :=
  { q with
    current := replacement.reset
    currentFirstWriteTime := 0
    hasCurrentDataFlag := false }

def setCurrentFirstWriteTime (q : BufferQueue β) (value : Nat) :
    BufferQueue β :=
  if q.current.size = 0 then q
  else if q.current.firstWriteTime ≠ 0 then
    { q with currentFirstWriteTime := q.current.firstWriteTime }
  else
    { q with
      current := q.current.setFirstWriteTime value
      currentFirstWriteTime := value }

inductive SoftFlushState where
  | empty
  | marked
  | publish
  deriving DecidableEq

/-- `PrepareSoftFlushCurrent`, with the address it reports as expected. -/
def prepareSoftFlushCurrent (q : BufferQueue β) :
    SoftFlushState × Option Nat × BufferQueue β :=
  if q.current.size = 0 then (.empty, none, q)
  else if q.current.seenOnSoftFlush = false then
    (.marked, none, { q with current := q.current.setSeenOnSoftFlush true })
  else (.publish, some q.current.address, q)

def getCurrentFirstWriteTimeSnapshot (q : BufferQueue β) : Nat :=
  q.currentFirstWriteTime

def hasCurrentDataFlagged (q : BufferQueue β) : Bool := q.hasCurrentDataFlag

def getUsedBuffers (q : BufferQueue β) : Nat := q.usedBuffersCount

/-! ## What a section does to the bytes

A section either leaves the ready list and the bytes of the current buffer
alone or changes them in one visible way. -/

@[simp] theorem tryTakeFreeBuffer_readyList (q : BufferQueue β) :
    q.tryTakeFreeBuffer.2.readyList = q.readyList := by
  unfold tryTakeFreeBuffer
  split <;> rfl

@[simp] theorem tryTakeFreeBuffer_current (q : BufferQueue β) :
    q.tryTakeFreeBuffer.2.current = q.current := by
  unfold tryTakeFreeBuffer
  split <;> rfl

@[simp] theorem countCreated_readyList (q : BufferQueue β) :
    q.countCreated.readyList = q.readyList := rfl

@[simp] theorem countCreated_current (q : BufferQueue β) :
    q.countCreated.current = q.current := rfl

@[simp] theorem releaseBuffer_readyList (q : BufferQueue β)
    (buffer : DataBuffer β) :
    (q.releaseBuffer buffer).readyList = q.readyList := rfl

@[simp] theorem releaseBuffer_current (q : BufferQueue β)
    (buffer : DataBuffer β) :
    (q.releaseBuffer buffer).current = q.current := rfl

@[simp] theorem maybeGrowAdaptive_readyList (q : BufferQueue β) (b : Bool) :
    (q.maybeGrowAdaptive b).readyList = q.readyList := by
  unfold maybeGrowAdaptive
  split_ifs <;> rfl

@[simp] theorem maybeGrowAdaptive_current (q : BufferQueue β) (b : Bool) :
    (q.maybeGrowAdaptive b).current = q.current := by
  unfold maybeGrowAdaptive
  split_ifs <;> rfl

@[simp] theorem recycle_readyList (q : BufferQueue β)
    (buffers : List (DataBuffer β)) :
    (q.recycle buffers).readyList = q.readyList := rfl

@[simp] theorem recycle_current (q : BufferQueue β)
    (buffers : List (DataBuffer β)) :
    (q.recycle buffers).current = q.current := rfl

@[simp] theorem trimFreeBuffersIfIdle_readyList (q : BufferQueue β) :
    q.trimFreeBuffersIfIdle.readyList = q.readyList := rfl

@[simp] theorem trimFreeBuffersIfIdle_current (q : BufferQueue β) :
    q.trimFreeBuffersIfIdle.current = q.current := rfl

theorem enqueueReady_bytes (q : BufferQueue β) (buffer : DataBuffer β) :
    (q.enqueueReady buffer).readyList.flatMap DataBuffer.data =
      q.readyList.flatMap DataBuffer.data ++ buffer.data := by
  unfold enqueueReady
  split
  next hempty =>
    have hdata : buffer.data = [] := by simpa using hempty
    simp [hdata]
  next => simp

@[simp] theorem enqueueReady_current (q : BufferQueue β)
    (buffer : DataBuffer β) : (q.enqueueReady buffer).current = q.current := by
  unfold enqueueReady
  split <;> rfl

@[simp] theorem takeReady_readyList (q : BufferQueue β) :
    q.takeReady.2.readyList = [] := rfl

@[simp] theorem takeReady_current (q : BufferQueue β) :
    q.takeReady.2.current = q.current := rfl

@[simp] theorem appendCurrent_readyList (q : BufferQueue β) (p : List β)
    (time : Nat) (h : q.current.canAppend p.length) :
    (q.appendCurrent p time h).readyList = q.readyList := by
  unfold appendCurrent
  split <;> rfl

@[simp] theorem appendCurrent_data (q : BufferQueue β) (p : List β)
    (time : Nat) (h : q.current.canAppend p.length) :
    (q.appendCurrent p time h).current.data = q.current.data ++ p := by
  unfold appendCurrent
  split <;> rfl

@[simp] theorem setCurrentFirstWriteTime_readyList (q : BufferQueue β)
    (value : Nat) : (q.setCurrentFirstWriteTime value).readyList = q.readyList := by
  unfold setCurrentFirstWriteTime
  split_ifs <;> rfl

@[simp] theorem setCurrentFirstWriteTime_data (q : BufferQueue β)
    (value : Nat) :
    (q.setCurrentFirstWriteTime value).current.data = q.current.data := by
  unfold setCurrentFirstWriteTime
  split_ifs <;> rfl

@[simp] theorem prepareSoftFlushCurrent_readyList (q : BufferQueue β) :
    q.prepareSoftFlushCurrent.2.2.readyList = q.readyList := by
  unfold prepareSoftFlushCurrent
  split_ifs <;> rfl

@[simp] theorem prepareSoftFlushCurrent_data (q : BufferQueue β) :
    q.prepareSoftFlushCurrent.2.2.current.data = q.current.data := by
  unfold prepareSoftFlushCurrent
  split_ifs <;> rfl

/-! ## Member functions, uninterrupted -/

def tryCreateBuffer (q : BufferQueue β) (a : Allocation) :
    Option (DataBuffer β) × BufferQueue β :=
  if q.atBufferLimit then (none, q)
  else (some (a.buffer q.options), q.countCreated)

/-- The replacement that `Append` and the publishing functions look for, with
the flag `allocatedBecauseNoFree`. -/
def takeReplacement (q : BufferQueue β) (a : Allocation) :
    Option (DataBuffer β × Bool) × BufferQueue β :=
  match q.tryTakeFreeBuffer with
  | (some buffer, q') => (some (buffer, false), q')
  | (none, q') =>
      match q'.tryCreateBuffer a with
      | (some buffer, q'') => (some (buffer, true), q'')
      | (none, q'') => (none, q'')

/-- What `Append` reports: its result and `firstData`. -/
structure AppendResult where
  ok : Bool
  firstData : Bool
  deriving DecidableEq

def append (q : BufferQueue β) (p : List β) (firstWriteTime : Nat)
    (a : Allocation) : AppendResult × BufferQueue β :=
  if p.length = 0 then (⟨true, false⟩, q)
  else if h : q.current.canAppend p.length then
    (⟨true, decide (q.current.size = 0)⟩, q.appendCurrent p firstWriteTime h)
  else
    match q.takeReplacement a with
    | (none, q') => (⟨false, false⟩, q')
    | (some (replacement, allocated), q') =>
        if h : q'.current.canAppend p.length then
          (⟨true, decide (q'.current.size = 0)⟩,
            (q'.appendCurrent p firstWriteTime h).releaseBuffer replacement)
        else if h : replacement.reset.canAppend p.length then
          (⟨true, true⟩,
            ((q'.replaceAndAppend replacement.reset p firstWriteTime h)
              |>.maybeGrowAdaptive allocated).enqueueReady q'.current)
        else (⟨false, false⟩, q'.releaseBuffer replacement)

def publishCurrent (q : BufferQueue β) (a : Allocation) :
    Bool × BufferQueue β :=
  match q.takeReplacement a with
  | (none, q') => (false, q')
  | (some (replacement, allocated), q') =>
      if q'.current.size = 0 then (false, q'.releaseBuffer replacement)
      else
        (true,
          ((q'.replaceCurrent replacement).maybeGrowAdaptive allocated)
            |>.enqueueReady q'.current)

/-- `PublishCurrentIfMatches`; `none` is the null pointer. -/
def publishCurrentIfMatches (q : BufferQueue β) (expected : Option Nat)
    (a : Allocation) : Bool × BufferQueue β :=
  if expected = none then (false, q)
  else
    match q.takeReplacement a with
    | (none, q') => (false, q')
    | (some (replacement, allocated), q') =>
        if some q'.current.address ≠ expected ∨ q'.current.size = 0 then
          (false, q'.releaseBuffer replacement)
        else
          (true,
            ((q'.replaceCurrent replacement).maybeGrowAdaptive allocated)
              |>.enqueueReady q'.current)

/-! ## What the member functions do to the bytes -/

/-- All bytes in the queue, oldest first. -/
def bytes (q : BufferQueue β) : List β :=
  q.readyList.flatMap DataBuffer.data ++ q.current.data

/-- `HasCurrentDataFlag` says whether the current buffer holds data. -/
def FlagExact (q : BufferQueue β) : Prop :=
  q.hasCurrentDataFlag = true ↔ q.current.data ≠ []

theorem new_flagExact (options : Options) (a : Allocation) :
    (new options a : BufferQueue β).FlagExact := by
  simp [FlagExact, new, Allocation.buffer]

@[simp] theorem new_bytes (options : Options) (a : Allocation) :
    (new options a : BufferQueue β).bytes = [] := by
  simp [bytes, new, Allocation.buffer]

/-- The search for a replacement leaves the bytes alone. -/
theorem takeReplacement_frame (q : BufferQueue β) (a : Allocation) :
    (q.takeReplacement a).2.readyList = q.readyList ∧
      (q.takeReplacement a).2.current = q.current ∧
      (q.takeReplacement a).2.hasCurrentDataFlag = q.hasCurrentDataFlag := by
  unfold takeReplacement tryTakeFreeBuffer tryCreateBuffer
  cases q.freeList with
  | nil =>
      dsimp only
      split_ifs <;> simp [countCreated]
  | cons buffer rest => simp

theorem takeReplacement_bytes (q : BufferQueue β) (a : Allocation) :
    (q.takeReplacement a).2.bytes = q.bytes := by
  rcases q.takeReplacement_frame a with ⟨hready, hcurrent, -⟩
  rw [BufferQueue.bytes, hready, hcurrent, BufferQueue.bytes]

theorem takeReplacement_flagExact (q : BufferQueue β) (a : Allocation)
    (h : q.FlagExact) : (q.takeReplacement a).2.FlagExact := by
  rcases q.takeReplacement_frame a with ⟨-, hcurrent, hflag⟩
  rw [FlagExact, hflag, hcurrent]
  exact h

theorem maybeGrowAdaptive_flag (q : BufferQueue β) (b : Bool) :
    (q.maybeGrowAdaptive b).hasCurrentDataFlag = q.hasCurrentDataFlag := by
  unfold maybeGrowAdaptive
  split_ifs <;> rfl

theorem enqueueReady_flag (q : BufferQueue β) (buffer : DataBuffer β) :
    (q.enqueueReady buffer).hasCurrentDataFlag = q.hasCurrentDataFlag := by
  unfold enqueueReady
  split <;> rfl

/-- A full current buffer is put on the ready list and a new one takes its
place. -/
theorem exchange_bytes (q : BufferQueue β) {old next : DataBuffer β}
    (grown : Bool) (hnext : q.current = next) :
    ((q.maybeGrowAdaptive grown).enqueueReady old).bytes =
      q.readyList.flatMap DataBuffer.data ++ old.data ++ next.data := by
  rw [bytes, enqueueReady_bytes, maybeGrowAdaptive_readyList,
    enqueueReady_current, maybeGrowAdaptive_current, hnext]

theorem appendCurrent_flag (q : BufferQueue β) (p : List β) (time : Nat)
    (h : q.current.canAppend p.length) (hp : p ≠ [])
    (hflag : q.FlagExact) : (q.appendCurrent p time h).FlagExact := by
  unfold FlagExact
  rw [appendCurrent_data]
  unfold appendCurrent
  split
  next => simp [hp]
  next hne =>
    rw [DataBuffer.size_eq_zero] at hne
    simp [hp, hflag.mpr hne]

theorem appendCurrent_bytes (q : BufferQueue β) (p : List β) (time : Nat)
    (h : q.current.canAppend p.length) :
    (q.appendCurrent p time h).bytes = q.bytes ++ p := by
  rw [bytes, appendCurrent_readyList, appendCurrent_data, bytes,
    List.append_assoc]

/-- What a caller of `Append` relies on. -/
structure AppendSpec (q : BufferQueue β) (p : List β)
    (r : AppendResult × BufferQueue β) : Prop where
  bytes : r.2.bytes = if r.1.ok then q.bytes ++ p else q.bytes
  flagExact : q.FlagExact → r.2.FlagExact
  firstData :
    r.1.ok = true → p ≠ [] → q.current.data = [] → r.1.firstData = true

/-- `Append` adds the whole payload or nothing, and reports the first bytes
of a buffer. -/
theorem append_spec (q : BufferQueue β) (p : List β) (time : Nat)
    (a : Allocation) : q.AppendSpec p (q.append p time a) := by
  have hcurrent := (q.takeReplacement_frame a).2.1
  have hbytes := q.takeReplacement_bytes a
  have hexact := q.takeReplacement_flagExact a
  unfold append
  by_cases hempty : p.length = 0
  · have hp := List.length_eq_zero_iff.mp hempty
    rw [if_pos hempty]
    constructor <;> simp [hp]
  · have hp : p ≠ [] := fun h => hempty (by simp [h])
    rw [if_neg hempty]
    split
    next hfits =>
      exact ⟨by simp [appendCurrent_bytes], appendCurrent_flag q p time hfits hp,
        fun _ _ hcurrent => by simp [DataBuffer.size, hcurrent]⟩
    next =>
      cases htake : q.takeReplacement a with
      | mk found q' =>
          rw [htake] at hcurrent hbytes hexact
          dsimp only at hcurrent hbytes hexact
          cases found with
          | none => exact ⟨by simpa using hbytes, hexact, by simp⟩
          | some replacement =>
              dsimp only
              split
              next hagain =>
                refine ⟨?_, ?_, ?_⟩
                · rw [if_pos rfl, ← hbytes]
                  exact appendCurrent_bytes q' p time hagain
                · intro h
                  exact appendCurrent_flag q' p time hagain hp (hexact h)
                · intro _ _ hdata
                  rw [← hcurrent] at hdata
                  simp [DataBuffer.size, hdata]
              next =>
                split
                next hreplace =>
                  refine ⟨?_, ?_, fun _ _ _ => rfl⟩
                  · rw [if_pos rfl, exchange_bytes _ _ rfl, ← hbytes]
                    simp [replaceAndAppend, BufferQueue.bytes]
                  · intro _
                    rw [FlagExact, enqueueReady_flag, maybeGrowAdaptive_flag,
                      enqueueReady_current, maybeGrowAdaptive_current]
                    simp [replaceAndAppend, hp]
                next => exact ⟨hbytes, hexact, by simp⟩

/-- Whether `Append` finds room for `n` bytes. -/
def accepts (q : BufferQueue β) (n : Nat) (a : Allocation) : Bool :=
  decide (n = 0 ∨ q.current.canAppend n) ||
    (q.takeReplacement a).1.any fun found => decide (n ≤ found.1.capacity)

theorem append_ok (q : BufferQueue β) (p : List β) (time : Nat)
    (a : Allocation) : (q.append p time a).1.ok = q.accepts p.length a := by
  unfold append accepts
  by_cases hempty : p.length = 0
  · rw [if_pos hempty]
    simp [hempty]
  · rw [if_neg hempty]
    by_cases hfits : q.current.canAppend p.length
    · rw [dif_pos hfits]
      simp [hfits]
    · rw [dif_neg hfits]
      have hcurrent := (q.takeReplacement_frame a).2.1
      cases htake : q.takeReplacement a with
      | mk found q' =>
          rw [htake] at hcurrent
          dsimp only at hcurrent
          cases found with
          | none => simp [hempty, hfits]
          | some replacement =>
              have hagain : ¬ q'.current.canAppend p.length := by
                rw [hcurrent]
                exact hfits
              dsimp only
              rw [dif_neg hagain]
              have hnew : replacement.1.reset.canAppend p.length ↔
                  p.length ≤ replacement.1.capacity := by
                simp [DataBuffer.canAppend, DataBuffer.size, DataBuffer.reset]
              by_cases hroom : p.length ≤ replacement.1.capacity
              · rw [dif_pos (hnew.mpr hroom)]
                simp [hroom]
              · rw [dif_neg (fun h => hroom (hnew.mp h))]
                simp [hempty, hfits, hroom]

/-- `PublishCurrent` moves bytes to the ready list or does nothing; when it
has succeeded the current buffer is empty. -/
structure PublishSpec (q : BufferQueue β) (r : Bool × BufferQueue β) :
    Prop where
  bytes : r.2.bytes = q.bytes
  flagExact : q.FlagExact → r.2.FlagExact
  emptied : r.1 = true → r.2.current.data = []
  current : r.1 = false → r.2.current = q.current
  refused : q.current.data = [] → r.1 = false

theorem publishCurrent_spec (q : BufferQueue β) (a : Allocation) :
    q.PublishSpec (q.publishCurrent a) := by
  have hcurrent := (q.takeReplacement_frame a).2.1
  have hbytes := q.takeReplacement_bytes a
  have hexact := q.takeReplacement_flagExact a
  unfold publishCurrent
  cases htake : q.takeReplacement a with
  | mk found q' =>
      rw [htake] at hcurrent hbytes hexact
      dsimp only at hcurrent hbytes hexact
      cases found with
      | none =>
          exact ⟨hbytes, hexact, by simp, fun _ => hcurrent, fun _ => rfl⟩
      | some replacement =>
          dsimp only
          split
          next =>
            exact ⟨hbytes, hexact, by simp, fun _ => hcurrent, fun _ => rfl⟩
          next hne =>
            refine ⟨?_, ?_, ?_, by simp, ?_⟩
            · rw [exchange_bytes _ _ rfl, ← hbytes]
              simp [replaceCurrent, BufferQueue.bytes]
            · intro _
              rw [FlagExact, enqueueReady_flag, maybeGrowAdaptive_flag,
                enqueueReady_current, maybeGrowAdaptive_current]
              simp [replaceCurrent]
            · intro _
              rw [enqueueReady_current, maybeGrowAdaptive_current]
              rfl
            · intro hdata
              rw [← hcurrent] at hdata
              exact absurd (by simp [DataBuffer.size, hdata]) hne

end BufferQueue

end Logme
