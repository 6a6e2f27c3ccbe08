import Logme.BufferQueue

/-!
# The shared cache of data buffers

`FileManager` keeps buffers that no queue needs any more and hands them to the
next queue that asks for one.  The vector is used at its back; what is over a
limit is erased at its front.  `FileManagerFactory` owns the manager and loses
the cache with it.  The statistics counters are left out.
-/

namespace Logme

def QUEUE_BUFFER_SIZE : Nat := 256 * 1024

def MAX_TOTAL_BUFFERS : Nat := 128

/-- The static members of `FileBackend` that the queues and the cache read. -/
structure DataBufferSettings where
  dataBufferSizeDefault : Nat := QUEUE_BUFFER_SIZE
  queueBufferLimitDefault : Nat := MAX_TOTAL_BUFFERS
  dataBufferCacheLimit : Nat := 16
  dataBufferCacheMaxLimit : Nat := 0
  dataBufferCacheRetainOverLimitMs : Nat := 0

structure DataBufferCache (β : Type) where
  buffers : List (DataBuffer β) := []
  overLimitSince : Nat := 0

namespace DataBufferCache

variable {β : Type}

/-- The loop of every trim: `erase(begin())` while more than `limit` buffers
are left. -/
def eraseOldest (c : DataBufferCache β) (limit : Nat) : DataBufferCache β :=
  { c with buffers := c.buffers.drop (c.buffers.length - limit) }

/-- A limit of zero stands for no limit. -/
def trimMaxLimitLocked (c : DataBufferCache β) (cacheMaxLimit : Nat) :
    DataBufferCache β :=
  if cacheMaxLimit = 0 ∨ c.buffers.length ≤ cacheMaxLimit then c
  else c.eraseOldest cacheMaxLimit

/-- The first time over the limit is remembered; the excess is dropped when it
has lasted for `retainOverLimitMs`. -/
def trimOverLimitLocked (c : DataBufferCache β)
    (cacheLimit now retainOverLimitMs : Nat) : DataBufferCache β :=
  if c.buffers.length ≤ cacheLimit then { c with overLimitSince := 0 }
  else if c.overLimitSince = 0 then { c with overLimitSince := now }
  else if retainOverLimitMs ≠ 0 ∧
      fetchSub now c.overLimitSince < retainOverLimitMs then c
  else { c.eraseOldest cacheLimit with overLimitSince := 0 }

/-- The requested capacity is not looked at. -/
def takeDataBuffer (c : DataBufferCache β) (_capacity : Nat)
    (cacheLimit cacheMaxLimit retainOverLimitMs now : Nat) :
    Option (DataBuffer β) × DataBufferCache β :=
  match c.buffers.getLast? with
  | none => (none, c)
  | some buffer =>
      let popped : DataBufferCache β := { c with buffers := c.buffers.dropLast }
      let bounded :=
        if cacheMaxLimit ≠ 0 ∧ cacheMaxLimit < popped.buffers.length then
          popped.trimMaxLimitLocked cacheMaxLimit
        else popped
      (some buffer.reset,
        if cacheLimit < bounded.buffers.length then
          bounded.trimOverLimitLocked cacheLimit now retainOverLimitMs
        else { bounded with overLimitSince := 0 })

/-- What `ReturnDataBuffer` drops before it looks for room. -/
def makeRoom (c : DataBufferCache β)
    (cacheLimit cacheMaxLimit retainOverLimitMs now : Nat) :
    DataBufferCache β :=
  let trimmed :=
    if cacheLimit < c.buffers.length then
      c.trimOverLimitLocked cacheLimit now retainOverLimitMs
    else c
  if cacheMaxLimit ≠ 0 ∧ cacheMaxLimit ≤ trimmed.buffers.length then
    trimmed.trimMaxLimitLocked (cacheMaxLimit - 1)
  else trimmed

def returnDataBuffer (c : DataBufferCache β) (buffer : DataBuffer β)
    (cacheLimit cacheMaxLimit retainOverLimitMs now : Nat) :
    Bool × DataBufferCache β :=
  if cacheLimit = 0 then (false, c)
  else
    let roomy := c.makeRoom cacheLimit cacheMaxLimit retainOverLimitMs now
    if cacheMaxLimit ≠ 0 ∧ cacheMaxLimit ≤ roomy.buffers.length then
      (false, roomy)
    else if retainOverLimitMs = 0 ∧ cacheLimit ≤ roomy.buffers.length then
      (false, roomy)
    else
      let buffers := roomy.buffers ++ [buffer.reset]
      (true,
        { buffers := buffers
          overLimitSince :=
            if cacheLimit < buffers.length then
              if roomy.overLimitSince = 0 then now else roomy.overLimitSince
            else 0 })

def trimDataBufferCache (c : DataBufferCache β) (cacheLimit : Nat) :
    DataBufferCache β :=
  { c.eraseOldest cacheLimit with overLimitSince := 0 }

def clearDataBufferCache (c : DataBufferCache β) : DataBufferCache β :=
  if c.buffers.isEmpty then c else {}

/-! ## What the cache holds -/

theorem mem_eraseOldest {c : DataBufferCache β} {limit : Nat}
    {b : DataBuffer β} (h : b ∈ (c.eraseOldest limit).buffers) :
    b ∈ c.buffers :=
  List.mem_of_mem_drop h

theorem mem_trimMaxLimitLocked {c : DataBufferCache β} {limit : Nat}
    {b : DataBuffer β} (h : b ∈ (c.trimMaxLimitLocked limit).buffers) :
    b ∈ c.buffers := by
  unfold trimMaxLimitLocked at h
  split at h
  · exact h
  · exact mem_eraseOldest h

theorem mem_trimOverLimitLocked {c : DataBufferCache β} {limit now retain : Nat}
    {b : DataBuffer β} (h : b ∈ (c.trimOverLimitLocked limit now retain).buffers) :
    b ∈ c.buffers := by
  unfold trimOverLimitLocked at h
  split_ifs at h
  · exact h
  · exact h
  · exact h
  · exact mem_eraseOldest (c := c) h

/-- Whatever was asked for, the newest buffer is handed out. -/
theorem takeDataBuffer_fst (c : DataBufferCache β)
    (capacity cacheLimit cacheMaxLimit retain now : Nat) :
    (c.takeDataBuffer capacity cacheLimit cacheMaxLimit retain now).1 =
      c.buffers.getLast?.map DataBuffer.reset := by
  unfold takeDataBuffer
  cases c.buffers.getLast? with
  | none => rfl
  | some buffer => rfl

theorem mem_takeDataBuffer {c : DataBufferCache β}
    {capacity cacheLimit cacheMaxLimit retain now : Nat} {b : DataBuffer β}
    (h : b ∈ (c.takeDataBuffer capacity cacheLimit cacheMaxLimit retain
      now).2.buffers) : b ∈ c.buffers := by
  unfold takeDataBuffer at h
  cases hlast : c.buffers.getLast? with
  | none =>
      rw [hlast] at h
      exact h
  | some buffer =>
      rw [hlast] at h
      dsimp only at h
      apply List.dropLast_subset c.buffers
      by_cases hmax : cacheMaxLimit ≠ 0 ∧ cacheMaxLimit < c.buffers.dropLast.length
      · rw [if_pos hmax] at h
        split at h
        · exact mem_trimMaxLimitLocked (mem_trimOverLimitLocked h)
        · exact mem_trimMaxLimitLocked h
      · rw [if_neg hmax] at h
        split at h
        · exact mem_trimOverLimitLocked h
        · exact h

theorem mem_makeRoom {c : DataBufferCache β}
    {cacheLimit cacheMaxLimit retain now : Nat} {b : DataBuffer β}
    (h : b ∈ (c.makeRoom cacheLimit cacheMaxLimit retain now).buffers) :
    b ∈ c.buffers := by
  unfold makeRoom at h
  dsimp only at h
  by_cases hover : cacheLimit < c.buffers.length
  · rw [if_pos hover] at h
    split at h
    · exact mem_trimOverLimitLocked (mem_trimMaxLimitLocked h)
    · exact mem_trimOverLimitLocked h
  · rw [if_neg hover] at h
    split at h
    · exact mem_trimMaxLimitLocked h
    · exact h

theorem mem_returnDataBuffer {c : DataBufferCache β} {buffer b : DataBuffer β}
    {cacheLimit cacheMaxLimit retain now : Nat}
    (h : b ∈ (c.returnDataBuffer buffer cacheLimit cacheMaxLimit retain
      now).2.buffers) : b ∈ c.buffers ∨ b = buffer.reset := by
  unfold returnDataBuffer at h
  dsimp only at h
  split_ifs at h
  · exact .inl h
  · exact .inl (mem_makeRoom h)
  · exact .inl (mem_makeRoom h)
  all_goals
    rcases List.mem_append.mp h with h | h
    · exact .inl (mem_makeRoom h)
    · exact .inr (List.mem_singleton.mp h)

theorem mem_trimDataBufferCache {c : DataBufferCache β} {limit : Nat}
    {b : DataBuffer β} (h : b ∈ (c.trimDataBufferCache limit).buffers) :
    b ∈ c.buffers :=
  mem_eraseOldest (c := c) h

theorem mem_clearDataBufferCache {c : DataBufferCache β} {b : DataBuffer β}
    (h : b ∈ c.clearDataBufferCache.buffers) : b ∈ c.buffers := by
  unfold clearDataBufferCache at h
  split at h
  · exact h
  · exact absurd h List.not_mem_nil

end DataBufferCache
end Logme
