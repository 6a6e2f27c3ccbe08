import Logme.BufferQueueCapacities
import Logme.DataBufferCache

/-!
# File backends that share the buffer cache

Any number of file backends come and go while the process-wide settings change.
The queue of each is the interleaved one; a thread of it that needs a new buffer
asks the cache of the file manager first, and what a queue drops or leaves
behind is offered to that cache.

The cache ignores the capacity it is asked for, so a queue can be handed a
buffer that is smaller than its own `BufferSize` and then drops a record that
would fit.  As long as no such buffer is handed out, `Append` fails for the
stated reasons only.
-/

namespace Logme

open BufferQueue StepSystem

/-- The instance of `FileManagerFactory`. -/
structure CachingManager (β : Type) where
  stopRequested : Bool := false
  cache : DataBufferCache β := {}

/-- `leaving` holds the buffers between a queue that gives them up and the
cache. -/
structure BackendPool (τ β : Type) where
  settings : DataBufferSettings
  fileManager : Option (CachingManager β)
  backends : Nat → Option (System τ β)
  leaving : List (DataBuffer β)

namespace BackendPool

variable {τ β : Type}

inductive PoolAction (τ β : Type) where
  | setDataBufferSizeDefault (size : Nat)
  | setQueueBufferLimitDefault (count : Nat)
  | setDataBufferCacheLimit (count : Nat)
  | setDataBufferCacheMaxLimit (count : Nat)
  | setDataBufferCacheRetainOverLimitMs (ms : Nat)
  | clearDataBufferCache
  | addManager
  | setStopping
  | create (id address now : Nat)
  | queue (id now : Nat) (action : BufferQueue.Action τ β)
  | returnBuffer (index now : Nat)
  | destroy (id : Nat)

/-- A process without backends. -/
def initial (settings : DataBufferSettings) : BackendPool τ β where
  settings := settings
  fileManager := none
  backends := fun _ => none
  leaving := []

def setSettings (p : BackendPool τ β) (settings : DataBufferSettings) :
    BackendPool τ β :=
  { p with settings := settings }

def setBackend (p : BackendPool τ β) (id : Nat) (backend : Option (System τ β)) :
    BackendPool τ β :=
  { p with backends := Function.update p.backends id backend }

def updateCache (p : BackendPool τ β)
    (f : DataBufferCache β → DataBufferCache β) : BackendPool τ β :=
  { p with
    fileManager := p.fileManager.map fun m => { m with cache := f m.cache } }

/-- `FileManagerFactory::Add` with respect to its instance. -/
def addManager (p : BackendPool τ β) : BackendPool τ β :=
  match p.fileManager with
  | none => { p with fileManager := some {} }
  | some m => if m.stopRequested then { p with fileManager := some {} } else p

def takeCachedDataBuffer (p : BackendPool τ β) (capacity now : Nat) :
    Option (DataBuffer β) × BackendPool τ β :=
  if p.settings.dataBufferCacheLimit = 0 then (none, p)
  else
    match p.fileManager with
    | none => (none, p)
    | some m =>
        let taken := m.cache.takeDataBuffer capacity
          p.settings.dataBufferCacheLimit p.settings.dataBufferCacheMaxLimit
          p.settings.dataBufferCacheRetainOverLimitMs now
        (taken.1, p.updateCache fun _ => taken.2)

def returnCachedDataBuffer (p : BackendPool τ β) (buffer : DataBuffer β)
    (now : Nat) : BackendPool τ β :=
  if p.settings.dataBufferCacheLimit = 0 then p
  else
    p.updateCache fun cache =>
      (cache.returnDataBuffer buffer.reset p.settings.dataBufferCacheLimit
        p.settings.dataBufferCacheMaxLimit
        p.settings.dataBufferCacheRetainOverLimitMs now).2

/-- A cached buffer, or a new one at `address`. -/
def allocate (p : BackendPool τ β) (bufferSize address now : Nat) :
    Allocation × BackendPool τ β :=
  match p.takeCachedDataBuffer bufferSize now with
  | (some buffer, p') => (⟨buffer.address, some buffer.capacity⟩, p')
  | (none, p') => (⟨address, none⟩, p')

/-- The options that the constructor of `FileBackend` gives to its queue. -/
def queueOptions (settings : DataBufferSettings) : Options :=
  { bufferSize := settings.dataBufferSizeDefault
    maxTotalBuffers := settings.queueBufferLimitDefault }

/-- The buffers that a step of a queue drops from its free list. -/
def offered (s : System τ β) : BufferQueue.Action τ β → List (DataBuffer β)
  | .step t _ =>
      match s.pc t with
      | .releaseReplacement _ replacement _ =>
          (s.queue.pushFree replacement).decayed
      | .enqueue _ old =>
          if old.size = 0 then (s.queue.pushFree old).decayed else []
      | _ => []
  | .trimFreeBuffersIfIdle => s.queue.decayed
  | _ => []

/-- What the destructor of the queue offers to the cache. -/
def leftBehind (q : BufferQueue β) : List (DataBuffer β) :=
  q.current :: (q.freeList ++ q.readyList)

/-- A thread that creates a buffer gets it from `allocate`; the check of the
limit and the call of the cache are one step, since `TotalBuffers` only falls
between them. -/
def supply (p : BackendPool τ β) (s : System τ β) (now : Nat) :
    BufferQueue.Action τ β → BufferQueue.Action τ β × BackendPool τ β
  | .step t a =>
      if s.creates t then
        let allocation := p.allocate s.queue.options.bufferSize a.address now
        (.step t allocation.1, allocation.2)
      else (.step t a, p)
  | action => (action, p)

/-- The buffer that the cache would hand out. -/
def newestCached (p : BackendPool τ β) : Option (DataBuffer β) :=
  if p.settings.dataBufferCacheLimit = 0 then none
  else p.fileManager.bind fun m => m.cache.buffers.getLast?

section Steps

variable [DecidableEq τ]

/-- Setters store their value and trim the cache; a section of a queue is a step
of its system.  A backend is destroyed when its threads are gone. -/
def step (p : BackendPool τ β) : PoolAction τ β → Option (BackendPool τ β)
  | .setDataBufferSizeDefault size =>
      some (p.setSettings
        { p.settings with
          dataBufferSizeDefault := if size = 0 then QUEUE_BUFFER_SIZE else size })
  | .setQueueBufferLimitDefault count =>
      some (p.setSettings { p.settings with queueBufferLimitDefault := count })
  | .setDataBufferCacheLimit count =>
      some ((p.setSettings { p.settings with dataBufferCacheLimit := count })
        |>.updateCache fun cache => cache.trimDataBufferCache count)
  | .setDataBufferCacheMaxLimit count =>
      some ((p.setSettings { p.settings with dataBufferCacheMaxLimit := count })
        |>.updateCache fun cache => cache.trimMaxLimitLocked count)
  | .setDataBufferCacheRetainOverLimitMs ms =>
      some (p.setSettings
        { p.settings with dataBufferCacheRetainOverLimitMs := ms })
  | .clearDataBufferCache =>
      some (p.updateCache DataBufferCache.clearDataBufferCache)
  | .addManager => some p.addManager
  | .setStopping =>
      some
        { p with
          fileManager := p.fileManager.map fun m => { m with stopRequested := true } }
  | .create id address now =>
      match p.backends id with
      | some _ => none
      | none =>
          let options := queueOptions p.settings
          let allocation := p.allocate options.bufferSize address now
          some (allocation.2.setBackend id
            (some (.initial (.new options allocation.1))))
  | .queue id now action =>
      match p.backends id with
      | none => none
      | some s =>
          let supplied := p.supply s now action
          match s.step supplied.1 with
          | none => none
          | some next =>
              some
                { supplied.2.setBackend id (some next) with
                  leaving := p.leaving ++ offered s action }
  | .returnBuffer index now =>
      match p.leaving[index]? with
      | none => none
      | some buffer =>
          some ({ p with leaving := p.leaving.eraseIdx index }
            |>.returnCachedDataBuffer buffer now)
  | .destroy id =>
      match p.backends id with
      | none => none
      | some s =>
          some
            { p.setBackend id none with
              leaving := p.leaving ++ leftBehind s.queue }

/-- The capacity that the step asks the cache for. -/
def requests (p : BackendPool τ β) : PoolAction τ β → Option Nat
  | .create id _ _ =>
      if (p.backends id).isNone then some (queueOptions p.settings).bufferSize
      else none
  | .queue id _ (.step t _) =>
      match p.backends id with
      | none => none
      | some s =>
          if s.creates t then some s.queue.options.bufferSize else none
  | _ => none

/-- A buffer that comes from the cache is as large as the one asked for. -/
def SuppliesEnough (p : BackendPool τ β) (action : PoolAction τ β) : Prop :=
  ∀ size, p.requests action = some size →
    ∀ buffer, p.newestCached = some buffer → size ≤ buffer.capacity

instance (p : BackendPool τ β) (action : PoolAction τ β) :
    Decidable (p.SuppliesEnough action) :=
  decidable_of_iff
    (((p.requests action).all fun size =>
      p.newestCached.all fun buffer => decide (size ≤ buffer.capacity)) = true)
    (by simp [SuppliesEnough, Option.all_eq_true])

/-- Every failing `Append` has a reason: its record is longer than the
`BufferSize` of the queue, or the queue has all the buffers it may have. -/
def RejectsForReason (p : BackendPool τ β) : Prop :=
  ∀ id now action next s s' t text firstData,
    p.step (.queue id now action) = some next →
      p.backends id = some s → next.backends id = some s' →
        s.Calls action t text → s'.pc t = .idle ⟨false, firstData⟩ →
          s.queue.options.bufferSize < text.length ∨ s.Full

end Steps

/-! ## What comes from the cache -/

@[simp] theorem updateCache_backends (p : BackendPool τ β)
    (f : DataBufferCache β → DataBufferCache β) :
    (p.updateCache f).backends = p.backends := rfl

@[simp] theorem addManager_backends (p : BackendPool τ β) :
    p.addManager.backends = p.backends := by
  unfold addManager
  cases p.fileManager with
  | none => rfl
  | some m =>
      dsimp only
      split <;> rfl

theorem takeCachedDataBuffer_fst (p : BackendPool τ β) (capacity now : Nat) :
    (p.takeCachedDataBuffer capacity now).1 =
      p.newestCached.map DataBuffer.reset := by
  unfold takeCachedDataBuffer newestCached
  by_cases hlimit : p.settings.dataBufferCacheLimit = 0
  · simp [hlimit]
  · rw [if_neg hlimit, if_neg hlimit]
    cases p.fileManager with
    | none => rfl
    | some m => exact DataBufferCache.takeDataBuffer_fst _ _ _ _ _ _

@[simp] theorem takeCachedDataBuffer_backends (p : BackendPool τ β)
    (capacity now : Nat) :
    (p.takeCachedDataBuffer capacity now).2.backends = p.backends := by
  unfold takeCachedDataBuffer
  split
  · rfl
  · cases p.fileManager <;> rfl

@[simp] theorem returnCachedDataBuffer_backends (p : BackendPool τ β)
    (buffer : DataBuffer β) (now : Nat) :
    (p.returnCachedDataBuffer buffer now).backends = p.backends := by
  unfold returnCachedDataBuffer
  split <;> rfl

/-- The capacity of an allocation is that of the newest cached buffer, or what
was asked for. -/
theorem allocate_capacity (p : BackendPool τ β) (bufferSize address now : Nat) :
    (p.allocate bufferSize address now).1.cachedCapacity =
      p.newestCached.map DataBuffer.capacity := by
  have hfst := p.takeCachedDataBuffer_fst bufferSize now
  unfold allocate
  cases htake : p.takeCachedDataBuffer bufferSize now with
  | mk found p' =>
      rw [htake] at hfst
      dsimp only at hfst
      subst hfst
      cases p.newestCached with
      | none => rfl
      | some buffer => rfl

@[simp] theorem allocate_backends (p : BackendPool τ β)
    (bufferSize address now : Nat) :
    (p.allocate bufferSize address now).2.backends = p.backends := by
  have hbackends := p.takeCachedDataBuffer_backends bufferSize now
  unfold allocate
  cases htake : p.takeCachedDataBuffer bufferSize now with
  | mk found p' =>
      rw [htake] at hbackends
      cases found with
      | none => exact hbackends
      | some buffer => exact hbackends

theorem supply_backends (p : BackendPool τ β) (s : System τ β) (now : Nat)
    (action : BufferQueue.Action τ β) :
    (p.supply s now action).2.backends = p.backends := by
  cases action with
  | step t a =>
      simp only [supply]
      split
      · exact allocate_backends _ _ _ _
      · rfl
  | _ => rfl

section Runs

variable [DecidableEq τ]

/-- What a step does to one backend. -/
inductive Touches (p : BackendPool τ β) (id : Nat) (s' : System τ β) :
    PoolAction τ β → Prop
  | nothing {action : PoolAction τ β}
      (other : ∀ now act, action ≠ .queue id now act)
      (same : p.backends id = some s') : Touches p id s' action
  | created {address now : Nat} (fresh : p.backends id = none)
      (starts : s' = .initial (.new (queueOptions p.settings)
        (p.allocate (queueOptions p.settings).bufferSize address now).1)) :
      Touches p id s' (.create id address now)
  | stepped {now : Nat} {action : BufferQueue.Action τ β} {s : System τ β}
      (lives : p.backends id = some s)
      (steps : s.Steps (p.supply s now action).1 s') :
      Touches p id s' (.queue id now action)

theorem step_touches {p next : BackendPool τ β} {action : PoolAction τ β}
    {id : Nat} {s' : System τ β} (hstep : p.step action = some next)
    (hs' : next.backends id = some s') : p.Touches id s' action := by
  cases action with
  | create id' address now =>
      simp only [step] at hstep
      cases hfresh : p.backends id' with
      | some s => simp [hfresh] at hstep
      | none =>
          simp only [hfresh, Option.some.injEq] at hstep
          subst next
          simp only [setBackend, allocate_backends, Function.update_apply] at hs'
          split at hs'
          next hid =>
            subst hid
            cases hs'
            exact .created hfresh rfl
          next => exact .nothing nofun hs'
  | queue id' now action =>
      simp only [step] at hstep
      cases hlives : p.backends id' with
      | none => simp [hlives] at hstep
      | some s =>
          simp only [hlives] at hstep
          cases hqueue : s.step (p.supply s now action).1 with
          | none => simp [hqueue] at hstep
          | some s'' =>
              simp only [hqueue, Option.some.injEq] at hstep
              subst next
              simp only [setBackend, supply_backends, Function.update_apply] at hs'
              split at hs'
              next hid =>
                subst hid
                cases hs'
                exact .stepped hlives (System.step_steps hqueue)
              next hid =>
                refine .nothing (fun now' act h => hid ?_) hs'
                cases h
                rfl
  | destroy id' =>
      simp only [step] at hstep
      cases hlives : p.backends id' with
      | none => simp [hlives] at hstep
      | some s =>
          simp only [hlives, Option.some.injEq] at hstep
          subst next
          simp only [setBackend, Function.update_apply] at hs'
          split at hs'
          · cases hs'
          · exact .nothing nofun hs'
  | returnBuffer index now =>
      simp only [step] at hstep
      cases hleaving : p.leaving[index]? with
      | none => simp [hleaving] at hstep
      | some buffer =>
          simp only [hleaving, Option.some.injEq] at hstep
          subst next
          rw [returnCachedDataBuffer_backends] at hs'
          exact .nothing nofun hs'
  | addManager =>
      simp only [step, Option.some.injEq] at hstep
      subst next
      rw [addManager_backends] at hs'
      exact .nothing nofun hs'
  | _ =>
      simp only [step, Option.some.injEq] at hstep
      subst next
      exact .nothing nofun hs'

/-! ## Runs -/

omit [DecidableEq τ] in
theorem supply_calls {p : BackendPool τ β} {s : System τ β} {now : Nat}
    {action : BufferQueue.Action τ β} {t : τ} {text : List β}
    (h : s.Calls action t text) : s.Calls (p.supply s now action).1 t text := by
  obtain ⟨time, hstart | hinside⟩ := h
  · subst hstart
    exact ⟨time, .inl rfl⟩
  · exact ⟨time, .inr hinside⟩

/-- Where the counters of a backend agree with its buffers, they go on to. -/
theorem step_accounts {p next : BackendPool τ β} {action : PoolAction τ β}
    (hstep : p.step action = some next)
    (h : ∀ id s, p.backends id = some s → s.Accounts) :
    ∀ id s, next.backends id = some s → s.Accounts := by
  intro id s' hs'
  cases step_touches hstep hs' with
  | nothing other same => exact h id s' same
  | created fresh starts =>
      rw [starts]
      exact System.initial_accounts _ _
  | stepped lives steps => exact steps.accounts (h id _ lives)

theorem run_accounts {ok : BackendPool τ β → PoolAction τ β → Prop}
    {settings : DataBufferSettings} {p : BackendPool τ β}
    (hrun : Run step ok (initial settings) p) :
    ∀ id s, p.backends id = some s → s.Accounts := by
  apply hrun.invariant (I := fun p => ∀ id s, p.backends id = some s → s.Accounts)
  · intro p action next hp _ hstep
    exact step_accounts hstep hp
  · exact nofun

omit [DecidableEq τ] in
/-- The capacity of what `allocate` returns for a step that supplies enough. -/
theorem allocate_enough {p : BackendPool τ β} {size address now : Nat}
    (h : ∀ buffer, p.newestCached = some buffer → size ≤ buffer.capacity) :
    size ≤ ((p.allocate size address now).1.cachedCapacity).getD size := by
  rw [allocate_capacity]
  cases hnewest : p.newestCached with
  | none => exact Nat.le_refl _
  | some buffer => exact h buffer hnewest

/-- No buffer of the queue is smaller than its `BufferSize`. -/
def Roomy (s : System τ β) : Prop :=
  s.Sized (s.queue.options.bufferSize ≤ ·)

theorem step_roomy {p next : BackendPool τ β} {action : PoolAction τ β}
    (hstep : p.step action = some next) (hok : p.SuppliesEnough action)
    (h : ∀ id s, p.backends id = some s → Roomy s) :
    ∀ id s, next.backends id = some s → Roomy s := by
  intro id s' hs'
  cases step_touches hstep hs' with
  | nothing other same => exact h id s' same
  | created fresh starts =>
      rw [starts]
      have henough := hok (queueOptions p.settings).bufferSize (by simp [requests, fresh])
      exact System.initial_sized (allocate_enough henough)
  | @stepped now action s lives steps =>
      unfold Roomy
      rw [steps.options]
      refine steps.sized (h id s lives) ?_
      rintro t a haction hcreates
      cases action with
      | step u b =>
          simp only [supply] at haction
          split at haction
          next hu =>
            cases haction
            apply allocate_enough
            exact hok _ (by simp [requests, lives, hu])
          next hu =>
            cases haction
            exact absurd hcreates hu
      | _ => cases haction

theorem run_roomy {settings : DataBufferSettings} {p : BackendPool τ β}
    (hrun : Run step SuppliesEnough (initial settings) p) :
    ∀ id s, p.backends id = some s → Roomy s := by
  apply hrun.invariant (I := fun p => ∀ id s, p.backends id = some s → Roomy s)
  · intro p action next hp hok hstep
    exact step_roomy hstep hok hp
  · exact nofun

/-! ## A smaller buffer is handed out -/

/-- The step answers `false` for a record that fits, in a queue with room. -/
private def dropsFittingRecord (p : BackendPool Unit UInt8) (id now : Nat) : Bool :=
  match p.backends id, p.step (.queue id now (.step () ⟨0, none⟩)) with
  | some s, some next =>
      match s.pc (), next.backends id with
      | .releaseReplacement (.append text _) _ _, some s' =>
          match s'.pc () with
          | .idle ⟨false, _⟩ =>
              decide (text.length ≤ s.queue.options.bufferSize) &&
                !s.queue.atBufferLimit
          | _ => false
      | _, _ => false
  | _, _ => false

private theorem not_reason_of_drops {p : BackendPool Unit UInt8} {id now : Nat}
    (hdrops : dropsFittingRecord p id now = true)
    (haccounts : ∀ id s, p.backends id = some s → s.Accounts) :
    ¬ p.RejectsForReason := by
  intro hreason
  unfold dropsFittingRecord at hdrops
  split at hdrops
  next s next hs hstep =>
    split at hdrops
    next text time replacement result s' hpc hs' =>
      split at hdrops
      next firstData hfails =>
        simp only [Bool.and_eq_true, decide_eq_true_eq, Bool.not_eq_true'] at hdrops
        have hcalls : s.Calls (.step () ⟨0, none⟩) () text :=
          ⟨time, .inr (by rw [hpc]; rfl)⟩
        rcases hreason id now _ next s s' () text firstData hstep hs hs' hcalls hfails
          with hlong | hfull
        · exact absurd hdrops.1 (Nat.not_le_of_lt hlong)
        · have hlimit := System.atBufferLimit_of_full (haccounts id s hs) hfull
          rw [hdrops.2] at hlimit
          contradiction
      next => contradiction
    next => contradiction
  next => contradiction

/-- Two backends with buffers of `small` bytes are created and destroyed; their
buffers go to the cache. -/
private def fillCache (small : Nat) : List (PoolAction Unit UInt8) :=
  [.addManager, .setDataBufferSizeDefault small, .create 0 100 0, .create 1 101 0,
    .destroy 0, .destroy 1, .returnBuffer 0 0, .returnBuffer 0 0]

/-- A third backend with buffers of `size` bytes appends `text`, up to the last
section of `Append`. -/
private def appendAlone (size : Nat) (text : List UInt8) (sections : Nat) :
    List (PoolAction Unit UInt8) :=
  [.setDataBufferSizeDefault size, .create 2 102 0, .queue 2 0 (.lockData ()),
    .queue 2 0 (.start () (.append text 1000))] ++
    List.replicate sections (.queue 2 0 (.step () ⟨103, none⟩))

/-- Six bytes are dropped by a queue whose `BufferSize` is eight. -/
theorem append_drops_fitting_record :
    ¬ ∀ (settings : DataBufferSettings) (p : BackendPool Unit UInt8),
      Reachable step (initial settings) p → p.RejectsForReason := by
  intro hall
  obtain ⟨p, hreach, hdrops⟩ :
      ∃ p : BackendPool Unit UInt8, Reachable step (initial {}) p ∧
        dropsFittingRecord p 2 0 = true :=
    exists_reachable_of_exec _ _
      (fillCache 4 ++ appendAlone 8 [0x61, 0x62, 0x63, 0x64, 0x65, 0x66] 4) _
      (by decide)
  exact not_reason_of_drops hdrops (run_accounts hreach) (hall {} p hreach)

/-! ## No smaller buffer is handed out -/

theorem rejectsForReason_of_roomy {p : BackendPool τ β}
    (hroomy : ∀ id s, p.backends id = some s → Roomy s)
    (haccounts : ∀ id s, p.backends id = some s → s.Accounts) :
    p.RejectsForReason := by
  intro id now action next s s' t text firstData hstep hs hs' hcalls hfails
  cases step_touches hstep hs' with
  | nothing other same => exact absurd rfl (other _ _)
  | stepped lives steps =>
      rw [hs] at lives
      cases lives
      rcases steps.rejects (hroomy id s hs) (haccounts id s hs) (supply_calls hcalls)
        hfails with hfull | ⟨capacity, hroom, hlong⟩
      · exact .inr hfull
      · exact .inl (Nat.lt_of_le_of_lt hroom hlong)

/-- As long as no smaller buffer comes from the cache, a record is dropped for
its length or for want of buffers only. -/
theorem append_rejects_for_reason (settings : DataBufferSettings)
    (p : BackendPool τ β) (hrun : Run step SuppliesEnough (initial settings) p) :
    p.RejectsForReason :=
  rejectsForReason_of_roomy (run_roomy hrun) (run_accounts hrun)

theorem append_rejects_for_reason_recycled :
    ∃ p : BackendPool Unit UInt8, Run step SuppliesEnough (initial {}) p ∧
      ((p.backends 2).any fun s => s.queue.current.address == 101) = true ∧
      p.RejectsForReason := by
  obtain ⟨p, hrun, hrecycled⟩ :
      ∃ p : BackendPool Unit UInt8, Run step SuppliesEnough (initial {}) p ∧
        ((p.backends 2).any fun s => s.queue.current.address == 101) = true :=
    exists_run_of_exec _ _ _
      (fillCache 4 ++ appendAlone 4 [0x61, 0x62, 0x63, 0x64, 0x65, 0x66] 4) _
      (by decide)
  exact ⟨p, hrun, hrecycled, append_rejects_for_reason {} p hrun⟩

end Runs

/-! ## One default size -/

/-- `DataBufferSizeDefault` is left as it is. -/
def KeepsSize (_ : BackendPool τ β) (action : PoolAction τ β) : Prop :=
  ∀ size, action ≠ .setDataBufferSizeDefault size

instance (p : BackendPool τ β) (action : PoolAction τ β) : Decidable (p.KeepsSize action) :=
  decidable_of_iff ((match action with
    | .setDataBufferSizeDefault _ => false
    | _ => true) = true) (by cases action <;> simp [KeepsSize])

/-- All buffers of the process have one size. -/
structure OneSize (size : Nat) (p : BackendPool τ β) : Prop where
  default : p.settings.dataBufferSizeDefault = size
  sized : ∀ id s, p.backends id = some s → s.Sized (· = size)
  asks : ∀ id s, p.backends id = some s → s.queue.options.bufferSize = size
  cached : ∀ m, p.fileManager = some m → ∀ b ∈ m.cache.buffers, b.capacity = size
  leaving : ∀ b ∈ p.leaving, b.capacity = size

variable {size : Nat} {p : BackendPool τ β}

theorem initial_oneSize (settings : DataBufferSettings) :
    OneSize settings.dataBufferSizeDefault (initial settings : BackendPool τ β) :=
  ⟨rfl, nofun, nofun, nofun, fun _ hb => absurd hb List.not_mem_nil⟩

theorem OneSize.newest (h : p.OneSize size) {buffer : DataBuffer β}
    (hnewest : p.newestCached = some buffer) : buffer.capacity = size := by
  unfold newestCached at hnewest
  split at hnewest
  · cases hnewest
  · obtain ⟨m, hm, hlast⟩ := Option.bind_eq_some_iff.mp hnewest
    exact h.cached m hm buffer (List.mem_of_getLast? hlast)

theorem OneSize.suppliesEnough (h : p.OneSize size) (action : PoolAction τ β) :
    p.SuppliesEnough action := by
  intro n hn buffer hbuffer
  rw [h.newest hbuffer]
  cases action with
  | create id address now =>
      simp only [requests] at hn
      split at hn
      · cases hn
        exact Nat.le_of_eq h.default
      · cases hn
  | queue id now action =>
      cases action with
      | step t a =>
          simp only [requests] at hn
          cases hs : p.backends id with
          | none => simp [hs] at hn
          | some s =>
              simp only [hs] at hn
              split at hn
              · cases hn
                exact Nat.le_of_eq (h.asks id s hs)
              · cases hn
      | _ => cases hn
  | _ => cases hn

theorem OneSize.setSettings (h : p.OneSize size) {settings : DataBufferSettings}
    (hsettings : settings.dataBufferSizeDefault = size) :
    (p.setSettings settings).OneSize size :=
  ⟨hsettings, h.sized, h.asks, h.cached, h.leaving⟩

theorem OneSize.updateCache (h : p.OneSize size)
    {f : DataBufferCache β → DataBufferCache β}
    (hf : ∀ m, p.fileManager = some m → ∀ b ∈ (f m.cache).buffers, b.capacity = size) :
    (p.updateCache f).OneSize size := by
  refine ⟨h.default, h.sized, h.asks, ?_, h.leaving⟩
  intro m hm
  obtain ⟨m', hm', rfl⟩ := Option.map_eq_some_iff.mp hm
  exact hf m' hm'

theorem OneSize.take (h : p.OneSize size) (capacity now : Nat) :
    (p.takeCachedDataBuffer capacity now).2.OneSize size := by
  unfold takeCachedDataBuffer
  split
  · exact h
  · cases hm : p.fileManager with
    | none => exact h
    | some m =>
        dsimp only
        exact h.updateCache fun _ _ b hb =>
          h.cached m hm b (DataBufferCache.mem_takeDataBuffer hb)

theorem OneSize.allocate (h : p.OneSize size) (bufferSize address now : Nat) :
    (p.allocate bufferSize address now).2.OneSize size := by
  have htake := h.take bufferSize now
  unfold BackendPool.allocate
  cases hfound : p.takeCachedDataBuffer bufferSize now with
  | mk found p' =>
      rw [hfound] at htake
      cases found with
      | none => exact htake
      | some buffer => exact htake

theorem OneSize.allocated (h : p.OneSize size) (address now : Nat) :
    (p.allocate size address now).1.cachedCapacity.getD size = size := by
  rw [allocate_capacity]
  cases hnewest : p.newestCached with
  | none => rfl
  | some buffer => exact h.newest hnewest

theorem OneSize.returned (h : p.OneSize size) {buffer : DataBuffer β}
    (hbuffer : buffer.capacity = size) (now : Nat) :
    (p.returnCachedDataBuffer buffer now).OneSize size := by
  unfold returnCachedDataBuffer
  split
  · exact h
  · refine h.updateCache fun m hm b hb => ?_
    rcases DataBufferCache.mem_returnDataBuffer hb with hb | rfl
    · exact h.cached m hm b hb
    · exact hbuffer

theorem OneSize.setBackend (h : p.OneSize size) (id : Nat) {s : System τ β}
    (hs : s.Sized (· = size)) (hasks : s.queue.options.bufferSize = size) :
    (p.setBackend id (some s)).OneSize size := by
  refine ⟨h.default, ?_, ?_, h.cached, h.leaving⟩
  · intro id' s' hs'
    simp only [BackendPool.setBackend, Function.update_apply] at hs'
    split at hs'
    · cases hs'
      exact hs
    · exact h.sized id' s' hs'
  · intro id' s' hs'
    simp only [BackendPool.setBackend, Function.update_apply] at hs'
    split at hs'
    · cases hs'
      exact hasks
    · exact h.asks id' s' hs'

theorem offered_capacity {s : System τ β} {P : Nat → Prop} (hs : s.Sized P)
    (action : BufferQueue.Action τ β) : ∀ b ∈ offered s action, P b.capacity := by
  have hdecayed : ∀ {q : BufferQueue β}, q.Sized P → ∀ b ∈ q.decayed, P b.capacity :=
    fun hq b hb => hq.free b (List.mem_of_mem_take hb)
  intro b hb
  cases action with
  | step t a =>
      have hthread := hs.threads t
      simp only [offered] at hb
      cases hpc : s.pc t with
      | releaseReplacement op replacement result =>
          rw [hpc] at hb hthread
          exact hdecayed (hs.queue.pushFree hthread.1) b hb
      | enqueue op old =>
          rw [hpc] at hb hthread
          dsimp only at hb
          split at hb
          · exact hdecayed (hs.queue.pushFree hthread) b hb
          · exact absurd hb List.not_mem_nil
      | _ =>
          rw [hpc] at hb
          exact absurd hb List.not_mem_nil
  | trimFreeBuffersIfIdle => exact hdecayed hs.queue b hb
  | _ => exact absurd hb List.not_mem_nil

theorem leftBehind_capacity {q : BufferQueue β} {P : Nat → Prop} (hq : q.Sized P) :
    ∀ b ∈ leftBehind q, P b.capacity := by
  intro b hb
  rcases List.mem_cons.mp hb with rfl | hb
  · exact hq.current
  · rcases List.mem_append.mp hb with hb | hb
    · exact hq.free b hb
    · exact hq.ready b hb

theorem OneSize.leave (h : p.OneSize size) {buffers : List (DataBuffer β)}
    (hbuffers : ∀ b ∈ buffers, b.capacity = size) :
    OneSize size { p with leaving := p.leaving ++ buffers } := by
  refine ⟨h.default, h.sized, h.asks, h.cached, ?_⟩
  intro b hb
  rcases List.mem_append.mp hb with hb | hb
  · exact h.leaving b hb
  · exact hbuffers b hb

theorem OneSize.supply (h : p.OneSize size) (s : System τ β) (now : Nat)
    (action : BufferQueue.Action τ β) : (p.supply s now action).2.OneSize size := by
  cases action with
  | step t a =>
      simp only [BackendPool.supply]
      split
      · exact h.allocate _ _ _
      · exact h
  | _ => exact h

section OneDefault

variable [DecidableEq τ]

theorem OneSize.queue (h : p.OneSize size) {id now : Nat} {s next : System τ β}
    {action : BufferQueue.Action τ β} (hs : p.backends id = some s)
    (hstep : s.step (p.supply s now action).1 = some next) :
    next.Sized (· = size) ∧ next.queue.options.bufferSize = size := by
  have hsteps := System.step_steps hstep
  refine ⟨hsteps.sized (h.sized id s hs) ?_, ?_⟩
  · rintro t a haction hcreates
    cases action with
    | step u b =>
        simp only [BackendPool.supply] at haction
        split at haction
        next hu =>
          cases haction
          rw [h.asks id s hs]
          exact h.allocated _ _
        next hu =>
          cases haction
          exact absurd hcreates hu
    | _ => cases haction
  · rw [hsteps.options]
    exact h.asks id s hs

theorem OneSize.step {next : BackendPool τ β} {action : PoolAction τ β}
    (h : p.OneSize size) (hkeeps : p.KeepsSize action)
    (hstep : p.step action = some next) : next.OneSize size := by
  cases action with
  | setDataBufferSizeDefault n => exact absurd rfl (hkeeps n)
  | setQueueBufferLimitDefault count =>
      cases hstep
      exact h.setSettings h.default
  | setDataBufferCacheLimit count =>
      cases hstep
      have hset : OneSize size
          (p.setSettings { p.settings with dataBufferCacheLimit := count }) :=
        h.setSettings h.default
      exact hset.updateCache fun m hm b hb =>
        h.cached m hm b (DataBufferCache.mem_trimDataBufferCache hb)
  | setDataBufferCacheMaxLimit count =>
      cases hstep
      have hset : OneSize size
          (p.setSettings { p.settings with dataBufferCacheMaxLimit := count }) :=
        h.setSettings h.default
      exact hset.updateCache fun m hm b hb =>
        h.cached m hm b (DataBufferCache.mem_trimMaxLimitLocked hb)
  | setDataBufferCacheRetainOverLimitMs ms =>
      cases hstep
      exact h.setSettings h.default
  | clearDataBufferCache =>
      cases hstep
      apply h.updateCache
      exact fun m hm b hb => h.cached m hm b (DataBufferCache.mem_clearDataBufferCache hb)
  | addManager =>
      cases hstep
      have hfresh : OneSize size { p with fileManager := some {} } := by
        refine ⟨h.default, h.sized, h.asks, ?_, h.leaving⟩
        intro m hm b hb
        cases hm
        exact absurd hb List.not_mem_nil
      unfold BackendPool.addManager
      split
      · exact hfresh
      · split
        · exact hfresh
        · exact h
  | setStopping =>
      cases hstep
      refine ⟨h.default, h.sized, h.asks, ?_, h.leaving⟩
      intro m hm
      obtain ⟨m', hm', rfl⟩ := Option.map_eq_some_iff.mp hm
      exact h.cached m' hm'
  | create id address now =>
      simp only [BackendPool.step] at hstep
      cases hfresh : p.backends id with
      | some s => simp [hfresh] at hstep
      | none =>
          simp only [hfresh, Option.some.injEq] at hstep
          subst next
          refine (h.allocate _ _ _).setBackend id (System.initial_sized ?_) h.default
          have hbufferSize : (queueOptions p.settings).bufferSize = size := h.default
          rw [hbufferSize]
          exact h.allocated _ _
  | queue id now action =>
      simp only [BackendPool.step] at hstep
      cases hs : p.backends id with
      | none => simp [hs] at hstep
      | some s =>
          simp only [hs] at hstep
          cases hqueue : s.step (p.supply s now action).1 with
          | none => simp [hqueue] at hstep
          | some s' =>
              simp only [hqueue, Option.some.injEq] at hstep
              subst next
              obtain ⟨hsized, hasks⟩ := h.queue hs hqueue
              have hset := (h.supply s now action).setBackend id hsized hasks
              refine ⟨hset.default, hset.sized, hset.asks, hset.cached, ?_⟩
              exact (h.leave (offered_capacity (h.sized id s hs) action)).leaving
  | returnBuffer index now =>
      simp only [BackendPool.step] at hstep
      cases hleaving : p.leaving[index]? with
      | none => simp [hleaving] at hstep
      | some buffer =>
          simp only [hleaving, Option.some.injEq] at hstep
          subst next
          apply OneSize.returned _ (h.leaving _ (List.mem_of_getElem? hleaving))
          refine ⟨h.default, h.sized, h.asks, h.cached, ?_⟩
          exact fun b hb => h.leaving b (List.mem_of_mem_eraseIdx hb)
  | destroy id =>
      simp only [BackendPool.step] at hstep
      cases hs : p.backends id with
      | none => simp [hs] at hstep
      | some s =>
          simp only [hs, Option.some.injEq] at hstep
          subst next
          have hleave := (h.leave (leftBehind_capacity (h.sized id s hs).queue)).leaving
          refine ⟨h.default, ?_, ?_, h.cached, hleave⟩
          · intro id' s' hs'
            simp only [BackendPool.setBackend, Function.update_apply] at hs'
            split at hs'
            · cases hs'
            · exact h.sized id' s' hs'
          · intro id' s' hs'
            simp only [BackendPool.setBackend, Function.update_apply] at hs'
            split at hs'
            · cases hs'
            · exact h.asks id' s' hs'

/-- In a process that never changes the default size every buffer in the cache
is large enough. -/
theorem run_suppliesEnough {settings : DataBufferSettings}
    (hrun : Run BackendPool.step KeepsSize (initial settings) p) :
    Run BackendPool.step SuppliesEnough (initial settings) p := by
  refine (hrun.simulate id (OneSize settings.dataBufferSizeDefault) ?_
    (initial_oneSize settings)).2
  intro p action next hp hkeeps hstep
  exact ⟨hp.step hkeeps hstep, .single (hp.suppliesEnough action) hstep⟩

end OneDefault

end BackendPool
end Logme
