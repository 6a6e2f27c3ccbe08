import Logme.BufferQueueAccounting
import Logme.RotationRuns

/-!
# What `OnShutdown` leaves

The loop of `OnShutdown` writes what is ready and publishes the current buffer
until nothing is queued.  Publishing needs a buffer to put in place of the
current one; a queue whose limit is one buffer never has it, and the loop is
left with the bytes still queued.

The device below records what is handed to the file.  It stands for one
without I/O failures: what `WriteAll` is given is written, and the size policy
never refuses a batch.
-/

namespace Logme

open StepSystem

/-- The device with a record of the bytes written. -/
def recorded {φ : Type} (dev : FileDevice φ) : FileDevice (φ × List UInt8) where
  isOpen := fun io => dev.isOpen io.1
  rotateIfDue := fun io =>
    let r := dev.rotateIfDue io.1
    (r.1, (r.2, io.2))
  applySizeLimit := fun io n =>
    let r := dev.applySizeLimit io.1 n
    (r.1, (r.2, io.2))
  writeAll := fun io text =>
    let r := dev.writeAll io.1 text
    (r.1, (r.2, io.2 ++ text))

/-- The size policy never refuses. -/
def NeverRefuses {φ : Type} (dev : FileDevice φ) : Prop :=
  ∀ io n, (dev.applySizeLimit io n).1 = true

/-- Everything in `bytes` has been written behind what was. -/
def Records {φ : Type} (io io' : φ × List UInt8) (bytes : List UInt8) : Prop :=
  io'.2 = io.2 ++ bytes

namespace FileBackend

variable {φ : Type} {dev : FileDevice φ}

theorem WritesAll.records {io io' : φ × List UInt8} {bytes : List UInt8}
    (h : WritesAll (recorded dev) io io' bytes) : Records io io' bytes := by
  induction h with
  | done => exact (List.append_nil _).symm
  | write before more ih =>
      unfold Records at ih ⊢
      rw [← List.append_assoc, ← ih]
      rfl

theorem recorded_moves (hdev : NeverRefuses dev) :
    MovesBytes (recorded dev) (Records (φ := φ)) where
  refl := fun _ => (List.append_nil _).symm
  trans := fun _ _ _ _ _ hfirst hsecond => by
    unfold Records at hfirst hsecond ⊢
    rw [hsecond, hfirst, List.append_assoc]
  refused := fun io bytes h => by
    have htrue := hdev io.1 bytes.length
    simp only [recorded] at h
    rw [h] at htrue
    cases htrue
  written := fun _ _ _ _ hwrites => hwrites.records

/-! ## The counters of the queue -/

/-- The buffers of the queue are counted, as are its bytes. -/
structure Keeps (b b' : FileBackend φ) : Prop where
  options : b'.queue.options = b.queue.options
  buffers : BufferQueue.Accounted False b.queue 0 → BufferQueue.Accounted False b'.queue 0
  counted : b.Accounted → b'.Accounted

theorem Keeps.refl (b : FileBackend φ) : Keeps b b := ⟨rfl, id, id⟩

theorem Keeps.trans {b b' b'' : FileBackend φ} (hfirst : Keeps b b')
    (hsecond : Keeps b' b'') : Keeps b b'' :=
  ⟨hsecond.options.trans hfirst.options, fun h => hsecond.buffers (hfirst.buffers h),
    fun h => hsecond.counted (hfirst.counted h)⟩

end FileBackend

namespace BufferQueue

variable {β : Type}

theorem takeReplacement_options (q : BufferQueue β) (a : Allocation) :
    (q.takeReplacement a).2.options = q.options := by
  unfold takeReplacement tryTakeFreeBuffer tryCreateBuffer
  cases q.freeList with
  | nil =>
      dsimp only
      split_ifs <;> rfl
  | cons buffer rest => rfl

theorem maybeGrowAdaptive_options (q : BufferQueue β) (grown : Bool) :
    (q.maybeGrowAdaptive grown).options = q.options := by
  unfold maybeGrowAdaptive
  split_ifs <;> rfl

theorem enqueueReady_options (q : BufferQueue β) (buffer : DataBuffer β) :
    (q.enqueueReady buffer).options = q.options := by
  unfold enqueueReady
  split <;> rfl

theorem appendCurrent_options (q : BufferQueue β) (p : List β) (time : Nat)
    (h : q.current.canAppend p.length) :
    (q.appendCurrent p time h).options = q.options := by
  unfold appendCurrent
  split <;> rfl

theorem setCurrentFirstWriteTime_options (q : BufferQueue β) (value : Nat) :
    (q.setCurrentFirstWriteTime value).options = q.options := by
  unfold setCurrentFirstWriteTime
  split_ifs <;> rfl

theorem append_options (q : BufferQueue β) (p : List β) (time : Nat) (a : Allocation) :
    (q.append p time a).2.options = q.options := by
  have htake := q.takeReplacement_options a
  unfold append
  split
  next => rfl
  next =>
    split
    next h => exact q.appendCurrent_options p time h
    next =>
      split
      next hfound =>
        rw [hfound] at htake
        exact htake
      next hfound =>
        rw [hfound] at htake
        split
        next h => exact (appendCurrent_options _ p time h).trans htake
        next =>
          split
          next =>
            dsimp only
            rw [enqueueReady_options, maybeGrowAdaptive_options]
            exact htake
          next => exact htake

theorem publishCurrent_options (q : BufferQueue β) (a : Allocation) :
    (q.publishCurrent a).2.options = q.options := by
  have htake := q.takeReplacement_options a
  unfold publishCurrent
  split
  next hfound =>
    rw [hfound] at htake
    exact htake
  next hfound =>
    rw [hfound] at htake
    split
    next => exact htake
    next =>
      dsimp only
      rw [enqueueReady_options, maybeGrowAdaptive_options]
      exact htake

theorem Accounted.setCurrentFirstWriteTime {inRange : Prop} {q : BufferQueue β}
    {outside : Nat} (h : Accounted inRange q outside) (value : Nat) :
    Accounted inRange (q.setCurrentFirstWriteTime value) outside := by
  unfold BufferQueue.setCurrentFirstWriteTime
  split_ifs
  · exact h
  · exact ⟨h.total, h.used, h.bounded, h.adaptive⟩
  · exact ⟨h.total, h.used, h.bounded, h.adaptive⟩

end BufferQueue

namespace FileBackend

variable {φ : Type} {dev : FileDevice φ}

/-- Only the time of the current buffer and the flush time are set. -/
theorem scheduleFlush_cases (b : FileBackend φ) (firstData : Bool) (now : Nat) :
    ∃ time, (b.scheduleFlush firstData now).1 = { b with flushTime := time } ∨
      ∃ value, (b.scheduleFlush firstData now).1 =
        { b with flushTime := time, queue := b.queue.setCurrentFirstWriteTime value } := by
  unfold scheduleFlush requestFlush
  dsimp only
  split_ifs
  all_goals first
    | exact ⟨_, .inl rfl⟩
    | exact ⟨_, .inr ⟨_, rfl⟩⟩

theorem setCurrentFirstWriteTime_keeps (b : FileBackend φ) (time value : Nat) :
    Keeps b { b with flushTime := time, queue := b.queue.setCurrentFirstWriteTime value } where
  options := b.queue.setCurrentFirstWriteTime_options value
  buffers := fun h => h.setCurrentFirstWriteTime value
  counted := fun h =>
    let h' := (b.setCurrentFirstWriteTime_transition value).accounted h
    ⟨h'.exact, h'.flagExact⟩

theorem scheduleFlush_keeps (b : FileBackend φ) (firstData : Bool) (now : Nat) :
    Keeps b (b.scheduleFlush firstData now).1 := by
  rcases b.scheduleFlush_cases firstData now with ⟨time, h | ⟨value, h⟩⟩
  · rw [h]
    exact ⟨rfl, id, fun h => ⟨h.exact, h.flagExact⟩⟩
  · rw [h]
    exact b.setCurrentFirstWriteTime_keeps time value

theorem appendAsync_keeps (b : FileBackend φ) (text : List UInt8) (clock : Clock)
    (a : Allocation) : Keeps b (appendAsync b text clock a).backend := by
  have hspec := b.queue.append_spec text (b.writeTime b.flushTime clock.first) a
  have hoptions := b.queue.append_options text (b.writeTime b.flushTime clock.first) a
  have hbuffers := fun h : BufferQueue.Accounted False b.queue 0 =>
    (h.append text (b.writeTime b.flushTime clock.first) a False.elim).accounted
  unfold appendAsync
  cases happend : b.queue.append text (b.writeTime b.flushTime clock.first) a with
  | mk result queue =>
      rw [happend] at hspec hoptions hbuffers
      have hbytes := hspec.bytes
      dsimp only at hbytes hoptions hbuffers ⊢
      split
      next hrefused =>
        rw [hrefused, if_neg (by decide)] at hbytes
        exact ⟨hoptions, hbuffers, fun h =>
          ⟨by rw [hbytes]; exact h.exact, hspec.flagExact h.flagExact⟩⟩
      next htaken =>
        rw [Bool.not_eq_false] at htaken
        rw [htaken, if_pos rfl] at hbytes
        have hqueued : Keeps b
            { b with queue := queue, queuedBytes := b.queuedBytes + text.length } :=
          ⟨hoptions, hbuffers, fun h =>
            ⟨by rw [hbytes, List.length_append, h.exact], hspec.flagExact h.flagExact⟩⟩
        exact hqueued.trans (scheduleFlush_keeps _ result.firstData clock.second)

theorem appendOutputData_keeps (b : FileBackend φ) (text : List UInt8) (clock : Clock)
    (a : Allocation) : Keeps b (appendOutputData dev b text clock a).backend := by
  unfold appendOutputData
  split_ifs
  · exact .refl b
  · exact .refl b
  · unfold appendSync
    split
    next => exact ⟨rfl, id, fun h => ⟨h.exact, h.flagExact⟩⟩
    next => split <;> exact ⟨rfl, id, fun h => ⟨h.exact, h.flagExact⟩⟩
  · exact b.appendAsync_keeps text clock a

theorem appendObfuscated_keeps (b : FileBackend φ) (key : Option ObfKey) (text : List UInt8)
    (clock : Clock) (a : Allocation) :
    Keeps b (appendObfuscated dev b key text clock a).backend := by
  obtain ⟨nonce, happend⟩ := appendObfuscated_eq dev b key text clock a
  rw [happend]
  have hnonce : Keeps b { b with nonce := nonce } :=
    ⟨rfl, id, fun h => ⟨h.exact, h.flagExact⟩⟩
  exact hnonce.trans (appendOutputData_keeps _ _ clock a)

theorem writeReadyData_keeps (b : FileBackend φ) : Keeps b (writeReadyData dev b).2 := by
  refine ⟨?_, ?_, (writeReadyData_drained dev b).accounted⟩
  · unfold writeReadyData BufferQueue.takeReady
    split
    next htake =>
      simp only [Prod.mk.injEq] at htake
      rw [← htake.2]
    next htake =>
      simp only [Prod.mk.injEq] at htake
      rw [← htake.2]
      dsimp only
      split_ifs <;> rfl
  · intro h
    have htotal := h.total
    unfold writeReadyData BufferQueue.takeReady
    split
    next htake =>
      simp only [Prod.mk.injEq] at htake
      obtain ⟨hready, rfl⟩ := htake
      rw [hready] at htotal
      exact ⟨htotal, h.used, h.bounded, h.adaptive⟩
    next data queue _ htake =>
      simp only [Prod.mk.injEq] at htake
      obtain ⟨rfl, rfl⟩ := htake
      have htaken : BufferQueue.Accounted False
          { b.queue with readyList := [], signaled := false } (0 + b.queue.readyList.length) :=
        ⟨by simp only [List.length_nil]; omega, h.used, h.bounded, h.adaptive⟩
      dsimp only
      split_ifs
      · exact htaken.recycle.decay
      · exact htaken.recycle

theorem publishCurrentCounted_keeps (b : FileBackend φ) (a : Allocation) :
    Keeps b (b.publishCurrentCounted a).2 where
  options := b.queue.publishCurrent_options a
  buffers := fun h => (h.publishCurrent a False.elim).accounted
  counted := (b.publishCurrentCounted_drained a).accounted

theorem workerFunc_keeps (b : FileBackend φ) (now later : Nat) (a : Allocation) :
    Keeps b (workerFunc dev b now later a).2 := by
  unfold workerFunc
  dsimp only
  obtain ⟨time, hframe⟩ := updateFlushTimeAfterWork_frame
    (workerLoop dev a maxWriteLoops (b.shutdownFlag || decide (b.flushTime = RIGHT_NOW)) b)
    now later
  rw [hframe]
  have hloop := workerLoop_rel dev a Keeps.refl (fun _ _ _ => Keeps.trans)
    writeReadyData_keeps publishCurrentCounted_keeps maxWriteLoops
    (b.shutdownFlag || decide (b.flushTime = RIGHT_NOW)) b
  exact hloop.trans ⟨rfl, id, fun h => ⟨h.exact, h.flagExact⟩⟩

theorem requestFlush_keeps (b : FileBackend φ) (time : Nat) :
    Keeps b (b.requestFlush time).1 := by
  unfold requestFlush
  split
  next => exact .refl b
  next => exact ⟨rfl, id, fun h => ⟨h.exact, h.flagExact⟩⟩

theorem flush_keeps (b : FileBackend φ) (alloc : Nat → Allocation) :
    Keeps b (b.flush alloc).1 := by
  unfold flush
  split
  next => exact .refl b
  next =>
    have hloop := publishLoop_rel Keeps.refl (fun _ _ _ => Keeps.trans)
      publishCurrentCounted_keeps alloc 2 b
    exact hloop.trans (requestFlush_keeps _ RIGHT_NOW)

theorem freeze_keeps (b : FileBackend φ) : Keeps b b.freeze.1 := by
  have hflag : Keeps b { b with shutdownFlag := true } :=
    ⟨rfl, id, fun h => ⟨h.exact, h.flagExact⟩⟩
  unfold freeze
  dsimp only
  split
  next => exact hflag.trans (requestFlush_keeps _ RIGHT_NOW)
  next => exact hflag

theorem onShutdownLoop_keeps (a : Allocation) (loops : Nat) (b : FileBackend φ) :
    Keeps b (onShutdownLoop dev a loops b) :=
  onShutdownLoop_rel dev a Keeps.refl (fun _ _ _ => Keeps.trans)
    writeReadyData_keeps publishCurrentCounted_keeps loops b

/-! ## The loop -/

/-- A buffer is free, or may be created. -/
def HasReplacement (q : BufferQueue UInt8) : Prop :=
  q.freeList ≠ [] ∨ q.atBufferLimit = false

theorem publishCurrentCounted_fst (b : FileBackend φ) (a : Allocation) :
    (b.publishCurrentCounted a).1 = true ↔
      b.queue.current.data ≠ [] ∧ HasReplacement b.queue := by
  unfold publishCurrentCounted BufferQueue.publishCurrent BufferQueue.takeReplacement
    BufferQueue.tryTakeFreeBuffer BufferQueue.tryCreateBuffer HasReplacement
  cases hfree : b.queue.freeList with
  | nil =>
      by_cases hlimit : b.queue.atBufferLimit = true
      · simp [hlimit]
      · simp only [hlimit]
        by_cases hempty : b.queue.current.data = [] <;> simp [hempty]
  | cons buffer rest =>
      by_cases hempty : b.queue.current.data = [] <;> simp [hempty]

/-- Without ready buffers nothing is written. -/
theorem writeReadyData_of_nil {b : FileBackend φ} (h : b.queue.readyList = []) :
    writeReadyData dev b =
      (false, { b with queue := { b.queue with readyList := [], signaled := false } }) := by
  unfold writeReadyData BufferQueue.takeReady
  rw [h]

/-- The buffers that were ready are free afterwards, unless nothing is left to
be written. -/
theorem writeReadyData_of_ready {b : FileBackend φ} (h : b.queue.readyList ≠ [])
    (hexact : b.queue.FlagExact) :
    ∃ b', writeReadyData dev b = (true, b') ∧ b'.queue.readyList = [] ∧
      b'.queue.current = b.queue.current ∧
      (b.queue.current.data ≠ [] → b'.queue.freeList ≠ []) := by
  unfold writeReadyData BufferQueue.takeReady
  cases hready : b.queue.readyList with
  | nil => exact absurd hready h
  | cons buffer rest =>
      dsimp only
      refine ⟨_, rfl, ?_, ?_, ?_⟩
      · dsimp only
        split_ifs <;> rfl
      · dsimp only
        split_ifs <;> rfl
      · intro hdata
        have hflag : b.queue.hasCurrentDataFlag = true := hexact.mpr hdata
        dsimp only
        rw [if_neg (by simp [BufferQueue.hasCurrentDataFlagged, BufferQueue.recycle, hflag])]
        simp [BufferQueue.recycle]

theorem onShutdownLoop_of_zero {b : FileBackend φ} (h : b.queuedBytes = 0) (a : Allocation)
    (loops : Nat) : onShutdownLoop dev a loops b = b := by
  cases loops with
  | zero => rfl
  | succ loops => rw [onShutdownLoop, if_pos h]

/-- With no data in the current buffer one round is enough. -/
theorem onShutdownLoop_ready {b : FileBackend φ} (hcounted : b.Accounted)
    (hcurrent : b.queue.current.data = []) (a : Allocation) (loops : Nat) :
    (onShutdownLoop dev a (loops + 1) b).queuedBytes = 0 := by
  by_cases hzero : b.queuedBytes = 0
  · rw [onShutdownLoop_of_zero hzero]
    exact hzero
  · have hready : b.queue.readyList ≠ [] := by
      intro hnil
      apply hzero
      rw [hcounted.exact]
      simp [BufferQueue.bytes, hnil, hcurrent]
    have hcounted' := (writeReadyData_drained dev b).accounted hcounted
    obtain ⟨b', hwrite, hready', hcurrent', -⟩ :=
      writeReadyData_of_ready hready hcounted.flagExact
    rw [hwrite] at hcounted'
    have hdrained : b'.queuedBytes = 0 := by
      rw [hcounted'.exact]
      simp [BufferQueue.bytes, hready', hcurrent', hcurrent]
    rw [onShutdownLoop, if_neg hzero, hwrite]
    dsimp only
    rw [onShutdownLoop_of_zero hdrained]
    exact hdrained

/-- With nothing ready the current buffer is published, then written. -/
theorem onShutdownLoop_current {b : FileBackend φ} (hcounted : b.Accounted)
    (hready : b.queue.readyList = []) (hnext : HasReplacement b.queue) (a : Allocation)
    (loops : Nat) : (onShutdownLoop dev a (loops + 2) b).queuedBytes = 0 := by
  by_cases hzero : b.queuedBytes = 0
  · rw [onShutdownLoop_of_zero hzero]
    exact hzero
  · have hdata : b.queue.current.data ≠ [] := by
      intro hnil
      apply hzero
      rw [hcounted.exact]
      simp [BufferQueue.bytes, hnil, hready]
    rw [onShutdownLoop, if_neg hzero, writeReadyData_of_nil hready]
    dsimp only
    generalize hb : ({ b with
      queue := { b.queue with readyList := [], signaled := false } } : FileBackend φ) = b'
    have hcounted' : b'.Accounted := by
      have hkept := (writeReadyData_drained dev b).accounted hcounted
      rw [writeReadyData_of_nil hready] at hkept
      exact hb ▸ hkept
    have hpublish : (b'.publishCurrentCounted a).1 = true := by
      rw [publishCurrentCounted_fst]
      subst hb
      exact ⟨hdata, hnext⟩
    have hemptied := (b'.queue.publishCurrent_spec a).emptied
    have hpublished := (b'.publishCurrentCounted_drained a).accounted hcounted'
    cases hresult : b'.publishCurrentCounted a with
    | mk ok b'' =>
        rw [hresult] at hpublish hpublished
        dsimp only at hpublish
        subst hpublish
        have hcurrent : b''.queue.current.data = [] := by
          simp only [publishCurrentCounted, Prod.mk.injEq] at hresult
          rw [← hresult.2]
          exact hemptied hresult.1
        exact onShutdownLoop_ready hpublished hcurrent a loops

/-- A queue that may have a second buffer is drained. -/
theorem onShutdownLoop_drains {b : FileBackend φ} (hcounted : b.Accounted)
    (hbuffers : BufferQueue.Accounted False b.queue 0)
    (hlimit : b.queue.options.maxTotalBuffers ≠ 1) (a : Allocation) (loops : Nat) :
    (onShutdownLoop dev a (loops + 4) b).queuedBytes = 0 := by
  by_cases hzero : b.queuedBytes = 0
  · rw [onShutdownLoop_of_zero hzero]
    exact hzero
  · by_cases hready : b.queue.readyList = []
    · refine onShutdownLoop_current hcounted hready ?_ a (loops + 2)
      by_cases hfree : b.queue.freeList = []
      · right
        have htotal := hbuffers.total
        rw [hfree, hready] at htotal
        simp only [BufferQueue.atBufferLimit, htotal]
        by_cases hnone : b.queue.options.maxTotalBuffers = 0
        · simp [hnone]
        · have htwo : ¬ b.queue.options.maxTotalBuffers ≤ 1 := by omega
          simpa [hnone] using htwo
      · exact .inl hfree
    · have hcounted' := (writeReadyData_drained dev b).accounted hcounted
      obtain ⟨b', hwrite, hready', hcurrent', hfree⟩ :=
        writeReadyData_of_ready hready hcounted.flagExact
      rw [hwrite] at hcounted'
      rw [onShutdownLoop, if_neg hzero, hwrite]
      dsimp only
      by_cases hdata : b.queue.current.data = []
      · exact onShutdownLoop_ready hcounted' (by rw [hcurrent', hdata]) a (loops + 2)
      · exact onShutdownLoop_current hcounted' hready' (.inl (hfree hdata)) a (loops + 1)

/-- With a limit of one buffer the loop gives up at once. -/
theorem onShutdownLoop_single {b : FileBackend φ}
    (hbuffers : BufferQueue.Accounted False b.queue 0)
    (hlimit : b.queue.options.maxTotalBuffers = 1) (a : Allocation) (loops : Nat) :
    (onShutdownLoop dev a loops b).queuedBytes = b.queuedBytes := by
  cases loops with
  | zero => rfl
  | succ loops =>
      have htotal := hbuffers.total
      have hbounded := hbuffers.bounded (by omega)
      have hready : b.queue.readyList = [] := List.length_eq_zero_iff.mp (by omega)
      have hfree : b.queue.freeList = [] := List.length_eq_zero_iff.mp (by omega)
      rw [onShutdownLoop]
      split
      next => rfl
      next =>
        rw [writeReadyData_of_nil hready]
        dsimp only
        generalize hb : ({ b with
          queue := { b.queue with readyList := [], signaled := false } } : FileBackend φ) = b'
        have hrefused : (b'.publishCurrentCounted a).1 = false := by
          rw [← Bool.not_eq_true, publishCurrentCounted_fst]
          subst hb
          rintro ⟨-, hnone | hroom⟩
          · exact hnone hfree
          · simp [BufferQueue.atBufferLimit, hlimit] at hroom
            omega
        cases hresult : b'.publishCurrentCounted a with
        | mk ok b'' =>
            rw [hresult] at hrefused
            dsimp only at hrefused
            subst hrefused
            dsimp only
            simp only [publishCurrentCounted, Prod.mk.injEq] at hresult
            rw [← hresult.2, ← hb]

/-- Once nothing is queued, more rounds change nothing. -/
theorem onShutdownLoop_stable (a : Allocation) :
    ∀ (loops more : Nat) (b : FileBackend φ), (onShutdownLoop dev a loops b).queuedBytes = 0 →
      onShutdownLoop dev a (more + loops) b = onShutdownLoop dev a loops b := by
  intro loops
  induction loops with
  | zero =>
      intro more b h
      exact onShutdownLoop_of_zero h a more
  | succ loops ih =>
      intro more b h
      rw [onShutdownLoop] at h
      rw [← Nat.add_assoc, onShutdownLoop, onShutdownLoop]
      split
      next => rfl
      next hqueued =>
        rw [if_neg hqueued] at h
        cases hwrite : writeReadyData dev b with
        | mk wrote b' =>
            rw [hwrite] at h
            cases wrote with
            | true => exact ih more b' h
            | false =>
                dsimp only at h ⊢
                cases hpublish : b'.publishCurrentCounted a with
                | mk ok b'' =>
                    rw [hpublish] at h
                    cases ok with
                    | true => exact ih more b'' h
                    | false => rfl

end FileBackend

/-! ## The runs -/

/-- A backend on the recording device, and the outputs that it has accepted. -/
structure BackendSession (φ : Type) where
  backend : FileBackend (φ × List UInt8)
  accepted : List UInt8

/-- The calls of a backend.  `manage` is what the manager and the registration
write, and `elapse` what happens to the file meanwhile. -/
inductive BackendCall (φ : Type) where
  | display (key : Option ObfKey) (text : List UInt8) (clock : Clock) (a : Allocation)
  | appendString (key : Option ObfKey) (text : List UInt8) (clock : Clock) (a : Allocation)
  | flush (alloc : Nat → Allocation)
  | worker (now later : Nat) (a : Allocation)
  | freeze
  | onShutdown (a : Allocation)
  | manage (registered : Bool) (flushTime : Nat)
  | elapse (io : φ)

namespace BackendSession

variable {φ : Type} {dev : FileDevice φ}

def initial (async : Bool) (flushAfter queueSizeLimit : Nat) (nonce : NonceGen)
    (options : Options) (a : Allocation) (io : φ) : BackendSession φ where
  backend := .new async flushAfter queueSizeLimit nonce (.new options a) (io, [])
  accepted := []

def append (dev : FileDevice φ) (s : BackendSession φ) (key : Option ObfKey)
    (text : List UInt8) (clock : Clock) (a : Allocation) : BackendSession φ :=
  let out := s.backend.output key text
  { s with
    backend := (s.backend.appendObfuscated (recorded dev) key text clock a).backend
    accepted := s.accepted ++ (if s.backend.takes out.length a then out else []) }

def display (dev : FileDevice φ) (s : BackendSession φ) (key : Option ObfKey)
    (text : List UInt8) (clock : Clock) (a : Allocation) : BackendSession φ :=
  if Process.refuses (recorded dev) s.backend then s
  else
    match (recorded dev).rotateIfDue s.backend.io with
    | (false, io) => { s with backend.io := io }
    | (true, io) => append dev { s with backend.io := io } key text clock a

def appendString (dev : FileDevice φ) (s : BackendSession φ) (key : Option ObfKey)
    (text : List UInt8) (clock : Clock) (a : Allocation) : BackendSession φ :=
  if Process.refuses (recorded dev) s.backend then s
  else s.append dev key text clock a

def step (dev : FileDevice φ) (s : BackendSession φ) :
    BackendCall φ → Option (BackendSession φ)
  | .display key text clock a => some (s.display dev key text clock a)
  | .appendString key text clock a => some (s.appendString dev key text clock a)
  | .flush alloc => some { s with backend := (s.backend.flush alloc).1 }
  | .worker now later a =>
      some { s with backend := (s.backend.workerFunc (recorded dev) now later a).2 }
  | .freeze => some { s with backend := s.backend.freeze.1 }
  | .onShutdown a => some { s with backend := s.backend.onShutdown (recorded dev) a }
  | .manage registered flushTime =>
      some { s with
        backend := { s.backend with registered := registered, flushTime := flushTime } }
  | .elapse io => some { s with backend.io.1 := io }

/-- What every run keeps: the counters are right, and what has been accepted is
in the file or in the queue. -/
structure Inv (options : Options) (s : BackendSession φ) : Prop where
  options : s.backend.queue.options = options
  counted : s.backend.Accounted
  buffers : BufferQueue.Accounted False s.backend.queue 0
  unused : s.backend.QueueUnused
  stored : s.backend.io.2 ++ s.backend.queue.bytes = s.accepted

theorem initial_inv (async : Bool) (flushAfter queueSizeLimit : Nat) (nonce : NonceGen)
    (options : Options) (a : Allocation) (io : φ) :
    Inv options (initial async flushAfter queueSizeLimit nonce options a io) where
  options := rfl
  counted := ⟨by simp [initial, FileBackend.new], BufferQueue.new_flagExact options a⟩
  buffers := ⟨rfl, rfl, fun hmax => Nat.one_le_iff_ne_zero.mpr hmax, False.elim⟩
  unused := fun _ => BufferQueue.new_bytes options a
  stored := BufferQueue.new_bytes options a

theorem Inv.moves {options : Options} {s : BackendSession φ} (h : s.Inv options)
    {b : FileBackend (φ × List UInt8)} {bytes : List UInt8}
    (hmoves : FileBackend.Moves Records s.backend b bytes)
    (hkeeps : FileBackend.Keeps s.backend b) :
    Inv options ⟨b, s.accepted ++ bytes⟩ where
  options := hkeeps.options.trans h.options
  counted := hkeeps.counted h.counted
  buffers := hkeeps.buffers h.buffers
  unused := hmoves.unused h.unused
  stored := by
    obtain ⟨out, hout, hbytes⟩ := hmoves.output
    unfold Records at hout
    dsimp only
    rw [hout, List.append_assoc, hbytes, ← List.append_assoc, h.stored]

theorem Inv.maintain {options : Options} {s : BackendSession φ} (h : s.Inv options)
    {b : FileBackend (φ × List UInt8)} (hmoves : FileBackend.Moves Records s.backend b [])
    (hkeeps : FileBackend.Keeps s.backend b) : Inv options { s with backend := b } := by
  have hnext := h.moves hmoves hkeeps
  rwa [List.append_nil] at hnext

theorem Inv.append {options : Options} {s : BackendSession φ} (h : s.Inv options)
    (hdev : NeverRefuses dev) (key : Option ObfKey) (text : List UInt8) (clock : Clock)
    (a : Allocation) : (s.append dev key text clock a).Inv options :=
  h.moves
    (FileBackend.appendObfuscated_moves (FileBackend.recorded_moves hdev) s.backend key text
      clock a h.unused)
    (s.backend.appendObfuscated_keeps key text clock a)

theorem Inv.display {options : Options} {s : BackendSession φ} (h : s.Inv options)
    (hdev : NeverRefuses dev) (key : Option ObfKey) (text : List UInt8) (clock : Clock)
    (a : Allocation) : (s.display dev key text clock a).Inv options := by
  have hrotated : Inv options
      { s with backend.io := ((recorded dev).rotateIfDue s.backend.io).2 } :=
    ⟨h.options, ⟨h.counted.exact, h.counted.flagExact⟩, h.buffers, h.unused, h.stored⟩
  unfold BackendSession.display
  split
  next => exact h
  next =>
    split
    next hresult =>
      rw [hresult] at hrotated
      exact hrotated
    next hresult =>
      rw [hresult] at hrotated
      exact hrotated.append hdev key text clock a

theorem step_inv {options : Options} {s next : BackendSession φ} {call : BackendCall φ}
    (hdev : NeverRefuses dev) (h : s.Inv options) (hstep : step dev s call = some next) :
    next.Inv options := by
  have hmoves := FileBackend.recorded_moves hdev
  cases call <;> simp only [step, Option.some.injEq] at hstep <;> subst next
  case display key text clock a => exact h.display hdev key text clock a
  case appendString key text clock a =>
    unfold BackendSession.appendString
    split
    next => exact h
    next => exact h.append hdev key text clock a
  case flush alloc =>
    exact h.maintain (FileBackend.flush_moves hmoves s.backend alloc)
      (s.backend.flush_keeps alloc)
  case worker now later a =>
    exact h.maintain (FileBackend.workerFunc_moves hmoves s.backend now later a)
      (s.backend.workerFunc_keeps now later a)
  case freeze =>
    exact h.maintain (FileBackend.freeze_moves hmoves s.backend) s.backend.freeze_keeps
  case onShutdown a =>
    exact h.maintain (FileBackend.onShutdown_moves hmoves s.backend a)
      (FileBackend.onShutdownLoop_keeps a 4 s.backend)
  case manage registered flushTime =>
    exact ⟨h.options, ⟨h.counted.exact, h.counted.flagExact⟩, h.buffers, h.unused, h.stored⟩
  case elapse io =>
    exact ⟨h.options, ⟨h.counted.exact, h.counted.flagExact⟩, h.buffers, h.unused, h.stored⟩

/-- The loop of `OnShutdown` ends with an empty queue, and everything accepted
is in the file. -/
def ShutdownDrains (dev : FileDevice φ) (s : BackendSession φ) (a : Allocation) : Prop :=
  ∃ b : FileBackend (φ × List UInt8),
    (∀ more, FileBackend.onShutdownLoop (recorded dev) a (more + 4) s.backend = b) ∧
      b.queuedBytes = 0 ∧ b.io.2 = s.accepted

/-- Shutdown drains a backend in every state exactly when its queue may have a
second buffer or holds nothing. -/
theorem onShutdown_drains_iff (hdev : NeverRefuses dev) (async : Bool)
    (flushAfter queueSizeLimit : Nat) (nonce : NonceGen) (options : Options)
    (created : Allocation) (io : φ) {s : BackendSession φ}
    (hrun : Reachable (step dev)
      (initial async flushAfter queueSizeLimit nonce options created io) s)
    (a : Allocation) :
    s.ShutdownDrains dev a ↔ options.maxTotalBuffers ≠ 1 ∨ s.backend.queuedBytes = 0 := by
  have h : s.Inv options :=
    hrun.invariant (fun _ _ _ h _ hstep => step_inv hdev h hstep)
      (initial_inv async flushAfter queueSizeLimit nonce options created io)
  constructor
  · rintro ⟨b, hloop, hzero, -⟩
    by_cases hlimit : options.maxTotalBuffers = 1
    · right
      rw [← hloop 0, FileBackend.onShutdownLoop_single h.buffers
        (by rw [h.options]; exact hlimit)] at hzero
      exact hzero
    · exact .inl hlimit
  · intro hcase
    have hzero : (FileBackend.onShutdownLoop (recorded dev) a 4 s.backend).queuedBytes = 0 := by
      rcases hcase with hlimit | hempty
      · exact FileBackend.onShutdownLoop_drains h.counted h.buffers
          (by rw [h.options]; exact hlimit) a 0
      · rw [FileBackend.onShutdownLoop_of_zero hempty]
        exact hempty
    have hend := h.maintain
      (FileBackend.onShutdown_moves (FileBackend.recorded_moves hdev) s.backend a)
      (FileBackend.onShutdownLoop_keeps a 4 s.backend)
    refine ⟨_, fun more => FileBackend.onShutdownLoop_stable a 4 more s.backend hzero, hzero, ?_⟩
    have hbytes := hend.counted.exact
    have hstored := hend.stored
    dsimp only at hbytes hstored
    rw [FileBackend.onShutdown, hzero] at hbytes
    rw [FileBackend.onShutdown, List.length_eq_zero_iff.mp hbytes.symm, List.append_nil] at hstored
    exact hstored

/-- A file on which every operation succeeds. -/
private def steadyDevice : FileDevice Unit where
  isOpen := fun _ => true
  rotateIfDue := fun io => (true, io)
  applySizeLimit := fun io _ => (true, io)
  writeAll := fun io text => (some text.length, io)

private def created (limit : Nat) : BackendSession Unit :=
  initial true 500 25165824 (nonceGenInit 0 0) { maxTotalBuffers := limit } ⟨0, none⟩ ()

private def oneRecord : BackendCall Unit :=
  .appendString none [0x61] ⟨1000, 1000⟩ ⟨1, none⟩

/-- A record in a queue of one buffer is never written. -/
theorem single_buffer_not_drained :
    ∃ s, Reachable (step steadyDevice) (created 1) s ∧
      ¬ s.ShutdownDrains steadyDevice ⟨2, none⟩ := by
  refine ⟨(created 1).appendString steadyDevice none [0x61] ⟨1000, 1000⟩ ⟨1, none⟩,
    .single (a := oneRecord) trivial rfl, ?_⟩
  rintro ⟨b, hloop, hzero, -⟩
  have hqueued : (FileBackend.onShutdownLoop (recorded steadyDevice) ⟨2, none⟩ 4
      ((created 1).appendString steadyDevice none [0x61] ⟨1000, 1000⟩
        ⟨1, none⟩).backend).queuedBytes = 1 := by decide
  rw [hloop 0, hzero] at hqueued
  cases hqueued

theorem two_buffers_drained :
    ((created 2).appendString steadyDevice none [0x61] ⟨1000, 1000⟩ ⟨1, none⟩).ShutdownDrains
        steadyDevice ⟨2, none⟩ ↔
      (2 ≠ 1 ∨ ((created 2).appendString steadyDevice none [0x61] ⟨1000, 1000⟩
        ⟨1, none⟩).backend.queuedBytes = 0) :=
  @onShutdown_drains_iff Unit steadyDevice (fun _ _ => rfl) true 500 25165824
    (nonceGenInit 0 0) { maxTotalBuffers := 2 } ⟨0, none⟩ () _
    (.single (a := oneRecord) trivial rfl) ⟨2, none⟩

end BackendSession

end Logme
