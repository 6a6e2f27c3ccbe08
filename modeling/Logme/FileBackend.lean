import Logme.BufferQueue
import Logme.FileManager
import Logme.Obfuscate

/-!
# The file backend, one operation at a time

The functions of `FileBackend` as they act when no other thread interferes.
The file below the backend is a parameter: a state with the four operations
that the backend uses.  A call of `FileManagerFactory::Notify` is part of a
function's result, because the manager belongs to the caller's state.
Statistics and counters are left out.
-/

namespace Logme

def FLUSH_PRESSURE_BUFFERS : Nat := 96

def WRITEV_CHUNK : Nat := 256

/-- The file operations.  `rotateIfDue` is the time rotation that `Display`
tries first; a successful `writeAll` has also added to `CurrentSize`. -/
structure FileDevice (φ : Type) where
  isOpen : φ → Bool
  rotateIfDue : φ → Bool × φ
  applySizeLimit : φ → Nat → Bool × φ
  writeAll : φ → List UInt8 → Option Nat × φ

structure FileBackend (φ : Type) where
  async : Bool
  flushAfter : Nat
  queueSizeLimit : Nat
  nonce : NonceGen
  registered : Bool
  shutdownFlag : Bool
  flushTime : Nat
  queue : BufferQueue UInt8
  queuedBytes : Nat
  io : φ

/-- The two readings of the clock that one append may make. -/
structure Clock where
  first : Nat
  second : Nat

/-- The result of a function that may call `Notify` at its end. -/
structure Outcome (φ : Type) where
  written : Nat
  backend : FileBackend φ
  notify : Option Nat

namespace FileBackend

variable {φ : Type}

/-- The constructor. -/
def new (async : Bool) (flushAfter queueSizeLimit : Nat) (nonce : NonceGen)
    (queue : BufferQueue UInt8) (io : φ) : FileBackend φ where
  async := async
  flushAfter := flushAfter
  queueSizeLimit := queueSizeLimit
  nonce := nonce
  registered := false
  shutdownFlag := false
  flushTime := 0
  queue := queue
  queuedBytes := 0
  io := io

/-! ## Requests -/

def deadline (b : FileBackend φ) (time : Nat) : Nat :=
  (time + b.flushAfter) % 2 ^ 64

/-- `RequestFlush`: an earlier or immediate request stays. -/
def requestFlush (b : FileBackend φ) (time : Nat) :
    FileBackend φ × Option Nat :=
  if b.flushTime ≠ 0 ∧ (b.flushTime = RIGHT_NOW ∨ b.flushTime ≤ time) then
    (b, none)
  else ({ b with flushTime := time }, some time)

/-- The write time given to a buffer: reconstructed from a pending deadline,
else the clock. -/
def writeTime (b : FileBackend φ) (flushTime now : Nat) : Nat :=
  if flushTime ≠ 0 ∧ flushTime ≠ RIGHT_NOW ∧ flushTime > b.flushAfter then
    flushTime - b.flushAfter
  else now

/-! ## Appending -/

def appendSync (dev : FileDevice φ) (b : FileBackend φ) (text : List UInt8) :
    Outcome φ :=
  match dev.applySizeLimit b.io text.length with
  | (false, io) => ⟨0, { b with io := io }, none⟩
  | (true, io) =>
      match dev.writeAll io text with
      | (none, io) => ⟨0, { b with io := io }, none⟩
      | (some rc, io) => ⟨rc, { b with io := io }, none⟩

/-- The end of `AppendOutputData`, after the bytes have been counted. -/
def scheduleFlush (b : FileBackend φ) (firstData : Bool) (now : Nat) :
    FileBackend φ × Option Nat :=
  if b.queue.getUsedBuffers ≥ FLUSH_PRESSURE_BUFFERS ∨
      b.queuedBytes ≥ b.queueSizeLimit then
    let flushTime := b.flushTime
    let b :=
      if firstData then
        { b with
          queue := b.queue.setCurrentFirstWriteTime (b.writeTime flushTime now) }
      else b
    if flushTime ≠ RIGHT_NOW then b.requestFlush RIGHT_NOW else (b, none)
  else if firstData then
    if b.flushTime = 0 then
      requestFlush
        { b with queue := b.queue.setCurrentFirstWriteTime now }
        (b.deadline now)
    else
      ({ b with
          queue :=
            b.queue.setCurrentFirstWriteTime (b.writeTime b.flushTime now) },
        none)
  else (b, none)

def appendAsync (b : FileBackend φ) (text : List UInt8) (clock : Clock)
    (a : Allocation) : Outcome φ :=
  match b.queue.append text (b.writeTime b.flushTime clock.first) a with
  | (result, queue) =>
      if result.ok = false then ⟨0, { b with queue := queue }, none⟩
      else
        let b :=
          { b with
            queue := queue
            queuedBytes := b.queuedBytes + text.length }
        let (b, notify) := b.scheduleFlush result.firstData clock.second
        ⟨text.length, b, notify⟩

def appendOutputData (dev : FileDevice φ) (b : FileBackend φ)
    (text : List UInt8) (clock : Clock) (a : Allocation) : Outcome φ :=
  if b.shutdownFlag then ⟨0, b, none⟩
  else if text.length = 0 then ⟨0, b, none⟩
  else if b.async = false then appendSync dev b text
  else appendAsync b text clock a

/-- `AppendObfuscated`: the record is built in a local buffer of 4 KiB when
the calculated size is below that, else in one of the calculated size. -/
def appendObfuscated (dev : FileDevice φ) (b : FileBackend φ)
    (key : Option ObfKey) (text : List UInt8) (clock : Clock)
    (a : Allocation) : Outcome φ :=
  match key with
  | none => appendOutputData dev b text clock a
  | some key =>
      let output := obfCalcRecordSize text.length
      let cap := if output < 4 * 1024 then 4 * 1024 else output
      match obfEncryptRecord (some key) (some b.nonce) text
          (some (List.replicate cap 0)) (some 0) with
      | ⟨true, some nonce, some buffer, some size⟩ =>
          appendOutputData dev { b with nonce := nonce } (buffer.take size)
            clock a
      | ⟨_, nonce, _, _⟩ =>
          ⟨0, { b with nonce := nonce.getD b.nonce }, none⟩

/-! ## The worker's side -/

/-- `writeVector`: one call of `WriteAll` or `WriteAllVector`. -/
def writeVector (dev : FileDevice φ) (iov : List (DataBuffer UInt8))
    (ok : Bool) (io : φ) : Bool × φ :=
  if iov = [] then (ok, io)
  else
    match dev.writeAll io (iov.flatMap DataBuffer.data) with
    | (none, io) => (false, io)
    | (some _, io) => (ok, io)

/-- The buffers are written in vectors of `WRITEV_CHUNK`. -/
def writeBuffers (dev : FileDevice φ) :
    List (DataBuffer UInt8) → List (DataBuffer UInt8) → Bool → φ → Bool × φ
  | [], iov, ok, io => writeVector dev iov ok io
  | buffer :: rest, iov, ok, io =>
      if (iov ++ [buffer]).length = WRITEV_CHUNK then
        match writeVector dev (iov ++ [buffer]) ok io with
        | (ok, io) => writeBuffers dev rest [] ok io
      else writeBuffers dev rest (iov ++ [buffer]) ok io

/-- The section of `WriteReadyData` under `IoLock`. -/
def writeBatch (dev : FileDevice φ) (io : φ)
    (data : List (DataBuffer UInt8)) (bytes : Nat) : Bool × φ :=
  match dev.applySizeLimit io bytes with
  | (false, io) => (false, io)
  | (true, io) => writeBuffers dev data [] true io

def writeReadyData (dev : FileDevice φ) (b : FileBackend φ) :
    Bool × FileBackend φ :=
  match b.queue.takeReady with
  | ([], queue) => (false, { b with queue := queue })
  | (data, queue) =>
      let bytes := (data.flatMap DataBuffer.data).length
      let (_, io) := writeBatch dev b.io data bytes
      let queue := queue.recycle data
      let queue :=
        if queue.hasCurrentDataFlagged = false ∧ queue.hasReady = false then
          queue.trimFreeBuffersIfIdle
        else queue
      (true,
        { b with
          queue := queue
          queuedBytes := fetchSub b.queuedBytes bytes
          io := io })

def publishCurrentCounted (b : FileBackend φ) (a : Allocation) :
    Bool × FileBackend φ :=
  match b.queue.publishCurrent a with
  | (ok, queue) => (ok, { b with queue := queue })

/-- The time of the oldest byte in the queue, 0 when there is none. -/
def oldestDataTime (b : FileBackend φ) : Nat :=
  let readyTime := b.queue.getOldestReadyDataTime
  let currentTime := b.queue.getCurrentFirstWriteTimeSnapshot
  if readyTime = 0 ∨ (currentTime ≠ 0 ∧ currentTime < readyTime) then
    currentTime
  else readyTime

def updateFromOldest (b : FileBackend φ) (oldest now : Nat) :
    FileBackend φ :=
  if b.deadline oldest ≤ now then { b with flushTime := RIGHT_NOW }
  else { b with flushTime := b.deadline oldest }

/-- `UpdateFlushTimeAfterWork`; `now` and `later` are its clock readings. -/
def updateFlushTimeAfterWork (b : FileBackend φ) (now later : Nat) :
    FileBackend φ :=
  if b.oldestDataTime ≠ 0 then b.updateFromOldest b.oldestDataTime now
  else if b.queue.hasCurrentDataFlagged then b
  else
    let b := { b with flushTime := 0 }
    if b.oldestDataTime ≠ 0 then b.updateFromOldest b.oldestDataTime now
    else if b.queue.hasReady then { b with flushTime := RIGHT_NOW }
    else if b.queue.hasCurrentDataFlagged then
      { b with flushTime := b.deadline later }
    else b

/-- The loop of `WorkerFunc`. -/
def workerLoop (dev : FileDevice φ) (a : Allocation) :
    Nat → Bool → FileBackend φ → FileBackend φ
  | 0, _, b => b
  | loops + 1, forceFlush, b =>
      match writeReadyData dev b with
      | (true, b) => workerLoop dev a loops false b
      | (false, b) =>
          if forceFlush then
            match b.publishCurrentCounted a with
            | (true, b) => workerLoop dev a loops false b
            | (false, b) => b
          else b

def maxWriteLoops : Nat := 5

def workerFunc (dev : FileDevice φ) (b : FileBackend φ) (now later : Nat)
    (a : Allocation) : Bool × FileBackend φ :=
  let immediateRun := decide (b.flushTime = RIGHT_NOW)
  let b := workerLoop dev a maxWriteLoops (b.shutdownFlag || immediateRun) b
  let b := b.updateFlushTimeAfterWork now later
  (!b.shutdownFlag, b)

/-! ## `Flush`, `Freeze` and `OnShutdown` -/

/-- The publishing loop of `Flush`. -/
def publishLoop (alloc : Nat → Allocation) :
    Nat → FileBackend φ → FileBackend φ
  | 0, b => b
  | loops + 1, b =>
      match b.publishCurrentCounted (alloc 0) with
      | (true, b) => publishLoop (fun n => alloc (n + 1)) loops b
      | (false, b) => b

/-- `Flush` up to its wait, which changes nothing. -/
def flush (b : FileBackend φ) (alloc : Nat → Allocation) :
    FileBackend φ × Option Nat :=
  if b.async = false then (b, none)
  else (publishLoop alloc 2 b).requestFlush RIGHT_NOW

def freeze (b : FileBackend φ) : FileBackend φ × Option Nat :=
  let b := { b with shutdownFlag := true }
  if b.async then b.requestFlush RIGHT_NOW else (b, none)

/-- The loop of `OnShutdown`: it writes what is ready, publishes the current
buffer and writes again. -/
def onShutdownLoop (dev : FileDevice φ) (a : Allocation) :
    Nat → FileBackend φ → FileBackend φ
  | 0, b => b
  | loops + 1, b =>
      if b.queuedBytes = 0 then b
      else
        match writeReadyData dev b with
        | (true, b) => onShutdownLoop dev a loops b
        | (false, b) =>
            match b.publishCurrentCounted a with
            | (true, b) => onShutdownLoop dev a loops b
            | (false, b) => b

def onShutdown (dev : FileDevice φ) (b : FileBackend φ) (a : Allocation) :
    FileBackend φ :=
  onShutdownLoop dev a 4 b

/-! ## Accounting

`QueuedBytes` counts the bytes of the queue, and no function of the backend
touches `Registered`. -/

structure Accounted (b : FileBackend φ) : Prop where
  exact : b.queuedBytes = b.queue.bytes.length
  flagExact : b.queue.FlagExact

/-- What every function does to the state that the manager and other
functions rely on: a flush time changes only together with a notification
that carries it. -/
structure Transition (b b' : FileBackend φ) (notify : Option Nat) : Prop where
  async : b'.async = b.async
  registered : b'.registered = b.registered
  shutdownFlag : b'.shutdownFlag = b.shutdownFlag
  accounted : b.Accounted → b'.Accounted
  quiet : notify = none → b'.flushTime = b.flushTime
  loud : ∀ time, notify = some time → time ≠ 0 ∧ b'.flushTime = time

theorem Transition.refl (b : FileBackend φ) : Transition b b none :=
  ⟨rfl, rfl, rfl, id, fun _ => rfl, by simp⟩

theorem Transition.trans {b b' b'' : FileBackend φ} {notify : Option Nat}
    (hfirst : Transition b b' none) (hsecond : Transition b' b'' notify) :
    Transition b b'' notify where
  async := hsecond.async.trans hfirst.async
  registered := hsecond.registered.trans hfirst.registered
  shutdownFlag := hsecond.shutdownFlag.trans hfirst.shutdownFlag
  accounted := fun h => hsecond.accounted (hfirst.accounted h)
  quiet := fun h => (hsecond.quiet h).trans (hfirst.quiet rfl)
  loud := hsecond.loud

/-- A function that only replaces the queue, by one with the same bytes. -/
theorem Transition.of_queue (b : FileBackend φ) {queue : BufferQueue UInt8}
    (hbytes : queue.bytes = b.queue.bytes)
    (hflag : b.queue.FlagExact → queue.FlagExact) :
    Transition b { b with queue := queue } none where
  async := rfl
  registered := rfl
  shutdownFlag := rfl
  accounted := fun h => ⟨by rw [hbytes]; exact h.exact, hflag h.flagExact⟩
  quiet := fun _ => rfl
  loud := by simp

theorem requestFlush_cases (b : FileBackend φ) (time : Nat) :
    (b.requestFlush time = (b, none) ∧ b.flushTime ≠ 0) ∨
      b.requestFlush time = ({ b with flushTime := time }, some time) := by
  unfold requestFlush
  split
  next h => exact .inl ⟨rfl, h.1⟩
  next => exact .inr rfl

theorem requestFlush_transition (b : FileBackend φ) (time : Nat)
    (htime : time ≠ 0) :
    Transition b (b.requestFlush time).1 (b.requestFlush time).2 ∧
      (b.requestFlush time).1.flushTime ≠ 0 ∧
      (b.requestFlush time).1.queuedBytes = b.queuedBytes := by
  rcases b.requestFlush_cases time with ⟨h, hpending⟩ | h
  · rw [h]
    exact ⟨.refl b, hpending, rfl⟩
  · rw [h]
    refine ⟨⟨rfl, rfl, rfl, fun h => ⟨h.exact, h.flagExact⟩, by simp, ?_⟩,
      htime, rfl⟩
    intro time' hsome
    simp only [Option.some.injEq] at hsome
    subst time'
    exact ⟨htime, rfl⟩

theorem setCurrentFirstWriteTime_transition (b : FileBackend φ)
    (time : Nat) :
    Transition b
      { b with queue := b.queue.setCurrentFirstWriteTime time } none := by
  apply Transition.of_queue
  · simp [BufferQueue.bytes]
  · intro h
    unfold BufferQueue.FlagExact
    rw [BufferQueue.setCurrentFirstWriteTime_data]
    unfold BufferQueue.setCurrentFirstWriteTime
    split_ifs <;> exact h

/-- After the first bytes of a buffer, and whenever a request is pending, a
request is pending at the end of an append. -/
theorem scheduleFlush_transition (b : FileBackend φ) (firstData : Bool)
    (now : Nat) (hdeadline : b.flushTime = 0 → b.deadline now ≠ 0)
    (hwake : firstData = true ∨ b.flushTime ≠ 0) :
    Transition b (b.scheduleFlush firstData now).1
        (b.scheduleFlush firstData now).2 ∧
      (b.scheduleFlush firstData now).1.flushTime ≠ 0 ∧
      (b.scheduleFlush firstData now).1.queuedBytes = b.queuedBytes := by
  have hmark := fun time => b.setCurrentFirstWriteTime_transition time
  have hright : RIGHT_NOW ≠ 0 := by decide
  unfold scheduleFlush
  dsimp only
  by_cases hpressure : b.queue.getUsedBuffers ≥ FLUSH_PRESSURE_BUFFERS ∨
      b.queuedBytes ≥ b.queueSizeLimit
  · rw [if_pos hpressure]
    by_cases hrequest : b.flushTime ≠ RIGHT_NOW
    · rw [if_pos hrequest]
      split
      next =>
        rcases requestFlush_transition
            { b with
              queue := b.queue.setCurrentFirstWriteTime
                (b.writeTime b.flushTime now) } RIGHT_NOW hright with
          ⟨htrans, hflush, hqueued⟩
        exact ⟨(hmark _).trans htrans, hflush, hqueued⟩
      next => exact b.requestFlush_transition RIGHT_NOW hright
    · rw [if_neg hrequest]
      have hpending : b.flushTime ≠ 0 := by
        rw [not_not.mp hrequest]
        exact hright
      split
      next => exact ⟨hmark _, hpending, rfl⟩
      next => exact ⟨.refl b, hpending, rfl⟩
  · rw [if_neg hpressure]
    split
    next =>
      by_cases hidle : b.flushTime = 0
      · rw [if_pos hidle]
        rcases requestFlush_transition
            { b with queue := b.queue.setCurrentFirstWriteTime now } _
            (hdeadline hidle) with ⟨htrans, hflush, hqueued⟩
        exact ⟨(hmark _).trans htrans, hflush, hqueued⟩
      · rw [if_neg hidle]
        exact ⟨hmark _, hidle, rfl⟩
    next hfirst =>
      exact ⟨.refl b, hwake.resolve_left hfirst, rfl⟩

/-- Queued bytes have a time at which they are due. -/
def Served (b : FileBackend φ) : Prop := b.queuedBytes ≠ 0 → b.flushTime ≠ 0

theorem appendSync_transition (dev : FileDevice φ) (b : FileBackend φ)
    (text : List UInt8) :
    Transition b (appendSync dev b text).backend
        (appendSync dev b text).notify ∧
      (b.Served → (appendSync dev b text).backend.Served) := by
  have hio : ∀ io : φ, Transition b { b with io := io } none ∧
      (b.Served → ({ b with io := io } : FileBackend φ).Served) := by
    intro io
    exact ⟨⟨rfl, rfl, rfl, fun h => ⟨h.exact, h.flagExact⟩, fun _ => rfl,
      by simp⟩, id⟩
  unfold appendSync
  split
  next => exact hio _
  next =>
    split
    next => exact hio _
    next => exact hio _

theorem appendAsync_transition (b : FileBackend φ) {text : List UInt8}
    (clock : Clock) (a : Allocation) (htext : text ≠ [])
    (hdeadline : b.flushTime = 0 → b.deadline clock.second ≠ 0) :
    (b.Accounted → b.Served →
      Transition b (appendAsync b text clock a).backend
          (appendAsync b text clock a).notify ∧
        (appendAsync b text clock a).backend.Served) := by
  intro hacc hserved
  have hspec := b.queue.append_spec text
    (b.writeTime b.flushTime clock.first) a
  unfold appendAsync
  cases happend : b.queue.append text (b.writeTime b.flushTime clock.first) a with
  | mk result queue =>
      rw [happend] at hspec
      rcases hspec with ⟨hbytes, hflag, hfirst⟩
      dsimp only at hbytes hflag hfirst
      dsimp only
      by_cases hok : result.ok = false
      · rw [if_pos hok]
        rw [hok, if_neg (by simp)] at hbytes
        exact ⟨Transition.of_queue b hbytes hflag, hserved⟩
      · rw [if_neg hok]
        rw [Bool.not_eq_false] at hok
        rw [hok, if_pos rfl] at hbytes
        let appended : FileBackend φ :=
          { b with
            queue := queue
            queuedBytes := b.queuedBytes + text.length }
        -- no request pending means an empty queue, so these are first bytes
        have hwake : result.firstData = true ∨ appended.flushTime ≠ 0 := by
          by_cases hidle : b.flushTime = 0
          · left
            have hempty : b.queuedBytes = 0 := by
              by_contra hqueued
              exact hserved hqueued hidle
            have hnone : b.queue.bytes = [] := by
              rw [← List.length_eq_zero_iff, ← hacc.exact, hempty]
            exact hfirst hok htext (List.append_eq_nil_iff.mp hnone).2
          · exact .inr hidle
        rcases scheduleFlush_transition appended result.firstData clock.second
            hdeadline hwake with ⟨htrans, hflush, -⟩
        have hcounted : appended.Accounted := by
          refine ⟨?_, hflag hacc.flagExact⟩
          simp [appended, hbytes, hacc.exact]
        exact ⟨⟨htrans.async, htrans.registered, htrans.shutdownFlag,
          fun _ => htrans.accounted hcounted, htrans.quiet, htrans.loud⟩,
          fun _ => hflush⟩

theorem appendOutputData_transition (dev : FileDevice φ) (b : FileBackend φ)
    (text : List UInt8) (clock : Clock) (a : Allocation)
    (hdeadline : b.flushTime = 0 → b.deadline clock.second ≠ 0)
    (hacc : b.Accounted) (hserved : b.Served) :
    Transition b (appendOutputData dev b text clock a).backend
        (appendOutputData dev b text clock a).notify ∧
      (appendOutputData dev b text clock a).backend.Served := by
  unfold appendOutputData
  split_ifs with hshutdown hempty hsync
  · exact ⟨.refl b, hserved⟩
  · exact ⟨.refl b, hserved⟩
  · rcases appendSync_transition dev b text with ⟨htrans, hkeeps⟩
    exact ⟨htrans, hkeeps hserved⟩
  · exact appendAsync_transition b clock a
      (fun h => hempty (by simp [h])) hdeadline hacc hserved

theorem nonce_transition (b : FileBackend φ) (nonce : NonceGen) :
    Transition b { b with nonce := nonce } none :=
  ⟨rfl, rfl, rfl, fun h => ⟨h.exact, h.flagExact⟩, fun _ => rfl, by simp⟩

theorem appendObfuscated_transition (dev : FileDevice φ) (b : FileBackend φ)
    (key : Option ObfKey) (text : List UInt8) (clock : Clock) (a : Allocation)
    (hdeadline : b.flushTime = 0 → b.deadline clock.second ≠ 0)
    (hacc : b.Accounted) (hserved : b.Served) :
    Transition b (appendObfuscated dev b key text clock a).backend
        (appendObfuscated dev b key text clock a).notify ∧
      (appendObfuscated dev b key text clock a).backend.Served := by
  unfold appendObfuscated
  split
  next => exact appendOutputData_transition dev b text clock a hdeadline hacc hserved
  next =>
    dsimp only
    split
    next nonce _ _ _ =>
      have hnonce := b.nonce_transition nonce
      rcases appendOutputData_transition dev { b with nonce := nonce } _ clock
          a hdeadline (hnonce.accounted hacc) hserved with ⟨htrans, hserved'⟩
      exact ⟨hnonce.trans htrans, hserved'⟩
    next => exact ⟨b.nonce_transition _, hserved⟩

/-- A synchronous backend neither queues nor asks for a flush. -/
theorem appendOutputData_sync (dev : FileDevice φ) {b : FileBackend φ}
    (text : List UInt8) (clock : Clock) (a : Allocation)
    (hsync : b.async = false) :
    (appendOutputData dev b text clock a).backend.flushTime = b.flushTime ∧
      (appendOutputData dev b text clock a).backend.queuedBytes =
        b.queuedBytes := by
  unfold appendOutputData
  split_ifs
  · exact ⟨rfl, rfl⟩
  · exact ⟨rfl, rfl⟩
  · unfold appendSync
    split
    next => exact ⟨rfl, rfl⟩
    next => split <;> exact ⟨rfl, rfl⟩

theorem appendObfuscated_sync (dev : FileDevice φ) {b : FileBackend φ}
    (key : Option ObfKey) (text : List UInt8) (clock : Clock) (a : Allocation)
    (hsync : b.async = false) :
    (appendObfuscated dev b key text clock a).backend.flushTime =
        b.flushTime ∧
      (appendObfuscated dev b key text clock a).backend.queuedBytes =
        b.queuedBytes := by
  unfold appendObfuscated
  split
  next => exact appendOutputData_sync dev text clock a hsync
  next =>
    dsimp only
    split
    next nonce _ _ _ =>
      exact appendOutputData_sync dev (b := { b with nonce := nonce }) _ clock
        a hsync
    next => exact ⟨rfl, rfl⟩

/-! ## Rules for the loops

The loops of the worker, of `Flush` and of `OnShutdown` repeat two operations,
so what these two do to a backend the loops do. -/

section Loops

variable {R : FileBackend φ → FileBackend φ → Prop}

theorem workerLoop_rel (dev : FileDevice φ) (a : Allocation)
    (hrefl : ∀ b, R b b) (htrans : ∀ b b' b'', R b b' → R b' b'' → R b b'')
    (hwrite : ∀ b, R b (writeReadyData dev b).2)
    (hpublish : ∀ b a, R b (b.publishCurrentCounted a).2) (loops : Nat)
    (forceFlush : Bool) (b : FileBackend φ) :
    R b (workerLoop dev a loops forceFlush b) := by
  induction loops generalizing forceFlush b with
  | zero => exact hrefl b
  | succ loops ih =>
      have hwritten := hwrite b
      unfold workerLoop
      split
      next b' hresult =>
        rw [hresult] at hwritten
        exact htrans _ _ _ hwritten (ih false b')
      next b' hresult =>
        rw [hresult] at hwritten
        have hpublished := hpublish b' a
        split
        next =>
          split
          next b'' hresult =>
            rw [hresult] at hpublished
            exact htrans _ _ _ hwritten (htrans _ _ _ hpublished (ih false b''))
          next b'' hresult =>
            rw [hresult] at hpublished
            exact htrans _ _ _ hwritten hpublished
        next => exact hwritten

theorem publishLoop_rel (hrefl : ∀ b, R b b)
    (htrans : ∀ b b' b'', R b b' → R b' b'' → R b b'')
    (hpublish : ∀ b a, R b (b.publishCurrentCounted a).2)
    (alloc : Nat → Allocation) (loops : Nat) (b : FileBackend φ) :
    R b (publishLoop alloc loops b) := by
  induction loops generalizing alloc b with
  | zero => exact hrefl b
  | succ loops ih =>
      have hpublished := hpublish b (alloc 0)
      unfold publishLoop
      split
      next b' hresult =>
        rw [hresult] at hpublished
        exact htrans _ _ _ hpublished (ih _ b')
      next b' hresult =>
        rw [hresult] at hpublished
        exact hpublished

theorem onShutdownLoop_rel (dev : FileDevice φ) (a : Allocation)
    (hrefl : ∀ b, R b b) (htrans : ∀ b b' b'', R b b' → R b' b'' → R b b'')
    (hwrite : ∀ b, R b (writeReadyData dev b).2)
    (hpublish : ∀ b a, R b (b.publishCurrentCounted a).2) (loops : Nat)
    (b : FileBackend φ) : R b (onShutdownLoop dev a loops b) := by
  induction loops generalizing b with
  | zero => exact hrefl b
  | succ loops ih =>
      have hwritten := hwrite b
      unfold onShutdownLoop
      split
      next => exact hrefl b
      next =>
        split
        next b' hresult =>
          rw [hresult] at hwritten
          exact htrans _ _ _ hwritten (ih b')
        next b' hresult =>
          rw [hresult] at hwritten
          have hpublished := hpublish b' a
          split
          next b'' hresult =>
            rw [hresult] at hpublished
            exact htrans _ _ _ hwritten (htrans _ _ _ hpublished (ih b''))
          next b'' hresult =>
            rw [hresult] at hpublished
            exact htrans _ _ _ hwritten hpublished

end Loops

/-! ## The worker keeps the accounts -/

/-- What the worker's loops preserve, and what they leave alone. -/
structure Drained (b b' : FileBackend φ) : Prop where
  async : b'.async = b.async
  registered : b'.registered = b.registered
  shutdownFlag : b'.shutdownFlag = b.shutdownFlag
  flushTime : b'.flushTime = b.flushTime
  accounted : b.Accounted → b'.Accounted

theorem Drained.refl (b : FileBackend φ) : Drained b b :=
  ⟨rfl, rfl, rfl, rfl, id⟩

theorem Drained.trans {b b' b'' : FileBackend φ} (hfirst : Drained b b')
    (hsecond : Drained b' b'') : Drained b b'' :=
  ⟨hsecond.async.trans hfirst.async,
    hsecond.registered.trans hfirst.registered,
    hsecond.shutdownFlag.trans hfirst.shutdownFlag,
    hsecond.flushTime.trans hfirst.flushTime,
    fun h => hsecond.accounted (hfirst.accounted h)⟩

theorem fetchSub_eq {value amount : Nat} (h : amount ≤ value) :
    fetchSub value amount = value - amount := by
  rw [fetchSub, if_pos h]

/-- The batch that is taken off the queue is taken off the counter. -/
theorem writeReadyData_drained (dev : FileDevice φ) (b : FileBackend φ) :
    Drained b (writeReadyData dev b).2 := by
  unfold writeReadyData BufferQueue.takeReady
  split
  next queue htake =>
    simp only [Prod.mk.injEq] at htake
    rcases htake with ⟨hready, rfl⟩
    refine ⟨rfl, rfl, rfl, rfl, fun h => ⟨?_, h.flagExact⟩⟩
    have hexact := h.exact
    simpa [BufferQueue.bytes, hready] using hexact
  next data queue _ htake =>
    simp only [Prod.mk.injEq] at htake
    rcases htake with ⟨rfl, rfl⟩
    refine ⟨rfl, rfl, rfl, rfl, fun h => ?_⟩
    have hexact := h.exact
    rw [BufferQueue.bytes, List.length_append] at hexact
    constructor
    · dsimp only
      rw [hexact, fetchSub_eq (Nat.le_add_right _ _), Nat.add_sub_cancel_left]
      split_ifs <;> simp [BufferQueue.bytes]
    · have hflag := h.flagExact
      dsimp only
      split_ifs <;> exact hflag

theorem publishCurrentCounted_drained (b : FileBackend φ) (a : Allocation) :
    Drained b (b.publishCurrentCounted a).2 := by
  have hspec := b.queue.publishCurrent_spec a
  unfold publishCurrentCounted
  refine ⟨rfl, rfl, rfl, rfl, fun h => ⟨?_, hspec.flagExact h.flagExact⟩⟩
  rw [hspec.bytes]
  exact h.exact

theorem workerLoop_drained (dev : FileDevice φ) (a : Allocation)
    (loops : Nat) (forceFlush : Bool) (b : FileBackend φ) :
    Drained b (workerLoop dev a loops forceFlush b) :=
  workerLoop_rel dev a .refl (fun _ _ _ => .trans)
    (writeReadyData_drained dev) publishCurrentCounted_drained loops forceFlush b

theorem updateFromOldest_flushTime (b : FileBackend φ) (oldest now : Nat) :
    (b.updateFromOldest oldest now).flushTime ≠ 0 := by
  unfold updateFromOldest
  split
  next => simp [RIGHT_NOW]
  next h =>
    dsimp only
    omega

/-- Whatever the worker leaves in the queue has a time at which it is due. -/
theorem updateFlushTimeAfterWork_served (b : FileBackend φ) (now later : Nat)
    (hacc : b.Accounted) (hpending : b.flushTime ≠ 0) :
    (b.updateFlushTimeAfterWork now later).Served := by
  unfold updateFlushTimeAfterWork
  by_cases holdest : b.oldestDataTime ≠ 0
  · rw [if_pos holdest]
    exact fun _ => b.updateFromOldest_flushTime _ now
  · rw [if_neg holdest]
    by_cases hflag : b.queue.hasCurrentDataFlagged = true
    · rw [if_pos hflag]
      exact fun _ => hpending
    · rw [if_neg hflag]
      dsimp only
      -- the second look at the queue finds the same
      have hsame : ({ b with flushTime := 0 } : FileBackend φ).oldestDataTime =
          b.oldestDataTime := rfl
      rw [hsame, if_neg holdest]
      by_cases hready : b.queue.hasReady = true
      · rw [if_pos hready]
        exact fun _ => by simp [RIGHT_NOW]
      · rw [if_neg hready, if_neg hflag]
        intro hqueued
        exfalso
        have hcurrent : b.queue.current.data = [] := by
          by_contra hdata
          exact hflag (hacc.flagExact.mpr hdata)
        have hlist : b.queue.readyList = [] := by
          simpa [BufferQueue.hasReady] using hready
        apply hqueued
        dsimp only
        rw [hacc.exact]
        simp [BufferQueue.bytes, hcurrent, hlist]

theorem updateFlushTimeAfterWork_frame (b : FileBackend φ)
    (now later : Nat) :
    ∃ time, b.updateFlushTimeAfterWork now later =
      { b with flushTime := time } := by
  unfold updateFlushTimeAfterWork updateFromOldest
  dsimp only
  split_ifs <;> exact ⟨_, rfl⟩

/-- A run of the worker on a backend with a request. -/
theorem workerFunc_spec (dev : FileDevice φ) (b : FileBackend φ)
    (now later : Nat) (a : Allocation) (hacc : b.Accounted)
    (hpending : b.flushTime ≠ 0) :
    let r := workerFunc dev b now later a
    r.1 = !b.shutdownFlag ∧ r.2.async = b.async ∧
      r.2.registered = b.registered ∧ r.2.shutdownFlag = b.shutdownFlag ∧
      r.2.Accounted ∧ r.2.Served := by
  let drained :=
    workerLoop dev a maxWriteLoops
      (b.shutdownFlag || decide (b.flushTime = RIGHT_NOW)) b
  have hdrained : Drained b drained := workerLoop_drained dev a _ _ b
  have hcounted := hdrained.accounted hacc
  have hserved :=
    updateFlushTimeAfterWork_served drained now later hcounted
      (by rw [hdrained.flushTime]; exact hpending)
  rcases updateFlushTimeAfterWork_frame drained now later with ⟨time, hframe⟩
  have hr : workerFunc dev b now later a =
      (!drained.shutdownFlag, { drained with flushTime := time }) := by
    unfold workerFunc
    dsimp only
    rw [hframe]
  rw [hframe] at hserved
  rw [hr]
  exact ⟨by rw [hdrained.shutdownFlag], hdrained.async, hdrained.registered,
    hdrained.shutdownFlag, ⟨hcounted.exact, hcounted.flagExact⟩, hserved⟩

/-! ## Flush and shutdown -/

theorem publishLoop_drained (alloc : Nat → Allocation) (loops : Nat)
    (b : FileBackend φ) : Drained b (publishLoop alloc loops b) :=
  publishLoop_rel .refl (fun _ _ _ => .trans) publishCurrentCounted_drained
    alloc loops b

/-- A successful publication leaves an empty buffer, so the loop of `Flush`
leaves off in its second iteration. -/
theorem publishLoop_stable (alloc : Nat → Allocation) (loops : Nat)
    (b : FileBackend φ) :
    publishLoop alloc (loops + 2) b = publishLoop alloc 2 b := by
  have hempty : ∀ (b : FileBackend φ) (a : Allocation),
      b.queue.current.data = [] → (b.publishCurrentCounted a).1 = false :=
    fun b a h => (b.queue.publishCurrent_spec a).refused h
  have hfirst := (b.queue.publishCurrent_spec (alloc 0)).emptied
  rw [publishLoop, publishLoop]
  cases hpublish : b.publishCurrentCounted (alloc 0) with
  | mk ok b' =>
      cases ok with
      | false => rfl
      | true =>
          simp only [publishCurrentCounted, Prod.mk.injEq] at hpublish
          have hcurrent : b'.queue.current.data = [] := by
            rw [← hpublish.2]
            exact hfirst hpublish.1
          have hsecond := hempty b' (alloc 1) hcurrent
          dsimp only
          rw [publishLoop, publishLoop]
          cases hagain : b'.publishCurrentCounted (alloc 1) with
          | mk ok b'' =>
              rw [hagain] at hsecond
              dsimp only at hsecond
              subst ok
              simp

theorem Drained.transition {b b' : FileBackend φ} (h : Drained b b') :
    Transition b b' none :=
  ⟨h.async, h.registered, h.shutdownFlag, h.accounted, fun _ => h.flushTime,
    by simp⟩

theorem flush_transition (b : FileBackend φ) (alloc : Nat → Allocation) :
    Transition b (b.flush alloc).1 (b.flush alloc).2 ∧
      (b.Served → (b.flush alloc).1.Served) := by
  unfold flush
  split
  next => exact ⟨.refl b, id⟩
  next =>
    have hloop := (publishLoop_drained alloc 2 b).transition
    rcases requestFlush_transition (publishLoop alloc 2 b) RIGHT_NOW
        (by decide) with ⟨htrans, hflush, -⟩
    exact ⟨hloop.trans htrans, fun _ _ => hflush⟩

theorem freeze_transition (b : FileBackend φ) :
    Transition { b with shutdownFlag := true } b.freeze.1 b.freeze.2 ∧
      (b.Served → b.freeze.1.Served) := by
  unfold freeze
  dsimp only
  split
  next =>
    rcases requestFlush_transition
        ({ b with shutdownFlag := true } : FileBackend φ) RIGHT_NOW
        (by decide) with ⟨htrans, hflush, -⟩
    exact ⟨htrans, fun _ _ => hflush⟩
  next => exact ⟨.refl _, id⟩

theorem onShutdownLoop_drained (dev : FileDevice φ) (a : Allocation)
    (loops : Nat) (b : FileBackend φ) :
    Drained b (onShutdownLoop dev a loops b) :=
  onShutdownLoop_rel dev a .refl (fun _ _ _ => .trans)
    (writeReadyData_drained dev) publishCurrentCounted_drained loops b

end FileBackend

end Logme
