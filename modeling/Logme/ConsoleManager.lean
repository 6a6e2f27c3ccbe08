import Mathlib.Algebra.GroupWithZero.Nat
import Mathlib.Data.List.Basic
import Logme.Library.StepSystem
import Logme.Library.Threads
import Logme.SubsystemLevels

/-!
# The console manager

Threads push records into a buffer; the worker takes the whole buffer and
writes its records to the console.  `Flush`, and a push that finds no space and
no worker, take and write the buffer themselves.  A step of the system below is
one section under the lock of the manager, one write under the output lock, or
one notification.  A wait with a timeout may end at any time, and so may the
wait of the worker.
-/

namespace Logme

open StepSystem Threads

inductive ConsoleTarget where
  | stdout
  | stderr
  deriving DecidableEq

inductive ConsoleOverflowPolicy where
  | block
  | dropNew
  | dropOldest
  deriving DecidableEq

/-- A record; `id` counts the pushes, so that two equal records are told from
each other. -/
structure ConsoleRecord where
  id : Nat
  target : ConsoleTarget
  level : Level
  highlight : Bool
  text : List UInt8
  deriving DecidableEq

namespace ConsoleRecord

/-- The size with its header. -/
def size (r : ConsoleRecord) : Nat := 16 + r.text.length

def hasAnsi (r : ConsoleRecord) : Bool := r.text.contains 0x1B

/-- The record may be written together with others. -/
def plain (r : ConsoleRecord) : Bool := !r.highlight && !r.hasAnsi

end ConsoleRecord

/-! ## Writing a buffer -/

def flushPlainBatch (batch : List ConsoleRecord) : List (List ConsoleRecord) :=
  if batch = [] then [] else [batch]

/-- The loop of `ProcessBuffer`, with the batch and its stream: the writes. -/
def processRecords : Option ConsoleTarget → List ConsoleRecord →
    List ConsoleRecord → List (List ConsoleRecord)
  | _, batch, [] => flushPlainBatch batch
  | stream, batch, r :: rest =>
      if r.plain then
        if stream = some r.target then processRecords stream (batch ++ [r]) rest
        else flushPlainBatch batch ++ processRecords (some r.target) [r] rest
      else flushPlainBatch batch ++ [r] :: processRecords none [] rest

def processBuffer (buffer : List ConsoleRecord) : List (List ConsoleRecord) :=
  processRecords none [] buffer

theorem flatten_flushPlainBatch (batch : List ConsoleRecord) :
    (flushPlainBatch batch).flatten = batch := by
  unfold flushPlainBatch
  split
  next h => rw [h]; rfl
  next => simp

theorem flatten_processRecords (stream : Option ConsoleTarget)
    (batch records : List ConsoleRecord) :
    (processRecords stream batch records).flatten = batch ++ records := by
  induction records generalizing stream batch with
  | nil => simp [processRecords, flatten_flushPlainBatch]
  | cons r rest ih =>
      rw [processRecords]
      split
      next =>
        split
        next => rw [ih, List.append_assoc, List.singleton_append]
        next => rw [List.flatten_append, flatten_flushPlainBatch, ih,
          List.singleton_append]
      next => simp [flatten_flushPlainBatch, ih]

/-- The records are written in their order. -/
theorem flatten_processBuffer (buffer : List ConsoleRecord) :
    (processBuffer buffer).flatten = buffer :=
  flatten_processRecords none [] buffer

/-! ## The system -/

/-- The state of a call of `ProcessBuffer`. -/
inductive Printing where
  | waiting (buffer : List ConsoleRecord)
  | writing (writes : List (List ConsoleRecord))
  | finished
  deriving DecidableEq

/-- What has been taken and not yet written. -/
def Printing.held : Printing → List ConsoleRecord
  | waiting buffer => buffer
  | writing writes => writes.flatten
  | finished => []

/-- A record to push; `flush` for `PushAndFlush`, which always blocks. -/
structure PushCall where
  target : ConsoleTarget
  level : Level
  highlight : Bool
  text : List UInt8
  flush : Bool
  deriving DecidableEq

/-- What `DrainPending` was called for. -/
inductive DrainCaller where
  | push (call : PushCall)
  | flush (mark : Nat)
  | nobody
  deriving DecidableEq

/-- Where a thread that uses the manager is.  `mark` is the number of records
that had been pushed when `Flush` was called. -/
inductive ConsolePc where
  | idle
  | flushed (mark : Nat)
  | push (call : PushCall)
  | blocked (call : PushCall)
  | notify (flush : Bool)
  | flush (mark : Nat)
  | idleWait (mark : Nat)
  | drain (caller : DrainCaller)
  | printing (state : Printing) (caller : DrainCaller)
  | startWorker
  | setStopping
  | reschedule
  | wake
  deriving DecidableEq

inductive ConsoleWorker where
  | notStarted
  | look
  | waiting (notified : Bool)
  | printing (state : Printing) (stopping : Bool)
  | checkBuffer
  | finish
  | exited
  deriving DecidableEq

structure ConsoleSystem (τ : Type) where
  stopRequested : Bool
  needsReschedule : Bool
  processing : Bool
  buffer : List ConsoleRecord
  maxRecords : Nat
  maxBytes : Nat
  overflowPolicy : ConsoleOverflowPolicy
  outputLock : Bool
  worker : ConsoleWorker
  pc : τ → ConsolePc
  pushed : List ConsoleRecord
  dropped : List Nat
  written : List ConsoleRecord

inductive ConsoleCall where
  | push (call : PushCall)
  | flush
  | drainPending
  | startWorker
  | setStopping
  | notify
  deriving DecidableEq

inductive ConsoleStep (τ : Type) where
  | settings (maxRecords maxBytes : Nat) (policy : ConsoleOverflowPolicy)
  | call (t : τ) (call : ConsoleCall)
  | step (t : τ)
  | worker

namespace ConsolePc

/-- The thread is outside the manager. -/
def resting : ConsolePc → Bool
  | idle | flushed _ => true
  | _ => false

/-- The thread has pushed a record and is to notify the worker. -/
def notifying : ConsolePc → Bool
  | notify _ => true
  | _ => false

/-- The thread is inside the loop of `DrainPending`, which it leaves only when it
finds the buffer empty. -/
def draining : ConsolePc → Bool
  | drain _ | printing .. => true
  | _ => false

def isPrinting : ConsolePc → Bool
  | printing .. => true
  | _ => false

/-- The thread is bound to wake the worker or to look at the buffer. -/
def bound (pc : ConsolePc) : Bool := pc.notifying || pc.draining

def held : ConsolePc → List ConsoleRecord
  | printing state _ => state.held
  | _ => []

end ConsolePc

namespace ConsoleWorker

/-- `WorkerRunning`, once the thread has been started. -/
def running : ConsoleWorker → Bool
  | notStarted | exited => false
  | _ => true

def isPrinting : ConsoleWorker → Bool
  | printing .. => true
  | _ => false

def held : ConsoleWorker → List ConsoleRecord
  | printing state _ => state.held
  | _ => []

/-- `CV.notify_one`. -/
def notify : ConsoleWorker → ConsoleWorker
  | waiting _ => waiting true
  | worker => worker

end ConsoleWorker

namespace ConsoleSystem

variable {τ : Type} [DecidableEq τ]

def initial : ConsoleSystem τ where
  stopRequested := false
  needsReschedule := false
  processing := false
  buffer := []
  maxRecords := 0
  maxBytes := 0
  overflowPolicy := .block
  outputLock := false
  worker := .notStarted
  pc := fun _ => .idle
  pushed := []
  dropped := []
  written := []

def setPc (s : ConsoleSystem τ) (t : τ) (pc : ConsolePc) : ConsoleSystem τ :=
  { s with pc := Function.update s.pc t pc }

def queuedBytes (buffer : List ConsoleRecord) : Nat :=
  (buffer.map ConsoleRecord.size).sum

def hasSpace (s : ConsoleSystem τ) (buffer : List ConsoleRecord)
    (recordSize : Nat) : Bool :=
  (s.maxRecords = 0 || buffer.length < s.maxRecords) &&
    (s.maxBytes = 0 || queuedBytes buffer = 0 ||
      queuedBytes buffer + recordSize ≤ s.maxBytes)

/-- The loop of `DropOldest`: the records that go and those that stay. -/
def dropOldest (s : ConsoleSystem τ) (recordSize : Nat) :
    List ConsoleRecord → List ConsoleRecord × List ConsoleRecord
  | [] => ([], [])
  | r :: rest =>
      if s.hasSpace (r :: rest) recordSize then ([], r :: rest)
      else
        let later := s.dropOldest recordSize rest
        (r :: later.1, later.2)

def workerAvailable (s : ConsoleSystem τ) : Bool :=
  s.worker.running && !s.stopRequested

/-- The record of a push. -/
def recordOf (s : ConsoleSystem τ) (call : PushCall) : ConsoleRecord :=
  ⟨s.pushed.length, call.target, call.level, call.highlight, call.text⟩

/-- Where a push ends; `PushAndFlush` goes on with `Flush`. -/
def afterPush (flush : Bool) (mark : Nat) : ConsolePc :=
  if flush then .flush mark else .idle

/-- The record is appended to what is left of the buffer; the worker is to be
notified when the buffer was empty and nobody seems to work on it. -/
def append (s : ConsoleSystem τ) (t : τ) (call : PushCall)
    (gone rest : List ConsoleRecord) : ConsoleSystem τ :=
  let notifyWorker : Bool := rest = [] && !s.processing
  ({ s with
      buffer := rest ++ [s.recordOf call]
      needsReschedule := s.needsReschedule || notifyWorker
      pushed := s.pushed ++ [s.recordOf call]
      dropped := s.dropped ++ gone.map ConsoleRecord.id }).setPc t
    (if notifyWorker then .notify call.flush
      else afterPush call.flush (s.pushed.length + 1))

/-- The new record is dropped. -/
def dropNew (s : ConsoleSystem τ) (t : τ) (call : PushCall)
    (gone rest : List ConsoleRecord) : ConsoleSystem τ :=
  ({ s with
      buffer := rest
      pushed := s.pushed ++ [s.recordOf call]
      dropped := s.dropped ++ gone.map ConsoleRecord.id ++ [s.pushed.length] }).setPc t
    (afterPush call.flush (s.pushed.length + 1))

/-- The wait of a push for space, inside the lock. -/
def block (s : ConsoleSystem τ) (t : τ) (call : PushCall) : ConsoleSystem τ :=
  if s.hasSpace s.buffer (s.recordOf call).size then s.append t call [] s.buffer
  else if s.workerAvailable then s.setPc t (.blocked call)
  else s.setPc t (.drain (.push call))

/-- One round of the loop of `PushRecord`. -/
def pushRecord (s : ConsoleSystem τ) (t : τ) (call : PushCall) : ConsoleSystem τ :=
  if s.hasSpace s.buffer (s.recordOf call).size then s.append t call [] s.buffer
  else if call.flush then s.block t call
  else
    match s.overflowPolicy with
    | .block => s.block t call
    | .dropNew => s.dropNew t call [] s.buffer
    | .dropOldest =>
        let split := s.dropOldest (s.recordOf call).size s.buffer
        if s.hasSpace split.2 (s.recordOf call).size then
          s.append t call split.1 split.2
        else s.dropNew t call split.1 split.2

/-- One round of the loop of `Flush`. -/
def flushRound (s : ConsoleSystem τ) (t : τ) (mark : Nat) : ConsoleSystem τ :=
  if s.processing then
    if s.workerAvailable then s.setPc t (.idleWait mark)
    else ({ s with processing := false }).setPc t (.flush mark)
  else if s.buffer ≠ [] then s.setPc t (.drain (.flush mark))
  else s.setPc t (.flushed mark)

/-- Where a thread goes on after `DrainPending`. -/
def afterDrain : DrainCaller → ConsolePc
  | .push call => .push call
  | .flush mark => .flush mark
  | .nobody => .idle

/-- One step of `ProcessBuffer`: the output lock is free or not, and what has
been written. -/
def printStep (s : ConsoleSystem τ) :
    Printing → Option (ConsoleSystem τ × Printing)
  | .waiting buffer =>
      if s.outputLock then none
      else some ({ s with outputLock := true }, .writing (processBuffer buffer))
  | .writing (write :: writes) =>
      some ({ s with written := s.written ++ write }, .writing writes)
  | .writing [] => some ({ s with outputLock := false }, .finished)
  | .finished => none

def stepThread (s : ConsoleSystem τ) (t : τ) : Option (ConsoleSystem τ) :=
  match s.pc t with
  | .idle | .flushed _ => none
  | .push call => some (s.pushRecord t call)
  | .blocked call => some (s.block t call)
  | .notify flush =>
      some (({ s with worker := s.worker.notify }).setPc t
        (afterPush flush s.pushed.length))
  | .flush mark => some (s.flushRound t mark)
  | .idleWait mark =>
      some (({ s with processing := s.processing && s.workerAvailable }).setPc t
        (.flush mark))
  | .drain caller =>
      if s.buffer = [] then some (s.setPc t (afterDrain caller))
      else
        some (({ s with buffer := [], processing := true }).setPc t
          (.printing (.waiting s.buffer) caller))
  | .printing .finished caller =>
      some (({ s with processing := false }).setPc t (.drain caller))
  | .printing state caller =>
      (s.printStep state).map fun next =>
        next.1.setPc t (.printing next.2 caller)
  | .startWorker =>
      some (if s.worker = .notStarted ∧ s.stopRequested = false then
          ({ s with worker := .look }).setPc t .idle
        else s.setPc t .idle)
  | .setStopping =>
      some (({ s with stopRequested := true, needsReschedule := true }).setPc t .wake)
  | .reschedule => some (({ s with needsReschedule := true }).setPc t .wake)
  | .wake => some (({ s with worker := s.worker.notify }).setPc t .idle)

def stepWorker (s : ConsoleSystem τ) : Option (ConsoleSystem τ) :=
  match s.worker with
  | .notStarted | .exited => none
  | .look =>
      if s.stopRequested ∨ s.needsReschedule ∨ s.buffer ≠ [] then
        some { s with
          needsReschedule := false
          buffer := []
          processing := s.buffer ≠ []
          worker := .printing (if s.buffer = [] then .finished else .waiting s.buffer)
            s.stopRequested }
      else some { s with worker := .waiting false }
  | .waiting _ => some { s with worker := .look }
  | .printing .finished stopping =>
      some { s with
        processing := false
        worker := if stopping then .checkBuffer else .look }
  | .printing state stopping =>
      (s.printStep state).map fun next =>
        { next.1 with worker := .printing next.2 stopping }
  | .checkBuffer =>
      if s.buffer = [] then some { s with worker := .finish }
      else some { s with needsReschedule := true, worker := .look }
  | .finish => some { s with processing := false, worker := .exited }

/-- Where a call starts; a record without text is no push, and one that is too
long is refused. -/
def begin (s : ConsoleSystem τ) : ConsoleCall → ConsolePc
  | .push call =>
      if call.text = [] ∨ 2 ^ 32 ≤ 16 + call.text.length then .idle else .push call
  | .flush => .flush s.pushed.length
  | .drainPending => .drain .nobody
  | .startWorker => .startWorker
  | .setStopping => .setStopping
  | .notify => .reschedule

def step (s : ConsoleSystem τ) : ConsoleStep τ → Option (ConsoleSystem τ)
  | .settings maxRecords maxBytes policy =>
      some { s with
        maxRecords := maxRecords
        maxBytes := maxBytes
        overflowPolicy := policy }
  | .call t call =>
      if (s.pc t).resting then some (s.setPc t (s.begin call)) else none
  | .step t => s.stepThread t
  | .worker => s.stepWorker

/-! ## What a step can do -/

section Steps

variable {s s' : ConsoleSystem τ} {t : τ} {next : ConsolePc}

omit [DecidableEq τ] in
theorem dropOldest_append (s : ConsoleSystem τ) (recordSize : Nat)
    (buffer : List ConsoleRecord) :
    (s.dropOldest recordSize buffer).1 ++ (s.dropOldest recordSize buffer).2 =
      buffer := by
  induction buffer with
  | nil => rfl
  | cons r rest ih =>
      rw [dropOldest]
      split
      next => rfl
      next => simpa using ih

/-- The outcomes of a push in one section under the lock. -/
inductive Pushed (s : ConsoleSystem τ) (t : τ) (call : PushCall) :
    ConsoleSystem τ → Prop
  | appended (gone rest : List ConsoleRecord) (hbuffer : gone ++ rest = s.buffer) :
      Pushed s t call (s.append t call gone rest)
  | droppedNew (gone rest : List ConsoleRecord) (hbuffer : gone ++ rest = s.buffer) :
      Pushed s t call (s.dropNew t call gone rest)
  | blocked : Pushed s t call (s.setPc t (.blocked call))
  | drains : Pushed s t call (s.setPc t (.drain (.push call)))

theorem block_pushed (s : ConsoleSystem τ) (t : τ) (call : PushCall) :
    Pushed s t call (s.block t call) := by
  unfold block
  split
  next => exact .appended [] s.buffer rfl
  next =>
    split
    next => exact .blocked
    next => exact .drains

theorem pushRecord_pushed (s : ConsoleSystem τ) (t : τ) (call : PushCall) :
    Pushed s t call (s.pushRecord t call) := by
  have hsplit := s.dropOldest_append (s.recordOf call).size s.buffer
  unfold pushRecord
  split
  next => exact .appended [] s.buffer rfl
  next =>
    split
    next => exact s.block_pushed t call
    next =>
      split
      next => exact s.block_pushed t call
      next => exact .droppedNew [] s.buffer rfl
      next =>
        dsimp only
        split
        next => exact .appended _ _ hsplit
        next => exact .droppedNew _ _ hsplit

omit [DecidableEq τ] in
/-- `ProcessBuffer` writes what it holds, from the front. -/
theorem printStep_spec {state state' : Printing}
    (h : s.printStep state = some (s', state')) :
    ∃ (lock : Bool) (write : List ConsoleRecord),
      s' = { s with outputLock := lock, written := s.written ++ write } ∧
        state.held = write ++ state'.held := by
  unfold printStep at h
  split at h
  next buffer =>
    split at h
    next => contradiction
    next =>
      cases h
      exact ⟨true, [], by simp, by simp [Printing.held, flatten_processBuffer]⟩
  next write writes =>
    cases h
    exact ⟨s.outputLock, write, rfl, by simp [Printing.held]⟩
  next =>
    cases h
    exact ⟨false, [], by simp, rfl⟩
  next => contradiction

/-! ## No record is stranded -/

/-- While the buffer holds records and the worker sleeps, some thread is bound
to see to them; and while `Processing` is set, somebody prints. -/
structure Watched (s : ConsoleSystem τ) : Prop where
  watched : (s.buffer = [] ∨ s.worker ≠ .waiting false) ∨
    ∃ t, (s.pc t).bound = true
  working : (s.processing = false ∨ s.worker.isPrinting = true) ∨
    ∃ t, (s.pc t).isPrinting = true

omit [DecidableEq τ] in
theorem initial_watched : (initial : ConsoleSystem τ).Watched :=
  ⟨.inl (.inl rfl), .inl (.inl rfl)⟩

omit [DecidableEq τ] in
theorem bound_of_isPrinting {pc : ConsolePc} (h : pc.isPrinting = true) :
    pc.bound = true := by
  cases pc <;> first | rfl | contradiction

/-- A thread moves on, and stays bound. -/
theorem Watched.setPc (h : s.Watched)
    (hbound : (s.pc t).bound = true → next.bound = true)
    (hprinting : (s.pc t).isPrinting = true → next.isPrinting = true) :
    (s.setPc t next).Watched where
  watched := by
    cases ht : (s.pc t).bound with
    | true => exact .inr (exists_update_self (hbound ht))
    | false => exact or_exists_update h.watched ht
  working := by
    cases ht : (s.pc t).isPrinting with
    | true => exact .inr (exists_update_self (hprinting ht))
    | false => exact or_exists_update h.working ht

/-- A record is appended: a buffer that was not empty was seen to, and while
somebody prints the notification may be left out. -/
theorem Watched.append {call : PushCall} {gone rest : List ConsoleRecord}
    (h : s.Watched) (hpc : (s.pc t).bound = false) (hbuffer : gone ++ rest = s.buffer) :
    (s.append t call gone rest).Watched := by
  have hprinting : (s.pc t).isPrinting = false := by
    rw [Bool.eq_false_iff]
    intro hp
    rw [bound_of_isPrinting hp] at hpc
    contradiction
  unfold ConsoleSystem.append
  dsimp only
  split
  next => exact ⟨.inr (exists_update_self rfl), or_exists_update h.working hprinting⟩
  next hnot =>
    have hseen : (rest ++ [s.recordOf call] = [] ∨ s.worker ≠ .waiting false) ∨
        ∃ u, (s.pc u).bound = true := by
      by_cases hrest : rest = []
      · -- `Processing` is set, so somebody prints
        have hprocessing : s.processing = true := by simpa [hrest] using hnot
        rcases h.working with (hfalse | hworker) | ⟨u, hu⟩
        · rw [hprocessing] at hfalse
          contradiction
        · refine .inl (.inr fun hwaiting => ?_)
          rw [hwaiting] at hworker
          contradiction
        · exact .inr ⟨u, bound_of_isPrinting hu⟩
      · rcases h.watched with (hempty | hworker) | hother
        · rw [hempty] at hbuffer
          exact absurd (List.append_eq_nil_iff.mp hbuffer).2 hrest
        · exact .inl (.inr hworker)
        · exact .inr hother
    exact ⟨or_exists_update hseen hpc, or_exists_update h.working hprinting⟩

theorem Watched.dropNew {call : PushCall} {gone rest : List ConsoleRecord}
    (h : s.Watched) (hpc : (s.pc t).bound = false) (hbuffer : gone ++ rest = s.buffer) :
    (s.dropNew t call gone rest).Watched := by
  have hseen : (rest = [] ∨ s.worker ≠ .waiting false) ∨ ∃ u, (s.pc u).bound = true := by
    rcases h.watched with (hempty | hworker) | hother
    · rw [hempty] at hbuffer
      exact .inl (.inl (List.append_eq_nil_iff.mp hbuffer).2)
    · exact .inl (.inr hworker)
    · exact .inr hother
  have hprinting : (s.pc t).isPrinting = false := by
    rw [Bool.eq_false_iff]
    intro hp
    rw [bound_of_isPrinting hp] at hpc
    contradiction
  exact ⟨or_exists_update hseen hpc, or_exists_update h.working hprinting⟩

theorem Watched.pushed {call : PushCall} (h : s.Watched)
    (hpc : (s.pc t).bound = false) (hpushed : Pushed s t call s') : s'.Watched := by
  have hnot : ∀ {P : Prop}, (s.pc t).bound = true → P := by
    intro P hbound
    rw [hpc] at hbound
    contradiction
  have hprinting : ∀ {P : Prop}, (s.pc t).isPrinting = true → P :=
    fun hp => hnot (bound_of_isPrinting hp)
  cases hpushed with
  | appended gone rest hbuffer => exact h.append hpc hbuffer
  | droppedNew gone rest hbuffer => exact h.dropNew hpc hbuffer
  | blocked => exact h.setPc hnot hprinting
  | drains => exact h.setPc hnot hprinting

/-- `CV.notify_one`: the worker sleeps no more, or it has been notified. -/
theorem Watched.notify (h : s.Watched) (hpc : (s.pc t).isPrinting = false) :
    Watched (({ s with worker := s.worker.notify }).setPc t next) where
  watched := by
    refine .inl (.inr ?_)
    change s.worker.notify ≠ .waiting false
    cases s.worker <;> simp [ConsoleWorker.notify]
  working := by
    have hsame : s.worker.notify.isPrinting = s.worker.isPrinting := by
      cases s.worker <;> rfl
    have hworking := h.working
    rw [← hsame] at hworking
    exact or_exists_update hworking hpc

theorem Watched.flushRound {mark : Nat} (h : s.Watched) (hpc : s.pc t = .flush mark) :
    (s.flushRound t mark).Watched := by
  have hbound : ∀ {P : Prop}, (s.pc t).bound = true → P := by
    intro P hb
    rw [hpc] at hb
    contradiction
  have hprinting : ∀ {P : Prop}, (s.pc t).isPrinting = true → P :=
    fun hp => hbound (bound_of_isPrinting hp)
  unfold ConsoleSystem.flushRound
  split
  next =>
    split
    next => exact h.setPc hbound hprinting
    next => exact ⟨or_exists_update h.watched (by rw [hpc]; rfl), .inl (.inl rfl)⟩
  next =>
    split
    next => exact h.setPc hbound hprinting
    next => exact h.setPc hbound hprinting

/-- A thread takes the buffer, or leaves `DrainPending` because it is empty. -/
theorem Watched.drain {caller : DrainCaller} (h : s.Watched)
    (hpc : s.pc t = .drain caller) :
    Watched (if s.buffer = [] then s.setPc t (afterDrain caller)
      else ({ s with buffer := [], processing := true }).setPc t
        (.printing (.waiting s.buffer) caller)) := by
  split
  next hempty =>
    exact ⟨.inl (.inl hempty), or_exists_update h.working (by rw [hpc]; rfl)⟩
  next => exact ⟨.inr (exists_update_self rfl), .inr (exists_update_self rfl)⟩

theorem Watched.printing {state : Printing} {caller : DrainCaller} (h : s.Watched)
    (hstep : (s.printStep state).map (fun next =>
      next.1.setPc t (.printing next.2 caller)) = some s') : s'.Watched := by
  obtain ⟨⟨printed, state'⟩, hprint, rfl⟩ := Option.map_eq_some_iff.mp hstep
  obtain ⟨lock, write, rfl, -⟩ := printStep_spec hprint
  have hsame : Watched
      { s with outputLock := lock, written := s.written ++ write } :=
    ⟨h.watched, h.working⟩
  exact hsame.setPc (fun _ => rfl) (fun _ => rfl)

theorem stepThread_watched (h : s.Watched) (hstep : s.stepThread t = some s') :
    s'.Watched := by
  unfold stepThread at hstep
  split at hstep
  next => contradiction
  next => contradiction
  next call hpc =>
    cases hstep
    exact h.pushed (by rw [hpc]; rfl) (s.pushRecord_pushed t call)
  next call hpc =>
    cases hstep
    exact h.pushed (by rw [hpc]; rfl) (s.block_pushed t call)
  next flush hpc =>
    cases hstep
    exact h.notify (by rw [hpc]; rfl)
  next mark hpc =>
    cases hstep
    exact h.flushRound hpc
  next mark hpc =>
    cases hstep
    refine ⟨or_exists_update h.watched (by rw [hpc]; rfl), ?_⟩
    have hworking : ((s.processing && s.workerAvailable) = false ∨
        s.worker.isPrinting = true) ∨ ∃ u, (s.pc u).isPrinting = true :=
      h.working.imp_left (Or.imp_left fun hfalse => by rw [hfalse]; rfl)
    exact or_exists_update hworking (by rw [hpc]; rfl)
  next caller hpc =>
    have hdrained := h.drain hpc
    split at hstep
    next hempty =>
      cases hstep
      rwa [if_pos hempty] at hdrained
    next hempty =>
      cases hstep
      rwa [if_neg hempty] at hdrained
  next caller hpc =>
    cases hstep
    exact ⟨.inr (exists_update_self rfl), .inl (.inl rfl)⟩
  next state caller _ hpc => exact h.printing hstep
  next hpc =>
    cases hstep
    split
    next hstart =>
      refine ⟨.inl (.inr (by simp [ConsoleSystem.setPc])), ?_⟩
      have hworking := h.working
      rw [hstart.1] at hworking
      refine or_exists_update (hworking.imp_left fun hprocessing => ?_) (by rw [hpc]; rfl)
      exact .inl (hprocessing.resolve_right (by simp [ConsoleWorker.isPrinting]))
    next => exact h.setPc (by simp [hpc, ConsolePc.bound, ConsolePc.notifying,
      ConsolePc.draining]) (by simp [hpc, ConsolePc.isPrinting])
  next hpc =>
    cases hstep
    exact ⟨or_exists_update h.watched (by rw [hpc]; rfl),
      or_exists_update h.working (by rw [hpc]; rfl)⟩
  next hpc =>
    cases hstep
    exact ⟨or_exists_update h.watched (by rw [hpc]; rfl),
      or_exists_update h.working (by rw [hpc]; rfl)⟩
  next hpc =>
    cases hstep
    exact h.notify (by rw [hpc]; rfl)

omit [DecidableEq τ] in
theorem stepWorker_watched (h : s.Watched) (hstep : s.stepWorker = some s') :
    s'.Watched := by
  have hidle : s.worker.isPrinting = false →
      (s.processing = false ∨ ∀ worker : ConsoleWorker, worker.isPrinting = true) ∨
        ∃ u, (s.pc u).isPrinting = true := by
    intro hnot
    refine h.working.imp_left (Or.imp_right fun hprinting => ?_)
    rw [hnot] at hprinting
    contradiction
  unfold stepWorker at hstep
  split at hstep
  next => contradiction
  next => contradiction
  next hworker =>
    split at hstep
    next =>
      cases hstep
      exact ⟨.inl (.inl rfl), .inl (.inr rfl)⟩
    next hnothing =>
      cases hstep
      have hempty : s.buffer = [] := by
        by_contra hne
        exact hnothing (.inr (.inr hne))
      refine ⟨.inl (.inl hempty), ?_⟩
      exact (hidle (by rw [hworker]; rfl)).imp_left (Or.imp_right fun hall => hall _)
  next hworker =>
    cases hstep
    refine ⟨.inl (.inr (by simp)), ?_⟩
    exact (hidle (by rw [hworker]; rfl)).imp_left (Or.imp_right fun hall => hall _)
  next stopping hworker =>
    cases hstep
    refine ⟨.inl (.inr ?_), .inl (.inl rfl)⟩
    cases stopping <;> simp
  next state stopping _ hworker =>
    obtain ⟨⟨printed, state'⟩, hprint, rfl⟩ := Option.map_eq_some_iff.mp hstep
    obtain ⟨lock, write, rfl, -⟩ := printStep_spec hprint
    exact ⟨.inl (.inr (by simp)), .inl (.inr rfl)⟩
  next hworker =>
    split at hstep
    next =>
      cases hstep
      refine ⟨.inl (.inr (by simp)), ?_⟩
      exact (hidle (by rw [hworker]; rfl)).imp_left (Or.imp_right fun hall => hall _)
    next =>
      cases hstep
      refine ⟨.inl (.inr (by simp)), ?_⟩
      exact (hidle (by rw [hworker]; rfl)).imp_left (Or.imp_right fun hall => hall _)
  next =>
    cases hstep
    exact ⟨.inl (.inr (by simp)), .inl (.inl rfl)⟩

theorem step_watched {a : ConsoleStep τ} (h : s.Watched) (hstep : step s a = some s') :
    s'.Watched := by
  cases a with
  | settings maxRecords maxBytes policy =>
      cases hstep
      exact ⟨h.watched, h.working⟩
  | call t call =>
      simp only [step] at hstep
      split at hstep
      next hresting =>
        cases hstep
        have hbound : (s.pc t).bound = false := by
          cases hpc : s.pc t <;> rw [hpc] at hresting <;> first | rfl | contradiction
        refine h.setPc (fun hb => ?_) fun hp => ?_
        · rw [hbound] at hb
          contradiction
        · rw [bound_of_isPrinting hp] at hbound
          contradiction
      next => contradiction
  | step t => exact stepThread_watched h hstep
  | worker => exact stepWorker_watched h hstep

/-- When the buffer is not empty, the worker is not asleep or has been notified,
or a thread that pushed is still to notify it, or some thread inside `DrainPending` will
look at the buffer again. -/
theorem buffer_seen_to (h : Reachable step initial s) (hbuffer : s.buffer ≠ []) :
    s.worker ≠ .waiting false ∨ (∃ t, (s.pc t).notifying = true) ∨
      ∃ t, (s.pc t).draining = true := by
  have hwatched : s.Watched :=
    h.invariant (fun _ _ _ hs _ hstep => step_watched hs hstep) initial_watched
  rcases hwatched.watched with (hempty | hworker) | ⟨t, ht⟩
  · exact absurd hempty hbuffer
  · exact .inl hworker
  · rw [ConsolePc.bound, Bool.or_eq_true] at ht
    rcases ht with hnotifying | hdraining
    · exact .inr (.inl ⟨t, hnotifying⟩)
    · exact .inr (.inr ⟨t, hdraining⟩)

end Steps

/-! ## A push to a sleeping worker -/

def plainPush (text : List UInt8) : ConsoleCall :=
  .push ⟨.stdout, .info, false, text, false⟩

/-- The worker is started and sleeps, and a record is pushed. -/
def pushToSleeping : List (ConsoleStep Bool) :=
  [.call false .startWorker, .step false, .worker, .call false (plainPush [0x61]),
    .step false]

theorem buffer_seen_to_sleeping :
    ∃ s : ConsoleSystem Bool, Reachable step initial s ∧ s.buffer ≠ [] ∧
      (s.worker ≠ .waiting false ∨ (∃ t, (s.pc t).notifying = true) ∨
        ∃ t, (s.pc t).draining = true) := by
  obtain ⟨s, hreachable, hcheck⟩ := exists_reachable_of_exec step
    (initial : ConsoleSystem Bool) pushToSleeping (fun s => s.buffer ≠ []) (by decide)
  have hbuffer : s.buffer ≠ [] := of_decide_eq_true hcheck
  exact ⟨s, hreachable, hbuffer, buffer_seen_to hreachable hbuffer⟩

end ConsoleSystem
end Logme
