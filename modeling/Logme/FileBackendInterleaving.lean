import Logme.BufferQueueInterleaving
import Logme.FileBackend

/-!
# The file backend under every interleaving

Callers of `AppendOutputData` and of `Flush` share an asynchronous backend
with the one worker that the manager runs.  A step is an atomic operation on
`FlushTime` or `QueuedBytes`, a load of one of the queue's atomics, or a lock
section; the steps of the queue's own functions are those of
`BufferQueue.System`.  Appenders hold the channel's `DataLock` from the call
to the return.  Clock readings, spurious failures of `compare_exchange_weak`
and allocations are resolved by the label of a step.

A write reaches the file or fails; nothing else here depends on which.  The
history variables are the bytes that `QueuedBytes` was raised by, the bytes
handed to a write, the bytes of the retired batches, and whether an immediate
request has been accepted since the worker last began.
-/

namespace Logme

inductive Thread (τ : Type) where
  | worker
  | client (t : τ)
  deriving DecidableEq

/-- Where a caller stands.  A request for a flush is made by
`AppendOutputData`, or by a `Flush` that started when the given bytes had
been counted. -/
inductive CallerPc (β : Type) where
  | idle
  | loadFlushTime (text : List β)
  | append (text : List β) (firstWriteTime : Nat)
  | appending (text : List β)
  | count (text : List β) (firstData : Bool)
  | getUsedBuffers (firstData : Bool) (queued : Nat)
  | reloadFlushTime (firstData pressure : Bool)
  | setFirstWriteTime (value : Nat) (request : Option Nat)
  | requestFlush (time : Nat) (flush : Option (List β))
  | exchange (time old : Nat) (flush : Option (List β))
  | unlock
  | publish (flush : List β)
  | wait (flush : List β)

/-- Where the worker stands; `loops` are the iterations left. -/
inductive WorkerPc where
  | idle
  | takeReady (loops : Nat) (forceFlush : Bool)
  | write (loops : Nat)
  | retire (loops : Nat)
  | recycle (loops : Nat)
  | checkFlagged (loops : Nat)
  | checkReady (loops : Nat)
  | trim (loops : Nat)
  | startPublish (loops : Nat)
  | publish (loops : Nat)
  | oldestReady (again : Bool)
  | oldestCurrent (readyTime : Nat) (again : Bool)
  | storeDeadline (oldest : Nat)
  | flagged
  | loadExpected
  | clear (expected : Nat)
  | hasReady
  | storeRightNow
  | flaggedAgain
  | storeLater

/-- The start of an iteration of the loop in `WorkerFunc`, or its end. -/
def WorkerPc.loop : Nat → Bool → WorkerPc
  | 0, _ => .oldestReady false
  | loops + 1, forceFlush => .takeReady loops forceFlush

/-- The test of the loop that clears `FlushTime`. -/
def WorkerPc.clearing (expected : Nat) : WorkerPc :=
  if expected = 0 then .oldestReady true else .clear expected

/-- After `RequestFlush`. -/
def CallerPc.requested {β : Type} : Option (List β) → CallerPc β
  | none => .unlock
  | some flush => .wait flush

structure SharedBackend (τ β : Type) where
  system : BufferQueue.System (Thread τ) β
  flushAfter : Nat
  queueSizeLimit : Nat
  flushTime : Nat
  queuedBytes : Nat
  caller : τ → CallerPc β
  worker : WorkerPc
  counted : List β
  written : List β
  retired : List β
  owed : Bool

inductive SharedAction (τ β : Type) where
  | appendOutputData (t : τ) (text : List β)
  | flush (t : τ)
  | caller (t : τ) (now : Nat) (spurious : Bool) (a : Allocation)
  | selectEarly
  | worker (now : Nat) (spurious : Bool) (a : Allocation)

namespace SharedBackend

open StepSystem BufferQueue

variable {τ β : Type} [DecidableEq τ]

omit [DecidableEq τ] in
def initial (options : Options) (a : Allocation)
    (flushAfter queueSizeLimit : Nat) : SharedBackend τ β where
  system := .initial (.new options a)
  flushAfter := flushAfter
  queueSizeLimit := queueSizeLimit
  flushTime := 0
  queuedBytes := 0
  caller := fun _ => .idle
  worker := .idle
  counted := []
  written := []
  retired := []
  owed := false

def setCaller (s : SharedBackend τ β) (t : τ) (pc : CallerPc β) :
    SharedBackend τ β :=
  { s with caller := Function.update s.caller t pc }

/-- A step of the queue. -/
def queue (s : SharedBackend τ β) (action : Action (Thread τ) β) :
    Option (SharedBackend τ β) :=
  (s.system.step action).map fun system => { s with system := system }

omit [DecidableEq τ] in
def deadline (s : SharedBackend τ β) (time : Nat) : Nat :=
  (time + s.flushAfter) % 2 ^ 64

omit [DecidableEq τ] in
def writeTime (s : SharedBackend τ β) (flushTime now : Nat) : Nat :=
  if flushTime ≠ 0 ∧ flushTime ≠ RIGHT_NOW ∧ flushTime > s.flushAfter then
    flushTime - s.flushAfter
  else now

/-! ## Callers -/

omit [DecidableEq τ] in
/-- The end of `AppendOutputData`, from its second load of `FlushTime`. -/
def afterCount (s : SharedBackend τ β) (firstData pressure : Bool)
    (now : Nat) : CallerPc β :=
  if pressure then
    let request := if s.flushTime ≠ RIGHT_NOW then some RIGHT_NOW else none
    if firstData then
      .setFirstWriteTime (s.writeTime s.flushTime now) request
    else
      match request with
      | some time => .requestFlush time none
      | none => .unlock
  else if firstData then
    if s.flushTime = 0 then .setFirstWriteTime now (some (s.deadline now))
    else .setFirstWriteTime (s.writeTime s.flushTime now) none
  else .unlock

omit [DecidableEq τ] in
/-- An immediate request counts once there is data to flush. -/
def owedBy (s : SharedBackend τ β) (time : Nat) : Bool :=
  s.owed || (decide (time = RIGHT_NOW) && decide (s.queuedBytes ≠ 0))

/-- The head of the loop in `RequestFlush`, with the value of `FlushTime`
that was just loaded. -/
def checkFlushTime (s : SharedBackend τ β) (t : τ) (time : Nat)
    (flush : Option (List β)) : SharedBackend τ β :=
  if s.flushTime ≠ 0 ∧ (s.flushTime = RIGHT_NOW ∨ s.flushTime ≤ time) then
    { s.setCaller t (.requested flush) with owed := s.owedBy time }
  else s.setCaller t (.exchange time s.flushTime flush)

def stepCaller (s : SharedBackend τ β) (t : τ) (now : Nat)
    (spurious : Bool) (a : Allocation) : Option (SharedBackend τ β) :=
  match s.caller t with
  | .idle => none
  | .loadFlushTime text =>
      some (s.setCaller t (.append text (s.writeTime s.flushTime now)))
  | .append text firstWriteTime =>
      (s.setCaller t (.appending text)).queue
        (.start (.client t) (.append text firstWriteTime))
  | .appending text =>
      match s.system.pc (.client t) with
      | .idle result =>
          some (s.setCaller t
            (if result.ok then .count text result.firstData else .unlock))
      | _ => s.queue (.step (.client t) a)
  | .count text firstData =>
      some
        { s.setCaller t
            (.getUsedBuffers firstData (s.queuedBytes + text.length)) with
          queuedBytes := s.queuedBytes + text.length
          counted := s.counted ++ text }
  | .getUsedBuffers firstData queued =>
      some (s.setCaller t (.reloadFlushTime firstData
        (decide (s.system.queue.getUsedBuffers ≥ FLUSH_PRESSURE_BUFFERS) ||
          decide (queued ≥ s.queueSizeLimit))))
  | .reloadFlushTime firstData pressure =>
      some (s.setCaller t (s.afterCount firstData pressure now))
  | .setFirstWriteTime value request =>
      (s.setCaller t
          (match request with
            | some time => .requestFlush time none
            | none => .unlock)).queue
        (.setCurrentFirstWriteTime (.client t) value)
  | .requestFlush time flush => some (s.checkFlushTime t time flush)
  | .exchange time old flush =>
      if spurious ∨ s.flushTime ≠ old then
        some (s.checkFlushTime t time flush)
      else
        some
          { s.setCaller t (.requested flush) with
            flushTime := time
            owed := s.owedBy time }
  | .unlock => (s.setCaller t .idle).queue (.unlockData (.client t))
  | .publish flush =>
      match s.system.pc (.client t) with
      | .idle result =>
          if result.ok then s.queue (.start (.client t) .publishCurrent)
          else some (s.setCaller t (.requestFlush RIGHT_NOW (some flush)))
      | _ => s.queue (.step (.client t) a)
  | .wait _ =>
      if s.queuedBytes = 0 then some (s.setCaller t .idle) else none

/-! ## The worker -/

omit [DecidableEq τ] in
/-- The bytes of the batch that the worker has taken. -/
def inHandBytes (s : SharedBackend τ β) : List β :=
  s.system.inHand.flatMap DataBuffer.data

omit [DecidableEq τ] in
def setWorker (s : SharedBackend τ β) (pc : WorkerPc) : SharedBackend τ β :=
  { s with worker := pc }

omit [DecidableEq τ] in
def oldestOf (readyTime currentTime : Nat) : Nat :=
  if readyTime = 0 ∨ (currentTime ≠ 0 ∧ currentTime < readyTime) then
    currentTime
  else readyTime

/-- From `WorkerFunc` to the last store of `UpdateFlushTimeAfterWork`. -/
def stepWorker (s : SharedBackend τ β) (now : Nat) (spurious : Bool)
    (a : Allocation) : Option (SharedBackend τ β) :=
  match s.worker with
  | .idle =>
      some
        { s with
          worker := .loop FileBackend.maxWriteLoops
            (decide (s.flushTime = RIGHT_NOW))
          owed := false }
  | .takeReady loops forceFlush =>
      (s.queue .takeReady).map fun s =>
        if s.system.inHand.isEmpty = false then s.setWorker (.write loops)
        else if forceFlush then s.setWorker (.startPublish loops)
        else s.setWorker (.oldestReady false)
  | .write loops =>
      some
        { s with
          worker := .retire loops
          written := s.written ++ s.inHandBytes }
  | .retire loops =>
      some
        { s with
          worker := .recycle loops
          queuedBytes := fetchSub s.queuedBytes s.inHandBytes.length
          retired := s.retired ++ s.inHandBytes }
  | .recycle loops => (s.setWorker (.checkFlagged loops)).queue .recycle
  | .checkFlagged loops =>
      some (s.setWorker
        (if s.system.queue.hasCurrentDataFlagged then .loop loops false
          else .checkReady loops))
  | .checkReady loops =>
      some (s.setWorker
        (if s.system.queue.hasReady then .loop loops false else .trim loops))
  | .trim loops =>
      (s.setWorker (.loop loops false)).queue .trimFreeBuffersIfIdle
  | .startPublish loops =>
      (s.setWorker (.publish loops)).queue (.start .worker .publishCurrent)
  | .publish loops =>
      match s.system.pc .worker with
      | .idle result =>
          some (s.setWorker
            (if result.ok then .loop loops false else .oldestReady false))
      | _ => s.queue (.step .worker a)
  | .oldestReady again =>
      some (s.setWorker
        (.oldestCurrent s.system.queue.getOldestReadyDataTime again))
  | .oldestCurrent readyTime again =>
      let oldest :=
        oldestOf readyTime s.system.queue.getCurrentFirstWriteTimeSnapshot
      some (s.setWorker
        (if oldest ≠ 0 then .storeDeadline oldest
          else if again then .hasReady
          else .flagged))
  | .storeDeadline oldest =>
      some
        { s with
          worker := .idle
          flushTime :=
            if s.deadline oldest ≤ now then RIGHT_NOW else s.deadline oldest }
  | .flagged =>
      some (s.setWorker
        (if s.system.queue.hasCurrentDataFlagged then .idle
          else .loadExpected))
  | .loadExpected => some (s.setWorker (.clearing s.flushTime))
  | .clear expected =>
      if spurious ∨ s.flushTime ≠ expected then
        some (s.setWorker (.clearing s.flushTime))
      else some { s with worker := .oldestReady true, flushTime := 0 }
  | .hasReady =>
      some (s.setWorker
        (if s.system.queue.hasReady then .storeRightNow else .flaggedAgain))
  | .storeRightNow =>
      some { s with worker := .idle, flushTime := RIGHT_NOW }
  | .flaggedAgain =>
      some (s.setWorker
        (if s.system.queue.hasCurrentDataFlagged then .storeLater else .idle))
  | .storeLater =>
      some { s with worker := .idle, flushTime := s.deadline now }

/-- `AppendOutputData` does nothing for an empty text.  The manager may store
`RIGHT_NOW` in the backend that it is about to run. -/
def step (s : SharedBackend τ β) :
    SharedAction τ β → Option (SharedBackend τ β)
  | .appendOutputData t text =>
      match s.caller t with
      | .idle =>
          if text = [] then none
          else
            (s.setCaller t (.loadFlushTime text)).queue
              (.lockData (.client t))
      | _ => none
  | .flush t =>
      match s.caller t with
      | .idle =>
          (s.setCaller t (.publish s.counted)).queue
            (.start (.client t) .publishCurrent)
      | _ => none
  | .caller t now spurious a => s.stepCaller t now spurious a
  | .selectEarly =>
      match s.worker with
      | .idle => some { s with flushTime := RIGHT_NOW }
      | _ => none
  | .worker now spurious a => s.stepWorker now spurious a

end SharedBackend

end Logme
