import Logme.Library.FairExecution
import Mathlib.Data.List.Basic

/-!
# The compression manager

A manager is a queue of file names with a worker thread that is started when
a job is submitted.  Each operation is a section under the manager's lock;
the worker takes one job in a section and compresses the file outside of it.
The worker decides to leave in one section and sets `Stopped` in a later one,
and `Submit` starts a worker only when there is none that has not stopped.

`accepted` and `taken` are history: the jobs pushed to the queue and the jobs
that a worker has taken from it.
-/

namespace Logme

open StepSystem

/-- Where the worker thread stands.  In `waiting` it sleeps in `CV.wait`, in
`leaving` it has left its loop, and in `finished` it has set `Stopped` and
nobody has joined it. -/
inductive CompressionPc where
  | notStarted
  | ready
  | waiting
  | compressing (file : String)
  | leaving
  | finished
  deriving DecidableEq

structure CompressionManager where
  stopRequested : Bool
  stopped : Bool
  userCount : Nat
  worker : CompressionPc
  queue : List String
  accepted : List String
  taken : List String

/-- The sections under the manager's lock, `Join`, and what wakes a waiting
thread for no reason. -/
inductive ManagerSection where
  | submit (file : String)
  | setUserCount (userCount : Nat)
  | stopWhenQueueEmpty
  | setStopping
  | join
  | worker
  | wake

namespace CompressionManager

def new : CompressionManager where
  stopRequested := false
  stopped := true
  userCount := 0
  worker := .notStarted
  queue := []
  accepted := []
  taken := []

def joinable (m : CompressionManager) : Bool :=
  decide (m.worker ≠ .notStarted)

def notifyAll (m : CompressionManager) : CompressionManager :=
  match m.worker with
  | .waiting => { m with worker := .ready }
  | _ => m

/-- A thread that has set `Stopped` is joined at once. -/
def startWorkerLocked (m : CompressionManager) : CompressionManager :=
  let m :=
    if m.joinable ∧ m.stopped then { m with worker := .notStarted } else m
  if m.joinable then m
  else { m with stopRequested := false, stopped := false, worker := .ready }

def submit (m : CompressionManager) (file : String) : CompressionManager :=
  if file = "" then m
  else if m.stopRequested then m
  else
    { m with
      queue := m.queue ++ [file]
      accepted := m.accepted ++ [file] }.startWorkerLocked.notifyAll

def setUserCount (m : CompressionManager) (userCount : Nat) :
    CompressionManager :=
  let m := { m with userCount := userCount }
  if userCount = 0 then m.notifyAll else m

def stopWhenQueueEmpty (m : CompressionManager) : CompressionManager :=
  { m with userCount := 0 }.notifyAll

def setStopping (m : CompressionManager) : CompressionManager :=
  { m with stopRequested := true, userCount := 0 }.notifyAll

/-- `Join` returns when there is no worker or the worker has ended. -/
def join (m : CompressionManager) : Option CompressionManager :=
  match m.worker with
  | .notStarted => some m
  | .finished => some { m with worker := .notStarted }
  | _ => none

/-- The next step of `WorkerFunc`. -/
def workerFunc (m : CompressionManager) : Option CompressionManager :=
  match m.worker with
  | .notStarted => none
  | .waiting => none
  | .finished => none
  | .ready =>
      match m.queue with
      | [] =>
          if m.stopRequested ∨ m.userCount = 0 then
            some { m with worker := .leaving }
          else some { m with worker := .waiting }
      | file :: rest =>
          some
            { m with
              queue := rest
              taken := m.taken ++ [file]
              worker := .compressing file }
  | .compressing _ => some { m with worker := .ready }
  | .leaving => some { m with stopped := true, worker := .finished }

def wake (m : CompressionManager) : Option CompressionManager :=
  match m.worker with
  | .waiting => some { m with worker := .ready }
  | _ => none

def apply (m : CompressionManager) :
    ManagerSection → Option CompressionManager
  | .submit file => some (m.submit file)
  | .setUserCount userCount => some (m.setUserCount userCount)
  | .stopWhenQueueEmpty => some m.stopWhenQueueEmpty
  | .setStopping => some m.setStopping
  | .join => m.join
  | .worker => m.workerFunc
  | .wake => m.wake

/-! ## Invariants of one manager -/

/-- The worker is in its loop and does not wait. -/
def Working (m : CompressionManager) : Prop :=
  m.worker = .ready ∨ ∃ file, m.worker = .compressing file

/-- There is a worker that has not decided to leave its loop. -/
def InLoop (m : CompressionManager) : Prop :=
  m.Working ∨ m.worker = .waiting

structure Inv (m : CompressionManager) : Prop where
  stopped_iff : m.stopped = true ↔
    m.worker = .notStarted ∨ m.worker = .finished
  history : m.accepted = m.taken ++ m.queue

/-- The jobs in the queue have a worker. -/
def Served (m : CompressionManager) : Prop :=
  m.queue ≠ [] → m.Working

/-- `Submit` pushes no job between the worker's decision to leave and the
moment at which it sets `Stopped`. -/
def FindsWorker (m : CompressionManager) : ManagerSection → Prop
  | .submit _ => m.worker = .leaving → m.stopRequested = true
  | _ => True

instance (m : CompressionManager) (op : ManagerSection) :
    Decidable (m.FindsWorker op) :=
  match op with
  | .submit _ =>
      inferInstanceAs (Decidable (m.worker = .leaving → m.stopRequested = true))
  | .setUserCount _ => .isTrue trivial
  | .stopWhenQueueEmpty => .isTrue trivial
  | .setStopping => .isTrue trivial
  | .join => .isTrue trivial
  | .worker => .isTrue trivial
  | .wake => .isTrue trivial

theorem inv_new : new.Inv := by
  constructor <;> simp [new]

theorem served_new : new.Served :=
  fun hqueue => absurd rfl hqueue

/-! ## What the sections change -/

/-- The sections apart from `submit` and the worker's own: no job moves, and
the worker is at most woken or joined. -/
structure Quiet (m t : CompressionManager) : Prop where
  stopped : t.stopped = m.stopped
  queue : t.queue = m.queue
  accepted : t.accepted = m.accepted
  taken : t.taken = m.taken
  worker : t.worker = m.worker ∨
    (m.worker = .waiting ∧ t.worker = .ready) ∨
    (m.worker = .finished ∧ t.worker = .notStarted)

theorem quiet_notifyAll (m : CompressionManager) : Quiet m m.notifyAll := by
  unfold notifyAll
  split
  next hworker => exact ⟨rfl, rfl, rfl, rfl, .inr (.inl ⟨hworker, rfl⟩)⟩
  next => exact ⟨rfl, rfl, rfl, rfl, .inl rfl⟩

theorem quiet_setUserCount (m : CompressionManager) (userCount : Nat) :
    Quiet m (m.setUserCount userCount) := by
  have hnotify := quiet_notifyAll { m with userCount := userCount }
  unfold setUserCount
  split_ifs
  · exact ⟨hnotify.stopped, hnotify.queue, hnotify.accepted, hnotify.taken,
      hnotify.worker⟩
  · exact ⟨rfl, rfl, rfl, rfl, .inl rfl⟩

theorem quiet_setStopping (m : CompressionManager) :
    Quiet m m.setStopping := by
  have hnotify :=
    quiet_notifyAll { m with stopRequested := true, userCount := 0 }
  exact ⟨hnotify.stopped, hnotify.queue, hnotify.accepted, hnotify.taken,
    hnotify.worker⟩

theorem quiet_stopWhenQueueEmpty (m : CompressionManager) :
    Quiet m m.stopWhenQueueEmpty := by
  have hnotify := quiet_notifyAll { m with userCount := 0 }
  exact ⟨hnotify.stopped, hnotify.queue, hnotify.accepted, hnotify.taken,
    hnotify.worker⟩

theorem quiet_join {m t : CompressionManager} (hjoin : m.join = some t) :
    Quiet m t := by
  unfold join at hjoin
  split at hjoin
  next =>
    simp only [Option.some.injEq] at hjoin
    subst t
    exact ⟨rfl, rfl, rfl, rfl, .inl rfl⟩
  next hworker =>
    simp only [Option.some.injEq] at hjoin
    subst t
    exact ⟨rfl, rfl, rfl, rfl, .inr (.inr ⟨hworker, rfl⟩)⟩
  next => simp at hjoin

theorem quiet_wake {m t : CompressionManager} (hwake : m.wake = some t) :
    Quiet m t := by
  unfold wake at hwake
  split at hwake
  next hworker =>
    simp only [Option.some.injEq] at hwake
    subst t
    exact ⟨rfl, rfl, rfl, rfl, .inr (.inl ⟨hworker, rfl⟩)⟩
  next => simp at hwake

/-- `Submit` adds the job behind the others.  Afterwards a worker is ready,
unless the old one compresses a file or is about to leave. -/
structure Submitted (m t : CompressionManager) (file : String) : Prop where
  requested : m.stopRequested = false
  stopped : t.stopped = false
  queue : t.queue = m.queue ++ [file]
  accepted : t.accepted = m.accepted ++ [file]
  taken : t.taken = m.taken
  worker : t.worker = .ready ∨
    (t.worker = m.worker ∧
      (m.worker = .leaving ∨ ∃ file, m.worker = .compressing file))

theorem submit_cases {m : CompressionManager} (hinv : m.Inv)
    (file : String) :
    m.submit file = m ∨ Submitted m (m.submit file) file := by
  unfold submit
  split_ifs
  · exact .inl rfl
  · exact .inl rfl
  next hrequested =>
    right
    have hrequested : m.stopRequested = false := by simpa using hrequested
    have hstopped := hinv.stopped_iff
    cases hworker : m.worker with
    | notStarted =>
        constructor <;>
          simp [startWorkerLocked, notifyAll, joinable, hworker, hrequested]
    | finished =>
        constructor <;>
          simp_all [startWorkerLocked, notifyAll, joinable]
    | ready | waiting | leaving | compressing =>
        have hrunning : m.stopped = false := by simpa [hworker] using hstopped
        constructor <;>
          simp [startWorkerLocked, notifyAll, joinable, hworker, hrunning,
            hrequested]

/-- What the next step of the worker does. -/
theorem workerFunc_cases {m t : CompressionManager}
    (hstep : m.workerFunc = some t) :
    (m.worker = .ready ∧ m.queue = [] ∧
      (t = { m with worker := .leaving } ∨
        t = { m with worker := .waiting })) ∨
    (∃ file rest, m.worker = .ready ∧ m.queue = file :: rest ∧
      t = { m with
        queue := rest
        taken := m.taken ++ [file]
        worker := .compressing file }) ∨
    (∃ file, m.worker = .compressing file ∧
      t = { m with worker := .ready }) ∨
    (m.worker = .leaving ∧
      t = { m with stopped := true, worker := .finished }) := by
  unfold workerFunc at hstep
  split at hstep
  next => simp at hstep
  next => simp at hstep
  next => simp at hstep
  next hpc =>
    split at hstep
    next hqueue =>
      left
      split_ifs at hstep <;> simp only [Option.some.injEq] at hstep
      · exact ⟨hpc, hqueue, .inl hstep.symm⟩
      · exact ⟨hpc, hqueue, .inr hstep.symm⟩
    next file rest hqueue =>
      simp only [Option.some.injEq] at hstep
      exact .inr (.inl ⟨file, rest, hpc, hqueue, hstep.symm⟩)
  next file hpc =>
    simp only [Option.some.injEq] at hstep
    exact .inr (.inr (.inl ⟨file, hpc, hstep.symm⟩))
  next hpc =>
    simp only [Option.some.injEq] at hstep
    exact .inr (.inr (.inr ⟨hpc, hstep.symm⟩))

theorem accepted_submit {m : CompressionManager} (hinv : m.Inv)
    (file : String) : m.accepted <+: (m.submit file).accepted := by
  rcases submit_cases hinv file with hsame | hsubmitted
  · have hlabel : m.accepted <+: m.accepted := List.prefix_refl _
    simpa only [hsame] using hlabel
  · rw [hsubmitted.accepted]
    exact List.prefix_append _ _

/-! ## The invariants are kept -/

theorem Inv.quiet {m t : CompressionManager} (hinv : m.Inv)
    (hquiet : Quiet m t) : t.Inv := by
  constructor
  · rw [hquiet.stopped, hinv.stopped_iff]
    rcases hquiet.worker with hsame | ⟨hbefore, hafter⟩ | ⟨hbefore, hafter⟩
    · rw [hsame]
    · simp [hbefore, hafter]
    · simp [hbefore, hafter]
  · rw [hquiet.accepted, hquiet.taken, hquiet.queue, hinv.history]

theorem Inv.submit {m : CompressionManager} (hinv : m.Inv) (file : String) :
    (m.submit file).Inv := by
  rcases submit_cases hinv file with hsame | hsubmitted
  · rw [hsame]
    exact hinv
  · constructor
    · rw [hsubmitted.stopped]
      rcases hsubmitted.worker with hready | ⟨hsame, hleaving | ⟨_, hbusy⟩⟩
      · simp [hready]
      · simp [hsame, hleaving]
      · simp [hsame, hbusy]
    · rw [hsubmitted.accepted, hsubmitted.taken, hsubmitted.queue,
        hinv.history, List.append_assoc]

theorem Inv.workerFunc {m t : CompressionManager} (hinv : m.Inv)
    (hstep : m.workerFunc = some t) : t.Inv := by
  have hstopped := hinv.stopped_iff
  have hhistory := hinv.history
  rcases workerFunc_cases hstep with ⟨hpc, _, rfl | rfl⟩ |
    ⟨file, rest, hpc, hqueue, rfl⟩ | ⟨file, hpc, rfl⟩ | ⟨hpc, rfl⟩
  · exact ⟨by simpa [hpc] using hstopped, hhistory⟩
  · exact ⟨by simpa [hpc] using hstopped, hhistory⟩
  · exact ⟨by simpa [hpc] using hstopped, by simp [hhistory, hqueue]⟩
  · exact ⟨by simpa [hpc] using hstopped, hhistory⟩
  · exact ⟨by simp, hhistory⟩

/-- Every section is quiet, a submission or a step of the worker. -/
theorem apply_cases {m t : CompressionManager} {op : ManagerSection}
    (hstep : m.apply op = some t) :
    Quiet m t ∨ (∃ file, op = .submit file ∧ t = m.submit file) ∨
      (op = .worker ∧ m.workerFunc = some t) := by
  cases op with
  | submit file =>
      simp only [apply, Option.some.injEq] at hstep
      exact .inr (.inl ⟨file, rfl, hstep.symm⟩)
  | setUserCount userCount =>
      simp only [apply, Option.some.injEq] at hstep
      exact .inl (hstep ▸ m.quiet_setUserCount userCount)
  | stopWhenQueueEmpty =>
      simp only [apply, Option.some.injEq] at hstep
      exact .inl (hstep ▸ m.quiet_stopWhenQueueEmpty)
  | setStopping =>
      simp only [apply, Option.some.injEq] at hstep
      exact .inl (hstep ▸ m.quiet_setStopping)
  | join => exact .inl (quiet_join hstep)
  | worker => exact .inr (.inr ⟨rfl, hstep⟩)
  | wake => exact .inl (quiet_wake hstep)

theorem Inv.apply {m t : CompressionManager} {op : ManagerSection}
    (hinv : m.Inv) (hstep : m.apply op = some t) : t.Inv := by
  rcases apply_cases hstep with hquiet | ⟨file, _, rfl⟩ | ⟨_, hworker⟩
  · exact hinv.quiet hquiet
  · exact hinv.submit file
  · exact hinv.workerFunc hworker

theorem Working.quiet {m t : CompressionManager} (hworking : m.Working)
    (hquiet : Quiet m t) : t.worker = m.worker := by
  rcases hquiet.worker with hsame | ⟨hwaiting, _⟩ | ⟨hfinished, _⟩
  · exact hsame
  · rcases hworking with h | ⟨_, h⟩ <;> simp [h] at hwaiting
  · rcases hworking with h | ⟨_, h⟩ <;> simp [h] at hfinished

theorem Working.submit {m : CompressionManager} (hinv : m.Inv)
    (hworking : m.Working) (file : String) :
    (m.submit file).Working ∧ (m.submit file).taken = m.taken ∧
      ((m.submit file).worker = m.worker ∨
        (m.submit file).worker = .ready) := by
  rcases submit_cases hinv file with hsame | hsubmitted
  · rw [hsame]
    exact ⟨hworking, rfl, .inl rfl⟩
  · rcases hsubmitted.worker with hready | ⟨hsame, hleaving | ⟨busy, hbusy⟩⟩
    · exact ⟨.inl hready, hsubmitted.taken, .inr hready⟩
    · rcases hworking with h | ⟨_, h⟩ <;> simp [h] at hleaving
    · exact ⟨.inr ⟨busy, hsame.trans hbusy⟩, hsubmitted.taken, .inl hsame⟩

/-- A job never waits in the queue without a worker, as long as `Submit` does
not run into a worker that is about to leave. -/
theorem Served.apply {m t : CompressionManager} {op : ManagerSection}
    (hinv : m.Inv) (hserved : m.Served) (hfinds : m.FindsWorker op)
    (hstep : m.apply op = some t) : t.Served := by
  rcases apply_cases hstep with hquiet | ⟨file, rfl, rfl⟩ | ⟨_, hworker⟩
  · intro hqueue
    have hworking := hserved (hquiet.queue ▸ hqueue)
    have hsame := hworking.quiet hquiet
    exact hworking.imp (fun h => hsame.trans h)
      fun ⟨file, h⟩ => ⟨file, hsame.trans h⟩
  · rcases submit_cases hinv file with hsame | hsubmitted
    · rw [hsame]
      exact hserved
    · intro _
      rcases hsubmitted.worker with hready | ⟨hsame, hleaving | ⟨busy, hbusy⟩⟩
      · exact .inl hready
      · have hrefused := hsubmitted.requested
        simp [hfinds hleaving] at hrefused
      · exact .inr ⟨busy, hsame.trans hbusy⟩
  · rcases workerFunc_cases hworker with ⟨_, hempty, rfl | rfl⟩ |
      ⟨file, rest, _, _, rfl⟩ | ⟨_, _, rfl⟩ | ⟨hpc, rfl⟩
    · exact fun hqueue => absurd hempty hqueue
    · exact fun hqueue => absurd hempty hqueue
    · exact fun _ => .inr ⟨file, rfl⟩
    · exact fun _ => .inl rfl
    · intro hqueue
      rcases hserved hqueue with h | ⟨_, h⟩ <;> simp [h] at hpc

/-! ## Progress of the worker -/

/-- What the worker has to do until `jobs` jobs are taken. -/
def remaining (jobs : Nat) (m : CompressionManager) : Nat :=
  2 * (jobs - m.taken.length) +
    match m.worker with
    | .compressing _ => 1
    | _ => 0

/-- The jobs were accepted first, and a worker is after them. -/
structure Pursued (jobs : List String) (m : CompressionManager) : Prop where
  inv : m.Inv
  accepted : jobs <+: m.accepted
  working : m.taken.length < jobs.length → m.Working

/-- Jobs are taken in the order in which they were accepted. -/
theorem Pursued.length_lt {jobs : List String} {m : CompressionManager}
    (hpursued : m.Pursued jobs) (hnot : ¬ jobs <+: m.taken) :
    m.taken.length < jobs.length := by
  by_contra hle
  have hlabel := hpursued.accepted
  rw [hpursued.inv.history] at hlabel
  exact hnot (List.prefix_of_prefix_length_le hlabel
    (List.prefix_append _ _) (by omega))

theorem remaining_le_of_ready {jobs : Nat} {m t : CompressionManager}
    (htaken : t.taken = m.taken) (hready : t.worker = .ready) :
    t.remaining jobs ≤ m.remaining jobs := by
  simp only [remaining, htaken, hready]
  omega

theorem remaining_eq {jobs : Nat} {m t : CompressionManager}
    (htaken : t.taken = m.taken) (hworker : t.worker = m.worker) :
    t.remaining jobs = m.remaining jobs := by
  simp only [remaining, htaken, hworker]

theorem Pursued.workerFunc {jobs : List String} {m t : CompressionManager}
    (hpursued : m.Pursued jobs) (hleft : m.taken.length < jobs.length)
    (hstep : m.workerFunc = some t) :
    t.Pursued jobs ∧ t.remaining jobs.length < m.remaining jobs.length := by
  have hinv := hpursued.inv.workerFunc hstep
  have hworking := hpursued.working hleft
  have hlength := hpursued.accepted.length_le
  rw [hpursued.inv.history, List.length_append] at hlength
  rcases workerFunc_cases hstep with ⟨_, hempty, _⟩ |
    ⟨file, rest, hpc, hqueue, rfl⟩ | ⟨file, hpc, rfl⟩ | ⟨hpc, _⟩
  · rw [hempty, List.length_nil] at hlength
    omega
  · refine ⟨⟨hinv, hpursued.accepted, fun _ => .inr ⟨file, rfl⟩⟩, ?_⟩
    simp only [remaining, hpc, List.length_append, List.length_singleton]
    omega
  · refine ⟨⟨hinv, hpursued.accepted, fun _ => .inl rfl⟩, ?_⟩
    simp only [remaining, hpc]
    omega
  · rcases hworking with h | ⟨_, h⟩ <;> simp [h] at hpc

/-- No section makes the worker lose the jobs, and its own steps bring them
nearer. -/
theorem Pursued.apply {jobs : List String} {m t : CompressionManager}
    {op : ManagerSection} (hpursued : m.Pursued jobs)
    (hleft : m.taken.length < jobs.length) (hstep : m.apply op = some t) :
    t.Pursued jobs ∧ t.remaining jobs.length ≤ m.remaining jobs.length ∧
      (op = .worker → t.remaining jobs.length < m.remaining jobs.length) := by
  have hinv := hpursued.inv.apply hstep
  have hworking := hpursued.working hleft
  rcases apply_cases hstep with hquiet | ⟨file, rfl, rfl⟩ | ⟨rfl, hworker⟩
  · have hsame := hworking.quiet hquiet
    have hpursued' : t.Pursued jobs := by
      refine ⟨hinv, hquiet.accepted ▸ hpursued.accepted, fun _ => ?_⟩
      exact hworking.imp (fun h => hsame.trans h)
        fun ⟨file, h⟩ => ⟨file, hsame.trans h⟩
    refine ⟨hpursued', (remaining_eq hquiet.taken hsame).le, ?_⟩
    rintro rfl
    exact (hpursued.workerFunc hleft hstep).2
  · rcases hworking.submit hpursued.inv file with
      ⟨hworking', htaken, hsame | hready⟩
    · exact ⟨⟨hinv, hpursued.accepted.trans (accepted_submit hpursued.inv file),
        fun _ => hworking'⟩, (remaining_eq htaken hsame).le, by simp⟩
    · exact ⟨⟨hinv, hpursued.accepted.trans (accepted_submit hpursued.inv file),
        fun _ => hworking'⟩, remaining_le_of_ready htaken hready, by simp⟩
  · rcases hpursued.workerFunc hleft hworker with ⟨hpursued', hlt⟩
    exact ⟨hpursued', hlt.le, fun _ => hlt⟩

/-- A worker that is after jobs can go on. -/
theorem Working.exists_workerFunc {m : CompressionManager}
    (hworking : m.Working) : ∃ t, m.workerFunc = some t := by
  apply Option.isSome_iff_exists.mp
  unfold workerFunc
  rcases hworking with hpc | ⟨file, hpc⟩
  · simp only [hpc]
    split
    · split <;> rfl
    · rfl
  · simp only [hpc, Option.isSome_some]

end CompressionManager

end Logme
