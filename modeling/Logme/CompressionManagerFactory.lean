import Logme.CompressionManager
import Mathlib.Logic.Function.Basic

/-!
# Submitting compression jobs through the factory

Any number of threads call `Submit`, `RegisterUser`, `ReleaseUser` and
`SetStopping` of the factory, in any order, while the manager's worker runs.
A step is a section under the factory's or the manager's lock.  `Submit` and
`RegisterUser` enter sections of the manager while they hold the factory's
lock; `ReleaseUser` passes on a user count that it has read before.
-/

namespace Logme

open StepSystem

/-- Where a call of a thread stands. -/
inductive CompressionCallPc where
  | idle
  | submit (file : String)
  | testStopped (file : String)
  | join (file : String)
  | setUserCount (file : String)
  | unlockSubmit (file : String)
  | submitToManager (file : String)
  | registerUser
  | registerCount
  | unlockRegister
  | releaseUser
  | releaseCount (userCount : Nat)
  | stopWhenQueueEmpty
  | setStopping
  | stopManager
  | joinStopped
  deriving DecidableEq

structure CompressionManagerFactory (ι : Type) where
  manager : Option CompressionManager
  userCount : Nat
  stopping : Bool
  factoryLock : Option ι
  pc : ι → CompressionCallPc

inductive CompressionCall where
  | submit (file : String)
  | registerUser
  | releaseUser
  | setStopping

def CompressionCall.start : CompressionCall → CompressionCallPc
  | .submit file => .submit file
  | .registerUser => .registerUser
  | .releaseUser => .releaseUser
  | .setStopping => .setStopping

inductive CompressionAction (ι : Type) where
  | call (c : ι) (call : CompressionCall)
  | next (c : ι)
  | worker
  | wake

namespace CompressionManagerFactory

variable {ι : Type} [DecidableEq ι]

omit [DecidableEq ι] in
def initial : CompressionManagerFactory ι where
  manager := none
  userCount := 0
  stopping := false
  factoryLock := none
  pc := fun _ => .idle

def setPc (s : CompressionManagerFactory ι) (c : ι)
    (pc : CompressionCallPc) : CompressionManagerFactory ι :=
  { s with pc := Function.update s.pc c pc }

omit [DecidableEq ι] in
/-- A section of the manager. -/
def apply (s : CompressionManagerFactory ι) (op : ManagerSection) :
    Option (CompressionManagerFactory ι) :=
  match s.manager with
  | none => none
  | some m => (m.apply op).map fun m => { s with manager := some m }

/-- The next step of the call of thread `c`. -/
def next (s : CompressionManagerFactory ι) (c : ι) :
    Option (CompressionManagerFactory ι) :=
  match s.pc c with
  | .idle => none
  | .submit file =>
      if s.factoryLock ≠ none then none
      else if s.stopping ∨ s.userCount = 0 ∨ file = "" then
        some (s.setPc c .idle)
      else some { s.setPc c (.testStopped file) with factoryLock := some c }
  | .testStopped file =>
      match s.manager with
      | none =>
          some { s.setPc c (.setUserCount file) with manager := some .new }
      | some m =>
          if m.stopped then some (s.setPc c (.join file))
          else some (s.setPc c (.setUserCount file))
  | .join file =>
      (s.apply .join).map (·.setPc c (.setUserCount file))
  | .setUserCount file =>
      (s.apply (.setUserCount s.userCount)).map (·.setPc c (.unlockSubmit file))
  | .unlockSubmit file =>
      some { s.setPc c (.submitToManager file) with factoryLock := none }
  | .submitToManager file =>
      (s.apply (.submit file)).map (·.setPc c .idle)
  | .registerUser =>
      if s.factoryLock ≠ none then none
      else if s.stopping then some (s.setPc c .idle)
      else
        some
          { s.setPc c
              (if s.manager.isSome then .registerCount
                else .unlockRegister) with
            userCount := s.userCount + 1
            factoryLock := some c }
  | .registerCount =>
      (s.apply (.setUserCount s.userCount)).map (·.setPc c .unlockRegister)
  | .unlockRegister => some { s.setPc c .idle with factoryLock := none }
  | .releaseUser =>
      if s.factoryLock ≠ none then none
      else if s.userCount = 0 then some (s.setPc c .idle)
      else
        some
          { s.setPc c
              (if s.manager.isSome then .releaseCount (s.userCount - 1)
                else .idle) with
            userCount := s.userCount - 1 }
  | .releaseCount userCount =>
      (s.apply (.setUserCount userCount)).map
        (·.setPc c (if userCount = 0 then .stopWhenQueueEmpty else .idle))
  | .stopWhenQueueEmpty =>
      (s.apply .stopWhenQueueEmpty).map (·.setPc c .idle)
  | .setStopping =>
      if s.factoryLock ≠ none then none
      else
        some
          { s.setPc c (if s.manager.isSome then .stopManager else .idle) with
            stopping := true
            userCount := 0 }
  | .stopManager => (s.apply .setStopping).map (·.setPc c .joinStopped)
  | .joinStopped => (s.apply .join).map (·.setPc c .idle)

def step (s : CompressionManagerFactory ι) :
    CompressionAction ι → Option (CompressionManagerFactory ι)
  | .call c call =>
      match s.pc c with
      | .idle => some (s.setPc c call.start)
      | _ => none
  | .next c => s.next c
  | .worker => s.apply .worker
  | .wake => s.apply .wake

omit [DecidableEq ι] in
/-- `Submit` does not enter the manager in the moment in which its worker is
about to leave. -/
def FindsWorker (s : CompressionManagerFactory ι) :
    CompressionAction ι → Prop
  | .next c =>
      match s.pc c, s.manager with
      | .submitToManager file, some m => m.FindsWorker (.submit file)
      | _, _ => True
  | _ => True

instance (s : CompressionManagerFactory ι) (action : CompressionAction ι) :
    Decidable (s.FindsWorker action) := by
  unfold FindsWorker
  split <;> [split; skip] <;> infer_instance

/-! ## A step is at most one section of the manager -/

inductive ManagerMove (s t : CompressionManagerFactory ι)
    (action : CompressionAction ι) : Prop
  | keep (hmanager : t.manager = s.manager) (hother : action ≠ .worker)
  | create (hbefore : s.manager = none) (hafter : t.manager = some .new)
  | enter (m m' : CompressionManager) (op : ManagerSection)
      (hbefore : s.manager = some m) (happly : m.apply op = some m')
      (hafter : t.manager = some m') (hworker : action = .worker ↔ op = .worker)
      (hsubmit : ∀ file, op = .submit file →
        ∃ c, action = .next c ∧ s.pc c = .submitToManager file)

omit [DecidableEq ι] in
theorem apply_eq_some {s t : CompressionManagerFactory ι}
    {op : ManagerSection} (happly : s.apply op = some t) :
    ∃ m m', s.manager = some m ∧ m.apply op = some m' ∧
      t = { s with manager := some m' } := by
  unfold apply at happly
  split at happly
  next => simp at happly
  next m hm =>
    rcases Option.map_eq_some_iff.mp happly with ⟨m', hm', rfl⟩
    exact ⟨m, m', hm, hm', rfl⟩

/-- A call enters the manager and goes on. -/
theorem move_enter {s t : CompressionManagerFactory ι} {c : ι}
    {op : ManagerSection} {pc : CompressionCallPc}
    (hstep : (s.apply op).map (·.setPc c pc) = some t)
    (hworker : op ≠ .worker)
    (hsubmit : ∀ file, op = .submit file → s.pc c = .submitToManager file) :
    ManagerMove s t (.next c) := by
  rcases Option.map_eq_some_iff.mp hstep with ⟨s', happly, rfl⟩
  rcases apply_eq_some happly with ⟨m, m', hm, hm', rfl⟩
  exact .enter m m' op hm hm' rfl (by simp [hworker])
    fun file hop => ⟨c, rfl, hsubmit file hop⟩

omit [DecidableEq ι] in
theorem move_keep {s s' t : CompressionManagerFactory ι} {c : ι}
    (hstep : some s' = some t) (hmanager : s'.manager = s.manager) :
    ManagerMove s t (.next c) := by
  simp only [Option.some.injEq] at hstep
  subst t
  exact .keep hmanager (by simp)

theorem next_move {s t : CompressionManagerFactory ι} {c : ι}
    (hstep : s.next c = some t) : ManagerMove s t (.next c) := by
  unfold next at hstep
  cases hpc : s.pc c with
  | idle => simp [hpc] at hstep
  | submit file =>
      simp only [hpc] at hstep
      split_ifs at hstep <;> exact move_keep hstep rfl
  | testStopped file =>
      simp only [hpc] at hstep
      split at hstep
      next hm =>
        simp only [Option.some.injEq] at hstep
        subst t
        exact .create hm rfl
      next => split_ifs at hstep <;> exact move_keep hstep rfl
  | submitToManager file =>
      simp only [hpc] at hstep
      exact move_enter hstep (by simp) fun file' hop => by
        simp only [ManagerSection.submit.injEq] at hop
        rw [← hop, hpc]
  | registerUser =>
      simp only [hpc] at hstep
      split_ifs at hstep <;> exact move_keep hstep rfl
  | releaseUser =>
      simp only [hpc] at hstep
      split_ifs at hstep <;> exact move_keep hstep rfl
  | setStopping =>
      simp only [hpc] at hstep
      split_ifs at hstep <;> exact move_keep hstep rfl
  | unlockSubmit | unlockRegister =>
      simp only [hpc] at hstep
      exact move_keep hstep rfl
  | join | setUserCount | registerCount | releaseCount | stopWhenQueueEmpty
    | stopManager | joinStopped =>
      simp only [hpc] at hstep
      exact move_enter hstep (by simp) (by simp)

theorem step_move {s t : CompressionManagerFactory ι}
    {action : CompressionAction ι} (hstep : s.step action = some t) :
    ManagerMove s t action := by
  cases action with
  | call c call =>
      simp only [step] at hstep
      split at hstep
      · simp only [Option.some.injEq] at hstep
        subst t
        exact .keep rfl (by simp)
      · simp at hstep
  | next c => exact next_move hstep
  | worker =>
      rcases apply_eq_some hstep with ⟨m, m', hm, hm', rfl⟩
      exact .enter m m' .worker hm hm' rfl (by simp) (by simp)
  | wake =>
      rcases apply_eq_some hstep with ⟨m, m', hm, hm', rfl⟩
      exact .enter m m' .wake hm hm' rfl (by simp) (by simp)

/-! ## Every accepted job is taken -/

omit [DecidableEq ι] in
def queue (s : CompressionManagerFactory ι) : List String :=
  s.manager.elim [] CompressionManager.queue

omit [DecidableEq ι] in
def accepted (s : CompressionManagerFactory ι) : List String :=
  s.manager.elim [] CompressionManager.accepted

omit [DecidableEq ι] in
def taken (s : CompressionManagerFactory ι) : List String :=
  s.manager.elim [] CompressionManager.taken

omit [DecidableEq ι] in
/-- There is a worker that has not decided to leave its loop. -/
def WorkerInLoop (s : CompressionManagerFactory ι) : Prop :=
  ∃ m, s.manager = some m ∧ m.InLoop

omit [DecidableEq ι] in
/-- A call of `Submit` is in progress. -/
def Submitting (s : CompressionManagerFactory ι) : Prop :=
  ∃ c file, s.pc c ∈ [CompressionCallPc.submit file, .testStopped file,
    .join file, .setUserCount file, .unlockSubmit file, .submitToManager file]

omit [DecidableEq ι] in
def Inv (s : CompressionManagerFactory ι) : Prop :=
  ∀ m, s.manager = some m → m.Inv ∧ m.Served

omit [DecidableEq ι] in
theorem initial_inv : (initial : CompressionManagerFactory ι).Inv := by
  simp [Inv, initial]

theorem step_inv {s t : CompressionManagerFactory ι}
    {action : CompressionAction ι} (hinv : s.Inv)
    (hfinds : s.FindsWorker action) (hstep : s.step action = some t) :
    t.Inv := by
  intro m ht
  cases step_move hstep with
  | keep hmanager _ => exact hinv m (hmanager ▸ ht)
  | create _ hafter =>
      simp only [hafter, Option.some.injEq] at ht
      subst m
      exact ⟨CompressionManager.inv_new, CompressionManager.served_new⟩
  | enter m₀ m' op hbefore happly hafter _ hsubmit =>
      simp only [hafter, Option.some.injEq] at ht
      subst m'
      rcases hinv m₀ hbefore with ⟨hgood, hserved⟩
      have hop : m₀.FindsWorker op := by
        cases op with
        | submit file =>
            rcases hsubmit file rfl with ⟨c, rfl, hpc⟩
            simpa only [FindsWorker, hpc, hbefore] using hfinds
        | setUserCount | stopWhenQueueEmpty | setStopping | join | worker
          | wake => trivial
      exact ⟨hgood.apply happly, hserved.apply hgood hop happly⟩

omit [DecidableEq ι] in
/-- The manager's worker is after the jobs. -/
def Pursued (jobs : List String) (s : CompressionManagerFactory ι) : Prop :=
  ∃ m, s.manager = some m ∧ m.Pursued jobs

omit [DecidableEq ι] in
def remaining (jobs : Nat) (s : CompressionManagerFactory ι) : Nat :=
  s.manager.elim 0 (CompressionManager.remaining jobs)

theorem Pursued.step {jobs : List String} {s t : CompressionManagerFactory ι}
    {action : CompressionAction ι} (hpursued : s.Pursued jobs)
    (hnot : ¬ jobs <+: s.taken) (hstep : s.step action = some t) :
    t.Pursued jobs ∧ t.remaining jobs.length ≤ s.remaining jobs.length ∧
      (action = .worker →
        t.remaining jobs.length < s.remaining jobs.length) := by
  rcases hpursued with ⟨m, hm, hpursued⟩
  cases step_move hstep with
  | keep hmanager hother =>
      refine ⟨⟨m, hmanager.trans hm, hpursued⟩, ?_, fun h => absurd h hother⟩
      simp only [remaining, hmanager, Nat.le_refl]
  | create hbefore _ => simp [hbefore] at hm
  | enter m₀ m' op hbefore happly hafter hworker _ =>
      simp only [hm, Option.some.injEq] at hbefore
      subst m₀
      simp only [taken, hm, Option.elim_some] at hnot
      rcases hpursued.apply (hpursued.length_lt hnot) happly with
        ⟨hpursued', hle, hlt⟩
      refine ⟨⟨m', hafter, hpursued'⟩, ?_, fun h => ?_⟩
      · simpa only [remaining, hm, hafter, Option.elim_some] using hle
      · simpa only [remaining, hm, hafter, Option.elim_some] using
          hlt (hworker.mp h)

/-- The jobs accepted in a state in which they have a worker are taken in
every fair continuation. -/
theorem Inv.exists_taken {s : CompressionManagerFactory ι} (hinv : s.Inv)
    (e : Execution step s) (hfair : e.WeaklyFair (· = .worker)) :
    ∃ n, s.accepted <+: (e.state n).taken := by
  cases hm : s.manager with
  | none => exact ⟨0, by simp [accepted, hm]⟩
  | some m =>
      rcases hinv m hm with ⟨hgood, hserved⟩
      have hstart : s.Pursued m.accepted := by
        refine ⟨m, hm, hgood, List.prefix_refl _, fun hleft => hserved ?_⟩
        rw [hgood.history, List.length_append] at hleft
        exact List.ne_nil_of_length_pos (by omega)
      have haccepted : s.accepted = m.accepted := by simp [accepted, hm]
      rw [haccepted]
      refine e.progress (remaining m.accepted.length) hfair
        (fun _ _ _ hpursued hnot hstep => hpursued.step hnot hstep) ?_ hstart
      rintro s ⟨m', hm', hpursued⟩ hnot
      simp only [taken, hm', Option.elim_some] at hnot
      have hworking := hpursued.working (hpursued.length_lt hnot)
      rcases hworking.exists_workerFunc with ⟨t, ht⟩
      refine ⟨.worker, { s with manager := some t }, rfl, ?_⟩
      simp [step, apply, hm', CompressionManager.apply, ht]

/-- While `Submit` does not enter the manager in the moment in which a worker
is about to leave, a job in the queue always has a worker in its loop, and
every accepted job is taken in every fair continuation. -/
theorem no_job_lost {s : CompressionManagerFactory ι}
    (hrun : Run step FindsWorker initial s) :
    (s.queue ≠ [] → s.WorkerInLoop) ∧ s.accepted = s.taken ++ s.queue ∧
      ∀ e : Execution step s, e.WeaklyFair (· = .worker) →
        ∃ n, s.accepted <+: (e.state n).taken := by
  have hinv : s.Inv := hrun.invariant
    (fun _ _ _ hinv hfinds hstep => step_inv hinv hfinds hstep) initial_inv
  refine ⟨fun hqueue => ?_, ?_, fun e hfair => hinv.exists_taken e hfair⟩
  · cases hm : s.manager with
    | none => simp [queue, hm] at hqueue
    | some m =>
        simp only [queue, hm, Option.elim_some] at hqueue
        exact ⟨m, hm, .inl ((hinv m hm).2 hqueue)⟩
  · cases hm : s.manager with
    | none => simp [accepted, taken, queue, hm]
    | some m =>
        simpa [accepted, taken, queue, hm] using (hinv m hm).1.history

/-- The worker takes the only job, the user leaves and the worker leaves its
loop; a new user submits a job before the worker sets `Stopped`. -/
private def lateSubmit : List (CompressionAction Unit) :=
  .call () .registerUser :: List.replicate 2 (.next ()) ++
    .call () (.submit "a") :: List.replicate 5 (.next ()) ++
    [.worker, .worker] ++
    .call () .releaseUser :: List.replicate 3 (.next ()) ++
    .worker ::
    .call () .registerUser :: List.replicate 3 (.next ()) ++
    .call () (.submit "b") :: List.replicate 5 (.next ()) ++
    [.worker]

theorem job_is_stranded :
    ¬ ∀ s : CompressionManagerFactory Unit, Reachable step initial s →
      s.queue ≠ [] → s.stopping = false → s.WorkerInLoop ∨ s.Submitting := by
  intro hall
  rcases exists_reachable_of_exec step initial lateSubmit
      (fun s => decide (s.queue = ["b"]) && !s.stopping &&
        decide (s.manager.map CompressionManager.worker = some .finished) &&
        decide (s.pc () = .idle)) (by decide) with ⟨s, hreach, hcheck⟩
  simp only [Bool.and_eq_true, Bool.not_eq_true', decide_eq_true_eq] at hcheck
  rcases hcheck with ⟨⟨⟨hqueue, hstopping⟩, hworker⟩, hidle⟩
  rcases hall s hreach (by simp [hqueue]) hstopping with
    ⟨m, hm, (hready | ⟨file, hbusy⟩) | hwaiting⟩ | ⟨c, file, hpc⟩
  · simp [hm, hready] at hworker
  · simp [hm, hbusy] at hworker
  · simp [hm, hwaiting] at hworker
  · simp [hidle] at hpc

/-- The user stays while two jobs are submitted. -/
theorem no_job_lost_two_jobs :
    ∃ s : CompressionManagerFactory Unit, s.queue = ["b"] ∧
      s.WorkerInLoop ∧
      ∀ e : Execution step s, e.WeaklyFair (· = .worker) →
        ∃ n, ["a", "b"] <+: (e.state n).taken := by
  rcases exists_run_of_exec step FindsWorker
      (initial : CompressionManagerFactory Unit)
      (.call () .registerUser :: List.replicate 2 (.next ()) ++
        .call () (.submit "a") :: List.replicate 5 (.next ()) ++
        [.worker] ++
        .call () (.submit "b") :: List.replicate 5 (.next ()))
      (fun s => decide (s.queue = ["b"]) &&
        decide (s.accepted = ["a", "b"])) (by decide) with ⟨s, hrun, hcheck⟩
  simp only [Bool.and_eq_true, decide_eq_true_eq] at hcheck
  rcases hcheck with ⟨hqueue, haccepted⟩
  have hkept := no_job_lost hrun
  rw [haccepted] at hkept
  exact ⟨s, hqueue, hkept.1 (by simp [hqueue]), hkept.2.2⟩

end CompressionManagerFactory

end Logme
