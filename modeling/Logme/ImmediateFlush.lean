import Logme.QueuedBytesAccounting

/-!
# What becomes of an immediate flush request

`RequestFlush` never replaces `RIGHT_NOW`, so only the worker can lose an
immediate request.  It recomputes the flush time at the end of its run, from
times that it has read before, and stores the result without looking at what
has been stored in between.
-/

namespace Logme

open StepSystem BufferQueue

namespace SharedBackend

variable {τ β : Type} [DecidableEq τ]

omit [DecidableEq τ] in
/-- Since an immediate request was accepted no run of the worker has begun,
and the request still stands. -/
def RequestKept (s : SharedBackend τ β) : Prop :=
  s.owed = true → s.flushTime = RIGHT_NOW

omit [DecidableEq τ] in
/-- With a request outstanding the worker does not take one of the branches
that store anything else: a deadline that is not due, the exchange for 0, or
the deadline of the last branch. -/
def KeepsRequest (s : SharedBackend τ β) : SharedAction τ β → Prop
  | .worker now spurious _ =>
      s.owed = true →
        match s.worker with
        | .storeDeadline oldest =>
            s.deadline oldest ≤ now ∨ s.deadline oldest = RIGHT_NOW
        | .clear expected => spurious = true ∨ s.flushTime ≠ expected
        | .storeLater => s.deadline now = RIGHT_NOW
        | _ => True
  | _ => True

instance (s : SharedBackend τ β) (action : SharedAction τ β) :
    Decidable (s.KeepsRequest action) := by
  cases action with
  | worker now spurious a =>
      dsimp only [KeepsRequest]
      split <;> infer_instance
  | _ => exact .isTrue trivial

structure RequestInv (s : SharedBackend τ β) : Prop where
  kept : s.RequestKept
  exchanging : ∀ t time old flush, s.caller t = .exchange time old flush →
    old ≠ RIGHT_NOW

/-! ## Callers never lose a request -/

omit [DecidableEq τ] in
theorem RequestInv.of_eq {s next : SharedBackend τ β} (h : s.RequestInv)
    (hflush : next.flushTime = s.flushTime) (howed : next.owed = s.owed)
    (hcaller : ∀ t time old flush, next.caller t = .exchange time old flush →
      s.caller t = .exchange time old flush) : next.RequestInv := by
  refine ⟨?_, fun t time old flush hpc =>
    h.exchanging t time old flush (hcaller t time old flush hpc)⟩
  unfold RequestKept
  rw [hflush, howed]
  exact h.kept

/-- A caller that moves to a place other than the exchange. -/
theorem exchange_of_update {s : SharedBackend τ β} {t : τ} {pc : CallerPc β}
    (hpc : ∀ time old flush, pc ≠ .exchange time old flush) :
    ∀ u time old flush,
      Function.update s.caller t pc u = .exchange time old flush →
        s.caller u = .exchange time old flush := by
  intro u time old flush hu
  by_cases hut : u = t
  · subst u
    rw [Function.update_self] at hu
    exact absurd hu (hpc time old flush)
  · rwa [Function.update_of_ne hut] at hu

theorem queue_requests {s next : SharedBackend τ β}
    {action : Action (Thread τ) β} (hstep : s.queue action = some next) :
    next.flushTime = s.flushTime ∧ next.owed = s.owed ∧
      next.caller = s.caller ∧ next.worker = s.worker := by
  rcases queue_cases hstep with ⟨system, -, rfl⟩
  exact ⟨rfl, rfl, rfl, rfl⟩

theorem RequestInv.queue {s next : SharedBackend τ β} {t : τ}
    {pc : CallerPc β} {action : Action (Thread τ) β} (h : s.RequestInv)
    (hpc : ∀ time old flush, pc ≠ .exchange time old flush)
    (hstep : (s.setCaller t pc).queue action = some next) :
    next.RequestInv := by
  rcases queue_requests hstep with ⟨hflush, howed, hcaller, -⟩
  apply h.of_eq hflush howed
  rw [hcaller]
  exact exchange_of_update hpc

theorem RequestInv.setCaller {s : SharedBackend τ β} {t : τ}
    {pc : CallerPc β} (h : s.RequestInv)
    (hpc : ∀ time old flush, pc ≠ .exchange time old flush) :
    (s.setCaller t pc).RequestInv :=
  h.of_eq rfl rfl (exchange_of_update hpc)

omit [DecidableEq τ] in
theorem owedBy_cases {s : SharedBackend τ β} {time : Nat}
    (h : s.owedBy time = true) : s.owed = true ∨ time = RIGHT_NOW := by
  simp only [owedBy, Bool.or_eq_true, Bool.and_eq_true,
    decide_eq_true_eq] at h
  rcases h with howed | ⟨htime, -⟩
  · exact .inl howed
  · exact .inr htime

omit [DecidableEq τ] in
theorem requested_ne_exchange (flush : Option (List β)) (time old : Nat)
    (flush' : Option (List β)) :
    CallerPc.requested flush ≠ .exchange time old flush' := by
  cases flush <;> simp [CallerPc.requested]

/-- A request that is turned down has seen `RIGHT_NOW` or an earlier time; an
immediate one has seen `RIGHT_NOW`. -/
theorem checkFlushTime_requests {s : SharedBackend τ β} {t : τ} {time : Nat}
    {flush : Option (List β)} (h : s.RequestInv) :
    (s.checkFlushTime t time flush).RequestInv := by
  unfold checkFlushTime
  split
  next hseen =>
    refine ⟨?_, (h.setCaller (t := t)
      (requested_ne_exchange flush)).exchanging⟩
    intro howed
    rcases owedBy_cases howed with hold | htime
    · exact h.kept hold
    · subst time
      rcases hseen.2 with hnow | hle
      · exact hnow
      · have hpos := hseen.1
        simp only [SharedBackend.setCaller, RIGHT_NOW] at hle ⊢
        omega
  next hunseen =>
    refine ⟨h.kept, ?_⟩
    intro u time' old flush' hu
    by_cases hut : u = t
    · subst u
      simp only [SharedBackend.setCaller, Function.update_self,
        CallerPc.exchange.injEq] at hu
      rcases hu with ⟨-, rfl, -⟩
      intro hnow
      exact hunseen ⟨by simp [hnow, RIGHT_NOW], .inl hnow⟩
    · simp only [SharedBackend.setCaller, Function.update_of_ne hut] at hu
      exact h.exchanging u time' old flush' hu

/-- The exchange succeeds on a value other than `RIGHT_NOW` only. -/
theorem exchange_requests {s : SharedBackend τ β} {t : τ} {time old : Nat}
    {flush : Option (List β)} (h : s.RequestInv)
    (hcaller : s.caller t = .exchange time old flush)
    (hvalue : s.flushTime = old) :
    RequestInv
      { s.setCaller t (.requested flush) with
        flushTime := time
        owed := s.owedBy time } := by
  refine ⟨?_, (h.setCaller (t := t) (requested_ne_exchange flush)).exchanging⟩
  intro howed
  rcases owedBy_cases howed with hold | htime
  · have hnow := h.kept hold
    rw [hvalue] at hnow
    exact absurd hnow (h.exchanging t time old flush hcaller)
  · exact htime

theorem stepCaller_requests {s next : SharedBackend τ β} {t : τ} {now : Nat}
    {spurious : Bool} {a : Allocation} (h : s.RequestInv)
    (hstep : s.stepCaller t now spurious a = some next) :
    next.RequestInv := by
  have hsame : ∀ {action : Action (Thread τ) β},
      s.queue action = some next → next.RequestInv := by
    intro action hqueue
    rcases queue_requests hqueue with ⟨hflush, howed, hcaller, -⟩
    apply h.of_eq hflush howed
    rw [hcaller]
    exact fun _ _ _ _ => id
  unfold stepCaller at hstep
  cases hcaller : s.caller t with
  | idle => simp [hcaller] at hstep
  | loadFlushTime text =>
      simp only [hcaller, Option.some.injEq] at hstep
      subst next
      exact h.setCaller (by simp)
  | append text time =>
      simp only [hcaller] at hstep
      exact h.queue (by simp) hstep
  | appending text =>
      simp only [hcaller] at hstep
      split at hstep
      next =>
        simp only [Option.some.injEq] at hstep
        subst next
        apply h.setCaller
        split <;> simp
      next => exact hsame hstep
  | count text firstData =>
      simp only [hcaller, Option.some.injEq] at hstep
      subst next
      exact h.of_eq rfl rfl (exchange_of_update (by simp))
  | getUsedBuffers firstData queued =>
      simp only [hcaller, Option.some.injEq] at hstep
      subst next
      exact h.setCaller (by simp)
  | reloadFlushTime firstData pressure =>
      simp only [hcaller, Option.some.injEq] at hstep
      subst next
      apply h.setCaller
      unfold afterCount
      cases firstData <;> cases pressure <;> dsimp only <;> split_ifs <;> simp
  | setFirstWriteTime value request =>
      simp only [hcaller] at hstep
      exact h.queue (by cases request <;> simp) hstep
  | requestFlush time flush =>
      simp only [hcaller, Option.some.injEq] at hstep
      subst next
      exact checkFlushTime_requests h
  | exchange time old flush =>
      simp only [hcaller] at hstep
      split_ifs at hstep with hfails
      · simp only [Option.some.injEq] at hstep
        subst next
        exact checkFlushTime_requests h
      · simp only [Option.some.injEq] at hstep
        subst next
        rw [not_or, not_not] at hfails
        exact exchange_requests h hcaller hfails.2
  | unlock =>
      simp only [hcaller] at hstep
      exact h.queue (by simp) hstep
  | publish flush =>
      simp only [hcaller] at hstep
      split at hstep
      next =>
        split_ifs at hstep
        · exact hsame hstep
        · simp only [Option.some.injEq] at hstep
          subst next
          exact h.setCaller (by simp)
      next => exact hsame hstep
  | wait flush =>
      simp only [hcaller] at hstep
      split_ifs at hstep
      simp only [Option.some.injEq] at hstep
      subst next
      exact h.setCaller (by simp)

/-! ## What the worker stores -/

/-- A step of the worker leaves the callers alone, and keeps a standing
request exactly when it does not take one of the wrong branches. -/
theorem stepWorker_requests {s next : SharedBackend τ β} {now : Nat}
    {spurious : Bool} {a : Allocation} (h : s.RequestInv)
    (hstep : s.stepWorker now spurious a = some next) :
    next.caller = s.caller ∧
      (s.KeepsRequest (.worker now spurious a) ↔ next.RequestKept) := by
  have hquiet : ∀ r : SharedBackend τ β, r.flushTime = s.flushTime →
      r.owed = s.owed → r.RequestKept := by
    intro r hflush howed
    unfold RequestKept
    rw [hflush, howed]
    exact h.kept
  have hqueue : ∀ {pc : WorkerPc} {action : Action (Thread τ) β},
      (s.setWorker pc).queue action = some next →
        next.caller = s.caller ∧ next.RequestKept := by
    intro pc action hq
    rcases queue_requests hq with ⟨hflush, howed, hcaller, -⟩
    exact ⟨hcaller, hquiet next hflush howed⟩
  unfold stepWorker at hstep
  simp only [KeepsRequest]
  cases hworker : s.worker with
  | idle =>
      simp only [hworker, Option.some.injEq] at hstep
      subst next
      exact ⟨rfl, by simp [RequestKept]⟩
  | takeReady loops forceFlush =>
      simp only [hworker, Option.map_eq_some_iff] at hstep
      rcases hstep with ⟨middle, hq, rfl⟩
      rcases queue_requests hq with ⟨hflush, howed, hcaller, -⟩
      split_ifs
      all_goals
        exact ⟨hcaller, iff_of_true (by simp) (hquiet _ hflush howed)⟩
  | recycle loops =>
      simp only [hworker] at hstep
      exact ⟨(hqueue hstep).1, iff_of_true (by simp) (hqueue hstep).2⟩
  | trim loops =>
      simp only [hworker] at hstep
      exact ⟨(hqueue hstep).1, iff_of_true (by simp) (hqueue hstep).2⟩
  | startPublish loops =>
      simp only [hworker] at hstep
      exact ⟨(hqueue hstep).1, iff_of_true (by simp) (hqueue hstep).2⟩
  | publish loops =>
      simp only [hworker] at hstep
      split at hstep
      next =>
        simp only [Option.some.injEq] at hstep
        subst next
        exact ⟨rfl, iff_of_true (by simp) (hquiet _ rfl rfl)⟩
      next =>
        rcases queue_requests hstep with ⟨hflush, howed, hcaller, -⟩
        exact ⟨hcaller, iff_of_true (by simp) (hquiet _ hflush howed)⟩
  | storeDeadline oldest =>
      simp only [hworker, Option.some.injEq] at hstep
      subst next
      refine ⟨rfl, ?_⟩
      simp only [RequestKept]
      split
      next hdue => simp [hdue]
      next hlater => simp [hlater]
  | clear expected =>
      simp only [hworker] at hstep
      split_ifs at hstep with hfails
      · simp only [Option.some.injEq] at hstep
        subst next
        exact ⟨rfl, iff_of_true (fun _ => hfails) (hquiet _ rfl rfl)⟩
      · simp only [Option.some.injEq] at hstep
        subst next
        refine ⟨rfl, ?_⟩
        simp [RequestKept, hfails, RIGHT_NOW]
  | storeRightNow =>
      simp only [hworker, Option.some.injEq] at hstep
      subst next
      exact ⟨rfl, by simp [RequestKept]⟩
  | storeLater =>
      simp only [hworker, Option.some.injEq] at hstep
      subst next
      exact ⟨rfl, Iff.rfl⟩
  | _ =>
      simp only [hworker, Option.some.injEq] at hstep
      subst next
      exact ⟨rfl, iff_of_true (by simp) (hquiet _ rfl rfl)⟩

theorem step_requests {s next : SharedBackend τ β}
    {action : SharedAction τ β} (h : s.RequestInv)
    (hstep : s.step action = some next) :
    (s.KeepsRequest action ↔ next.RequestKept) ∧
      (next.RequestKept → next.RequestInv) := by
  have hcallers : next.RequestInv → (∀ now spurious a,
      action ≠ .worker now spurious a) →
        (s.KeepsRequest action ↔ next.RequestKept) ∧
          (next.RequestKept → next.RequestInv) := by
    intro hnext hother
    refine ⟨iff_of_true ?_ hnext.kept, fun _ => hnext⟩
    cases action with
    | worker now spurious a => exact absurd rfl (hother now spurious a)
    | _ => exact trivial
  cases action with
  | appendOutputData t text =>
      simp only [step] at hstep
      cases hcaller : s.caller t <;> simp only [hcaller, reduceCtorEq] at hstep
      split_ifs at hstep
      exact hcallers (h.queue (by simp) hstep) (by simp)
  | flush t =>
      simp only [step] at hstep
      cases hcaller : s.caller t <;> simp only [hcaller, reduceCtorEq] at hstep
      exact hcallers (h.queue (by simp) hstep) (by simp)
  | caller t now spurious a =>
      exact hcallers (stepCaller_requests h hstep) (by simp)
  | selectEarly =>
      simp only [step] at hstep
      cases hworker : s.worker <;>
        simp only [hworker, reduceCtorEq, Option.some.injEq] at hstep
      subst next
      exact hcallers ⟨fun _ => rfl, h.exchanging⟩ (by simp)
  | worker now spurious a =>
      rcases stepWorker_requests h hstep with ⟨hcaller, hiff⟩
      refine ⟨hiff, fun hkept => ⟨hkept, ?_⟩⟩
      rw [hcaller]
      exact h.exchanging

/-- An immediate request stands in every state of a run in which the worker
takes none of the wrong branches while a request is outstanding, and the
first step that takes one loses it. -/
theorem immediate_request_kept (options : Options) (a : Allocation)
    (flushAfter queueSizeLimit : Nat) (s : SharedBackend τ β)
    (hrun : Run step KeepsRequest
      (initial options a flushAfter queueSizeLimit) s) :
    s.RequestKept ∧
      ∀ action next, s.step action = some next →
        (s.KeepsRequest action ↔ next.RequestKept) := by
  have hinv : s.RequestInv := by
    apply hrun.invariant (I := RequestInv)
    · intro s action next h hok hstep
      rcases step_requests h hstep with ⟨hiff, hnext⟩
      exact hnext (hiff.mp hok)
    · exact ⟨by simp [RequestKept, initial], by simp [initial]⟩
  exact ⟨hinv.kept, fun action next hstep => (step_requests hinv hstep).1⟩

/-! ## A flush during the worker's last steps -/

/-- A record is flushed by caller 1 and written by the worker; caller 0
appends another one at 1001, from which the worker computes its deadline;
caller 2 flushes before the worker stores it. -/
private def flushDuringUpdate : List (SharedAction (Fin 3) UInt8) :=
  .appendOutputData 0 [0x61] ::
    List.replicate 10 (.caller 0 1000 false ⟨1, none⟩) ++
  .flush 1 :: List.replicate 15 (.caller 1 1000 false ⟨2, none⟩) ++
  List.replicate 7 (.worker 1001 false ⟨3, none⟩) ++
  .appendOutputData 0 [0x62] ::
    List.replicate 8 (.caller 0 1001 false ⟨4, none⟩) ++
  List.replicate 4 (.worker 1001 false ⟨5, none⟩) ++
  .flush 2 :: List.replicate 10 (.caller 2 1001 false ⟨6, none⟩)

/-- The worker stores 1501 although caller 2 has seen `RIGHT_NOW` and relies
on it. -/
theorem stale_deadline_replaces_request :
    ¬ ∀ (options : Options) (a : Allocation)
      (flushAfter queueSizeLimit : Nat) (s : SharedBackend (Fin 3) UInt8),
      Reachable step (initial options a flushAfter queueSizeLimit) s →
        s.RequestKept := by
  intro hall
  rcases exists_reachable_of_exec step
      ((initial {} ⟨0, none⟩ 500 100000 : SharedBackend (Fin 3) UInt8))
      (flushDuringUpdate ++ [.worker 1001 false ⟨7, none⟩])
      (fun s => s.owed && decide (s.flushTime = 1501) &&
        decide (s.queuedBytes = 1)) (by decide) with ⟨s, hreach, hcheck⟩
  simp only [Bool.and_eq_true, decide_eq_true_eq] at hcheck
  rcases hcheck with ⟨⟨howed, hlater⟩, -⟩
  have hkept := hall {} ⟨0, none⟩ 500 100000 s hreach howed
  rw [hlater, RIGHT_NOW] at hkept
  exact absurd hkept (by decide)

/-- The same run, but the worker stores its result when the deadline is due:
the request stands. -/
theorem immediate_request_kept_when_due :
    ∃ s : SharedBackend (Fin 3) UInt8,
      s.owed = true ∧ s.flushTime = RIGHT_NOW := by
  rcases exists_run_of_exec step KeepsRequest
      ((initial {} ⟨0, none⟩ 500 100000 : SharedBackend (Fin 3) UInt8))
      (flushDuringUpdate ++ [.worker 1501 false ⟨7, none⟩])
      (fun s => s.owed) (by decide) with ⟨s, hrun, howed⟩
  exact ⟨s, howed,
    (immediate_request_kept {} ⟨0, none⟩ 500 100000 s hrun).1 howed⟩

end SharedBackend

end Logme
