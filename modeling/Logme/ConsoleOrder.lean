import Mathlib.Data.Fintype.Option
import Logme.ConsoleManager

/-!
# Order and completion of console output

The worker and the callers of `DrainPending` may hold records that they have
taken and not yet written.  The records come out in the order of the pushes as
long as nobody takes the buffer while another still holds records, and `Flush`
is a barrier as long as nobody clears `Processing` meanwhile.
-/

namespace Logme

open StepSystem Threads

namespace ConsoleSystem

variable {τ : Type} [DecidableEq τ]

/-- What a consumer has taken and not yet written; `none` is the worker. -/
def held (s : ConsoleSystem τ) : Option τ → List ConsoleRecord
  | none => s.worker.held
  | some t => (s.pc t).held

/-- The pushed records that have not been dropped. -/
def kept (s : ConsoleSystem τ) : List ConsoleRecord :=
  s.pushed.filter fun r => r.id ∉ s.dropped

/-- The step takes a buffer that is not empty. -/
def Takes (s : ConsoleSystem τ) : ConsoleStep τ → Prop
  | .worker => s.worker = .look ∧ s.buffer ≠ []
  | .step t =>
      match s.pc t with
      | .drain _ => s.buffer ≠ []
      | _ => False
  | _ => False

/-- The step clears `Processing`. -/
def Clears (s : ConsoleSystem τ) : ConsoleStep τ → Prop
  | .worker =>
      match s.worker with
      | .look => (s.stopRequested ∨ s.needsReschedule) ∧ s.buffer = []
      | .printing .finished _ | .finish => True
      | _ => False
  | .step t =>
      match s.pc t with
      | .flush _ => s.processing = true ∧ s.workerAvailable = false
      | .idleWait _ => s.workerAvailable = false
      | .printing .finished _ => True
      | _ => False
  | _ => False

/-! ## What a step does to the records -/

inductive Transfer (s : ConsoleSystem τ) (a : ConsoleStep τ) (s' : ConsoleSystem τ) :
    Prop
  | stays (hbuffer : s'.buffer = s.buffer) (hheld : s'.held = s.held)
      (hwritten : s'.written = s.written) (hpushed : s'.pushed = s.pushed)
      (hdropped : s'.dropped = s.dropped)
      (hprocessing : s'.processing = s.processing ∨ s.Clears a)
  | takes (c : Option τ) (htakes : s.Takes a) (hempty : s.held c = [])
      (hbuffer : s'.buffer = []) (hheld : s'.held = Function.update s.held c s.buffer)
      (hwritten : s'.written = s.written) (hpushed : s'.pushed = s.pushed)
      (hdropped : s'.dropped = s.dropped) (hprocessing : s'.processing = true)
  | writes (c : Option τ) (write rest : List ConsoleRecord)
      (htaken : s.held c = write ++ rest) (hbuffer : s'.buffer = s.buffer)
      (hheld : s'.held = Function.update s.held c rest)
      (hwritten : s'.written = s.written ++ write) (hpushed : s'.pushed = s.pushed)
      (hdropped : s'.dropped = s.dropped) (hprocessing : s'.processing = s.processing)
  | appends (gone rest : List ConsoleRecord) (r : ConsoleRecord)
      (hsplit : gone ++ rest = s.buffer) (hid : r.id = s.pushed.length)
      (hbuffer : s'.buffer = rest ++ [r]) (hheld : s'.held = s.held)
      (hwritten : s'.written = s.written) (hpushed : s'.pushed = s.pushed ++ [r])
      (hdropped : s'.dropped = s.dropped ++ gone.map ConsoleRecord.id)
      (hprocessing : s'.processing = s.processing)
  | drops (gone rest : List ConsoleRecord) (r : ConsoleRecord)
      (hsplit : gone ++ rest = s.buffer) (hid : r.id = s.pushed.length)
      (hbuffer : s'.buffer = rest) (hheld : s'.held = s.held)
      (hwritten : s'.written = s.written) (hpushed : s'.pushed = s.pushed ++ [r])
      (hdropped : s'.dropped = s.dropped ++ gone.map ConsoleRecord.id ++ [r.id])
      (hprocessing : s'.processing = s.processing)

section Steps

variable {s s' : ConsoleSystem τ} {t : τ} {next : ConsolePc} {a : ConsoleStep τ}

theorem held_of_pc (next : ConsolePc) (hworker : s'.worker.held = s.worker.held)
    (hpc : s'.pc = Function.update s.pc t next) :
    s'.held = Function.update s.held (some t) next.held := by
  funext c
  rcases c with _ | u
  · rw [Function.update_of_ne (by simp), held, held, hworker]
  · by_cases hu : u = t
    · subst hu
      rw [Function.update_self, held, hpc, Function.update_self]
    · rw [Function.update_of_ne (by simpa using hu), held, held, hpc,
        Function.update_of_ne hu]

theorem held_same (hworker : s'.worker.held = s.worker.held)
    (hpc : s'.pc = Function.update s.pc t next) (hsame : next.held = (s.pc t).held) :
    s'.held = s.held := by
  rw [held_of_pc next hworker hpc, hsame]
  exact Function.update_eq_self (some t) s.held

theorem held_of_worker (worker : ConsoleWorker) (hpc : s'.pc = s.pc)
    (hworker : s'.worker = worker) :
    s'.held = Function.update s.held none worker.held := by
  funext c
  rcases c with _ | u
  · rw [Function.update_self, held, hworker]
  · rw [Function.update_of_ne (by simp), held, held, hpc]

theorem held_same_worker (hpc : s'.pc = s.pc) (hsame : s'.worker.held = s.worker.held) :
    s'.held = s.held := by
  rw [held_of_worker s'.worker hpc rfl, hsame]
  exact Function.update_eq_self none s.held

theorem held_afterPush (flush : Bool) (mark : Nat) : (afterPush flush mark).held = [] := by
  cases flush <;> rfl

theorem held_afterDrain (caller : DrainCaller) : (afterDrain caller).held = [] := by
  cases caller <;> rfl

/-- A thread moves on without an effect on the records. -/
theorem transfer_setPc (hsame : next.held = (s.pc t).held) :
    Transfer s a (s.setPc t next) :=
  .stays rfl (held_same rfl rfl hsame) rfl rfl rfl (.inl rfl)

theorem transfer_pushed {call : PushCall} (hpc : (s.pc t).held = [])
    (hpushed : Pushed s t call s') : Transfer s a s' := by
  cases hpushed with
  | appended gone rest hbuffer =>
      refine .appends gone rest (s.recordOf call) hbuffer rfl rfl ?_ rfl rfl rfl rfl
      refine held_same rfl rfl ?_
      rw [hpc]
      split
      next => rfl
      next => exact held_afterPush _ _
  | droppedNew gone rest hbuffer =>
      refine .drops gone rest (s.recordOf call) hbuffer rfl rfl ?_ rfl rfl rfl rfl
      exact held_same rfl rfl ((held_afterPush _ _).trans hpc.symm)
  | blocked => exact transfer_setPc hpc.symm
  | drains => exact transfer_setPc hpc.symm

theorem transfer_flushRound {mark : Nat} (hpc : s.pc t = .flush mark) :
    Transfer s (.step t) (s.flushRound t mark) := by
  have hheld : (s.pc t).held = [] := by rw [hpc]; rfl
  unfold flushRound
  split
  next hprocessing =>
    split
    next => exact transfer_setPc hheld.symm
    next havailable =>
      refine .stays rfl (held_same rfl rfl hheld.symm) rfl rfl rfl (.inr ?_)
      simp only [Clears, hpc]
      exact ⟨hprocessing, by simpa using havailable⟩
  next =>
    split
    next => exact transfer_setPc hheld.symm
    next => exact transfer_setPc hheld.symm

theorem transfer_printing {state : Printing} {caller : DrainCaller}
    (hpc : s.pc t = .printing state caller)
    (hstep : (s.printStep state).map (fun next =>
      next.1.setPc t (.printing next.2 caller)) = some s') :
    Transfer s (.step t) s' := by
  obtain ⟨⟨printed, state'⟩, hprint, rfl⟩ := Option.map_eq_some_iff.mp hstep
  obtain ⟨lock, write, rfl, hheld⟩ := printStep_spec hprint
  refine .writes (some t) write state'.held ?_ rfl
    (held_of_pc (.printing state' caller) rfl rfl) rfl rfl rfl rfl
  rw [held, hpc]
  exact hheld

theorem stepThread_transfer (hstep : s.stepThread t = some s') :
    Transfer s (.step t) s' := by
  unfold stepThread at hstep
  split at hstep
  next => contradiction
  next => contradiction
  next call hpc =>
    cases hstep
    exact transfer_pushed (by rw [hpc]; rfl) (s.pushRecord_pushed t call)
  next call hpc =>
    cases hstep
    exact transfer_pushed (by rw [hpc]; rfl) (s.block_pushed t call)
  next flush hpc =>
    cases hstep
    refine .stays rfl (held_same ?_ rfl ?_) rfl rfl rfl (.inl rfl)
    · cases hworker : s.worker <;> rfl
    · rw [held_afterPush, hpc]
      rfl
  next mark hpc =>
    cases hstep
    exact transfer_flushRound hpc
  next mark hpc =>
    cases hstep
    refine .stays rfl (held_same rfl rfl (by rw [hpc]; rfl)) rfl rfl rfl ?_
    cases havailable : s.workerAvailable with
    | true => exact .inl (Bool.and_true _)
    | false =>
        right
        simp only [Clears, hpc]
        exact havailable
  next caller hpc =>
    split at hstep
    next =>
      cases hstep
      exact transfer_setPc ((held_afterDrain caller).trans (by rw [hpc]; rfl))
    next hne =>
      cases hstep
      refine .takes (some t) ?_ ?_ rfl
        (held_of_pc (.printing (.waiting s.buffer) caller) rfl rfl) rfl rfl rfl rfl
      · simp only [Takes, hpc]
        exact hne
      · rw [held, hpc]
        rfl
  next caller hpc =>
    cases hstep
    refine .stays rfl (held_same rfl rfl (by rw [hpc]; rfl)) rfl rfl rfl (.inr ?_)
    simp only [Clears, hpc]
  next state caller _ hpc => exact transfer_printing hpc hstep
  next hpc =>
    cases hstep
    split
    next hstart =>
      refine .stays rfl (held_same ?_ rfl (by rw [hpc]; rfl)) rfl rfl rfl (.inl rfl)
      rw [hstart.1]
      rfl
    next => exact transfer_setPc (by rw [hpc]; rfl)
  next hpc =>
    cases hstep
    exact .stays rfl (held_same rfl rfl (by rw [hpc]; rfl)) rfl rfl rfl (.inl rfl)
  next hpc =>
    cases hstep
    exact .stays rfl (held_same rfl rfl (by rw [hpc]; rfl)) rfl rfl rfl (.inl rfl)
  next hpc =>
    cases hstep
    refine .stays rfl (held_same ?_ rfl (by rw [hpc]; rfl)) rfl rfl rfl (.inl rfl)
    cases hworker : s.worker <;> rfl

theorem stepWorker_transfer (hstep : s.stepWorker = some s') :
    Transfer s .worker s' := by
  unfold stepWorker at hstep
  split at hstep
  next => contradiction
  next => contradiction
  next hworker =>
    split at hstep
    next hlooks =>
      cases hstep
      by_cases hbuffer : s.buffer = []
      · refine .stays hbuffer.symm (held_same_worker rfl ?_) rfl rfl rfl (.inr ?_)
        · rw [hworker, if_pos hbuffer]
          rfl
        · simp only [Clears, hworker]
          exact ⟨hlooks.elim .inl fun h => h.elim .inr fun hne => absurd hbuffer hne,
            hbuffer⟩
      · refine .takes none ⟨hworker, hbuffer⟩ ?_ rfl ?_ rfl rfl rfl ?_
        · rw [held, hworker]
          rfl
        · refine held_of_worker (.printing (.waiting s.buffer) s.stopRequested) rfl ?_
          rw [if_neg hbuffer]
        · exact decide_eq_true hbuffer
    next =>
      cases hstep
      refine .stays rfl (held_same_worker rfl ?_) rfl rfl rfl (.inl rfl)
      rw [hworker]
      rfl
  next hworker =>
    cases hstep
    refine .stays rfl (held_same_worker rfl ?_) rfl rfl rfl (.inl rfl)
    rw [hworker]
    rfl
  next stopping hworker =>
    cases hstep
    refine .stays rfl (held_same_worker rfl ?_) rfl rfl rfl (.inr ?_)
    · rw [hworker]
      cases stopping <;> rfl
    · simp only [Clears, hworker]
  next state stopping _ hworker =>
    obtain ⟨⟨printed, state'⟩, hprint, rfl⟩ := Option.map_eq_some_iff.mp hstep
    obtain ⟨lock, write, rfl, hheld⟩ := printStep_spec hprint
    refine .writes none write state'.held ?_ rfl
      (held_of_worker (.printing state' stopping) rfl rfl) rfl rfl rfl rfl
    rw [held, hworker]
    exact hheld
  next hworker =>
    split at hstep
    next =>
      cases hstep
      refine .stays rfl (held_same_worker rfl ?_) rfl rfl rfl (.inl rfl)
      rw [hworker]
      rfl
    next =>
      cases hstep
      refine .stays rfl (held_same_worker rfl ?_) rfl rfl rfl (.inl rfl)
      rw [hworker]
      rfl
  next hworker =>
    cases hstep
    refine .stays rfl (held_same_worker rfl ?_) rfl rfl rfl (.inr ?_)
    · rw [hworker]
      rfl
    · simp only [Clears, hworker]

omit [DecidableEq τ] in
theorem held_begin (s : ConsoleSystem τ) (call : ConsoleCall) :
    (s.begin call).held = [] := by
  cases call with
  | push call =>
      unfold begin
      dsimp only
      split <;> rfl
  | _ => rfl

theorem step_transfer (hstep : step s a = some s') : Transfer s a s' := by
  cases a with
  | settings maxRecords maxBytes policy =>
      cases hstep
      exact .stays rfl rfl rfl rfl rfl (.inl rfl)
  | call t call =>
      simp only [step] at hstep
      split at hstep
      next hresting =>
        cases hstep
        refine transfer_setPc ((s.held_begin call).trans ?_)
        cases hpc : s.pc t <;> rw [hpc] at hresting <;> first | rfl | contradiction
      next => contradiction
  | step t => exact stepThread_transfer hstep
  | worker => exact stepWorker_transfer hstep

/-! ## The order of the writes -/

/-- Records are told from each other by a key, so those of the middle go alone. -/
theorem filter_append_middle {α ι : Type} [DecidableEq ι] {key : α → ι}
    {front gone rest : List α} (hnodup : ((front ++ (gone ++ rest)).map key).Nodup) :
    ((front ++ (gone ++ rest)).filter fun q => key q ∉ gone.map key) = front ++ rest := by
  simp only [List.map_append] at hnodup
  rw [List.nodup_append, List.nodup_append] at hnodup
  obtain ⟨-, ⟨-, -, hrest⟩, hfront⟩ := hnodup
  have hstays : ∀ q : α, (key q ∉ gone.map key) → decide (key q ∉ gone.map key) = true :=
    fun q hq => decide_eq_true hq
  rw [List.filter_append, List.filter_append, List.filter_eq_self.mpr,
    List.filter_eq_nil_iff.mpr, List.filter_eq_self.mpr]
  · rfl
  · exact fun q hq => hstays q fun hgone => hrest _ hgone _ (List.mem_map_of_mem hq) rfl
  · intro q hq hnot
    exact of_decide_eq_true hnot (List.mem_map_of_mem hq)
  · exact fun q hq => hstays q fun hgone => hfront _ (List.mem_map_of_mem hq) _
      (List.mem_append_left _ hgone) rfl

/-- Nobody takes records while a consumer still holds some. -/
def TakesInTurn (s : ConsoleSystem τ) (a : ConsoleStep τ) : Prop :=
  s.Takes a → ∀ c, s.held c = []

omit [DecidableEq τ] in
theorem id_lt_of_mem {q : ConsoleRecord} (hq : q ∈ s.pushed)
    (hnumbered : s.pushed.map ConsoleRecord.id = List.range s.pushed.length) :
    q.id < s.pushed.length := by
  rw [← List.mem_range, ← hnumbered]
  exact List.mem_map_of_mem hq

omit [DecidableEq τ] in
/-- The records that remain when `gone` leaves the buffer. -/
theorem kept_of_gone {front gone rest : List ConsoleRecord}
    (hkept : front ++ (gone ++ rest) = s.kept)
    (hnumbered : s.pushed.map ConsoleRecord.id = List.range s.pushed.length) :
    (s.pushed.filter fun q => q.id ∉ s.dropped ++ gone.map ConsoleRecord.id) =
      front ++ rest := by
  have hnodup : ((front ++ (gone ++ rest)).map ConsoleRecord.id).Nodup := by
    rw [hkept]
    refine List.Nodup.sublist (List.filter_sublist.map _) ?_
    rw [hnumbered]
    exact List.nodup_range
  calc (s.pushed.filter fun q => q.id ∉ s.dropped ++ gone.map ConsoleRecord.id)
      = s.kept.filter fun q => q.id ∉ gone.map ConsoleRecord.id := by
        rw [kept, List.filter_filter]
        refine List.filter_congr fun q _ => ?_
        simp only [List.mem_append, not_or, Bool.decide_and, Bool.and_comm]
    _ = front ++ rest := by
        rw [← hkept]
        exact filter_append_middle hnodup

structure Ordered (s : ConsoleSystem τ) : Prop where
  numbered : s.pushed.map ConsoleRecord.id = List.range s.pushed.length
  known : ∀ i ∈ s.dropped, i < s.pushed.length
  inTurn : ∃ c, (∀ d, d ≠ c → s.held d = []) ∧
    s.written ++ (s.held c ++ s.buffer) = s.kept

omit [DecidableEq τ] in
theorem initial_ordered : (initial : ConsoleSystem τ).Ordered where
  numbered := rfl
  known := by simp [initial]
  inTurn := ⟨none, fun d _ => by cases d <;> rfl, rfl⟩

omit [DecidableEq τ] in
theorem numbered_push {r : ConsoleRecord}
    (hnumbered : s.pushed.map ConsoleRecord.id = List.range s.pushed.length)
    (hid : r.id = s.pushed.length) :
    (s.pushed ++ [r]).map ConsoleRecord.id = List.range (s.pushed ++ [r]).length := by
  rw [List.map_append, hnumbered, List.length_append, List.length_singleton,
    List.range_succ, List.map_singleton, hid]

omit [DecidableEq τ] in
theorem Ordered.gone (h : s.Ordered) {gone rest : List ConsoleRecord}
    (hsplit : gone ++ rest = s.buffer) :
    ∀ i ∈ s.dropped ++ gone.map ConsoleRecord.id, i < s.pushed.length := by
  intro i hi
  rcases List.mem_append.mp hi with hdropped | hgone
  · exact h.known i hdropped
  · obtain ⟨q, hq, rfl⟩ := List.mem_map.mp hgone
    obtain ⟨c, -, hkept⟩ := h.inTurn
    have hq' : q ∈ s.kept := by
      rw [← hkept, ← hsplit]
      simp [hq]
    exact id_lt_of_mem (List.mem_of_mem_filter hq') h.numbered

theorem Ordered.transfer (h : s.Ordered) (hok : TakesInTurn s a)
    (htransfer : Transfer s a s') : s'.Ordered := by
  obtain ⟨c, halone, hkept⟩ := h.inTurn
  cases htransfer with
  | stays hbuffer hheld hwritten hpushed hdropped _ =>
      refine ⟨by rw [hpushed, h.numbered], ?_, c, by rwa [hheld], ?_⟩
      · rw [hdropped, hpushed]
        exact h.known
      · rw [hwritten, hheld, hbuffer, hkept, kept, kept, hpushed, hdropped]
  | takes d htakes _ hbuffer hheld hwritten hpushed hdropped _ =>
      have hnobody := hok htakes
      refine ⟨by rw [hpushed, h.numbered], ?_, d, fun e he => ?_, ?_⟩
      · rw [hdropped, hpushed]
        exact h.known
      · rw [hheld, Function.update_of_ne he]
        exact hnobody e
      · rw [hnobody c] at hkept
        rw [hwritten, hheld, Function.update_self, hbuffer, List.append_nil, kept, hpushed,
          hdropped]
        exact hkept
  | writes d write rest htaken hbuffer hheld hwritten hpushed hdropped _ =>
      have hkept' : s'.kept = s.kept := by rw [kept, kept, hpushed, hdropped]
      refine ⟨by rw [hpushed, h.numbered], ?_, c, ?_⟩
      · rw [hdropped, hpushed]
        exact h.known
      rcases eq_or_ne d c with rfl | hne
      · refine ⟨fun e he => ?_, ?_⟩
        · rw [hheld, Function.update_of_ne he]
          exact halone e he
        · rw [hkept', ← hkept, hwritten, hheld, Function.update_self, hbuffer, htaken]
          simp only [List.append_assoc]
      · -- a consumer that holds nothing writes nothing
        have hempty := halone d hne
        obtain ⟨rfl, rfl⟩ := List.append_eq_nil_iff.mp (htaken.symm.trans hempty)
        have hsame : s'.held = s.held := by
          rw [hheld, ← hempty]
          exact Function.update_eq_self d s.held
        refine ⟨by rwa [hsame], ?_⟩
        rw [hkept', ← hkept, hwritten, hsame, hbuffer, List.append_nil]
  | appends gone rest r hsplit hid hbuffer hheld hwritten hpushed hdropped _ =>
      have hknown := h.gone hsplit
      have hnew : r.id ∉ s.dropped ++ gone.map ConsoleRecord.id :=
        fun hmem => Nat.lt_irrefl _ (hid ▸ hknown _ hmem)
      refine ⟨by rw [hpushed]; exact numbered_push h.numbered hid, fun i hi => ?_, c,
        by rwa [hheld], ?_⟩
      · rw [hdropped] at hi
        rw [hpushed, List.length_append]
        exact (hknown i hi).trans (Nat.lt_succ_self _)
      · rw [← hsplit, ← List.append_assoc, ← List.append_assoc, List.append_assoc] at hkept
        rw [kept, hpushed, hdropped, List.filter_append, kept_of_gone hkept h.numbered,
          List.filter_singleton, decide_eq_true hnew, hwritten, hheld, hbuffer]
        simp only [List.append_assoc, cond_true]
  | drops gone rest r hsplit hid hbuffer hheld hwritten hpushed hdropped _ =>
      have hknown := h.gone hsplit
      have hgone : r.id ∈ s.dropped ++ gone.map ConsoleRecord.id ++ [r.id] :=
        List.mem_append_right _ (List.mem_singleton_self _)
      refine ⟨by rw [hpushed]; exact numbered_push h.numbered hid, fun i hi => ?_, c,
        by rwa [hheld], ?_⟩
      · rw [hdropped, List.mem_append, List.mem_singleton] at hi
        rw [hpushed, List.length_append]
        rcases hi with hold | rfl
        · exact (hknown i hold).trans (Nat.lt_succ_self _)
        · rw [hid]
          exact Nat.lt_succ_self _
      · rw [← hsplit, ← List.append_assoc, ← List.append_assoc, List.append_assoc] at hkept
        have hold : (s.pushed.filter fun q =>
            q.id ∉ s.dropped ++ gone.map ConsoleRecord.id ++ [r.id]) =
              s.written ++ s.held c ++ rest := by
          rw [← kept_of_gone hkept h.numbered]
          refine List.filter_congr fun q hq => ?_
          have hne : q.id ≠ r.id := (hid ▸ id_lt_of_mem hq h.numbered).ne
          rw [decide_eq_decide, List.mem_append, List.mem_singleton, or_iff_left hne]
        rw [kept, hpushed, hdropped, List.filter_append, hold, List.filter_singleton,
          decide_eq_false (not_not_intro hgone), hwritten, hheld, hbuffer]
        simp [List.append_assoc]

theorem reached_ordered (hrun : Run step TakesInTurn initial s) : s.Ordered :=
  hrun.invariant (fun _ _ _ hi hok hstep => hi.transfer hok (step_transfer hstep))
    initial_ordered

/-- An output has received, in the order of the pushes and each once, the first
of its records that are kept, and all of them when none is on its way. -/
structure PrintedInOrder (s : ConsoleSystem τ) (target : ConsoleTarget) : Prop where
  numbered : s.pushed.map ConsoleRecord.id = List.range s.pushed.length
  inOrder : (s.written.filter (·.target = target)) <+: s.kept.filter (·.target = target)
  complete : s.buffer = [] → (∀ c, s.held c = []) →
    s.written.filter (·.target = target) = s.kept.filter (·.target = target)

theorem printed_in_order (target : ConsoleTarget)
    (hrun : Run step TakesInTurn initial s) : s.PrintedInOrder target := by
  have hinv := reached_ordered hrun
  obtain ⟨c, -, hkept⟩ := hinv.inTurn
  refine ⟨hinv.numbered, ?_, fun hbuffer hheld => ?_⟩
  · rw [← hkept, List.filter_append]
    exact List.prefix_append _ _
  · rw [← hkept, hbuffer, hheld c, List.append_nil, List.append_nil]

end Steps

instance (s : ConsoleSystem τ) (a : ConsoleStep τ) : Decidable (s.Takes a) := by
  unfold Takes
  split
  · infer_instance
  · split <;> infer_instance
  · infer_instance

instance [Fintype τ] (s : ConsoleSystem τ) (a : ConsoleStep τ) :
    Decidable (s.TakesInTurn a) := by
  unfold TakesInTurn
  infer_instance

/-- The worker prints a record while another one is pushed. -/
def pushTwice : List (ConsoleStep Bool) :=
  pushToSleeping ++ [.step false, .worker, .worker, .worker, .call false (plainPush [0x62]),
    .step false, .worker]

theorem printed_in_order_twice :
    ∃ s : ConsoleSystem Bool, Run step TakesInTurn initial s ∧ s.written ≠ [] ∧
      s.buffer ≠ [] ∧ s.PrintedInOrder .stdout := by
  obtain ⟨s, hrun, hcheck⟩ := exists_run_of_exec step TakesInTurn
    (initial : ConsoleSystem Bool) pushTwice (fun s => s.written ≠ [] && s.buffer ≠ [])
    (by decide +kernel)
  rw [Bool.and_eq_true, decide_eq_true_eq, decide_eq_true_eq] at hcheck
  exact ⟨s, hrun, hcheck.1, hcheck.2, printed_in_order .stdout hrun⟩

/-- A thread calls `Flush` and finds the first record in the buffer; the worker
takes it, another record is pushed, and the thread takes and writes that one. -/
def flushWhilePrinting : List (ConsoleStep Bool) :=
  pushToSleeping ++ [.step false, .call true .flush, .step true, .worker, .worker,
    .call false (plainPush [0x62]), .step false] ++ List.replicate 3 (.step true)

/-- The second record is printed before the first. -/
theorem second_record_first :
    ∃ s : ConsoleSystem Bool, Reachable step initial s ∧ ¬ s.PrintedInOrder .stdout := by
  obtain ⟨s, hreachable, hcheck⟩ := exists_reachable_of_exec step
    (initial : ConsoleSystem Bool) flushWhilePrinting
    (fun s => !decide ((s.written.filter (·.target = .stdout)) <+:
      s.kept.filter (·.target = .stdout))) (by decide +kernel)
  rw [Bool.not_eq_true', decide_eq_false_iff_not] at hcheck
  exact ⟨s, hreachable, fun h => hcheck h.inOrder⟩

/-! ## Flush -/

/-- Unless the manager stops, `Processing` is cleared only when no consumer holds
records. -/
def KeepsProcessing (s : ConsoleSystem τ) (a : ConsoleStep τ) : Prop :=
  s.stopRequested = false → s.Clears a → ∀ c, s.held c = []

section Steps

variable {s s' : ConsoleSystem τ} {t : τ} {a : ConsoleStep τ}

/-- The number of records that a call of `Flush` has to see to. -/
def awaited : ConsolePc → Nat
  | .flush mark | .idleWait mark | .flushed mark => mark
  | .drain (.flush mark) | .printing _ (.flush mark) => mark
  | _ => 0

/-- A record is no longer on its way. -/
def Settled (s : ConsoleSystem τ) (r : ConsoleRecord) : Prop :=
  r.id ∈ s.dropped ∨ r ∈ s.written

/-- The thread goes on at `next`; it returns from `Flush` only after a look at
the state. -/
structure Moves (s : ConsoleSystem τ) (t : τ) (s' : ConsoleSystem τ) (next : ConsolePc) :
    Prop where
  pc : s'.pc = Function.update s.pc t next
  awaited : awaited (s.pc t) ≤ s.pushed.length → awaited next ≤ s'.pushed.length
  flushed : ∀ n, next = .flushed n → s.pc t = .flush n ∧ s.processing = false ∧ s.buffer = []
  stopRequested : s'.stopRequested = false → s.stopRequested = false

theorem moves_pushed {call : PushCall} (hpushed : Pushed s t call s') :
    ∃ next, Moves s t s' next := by
  cases hpushed with
  | appended gone rest hbuffer =>
      refine ⟨_, rfl, fun _ => ?_, fun n hn => ?_, id⟩
      · simp only [append, setPc, List.length_append, List.length_singleton]
        split
        next => exact Nat.zero_le _
        next => cases call.flush <;> simp [afterPush, awaited]
      · exfalso
        split at hn
        next => contradiction
        next => cases hflush : call.flush <;> simp [hflush, afterPush] at hn
  | droppedNew gone rest hbuffer =>
      refine ⟨_, rfl, fun _ => ?_, fun n hn => ?_, id⟩
      · simp only [dropNew, setPc, List.length_append, List.length_singleton]
        cases call.flush <;> simp [afterPush, awaited]
      · cases hflush : call.flush <;> simp [hflush, afterPush] at hn
  | blocked => exact ⟨_, rfl, fun _ => Nat.zero_le _, fun n hn => by contradiction, id⟩
  | drains => exact ⟨_, rfl, fun _ => Nat.zero_le _, fun n hn => by contradiction, id⟩

theorem stepThread_moves (hstep : s.stepThread t = some s') :
    ∃ next, Moves s t s' next := by
  unfold stepThread at hstep
  split at hstep
  next => contradiction
  next => contradiction
  next call hpc =>
    cases hstep
    exact moves_pushed (s.pushRecord_pushed t call)
  next call hpc =>
    cases hstep
    exact moves_pushed (s.block_pushed t call)
  next flush hpc =>
    cases hstep
    refine ⟨_, rfl, fun _ => ?_, fun n hn => ?_, id⟩
    · cases flush <;> simp [afterPush, awaited, setPc]
    · cases flush <;> contradiction
  next n hpc =>
    cases hstep
    have hn : awaited (s.pc t) = n := by rw [hpc]; rfl
    unfold flushRound
    split
    next =>
      split
      next => exact ⟨_, rfl, fun h => hn ▸ h, fun n hn => by contradiction, id⟩
      next => exact ⟨_, rfl, fun h => hn ▸ h, fun n hn => by contradiction, id⟩
    next hprocessing =>
      split
      next => exact ⟨_, rfl, fun h => hn ▸ h, fun n hn => by contradiction, id⟩
      next hbuffer =>
        refine ⟨_, rfl, fun h => hn ▸ h, fun k hk => ?_, id⟩
        cases hk
        exact ⟨hpc, Bool.eq_false_iff.mpr hprocessing, not_not.mp hbuffer⟩
  next n hpc =>
    cases hstep
    exact ⟨_, rfl, fun h => by rwa [hpc] at h, fun n hn => by contradiction, id⟩
  next caller hpc =>
    split at hstep
    next =>
      cases hstep
      refine ⟨_, rfl, fun h => ?_, fun n hn => ?_, id⟩
      · rw [hpc] at h
        cases caller <;> exact h
      · cases caller <;> contradiction
    next =>
      cases hstep
      refine ⟨_, rfl, fun h => ?_, fun n hn => by contradiction, id⟩
      rw [hpc] at h
      cases caller <;> exact h
  next caller hpc =>
    cases hstep
    refine ⟨_, rfl, fun h => ?_, fun n hn => by contradiction, id⟩
    rw [hpc] at h
    cases caller <;> exact h
  next state caller _ hpc =>
    obtain ⟨⟨printed, state'⟩, hprint, rfl⟩ := Option.map_eq_some_iff.mp hstep
    obtain ⟨lock, write, rfl, -⟩ := printStep_spec hprint
    refine ⟨_, rfl, fun h => ?_, fun n hn => by contradiction, id⟩
    rw [hpc] at h
    cases caller <;> exact h
  next hpc =>
    cases hstep
    split
    next => exact ⟨_, rfl, fun _ => Nat.zero_le _, fun n hn => by contradiction, id⟩
    next => exact ⟨_, rfl, fun _ => Nat.zero_le _, fun n hn => by contradiction, id⟩
  next hpc =>
    cases hstep
    exact ⟨_, rfl, fun _ => Nat.zero_le _, fun n hn => by contradiction,
      fun hstop => by contradiction⟩
  next hpc =>
    cases hstep
    exact ⟨_, rfl, fun _ => Nat.zero_le _, fun n hn => by contradiction, id⟩
  next hpc =>
    cases hstep
    exact ⟨_, rfl, fun _ => Nat.zero_le _, fun n hn => by contradiction, id⟩

omit [DecidableEq τ] in
theorem stepWorker_pc (hstep : s.stepWorker = some s') :
    s'.pc = s.pc ∧ s'.stopRequested = s.stopRequested := by
  unfold stepWorker at hstep
  split at hstep
  next => contradiction
  next => contradiction
  next =>
    split at hstep <;> cases hstep <;> exact ⟨rfl, rfl⟩
  next => cases hstep; exact ⟨rfl, rfl⟩
  next => cases hstep; exact ⟨rfl, rfl⟩
  next =>
    obtain ⟨⟨printed, state'⟩, hprint, rfl⟩ := Option.map_eq_some_iff.mp hstep
    obtain ⟨lock, write, rfl, -⟩ := printStep_spec hprint
    exact ⟨rfl, rfl⟩
  next =>
    split at hstep <;> cases hstep <;> exact ⟨rfl, rfl⟩
  next => cases hstep; exact ⟨rfl, rfl⟩

omit [DecidableEq τ] in
theorem awaited_begin (s : ConsoleSystem τ) (call : ConsoleCall) :
    awaited (s.begin call) ≤ s.pushed.length := by
  cases call with
  | push call =>
      unfold begin
      dsimp only
      split <;> exact Nat.zero_le _
  | flush => exact Nat.le_refl _
  | _ => exact Nat.zero_le _

theorem Transfer.settled {r : ConsoleRecord} (htransfer : Transfer s a s')
    (h : s.Settled r) : s'.Settled r := by
  cases htransfer with
  | stays _ _ hwritten _ hdropped _ | takes _ _ _ _ _ hwritten _ hdropped _ =>
      rw [Settled, hwritten, hdropped]
      exact h
  | writes _ _ _ _ _ _ hwritten _ hdropped _ =>
      rw [Settled, hwritten, hdropped]
      exact h.imp_right (List.mem_append_left _)
  | appends _ _ _ _ _ _ _ hwritten _ hdropped _ =>
      rw [Settled, hwritten, hdropped]
      exact h.imp_left (List.mem_append_left _)
  | drops _ _ _ _ _ _ _ hwritten _ hdropped _ =>
      rw [Settled, hwritten, hdropped, List.append_assoc]
      exact h.imp_left (List.mem_append_left _)

theorem Transfer.pushed {r : ConsoleRecord} (htransfer : Transfer s a s')
    (hr : r ∈ s'.pushed) : r ∈ s.pushed ∨ r.id = s.pushed.length := by
  cases htransfer with
  | stays _ _ _ hpushed _ _ | takes _ _ _ _ _ _ hpushed _ _ | writes _ _ _ _ _ _ _ hpushed =>
      exact .inl (hpushed ▸ hr)
  | appends _ _ _ _ hid _ _ _ hpushed _ _ | drops _ _ _ _ hid _ _ _ hpushed _ _ =>
      rw [hpushed, List.mem_append, List.mem_singleton] at hr
      exact hr.imp_right fun h => by rw [h, hid]

theorem Transfer.pushed_length (htransfer : Transfer s a s') :
    s.pushed.length ≤ s'.pushed.length := by
  cases htransfer with
  | stays _ _ _ hpushed _ _ | takes _ _ _ _ _ _ hpushed _ _ | writes _ _ _ _ _ _ _ hpushed =>
      rw [hpushed]
  | appends _ _ _ _ _ _ _ _ hpushed _ _ | drops _ _ _ _ _ _ _ _ hpushed _ _ =>
      rw [hpushed, List.length_append]
      exact Nat.le_add_right _ _

structure Barrier (s : ConsoleSystem τ) : Prop where
  awaited : ∀ t, awaited (s.pc t) ≤ s.pushed.length
  accounted : ∀ r ∈ s.pushed, s.Settled r ∨ r ∈ s.buffer ∨ ∃ c, r ∈ s.held c
  processing : s.stopRequested = false → ∀ c, s.held c ≠ [] → s.processing = true
  flushed : s.stopRequested = false → ∀ t n, s.pc t = .flushed n →
    ∀ r ∈ s.pushed, r.id < n → s.Settled r

omit [DecidableEq τ] in
theorem initial_barrier : (initial : ConsoleSystem τ).Barrier where
  awaited := fun _ => Nat.le_refl _
  accounted := by simp [initial]
  processing := fun _ c hc => absurd (by cases c <;> rfl) hc
  flushed := fun _ _ _ h => by contradiction

/-- A record that was pushed stays somewhere. -/
theorem Transfer.accounted (htransfer : Transfer s a s')
    (h : ∀ r ∈ s.pushed, s.Settled r ∨ r ∈ s.buffer ∨ ∃ c, r ∈ s.held c) :
    ∀ r ∈ s'.pushed, s'.Settled r ∨ r ∈ s'.buffer ∨ ∃ c, r ∈ s'.held c := by
  intro r hr
  have hsettled := htransfer.settled (r := r)
  cases htransfer with
  | stays hbuffer hheld hwritten hpushed hdropped _ =>
      rw [hbuffer, hheld]
      exact (h r (hpushed ▸ hr)).imp_left hsettled
  | takes c htakes hempty hbuffer hheld hwritten hpushed hdropped _ =>
      rcases h r (hpushed ▸ hr) with hr | hr | ⟨d, hr⟩
      · exact .inl (hsettled hr)
      · refine .inr (.inr ⟨c, ?_⟩)
        rwa [hheld, Function.update_self]
      · refine .inr (.inr ⟨d, ?_⟩)
        have hne : d ≠ c := by
          rintro rfl
          rw [hempty] at hr
          contradiction
        rwa [hheld, Function.update_of_ne hne]
  | writes c write rest htaken hbuffer hheld hwritten hpushed hdropped _ =>
      rcases h r (hpushed ▸ hr) with hr | hr | ⟨d, hr⟩
      · exact .inl (hsettled hr)
      · exact .inr (.inl (hbuffer ▸ hr))
      · by_cases hdc : d = c
        · rw [hdc, htaken] at hr
          rcases List.mem_append.mp hr with hr | hr
          · refine .inl (.inr ?_)
            rw [hwritten]
            exact List.mem_append_right _ hr
          · refine .inr (.inr ⟨c, ?_⟩)
            rwa [hheld, Function.update_self]
        · refine .inr (.inr ⟨d, ?_⟩)
          rwa [hheld, Function.update_of_ne hdc]
  | appends gone rest q hsplit hid hbuffer hheld hwritten hpushed hdropped _ =>
      rw [hpushed, List.mem_append, List.mem_singleton] at hr
      rcases hr with hr | rfl
      · rw [hbuffer, hheld]
        rcases h r hr with hr | hr | hr
        · exact .inl (hsettled hr)
        · rw [← hsplit, List.mem_append] at hr
          rcases hr with hr | hr
          · refine .inl (.inl ?_)
            rw [hdropped]
            exact List.mem_append_right _ (List.mem_map_of_mem hr)
          · exact .inr (.inl (List.mem_append_left _ hr))
        · exact .inr (.inr hr)
      · rw [hbuffer]
        exact .inr (.inl (List.mem_append_right _ (List.mem_singleton_self r)))
  | drops gone rest q hsplit hid hbuffer hheld hwritten hpushed hdropped _ =>
      rw [hpushed, List.mem_append, List.mem_singleton] at hr
      rcases hr with hr | rfl
      · rw [hbuffer, hheld]
        rcases h r hr with hr | hr | hr
        · exact .inl (hsettled hr)
        · rw [← hsplit, List.mem_append] at hr
          rcases hr with hr | hr
          · refine .inl (.inl ?_)
            rw [hdropped]
            exact List.mem_append_left _ (List.mem_append_right _ (List.mem_map_of_mem hr))
          · exact .inr (.inl hr)
        · exact .inr (.inr hr)
      · refine .inl (.inl ?_)
        rw [hdropped]
        exact List.mem_append_right _ (List.mem_singleton_self r.id)

/-- Whoever holds records finds `Processing` set. -/
theorem Transfer.processing (htransfer : Transfer s a s')
    (hclear : s.Clears a → ∀ c, s.held c = [])
    (h : ∀ c, s.held c ≠ [] → s.processing = true) :
    ∀ c, s'.held c ≠ [] → s'.processing = true := by
  intro c hc
  cases htransfer with
  | stays _ hheld _ _ _ hprocessing =>
      rw [hheld] at hc
      rcases hprocessing with hsame | hclears
      · exact hsame.trans (h c hc)
      · exact absurd (hclear hclears c) hc
  | takes _ _ _ _ _ _ _ _ hprocessing => exact hprocessing
  | writes d write rest htaken _ hheld _ _ _ hprocessing =>
      refine hprocessing.trans (h c fun hempty => hc ?_)
      rw [hheld]
      by_cases hcd : c = d
      · rw [hcd, Function.update_self]
        rw [hcd, htaken] at hempty
        exact (List.append_eq_nil_iff.mp hempty).2
      · rwa [Function.update_of_ne hcd]
  | appends _ _ _ _ _ _ hheld _ _ _ hprocessing | drops _ _ _ _ _ _ hheld _ _ _ hprocessing =>
      exact hprocessing.trans (h c (hheld ▸ hc))

/-- The calls of `Flush` are within the pushes, and one returns only after it
has found no sign of a record. -/
structure ThreadsStep (s s' : ConsoleSystem τ) : Prop where
  awaited : ∀ t, awaited (s'.pc t) ≤ s'.pushed.length
  flushed : ∀ t n, s'.pc t = .flushed n → n ≤ s.pushed.length ∧
    (s.pc t = .flushed n ∨ s.processing = false ∧ s.buffer = [])
  stopRequested : s'.stopRequested = false → s.stopRequested = false

omit [DecidableEq τ] in
theorem Barrier.unmoved (h : s.Barrier) (hpc : s'.pc = s.pc)
    (hlength : s.pushed.length ≤ s'.pushed.length)
    (hstop : s'.stopRequested = s.stopRequested) : ThreadsStep s s' where
  awaited t := by
    rw [hpc]
    exact (h.awaited t).trans hlength
  flushed t n hn := by
    rw [hpc] at hn
    have hawaited := h.awaited t
    rw [hn] at hawaited
    exact ⟨hawaited, .inl hn⟩
  stopRequested hstop' := hstop ▸ hstop'

theorem Barrier.moved (h : s.Barrier) {next : ConsolePc} (hmoves : Moves s t s' next)
    (hlength : s.pushed.length ≤ s'.pushed.length) : ThreadsStep s s' where
  awaited u := by
    rw [hmoves.pc]
    by_cases hu : u = t
    · rw [hu, Function.update_self]
      exact hmoves.awaited (h.awaited t)
    · rw [Function.update_of_ne hu]
      exact (h.awaited u).trans hlength
  flushed u n hn := by
    have hawaited := h.awaited u
    rw [hmoves.pc] at hn
    by_cases hu : u = t
    · rw [hu, Function.update_self] at hn
      obtain ⟨hpc, hlook⟩ := hmoves.flushed n hn
      rw [hu, hpc] at hawaited
      exact ⟨hawaited, .inr hlook⟩
    · rw [Function.update_of_ne hu] at hn
      rw [hn] at hawaited
      exact ⟨hawaited, .inl hn⟩
  stopRequested := hmoves.stopRequested

theorem step_threads (h : s.Barrier) (hstep : step s a = some s') : ThreadsStep s s' := by
  have hlength := (step_transfer hstep).pushed_length
  cases a with
  | settings maxRecords maxBytes policy =>
      cases hstep
      exact h.unmoved rfl hlength rfl
  | call t call =>
      simp only [step] at hstep
      split at hstep
      next =>
        cases hstep
        refine h.moved ⟨rfl, fun _ => s.awaited_begin call, fun n hn => ?_, id⟩ hlength
        cases call with
        | push call =>
            unfold begin at hn
            dsimp only at hn
            split at hn <;> contradiction
        | _ => contradiction
      next => contradiction
  | step t =>
      obtain ⟨next, hmoves⟩ := stepThread_moves hstep
      exact h.moved hmoves hlength
  | worker =>
      obtain ⟨hpc, hstop⟩ := stepWorker_pc hstep
      exact h.unmoved hpc hlength hstop

theorem step_barrier (h : s.Barrier) (hok : KeepsProcessing s a)
    (hstep : step s a = some s') : s'.Barrier := by
  have htransfer := step_transfer hstep
  have hthreads := step_threads h hstep
  refine ⟨hthreads.awaited, htransfer.accounted h.accounted, fun hstop => ?_,
    fun hstop t n hn r hr hid => ?_⟩
  · have hstop' := hthreads.stopRequested hstop
    exact htransfer.processing (hok hstop') (h.processing hstop')
  · have hstop' := hthreads.stopRequested hstop
    obtain ⟨hlength, hflushed⟩ := hthreads.flushed t n hn
    have hr' : r ∈ s.pushed := (htransfer.pushed hr).resolve_right fun hnew =>
      absurd hid (by rw [hnew]; exact Nat.not_lt.mpr hlength)
    refine htransfer.settled ?_
    rcases hflushed with hflushed | ⟨hprocessing, hbuffer⟩
    · exact h.flushed hstop' t n hflushed r hr' hid
    · -- nothing is in the buffer, and nobody holds a record
      rcases h.accounted r hr' with hsettled | hmem | ⟨c, hmem⟩
      · exact hsettled
      · rw [hbuffer] at hmem
        contradiction
      · have htrue := h.processing hstop' c (List.ne_nil_of_mem hmem)
        rw [hprocessing] at htrue
        contradiction

/-- When a call of `Flush` has returned and the manager is not stopping, the
records that had been pushed before it are written or dropped. -/
theorem flush_barrier {n : Nat} (hrun : Run step KeepsProcessing initial s)
    (hstop : s.stopRequested = false) (hflushed : s.pc t = .flushed n) :
    ∀ r ∈ s.pushed, r.id < n → r.id ∈ s.dropped ∨ r ∈ s.written := by
  have hinv : s.Barrier := hrun.invariant
    (fun _ _ _ hi hok hstep => step_barrier hi hok hstep) initial_barrier
  exact hinv.flushed hstop t n hflushed

end Steps

instance (s : ConsoleSystem τ) (a : ConsoleStep τ) : Decidable (s.Clears a) := by
  unfold Clears
  split
  · split <;> infer_instance
  · split <;> infer_instance
  · infer_instance

instance [Fintype τ] (s : ConsoleSystem τ) (a : ConsoleStep τ) :
    Decidable (s.KeepsProcessing a) := by
  unfold KeepsProcessing
  infer_instance

/-- A record is pushed and `Flush` is called; there is no worker. -/
def pushThenFlush : List (ConsoleStep Bool) :=
  [.call false (plainPush [0x61]), .step false, .step false, .call true .flush] ++
    List.replicate 8 (.step true)

theorem flush_barrier_pushed :
    ∃ s : ConsoleSystem Bool, Run step KeepsProcessing initial s ∧ s.pushed ≠ [] ∧
      s.stopRequested = false ∧ s.pc true = .flushed 1 ∧
      ∀ r ∈ s.pushed, r.id < 1 → r.id ∈ s.dropped ∨ r ∈ s.written := by
  obtain ⟨s, hrun, hcheck⟩ := exists_run_of_exec step KeepsProcessing
    (initial : ConsoleSystem Bool) pushThenFlush
    (fun s => s.pushed ≠ [] && !s.stopRequested && s.pc true = .flushed 1)
    (by decide +kernel)
  simp only [Bool.and_eq_true, Bool.not_eq_true', decide_eq_true_eq] at hcheck
  obtain ⟨⟨hpushed, hstop⟩, hflushed⟩ := hcheck
  exact ⟨s, hrun, hpushed, hstop, hflushed, flush_barrier hrun hstop hflushed⟩

/-- The thread that has written the second record clears `Processing`, finds
nothing in the buffer, and its `Flush` returns before the first is written. -/
theorem flush_returns_early :
    ∃ s : ConsoleSystem Bool, Reachable step initial s ∧ s.stopRequested = false ∧
      s.pc true = .flushed 1 ∧
      ¬ ∀ r ∈ s.pushed, r.id < 1 → r.id ∈ s.dropped ∨ r ∈ s.written := by
  obtain ⟨s, hreachable, hcheck⟩ := exists_reachable_of_exec step
    (initial : ConsoleSystem Bool) (flushWhilePrinting ++ List.replicate 4 (.step true))
    (fun s => !s.stopRequested && s.pc true = .flushed 1 &&
      !decide (∀ r ∈ s.pushed, r.id < 1 → r.id ∈ s.dropped ∨ r ∈ s.written))
    (by decide +kernel)
  simp only [Bool.and_eq_true, Bool.not_eq_true', decide_eq_true_eq,
    decide_eq_false_iff_not] at hcheck
  obtain ⟨⟨hstop, hflushed⟩, hnot⟩ := hcheck
  exact ⟨s, hreachable, hstop, hflushed, hnot⟩

end ConsoleSystem
end Logme
