import Logme.Library.StepSystem
import Logme.Library.Threads

/-!
# Starting and stopping the statistics

A thread that records enters the section of the collector, checks once more
that the collector is active, and leaves.  `Start`, `Stop` and `Reset` take the
active pointer away and wait until nobody is in the section.  The system below
interleaves the atomic steps of any number of threads.  There is one collector,
allocated at the first start, so the active pointer is a flag.
-/

namespace Logme

open StepSystem Threads

inductive StatisticsCall where
  | start
  | stop
  | reset
  deriving DecidableEq

/-- The atomic operation that a thread performs next; `waited` tells whether
`WaitForIdle` has returned in the call. -/
inductive StatisticsPc where
  | idle
  | enter
  | recheck
  | record
  | leave
  | lock (call : StatisticsCall)
  | exchange (call : StatisticsCall)
  | awaitIdle (call : StatisticsCall)
  | apply (call : StatisticsCall) (waited : Bool)
  | storeStart (waited : Bool)
  | storeReset
  | unlock (call : StatisticsCall) (waited : Bool)
  deriving DecidableEq

structure StatisticsSystem (τ : Type) where
  active : Bool
  inFlight : Nat
  controlLock : Option τ
  pc : τ → StatisticsPc

inductive StatisticsStep (τ : Type) where
  | output (t : τ)
  | call (t : τ) (call : StatisticsCall)
  | step (t : τ)

namespace StatisticsPc

/-- The thread is counted in `InFlight`. -/
def inSection : StatisticsPc → Bool
  | recheck | record | leave => true
  | _ => false

def inLock : StatisticsPc → Bool
  | exchange _ | awaitIdle _ | apply .. | storeStart _ | storeReset
  | unlock .. => true
  | _ => false

/-- The call has taken the active pointer away. -/
def deactivated : StatisticsPc → Bool
  | awaitIdle _ | apply .. | storeStart _ | storeReset | unlock .stop _ => true
  | _ => false

/-- The call has waited, and may touch the tables. -/
def exclusive : StatisticsPc → Bool
  | apply .. | storeStart _ | storeReset | unlock .stop _ => true
  | _ => false

/-- A call that was made while the collector was active. -/
def resuming : StatisticsPc → Bool
  | awaitIdle _ | apply .reset true | storeReset => true
  | _ => false

theorem deactivated_of_exclusive {p : StatisticsPc} (h : p.exclusive = true) :
    p.deactivated = true := by
  cases p with
  | unlock call waited => cases call <;> first | rfl | contradiction
  | _ => first | rfl | contradiction

theorem inLock_of_deactivated {p : StatisticsPc} (h : p.deactivated = true) :
    p.inLock = true := by
  cases p <;> first | rfl | contradiction

/-- `WaitForIdle` has returned in `Stop` or `Reset`, which is not over. -/
def afterWait : StatisticsPc → Bool
  | apply .stop true | apply .reset true | storeReset
  | unlock .stop true | unlock .reset true => true
  | _ => false

end StatisticsPc

namespace StatisticsSystem

variable {τ : Type} [DecidableEq τ]

def initial : StatisticsSystem τ where
  active := false
  inFlight := 0
  controlLock := none
  pc := fun _ => .idle

def setPc (s : StatisticsSystem τ) (t : τ) (pc : StatisticsPc) :
    StatisticsSystem τ :=
  { s with pc := Function.update s.pc t pc }

/-- What follows the exchange when the pointer was null. -/
def withoutWait : StatisticsCall → StatisticsPc
  | .stop => .unlock .stop false
  | call => .apply call false

/-- `Start`, `Stop` and `Reset` of the collector. -/
def applyCall (s : StatisticsSystem τ) (t : τ) (waited : Bool) :
    StatisticsCall → StatisticsSystem τ
  | .start => s.setPc t (.storeStart waited)
  | .stop => s.setPc t (.unlock .stop waited)
  | .reset =>
      if waited then s.setPc t .storeReset else s.setPc t (.unlock .reset false)

def storeActive (s : StatisticsSystem τ) (t : τ) (call : StatisticsCall)
    (waited : Bool) : StatisticsSystem τ :=
  ({ s with active := true }).setPc t (.unlock call waited)

def stepThread (s : StatisticsSystem τ) (t : τ) : Option (StatisticsSystem τ) :=
  match s.pc t with
  | .idle => none
  | .enter => some (({ s with inFlight := s.inFlight + 1 }).setPc t .recheck)
  | .recheck =>
      if s.active then some (s.setPc t .record) else some (s.setPc t .leave)
  | .record => some (s.setPc t .leave)
  | .leave => some (({ s with inFlight := s.inFlight - 1 }).setPc t .idle)
  | .lock call =>
      match s.controlLock with
      | none =>
          some (({ s with controlLock := some t }).setPc t (.exchange call))
      | some _ => none
  | .exchange call =>
      some (({ s with active := false }).setPc t
        (if s.active then .awaitIdle call else withoutWait call))
  | .awaitIdle call =>
      if s.inFlight ≠ 0 then none else some (s.setPc t (.apply call true))
  | .apply call waited => some (s.applyCall t waited call)
  | .storeStart waited => some (s.storeActive t .start waited)
  | .storeReset => some (s.storeActive t .reset true)
  | .unlock _ _ => some (({ s with controlLock := none }).setPc t .idle)

/-- A thread with something to record loads the active pointer first. -/
def step (s : StatisticsSystem τ) : StatisticsStep τ → Option (StatisticsSystem τ)
  | .output t =>
      if s.pc t = .idle then
        some (if s.active then s.setPc t .enter else s)
      else none
  | .call t call =>
      if s.pc t = .idle then some (s.setPc t (.lock call)) else none
  | .step t => s.stepThread t

/-! ## The invariant -/

/-- Nobody records while the pointer is taken away, except for those that the
call still waits for. -/
def Quiet (active : Bool) (pc : τ → StatisticsPc) : Prop :=
  active = false → (∀ t call, pc t ≠ .awaitIdle call) → ∀ u, pc u ≠ .record

structure Inv (s : StatisticsSystem τ) : Prop where
  counted : Counted s.inFlight StatisticsPc.inSection s.pc
  locked : Locked s.controlLock StatisticsPc.inLock s.pc
  deactivated : ∀ t, (s.pc t).deactivated = true → s.active = false
  quiet : Quiet s.active s.pc

omit [DecidableEq τ] in
theorem initial_inv : (initial : StatisticsSystem τ).Inv where
  counted := counted_zero fun _ => rfl
  locked := locked_none fun _ => rfl
  deactivated := by simp [initial, StatisticsPc.deactivated]
  quiet := by simp [initial, Quiet]

/-! ## Steps -/

section Steps

variable {s s' : StatisticsSystem τ} {t : τ} {next : StatisticsPc}

theorem Quiet.keep {active : Bool} {pc : τ → StatisticsPc} (h : Quiet active pc)
    (hbefore : ∀ call, pc t ≠ .awaitIdle call) (hafter : next ≠ .record) :
    Quiet active (Function.update pc t next) := by
  intro hactive hnobody
  refine forall_update (P := fun _ (p : StatisticsPc) => p ≠ .record) hafter fun u _ => ?_
  refine h hactive (fun v call hv => ?_) u
  by_cases hvt : v = t
  · subst hvt
    exact hbefore call hv
  · have hsame := hnobody v call
    rw [Function.update_of_ne hvt] at hsame
    exact hsame hv

/-- A thread moves on outside the lock, without an effect on the flags. -/
theorem Inv.move (h : s.Inv) {inFlight : Nat}
    (hcounted : Counted inFlight StatisticsPc.inSection (Function.update s.pc t next))
    (hbefore : (s.pc t).inLock = false) (hlock : next.inLock = false)
    (hdeactivated : next.deactivated = false) (hrecord : next ≠ .record) :
    Inv { (s.setPc t next) with inFlight := inFlight } where
  counted := hcounted
  locked := h.locked.keep (hlock.trans hbefore.symm)
  deactivated := by
    refine forall_update
      (P := fun _ (p : StatisticsPc) => p.deactivated = true → s.active = false) ?_ ?_
    · intro hd
      rw [hdeactivated] at hd
      contradiction
    · exact fun u _ => h.deactivated u
  quiet := by
    refine h.quiet.keep (fun call hcall => ?_) hrecord
    rw [hcall] at hbefore
    contradiction

/-- The owner of the lock goes on with the pointer taken away. -/
theorem Inv.hold (h : s.Inv) (hbefore : (s.pc t).inLock = true)
    (hlock : next.inLock = true) (hsection : next.inSection = false)
    (hquiet : Quiet false (Function.update s.pc t next)) :
    Inv { (s.setPc t next) with active := false } where
  counted := by
    refine h.counted.keep ?_
    rw [hsection]
    cases hpc : s.pc t <;> simp_all [StatisticsPc.inLock, StatisticsPc.inSection]
  locked := h.locked.keep (hlock.trans hbefore.symm)
  deactivated _ _ := rfl
  quiet := hquiet

theorem counted_outside {n : Nat} (h : Counted n StatisticsPc.inSection s.pc)
    (hbefore : (s.pc t).inSection = false) (hafter : next.inSection = false) :
    Counted n StatisticsPc.inSection (Function.update s.pc t next) :=
  h.keep (hafter.trans hbefore.symm)

theorem step_output_inv (h : s.Inv) (hstep : step s (.output t) = some s') :
    s'.Inv := by
  simp only [step] at hstep
  split at hstep
  next hidle =>
    cases hstep
    split
    next =>
      refine h.move (h.counted.keep ?_) ?_ rfl rfl (by simp)
      · rw [hidle]
        rfl
      · rw [hidle]
        rfl
    next => exact h
  next => contradiction

theorem step_call_inv {call : StatisticsCall} (h : s.Inv)
    (hstep : step s (.call t call) = some s') : s'.Inv := by
  simp only [step] at hstep
  split at hstep
  next hidle =>
    cases hstep
    refine h.move (h.counted.keep ?_) ?_ rfl rfl (by simp)
    · rw [hidle]
      rfl
    · rw [hidle]
      rfl
  next => contradiction

theorem recheck_inv (h : s.Inv) (hpc : s.pc t = .recheck) :
    Inv (if s.active then s.setPc t .record else s.setPc t .leave) := by
  have hcounted : ∀ {next : StatisticsPc}, next.inSection = true →
      Counted s.inFlight StatisticsPc.inSection (Function.update s.pc t next) := by
    intro next hnext
    refine h.counted.keep ?_
    rw [hpc, hnext]
    rfl
  split
  next hactive =>
    refine ⟨hcounted rfl, ?_, ?_, ?_⟩
    · refine h.locked.keep ?_
      rw [hpc]
      rfl
    · refine forall_update
        (P := fun _ (p : StatisticsPc) => p.deactivated = true → s.active = false) ?_ ?_
      · exact fun hd => absurd hd (by decide)
      · exact fun u _ => h.deactivated u
    · intro hinactive
      rw [show (s.setPc t .record).active = s.active from rfl, hactive] at hinactive
      contradiction
  next =>
    refine h.move (hcounted rfl) ?_ rfl rfl (by simp)
    rw [hpc]
    rfl

/-- Nobody is in the section any more, so nobody records. -/
theorem awaitIdle_inv {call : StatisticsCall} (h : s.Inv)
    (hpc : s.pc t = .awaitIdle call) (hidle : s.inFlight = 0) :
    (s.setPc t (.apply call true)).Inv := by
  have hactive : s.active = false := h.deactivated t (by rw [hpc]; rfl)
  have hnobody : ∀ u, s.pc u ≠ .record := by
    intro u hu
    have hout := (hidle ▸ h.counted).nobody u
    rw [hu] at hout
    contradiction
  have hquiet : Quiet false (Function.update s.pc t (.apply call true)) :=
    fun _ _ => forall_update (P := fun _ (p : StatisticsPc) => p ≠ .record) (by simp)
      fun u _ => hnobody u
  have hheld := h.hold (by rw [hpc]; rfl) rfl rfl hquiet
  rw [← hactive] at hheld
  exact hheld

theorem exchange_inv {call : StatisticsCall} (h : s.Inv)
    (hpc : s.pc t = .exchange call) :
    Inv (({ s with active := false }).setPc t
      (if s.active then .awaitIdle call else withoutWait call)) := by
  split
  next =>
    -- whoever still records is waited for
    refine h.hold (by rw [hpc]; rfl) rfl rfl fun _ hnobody => ?_
    exact absurd (Function.update_self ..) (hnobody t call)
  next hinactive =>
    have hactive : s.active = false := by simpa using hinactive
    refine h.hold (by rw [hpc]; rfl) ?_ ?_ ?_
    · cases call <;> rfl
    · cases call <;> rfl
    · have hquiet := h.quiet
      rw [hactive] at hquiet
      refine hquiet.keep (fun other hother => ?_) ?_
      · rw [hpc] at hother
        contradiction
      · cases call <;> simp [withoutWait]

theorem apply_inv {call : StatisticsCall} {waited : Bool} (h : s.Inv)
    (hpc : s.pc t = .apply call waited) : (s.applyCall t waited call).Inv := by
  have hactive : s.active = false := h.deactivated t (by rw [hpc]; rfl)
  have hheld : ∀ {next : StatisticsPc}, next.inLock = true →
      next.inSection = false → next ≠ .record → (s.setPc t next).Inv := by
    intro next hlock hsection hrecord
    have hquiet := h.quiet
    rw [hactive] at hquiet
    have hquiet' : Quiet false (Function.update s.pc t next) :=
      hquiet.keep (fun other hother => by rw [hpc] at hother; contradiction) hrecord
    have hinv := h.hold (by rw [hpc]; rfl) hlock hsection hquiet'
    rw [← hactive] at hinv
    exact hinv
  cases call with
  | start => exact hheld rfl rfl (by simp)
  | stop => exact hheld rfl rfl (by simp)
  | reset =>
      unfold applyCall
      dsimp only
      split
      next => exact hheld rfl rfl (by simp)
      next => exact hheld rfl rfl (by simp)

theorem storeActive_inv {call : StatisticsCall} {waited : Bool} (h : s.Inv)
    (hpc : s.pc t = .storeStart waited ∨ s.pc t = .storeReset) (hcall : call ≠ .stop) :
    (s.storeActive t call waited).Inv := by
  have hlock : (s.pc t).inLock = true := by
    rcases hpc with hpc | hpc <;> rw [hpc] <;> rfl
  have hsection : (s.pc t).inSection = false := by
    rcases hpc with hpc | hpc <;> rw [hpc] <;> rfl
  refine ⟨counted_outside h.counted hsection rfl, h.locked.keep ?_, ?_, ?_⟩
  · rw [hlock]
    rfl
  · refine forall_update
      (P := fun _ (p : StatisticsPc) => p.deactivated = true → true = false) ?_ ?_
    · cases call with
      | stop => contradiction
      | start => exact fun hd => absurd hd (by simp [StatisticsPc.deactivated])
      | reset => exact fun hd => absurd hd (by simp [StatisticsPc.deactivated])
    · -- the others are outside the lock
      intro u hu hd
      have hout := h.locked.outside hlock hu
      rw [StatisticsPc.inLock_of_deactivated hd] at hout
      contradiction
  · intro hactive
    rw [show (s.storeActive t call waited).active = true from rfl] at hactive
    contradiction

theorem lock_inv {call : StatisticsCall} (h : s.Inv) (hpc : s.pc t = .lock call)
    (hfree : s.controlLock = none) :
    Inv (({ s with controlLock := some t }).setPc t (.exchange call)) where
  counted := counted_outside h.counted (by rw [hpc]; rfl) rfl
  locked := (hfree ▸ h.locked).acquire rfl
  deactivated := by
    refine forall_update
      (P := fun _ (p : StatisticsPc) => p.deactivated = true → s.active = false) ?_ ?_
    · exact fun hd => absurd hd (by simp [StatisticsPc.deactivated])
    · exact fun u _ => h.deactivated u
  quiet := h.quiet.keep (fun other hother => by rw [hpc] at hother; contradiction)
    (by simp)

theorem unlock_inv {call : StatisticsCall} {waited : Bool} (h : s.Inv)
    (hpc : s.pc t = .unlock call waited) :
    Inv (({ s with controlLock := none }).setPc t .idle) where
  counted := counted_outside h.counted (by rw [hpc]; rfl) rfl
  locked := h.locked.release (by rw [hpc]; rfl) rfl
  deactivated := by
    refine forall_update
      (P := fun _ (p : StatisticsPc) => p.deactivated = true → s.active = false) ?_ ?_
    · exact fun hd => absurd hd (by decide)
    · exact fun u _ => h.deactivated u
  quiet := h.quiet.keep (fun other hother => by rw [hpc] at hother; contradiction)
    (by simp)

theorem stepThread_inv (h : s.Inv) (hstep : s.stepThread t = some s') : s'.Inv := by
  unfold stepThread at hstep
  cases hpc : s.pc t with
  | idle =>
      rw [hpc] at hstep
      contradiction
  | enter =>
      rw [hpc] at hstep
      cases hstep
      refine h.move (h.counted.enter ?_ rfl) ?_ rfl rfl (by simp) <;>
        rw [hpc] <;> rfl
  | recheck =>
      have hinv := recheck_inv h hpc
      rw [hpc] at hstep
      dsimp only at hstep
      split at hstep
      next hactive =>
        cases hstep
        rwa [if_pos hactive] at hinv
      next hactive =>
        cases hstep
        rwa [if_neg hactive] at hinv
  | record =>
      rw [hpc] at hstep
      cases hstep
      refine h.move (h.counted.keep ?_) ?_ rfl rfl (by simp) <;> rw [hpc] <;> rfl
  | leave =>
      rw [hpc] at hstep
      cases hstep
      refine h.move (h.counted.leave ?_ rfl) ?_ rfl rfl (by simp) <;>
        rw [hpc] <;> rfl
  | lock call =>
      rw [hpc] at hstep
      dsimp only at hstep
      split at hstep
      next hfree =>
        cases hstep
        exact lock_inv h hpc hfree
      next => contradiction
  | exchange call =>
      rw [hpc] at hstep
      cases hstep
      exact exchange_inv h hpc
  | awaitIdle call =>
      rw [hpc] at hstep
      dsimp only at hstep
      split at hstep
      next => contradiction
      next hidle =>
        cases hstep
        exact awaitIdle_inv h hpc (by simpa using hidle)
  | apply call waited =>
      rw [hpc] at hstep
      cases hstep
      exact apply_inv h hpc
  | storeStart waited =>
      rw [hpc] at hstep
      cases hstep
      exact storeActive_inv h (.inl hpc) (by simp)
  | storeReset =>
      rw [hpc] at hstep
      cases hstep
      exact storeActive_inv h (.inr hpc : s.pc t = .storeStart true ∨ _) (by simp)
  | unlock call waited =>
      rw [hpc] at hstep
      cases hstep
      exact unlock_inv h hpc

theorem step_inv {a : StatisticsStep τ} (h : s.Inv) (hstep : step s a = some s') :
    s'.Inv := by
  cases a with
  | output t => exact step_output_inv h hstep
  | call t call => exact step_call_inv h hstep
  | step t => exact stepThread_inv h hstep

theorem reachable_inv (h : Reachable step initial s) : s.Inv :=
  h.invariant (fun _ _ _ hinv _ hstep => step_inv hinv hstep) initial_inv

/-- No `Start` makes the collector active. -/
def StartsNothing (s : StatisticsSystem τ) (a : StatisticsStep τ) : Prop :=
  ∀ t waited, a = .step t → s.pc t ≠ .storeStart waited

/-- The collector stays inactive: nobody records and nobody is to resume. -/
structure Stopped (s : StatisticsSystem τ) : Prop where
  inv : s.Inv
  inactive : s.active = false
  nobodyResumes : ∀ t, (s.pc t).resuming = false

omit [DecidableEq τ] in
theorem Stopped.nobody_records (h : s.Stopped) (u : τ) : s.pc u ≠ .record := by
  refine h.inv.quiet h.inactive (fun t call hpc => ?_) u
  have hresuming := h.nobodyResumes t
  rw [hpc] at hresuming
  contradiction

/-- What a thread does while the collector stays inactive. -/
theorem Stopped.setPc_resuming (h : s.Stopped) (hnext : next.resuming = false) :
    ∀ u, (Function.update s.pc t next u).resuming = false :=
  forall_update (P := fun _ (p : StatisticsPc) => p.resuming = false) hnext
    fun u _ => h.nobodyResumes u

theorem Stopped.stepThread (h : s.Stopped)
    (hstart : ∀ waited, s.pc t ≠ .storeStart waited)
    (hstep : s.stepThread t = some s') : s'.active = false ∧
      ∀ u, (s'.pc u).resuming = false := by
  have hresuming := h.nobodyResumes t
  unfold StatisticsSystem.stepThread at hstep
  cases hpc : s.pc t with
  | idle =>
      rw [hpc] at hstep
      contradiction
  | enter =>
      rw [hpc] at hstep
      cases hstep
      exact ⟨h.inactive, h.setPc_resuming rfl⟩
  | recheck =>
      rw [hpc] at hstep
      simp only [h.inactive, Bool.false_eq_true, if_false] at hstep
      cases hstep
      exact ⟨h.inactive, h.setPc_resuming rfl⟩
  | record =>
      rw [hpc] at hstep
      cases hstep
      exact ⟨h.inactive, h.setPc_resuming rfl⟩
  | leave =>
      rw [hpc] at hstep
      cases hstep
      exact ⟨h.inactive, h.setPc_resuming rfl⟩
  | lock call =>
      rw [hpc] at hstep
      dsimp only at hstep
      split at hstep
      next =>
        cases hstep
        exact ⟨h.inactive, h.setPc_resuming rfl⟩
      next => contradiction
  | exchange call =>
      rw [hpc] at hstep
      simp only [h.inactive, Bool.false_eq_true, if_false] at hstep
      cases hstep
      refine ⟨rfl, h.setPc_resuming ?_⟩
      cases call <;> rfl
  | awaitIdle call =>
      rw [hpc] at hresuming
      contradiction
  | apply call waited =>
      rw [hpc] at hstep
      cases hstep
      cases call with
      | start => exact ⟨h.inactive, h.setPc_resuming rfl⟩
      | stop => exact ⟨h.inactive, h.setPc_resuming rfl⟩
      | reset =>
          cases waited with
          | false => exact ⟨h.inactive, h.setPc_resuming rfl⟩
          | true =>
              rw [hpc] at hresuming
              contradiction
  | storeStart waited => exact absurd hpc (hstart waited)
  | storeReset =>
      rw [hpc] at hresuming
      contradiction
  | unlock call waited =>
      rw [hpc] at hstep
      cases hstep
      exact ⟨h.inactive, h.setPc_resuming rfl⟩

theorem Stopped.step {a : StatisticsStep τ} (h : s.Stopped) (hok : StartsNothing s a)
    (hstep : StatisticsSystem.step s a = some s') : s'.Stopped := by
  have hinv := step_inv h.inv hstep
  cases a with
  | output t =>
      simp only [StatisticsSystem.step, h.inactive, Bool.false_eq_true, if_false] at hstep
      split at hstep
      next =>
        cases hstep
        exact h
      next => contradiction
  | call t call =>
      simp only [StatisticsSystem.step] at hstep
      split at hstep
      next =>
        cases hstep
        exact ⟨hinv, h.inactive, h.setPc_resuming rfl⟩
      next => contradiction
  | step t =>
      obtain ⟨hinactive, hresuming⟩ :=
        h.stepThread (fun waited => hok t waited rfl) hstep
      exact ⟨hinv, hinactive, hresuming⟩

/-- When `Stop` returns the lock is free, so nobody is to resume. -/
theorem stopped_of_unlock {waited : Bool} (h : s.Inv)
    (hpc : s.pc t = .unlock .stop waited)
    (hstep : s.step (.step t) = some s') : s'.Stopped := by
  have hinv := step_inv h hstep
  have hactive : s.active = false := h.deactivated t (by rw [hpc]; rfl)
  simp only [StatisticsSystem.step, StatisticsSystem.stepThread, hpc,
    Option.some.injEq] at hstep
  subst hstep
  refine ⟨hinv, hactive, fun u => ?_⟩
  have hout := hinv.locked.nobody u
  cases hpcu : (({ s with controlLock := none }).setPc t .idle).pc u <;>
    rw [hpcu] at hout <;> first | rfl | contradiction

/-- Nobody records while a call may touch the tables, nor after a `Stop` before
a `Start` makes the collector active. -/
theorem recorders_excluded (h : Reachable step initial s) :
    (∀ t u, (s.pc t).exclusive = true → s.pc u ≠ .record) ∧
      ∀ t waited stopped, s.pc t = .unlock .stop waited →
        step s (.step t) = some stopped →
          ∀ later, Run step StartsNothing stopped later → ∀ u, later.pc u ≠ .record := by
  have hinv := reachable_inv h
  refine ⟨fun t u hexclusive => ?_, fun t waited stopped hpc hstep later hrun => ?_⟩
  · have hdeactivated := StatisticsPc.deactivated_of_exclusive hexclusive
    have hlock := StatisticsPc.inLock_of_deactivated hdeactivated
    refine hinv.quiet (hinv.deactivated t hdeactivated) (fun v call hv => ?_) u
    -- who waits is inside the lock, as `t` is
    have hsame := hinv.locked.alone hlock (u := v) (by rw [hv]; rfl)
    rw [← hsame, hv] at hexclusive
    contradiction
  · have hstopped := hrun.invariant
      (fun _ _ _ hs hok hlast => Stopped.step hs hok hlast)
      (stopped_of_unlock hinv hpc hstep)
    exact hstopped.nobody_records

end Steps

/-! ## A recorder inside `Reset` -/

/-- A start by one thread, and a reset up to its last operation. -/
def startAndReset : List (StatisticsStep Bool) :=
  .call false .start :: List.replicate 5 (.step false) ++
    .call false .reset :: List.replicate 5 (.step false)

/-- The other thread goes on to record. -/
def thenRecord : List (StatisticsStep Bool) :=
  [.output true, .step true, .step true]

/-- While the reset waits for nobody and applies, the recorders are out. -/
theorem recorders_excluded_reset :
    ∃ s : StatisticsSystem Bool, Reachable step initial s ∧
      (s.pc false).exclusive = true ∧ ∀ u, s.pc u ≠ .record := by
  obtain ⟨s, hreachable, hcheck⟩ := exists_reachable_of_exec step
    (initial : StatisticsSystem Bool) startAndReset.dropLast
    (fun s => (s.pc false).exclusive) (by decide)
  exact ⟨s, hreachable, hcheck,
    fun u => (recorders_excluded hreachable).1 false u hcheck⟩

/-- `Reset` makes the collector active before it ends, and a recorder may enter
at once. -/
theorem recorder_inside_reset :
    ∃ s : StatisticsSystem Bool, Reachable step initial s ∧
      (s.pc false).afterWait = true ∧ s.pc true = .record := by
  obtain ⟨s, hreachable, hcheck⟩ := exists_reachable_of_exec step
    (initial : StatisticsSystem Bool) (startAndReset ++ thenRecord)
    (fun s => (s.pc false).afterWait && s.pc true == .record) (by decide)
  rw [Bool.and_eq_true, beq_iff_eq] at hcheck
  exact ⟨s, hreachable, hcheck.1, hcheck.2⟩

end StatisticsSystem
end Logme
