import Logme.FileManager
import Logme.Library.StepSystem
import Mathlib.Logic.Function.Basic

/-!
# Registration against the self-stop of a manager

Any number of backends register through `FileManagerFactory::Add` while the
management threads run workers, remove frozen backends and retire when their
list becomes empty.  A step is a section under the factory's or a manager's
lock.  `Add` tests the stop flag in one section and adds the backend in a
later one, so the manager may retire in between.

Managers have numbers; the factory holds one of them.  Which backend a
management thread runs next is left open.
-/

namespace Logme

open StepSystem

/-- Where a management thread stands.  In `removed` it holds the manager's
lock; every other section under that lock is a single step. -/
inductive ThreadPc (ι : Type) where
  | notStarted
  | wantLock
  | waiting
  | running (b : ι)
  | removing (b : ι)
  | removed (b : ι)
  | shuttingDown (b : ι)
  | exited

/-- Where `RegisterAsync` of a backend stands. -/
inductive AddPc where
  | idle
  | checkStopping
  | setStopping (stopped : Nat)
  | waitForStop (stopped : Nat)
  | lockFactory
  | addBackend (manager : Nat)
  | unlockFactory
  | storeRegistered

structure Factory (ι : Type) where
  manager : Nat → FileManager ι
  thread : Nat → ThreadPc ι
  created : Nat
  current : Option Nat
  factoryLock : Option ι
  pc : ι → AddPc
  registered : ι → Bool
  returned : ι → Bool
  frozen : ι → Bool

inductive FactoryAction (ι : Type) where
  | registerAsync (b : ι)
  | add (b : ι)
  | freeze (b : ι)
  | thread (m : Nat) (next : Option ι)

namespace Factory

variable {ι : Type} [DecidableEq ι]

omit [DecidableEq ι] in
def initial : Factory ι where
  manager := fun _ => .new
  thread := fun _ => .notStarted
  created := 0
  current := none
  factoryLock := none
  pc := fun _ => .idle
  registered := fun _ => false
  returned := fun _ => false
  frozen := fun _ => false

def setPc (s : Factory ι) (b : ι) (pc : AddPc) : Factory ι :=
  { s with pc := Function.update s.pc b pc }

omit [DecidableEq ι] in
def setThread (s : Factory ι) (m : Nat) (pc : ThreadPc ι) : Factory ι :=
  { s with thread := Function.update s.thread m pc }

omit [DecidableEq ι] in
def setManager (s : Factory ι) (m : Nat) (manager : FileManager ι) :
    Factory ι :=
  { s with manager := Function.update s.manager m manager }

omit [DecidableEq ι] in
/-- No thread is inside a section under the manager's lock. -/
def managerLockFree (s : Factory ι) (m : Nat) : Bool :=
  match s.thread m with
  | .removed _ => false
  | _ => true

omit [DecidableEq ι] in
def joinable (s : Factory ι) (m : Nat) : Bool :=
  match s.thread m with
  | .notStarted => false
  | _ => true

omit [DecidableEq ι] in
def threadEnded (s : Factory ι) (m : Nat) : Bool :=
  match s.thread m with
  | .notStarted => true
  | .exited => true
  | _ => false

/-- `AddBackend`, which starts the management thread when there is none. -/
def addBackend (s : Factory ι) (m : Nat) (b : ι) : Factory ι :=
  let s := s.setManager m ((s.manager m).addBackend b)
  if s.joinable m then s else s.setThread m .wantLock

/-- The next step of `Add` for backend `b`. -/
def add (s : Factory ι) (b : ι) : Option (Factory ι) :=
  match s.pc b with
  | .idle => none
  | .checkStopping =>
      if s.factoryLock ≠ none then none
      else
        match s.current with
        | none => some (s.setPc b .lockFactory)
        | some m =>
            if (s.manager m).stopRequested then
              some { s.setPc b (.setStopping m) with current := none }
            else some (s.setPc b .lockFactory)
  | .setStopping m =>
      if s.managerLockFree m = false then none
      else
        some
          ((s.setManager m
            { s.manager m with stopRequested := true, reschedule := true })
              |>.setPc b (.waitForStop m))
  | .waitForStop m =>
      if s.threadEnded m then some (s.setPc b .lockFactory) else none
  | .lockFactory =>
      if s.factoryLock ≠ none then none
      else
        match s.current with
        | some m =>
            some { s.setPc b (.addBackend m) with factoryLock := some b }
        | none =>
            some
              { (s.setManager s.created .new).setPc b
                  (.addBackend s.created) with
                factoryLock := some b
                current := some s.created
                created := s.created + 1 }
  | .addBackend m =>
      if s.managerLockFree m = false then none
      else some ((s.addBackend m b).setPc b .unlockFactory)
  | .unlockFactory =>
      some { s.setPc b .storeRegistered with factoryLock := none }
  | .storeRegistered =>
      some
        { s.setPc b .idle with
          registered := Function.update s.registered b true
          returned := Function.update s.returned b true }

/-- The next step of the management thread of `m`; `next` is the backend that
a round selects, if any. -/
def stepThread (s : Factory ι) (m : Nat) (next : Option ι) :
    Option (Factory ι) :=
  match s.thread m with
  | .notStarted => none
  | .exited => none
  | .wantLock =>
      if (s.manager m).stopRequested then some (s.setThread m .exited)
      else
        match next with
        | none => some (s.setThread m .waiting)
        | some b =>
            if b ∈ (s.manager m).backends then
              some (s.setThread m (.running b))
            else none
  | .waiting => some (s.setThread m .wantLock)
  | .running b =>
      if s.frozen b then some (s.setThread m (.removing b))
      else some (s.setThread m .wantLock)
  | .removing b =>
      some
        { s.setThread m (.removed b) with
          registered := Function.update s.registered b false }
  | .removed b =>
      some
        ((s.setManager m ((s.manager m).removeBackendLocked b).stopIfEmpty)
          |>.setThread m (.shuttingDown b))
  | .shuttingDown _ => some (s.setThread m .wantLock)

def step (s : Factory ι) : FactoryAction ι → Option (Factory ι)
  | .registerAsync b =>
      match s.pc b with
      | .idle =>
          if s.registered b then some s
          else some (s.setPc b .checkStopping)
      | _ => none
  | .add b => s.add b
  | .freeze b => some { s with frozen := Function.update s.frozen b true }
  | .thread m next => s.stepThread m next

omit [DecidableEq ι] in
/-- The backend is served by the manager that the factory holds. -/
def HasLiveManager (s : Factory ι) (b : ι) : Prop :=
  ∃ m, s.current = some m ∧ b ∈ (s.manager m).backends ∧
    (s.manager m).stopRequested = false

omit [DecidableEq ι] in
/-- `AddBackend` is executed on a manager that has not decided to stop. -/
def AddsToRunning (s : Factory ι) : FactoryAction ι → Prop
  | .add b =>
      ∀ m, s.pc b = .addBackend m → (s.manager m).stopRequested = false
  | _ => True

omit [DecidableEq ι] in
theorem addsToRunning_add (s : Factory ι) (b : ι) :
    s.AddsToRunning (.add b) ↔
      (match s.pc b with
        | .addBackend m => (s.manager m).stopRequested
        | _ => false) = false := by
  simp only [AddsToRunning]
  cases s.pc b <;> simp

instance (s : Factory ι) (action : FactoryAction ι) :
    Decidable (s.AddsToRunning action) :=
  match action with
  | .add b => decidable_of_iff _ (s.addsToRunning_add b).symm
  | .registerAsync _ => .isTrue trivial
  | .freeze _ => .isTrue trivial
  | .thread _ _ => .isTrue trivial

/-! ## The invariant -/

omit [DecidableEq ι] in
/-- `RegisterAsync` is past `AddBackend`, or has returned before. -/
def Added (s : Factory ι) (b : ι) : Prop :=
  s.returned b = true ∨ s.pc b = .unlockFactory ∨ s.pc b = .storeRegistered

structure Inv (s : Factory ι) : Prop where
  live : ∀ b, s.Added b → s.frozen b = false → s.HasLiveManager b
  adding : ∀ b m, s.pc b = .addBackend m →
    s.factoryLock = some b ∧ s.current = some m
  unlocking : ∀ b, s.pc b = .unlockFactory → s.factoryLock = some b
  stopping : ∀ b m, s.pc b = .setStopping m →
    (s.manager m).stopRequested = true
  numbered : ∀ m, s.current = some m ∨ (∃ b, s.pc b = .setStopping m) →
    m < s.created
  removing : ∀ b m,
    s.thread m = .removing b ∨ s.thread m = .removed b → s.frozen b = true

omit [DecidableEq ι] in
theorem initial_inv : (initial : Factory ι).Inv := by
  constructor <;> simp [initial, Added]

/-- A step inside `Add` moves one program counter.  It keeps the lock and the
current manager when another thread depends on them, and live managers stay
live for the backends that are added already. -/
theorem Inv.move {s t : Factory ι} (hinv : s.Inv) {b : ι} (pc : AddPc)
    (hpc : t.pc = Function.update s.pc b pc)
    (hthread : t.thread = s.thread ∨
      ∃ m, t.thread = Function.update s.thread m .wantLock)
    (hfrozen : t.frozen = s.frozen)
    (hreturned : ∀ other, t.returned other = true →
      s.returned other = true ∨ (other = b ∧ s.pc b = .storeRegistered))
    (hlive : ∀ other, s.Added other → s.frozen other = false →
      t.HasLiveManager other)
    (hstop : ∀ m, m < s.created → (s.manager m).stopRequested = true →
      (t.manager m).stopRequested = true)
    (hcreated : s.created ≤ t.created)
    (hcurrent : ∀ m, t.current = some m → m < t.created)
    (hlocked : ∀ other, other ≠ b → s.factoryLock = some other →
      t.factoryLock = s.factoryLock ∧ t.current = s.current)
    (hadded : pc = .unlockFactory ∨ pc = .storeRegistered →
      s.frozen b = false → t.HasLiveManager b)
    (hadding : ∀ m, pc = .addBackend m →
      t.factoryLock = some b ∧ t.current = some m)
    (hunlocking : pc = .unlockFactory → t.factoryLock = some b)
    (hstopping : ∀ m, pc = .setStopping m →
      (t.manager m).stopRequested = true ∧ m < t.created) : t.Inv := by
  have hother : ∀ other, other ≠ b → t.pc other = s.pc other := by
    intro other hne
    rw [hpc]
    exact Function.update_of_ne hne _ _
  have hself : t.pc b = pc := by
    rw [hpc]
    exact Function.update_self _ _ _
  constructor
  · intro other haddedOther hnotFrozen
    rw [hfrozen] at hnotFrozen
    rcases haddedOther with hret | hpcs
    · rcases hreturned other hret with hret | ⟨rfl, hstore⟩
      · exact hlive other (.inl hret) hnotFrozen
      · exact hlive other (.inr (.inr hstore)) hnotFrozen
    · by_cases hne : other = b
      · subst other
        rw [hself] at hpcs
        exact hadded hpcs hnotFrozen
      · rw [hother other hne] at hpcs
        exact hlive other (.inr hpcs) hnotFrozen
  · intro other m hadd
    by_cases hne : other = b
    · subst other
      rw [hself] at hadd
      exact hadding m hadd
    · rw [hother other hne] at hadd
      rcases hinv.adding other m hadd with ⟨hlock, hheld⟩
      rcases hlocked other hne hlock with ⟨hlock', hheld'⟩
      rw [hlock', hheld']
      exact ⟨hlock, hheld⟩
  · intro other hunlock
    by_cases hne : other = b
    · subst other
      rw [hself] at hunlock
      exact hunlocking hunlock
    · rw [hother other hne] at hunlock
      have hlock := hinv.unlocking other hunlock
      rw [(hlocked other hne hlock).1]
      exact hlock
  · intro other m hset
    by_cases hne : other = b
    · subst other
      rw [hself] at hset
      exact (hstopping m hset).1
    · rw [hother other hne] at hset
      exact hstop m (hinv.numbered m (.inr ⟨other, hset⟩))
        (hinv.stopping other m hset)
  · rintro m (hm | ⟨other, hset⟩)
    · exact hcurrent m hm
    · by_cases hne : other = b
      · subst other
        rw [hself] at hset
        exact (hstopping m hset).2
      · rw [hother other hne] at hset
        have hless := hinv.numbered m (.inr ⟨other, hset⟩)
        omega
  · intro other m hremove
    rw [hfrozen]
    rcases hthread with hthread | ⟨m', hthread⟩
    · rw [hthread] at hremove
      exact hinv.removing other m hremove
    · rw [hthread] at hremove
      by_cases hm : m = m'
      · subst m
        simp at hremove
      · rw [Function.update_of_ne hm] at hremove
        exact hinv.removing other m hremove

omit [DecidableEq ι] in
/-- A backend whose manager has stopped, or that has none, is frozen. -/
theorem Inv.frozen_of_stopped {s : Factory ι} (hinv : s.Inv)
    (hstopped : ∀ m, s.current = some m →
      (s.manager m).stopRequested = true) :
    ∀ b, s.Added b → s.frozen b = true := by
  intro b hadded
  by_contra hnotFrozen
  rcases hinv.live b hadded (by simpa using hnotFrozen) with
    ⟨m, hm, -, hrunning⟩
  rw [hstopped m hm] at hrunning
  simp at hrunning

/-! ## The steps of `Add` -/

/-- A step that touches nothing but the program counter. -/
theorem Inv.setPc {s : Factory ι} (hinv : s.Inv) {b : ι} {pc : AddPc}
    (hquiet : pc = .checkStopping ∨ pc = .lockFactory) :
    (s.setPc b pc).Inv := by
  refine hinv.move (b := b) pc rfl (.inl rfl) rfl
    (fun _ h => .inl h) hinv.live (fun _ _ h => h) (Nat.le_refl _)
    (fun m h => hinv.numbered m (.inl h)) (fun _ _ _ => ⟨rfl, rfl⟩)
    ?_ ?_ ?_ ?_
  · rcases hquiet with rfl | rfl <;> simp
  · rcases hquiet with rfl | rfl <;> simp
  · rcases hquiet with rfl | rfl <;> simp
  · rcases hquiet with rfl | rfl <;> simp

theorem checkStopping_inv {s t : Factory ι} {b : ι} (hinv : s.Inv)
    (hpc : s.pc b = .checkStopping) (hstep : s.add b = some t) : t.Inv := by
  unfold add at hstep
  simp only [hpc] at hstep
  split_ifs at hstep with hlock
  rw [not_not] at hlock
  cases hcurrent : s.current with
  | none =>
      simp only [hcurrent, Option.some.injEq] at hstep
      subst t
      exact hinv.setPc (.inr rfl)
  | some m =>
      simp only [hcurrent] at hstep
      split_ifs at hstep with hstop
      · simp only [Option.some.injEq] at hstep
        subst t
        have hfrozen := hinv.frozen_of_stopped (by
          intro m' hm'
          rw [hcurrent] at hm'
          simp only [Option.some.injEq] at hm'
          subst m'
          exact hstop)
        refine hinv.move (b := b) (.setStopping m) rfl (.inl rfl) rfl
          (fun _ h => .inl h) ?_ (fun _ _ h => h) (Nat.le_refl _) (by simp)
          (by simp [hlock]) (by simp) (by simp) (by simp) ?_
        · intro other hadded hnotFrozen
          rw [hfrozen other hadded] at hnotFrozen
          simp at hnotFrozen
        · intro m' hm'
          simp only [AddPc.setStopping.injEq] at hm'
          subst m'
          exact ⟨hstop, hinv.numbered m (.inl hcurrent)⟩
      · simp only [Option.some.injEq] at hstep
        subst t
        exact hinv.setPc (.inr rfl)

theorem setStopping_inv {s t : Factory ι} {b : ι} {m : Nat} (hinv : s.Inv)
    (hpc : s.pc b = .setStopping m) (hstep : s.add b = some t) : t.Inv := by
  unfold add at hstep
  simp only [hpc] at hstep
  split_ifs at hstep with hlock
  simp only [Option.some.injEq] at hstep
  subst t
  have hstopped := hinv.stopping b m hpc
  refine hinv.move (b := b) (.waitForStop m) rfl (.inl rfl) rfl
    (fun _ h => .inl h) ?_ ?_ (Nat.le_refl _)
    (fun m h => hinv.numbered m (.inl h)) (fun _ _ _ => ⟨rfl, rfl⟩)
    (by simp) (by simp) (by simp) (by simp)
  · -- a live manager is another one: this one has stopped before
    intro other hadded hnotFrozen
    rcases hinv.live other hadded hnotFrozen with
      ⟨m', hcurrent, hmem, hrunning⟩
    have hne : m' ≠ m := by
      rintro rfl
      rw [hstopped] at hrunning
      simp at hrunning
    exact ⟨m', hcurrent, by simpa [Factory.setPc, setManager, hne] using hmem,
      by simpa [Factory.setPc, setManager, hne] using hrunning⟩
  · intro m' _ hrunning
    by_cases hm : m' = m
    · subst m'
      simp [Factory.setPc, setManager]
    · simpa [Factory.setPc, setManager, hm] using hrunning

theorem lockFactory_inv {s t : Factory ι} {b : ι} (hinv : s.Inv)
    (hpc : s.pc b = .lockFactory) (hstep : s.add b = some t) : t.Inv := by
  unfold add at hstep
  simp only [hpc] at hstep
  split_ifs at hstep with hlock
  rw [not_not] at hlock
  cases hcurrent : s.current with
  | some m =>
      simp only [hcurrent, Option.some.injEq] at hstep
      subst t
      refine hinv.move (b := b) (.addBackend m) rfl (.inl rfl) rfl
        (fun _ h => .inl h) hinv.live (fun _ _ h => h) (Nat.le_refl _)
        (fun m h => hinv.numbered m (.inl h)) (by simp [hlock]) (by simp)
        ?_ (by simp) (by simp)
      intro m' hm'
      simp only [AddPc.addBackend.injEq] at hm'
      subst m'
      exact ⟨rfl, hcurrent⟩
  | none =>
      simp only [hcurrent, Option.some.injEq] at hstep
      subst t
      have hfrozen := hinv.frozen_of_stopped (by simp [hcurrent])
      refine hinv.move (b := b) (.addBackend s.created) rfl (.inl rfl)
        rfl (fun _ h => .inl h) ?_ ?_ (Nat.le_succ _) ?_ (by simp [hlock])
        (by simp) ?_ (by simp) (by simp)
      · intro other hadded hnotFrozen
        rw [hfrozen other hadded] at hnotFrozen
        simp at hnotFrozen
      · intro m' hless hstop
        have hne : m' ≠ s.created := by omega
        simpa [Factory.setPc, setManager, hne] using hstop
      · intro m' hm'
        simp only [Option.some.injEq] at hm'
        subst m'
        exact Nat.lt_succ_self _
      · intro m' hm'
        simp only [AddPc.addBackend.injEq] at hm'
        subst m'
        exact ⟨rfl, rfl⟩

omit [DecidableEq ι] in
/-- A change of a manager that keeps its backends and its stop flag as far as
live backends are concerned. -/
theorem HasLiveManager.of_manager {s t : Factory ι} {b : ι}
    (hlive : s.HasLiveManager b) (hcurrent : t.current = s.current)
    (hmanager : ∀ m, s.current = some m → b ∈ (s.manager m).backends →
      (s.manager m).stopRequested = false →
        b ∈ (t.manager m).backends ∧
          (t.manager m).stopRequested = false) : t.HasLiveManager b := by
  rcases hlive with ⟨m, hm, hmem, hrunning⟩
  exact ⟨m, by rw [hcurrent, hm], hmanager m hm hmem hrunning⟩

theorem addBackend_manager (s : Factory ι) (m : Nat) (b : ι) :
    (s.addBackend m b).manager =
      Function.update s.manager m ((s.manager m).addBackend b) := by
  unfold addBackend
  dsimp only
  split <;> rfl

theorem mem_addBackend (m : FileManager ι) (b : ι) :
    b ∈ (m.addBackend b).backends ∧
      (∀ other, other ∈ m.backends → other ∈ (m.addBackend b).backends) ∧
      (m.addBackend b).stopRequested = m.stopRequested := by
  unfold FileManager.addBackend
  split
  next h => exact ⟨h, fun _ h => h, rfl⟩
  next => exact ⟨by simp, fun _ h => by simp [h], rfl⟩

theorem addBackend_inv {s t : Factory ι} {b : ι} {m : Nat} (hinv : s.Inv)
    (hpc : s.pc b = .addBackend m)
    (hrunning : (s.manager m).stopRequested = false)
    (hstep : s.add b = some t) : t.Inv := by
  unfold add at hstep
  simp only [hpc] at hstep
  split_ifs at hstep with hlock
  simp only [Option.some.injEq] at hstep
  subst t
  rcases hinv.adding b m hpc with ⟨hheld, hcurrent⟩
  rcases mem_addBackend (s.manager m) b with ⟨hself, hothers, hstop⟩
  have hmanager := addBackend_manager s m b
  have hframe : (s.addBackend m b).pc = s.pc ∧
      (s.addBackend m b).current = s.current ∧
      (s.addBackend m b).factoryLock = s.factoryLock ∧
      (s.addBackend m b).frozen = s.frozen ∧
      (s.addBackend m b).returned = s.returned ∧
      (s.addBackend m b).created = s.created := by
    unfold addBackend
    dsimp only
    split <;> exact ⟨rfl, rfl, rfl, rfl, rfl, rfl⟩
  rcases hframe with ⟨hpcs, hcur, hlk, hfr, hret, hcr⟩
  have hlive : ∀ other, s.HasLiveManager other ∨ other = b →
      ((s.addBackend m b).setPc b .unlockFactory).HasLiveManager other := by
    rintro other (hother | rfl)
    · apply hother.of_manager hcur
      intro m' _ hmem hrun
      simp only [hmanager]
      by_cases hm : m' = m
      · subst m'
        simpa [hstop] using ⟨hothers other hmem, hrun⟩
      · simpa [hm] using ⟨hmem, hrun⟩
    · refine ⟨m, by simpa [Factory.setPc, hcur] using hcurrent, ?_⟩
      simpa [Factory.setPc, hmanager, hstop] using ⟨hself, hrunning⟩
  refine hinv.move (b := b) .unlockFactory ?_ ?_ hfr ?_ ?_ ?_ ?_ ?_ ?_
    ?_ (by simp) ?_ (by simp)
  · simp [Factory.setPc, hpcs]
  · unfold Factory.setPc addBackend
    dsimp only
    split
    next => exact .inl rfl
    next => exact .inr ⟨m, rfl⟩
  · intro other h
    exact .inl (by simpa [Factory.setPc, hret] using h)
  · exact fun other hadded hnotFrozen =>
      hlive other (.inl (hinv.live other hadded hnotFrozen))
  · intro m' _ hstopped
    rw [show ((s.addBackend m b).setPc b .unlockFactory).manager = _ from hmanager]
    by_cases hm : m' = m
    · subst m'
      simpa [hstop] using hstopped
    · simpa [hm] using hstopped
  · simp [Factory.setPc, hcr]
  · intro m' hm'
    simp only [Factory.setPc, hcur] at hm'
    simp only [Factory.setPc, hcr]
    exact hinv.numbered m' (.inl hm')
  · exact fun _ _ _ => ⟨hlk, hcur⟩
  · exact fun _ _ => hlive b (.inr rfl)
  · intro _
    simpa [Factory.setPc, hlk] using hheld

theorem add_inv {s t : Factory ι} {b : ι} (hinv : s.Inv)
    (hallowed : s.AddsToRunning (.add b)) (hstep : s.add b = some t) :
    t.Inv := by
  cases hpc : s.pc b with
  | idle => simp [add, hpc] at hstep
  | checkStopping => exact checkStopping_inv hinv hpc hstep
  | setStopping m => exact setStopping_inv hinv hpc hstep
  | waitForStop m =>
      simp only [add, hpc] at hstep
      split_ifs at hstep with hended
      simp only [Option.some.injEq] at hstep
      subst t
      exact hinv.setPc (.inr rfl)
  | lockFactory => exact lockFactory_inv hinv hpc hstep
  | addBackend m => exact addBackend_inv hinv hpc (hallowed m hpc) hstep
  | unlockFactory =>
      simp only [add, hpc, Option.some.injEq] at hstep
      subst t
      have hheld := hinv.unlocking b hpc
      refine hinv.move (b := b) .storeRegistered rfl (.inl rfl) rfl
        (fun _ h => .inl h) hinv.live (fun _ _ h => h) (Nat.le_refl _)
        (fun m h => hinv.numbered m (.inl h)) ?_ ?_ (by simp) (by simp)
        (by simp)
      · intro other hne hlock
        rw [hheld] at hlock
        simp only [Option.some.injEq] at hlock
        exact absurd hlock.symm hne
      · exact fun _ => hinv.live b (.inr (.inl hpc))
  | storeRegistered =>
      simp only [add, hpc, Option.some.injEq] at hstep
      subst t
      refine hinv.move (b := b) .idle rfl (.inl rfl) rfl ?_ hinv.live
        (fun _ _ h => h) (Nat.le_refl _)
        (fun m h => hinv.numbered m (.inl h)) (fun _ _ _ => ⟨rfl, rfl⟩)
        (by simp) (by simp) (by simp) (by simp)
      intro other hret
      by_cases hne : other = b
      · exact .inr ⟨hne, hpc⟩
      · exact .inl (by simpa [hne] using hret)

/-! ## The management thread -/

omit [DecidableEq ι] in
/-- A step of a management thread that changes no manager. -/
theorem Inv.setThread {s : Factory ι} (hinv : s.Inv) (m : Nat)
    (pc : ThreadPc ι)
    (hremoving : ∀ b, pc = .removing b ∨ pc = .removed b →
      s.frozen b = true) : (s.setThread m pc).Inv := by
  refine ⟨hinv.live, hinv.adding, hinv.unlocking, hinv.stopping,
    hinv.numbered, ?_⟩
  intro b m' hremove
  by_cases hm : m' = m
  · subst m'
    simp only [Factory.setThread, Function.update_self] at hremove
    exact hremoving b hremove
  · simp only [Factory.setThread, Function.update_of_ne hm] at hremove
    exact hinv.removing b m' hremove

/-- Only a frozen backend is removed, and a manager stops only when nothing
is left. -/
theorem removed_inv {s : Factory ι} (hinv : s.Inv) {m : Nat} {b : ι}
    (hthread : s.thread m = .removed b) :
    (s.setManager m
      ((s.manager m).removeBackendLocked b).stopIfEmpty).Inv := by
  have hfrozen := hinv.removing b m (.inr hthread)
  have hstop : ∀ manager : FileManager ι, manager.stopRequested = true →
      manager.stopIfEmpty.stopRequested = true := by
    intro manager h
    unfold FileManager.stopIfEmpty
    split <;> simp [h]
  refine ⟨?_, hinv.adding, hinv.unlocking, ?_, hinv.numbered, hinv.removing⟩
  · intro other hadded hnotFrozen
    refine HasLiveManager.of_manager (s := s)
      (hinv.live other hadded hnotFrozen) rfl ?_
    intro m' _ hmem hrunning
    by_cases hm : m' = m
    · subst m'
      have hne : other ≠ b := by
        rintro rfl
        exact absurd (hfrozen.symm.trans hnotFrozen) (by simp)
      have hleft : other ∈
          ((s.manager m).removeBackendLocked b).backends :=
        (List.mem_erase_of_ne hne).mpr hmem
      have hrest : ((s.manager m).removeBackendLocked b).stopIfEmpty =
          (s.manager m).removeBackendLocked b := by
        unfold FileManager.stopIfEmpty
        rw [if_neg (List.ne_nil_of_mem hleft)]
      simp only [setManager, Function.update_self, hrest]
      exact ⟨hleft, hrunning⟩
    · simpa [setManager, hm] using ⟨hmem, hrunning⟩
  · intro other m' hset
    have hstopped := hinv.stopping other m' hset
    by_cases hm : m' = m
    · subst m'
      simp only [setManager, Function.update_self]
      exact hstop _ hstopped
    · simpa [setManager, hm] using hstopped

theorem stepThread_inv {s t : Factory ι} {m : Nat} {next : Option ι}
    (hinv : s.Inv) (hstep : s.stepThread m next = some t) : t.Inv := by
  unfold stepThread at hstep
  cases hthread : s.thread m with
  | notStarted => simp [hthread] at hstep
  | exited => simp [hthread] at hstep
  | wantLock =>
      simp only [hthread] at hstep
      split_ifs at hstep with hstop
      · simp only [Option.some.injEq] at hstep
        subst t
        exact hinv.setThread m .exited (by simp)
      · cases next with
        | none =>
            simp only [Option.some.injEq] at hstep
            subst t
            exact hinv.setThread m .waiting (by simp)
        | some b =>
            simp only at hstep
            split_ifs at hstep with hmem
            simp only [Option.some.injEq] at hstep
            subst t
            exact hinv.setThread m (.running b) (by simp)
  | waiting =>
      simp only [hthread, Option.some.injEq] at hstep
      subst t
      exact hinv.setThread m .wantLock (by simp)
  | running b =>
      simp only [hthread] at hstep
      split_ifs at hstep with hfrozen
      · simp only [Option.some.injEq] at hstep
        subst t
        refine hinv.setThread m (.removing b) ?_
        simp only [ThreadPc.removing.injEq, reduceCtorEq, or_false]
        rintro b' rfl
        exact hfrozen
      · simp only [Option.some.injEq] at hstep
        subst t
        exact hinv.setThread m .wantLock (by simp)
  | removing b =>
      simp only [hthread, Option.some.injEq] at hstep
      subst t
      have hremoved : (s.setThread m (.removed b)).Inv := by
        refine hinv.setThread m (.removed b) ?_
        simp only [ThreadPc.removed.injEq, reduceCtorEq, false_or]
        rintro b' rfl
        exact hinv.removing b m (.inl hthread)
      exact ⟨hremoved.live, hremoved.adding, hremoved.unlocking,
        hremoved.stopping, hremoved.numbered, hremoved.removing⟩
  | removed b =>
      simp only [hthread, Option.some.injEq] at hstep
      subst t
      exact (removed_inv hinv hthread).setThread m (.shuttingDown b) (by simp)
  | shuttingDown b =>
      simp only [hthread, Option.some.injEq] at hstep
      subst t
      exact hinv.setThread m .wantLock (by simp)

/-! ## A live manager for every registered backend -/

theorem step_inv {s t : Factory ι} {action : FactoryAction ι}
    (hinv : s.Inv) (hallowed : s.AddsToRunning action)
    (hstep : s.step action = some t) : t.Inv := by
  cases action with
  | registerAsync b =>
      simp only [step] at hstep
      cases hpc : s.pc b <;> simp only [hpc, reduceCtorEq] at hstep
      split_ifs at hstep with hregistered
      · simp only [Option.some.injEq] at hstep
        subst t
        exact hinv
      · simp only [Option.some.injEq] at hstep
        subst t
        exact hinv.setPc (.inl rfl)
  | add b => exact add_inv hinv hallowed hstep
  | freeze b =>
      simp only [step, Option.some.injEq] at hstep
      subst t
      refine ⟨?_, hinv.adding, hinv.unlocking, hinv.stopping, hinv.numbered,
        ?_⟩
      · intro other hadded hnotFrozen
        by_cases hne : other = b
        · subst other
          simp at hnotFrozen
        · exact hinv.live other hadded (by simpa [hne] using hnotFrozen)
      · intro other m hremove
        by_cases hne : other = b
        · subst other
          simp
        · simpa [hne] using hinv.removing other m hremove
  | thread m next => exact stepThread_inv hinv hstep

/-- In every run in which no backend is added to a manager that has decided
to stop, a backend whose registration has returned and that is not frozen is
served by the manager that the factory holds. -/
theorem registered_has_live_manager (s : Factory ι)
    (hrun : Run step AddsToRunning initial s) (b : ι)
    (hreturned : s.returned b = true) (hnotFrozen : s.frozen b = false) :
    s.HasLiveManager b := by
  have hinv : s.Inv :=
    hrun.invariant (fun _ _ _ hinv hok hstep => step_inv hinv hok hstep)
      initial_inv
  exact hinv.live b (.inl hreturned) hnotFrozen

/-! ## The gap between the test and the registration -/

/-- Backend 0 registers, is frozen and picked up by the worker; backend 1
tests the stop flag; the manager removes backend 0 and stops; backend 1 is
added to it. -/
private def raceActions : List (FactoryAction (Fin 2)) :=
  .registerAsync 0 :: List.replicate 5 (.add 0) ++
    [.freeze 0, .thread 0 (some 0), .thread 0 none,
      .registerAsync 1, .add 1] ++
    List.replicate 2 (.thread 0 none) ++ List.replicate 4 (.add 1)

theorem registration_races_with_stop :
    ¬ ∀ s : Factory (Fin 2), Reachable step initial s →
      ∀ b, s.returned b = true → s.frozen b = false →
        s.HasLiveManager b := by
  intro hall
  rcases exists_reachable_of_exec step initial raceActions
      (fun s => s.returned 1 && !s.frozen 1 &&
        s.current.all fun m => (s.manager m).stopRequested) (by decide) with
    ⟨s, hreach, hcheck⟩
  simp only [Bool.and_eq_true, Bool.not_eq_true'] at hcheck
  rcases hcheck with ⟨⟨hreturned, hnotFrozen⟩, hstopped⟩
  rcases hall s hreach 1 hreturned hnotFrozen with ⟨m, hm, -, hrunning⟩
  rw [hm] at hstopped
  simp [hrunning] at hstopped

/-- Backend 0 is removed and its manager stops before backend 1 tests the
flag, so backend 1 gets a new manager. -/
theorem registered_has_live_manager_second_manager :
    ∃ s : Factory (Fin 2), s.current = some 1 ∧ s.HasLiveManager 1 := by
  rcases exists_run_of_exec step AddsToRunning
      (initial : Factory (Fin 2))
      (.registerAsync 0 :: List.replicate 5 (.add 0) ++
        [.freeze 0, .thread 0 (some 0)] ++
        List.replicate 5 (.thread 0 none) ++
        .registerAsync 1 :: List.replicate 7 (.add 1))
      (fun s => s.returned 1 && !s.frozen 1 &&
        decide (s.current = some 1)) (by decide) with ⟨s, hrun, hcheck⟩
  simp only [Bool.and_eq_true, Bool.not_eq_true', decide_eq_true_eq] at hcheck
  rcases hcheck with ⟨⟨hreturned, hnotFrozen⟩, hcurrent⟩
  exact ⟨s, hcurrent,
    registered_has_live_manager s hrun 1 hreturned hnotFrozen⟩

end Factory

end Logme
