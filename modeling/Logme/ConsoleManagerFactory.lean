import Mathlib.Data.Fintype.Basic
import Logme.Library.StepSystem
import Logme.Library.Threads

/-!
# Registration of console backends

An asynchronous backend registers with the manager of the factory when it is
about to print, and leaves it when it is frozen; the last one to leave stops the
manager.  `Add` tests under the lock of the factory whether the manager is
stopping and inserts the backend under the lock of the manager, while
`RemoveBackend` decides under the lock of the manager alone.  A step is one
section under a lock or one atomic operation.
-/

namespace Logme

open StepSystem Threads

/-- Where a thread in `Display` or `Freeze` is.  `locked` tells whether it holds
the `RegistrationLock` of the backend, `m` is the manager it has in hand. -/
inductive RegistrationPc (β : Type) where
  | idle
  | display (b : β) (tty : Bool)
  | load (b : β) (startWorker : Bool)
  | lock (b : β) (startWorker : Bool)
  | reload (b : β) (startWorker : Bool)
  | request (b : β) (locked : Bool)
  | findManager (b : β) (locked : Bool)
  | startWorker (b : β) (locked : Bool) (m : Nat)
  | add (b : β) (startWorker : Bool)
  | insert (b : β) (startWorker : Bool) (m : Nat)
  | leaveFactory (b : β) (startWorker : Bool) (m : Nat)
  | setManager (b : β) (startWorker : Bool) (m : Nat)
  | storeRequested (b : β) (startWorker : Bool)
  | storeRegistered (b : β) (startWorker : Bool)
  | unlock (b : β) (startWorker : Bool)
  | redirect (b : β)
  | getManager (b : β)
  | push (b : β) (m : Option Nat)
  | freeze (b : β)
  | exchange (b : β)
  | remove (b : β)
  | removeBackend (b : β) (m : Nat)
  | reset (b : β) (m : Nat)
  | clearManager (b : β)
  | clearRequested (b : β)
  deriving DecidableEq

structure RegisteredBackend where
  registered : Bool
  shutdownFlag : Bool
  workerRequested : Bool
  registrationLock : Bool
  manager : Option Nat

structure RegisteringManager (β : Type) where
  backends : List β
  stopRequested : Bool
  workerRunning : Bool

/-- The factory, the managers it has created so far, and the backends whose
record was dropped because their manager was missing or stopping. -/
structure ConsoleRegistry (τ β : Type) where
  factoryLock : Bool
  managerInstance : Option Nat
  created : Nat
  managers : Nat → RegisteringManager β
  backends : β → RegisteredBackend
  pc : τ → RegistrationPc β
  lost : List β

inductive RegistrationCall (β : Type) where
  | display (b : β) (tty : Bool)
  | freeze (b : β)

/-- `redirected` is the answer of `AppendRedirected`, where it is called. -/
inductive RegistrationStep (τ β : Type) where
  | call (t : τ) (call : RegistrationCall β)
  | step (t : τ) (redirected : Bool)

namespace RegisteringManager

variable {β : Type} [DecidableEq β]

def startWorkerLocked (m : RegisteringManager β) : RegisteringManager β :=
  { m with workerRunning := m.workerRunning || !m.stopRequested }

def addBackend (m : RegisteringManager β) (b : β) (startWorker : Bool) :
    RegisteringManager β :=
  let added := { m with backends := m.backends.insert b }
  if startWorker then added.startWorkerLocked else added

/-- The manager and whether no backend is left. -/
def removeBackend (m : RegisteringManager β) (b : β) : RegisteringManager β × Bool :=
  let left := m.backends.filter (· ≠ b)
  let isEmpty : Bool := left = []
  ({ m with backends := left, stopRequested := m.stopRequested || isEmpty }, isEmpty)

end RegisteringManager

namespace ConsoleRegistry

variable {τ β : Type} [DecidableEq τ] [DecidableEq β]

def initial : ConsoleRegistry τ β where
  factoryLock := false
  managerInstance := none
  created := 0
  managers := fun _ => ⟨[], false, false⟩
  backends := fun _ => ⟨false, false, false, false, none⟩
  pc := fun _ => .idle
  lost := []

def setPc (s : ConsoleRegistry τ β) (t : τ) (pc : RegistrationPc β) :
    ConsoleRegistry τ β :=
  { s with pc := Function.update s.pc t pc }

def setBackend (s : ConsoleRegistry τ β) (b : β) (backend : RegisteredBackend) :
    ConsoleRegistry τ β :=
  { s with backends := Function.update s.backends b backend }

def setManagerState (s : ConsoleRegistry τ β) (m : Nat)
    (manager : RegisteringManager β) : ConsoleRegistry τ β :=
  { s with managers := Function.update s.managers m manager }

/-- Where `Display` goes on after `RegisterIfNeeded`. -/
def afterRegister (b : β) (startWorker : Bool) : RegistrationPc β :=
  if startWorker then .getManager b else .redirect b

/-- The way out of `RegisterIfNeeded(true)`, with or without the lock. -/
def leave (b : β) (locked : Bool) : RegistrationPc β :=
  if locked then .unlock b true else .getManager b

/-- `Add` up to its call of `AddBackend`: a stopping manager is replaced. -/
def add (s : ConsoleRegistry τ β) (t : τ) (b : β) (startWorker : Bool) :
    ConsoleRegistry τ β :=
  match s.managerInstance.filter fun m => !(s.managers m).stopRequested with
  | some m => ({ s with factoryLock := true }).setPc t (.insert b startWorker m)
  | none =>
      ({ s with
          factoryLock := true
          managerInstance := some s.created
          created := s.created + 1 }).setPc t (.insert b startWorker s.created)

/-- The test before `Push`. -/
def push (s : ConsoleRegistry τ β) (t : τ) (b : β) (manager : Option Nat) :
    ConsoleRegistry τ β :=
  if manager.any fun m => !(s.managers m).stopRequested then s.setPc t .idle
  else ({ s with lost := b :: s.lost }).setPc t .idle

def stepThread (s : ConsoleRegistry τ β) (t : τ) (redirected : Bool) :
    Option (ConsoleRegistry τ β) :=
  match s.pc t with
  | .idle => none
  | .display b tty =>
      some (s.setPc t (if (s.backends b).shutdownFlag then .idle else .load b tty))
  | .load b startWorker =>
      some (s.setPc t (if (s.backends b).registered then
          if startWorker then .request b false else .redirect b
        else .lock b startWorker))
  | .lock b startWorker =>
      if (s.backends b).registrationLock then none
      else
        some ((s.setBackend b { s.backends b with registrationLock := true }).setPc t
          (.reload b startWorker))
  | .reload b startWorker =>
      some (s.setPc t (if (s.backends b).registered then
          if startWorker then .request b true else .unlock b startWorker
        else .add b startWorker))
  | .request b locked =>
      some ((s.setBackend b { s.backends b with workerRequested := true }).setPc t
        (if (s.backends b).workerRequested then leave b locked
          else .findManager b locked))
  | .findManager b locked =>
      some (s.setPc t (match (s.backends b).manager with
        | none => leave b locked
        | some m => .startWorker b locked m))
  | .startWorker b locked m =>
      some ((s.setManagerState m (s.managers m).startWorkerLocked).setPc t
        (leave b locked))
  | .add b startWorker =>
      if s.factoryLock then none else some (s.add t b startWorker)
  | .insert b startWorker m =>
      some ((s.setManagerState m ((s.managers m).addBackend b startWorker)).setPc t
        (.leaveFactory b startWorker m))
  | .leaveFactory b startWorker m =>
      some (({ s with factoryLock := false }).setPc t (.setManager b startWorker m))
  | .setManager b startWorker m =>
      some ((s.setBackend b { s.backends b with manager := some m }).setPc t
        (.storeRequested b startWorker))
  | .storeRequested b startWorker =>
      some ((s.setBackend b { s.backends b with workerRequested := startWorker }).setPc t
        (.storeRegistered b startWorker))
  | .storeRegistered b startWorker =>
      some ((s.setBackend b { s.backends b with registered := true }).setPc t
        (.unlock b startWorker))
  | .unlock b startWorker =>
      some ((s.setBackend b { s.backends b with registrationLock := false }).setPc t
        (afterRegister b startWorker))
  | .redirect b =>
      some (s.setPc t (if (s.backends b).manager.isSome && redirected then .idle
        else .load b true))
  | .getManager b => some (s.setPc t (.push b (s.backends b).manager))
  | .push b manager => some (s.push t b manager)
  | .freeze b =>
      some ((s.setBackend b { s.backends b with shutdownFlag := true }).setPc t
        (.exchange b))
  | .exchange b =>
      some ((s.setBackend b { s.backends b with registered := false }).setPc t
        (if (s.backends b).registered then .remove b else .idle))
  | .remove b =>
      if s.factoryLock then none
      else
        some (s.setPc t (match s.managerInstance with
          | none => .clearManager b
          | some m => .removeBackend b m))
  | .removeBackend b m =>
      some ((s.setManagerState m ((s.managers m).removeBackend b).1).setPc t
        (if ((s.managers m).removeBackend b).2 then .reset b m else .clearManager b))
  | .reset b m =>
      if s.factoryLock then none
      else
        some (({ s with
            managerInstance := if s.managerInstance = some m then none
              else s.managerInstance }).setPc t (.clearManager b))
  | .clearManager b =>
      some ((s.setBackend b { s.backends b with manager := none }).setPc t
        (.clearRequested b))
  | .clearRequested b =>
      some ((s.setBackend b { s.backends b with workerRequested := false }).setPc t .idle)

/-- Where a call starts. -/
def begin : RegistrationCall β → RegistrationPc β
  | .display b tty => .display b tty
  | .freeze b => .freeze b

def step (s : ConsoleRegistry τ β) : RegistrationStep τ β → Option (ConsoleRegistry τ β)
  | .call t call => if s.pc t = .idle then some (s.setPc t (begin call)) else none
  | .step t redirected => s.stepThread t redirected

/-- No manager is stopped while `Add` is about to insert a backend into it. -/
def NoCrossing (s : ConsoleRegistry τ β) : RegistrationStep τ β → Prop
  | .step t _ =>
      match s.pc t with
      | .removeBackend b m =>
          ((s.managers m).removeBackend b).2 = true →
            ∀ u b' startWorker, s.pc u ≠ .insert b' startWorker m
      | _ => True
  | .call .. => True

/-! ## What is kept -/

section Steps

variable {s s' : ConsoleRegistry τ β} {t : τ} {b : β} {m : Nat}
  {next : RegistrationPc β}

def frozen (s : ConsoleRegistry τ β) (b : β) : Prop :=
  (s.backends b).shutdownFlag = true

/-- The manager knows the backend and has not been told to stop. -/
structure Bound (s : ConsoleRegistry τ β) (b : β) (m : Nat) : Prop where
  inserted : b ∈ (s.managers m).backends
  running : (s.managers m).stopRequested = false

/-- The backend holds a manager to which it is bound. -/
def Holds (s : ConsoleRegistry τ β) (b : β) : Prop :=
  ∃ m, (s.backends b).manager = some m ∧ s.Bound b m

/-- What a thread relies on. -/
def Relies (s : ConsoleRegistry τ β) : RegistrationPc β → Prop
  | .insert _ _ m => (s.managers m).stopRequested = false
  | .leaveFactory b _ m | .setManager b _ m | .push b (some m) =>
      s.frozen b ∨ s.Bound b m
  | .storeRequested b _ | .storeRegistered b _ => s.frozen b ∨ s.Holds b
  | .request b _ | .findManager b _ | .startWorker b _ _ | .unlock b _ | .redirect b
  | .getManager b => s.frozen b ∨ (s.backends b).registered = true
  | .exchange b | .remove b | .reset b _ | .clearManager b | .clearRequested b
  | .push b none => s.frozen b
  | .removeBackend b m => s.frozen b ∧ m < s.created
  | _ => True

structure Inv (s : ConsoleRegistry τ β) : Prop where
  created : ∀ m, (s.managers m).stopRequested = true ∨ s.managerInstance = some m →
    m < s.created
  holds : ∀ b, s.frozen b ∨ (s.backends b).registered = false ∨ s.Holds b
  relies : ∀ t, s.Relies (s.pc t)
  lost : ∀ b ∈ s.lost, s.frozen b

omit [DecidableEq τ] [DecidableEq β] in
theorem initial_inv : (initial : ConsoleRegistry τ β).Inv where
  created m h := by rcases h with h | h <;> contradiction
  holds _ := .inr (.inl rfl)
  relies _ := trivial
  lost b h := by contradiction

/-- What the other threads and backends rely on stays. -/
structure Keeps (s s' : ConsoleRegistry τ β) : Prop where
  created : s.created ≤ s'.created
  frozen : ∀ b, s.frozen b → s'.frozen b
  bound : ∀ b m, s.Bound b m → s'.frozen b ∨ s'.Bound b m
  holds : ∀ b, s.Holds b → s'.frozen b ∨ s'.Holds b
  registered : ∀ b, (s.backends b).registered = true →
    s'.frozen b ∨ (s'.backends b).registered = true
  running : ∀ t b startWorker m, s.pc t = .insert b startWorker m →
    (s.managers m).stopRequested = false → (s'.managers m).stopRequested = false

omit [DecidableEq τ] [DecidableEq β] in
theorem Keeps.relies (h : Keeps s s') {u : τ} (hrelies : s.Relies (s.pc u)) :
    s'.Relies (s.pc u) := by
  have hor : ∀ {b : β} {P Q : Prop}, (P → s'.frozen b ∨ Q) → s.frozen b ∨ P →
      s'.frozen b ∨ Q := fun hPQ hfrozen => hfrozen.elim (fun hb => .inl (h.frozen _ hb)) hPQ
  cases hpc : s.pc u with
  | insert b startWorker m =>
      rw [hpc] at hrelies
      exact h.running u b startWorker m hpc hrelies
  | leaveFactory b _ m | setManager b _ m =>
      rw [hpc] at hrelies
      exact hor (h.bound b m) hrelies
  | push b manager =>
      rw [hpc] at hrelies
      cases manager with
      | none => exact h.frozen b hrelies
      | some m => exact hor (h.bound b m) hrelies
  | storeRequested b | storeRegistered b =>
      rw [hpc] at hrelies
      exact hor (h.holds b) hrelies
  | request b | findManager b | startWorker b | unlock b | redirect b | getManager b =>
      rw [hpc] at hrelies
      exact hor (h.registered b) hrelies
  | exchange b | remove b | reset b | clearManager b | clearRequested b =>
      rw [hpc] at hrelies
      exact h.frozen b hrelies
  | removeBackend b m =>
      rw [hpc] at hrelies
      exact ⟨h.frozen b hrelies.1, Nat.lt_of_lt_of_le hrelies.2 h.created⟩
  | idle | display | load | lock | reload | add | freeze => trivial

omit [DecidableEq β] in
theorem Inv.moved (h : s.Inv) (hkeeps : Keeps s s')
    (hpc : s'.pc = Function.update s.pc t next) (hnext : s'.Relies next) :
    ∀ u, s'.Relies (s'.pc u) := by
  rw [hpc]
  exact forall_update (P := fun _ (p : RegistrationPc β) => s'.Relies p) hnext
    fun u _ => hkeeps.relies (h.relies u)

omit [DecidableEq β] in
/-- Neither a manager nor a backend changes. -/
theorem Inv.move (h : s.Inv) (hmanagers : s'.managers = s.managers)
    (hbackends : s'.backends = s.backends) (hle : s.created ≤ s'.created)
    (hcreated : ∀ m, s'.managerInstance = some m → m < s'.created)
    (hlost : ∀ b ∈ s'.lost, s.frozen b) (hpc : s'.pc = Function.update s.pc t next)
    (hnext : s'.Relies next) : s'.Inv := by
  have hbound : ∀ b m, s.Bound b m → s'.Bound b m :=
    fun b m hb => ⟨hmanagers ▸ hb.inserted, hmanagers ▸ hb.running⟩
  have hholds : ∀ b, s.Holds b → s'.Holds b :=
    fun b ⟨m, hm, hb⟩ => ⟨m, hbackends ▸ hm, hbound b m hb⟩
  have hfrozen : ∀ b, s.frozen b → s'.frozen b := fun b hb => by rwa [frozen, hbackends]
  have hkeeps : Keeps s s' := ⟨hle, hfrozen, fun b m hb => .inr (hbound b m hb),
    fun b hb => .inr (hholds b hb), fun b hb => .inr (hbackends ▸ hb),
    fun _ _ _ _ _ hm => hmanagers ▸ hm⟩
  refine ⟨fun m hm => ?_, fun b => ?_, h.moved hkeeps hpc hnext,
    fun b hb => hfrozen b (hlost b hb)⟩
  · rcases hm with hm | hm
    · rw [hmanagers] at hm
      exact Nat.lt_of_lt_of_le (h.created m (.inl hm)) hle
    · exact hcreated m hm
  · rw [hbackends]
    exact (h.holds b).imp (hfrozen b) (Or.imp_right (hholds b))

omit [DecidableEq β] in
theorem Inv.setPc (h : s.Inv) (hnext : (s.setPc t next).Relies next) :
    (s.setPc t next).Inv :=
  h.move rfl rfl (Nat.le_refl _) (fun m hm => h.created m (.inr hm)) h.lost rfl hnext

theorem backends_setBackend (s : ConsoleRegistry τ β) (t : τ) (b : β)
    (next : RegistrationPc β) (backend : RegisteredBackend) :
    ((s.setBackend b backend).setPc t next).backends b = backend := by
  simp only [ConsoleRegistry.setPc, ConsoleRegistry.setBackend, Function.update_self]

/-- One backend changes. -/
theorem Inv.setBackend {backend : RegisteredBackend} (h : s.Inv)
    (hfrozen : s.frozen b → backend.shutdownFlag = true)
    (hregistered : (s.backends b).registered = true →
      backend.shutdownFlag = true ∨ backend.registered = true)
    (hmanager : s.Holds b → backend.shutdownFlag = true ∨
      ∃ m, backend.manager = some m ∧ s.Bound b m)
    (hnew : backend.shutdownFlag = true ∨ backend.registered = false ∨
      ∃ m, backend.manager = some m ∧ s.Bound b m)
    (hnext : ((s.setBackend b backend).setPc t next).Relies next) :
    ((s.setBackend b backend).setPc t next).Inv := by
  have hother : ∀ {d}, d ≠ b →
      ((s.setBackend b backend).setPc t next).backends d = s.backends d := fun hd => by
    simp only [ConsoleRegistry.setPc, ConsoleRegistry.setBackend, Function.update_of_ne hd]
  have hself := s.backends_setBackend t b next backend
  have hfrozen' : ∀ d, s.frozen d → ((s.setBackend b backend).setPc t next).frozen d := by
    intro d hd
    by_cases hdb : d = b
    · rw [hdb, frozen, hself]
      exact hfrozen (hdb ▸ hd)
    · rwa [frozen, hother hdb]
  have hkeeps : Keeps s ((s.setBackend b backend).setPc t next) := by
    refine ⟨Nat.le_refl _, hfrozen', fun d m hd => .inr ⟨hd.inserted, hd.running⟩,
      fun d hd => ?_, fun d hd => ?_, fun _ _ _ _ _ hm => hm⟩
    · by_cases hdb : d = b
      · subst hdb
        rcases hmanager hd with hd | ⟨m, hm, hbound⟩
        · exact .inl (by rwa [frozen, hself])
        · exact .inr ⟨m, by rwa [hself], hbound.inserted, hbound.running⟩
      · obtain ⟨m, hm, hbound⟩ := hd
        exact .inr ⟨m, by rwa [hother hdb], hbound.inserted, hbound.running⟩
    · by_cases hdb : d = b
      · subst hdb
        rw [frozen, hself]
        exact hregistered hd
      · exact .inr (by rwa [hother hdb])
  refine ⟨h.created, fun d => ?_, h.moved hkeeps rfl hnext,
    fun d hd => hfrozen' d (h.lost d hd)⟩
  by_cases hdb : d = b
  · subst hdb
    rw [frozen, hself]
    refine hnew.imp_right (Or.imp_right fun ⟨m, hm, hbound⟩ => ?_)
    exact ⟨m, by rwa [hself], hbound.inserted, hbound.running⟩
  · rw [hother hdb]
    rcases h.holds d with hd | hd | hd
    · exact .inl (hfrozen' d hd)
    · exact .inr (.inl hd)
    · exact (hkeeps.holds d hd).imp_right .inr

omit [DecidableEq β] in
/-- One manager changes. -/
theorem Inv.setManagerState {manager : RegisteringManager β} (h : s.Inv)
    (hcreated : manager.stopRequested = true → m < s.created)
    (hbound : ∀ d, s.Bound d m →
      s.frozen d ∨ d ∈ manager.backends ∧ manager.stopRequested = false)
    (hrunning : ∀ u d startWorker, s.pc u = .insert d startWorker m →
      (s.managers m).stopRequested = false → manager.stopRequested = false)
    (hnext : ((s.setManagerState m manager).setPc t next).Relies next) :
    ((s.setManagerState m manager).setPc t next).Inv := by
  have hother : ∀ {k}, k ≠ m →
      ((s.setManagerState m manager).setPc t next).managers k = s.managers k :=
    fun hk => by simp only [ConsoleRegistry.setPc, ConsoleRegistry.setManagerState,
      Function.update_of_ne hk]
  have hself : ((s.setManagerState m manager).setPc t next).managers m = manager := by
    simp only [ConsoleRegistry.setPc, ConsoleRegistry.setManagerState, Function.update_self]
  have hbound' : ∀ d k, s.Bound d k → s.frozen d ∨
      ((s.setManagerState m manager).setPc t next).Bound d k := by
    intro d k hd
    by_cases hkm : k = m
    · subst hkm
      exact (hbound d hd).imp_right fun hd => ⟨by rw [hself]; exact hd.1,
        by rw [hself]; exact hd.2⟩
    · exact .inr ⟨by rw [hother hkm]; exact hd.inserted,
        by rw [hother hkm]; exact hd.running⟩
  have hholds : ∀ d, s.Holds d → s.frozen d ∨
      ((s.setManagerState m manager).setPc t next).Holds d :=
    fun d ⟨k, hk, hd⟩ => (hbound' d k hd).imp_right fun hd => ⟨k, hk, hd⟩
  have hkeeps : Keeps s ((s.setManagerState m manager).setPc t next) := by
    refine ⟨Nat.le_refl _, fun _ => id, hbound', hholds, fun _ => .inr,
      fun u d startWorker k hu hk => ?_⟩
    by_cases hkm : k = m
    · subst hkm
      rw [hself]
      exact hrunning u d startWorker hu hk
    · rwa [hother hkm]
  refine ⟨fun k hk => ?_, fun d => ?_, h.moved hkeeps rfl hnext, h.lost⟩
  · by_cases hkm : k = m
    · subst hkm
      rw [hself] at hk
      exact hk.elim hcreated fun hk => h.created k (.inr hk)
    · rw [hother hkm] at hk
      exact h.created k hk
  · rcases h.holds d with hd | hd | hd
    · exact .inl hd
    · exact .inr (.inl hd)
    · exact (hholds d hd).imp_right .inr

/-- Only `WorkerRequested` or the lock of a backend changes. -/
theorem Inv.setBackendRest {backend : RegisteredBackend} (h : s.Inv)
    (hregistered : backend.registered = (s.backends b).registered)
    (hshutdown : backend.shutdownFlag = (s.backends b).shutdownFlag)
    (hmanager : backend.manager = (s.backends b).manager)
    (hnext : ((s.setBackend b backend).setPc t next).Relies next) :
    ((s.setBackend b backend).setPc t next).Inv := by
  refine h.setBackend (fun hb => hshutdown.trans hb)
    (fun hb => .inr (hregistered.trans hb)) (fun hb => .inr ?_) ?_ hnext
  · rwa [hmanager]
  · rw [hregistered, hshutdown, hmanager]
    exact h.holds b

omit [DecidableEq τ] [DecidableEq β] in
theorem relies_afterRegister {startWorker : Bool}
    (h : s.frozen b ∨ (s.backends b).registered = true) :
    s.Relies (afterRegister b startWorker) := by
  cases startWorker <;> exact h

omit [DecidableEq τ] [DecidableEq β] in
theorem relies_leave {locked : Bool}
    (h : s.frozen b ∨ (s.backends b).registered = true) : s.Relies (leave b locked) := by
  cases locked <;> exact h

omit [DecidableEq β] in
theorem managers_setManagerState {manager : RegisteringManager β} :
    ((s.setManagerState m manager).setPc t next).managers m = manager := by
  simp only [ConsoleRegistry.setPc, ConsoleRegistry.setManagerState, Function.update_self]

theorem addBackend_spec (manager : RegisteringManager β) (b : β) (startWorker : Bool) :
    (manager.addBackend b startWorker).backends = manager.backends.insert b ∧
      (manager.addBackend b startWorker).stopRequested = manager.stopRequested := by
  cases startWorker <;> exact ⟨rfl, rfl⟩

omit [DecidableEq β] in
theorem add_inv {startWorker : Bool} (h : s.Inv) : (s.add t b startWorker).Inv := by
  unfold add
  split
  next m hm =>
    obtain ⟨-, hrunning⟩ := Option.filter_eq_some_iff.mp hm
    have hrunning' : (s.managers m).stopRequested = false := by simpa using hrunning
    exact h.move rfl rfl (Nat.le_refl _) (fun k hk => h.created k (.inr hk)) h.lost rfl
      hrunning'
  next =>
    -- a manager that has not been created has not been stopped
    have hrunning : (s.managers s.created).stopRequested = false := by
      rw [Bool.eq_false_iff]
      exact fun hstopped => Nat.lt_irrefl _ (h.created _ (.inl hstopped))
    refine h.move rfl rfl (Nat.le_succ _) (fun k hk => ?_) h.lost rfl hrunning
    cases hk
    exact Nat.lt_succ_self _

theorem insert_inv {startWorker : Bool} (h : s.Inv)
    (hrunning : (s.managers m).stopRequested = false) :
    ((s.setManagerState m ((s.managers m).addBackend b startWorker)).setPc t
      (.leaveFactory b startWorker m)).Inv := by
  obtain ⟨hinserted, hstop⟩ := addBackend_spec (s.managers m) b startWorker
  refine h.setManagerState (fun hk => h.created m (.inl (hstop ▸ hk)))
    (fun d hd => .inr ⟨?_, hstop.trans hd.running⟩) (fun _ _ _ _ hk => hstop.trans hk)
    (.inr ⟨?_, ?_⟩)
  · rw [hinserted]
    exact List.mem_insert_of_mem hd.inserted
  · rw [managers_setManagerState, hinserted]
    exact List.mem_insert_self
  · rw [managers_setManagerState, hstop]
    exact hrunning

/-- The backend that leaves is frozen, and another one that stays keeps the
manager from being stopped. -/
theorem removeBackend_inv (h : s.Inv) (hfrozen : s.frozen b) (hcreated : m < s.created)
    (hok : ((s.managers m).removeBackend b).2 = true →
      ∀ u b' startWorker, s.pc u ≠ .insert b' startWorker m) :
    ((s.setManagerState m ((s.managers m).removeBackend b).1).setPc t
      (if ((s.managers m).removeBackend b).2 then .reset b m else .clearManager b)).Inv := by
  refine h.setManagerState (fun _ => hcreated) (fun d hd => ?_) (fun u d sw hu hk => ?_) ?_
  · by_cases hdb : d = b
    · exact .inl (hdb ▸ hfrozen)
    · have hleft : d ∈ (s.managers m).backends.filter (· ≠ b) :=
        List.mem_filter.mpr ⟨hd.inserted, decide_eq_true hdb⟩
      refine .inr ⟨hleft, ?_⟩
      simp only [RegisteringManager.removeBackend, hd.running, Bool.false_or,
        decide_eq_false_iff_not]
      exact List.ne_nil_of_mem hleft
  · cases hempty : ((s.managers m).removeBackend b).2 with
    | true => exact absurd hu (hok hempty u d sw)
    | false =>
        change ((s.managers m).stopRequested || ((s.managers m).removeBackend b).2) = false
        rw [hk, hempty]
        rfl
  · split
    next => exact hfrozen
    next => exact hfrozen

omit [DecidableEq β] in
theorem push_inv {manager : Option Nat} (h : s.Inv) (hpc : s.pc t = .push b manager) :
    (s.push t b manager).Inv := by
  have hrelies := h.relies t
  rw [hpc] at hrelies
  unfold push
  split
  next => exact h.setPc trivial
  next hdropped =>
    have hfrozen : s.frozen b := by
      cases manager with
      | none => exact hrelies
      | some m =>
          refine hrelies.resolve_right fun hbound => hdropped ?_
          rw [Option.any_some, hbound.running]
          rfl
    refine h.move rfl rfl (Nat.le_refl _) (fun k hk => h.created k (.inr hk))
      (fun d hd => ?_) rfl trivial
    rcases List.mem_cons.mp hd with rfl | hd
    · exact hfrozen
    · exact h.lost d hd

theorem stepThread_inv {redirected : Bool} (h : s.Inv)
    (hok : s.NoCrossing (.step t redirected))
    (hstep : s.stepThread t redirected = some s') : s'.Inv := by
  have hrelies := h.relies t
  unfold stepThread at hstep
  unfold NoCrossing at hok
  dsimp only at hok
  cases hpc : s.pc t with
  | idle =>
      rw [hpc] at hstep
      contradiction
  | display b tty =>
      rw [hpc] at hstep
      cases hstep
      refine h.setPc ?_
      split <;> trivial
  | load b startWorker =>
      rw [hpc] at hstep
      cases hstep
      refine h.setPc ?_
      split
      next hregistered => split <;> exact .inr hregistered
      next => trivial
  | lock b startWorker =>
      rw [hpc] at hstep
      dsimp only at hstep
      split at hstep
      next => contradiction
      next =>
        cases hstep
        exact h.setBackendRest rfl rfl rfl trivial
  | reload b startWorker =>
      rw [hpc] at hstep
      cases hstep
      refine h.setPc ?_
      split
      next hregistered => split <;> exact .inr hregistered
      next => trivial
  | request b locked =>
      rw [hpc] at hstep hrelies
      cases hstep
      refine h.setBackendRest rfl rfl rfl ?_
      split
      next => exact relies_leave (by rwa [frozen, backends_setBackend])
      next =>
        change frozen _ b ∨ _
        rwa [frozen, backends_setBackend]
  | findManager b locked =>
      rw [hpc] at hstep hrelies
      cases hstep
      refine h.setPc ?_
      split
      next => exact relies_leave hrelies
      next => exact hrelies
  | startWorker b locked m =>
      rw [hpc] at hstep hrelies
      cases hstep
      refine h.setManagerState (fun hk => h.created m (.inl hk))
        (fun d hd => .inr ⟨hd.inserted, hd.running⟩) (fun _ _ _ _ hk => hk) ?_
      exact relies_leave hrelies
  | add b startWorker =>
      rw [hpc] at hstep
      dsimp only at hstep
      split at hstep
      next => contradiction
      next =>
        cases hstep
        exact add_inv h
  | insert b startWorker m =>
      rw [hpc] at hstep hrelies
      cases hstep
      exact insert_inv h hrelies
  | leaveFactory b startWorker m =>
      rw [hpc] at hstep hrelies
      cases hstep
      exact h.move rfl rfl (Nat.le_refl _) (fun k hk => h.created k (.inr hk)) h.lost rfl
        (hrelies.imp_right fun hb => ⟨hb.inserted, hb.running⟩)
  | setManager b startWorker m =>
      rw [hpc] at hstep hrelies
      cases hstep
      refine h.setBackend id .inr (fun _ => hrelies.imp_right fun hb => ⟨m, rfl, hb⟩)
        (hrelies.imp_right fun hb => .inr ⟨m, rfl, hb⟩) ?_
      rcases hrelies with hb | hb
      · left
        rwa [frozen, backends_setBackend]
      · refine .inr ⟨m, ?_, hb.inserted, hb.running⟩
        rw [backends_setBackend]
  | storeRequested b startWorker =>
      rw [hpc] at hstep hrelies
      cases hstep
      refine h.setBackendRest rfl rfl rfl ?_
      rcases hrelies with hb | ⟨m, hm, hb⟩
      · left
        rwa [frozen, backends_setBackend]
      · refine .inr ⟨m, ?_, hb.inserted, hb.running⟩
        rwa [backends_setBackend]
  | storeRegistered b startWorker =>
      rw [hpc] at hstep hrelies
      cases hstep
      refine h.setBackend id (fun _ => .inr rfl) .inr (hrelies.imp_right .inr) ?_
      right
      rw [backends_setBackend]
  | unlock b startWorker =>
      rw [hpc] at hstep hrelies
      cases hstep
      refine h.setBackendRest rfl rfl rfl (relies_afterRegister ?_)
      rwa [frozen, backends_setBackend]
  | redirect b =>
      rw [hpc] at hstep hrelies
      cases hstep
      refine h.setPc ?_
      split <;> trivial
  | getManager b =>
      rw [hpc] at hstep hrelies
      cases hstep
      refine h.setPc ?_
      have hholds : s.frozen b ∨ s.Holds b := by
        rcases hrelies with hb | hb
        · exact .inl hb
        · refine (h.holds b).imp_right fun hholds => hholds.resolve_left ?_
          rw [hb]
          nofun
      rcases hholds with hb | ⟨m, hm, hb⟩
      · cases hmanager : (s.backends b).manager with
        | none => exact hb
        | some m => exact .inl hb
      · rw [hm]
        exact .inr ⟨hb.inserted, hb.running⟩
  | push b manager =>
      rw [hpc] at hstep
      cases hstep
      exact push_inv h hpc
  | freeze b =>
      rw [hpc] at hstep
      cases hstep
      refine h.setBackend (fun _ => rfl) (fun _ => .inl rfl) (fun _ => .inl rfl) (.inl rfl) ?_
      change (((s.setBackend b _).setPc t _).backends b).shutdownFlag = true
      rw [backends_setBackend]
  | exchange b =>
      rw [hpc] at hstep hrelies
      cases hstep
      refine h.setBackend id (fun _ => .inl hrelies) .inr (.inl hrelies) ?_
      split
      next =>
        change (((s.setBackend b _).setPc t _).backends b).shutdownFlag = true
        rw [backends_setBackend]
        exact hrelies
      next => trivial
  | remove b =>
      rw [hpc] at hstep hrelies
      dsimp only at hstep
      split at hstep
      next => contradiction
      next =>
        cases hstep
        refine h.setPc ?_
        split
        next => exact hrelies
        next m hm => exact ⟨hrelies, h.created m (.inr hm)⟩
  | removeBackend b m =>
      rw [hpc] at hstep hrelies hok
      cases hstep
      exact removeBackend_inv h hrelies.1 hrelies.2 hok
  | reset b m =>
      rw [hpc] at hstep hrelies
      dsimp only at hstep
      split at hstep
      next => contradiction
      next =>
        cases hstep
        refine h.move rfl rfl (Nat.le_refl _) (fun k hk => ?_) h.lost rfl hrelies
        dsimp only [ConsoleRegistry.setPc] at hk
        split at hk
        next => contradiction
        next => exact h.created k (.inr hk)
  | clearManager b =>
      rw [hpc] at hstep hrelies
      cases hstep
      refine h.setBackend id .inr (fun _ => .inl hrelies) (.inl hrelies) ?_
      change (((s.setBackend b _).setPc t _).backends b).shutdownFlag = true
      rw [backends_setBackend]
      exact hrelies
  | clearRequested b =>
      rw [hpc] at hstep
      cases hstep
      exact h.setBackendRest rfl rfl rfl trivial

theorem step_inv {a : RegistrationStep τ β} (h : s.Inv) (hok : s.NoCrossing a)
    (hstep : step s a = some s') : s'.Inv := by
  cases a with
  | call t call =>
      simp only [step] at hstep
      split at hstep
      next =>
        cases hstep
        cases call <;> exact h.setPc trivial
      next => contradiction
  | step t redirected => exact stepThread_inv h hok hstep

/-- While a backend is not frozen, it is registered only with a manager that has
not been told to stop, and none of its records is dropped for want of one. -/
theorem registered_running (hrun : Run step NoCrossing (initial : ConsoleRegistry τ β) s)
    (hfrozen : (s.backends b).shutdownFlag = false) :
    ((s.backends b).registered = true → ∃ m, (s.backends b).manager = some m ∧
      (s.managers m).stopRequested = false) ∧ b ∉ s.lost := by
  have hinv : s.Inv := hrun.invariant
    (fun _ _ _ hi hok hstep => step_inv hi hok hstep) initial_inv
  have hnot : ¬ s.frozen b := by rw [frozen, hfrozen]; nofun
  refine ⟨fun hregistered => ?_, fun hlost => hnot (hinv.lost b hlost)⟩
  rcases hinv.holds b with hb | hb | ⟨m, hm, hb⟩
  · exact absurd hb hnot
  · rw [hregistered] at hb
    contradiction
  · exact ⟨m, hm, hb.running⟩

end Steps

instance [Fintype τ] [Fintype β] (s : ConsoleRegistry τ β) (a : RegistrationStep τ β) :
    Decidable (s.NoCrossing a) := by
  unfold NoCrossing
  split
  · split <;> infer_instance
  · infer_instance

/-- `n` steps of a thread. -/
def steps (t : Bool) (n : Nat) : List (RegistrationStep Bool Bool) :=
  List.replicate n (.step t false)

/-- A backend prints a record, and then another one does so. -/
def displayBoth : List (RegistrationStep Bool Bool) :=
  .call false (.display false true) :: steps false 13 ++
    .call true (.display true true) :: steps true 13

theorem registered_running_both :
    ∃ s : ConsoleRegistry Bool Bool, Run step NoCrossing initial s ∧
      (s.backends true).shutdownFlag = false ∧ (s.backends true).registered = true ∧
      ((s.backends true).registered = true → ∃ m, (s.backends true).manager = some m ∧
        (s.managers m).stopRequested = false) ∧ true ∉ s.lost := by
  obtain ⟨s, hrun, hcheck⟩ := exists_run_of_exec step NoCrossing
    (initial : ConsoleRegistry Bool Bool) displayBoth
    (fun s => !(s.backends true).shutdownFlag && (s.backends true).registered)
    (by decide +kernel)
  rw [Bool.and_eq_true, Bool.not_eq_true'] at hcheck
  exact ⟨s, hrun, hcheck.1, hcheck.2, registered_running hrun hcheck.1⟩

/-- The only backend is frozen while another one registers: the manager is
stopped after it has been found running and before the other one is inserted. -/
def freezeWhileAdding : List (RegistrationStep Bool Bool) :=
  .call false (.display false true) :: steps false 13 ++
    .call false (.freeze false) :: steps false 3 ++
    .call true (.display true true) :: steps true 5 ++ steps false 1 ++ steps true 8

/-- A backend is registered with a manager that is stopping, and its record is
dropped. -/
theorem registered_stopping :
    ∃ s : ConsoleRegistry Bool Bool, Reachable step initial s ∧
      (s.backends true).shutdownFlag = false ∧ (s.backends true).registered = true ∧
      (s.backends true).manager = some 0 ∧ (s.managers 0).stopRequested = true ∧
      true ∈ s.lost := by
  obtain ⟨s, hreachable, hcheck⟩ := exists_reachable_of_exec step
    (initial : ConsoleRegistry Bool Bool) freezeWhileAdding
    (fun s => !(s.backends true).shutdownFlag && (s.backends true).registered &&
      (s.backends true).manager = some 0 && (s.managers 0).stopRequested &&
      s.lost.contains true) (by decide +kernel)
  simp only [Bool.and_eq_true, Bool.not_eq_true', decide_eq_true_eq,
    List.contains_eq_mem] at hcheck
  obtain ⟨⟨⟨⟨hfrozen, hregistered⟩, hmanager⟩, hstop⟩, hlost⟩ := hcheck
  exact ⟨s, hreachable, hfrozen, hregistered, hmanager, hstop, hlost⟩

end ConsoleRegistry
end Logme
