import Logme.FileBackend
import Logme.Library.StepSystem
import Mathlib.Logic.Function.Basic

/-!
# Runs of completed operations

All file backends of a logger, the manager that the factory holds, and the
operations on them, each run to completion before the next.  The question is
whether data can be queued in a backend that nobody will wake up: the wake-up
protocol is spread over the flush time and the registration of the backend
and the active list of the manager.
-/

namespace Logme

open StepSystem

structure Process (ι φ : Type) where
  backend : ι → FileBackend φ
  manager : Option (FileManager ι)

inductive Operation (ι : Type) where
  | display (b : ι) (key : Option ObfKey) (text : List UInt8) (clock : Clock)
      (a : Allocation)
  | appendString (b : ι) (key : Option ObfKey) (text : List UInt8)
      (clock : Clock) (a : Allocation)
  | flush (b : ι) (alloc : Nat → Allocation)
  | freeze (b : ι)
  | managementRound (now later : Nat) (a : Allocation)
  | notify (b : ι) (time : Nat)

namespace Process

variable {ι φ : Type} [DecidableEq ι]

omit [DecidableEq ι] in
/-- Before any operation; the factory has no manager yet. -/
def initial (async : ι → Bool) (flushAfter queueSizeLimit : ι → Nat)
    (nonce : ι → NonceGen) (options : ι → Options)
    (a : ι → Allocation) (io : ι → φ) : Process ι φ where
  backend := fun b =>
    .new (async b) (flushAfter b) (queueSizeLimit b) (nonce b)
      (.new (options b) (a b)) (io b)
  manager := none

def setBackend (s : Process ι φ) (b : ι) (backend : FileBackend φ) :
    Process ι φ :=
  { s with backend := Function.update s.backend b backend }

omit [DecidableEq ι] in
def flushTimes (s : Process ι φ) (b : ι) : Nat := (s.backend b).flushTime

/-- `FileManagerFactory::Notify`. -/
def notify (s : Process ι φ) (b : ι) (time : Nat) : Process ι φ :=
  match s.manager with
  | none => s
  | some m =>
      { s with
        manager :=
          some (m.notify s.flushTimes (s.backend b).registered b time) }

/-- The end of an operation of one backend. -/
def settle (s : Process ι φ) (b : ι) (backend : FileBackend φ)
    (request : Option Nat) : Process ι φ :=
  match request with
  | none => s.setBackend b backend
  | some time => (s.setBackend b backend).notify b time

omit [DecidableEq ι] in
/-- The manager that `FileManagerFactory::Add` uses: one that has stopped is
replaced. -/
def managerForAdd (s : Process ι φ) : FileManager ι :=
  match s.manager with
  | none => .new
  | some m => if m.stopRequested then .new else m

def registerAsync (s : Process ι φ) (b : ι) : Process ι φ :=
  if (s.backend b).registered then s
  else
    { s.setBackend b { s.backend b with registered := true } with
      manager := some (s.managerForAdd.addBackend b) }

def append (dev : FileDevice φ) (s : Process ι φ) (b : ι)
    (key : Option ObfKey) (text : List UInt8) (clock : Clock)
    (a : Allocation) : Process ι φ :=
  let o := (s.backend b).appendObfuscated dev key text clock a
  s.settle b o.backend o.notify

/-- `Display` and `AppendString` do nothing on a closed or frozen backend. -/
def refuses (dev : FileDevice φ) (b : FileBackend φ) : Bool :=
  !dev.isOpen b.io || b.shutdownFlag

def enter (s : Process ι φ) (b : ι) : Process ι φ :=
  if (s.backend b).async then s.registerAsync b else s

def display (dev : FileDevice φ) (s : Process ι φ) (b : ι)
    (key : Option ObfKey) (text : List UInt8) (clock : Clock)
    (a : Allocation) : Process ι φ :=
  if refuses dev (s.backend b) then s
  else
    let s := s.enter b
    match dev.rotateIfDue (s.backend b).io with
    | (false, io) => s.setBackend b { s.backend b with io := io }
    | (true, io) =>
        (s.setBackend b { s.backend b with io := io }).append dev b key text
          clock a

def appendString (dev : FileDevice φ) (s : Process ι φ) (b : ι)
    (key : Option ObfKey) (text : List UInt8) (clock : Clock)
    (a : Allocation) : Process ι φ :=
  if refuses dev (s.backend b) then s
  else (s.enter b).append dev b key text clock a

/-- A run of the worker inside a round, and what the manager does after it. -/
def runWorker (dev : FileDevice φ) (s : Process ι φ) (m : FileManager ι)
    (b : ι) (now later : Nat) (a : Allocation) : Process ι φ :=
  match (s.backend b).workerFunc dev now later a with
  | (true, backend) =>
      let s := s.setBackend b backend
      if backend.flushTime = 0 then
        { s with manager := some (m.deactivateBackend b) }
      else
        { s with
          manager := some (m.activateBackend s.flushTimes b backend.flushTime) }
  | (false, backend) =>
      let removed := { backend with registered := false, flushTime := 0 }
      { s.setBackend b (removed.onShutdown dev a) with
        manager := some (m.removeBackendLocked b).stopIfEmpty }

/-- One round of `ManagementThread`. -/
def managementRound (dev : FileDevice φ) (s : Process ι φ)
    (now later : Nat) (a : Allocation) : Process ι φ :=
  match s.manager with
  | none => s
  | some m =>
      if m.stopRequested then s
      else
        match m.decideRound s.flushTimes now with
        | (.select b early, m) =>
            let s :=
              if early then
                s.setBackend b { s.backend b with flushTime := RIGHT_NOW }
              else s
            if b ∈ m.backends then
              s.runWorker dev (m.deactivateBackend b) b now later a
            else { s with manager := some (m.deactivateBackend b) }
        | (_, m) => { s with manager := some m }

def step (dev : FileDevice φ) (s : Process ι φ) :
    Operation ι → Option (Process ι φ)
  | .display b key text clock a => some (s.display dev b key text clock a)
  | .appendString b key text clock a =>
      some (s.appendString dev b key text clock a)
  | .flush b alloc =>
      let r := (s.backend b).flush alloc
      some (s.settle b r.1 r.2)
  | .freeze b =>
      let r := (s.backend b).freeze
      some (s.settle b r.1 r.2)
  | .managementRound now later a =>
      some (s.managementRound dev now later a)
  | .notify b time => some (s.notify b time)

omit [DecidableEq ι] in
/-- The backend's queued data is due at some time and the manager knows. -/
def NotStranded (s : Process ι φ) (b : ι) : Prop :=
  (s.backend b).registered = true → (s.backend b).queuedBytes ≠ 0 →
    (s.backend b).flushTime ≠ 0 ∧
      ∃ m, s.manager = some m ∧ b ∈ m.active

omit [DecidableEq ι] in
/-- `Flush` is not called on a backend that the manager does not know yet,
and no deadline is 0 modulo `2 ^ 64`. -/
def FlushesRegistered (s : Process ι φ) : Operation ι → Prop
  | .flush b _ =>
      (s.backend b).async = true →
        (s.backend b).registered = true ∨ (s.backend b).shutdownFlag = true
  | .display b _ _ clock _ =>
      (s.backend b).flushTime = 0 → (s.backend b).deadline clock.second ≠ 0
  | .appendString b _ _ clock _ =>
      (s.backend b).flushTime = 0 → (s.backend b).deadline clock.second ≠ 0
  | _ => True

instance (s : Process ι φ) (op : Operation ι) :
    Decidable (s.FlushesRegistered op) :=
  match op with
  | .flush b _ =>
      inferInstanceAs (Decidable ((s.backend b).async = true →
        (s.backend b).registered = true ∨ (s.backend b).shutdownFlag = true))
  | .display b _ _ clock _ =>
      inferInstanceAs (Decidable ((s.backend b).flushTime = 0 →
        (s.backend b).deadline clock.second ≠ 0))
  | .appendString b _ _ clock _ =>
      inferInstanceAs (Decidable ((s.backend b).flushTime = 0 →
        (s.backend b).deadline clock.second ≠ 0))
  | .freeze _ => .isTrue trivial
  | .managementRound _ _ _ => .isTrue trivial
  | .notify _ _ => .isTrue trivial

/-! ## The invariant -/

structure Inv (s : Process ι φ) : Prop where
  accounted : ∀ b, (s.backend b).Accounted
  served : ∀ b, (s.backend b).registered = true → (s.backend b).Served
  untouched : ∀ b, (s.backend b).registered = false →
    (s.backend b).shutdownFlag = false →
      (s.backend b).flushTime = 0 ∧ (s.backend b).queuedBytes = 0
  known : ∀ b, (s.backend b).registered = true →
    ∃ m, s.manager = some m ∧ b ∈ m.backends ∧ m.stopRequested = false
  linked : ∀ b, (s.backend b).registered = true →
    (s.backend b).flushTime ≠ 0 → ∃ m, s.manager = some m ∧ b ∈ m.active

omit [DecidableEq ι] in
theorem initial_inv (async : ι → Bool) (flushAfter queueSizeLimit : ι → Nat)
    (nonce : ι → NonceGen) (options : ι → Options) (a : ι → Allocation)
    (io : ι → φ) :
    (initial async flushAfter queueSizeLimit nonce options a io).Inv where
  accounted := fun b => by
    constructor
    · simp [initial, FileBackend.new]
    · exact BufferQueue.new_flagExact (options b) (a b)
  served := by simp [initial, FileBackend.new]
  untouched := by simp [initial, FileBackend.new]
  known := by simp [initial, FileBackend.new]
  linked := by simp [initial, FileBackend.new]

/-- One backend and the manager change; the invariant is kept when it is
kept for this backend and the manager loses no other one. -/
theorem Inv.update {s : Process ι φ} (hinv : s.Inv) {b : ι}
    (backend : FileBackend φ) (manager : Option (FileManager ι))
    (hacc : backend.Accounted)
    (hserved : backend.registered = true → backend.Served)
    (huntouched : backend.registered = false →
      backend.shutdownFlag = false →
        backend.flushTime = 0 ∧ backend.queuedBytes = 0)
    (hknown : backend.registered = true →
      ∃ m, manager = some m ∧ b ∈ m.backends ∧ m.stopRequested = false)
    (hlinked : backend.registered = true → backend.flushTime ≠ 0 →
      ∃ m, manager = some m ∧ b ∈ m.active)
    (hothers : ∀ m, s.manager = some m → ∀ other, other ≠ b →
      (s.backend other).registered = true → other ∈ m.backends →
        m.stopRequested = false →
          ∃ m', manager = some m' ∧ other ∈ m'.backends ∧
            m'.stopRequested = false ∧
              ((s.backend other).flushTime ≠ 0 → other ∈ m.active →
                other ∈ m'.active)) :
    Inv { backend := Function.update s.backend b backend
          manager := manager } := by
  have hkeep : ∀ other, other ≠ b →
      Function.update s.backend b backend other = s.backend other :=
    fun other hne => Function.update_of_ne hne _ _
  constructor
  · intro other
    by_cases hother : other = b
    · subst other
      simpa using hacc
    · simpa [hkeep other hother] using hinv.accounted other
  · intro other
    by_cases hother : other = b
    · subst other
      simpa using hserved
    · simpa [hkeep other hother] using hinv.served other
  · intro other
    by_cases hother : other = b
    · subst other
      simpa using huntouched
    · simpa [hkeep other hother] using hinv.untouched other
  · intro other
    by_cases hother : other = b
    · subst other
      simpa using hknown
    · dsimp only
      rw [hkeep other hother]
      intro hregistered
      rcases hinv.known other hregistered with ⟨m, hm, hmem, hstop⟩
      rcases hothers m hm other hother hregistered hmem hstop with
        ⟨m', hm', hmem', hstop', -⟩
      exact ⟨m', hm', hmem', hstop'⟩
  · intro other
    by_cases hother : other = b
    · subst other
      simpa using hlinked
    · dsimp only
      rw [hkeep other hother]
      intro hregistered hflush
      rcases hinv.known other hregistered with ⟨m, hm, hmem, hstop⟩
      rcases hinv.linked other hregistered hflush with ⟨m₀, hm₀, hactive⟩
      rw [hm] at hm₀
      simp only [Option.some.injEq] at hm₀
      subst m₀
      rcases hothers m hm other hother hregistered hmem hstop with
        ⟨m', hm', -, -, hkeepActive⟩
      exact ⟨m', hm', hkeepActive hflush hactive⟩

omit [DecidableEq ι] in
/-- The manager stays as it is. -/
theorem keeps_others {s : Process ι φ} {b : ι} :
    ∀ m, s.manager = some m → ∀ other, other ≠ b →
      (s.backend other).registered = true → other ∈ m.backends →
        m.stopRequested = false →
          ∃ m', s.manager = some m' ∧ other ∈ m'.backends ∧
            m'.stopRequested = false ∧
              ((s.backend other).flushTime ≠ 0 → other ∈ m.active →
                other ∈ m'.active) :=
  fun m hm _ _ _ hmem hstop => ⟨m, hm, hmem, hstop, fun _ h => h⟩

/-! ## The caller operations -/

/-- An operation of a backend ends: a new flush time comes with a
notification, and the notification links a registered backend. -/
theorem Inv.settle {s : Process ι φ} (hinv : s.Inv) {b : ι}
    {backend : FileBackend φ} {request : Option Nat}
    (htrans : FileBackend.Transition (s.backend b) backend request)
    (hserved : backend.registered = true → backend.Served)
    (huntouched : backend.registered = false →
      backend.shutdownFlag = false →
        backend.flushTime = 0 ∧ backend.queuedBytes = 0) :
    (s.settle b backend request).Inv := by
  have hacc := htrans.accounted (hinv.accounted b)
  have hknown : backend.registered = true →
      ∃ m, s.manager = some m ∧ b ∈ m.backends ∧ m.stopRequested = false := by
    intro hregistered
    exact hinv.known b (htrans.registered ▸ hregistered)
  cases request with
  | none =>
      apply hinv.update _ _ hacc hserved huntouched hknown _ keeps_others
      intro hregistered hflush
      rw [htrans.quiet rfl] at hflush
      exact hinv.linked b (htrans.registered ▸ hregistered) hflush
  | some time =>
      rcases htrans.loud time rfl with ⟨htime, hflushTime⟩
      have hnotify : s.settle b backend (some time) =
          { backend := Function.update s.backend b backend
            manager := s.manager.map fun m =>
              m.notify (s.setBackend b backend).flushTimes
                backend.registered b time } := by
        unfold Process.settle Process.notify setBackend
        cases hm : s.manager with
        | none => simp
        | some m => simp
      rw [hnotify]
      apply hinv.update _ _ hacc hserved huntouched
      · intro hregistered
        rcases hknown hregistered with ⟨m, hm, hmem, hstop⟩
        rw [hm]
        refine ⟨_, rfl, by simpa using hmem, ?_⟩
        simpa using hstop
      · intro hregistered _
        rcases hknown hregistered with ⟨m, hm, -, -⟩
        rw [hm, hregistered]
        refine ⟨_, rfl, ?_⟩
        rw [FileManager.notify_active]
        exact (FileManager.mem_activateBackend htime).mpr (.inl rfl)
      · intro m hm other hne _ hmem hstop
        rw [hm]
        refine ⟨_, rfl, by simpa using hmem, by simpa using hstop, ?_⟩
        intro _ hactive
        cases hregistered : backend.registered with
        | false => simpa [FileManager.notify] using hactive
        | true =>
            rw [FileManager.notify_active]
            exact (FileManager.mem_activateBackend htime).mpr (.inr hactive)

/-- Only what the invariant does not mention changes in one backend. -/
theorem Inv.of_transition {s : Process ι φ} (hinv : s.Inv) {b : ι}
    {backend : FileBackend φ}
    (htrans : FileBackend.Transition (s.backend b) backend none)
    (hqueued : backend.queuedBytes = (s.backend b).queuedBytes) :
    (s.setBackend b backend).Inv := by
  apply hinv.settle htrans
  · intro hregistered hne
    rw [htrans.quiet rfl]
    rw [hqueued] at hne
    exact hinv.served b (htrans.registered ▸ hregistered) hne
  · intro hregistered hshutdown
    rw [htrans.quiet rfl, hqueued]
    exact hinv.untouched b (htrans.registered ▸ hregistered)
      (htrans.shutdownFlag ▸ hshutdown)

omit [DecidableEq ι] in
theorem managerForAdd_spec {s : Process ι φ} (hinv : s.Inv) :
    s.managerForAdd.stopRequested = false ∧
      ∀ b, (s.backend b).registered = true →
        s.manager = some s.managerForAdd := by
  unfold managerForAdd
  cases hm : s.manager with
  | none =>
      refine ⟨rfl, ?_⟩
      intro b hregistered
      rcases hinv.known b hregistered with ⟨m, hm', -⟩
      simp [hm] at hm'
  | some m =>
      dsimp only
      split
      next hstop =>
        refine ⟨rfl, ?_⟩
        intro b hregistered
        rcases hinv.known b hregistered with ⟨m', hm', -, hrunning⟩
        rw [hm] at hm'
        simp only [Option.some.injEq] at hm'
        subst m'
        rw [hstop] at hrunning
        simp at hrunning
      next hstop =>
        exact ⟨by simpa using hstop, fun _ _ => rfl⟩

/-- Registration of a backend that no flush has touched. -/
theorem registerAsync_inv {s : Process ι φ} (hinv : s.Inv) {b : ι}
    (hshutdown : (s.backend b).shutdownFlag = false) :
    (s.registerAsync b).Inv := by
  unfold registerAsync
  split
  next => exact hinv
  next hregistered =>
    rw [Bool.not_eq_true] at hregistered
    rcases hinv.untouched b hregistered hshutdown with ⟨hidle, hempty⟩
    rcases managerForAdd_spec hinv with ⟨hrunning, hsame⟩
    have hacc := hinv.accounted b
    apply hinv.update (b := b) { s.backend b with registered := true }
      (some (s.managerForAdd.addBackend b))
    · exact ⟨hacc.exact, hacc.flagExact⟩
    · exact fun _ hne => absurd hempty hne
    · simp
    · intro _
      refine ⟨_, rfl, ?_, ?_⟩
      · unfold FileManager.addBackend
        split <;> simp_all
      · unfold FileManager.addBackend
        split <;> exact hrunning
    · exact fun _ hne => absurd hidle hne
    · intro m hm other hne hother hmem hstop
      have hm' := hsame other hother
      rw [hm] at hm'
      simp only [Option.some.injEq] at hm'
      rw [← hm']
      refine ⟨_, rfl, ?_, ?_, ?_⟩
      · unfold FileManager.addBackend
        split
        next => exact hmem
        next => simp [hmem]
      · unfold FileManager.addBackend
        split <;> exact hstop
      · intro _ hactive
        unfold FileManager.addBackend
        split <;> exact hactive

/-- What an append finds after `RegisterAsync`. -/
theorem enter_spec {s : Process ι φ} (hinv : s.Inv) {b : ι}
    (hshutdown : (s.backend b).shutdownFlag = false) :
    (s.enter b).Inv ∧
      ((s.enter b).backend b).async = (s.backend b).async ∧
      ((s.enter b).backend b).flushTime = (s.backend b).flushTime ∧
      ((s.enter b).backend b).flushAfter = (s.backend b).flushAfter ∧
      ((s.enter b).backend b).shutdownFlag = false ∧
      ((s.backend b).async = true →
        ((s.enter b).backend b).registered = true) := by
  unfold enter
  split
  next hasync =>
    refine ⟨registerAsync_inv hinv hshutdown, ?_⟩
    unfold registerAsync
    split
    next hregistered =>
      exact ⟨rfl, rfl, rfl, hshutdown, fun _ => hregistered⟩
    next => simp [setBackend, hshutdown]
  next hasync => exact ⟨hinv, rfl, rfl, rfl, hshutdown, fun h => absurd h hasync⟩

theorem append_inv {s : Process ι φ} (hinv : s.Inv) (dev : FileDevice φ)
    {b : ι} (key : Option ObfKey) (text : List UInt8) (clock : Clock)
    (a : Allocation)
    (hshutdown : (s.backend b).shutdownFlag = false)
    (hregistered :
      (s.backend b).async = true → (s.backend b).registered = true)
    (hdeadline : (s.backend b).flushTime = 0 →
      (s.backend b).deadline clock.second ≠ 0) :
    (s.append dev b key text clock a).Inv := by
  have hserved : (s.backend b).Served := by
    cases hb : (s.backend b).registered with
    | true => exact hinv.served b hb
    | false => exact fun hne => absurd (hinv.untouched b hb hshutdown).2 hne
  rcases FileBackend.appendObfuscated_transition dev (s.backend b) key text
      clock a hdeadline (hinv.accounted b) hserved with ⟨htrans, hserved'⟩
  apply hinv.settle htrans (fun _ => hserved')
  intro hunregistered _
  rw [htrans.registered] at hunregistered
  have hsync : (s.backend b).async = false := by
    by_contra hasync
    rw [hregistered (by simpa using hasync)] at hunregistered
    simp at hunregistered
  rcases FileBackend.appendObfuscated_sync dev key text clock a hsync with
    ⟨hflush, hqueued⟩
  rw [hflush, hqueued]
  exact hinv.untouched b hunregistered hshutdown

/-! ## The manager's operations -/

theorem notify_inv {s : Process ι φ} (hinv : s.Inv) (b : ι) (time : Nat) :
    (s.notify b time).Inv := by
  unfold Process.notify
  cases hm : s.manager with
  | none => exact hinv
  | some m =>
      have hmem : ∀ other, other ∈ m.active →
          other ∈ (m.notify s.flushTimes (s.backend b).registered b
            time).active := by
        intro other hother
        cases hregistered : (s.backend b).registered with
        | false => simpa [FileManager.notify] using hother
        | true =>
            rw [FileManager.notify_active]
            by_cases htime : time = 0
            · rw [FileManager.activateBackend, if_pos htime]
              exact hother
            · exact (FileManager.mem_activateBackend htime).mpr (.inr hother)
      constructor
      · exact hinv.accounted
      · exact hinv.served
      · exact hinv.untouched
      · intro other hregistered
        rcases hinv.known other hregistered with ⟨m', hm', hbackends, hstop⟩
        rw [hm] at hm'
        simp only [Option.some.injEq] at hm'
        subst m'
        exact ⟨_, rfl, by simpa using hbackends, by simpa using hstop⟩
      · intro other hregistered hflush
        rcases hinv.linked other hregistered hflush with ⟨m', hm', hactive⟩
        rw [hm] at hm'
        simp only [Option.some.injEq] at hm'
        subst m'
        exact ⟨_, rfl, hmem other hactive⟩

/-- The selected backend has run; the other backends stay linked. -/
theorem runWorker_inv {s : Process ι φ} (hinv : s.Inv) (dev : FileDevice φ)
    {m₀ m : FileManager ι} {b : ι} (now later : Nat) (a : Allocation)
    (hm₀ : s.manager = some m₀) (hpending : (s.backend b).flushTime ≠ 0)
    (hbackends : m.backends = m₀.backends) (hmem : b ∈ m₀.backends)
    (hstop : m.stopRequested = false)
    (hactive : ∀ other, other ≠ b → (s.backend other).flushTime ≠ 0 →
      other ∈ m₀.active → other ∈ m.active) :
    (s.runWorker dev m b now later a).Inv := by
  have hspec := FileBackend.workerFunc_spec dev (s.backend b) now later a
    (hinv.accounted b) hpending
  have herase : ∀ (l : List ι) (other : ι), other ≠ b → other ∈ l →
      other ∈ l.erase b := fun l other hne h => (List.mem_erase_of_ne hne).mpr h
  unfold runWorker
  cases hrun : (s.backend b).workerFunc dev now later a with
  | mk alive backend =>
      rw [hrun] at hspec
      rcases hspec with
        ⟨halive, -, hregistered, hshutdown, hacc, hserved⟩
      dsimp only at halive hregistered hshutdown hacc hserved
      cases alive with
      | true =>
          have hflag : (s.backend b).shutdownFlag = false := by
            simpa using halive.symm
          have hknown : (s.backend b).registered = true := by
            by_contra hunregistered
            rw [Bool.not_eq_true] at hunregistered
            exact hpending (hinv.untouched b hunregistered hflag).1
          dsimp only
          split
          next hidle =>
            apply hinv.update (b := b) backend _ hacc
              (fun _ => hserved)
            · intro hunregistered
              rw [hregistered, hknown] at hunregistered
              simp at hunregistered
            · intro _
              exact ⟨_, rfl, by
                simpa [FileManager.deactivateBackend, hbackends] using hmem,
                hstop⟩
            · exact fun _ hne => absurd hidle hne
            · intro m' hm' other hne hother hin hrunning
              rw [hm₀] at hm'
              simp only [Option.some.injEq] at hm'
              subst m'
              refine ⟨_, rfl, ?_, hstop, ?_⟩
              · simpa [FileManager.deactivateBackend, hbackends] using hin
              · intro hflush hlinked
                exact herase _ _ hne (hactive other hne hflush hlinked)
          next hbusy =>
            apply hinv.update (b := b) backend _ hacc
              (fun _ => hserved)
            · intro hunregistered
              rw [hregistered, hknown] at hunregistered
              simp at hunregistered
            · intro _
              refine ⟨_, rfl, by simpa [hbackends] using hmem, ?_⟩
              unfold FileManager.activateBackend
              split <;> exact hstop
            · intro _ _
              exact ⟨_, rfl,
                (FileManager.mem_activateBackend hbusy).mpr (.inl rfl)⟩
            · intro m' hm' other hne hother hin hrunning
              rw [hm₀] at hm'
              simp only [Option.some.injEq] at hm'
              subst m'
              refine ⟨_, rfl, by simpa [hbackends] using hin, ?_, ?_⟩
              · unfold FileManager.activateBackend
                split <;> exact hstop
              · intro hflush hlinked
                exact (FileManager.mem_activateBackend hbusy).mpr
                  (.inr (hactive other hne hflush hlinked))
      | false =>
          have hflag : (s.backend b).shutdownFlag = true := by
            simpa using halive.symm
          have hdrained := FileBackend.onShutdownLoop_drained dev a 4
            { backend with registered := false, flushTime := 0 }
          dsimp only
          apply hinv.update (b := b)
          · exact hdrained.accounted ⟨hacc.exact, hacc.flagExact⟩
          · intro hregistered'
            rw [FileBackend.onShutdown, hdrained.registered] at hregistered'
            simp at hregistered'
          · intro _ hshutdown'
            rw [FileBackend.onShutdown, hdrained.shutdownFlag] at hshutdown'
            dsimp only at hshutdown'
            rw [hshutdown, hflag] at hshutdown'
            simp at hshutdown'
          · intro hregistered'
            rw [FileBackend.onShutdown, hdrained.registered] at hregistered'
            simp at hregistered'
          · intro hregistered'
            rw [FileBackend.onShutdown, hdrained.registered] at hregistered'
            simp at hregistered'
          · intro m' hm' other hne hother hin hrunning
            rw [hm₀] at hm'
            simp only [Option.some.injEq] at hm'
            subst m'
            have hleft : other ∈ (m.removeBackendLocked b).backends := by
              simp only [FileManager.removeBackendLocked,
                FileManager.deactivateBackend, hbackends]
              exact herase _ _ hne hin
            have hrest : (m.removeBackendLocked b).stopIfEmpty =
                m.removeBackendLocked b := by
              unfold FileManager.stopIfEmpty
              rw [if_neg (List.ne_nil_of_mem hleft)]
            rw [hrest]
            refine ⟨_, rfl, hleft, hstop, ?_⟩
            intro hflush hlinked
            exact herase _ _ hne (hactive other hne hflush hlinked)

omit [DecidableEq ι] in
theorem Inv.replaceManager {s : Process ι φ} (hinv : s.Inv)
    {m : FileManager ι} (m' : FileManager ι) (hm : s.manager = some m)
    (hbackends : m'.backends = m.backends)
    (hstop : m'.stopRequested = m.stopRequested)
    (hactive : ∀ b, (s.backend b).registered = true →
      (s.backend b).flushTime ≠ 0 → b ∈ m.active → b ∈ m'.active) :
    Inv { s with manager := some m' } where
  accounted := hinv.accounted
  served := hinv.served
  untouched := hinv.untouched
  known := fun b hregistered => by
    rcases hinv.known b hregistered with ⟨m₀, hm₀, hmem, hrunning⟩
    rw [hm] at hm₀
    simp only [Option.some.injEq] at hm₀
    subst m₀
    exact ⟨m', rfl, by rwa [hbackends], by rwa [hstop]⟩
  linked := fun b hregistered hflush => by
    rcases hinv.linked b hregistered hflush with ⟨m₀, hm₀, hmem⟩
    rw [hm] at hm₀
    simp only [Option.some.injEq] at hm₀
    subst m₀
    exact ⟨m', rfl, hactive b hregistered hflush hmem⟩

/-- A head that is nearly due gets its flush time raised to `RIGHT_NOW`. -/
theorem early_inv {s : Process ι φ} (hinv : s.Inv) {b : ι}
    (hpending : (s.backend b).flushTime ≠ 0) :
    (s.setBackend b { s.backend b with flushTime := RIGHT_NOW }).Inv := by
  have hacc := hinv.accounted b
  apply hinv.update (b := b) { s.backend b with flushTime := RIGHT_NOW }
    s.manager
  · exact ⟨hacc.exact, hacc.flagExact⟩
  · exact fun _ _ => by simp [RIGHT_NOW]
  · exact fun hunregistered hshutdown =>
      absurd (hinv.untouched b hunregistered hshutdown).1 hpending
  · exact fun hregistered => hinv.known b hregistered
  · exact fun hregistered _ => hinv.linked b hregistered hpending
  · exact keeps_others

theorem managementRound_inv {s : Process ι φ} (hinv : s.Inv)
    (dev : FileDevice φ) (now later : Nat) (a : Allocation) :
    (s.managementRound dev now later a).Inv := by
  unfold managementRound
  cases hm : s.manager with
  | none => exact hinv
  | some m =>
      dsimp only
      split
      next => exact hinv
      next hstop =>
        rw [Bool.not_eq_true] at hstop
        have hframe := m.decideRound_frame s.flushTimes now
        cases hround : m.decideRound s.flushTimes now with
        | mk decision m' =>
            rw [hround] at hframe
            rcases hframe with ⟨hactive, hbackends, hstop'⟩
            dsimp only at hactive hbackends hstop'
            have hkeep : ∀ b, (s.backend b).flushTime ≠ 0 → b ∈ m.active →
                b ∈ m'.active := by
              intro b hflush hmem
              rw [hactive]
              exact FileManager.mem_dropStale hmem hflush
            cases decision with
            | wait =>
                exact hinv.replaceManager m' hm hbackends hstop'
                  fun b _ => hkeep b
            | waitUntil time =>
                exact hinv.replaceManager m' hm hbackends hstop'
                  fun b _ => hkeep b
            | select b early =>
                have hselect :
                    (m.decideRound s.flushTimes now).1 = .select b early := by
                  rw [hround]
                have hpending : (s.backend b).flushTime ≠ 0 :=
                  (FileManager.decideRound_select hselect).1
                let s' :=
                  if early then
                    s.setBackend b { s.backend b with flushTime := RIGHT_NOW }
                  else s
                have hinv' : s'.Inv := by
                  dsimp only [s']
                  split
                  next => exact early_inv hinv hpending
                  next => exact hinv
                have hmanager : s'.manager = some m := by
                  dsimp only [s']
                  split <;> exact hm
                have hothers : ∀ other, other ≠ b →
                    s'.backend other = s.backend other := by
                  intro other hne
                  dsimp only [s']
                  split
                  next => exact Function.update_of_ne hne _ _
                  next => rfl
                have hpending' : (s'.backend b).flushTime ≠ 0 := by
                  dsimp only [s']
                  split
                  next => simp [setBackend, RIGHT_NOW]
                  next => exact hpending
                have herase : ∀ other, other ≠ b →
                    (s'.backend other).flushTime ≠ 0 → other ∈ m.active →
                      other ∈ (m'.deactivateBackend b).active := by
                  intro other hne hflush hmem
                  rw [hothers other hne] at hflush
                  exact (List.mem_erase_of_ne hne).mpr (hkeep other hflush hmem)
                dsimp only
                split
                next hmem =>
                  exact runWorker_inv hinv' dev now later a hmanager hpending'
                    hbackends (by rwa [hbackends] at hmem)
                    (by simpa [FileManager.deactivateBackend, hstop'] using hstop)
                    herase
                next hmem =>
                  apply hinv'.replaceManager (m'.deactivateBackend b)
                    hmanager hbackends hstop'
                  intro other hregistered hflush hlinked
                  apply herase other _ hflush hlinked
                  rintro rfl
                  rcases hinv'.known other hregistered with ⟨m₀, hm₀, hin, -⟩
                  rw [hmanager] at hm₀
                  simp only [Option.some.injEq] at hm₀
                  subst m₀
                  exact hmem (by rwa [hbackends])

theorem freeze_inv {s : Process ι φ} (hinv : s.Inv) (b : ι) :
    (s.settle b (s.backend b).freeze.1 (s.backend b).freeze.2).Inv := by
  have hacc := hinv.accounted b
  rcases FileBackend.freeze_transition (s.backend b) with ⟨htrans, hserved⟩
  let frozen := s.setBackend b { s.backend b with shutdownFlag := true }
  have hfrozen : frozen.Inv := by
    apply hinv.update (b := b) { s.backend b with shutdownFlag := true }
      s.manager
    · exact ⟨hacc.exact, hacc.flagExact⟩
    · exact fun hregistered => hinv.served b hregistered
    · simp
    · exact fun hregistered => hinv.known b hregistered
    · exact fun hregistered hflush => hinv.linked b hregistered hflush
    · exact keeps_others
  have hsame : s.settle b (s.backend b).freeze.1 (s.backend b).freeze.2 =
      frozen.settle b (s.backend b).freeze.1 (s.backend b).freeze.2 := by
    unfold Process.settle frozen setBackend
    split <;> simp
  rw [hsame]
  apply hfrozen.settle
  · simpa [frozen, setBackend] using htrans
  · intro hregistered
    apply hserved
    apply hinv.served b
    rw [htrans.registered] at hregistered
    exact hregistered
  · intro _ hshutdown
    rw [htrans.shutdownFlag] at hshutdown
    simp at hshutdown

/-! ## No stranded data -/

/-- What one completed operation preserves. -/
theorem step_inv {s next : Process ι φ} {dev : FileDevice φ}
    {op : Operation ι} (hinv : s.Inv) (hallowed : s.FlushesRegistered op)
    (hstep : s.step dev op = some next) : next.Inv := by
  cases op with
  | display b key text clock a =>
      simp only [step, Option.some.injEq] at hstep
      subst next
      unfold display
      split
      next => exact hinv
      next hopen =>
        have hshutdown : (s.backend b).shutdownFlag = false := by
          simp [refuses] at hopen
          exact hopen.2
        rcases enter_spec hinv hshutdown with
          ⟨hentered, hasync, hflush, hafter, hshutdown', hregistered⟩
        have hio : ∀ io : φ,
            ((s.enter b).setBackend b
              { (s.enter b).backend b with io := io }).Inv := by
          intro io
          exact hentered.of_transition
            ⟨rfl, rfl, rfl, fun h => ⟨h.exact, h.flagExact⟩, fun _ => rfl,
              by simp⟩ rfl
        dsimp only
        split
        next => exact hio _
        next io _ =>
          apply append_inv (hio io) dev key text clock a
          · simpa [setBackend] using hshutdown'
          · simpa [setBackend, hasync] using hregistered
          · simp only [setBackend, Function.update_self, FileBackend.deadline]
            rw [hflush, hafter]
            exact hallowed
  | appendString b key text clock a =>
      simp only [step, Option.some.injEq] at hstep
      subst next
      unfold appendString
      split
      next => exact hinv
      next hopen =>
        have hshutdown : (s.backend b).shutdownFlag = false := by
          simp [refuses] at hopen
          exact hopen.2
        rcases enter_spec hinv hshutdown with
          ⟨hentered, hasync, hflush, hafter, hshutdown', hregistered⟩
        apply append_inv hentered dev key text clock a hshutdown'
        · rw [hasync]
          exact hregistered
        · unfold FileBackend.deadline
          rw [hflush, hafter]
          exact hallowed
  | flush b alloc =>
      simp only [step, Option.some.injEq] at hstep
      subst next
      rcases FileBackend.flush_transition (s.backend b) alloc with
        ⟨htrans, hserved⟩
      apply hinv.settle htrans
      · intro hregistered
        exact hserved (hinv.served b (htrans.registered ▸ hregistered))
      · intro hunregistered hshutdown
        rw [htrans.registered] at hunregistered
        rw [htrans.shutdownFlag] at hshutdown
        have hsync : (s.backend b).async = false := by
          by_contra hasync
          have hknown := hallowed (by simpa using hasync)
          rw [hunregistered, hshutdown] at hknown
          simp at hknown
        unfold FileBackend.flush
        rw [if_pos hsync]
        exact hinv.untouched b hunregistered hshutdown
  | freeze b =>
      simp only [step, Option.some.injEq] at hstep
      subst next
      exact freeze_inv hinv b
  | managementRound now later a =>
      simp only [step, Option.some.injEq] at hstep
      subst next
      exact managementRound_inv hinv dev now later a
  | notify b time =>
      simp only [step, Option.some.injEq] at hstep
      subst next
      exact notify_inv hinv b time

/-- In every run in which no backend is flushed before it is registered, the
manager has every backend with queued data in its active list. -/
theorem no_stranded_data (dev : FileDevice φ) (async : ι → Bool)
    (flushAfter queueSizeLimit : ι → Nat) (nonce : ι → NonceGen)
    (options : ι → Options) (a : ι → Allocation) (io : ι → φ)
    (s : Process ι φ)
    (hrun : Run (step dev) FlushesRegistered
      (initial async flushAfter queueSizeLimit nonce options a io) s)
    (b : ι) : s.NotStranded b := by
  have hinv : s.Inv :=
    hrun.invariant (fun _ _ _ hinv hok hstep => step_inv hinv hok hstep)
      (initial_inv async flushAfter queueSizeLimit nonce options a io)
  intro hregistered hqueued
  have hflush := hinv.served b hregistered hqueued
  exact ⟨hflush, hinv.linked b hregistered hflush⟩

/-! ## A flush before the first record -/

/-- A file on which every operation succeeds. -/
private def goodDevice : FileDevice Unit where
  isOpen := fun _ => true
  rotateIfDue := fun io => (true, io)
  applySizeLimit := fun io _ => (true, io)
  writeAll := fun io text => (some text.length, io)

private def oneBackend : Process Unit Unit :=
  initial (fun _ => true) (fun _ => 500) (fun _ => 25165824)
    (fun _ => nonceGenInit 0 0) (fun _ => { maxTotalBuffers := 128 })
    (fun _ => ⟨0, none⟩) (fun _ => ())

private def record : Operation Unit :=
  .display () none [0x61] ⟨1000, 1000⟩ ⟨1, none⟩

/-- A `Flush` of the empty backend leaves `RIGHT_NOW` behind, since the
manager ignores the notification of an unregistered backend; the first record
then finds a request pending and notifies nobody. -/
theorem flush_before_first_record_strands :
    ¬ ∀ (dev : FileDevice Unit) (async : Unit → Bool)
        (flushAfter queueSizeLimit : Unit → Nat) (nonce : Unit → NonceGen)
        (options : Unit → Options) (a : Unit → Allocation) (io : Unit → Unit)
        (s : Process Unit Unit),
      Reachable (step dev)
        (initial async flushAfter queueSizeLimit nonce options a io) s →
        ∀ b, s.NotStranded b := by
  intro hall
  rcases exists_reachable_of_exec (step goodDevice) oneBackend
      [.flush () fun n => ⟨n, none⟩, record]
      (fun s => (s.backend ()).registered &&
        decide ((s.backend ()).queuedBytes ≠ 0) &&
        s.manager.all fun m => m.active.isEmpty) (by decide) with
    ⟨s, hreach, hcheck⟩
  simp only [Bool.and_eq_true, decide_eq_true_eq] at hcheck
  rcases hcheck with ⟨⟨hregistered, hqueued⟩, hempty⟩
  rcases hall _ _ _ _ _ _ _ _ s hreach () hregistered hqueued with
    ⟨-, m, hm, hactive⟩
  rw [hm] at hempty
  simp at hempty
  simp [hempty] at hactive

/-- A record, a flush, and a run of the worker after the second record. -/
theorem no_stranded_data_two_records :
    ∃ s : Process Unit Unit,
      (s.backend ()).registered = true ∧ (s.backend ()).queuedBytes = 1 ∧
        s.NotStranded () := by
  rcases exists_run_of_exec (step goodDevice) FlushesRegistered
      oneBackend
      [record, .flush () fun n => ⟨n, none⟩,
        .managementRound 1001 1001 ⟨9, none⟩, record]
      (fun s => (s.backend ()).registered &&
        decide ((s.backend ()).queuedBytes = 1)) (by decide) with
    ⟨s, hrun, hcheck⟩
  simp only [Bool.and_eq_true, decide_eq_true_eq] at hcheck
  exact ⟨s, hcheck.1, hcheck.2,
    no_stranded_data goodDevice _ _ _ _ _ _ _ s hrun ()⟩

end Process

end Logme
