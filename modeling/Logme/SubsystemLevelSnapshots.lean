import Mathlib.Data.List.Nodup
import Mathlib.Logic.Function.Basic
import Logme.Library.StepSystem
import Logme.Library.Threads
import Logme.SubsystemLevels

/-!
# Reclamation of subsystem level snapshots

Lookups of a subsystem level read an immutable snapshot through the atomic
pointer `ActiveSubsystemLevelSnapshot`; updates work on the vector
`SubsystemLevels` under `DataLock`, publish a copy of it and free old copies
when more than `SUBSYSTEM_LEVEL_SNAPSHOT_LIMIT` are retained.  The system below
interleaves the atomic steps of any number of threads, each of them looking
up or updating levels.  The reader counter is a number without bound: a thread
adds at most 1 to it.

`latest` and `during` are history variables: the levels published last, and
for each thread the levels that were the latest at some moment of its current
or last lookup.
-/

namespace Logme

open StepSystem
open Threads (forall_update)

/-- A snapshot; `id` is the identity of the allocation, so that a pointer to a
freed snapshot is told from one to a new snapshot at the same address. -/
structure SubsystemLevelSnapshot where
  id : Nat
  levels : SubsystemLevels

inductive LevelUpdate where
  | set (sid : Nat) (level : Level)
  | remove (sid : Nat)
  | clear
  deriving DecidableEq

/-- The atomic operation that a thread performs next. -/
inductive SnapshotPc where
  | idle
  | looked (sid : Nat) (result : Option Level)
  | testActive (sid : Nat)
  | awaitReclamation (sid : Nat)
  | announce (sid : Nat)
  | checkReclamation (sid : Nat)
  | retreat (sid : Nat)
  | loadActive (sid : Nat)
  | search (sid : Nat) (snapshot : Option Nat)
  | release (sid : Nat) (result : Option Level)
  | readFreed
  | lock (change : LevelUpdate)
  | update (change : LevelUpdate)
  | publish
  | storeActive (snapshot : Nat)
  | testLimit
  | raiseReclamation
  | awaitReaders
  | loadRetained
  | clearSnapshots (active : Option Nat)
  | lowerReclamation
  | unlock
  deriving DecidableEq

/-- `GetSubsystemLevel` on given levels; subsystem 0 has no level. -/
def getSubsystemLevel (levels : SubsystemLevels) (sid : Nat) : Option Level :=
  if sid = 0 then none else levels.get sid

/-- `SUBSYSTEM_LEVEL_SNAPSHOT_LIMIT`. -/
def subsystemLevelSnapshotLimit : Nat := 64

structure SnapshotSystem (τ : Type) where
  subsystemLevels : SubsystemLevels
  snapshots : List SubsystemLevelSnapshot
  active : Option Nat
  reclamation : Bool
  readers : Nat
  dataLock : Option τ
  nextId : Nat
  pc : τ → SnapshotPc
  latest : SubsystemLevels
  during : τ → List SubsystemLevels

inductive SnapshotAction (τ : Type) where
  | lookup (t : τ) (sid : Nat)
  | change (t : τ) (change : LevelUpdate)
  | step (t : τ)

namespace SnapshotPc

/-- The thread is between two operations. -/
def resting : SnapshotPc → Bool
  | idle | looked .. => true
  | _ => false

/-- The thread is inside a lookup. -/
def looking : SnapshotPc → Bool
  | testActive _ | awaitReclamation _ | announce _ | checkReclamation _
  | retreat _ | loadActive _ | search .. | release .. => true
  | _ => false

/-- The thread is counted in `SubsystemLevelSnapshotReaders`. -/
def announced : SnapshotPc → Bool
  | checkReclamation _ | retreat _ | loadActive _ | search .. | release .. => true
  | _ => false

/-- The thread may use the active pointer. -/
def holding : SnapshotPc → Bool
  | loadActive _ | search .. => true
  | _ => false

def inLock : SnapshotPc → Bool
  | update _ | publish | storeActive _ | testLimit | raiseReclamation
  | awaitReaders | loadRetained | clearSnapshots _ | lowerReclamation
  | unlock => true
  | _ => false

/-- `SubsystemLevelSnapshotReclamation` is set by this thread. -/
def reclaiming : SnapshotPc → Bool
  | awaitReaders | loadRetained | clearSnapshots _ | lowerReclamation => true
  | _ => false

/-- The thread has seen no reader and may free snapshots. -/
def freeing : SnapshotPc → Bool
  | loadRetained | clearSnapshots _ | lowerReclamation => true
  | _ => false

end SnapshotPc

namespace SnapshotSystem

variable {τ : Type} [DecidableEq τ]

def initial : SnapshotSystem τ where
  subsystemLevels := []
  snapshots := []
  active := none
  reclamation := false
  readers := 0
  dataLock := none
  nextId := 0
  pc := fun _ => .idle
  latest := []
  during := fun _ => []

def setPc (s : SnapshotSystem τ) (t : τ) (pc : SnapshotPc) : SnapshotSystem τ :=
  { s with pc := Function.update s.pc t pc }

/-- A store to the active pointer publishes levels. -/
def store (s : SnapshotSystem τ) (active : Option Nat)
    (levels : SubsystemLevels) : SnapshotSystem τ :=
  { s with
    active := active
    latest := levels
    during := fun t =>
      if (s.pc t).looking then levels :: s.during t else s.during t }

/-- The update of the vector; `RemoveSubsystemLevel` returns without
publishing when there is nothing to remove. -/
def applyUpdate (s : SnapshotSystem τ) (t : τ) :
    LevelUpdate → SnapshotSystem τ
  | .set sid level =>
      ({ s with subsystemLevels := s.subsystemLevels.set sid level }).setPc t
        .publish
  | .remove sid =>
      match s.subsystemLevels.remove sid with
      | some levels => ({ s with subsystemLevels := levels }).setPc t .publish
      | none => s.setPc t .unlock
  | .clear => ({ s with subsystemLevels := [] }).setPc t .publish

/-- `PublishSubsystemLevelSnapshot` up to the store of a new pointer. -/
def publish (s : SnapshotSystem τ) (t : τ) : SnapshotSystem τ :=
  if s.subsystemLevels = [] then (s.store none []).setPc t .testLimit
  else
    ({ s with
        snapshots := s.snapshots.concat ⟨s.nextId, s.subsystemLevels⟩
        nextId := s.nextId + 1 }).setPc t (.storeActive s.nextId)

/-- The snapshots that `ReclaimSubsystemLevelSnapshots` keeps. -/
def kept (s : SnapshotSystem τ) (active : Option Nat) :
    List SubsystemLevelSnapshot :=
  match active with
  | none => []
  | some _ => s.snapshots.getLast?.toList

/-- The snapshot that a pointer points to, unless it has been freed. -/
def retained (s : SnapshotSystem τ) (id : Nat) :
    Option SubsystemLevelSnapshot :=
  s.snapshots.find? fun snapshot => snapshot.id == id

def stepThread (s : SnapshotSystem τ) (t : τ) : Option (SnapshotSystem τ) :=
  match s.pc t with
  | .idle | .looked .. | .readFreed => none
  | .testActive sid =>
      match s.active with
      | none => some (s.setPc t (.looked sid none))
      | some _ => some (s.setPc t (.awaitReclamation sid))
  | .awaitReclamation sid =>
      if s.reclamation then none else some (s.setPc t (.announce sid))
  | .announce sid =>
      some (({ s with readers := s.readers + 1 }).setPc t (.checkReclamation sid))
  | .checkReclamation sid =>
      if s.reclamation then some (s.setPc t (.retreat sid))
      else some (s.setPc t (.loadActive sid))
  | .retreat sid =>
      some (({ s with readers := s.readers - 1 }).setPc t (.awaitReclamation sid))
  | .loadActive sid => some (s.setPc t (.search sid s.active))
  | .search sid none => some (s.setPc t (.release sid none))
  | .search sid (some id) =>
      match s.retained id with
      | some snapshot =>
          some (s.setPc t (.release sid (getSubsystemLevel snapshot.levels sid)))
      | none => some (s.setPc t .readFreed)
  | .release sid result =>
      some (({ s with readers := s.readers - 1 }).setPc t (.looked sid result))
  | .lock change =>
      match s.dataLock with
      | none => some (({ s with dataLock := some t }).setPc t (.update change))
      | some _ => none
  | .update change => some (s.applyUpdate t change)
  | .publish => some (s.publish t)
  | .storeActive id =>
      some ((s.store (some id) s.subsystemLevels).setPc t .testLimit)
  | .testLimit =>
      if s.snapshots.length ≤ subsystemLevelSnapshotLimit then
        some (s.setPc t .unlock)
      else some (s.setPc t .raiseReclamation)
  | .raiseReclamation =>
      some (({ s with reclamation := true }).setPc t .awaitReaders)
  | .awaitReaders =>
      if s.readers ≠ 0 then none else some (s.setPc t .loadRetained)
  | .loadRetained => some (s.setPc t (.clearSnapshots s.active))
  | .clearSnapshots active =>
      some (({ s with snapshots := s.kept active }).setPc t .lowerReclamation)
  | .lowerReclamation =>
      some (({ s with reclamation := false }).setPc t .unlock)
  | .unlock => some (({ s with dataLock := none }).setPc t .idle)

/-- An update of subsystem 0 returns at once, as a lookup of it does. -/
def step (s : SnapshotSystem τ) : SnapshotAction τ → Option (SnapshotSystem τ)
  | .lookup t sid =>
      if (s.pc t).resting then
        some (({ s with during := Function.update s.during t [s.latest] }).setPc t
          (if sid = 0 then .looked sid none else .testActive sid))
      else none
  | .change t change =>
      if (s.pc t).resting then
        match change with
        | .set 0 _ | .remove 0 => some (s.setPc t .idle)
        | _ => some (s.setPc t (.lock change))
      else none
  | .step t => s.stepThread t

/-! ## The invariant -/

/-- A pc of a lookup agrees with what was published during the lookup. -/
def LookupSound (s : SnapshotSystem τ) (t : τ) : SnapshotPc → Prop
  | .testActive _ | .awaitReclamation _ | .announce _ | .checkReclamation _
  | .retreat _ | .loadActive _ => s.latest ∈ s.during t
  | .search _ none => [] ∈ s.during t
  | .search _ (some id) =>
      ∃ snapshot ∈ s.snapshots, snapshot.id = id ∧ snapshot.levels ∈ s.during t
  | .release sid result | .looked sid result =>
      ∃ levels ∈ s.during t, result = getSubsystemLevel levels sid
  | .readFreed => False
  | _ => True

/-- What the thread inside the lock knows. -/
def UpdateSound (s : SnapshotSystem τ) : SnapshotPc → Prop
  | .storeActive id =>
      s.snapshots.getLast? = some ⟨id, s.subsystemLevels⟩ ∧
        s.subsystemLevels ≠ []
  | .clearSnapshots active => active = s.active
  | _ => True

/-- The active pointer is the last retained snapshot, which holds the levels
that were published last. -/
def ActiveLast (s : SnapshotSystem τ) : Prop :=
  ∀ id, s.active = some id → s.snapshots.getLast? = some ⟨id, s.latest⟩

/-- `SubsystemLevelSnapshotReaders` counts the announced threads. -/
def Counted (readers : Nat) (pc : τ → SnapshotPc) : Prop :=
  ∃ announced : List τ, announced.Nodup ∧
    (∀ t, t ∈ announced ↔ (pc t).announced = true) ∧
    readers = announced.length

/-- The owner of `DataLock` is the one thread inside it. -/
def Locked (dataLock : Option τ) (pc : τ → SnapshotPc) : Prop :=
  ∀ t, (pc t).inLock = true ↔ dataLock = some t

def Flagged (reclamation : Bool) (pc : τ → SnapshotPc) : Prop :=
  reclamation = true ↔ ∃ t, (pc t).reclaiming = true

/-- While a thread may free snapshots, no thread uses the active pointer. -/
def Quiet (pc : τ → SnapshotPc) : Prop :=
  ∀ t u, (pc t).freeing = true → (pc u).holding = false

/-- The retained snapshots and the active pointer. -/
structure Retains (s : SnapshotSystem τ) : Prop where
  distinct : (s.snapshots.map SubsystemLevelSnapshot.id).Nodup
  allocated : ∀ snapshot ∈ s.snapshots, snapshot.id < s.nextId
  activeNull : s.active = none → s.latest = []
  activeRetained : ∀ id, s.active = some id → ⟨id, s.latest⟩ ∈ s.snapshots

structure Inv (s : SnapshotSystem τ) : Prop where
  counted : Counted s.readers s.pc
  locked : Locked s.dataLock s.pc
  flagged : Flagged s.reclamation s.pc
  quiet : Quiet s.pc
  retains : s.Retains
  activeLast : (∀ t id, s.pc t ≠ .storeActive id) → s.ActiveLast
  lookups : ∀ t, s.LookupSound t (s.pc t)
  updates : ∀ t, s.UpdateSound (s.pc t)

omit [DecidableEq τ] in
theorem initial_inv : (initial : SnapshotSystem τ).Inv where
  counted := ⟨[], by simp [initial, SnapshotPc.announced]⟩
  locked := by simp [initial, Locked, SnapshotPc.inLock]
  flagged := by simp [initial, Flagged, SnapshotPc.reclaiming]
  quiet := by simp [initial, Quiet, SnapshotPc.freeing]
  retains := ⟨by simp [initial], by simp [initial], by simp [initial],
    by simp [initial]⟩
  activeLast := by simp [initial, ActiveLast]
  lookups := by simp [initial, LookupSound]
  updates := by simp [initial, UpdateSound]

/-! ## Moving one thread -/

section Moves

variable {pc : τ → SnapshotPc} {t : τ} {next : SnapshotPc}

theorem Counted.keep {readers : Nat} (h : Counted readers pc)
    (hsame : next.announced = (pc t).announced) :
    Counted readers (Function.update pc t next) :=
  Threads.Counted.keep h hsame

theorem Counted.enter {readers : Nat} (h : Counted readers pc)
    (hbefore : (pc t).announced = false) (hafter : next.announced = true) :
    Counted (readers + 1) (Function.update pc t next) :=
  Threads.Counted.enter h hbefore hafter

theorem Counted.leave {readers : Nat} (h : Counted readers pc)
    (hbefore : (pc t).announced = true) (hafter : next.announced = false) :
    Counted (readers - 1) (Function.update pc t next) :=
  Threads.Counted.leave h hbefore hafter

omit [DecidableEq τ] in
theorem Counted.nobody (h : Counted 0 pc) (u : τ) :
    (pc u).announced = false :=
  Threads.Counted.nobody h u

theorem Locked.keep {dataLock : Option τ} (h : Locked dataLock pc)
    (hsame : next.inLock = (pc t).inLock) :
    Locked dataLock (Function.update pc t next) :=
  Threads.Locked.keep h hsame

theorem Locked.acquire (h : Locked none pc) (hnext : next.inLock = true) :
    Locked (some t) (Function.update pc t next) :=
  Threads.Locked.acquire h hnext

omit [DecidableEq τ] in
theorem Locked.alone {dataLock : Option τ} (h : Locked dataLock pc)
    (ht : (pc t).inLock = true) {u : τ} (hu : (pc u).inLock = true) : u = t :=
  Threads.Locked.alone h ht hu

theorem Locked.release {dataLock : Option τ} (h : Locked dataLock pc)
    (ht : (pc t).inLock = true) (hnext : next.inLock = false) :
    Locked none (Function.update pc t next) :=
  Threads.Locked.release h ht hnext

theorem Flagged.keep {reclamation : Bool} (h : Flagged reclamation pc)
    (hsame : next.reclaiming = (pc t).reclaiming) :
    Flagged reclamation (Function.update pc t next) := by
  have heq : ∀ u, (Function.update pc t next u).reclaiming = (pc u).reclaiming :=
    forall_update (P := fun u (p : SnapshotPc) => p.reclaiming = (pc u).reclaiming) hsame
      fun _ _ => rfl
  simpa only [Flagged, heq] using h

theorem Quiet.keep (h : Quiet pc)
    (hfreeing : next.freeing = true → (pc t).freeing = true ∨
      ∀ u, (pc u).holding = false)
    (hholding : next.holding = true → (pc t).holding = true ∨
      ∀ u, (pc u).freeing = false)
    (hnot : next.freeing = true → next.holding = false) :
    Quiet (Function.update pc t next) := by
  have hrow : ∀ p : SnapshotPc, (∀ u, p.freeing = true → (pc u).holding = false) →
      (p.freeing = true → next.holding = false) →
      ∀ u, p.freeing = true → (Function.update pc t next u).holding = false := by
    intro p hothers hself
    exact forall_update (P := fun _ (q : SnapshotPc) => p.freeing = true → q.holding = false)
      hself fun u _ => hothers u
  refine forall_update
    (P := fun _ (p : SnapshotPc) => ∀ u, p.freeing = true →
      (Function.update pc t next u).holding = false) ?_ ?_
  · apply hrow next _ hnot
    intro u hnext
    rcases hfreeing hnext with hbefore | hnone
    · exact h t u hbefore
    · exact hnone u
  · intro u _
    apply hrow (pc u) (h u)
    intro hbefore
    by_contra hnext
    rcases hholding (by simpa using hnext) with hheld | hnone
    · rw [h u t hbefore] at hheld
      exact absurd hheld Bool.false_ne_true
    · rw [hnone u] at hbefore
      exact absurd hbefore Bool.false_ne_true

theorem Quiet.keep_plain (h : Quiet pc) (hfreeing : next.freeing = false)
    (hholding : next.holding = false) : Quiet (Function.update pc t next) := by
  apply h.keep
  · simp [hfreeing]
  · simp [hholding]
  · simp [hholding]

end Moves

/-! ## One step -/

omit [DecidableEq τ] in
theorem updateSound_of_outside {s : SnapshotSystem τ} {pc : SnapshotPc}
    (h : pc.inLock = false) : s.UpdateSound pc := by
  cases pc <;> trivial

/-- Steps that move a thread and change nothing but the counter, the lock and
the flag. -/
theorem Inv.move {s : SnapshotSystem τ} (hinv : s.Inv) {t : τ}
    {next : SnapshotPc} {readers : Nat} {dataLock : Option τ}
    {reclamation : Bool}
    (hcounted : Counted readers (Function.update s.pc t next))
    (hlocked : Locked dataLock (Function.update s.pc t next))
    (hflagged : Flagged reclamation (Function.update s.pc t next))
    (hquiet : Quiet (Function.update s.pc t next))
    (hstore : ∀ id, s.pc t ≠ .storeActive id)
    (hlookup : s.LookupSound t next) (hupdate : s.UpdateSound next) :
    (({ s with
        readers := readers
        dataLock := dataLock
        reclamation := reclamation } : SnapshotSystem τ).setPc t next).Inv where
  counted := hcounted
  locked := hlocked
  flagged := hflagged
  quiet := hquiet
  retains := ⟨hinv.retains.distinct, hinv.retains.allocated,
    hinv.retains.activeNull, hinv.retains.activeRetained⟩
  activeLast := by
    intro hnone
    apply hinv.activeLast
    intro u id
    by_cases hu : u = t
    · exact hu ▸ hstore id
    · have := hnone u id
      simpa only [setPc, Function.update_of_ne hu] using this
  lookups := forall_update (P := fun u p => s.LookupSound u p) hlookup
    fun u _ => hinv.lookups u
  updates := forall_update (P := fun _ p => s.UpdateSound p) hupdate
    fun u _ => hinv.updates u

/-- Steps that only move a thread between two places which the counter, the
lock and the flag do not tell apart. -/
theorem Inv.move_pc {s : SnapshotSystem τ} (hinv : s.Inv) {t : τ}
    {next : SnapshotPc} (hannounced : next.announced = (s.pc t).announced)
    (hlock : next.inLock = (s.pc t).inLock)
    (hreclaiming : next.reclaiming = (s.pc t).reclaiming)
    (hquiet : Quiet (Function.update s.pc t next))
    (hstore : ∀ id, s.pc t ≠ .storeActive id)
    (hlookup : s.LookupSound t next) (hupdate : s.UpdateSound next) :
    (s.setPc t next).Inv :=
  hinv.move (hinv.counted.keep hannounced) (hinv.locked.keep hlock)
    (hinv.flagged.keep hreclaiming) hquiet hstore hlookup hupdate

omit [DecidableEq τ] in
/-- A freeing thread has set the flag. -/
theorem Inv.not_freeing {s : SnapshotSystem τ} (hinv : s.Inv)
    (hflag : s.reclamation = false) (u : τ) : (s.pc u).freeing = false := by
  have hnot : (s.pc u).reclaiming = false := by
    by_contra hreclaiming
    have hset := hinv.flagged.mpr ⟨u, by simpa using hreclaiming⟩
    rw [hflag] at hset
    exact absurd hset Bool.false_ne_true
  cases hpc : s.pc u <;> simp_all [SnapshotPc.reclaiming, SnapshotPc.freeing]

omit [DecidableEq τ] in
/-- A pointer that a snapshot is retained for is found. -/
theorem Retains.retained_eq {s : SnapshotSystem τ} (h : s.Retains)
    {snapshot : SubsystemLevelSnapshot} (hmem : snapshot ∈ s.snapshots) :
    s.retained snapshot.id = some snapshot := by
  obtain ⟨found, hfound⟩ : ∃ found, s.retained snapshot.id = some found := by
    rw [← Option.isSome_iff_exists, retained, List.find?_isSome]
    exact ⟨snapshot, hmem, by simp⟩
  have hid := List.find?_some hfound
  have heq := List.inj_on_of_nodup_map h.distinct
    (List.mem_of_find?_eq_some hfound) hmem (by simpa using hid)
  rw [hfound, heq]

/-- The steps of a lookup. -/
theorem lookup_step_inv {s next : SnapshotSystem τ} {t : τ} (hinv : s.Inv)
    (hlooking : (s.pc t).looking = true) (hstep : s.stepThread t = some next) :
    next.Inv := by
  have hlookup := hinv.lookups t
  cases hpc : s.pc t with
  | testActive sid =>
      rw [hpc] at hlookup
      simp only [stepThread, hpc] at hstep
      cases hactive : s.active with
      | none =>
          simp only [hactive, Option.some.injEq] at hstep
          subst hstep
          have hempty : s.latest = [] := hinv.retains.activeNull hactive
          have hresult : s.LookupSound t (.looked sid none) :=
            ⟨s.latest, hlookup, by simp [hempty, getSubsystemLevel]⟩
          exact hinv.move_pc (by rw [hpc]; rfl) (by rw [hpc]; rfl)
            (by rw [hpc]; rfl) (hinv.quiet.keep_plain rfl rfl) (by simp [hpc])
            hresult trivial
      | some id =>
          simp only [hactive, Option.some.injEq] at hstep
          subst hstep
          exact hinv.move_pc (by rw [hpc]; rfl) (by rw [hpc]; rfl)
            (by rw [hpc]; rfl) (hinv.quiet.keep_plain rfl rfl) (by simp [hpc])
            hlookup trivial
  | awaitReclamation sid =>
      rw [hpc] at hlookup
      simp only [stepThread, hpc] at hstep
      split at hstep
      next => simp at hstep
      next =>
        simp only [Option.some.injEq] at hstep
        subst hstep
        exact hinv.move_pc (by rw [hpc]; rfl) (by rw [hpc]; rfl)
          (by rw [hpc]; rfl) (hinv.quiet.keep_plain rfl rfl) (by simp [hpc])
          hlookup trivial
  | announce sid =>
      rw [hpc] at hlookup
      simp only [stepThread, hpc, Option.some.injEq] at hstep
      subst hstep
      exact hinv.move (hinv.counted.enter (by rw [hpc]; rfl) rfl)
        (hinv.locked.keep (by rw [hpc]; rfl)) (hinv.flagged.keep (by rw [hpc]; rfl))
        (hinv.quiet.keep_plain rfl rfl) (by simp [hpc]) hlookup trivial
  | checkReclamation sid =>
      rw [hpc] at hlookup
      simp only [stepThread, hpc] at hstep
      split at hstep
      next =>
        simp only [Option.some.injEq] at hstep
        subst hstep
        exact hinv.move_pc (by rw [hpc]; rfl) (by rw [hpc]; rfl)
          (by rw [hpc]; rfl) (hinv.quiet.keep_plain rfl rfl) (by simp [hpc])
          hlookup trivial
      next hflag =>
        simp only [Option.some.injEq] at hstep
        subst hstep
        -- a reader that starts to use the pointer has seen no reclamation
        have hnone := hinv.not_freeing (by simpa using hflag)
        have hquiet : Quiet (Function.update s.pc t (.loadActive sid)) :=
          hinv.quiet.keep (by simp [SnapshotPc.freeing]) (fun _ => .inr hnone)
            (by simp [SnapshotPc.freeing])
        exact hinv.move_pc (by rw [hpc]; rfl) (by rw [hpc]; rfl)
          (by rw [hpc]; rfl) hquiet (by simp [hpc]) hlookup trivial
  | retreat sid =>
      rw [hpc] at hlookup
      simp only [stepThread, hpc, Option.some.injEq] at hstep
      subst hstep
      exact hinv.move (hinv.counted.leave (by rw [hpc]; rfl) rfl)
        (hinv.locked.keep (by rw [hpc]; rfl)) (hinv.flagged.keep (by rw [hpc]; rfl))
        (hinv.quiet.keep_plain rfl rfl) (by simp [hpc]) hlookup trivial
  | loadActive sid =>
      rw [hpc] at hlookup
      simp only [stepThread, hpc, Option.some.injEq] at hstep
      subst hstep
      have hquiet : Quiet (Function.update s.pc t (.search sid s.active)) :=
        hinv.quiet.keep (by simp [SnapshotPc.freeing])
          (fun _ => .inl (by rw [hpc]; rfl)) (by simp [SnapshotPc.freeing])
      have hsound : s.LookupSound t (.search sid s.active) := by
        cases hactive : s.active with
        | none =>
            have hlatest : s.latest ∈ s.during t := hlookup
            rw [hinv.retains.activeNull hactive] at hlatest
            exact hlatest
        | some id =>
            exact ⟨_, hinv.retains.activeRetained id hactive, rfl, hlookup⟩
      exact hinv.move_pc (by rw [hpc]; rfl) (by rw [hpc]; rfl)
        (by rw [hpc]; rfl) hquiet (by simp [hpc]) hsound trivial
  | search sid snapshot =>
      rw [hpc] at hlookup
      cases snapshot with
      | none =>
          simp only [stepThread, hpc, Option.some.injEq] at hstep
          subst hstep
          have hsound : s.LookupSound t (.release sid none) :=
            ⟨[], hlookup, by simp [getSubsystemLevel]⟩
          exact hinv.move_pc (by rw [hpc]; rfl) (by rw [hpc]; rfl)
            (by rw [hpc]; rfl) (hinv.quiet.keep_plain rfl rfl) (by simp [hpc])
            hsound trivial
      | some id =>
          obtain ⟨snapshot, hmem, rfl, hduring⟩ := hlookup
          simp only [stepThread, hpc, hinv.retains.retained_eq hmem,
            Option.some.injEq] at hstep
          subst hstep
          exact hinv.move_pc (by rw [hpc]; rfl) (by rw [hpc]; rfl)
            (by rw [hpc]; rfl) (hinv.quiet.keep_plain rfl rfl) (by simp [hpc])
            ⟨_, hduring, rfl⟩ trivial
  | release sid result =>
      rw [hpc] at hlookup
      simp only [stepThread, hpc, Option.some.injEq] at hstep
      subst hstep
      exact hinv.move (hinv.counted.leave (by rw [hpc]; rfl) rfl)
        (hinv.locked.keep (by rw [hpc]; rfl)) (hinv.flagged.keep (by rw [hpc]; rfl))
        (hinv.quiet.keep_plain rfl rfl) (by simp [hpc]) hlookup trivial
  | _ => simp [hpc, SnapshotPc.looking] at hlooking

/-- The thread inside the lock moves on and changes the vector, the snapshots
or the active pointer. -/
theorem Inv.move_inside {s next : SnapshotSystem τ} (hinv : s.Inv) {t : τ}
    {pc : SnapshotPc} (hin : (s.pc t).inLock = true) (hnext : pc.inLock = true)
    (hreclaiming : pc.reclaiming = (s.pc t).reclaiming)
    (hfreeing : pc.freeing = true → (s.pc t).freeing = true)
    (hpc : next.pc = Function.update s.pc t pc)
    (hreaders : next.readers = s.readers)
    (hlock : next.dataLock = s.dataLock)
    (hflag : next.reclamation = s.reclamation)
    (hretains : next.Retains)
    (hlast : (∀ id, pc ≠ .storeActive id) → next.ActiveLast)
    (hlookups : ∀ u, s.LookupSound u (s.pc u) → next.LookupSound u (s.pc u))
    (hupdate : next.UpdateSound pc) : next.Inv := by
  have hannounced : ∀ p : SnapshotPc, p.inLock = true →
      p.announced = false ∧ p.holding = false := by
    intro p hp
    cases p <;> simp_all [SnapshotPc.inLock, SnapshotPc.announced,
      SnapshotPc.holding]
  constructor
  · rw [hreaders, hpc]
    apply hinv.counted.keep
    rw [(hannounced _ hnext).1, (hannounced _ hin).1]
  · rw [hlock, hpc]
    apply hinv.locked.keep
    rw [hnext, hin]
  · rw [hflag, hpc]
    exact hinv.flagged.keep hreclaiming
  · rw [hpc]
    apply hinv.quiet.keep
    · exact fun h => .inl (hfreeing h)
    · simp [(hannounced _ hnext).2]
    · simp [(hannounced _ hnext).2]
  · exact hretains
  · intro hnone
    apply hlast
    intro id hid
    apply hnone t id
    rw [hpc, Function.update_self, hid]
  · rw [hpc]
    refine forall_update (P := fun u p => next.LookupSound u p) ?_
      fun u _ => hlookups u (hinv.lookups u)
    cases pc <;> trivial
  · rw [hpc]
    refine forall_update (P := fun _ p => next.UpdateSound p) hupdate ?_
    intro u hu
    apply updateSound_of_outside
    by_contra hinside
    exact hu (hinv.locked.alone hin (by simpa using hinside))

omit [DecidableEq τ] in
/-- Outside the store the active snapshot is the last one. -/
theorem Inv.activeLast_of_inside {s : SnapshotSystem τ} (hinv : s.Inv) {t : τ}
    (hin : (s.pc t).inLock = true) (hne : ∀ id, s.pc t ≠ .storeActive id) :
    s.ActiveLast := by
  apply hinv.activeLast
  intro u id hstoring
  have hu : u = t := hinv.locked.alone hin (by rw [hstoring]; rfl)
  exact hne id (hu ▸ hstoring)

omit [DecidableEq τ] in
/-- A store adds its levels to every lookup that is under way. -/
theorem lookupSound_store {s : SnapshotSystem τ} (active : Option Nat)
    {levels : SubsystemLevels} {u : τ} (h : s.LookupSound u (s.pc u)) :
    (s.store active levels).LookupSound u (s.pc u) := by
  have hgrows : ∀ old ∈ s.during u, old ∈ (s.store active levels).during u := by
    intro old hold
    simp only [store]
    split
    · exact List.mem_cons_of_mem _ hold
    · exact hold
  have hnew : (s.pc u).looking = true →
      levels ∈ (s.store active levels).during u := by
    intro hlooking
    simp only [store, hlooking, if_true]
    exact List.mem_cons_self ..
  cases hpc : s.pc u with
  | search sid snapshot =>
      rw [hpc] at h
      cases snapshot with
      | none => exact hgrows _ h
      | some id =>
          obtain ⟨snapshot, hmem, hid, hduring⟩ := h
          exact ⟨snapshot, hmem, hid, hgrows _ hduring⟩
  | release sid result =>
      rw [hpc] at h
      obtain ⟨old, hduring, hresult⟩ := h
      exact ⟨old, hgrows _ hduring, hresult⟩
  | looked sid result =>
      rw [hpc] at h
      obtain ⟨old, hduring, hresult⟩ := h
      exact ⟨old, hgrows _ hduring, hresult⟩
  | readFreed => rwa [hpc] at h
  | testActive sid | awaitReclamation sid | announce sid | checkReclamation sid
  | retreat sid | loadActive sid => exact hnew (by rw [hpc]; rfl)
  | _ => trivial

theorem applyUpdate_inv {s : SnapshotSystem τ} {t : τ} {change : LevelUpdate}
    (hinv : s.Inv) (hpc : s.pc t = .update change) :
    (s.applyUpdate t change).Inv := by
  have hin : (s.pc t).inLock = true := by rw [hpc]; rfl
  have hretains := hinv.retains
  have hlast := hinv.activeLast_of_inside hin (by simp [hpc])
  have hlevels : ∀ levels,
      (({ s with subsystemLevels := levels } : SnapshotSystem τ).setPc t
        .publish).Inv := by
    intro levels
    exact hinv.move_inside hin rfl (by rw [hpc]; rfl) (by simp [SnapshotPc.freeing])
      rfl rfl rfl rfl
      ⟨hretains.distinct, hretains.allocated, hretains.activeNull,
        hretains.activeRetained⟩
      (fun _ => hlast) (fun _ h => h) trivial
  cases change with
  | set sid level => exact hlevels _
  | remove sid =>
      simp only [applyUpdate]
      split
      next => exact hlevels _
      next =>
        exact hinv.move_pc (by rw [hpc]; rfl) (by rw [hpc]; rfl)
          (by rw [hpc]; rfl) (hinv.quiet.keep_plain rfl rfl) (by simp [hpc])
          trivial trivial
  | clear => exact hlevels _

theorem publish_inv {s : SnapshotSystem τ} {t : τ} (hinv : s.Inv)
    (hpc : s.pc t = .publish) : (s.publish t).Inv := by
  have hin : (s.pc t).inLock = true := by rw [hpc]; rfl
  have hretains := hinv.retains
  unfold publish
  split
  next hempty =>
    exact hinv.move_inside hin rfl (by rw [hpc]; rfl) (by simp [SnapshotPc.freeing])
      rfl rfl rfl rfl
      ⟨hretains.distinct, hretains.allocated, fun _ => rfl, by simp [store, setPc]⟩
      (by simp [ActiveLast, store, setPc]) (fun _ => lookupSound_store none) trivial
  next hne =>
    refine Inv.move_inside hinv hin rfl
      (by rw [hpc]; rfl) (by simp [SnapshotPc.freeing]) rfl rfl rfl rfl ?_ ?_ ?_ ?_
    · refine ⟨?_, ?_, hretains.activeNull, ?_⟩
      · simp only [setPc, List.concat_eq_append, List.map_append, List.map_cons,
          List.map_nil]
        apply List.Nodup.append hretains.distinct (List.nodup_singleton _)
        rw [List.disjoint_singleton]
        intro hmem
        obtain ⟨snapshot, hmem, hid⟩ := List.mem_map.mp hmem
        have := hretains.allocated snapshot hmem
        omega
      · intro snapshot hmem
        simp only [setPc, List.concat_eq_append, List.mem_append,
          List.mem_singleton] at hmem ⊢
        rcases hmem with hmem | rfl
        · exact Nat.lt_succ_of_lt (hretains.allocated snapshot hmem)
        · exact Nat.lt_succ_self _
      · intro id hactive
        simp only [setPc, List.concat_eq_append, List.mem_append]
        exact .inl (hretains.activeRetained id hactive)
    · intro hnone
      exact absurd rfl (hnone s.nextId)
    · intro u hsound
      cases hu : s.pc u with
      | search sid snapshot =>
          rw [hu] at hsound
          cases snapshot with
          | none => exact hsound
          | some id =>
              obtain ⟨snapshot, hmem, hid, hduring⟩ := hsound
              exact ⟨snapshot, by simp [setPc, hmem], hid, hduring⟩
      | _ =>
          rw [hu] at hsound
          exact hsound
    · exact ⟨by simp [setPc], hne⟩

theorem storeActive_inv {s : SnapshotSystem τ} {t : τ} {id : Nat} (hinv : s.Inv)
    (hpc : s.pc t = .storeActive id) :
    ((s.store (some id) s.subsystemLevels).setPc t .testLimit).Inv := by
  have hretains := hinv.retains
  have hupdate := hinv.updates t
  rw [hpc] at hupdate
  have hlast : s.snapshots.getLast? = some ⟨id, s.subsystemLevels⟩ := hupdate.1
  refine hinv.move_inside (by rw [hpc]; rfl) rfl (by rw [hpc]; rfl)
    (by simp [SnapshotPc.freeing]) rfl rfl rfl rfl ?_ ?_
    (fun _ => lookupSound_store (some id)) trivial
  · refine ⟨hretains.distinct, hretains.allocated, by simp [store, setPc], ?_⟩
    intro id' hid
    simp only [store, setPc, Option.some.injEq] at hid ⊢
    exact hid ▸ List.mem_of_getLast? hlast
  · intro _ id' hid
    simp only [store, setPc, Option.some.injEq] at hid ⊢
    exact hid ▸ hlast

/-- When snapshots are freed, the active one is the last and stays, and no
thread holds a pointer. -/
theorem clearSnapshots_inv {s : SnapshotSystem τ} {t : τ} {active : Option Nat}
    (hinv : s.Inv) (hpc : s.pc t = .clearSnapshots active) :
    (({ s with snapshots := s.kept active } : SnapshotSystem τ).setPc t
      .lowerReclamation).Inv := by
  have hin : (s.pc t).inLock = true := by rw [hpc]; rfl
  have hfree : (s.pc t).freeing = true := by rw [hpc]; rfl
  have hlast := hinv.activeLast_of_inside hin (by simp [hpc])
  have hupdate := hinv.updates t
  rw [hpc] at hupdate
  have hactive : active = s.active := hupdate
  subst hactive
  have hsub : (s.kept s.active).Sublist s.snapshots := by
    unfold kept
    split
    next => exact List.nil_sublist _
    next =>
      cases hgot : s.snapshots.getLast? with
      | none => exact List.nil_sublist _
      | some snapshot =>
          exact List.singleton_sublist.mpr (List.mem_of_getLast? hgot)
  have hkept : ∀ id, s.active = some id → s.kept s.active = [⟨id, s.latest⟩] := by
    intro id hid
    simp [kept, hid, hlast id hid]
  refine hinv.move_inside hin rfl (by rw [hpc]; rfl)
    (fun _ => hfree) rfl rfl rfl rfl ?_ ?_ ?_ trivial
  · refine ⟨(hsub.map _).nodup hinv.retains.distinct, ?_,
      hinv.retains.activeNull, ?_⟩
    · exact fun snapshot hmem => hinv.retains.allocated snapshot (hsub.subset hmem)
    · intro id hid
      simp only [setPc]
      rw [hkept id hid]
      exact List.mem_singleton_self _
  · intro _ id hid
    simp only [setPc]
    rw [hkept id hid]
    rfl
  · intro u hsound
    have hholding := hinv.quiet t u hfree
    cases hu : s.pc u with
    | search sid snapshot => simp [hu, SnapshotPc.holding] at hholding
    | _ =>
        rw [hu] at hsound
        exact hsound

/-- The steps of an update. -/
theorem update_step_inv {s next : SnapshotSystem τ} {t : τ} (hinv : s.Inv)
    (hlooking : (s.pc t).looking = false) (hstep : s.stepThread t = some next) :
    next.Inv := by
  cases hpc : s.pc t with
  | idle => simp [stepThread, hpc] at hstep
  | looked sid result => simp [stepThread, hpc] at hstep
  | readFreed => simp [stepThread, hpc] at hstep
  | lock change =>
      simp only [stepThread, hpc] at hstep
      cases hlock : s.dataLock with
      | some owner => simp [hlock] at hstep
      | none =>
          simp only [hlock, Option.some.injEq] at hstep
          subst hstep
          have hfree := hinv.locked
          rw [hlock] at hfree
          exact hinv.move (hinv.counted.keep (by rw [hpc]; rfl))
            (hfree.acquire rfl) (hinv.flagged.keep (by rw [hpc]; rfl))
            (hinv.quiet.keep_plain rfl rfl) (by simp [hpc]) trivial trivial
  | update change =>
      simp only [stepThread, hpc, Option.some.injEq] at hstep
      subst hstep
      exact applyUpdate_inv hinv hpc
  | publish =>
      simp only [stepThread, hpc, Option.some.injEq] at hstep
      subst hstep
      exact publish_inv hinv hpc
  | storeActive id =>
      simp only [stepThread, hpc, Option.some.injEq] at hstep
      subst hstep
      exact storeActive_inv hinv hpc
  | testLimit =>
      simp only [stepThread, hpc] at hstep
      split at hstep <;> simp only [Option.some.injEq] at hstep <;> subst hstep
      · exact hinv.move_pc (by rw [hpc]; rfl) (by rw [hpc]; rfl)
          (by rw [hpc]; rfl) (hinv.quiet.keep_plain rfl rfl) (by simp [hpc])
          trivial trivial
      · exact hinv.move_pc (by rw [hpc]; rfl) (by rw [hpc]; rfl)
          (by rw [hpc]; rfl) (hinv.quiet.keep_plain rfl rfl) (by simp [hpc])
          trivial trivial
  | raiseReclamation =>
      simp only [stepThread, hpc, Option.some.injEq] at hstep
      subst hstep
      have hflagged : Flagged true (Function.update s.pc t .awaitReaders) := by
        refine iff_of_true rfl ⟨t, ?_⟩
        rw [Function.update_self]
        rfl
      exact hinv.move (hinv.counted.keep (by rw [hpc]; rfl))
        (hinv.locked.keep (by rw [hpc]; rfl)) hflagged
        (hinv.quiet.keep_plain rfl rfl) (by simp [hpc]) trivial trivial
  | awaitReaders =>
      simp only [stepThread, hpc] at hstep
      split at hstep
      next => simp at hstep
      next hreaders =>
        simp only [Option.some.injEq] at hstep
        subst hstep
        -- no thread is announced, so none holds the pointer
        have hcounted := hinv.counted
        rw [not_not.mp hreaders] at hcounted
        have hnone : ∀ u, (s.pc u).holding = false := by
          intro u
          have hout := hcounted.nobody u
          cases hu : s.pc u <;>
            simp_all [SnapshotPc.announced, SnapshotPc.holding]
        have hquiet : Quiet (Function.update s.pc t .loadRetained) :=
          hinv.quiet.keep (fun _ => .inr hnone) (by simp [SnapshotPc.holding])
            (by simp [SnapshotPc.holding])
        exact hinv.move_pc (by rw [hpc]; rfl) (by rw [hpc]; rfl)
          (by rw [hpc]; rfl) hquiet (by simp [hpc]) trivial trivial
  | loadRetained =>
      simp only [stepThread, hpc, Option.some.injEq] at hstep
      subst hstep
      have hquiet : Quiet (Function.update s.pc t (.clearSnapshots s.active)) :=
        hinv.quiet.keep (fun _ => .inl (by rw [hpc]; rfl))
          (by simp [SnapshotPc.holding]) (by simp [SnapshotPc.holding])
      exact hinv.move_pc (by rw [hpc]; rfl) (by rw [hpc]; rfl)
        (by rw [hpc]; rfl) hquiet (by simp [hpc]) trivial rfl
  | clearSnapshots active =>
      simp only [stepThread, hpc, Option.some.injEq] at hstep
      subst hstep
      exact clearSnapshots_inv hinv hpc
  | lowerReclamation =>
      simp only [stepThread, hpc, Option.some.injEq] at hstep
      subst hstep
      have hflagged : Flagged false (Function.update s.pc t .unlock) := by
        refine iff_of_false Bool.false_ne_true ?_
        rintro ⟨u, hu⟩
        by_cases hut : u = t
        · rw [hut, Function.update_self] at hu
          exact absurd hu (by decide)
        · rw [Function.update_of_ne hut] at hu
          apply hut
          apply hinv.locked.alone (by rw [hpc]; rfl)
          cases hpcu : s.pc u <;>
            simp_all [SnapshotPc.reclaiming, SnapshotPc.inLock]
      exact hinv.move (hinv.counted.keep (by rw [hpc]; rfl))
        (hinv.locked.keep (by rw [hpc]; rfl)) hflagged
        (hinv.quiet.keep_plain rfl rfl) (by simp [hpc]) trivial trivial
  | unlock =>
      simp only [stepThread, hpc, Option.some.injEq] at hstep
      subst hstep
      exact hinv.move (hinv.counted.keep (by rw [hpc]; rfl))
        (hinv.locked.release (by rw [hpc]; rfl) rfl)
        (hinv.flagged.keep (by rw [hpc]; rfl)) (hinv.quiet.keep_plain rfl rfl)
        (by simp [hpc]) trivial trivial
  | _ => simp [hpc, SnapshotPc.looking] at hlooking

omit [DecidableEq τ] in
theorem lookupSound_during {s : SnapshotSystem τ} {pc : SnapshotPc} {u : τ}
    {during : τ → List SubsystemLevels} (h : s.LookupSound u pc)
    (hsame : during u = s.during u) :
    ({ s with during := during } : SnapshotSystem τ).LookupSound u pc := by
  cases pc with
  | search sid snapshot => cases snapshot <;> simpa [LookupSound, hsame] using h
  | readFreed => exact h
  | testActive _ | awaitReclamation _ | announce _ | checkReclamation _
  | retreat _ | loadActive _ | release _ _ | looked _ _ =>
      simpa [LookupSound, hsame] using h
  | _ => trivial

/-- A lookup or an update starts. -/
theorem start_inv {s next : SnapshotSystem τ} {t : τ} (pc : SnapshotPc)
    {during : τ → List SubsystemLevels} (hinv : s.Inv)
    (hresting : (s.pc t).resting = true)
    (hduring : ∀ u, u ≠ t → during u = s.during u)
    (hplain : pc.announced = false ∧ pc.inLock = false ∧ pc.reclaiming = false ∧
      pc.freeing = false ∧ pc.holding = false)
    (hlookup : ({ s with during := during } : SnapshotSystem τ).LookupSound t pc)
    (hnext : next = ({ s with during := during } : SnapshotSystem τ).setPc t pc) :
    next.Inv := by
  subst hnext
  rcases hplain with ⟨hannounced, hlock, hreclaiming, hfreeing, hholding⟩
  have hbefore : (s.pc t).announced = false ∧ (s.pc t).inLock = false ∧
      (s.pc t).reclaiming = false ∧ ∀ id, s.pc t ≠ .storeActive id := by
    cases hpc : s.pc t <;> simp_all [SnapshotPc.resting, SnapshotPc.announced,
      SnapshotPc.inLock, SnapshotPc.reclaiming]
  rcases hbefore with ⟨hannounced', hlock', hreclaiming', hstore⟩
  constructor
  · exact hinv.counted.keep (hannounced.trans hannounced'.symm)
  · exact hinv.locked.keep (hlock.trans hlock'.symm)
  · exact hinv.flagged.keep (hreclaiming.trans hreclaiming'.symm)
  · exact hinv.quiet.keep_plain hfreeing hholding
  · exact ⟨hinv.retains.distinct, hinv.retains.allocated,
      hinv.retains.activeNull, hinv.retains.activeRetained⟩
  · intro hnone
    apply hinv.activeLast
    intro u id
    by_cases hu : u = t
    · exact hu ▸ hstore id
    · have := hnone u id
      simpa only [setPc, Function.update_of_ne hu] using this
  · refine forall_update (P := fun u p =>
      ({ s with during := during } : SnapshotSystem τ).LookupSound u p) hlookup ?_
    exact fun u hu => lookupSound_during (hinv.lookups u) (hduring u hu)
  · exact forall_update (P := fun _ p => s.UpdateSound p)
      (updateSound_of_outside hlock) fun u _ => hinv.updates u

theorem step_inv {s next : SnapshotSystem τ} {action : SnapshotAction τ}
    (hinv : s.Inv) (hstep : s.step action = some next) : next.Inv := by
  cases action with
  | lookup t sid =>
      simp only [step] at hstep
      split at hstep
      next hresting =>
        simp only [Option.some.injEq] at hstep
        refine start_inv _ hinv hresting (fun u hu => Function.update_of_ne hu ..)
          ?_ ?_ hstep.symm
        · split <;> exact ⟨rfl, rfl, rfl, rfl, rfl⟩
        · split
          next hzero =>
            exact ⟨s.latest, by simp, by simp [getSubsystemLevel, hzero]⟩
          next => simp [LookupSound]
      next => simp at hstep
  | change t change =>
      simp only [step] at hstep
      split at hstep
      next hresting =>
        have hidle : (s.setPc t .idle).Inv :=
          start_inv .idle hinv hresting (fun _ _ => rfl) ⟨rfl, rfl, rfl, rfl, rfl⟩
            trivial rfl
        have hlock : (s.setPc t (.lock change)).Inv :=
          start_inv (.lock change) hinv hresting (fun _ _ => rfl) ⟨rfl, rfl, rfl, rfl, rfl⟩
            trivial rfl
        split at hstep <;> simp only [Option.some.injEq] at hstep <;> subst hstep
        · exact hidle
        · exact hidle
        · exact hlock
      next => simp at hstep
  | step t =>
      cases hlooking : (s.pc t).looking with
      | true => exact lookup_step_inv hinv hlooking hstep
      | false => exact update_step_inv hinv hlooking hstep

/-! ## Safety -/

/-- The snapshot that a thread searches has not been freed, and none has been
read after it was freed. -/
def NeverReadsFreed (s : SnapshotSystem τ) : Prop :=
  ∀ t, s.pc t ≠ .readFreed ∧ ∀ sid id, s.pc t = .search sid (some id) →
    ∃ snapshot ∈ s.snapshots, snapshot.id = id

/-- A lookup has returned what levels say that were the latest during it. -/
def LookupsLinearize (s : SnapshotSystem τ) : Prop :=
  ∀ t sid result, s.pc t = .looked sid result →
    ∃ levels ∈ s.during t, result = getSubsystemLevel levels sid

/-- Outside the lock the active snapshot is the last of the retained list. -/
def ActiveIsLast (s : SnapshotSystem τ) : Prop :=
  s.dataLock = none → ∀ id, s.active = some id →
    ∃ snapshot, s.snapshots.getLast? = some snapshot ∧ snapshot.id = id

theorem reclamation_safe (s : SnapshotSystem τ)
    (hreach : Reachable step initial s) :
    s.NeverReadsFreed ∧ s.LookupsLinearize ∧ s.ActiveIsLast := by
  have hinv : s.Inv := by
    apply hreach.invariant _ initial_inv
    intro s action next hinv _ hstep
    exact step_inv hinv hstep
  refine ⟨?_, ?_, ?_⟩
  · intro t
    have hsound := hinv.lookups t
    constructor
    · intro hpc
      rw [hpc] at hsound
      exact hsound
    · intro sid id hpc
      rw [hpc] at hsound
      obtain ⟨snapshot, hmem, hid, -⟩ := hsound
      exact ⟨snapshot, hmem, hid⟩
  · intro t sid result hpc
    have hsound := hinv.lookups t
    rw [hpc] at hsound
    exact hsound
  · intro hfree id hactive
    refine ⟨_, hinv.activeLast ?_ id hactive, rfl⟩
    intro t id' hpc
    have howner := (hinv.locked t).mp (by rw [hpc]; rfl)
    rw [hfree] at howner
    exact absurd howner (by simp)

/-- One thread sets a level while the other looks it up. -/
theorem reclamation_safe_one_lookup :
    ∃ s : SnapshotSystem (Fin 2), s.pc 1 = .looked 7 (some .warn) ∧
      s.NeverReadsFreed ∧ s.LookupsLinearize ∧ s.ActiveIsLast := by
  rcases exists_reachable_of_exec step (initial : SnapshotSystem (Fin 2))
      (.change 0 (.set 7 .warn) :: List.replicate 4 (.step 0) ++
        .lookup 1 7 :: List.replicate 7 (.step 1) ++
          List.replicate 2 (.step 0))
      (fun s => decide (s.pc 1 = .looked 7 (some .warn))) (by decide)
    with ⟨s, hreach, hcheck⟩
  exact ⟨s, of_decide_eq_true hcheck, reclamation_safe s hreach⟩

end SnapshotSystem
end Logme
