import Logme.FileManager
import Logme.Library.StepSystem
import Mathlib.Logic.Function.Basic

/-!
# The manager's waits under every order of notifications

Callers lower the flush time of a backend and notify the manager later; the
notifications of different callers arrive in any order, and before, between
and after the rounds of the management thread.  The worker, which the
management thread runs without its lock, may set the flush time of its
backend to anything.

The active list is meant to be ordered by time, but the times that it was
ordered by need not be the current ones.  The history variable `key` holds,
for each backend, the time it was last sorted in by.
-/

namespace Logme

open StepSystem

inductive ManagerPc (ι : Type) where
  | ready
  | waiting (limit : Option Nat)
  | running (b : ι)

structure Schedule (ι : Type) where
  manager : FileManager ι
  pc : ManagerPc ι
  flushTime : ι → Nat
  registered : ι → Bool
  inFlight : List (ι × Nat)
  key : ι → Nat

inductive ScheduleAction (ι : Type) where
  | registerAsync (b : ι)
  | requestFlush (b : ι) (time : Nat)
  | deliver (b : ι) (time : Nat)
  | round (now : Nat)
  | wake
  | storeFlushTime (time : Nat)
  | workerDone (frozen : Bool)

namespace Schedule

variable {ι : Type} [DecidableEq ι]

omit [DecidableEq ι] in
def initial : Schedule ι where
  manager := .new
  pc := .ready
  flushTime := fun _ => 0
  registered := fun _ => false
  inFlight := []
  key := fun _ => 0

def setFlushTime (s : Schedule ι) (b : ι) (time : Nat) : Schedule ι :=
  { s with flushTime := Function.update s.flushTime b time }

def isRunning (s : Schedule ι) (b : ι) : Bool :=
  match s.pc with
  | .running r => decide (r = b)
  | _ => false

/-- The successful path of `RequestFlush`, up to the call of `Notify`. -/
def requestFlush (s : Schedule ι) (b : ι) (time : Nat) : Schedule ι :=
  if s.flushTime b ≠ 0 ∧
      (s.flushTime b = RIGHT_NOW ∨ s.flushTime b ≤ time) then s
  else
    { s.setFlushTime b time with inFlight := s.inFlight ++ [(b, time)] }

/-- The section of `Notify` under the manager's lock. -/
def deliver (s : Schedule ι) (b : ι) (time : Nat) : Schedule ι :=
  { s with
    manager := s.manager.notify s.flushTime (s.registered b) b time
    inFlight := s.inFlight.erase (b, time)
    key :=
      if s.registered b = true ∧ time ≠ 0 then Function.update s.key b time
      else s.key }

/-- One round of `ManagementThread` up to its wait or its worker run. -/
def round (s : Schedule ι) (now : Nat) : Schedule ι :=
  match s.manager.decideRound s.flushTime now with
  | (.wait, m) => { s with manager := m, pc := .waiting none }
  | (.waitUntil time, m) =>
      { s with manager := m, pc := .waiting (some time) }
  | (.select b early, m) =>
      let s := if early then s.setFlushTime b RIGHT_NOW else s
      if b ∈ m.backends then
        { s with manager := m.deactivateBackend b, pc := .running b }
      else { s with manager := m.deactivateBackend b }

/-- What the management thread does after `WorkerFunc`. -/
def workerDone (s : Schedule ι) (b : ι) (frozen : Bool) : Schedule ι :=
  if frozen then
    { s.setFlushTime b 0 with
      manager := (s.manager.removeBackendLocked b).stopIfEmpty
      registered := Function.update s.registered b false
      pc := .ready }
  else if s.flushTime b = 0 then
    { s with manager := s.manager.deactivateBackend b, pc := .ready }
  else
    { s with
      manager := s.manager.activateBackend s.flushTime b (s.flushTime b)
      key := Function.update s.key b (s.flushTime b)
      pc := .ready }

def step (s : Schedule ι) : ScheduleAction ι → Option (Schedule ι)
  | .registerAsync b =>
      some
        { s with
          manager := s.manager.addBackend b
          registered := Function.update s.registered b true }
  | .requestFlush b time => some (s.requestFlush b time)
  | .deliver b time =>
      if (b, time) ∈ s.inFlight then some (s.deliver b time) else none
  | .round now =>
      match s.pc with
      | .ready =>
          if s.manager.stopRequested then none else some (s.round now)
      | _ => none
  | .wake =>
      match s.pc with
      | .waiting _ =>
          some
            { s with
              manager :=
                { s.manager with
                  reschedule := false
                  currentEarliestTime := UINT64_MAX }
              pc := .ready }
      | _ => none
  | .storeFlushTime time =>
      match s.pc with
      | .running b => some (s.setFlushTime b time)
      | _ => none
  | .workerDone frozen =>
      match s.pc with
      | .running b => some (s.workerDone b frozen)
      | _ => none

omit [DecidableEq ι] in
/-- All notifications of the backend have reached the manager. -/
def Delivered (s : Schedule ι) (b : ι) : Prop :=
  ∀ time, (b, time) ∉ s.inFlight

omit [DecidableEq ι] in
/-- No registered backend whose notifications are delivered is due before
the limit. -/
def NoneDueBefore (s : Schedule ι) (limit : Option Nat) : Prop :=
  ∀ b, s.registered b = true → s.Delivered b → s.flushTime b ≠ 0 →
    s.flushTime b ≠ RIGHT_NOW ∧
      ∃ time, limit = some time ∧ time ≤ s.flushTime b

/-! ## When the list is kept in order -/

/-- The backend that decides where a new one is linked has not changed its
time since it was linked itself, and is not being run. -/
def LinksInOrder (s : Schedule ι) (b : ι) (time : Nat) : Prop :=
  time ≠ RIGHT_NOW →
    ∀ last ∈ (s.manager.active.erase b).getLast?,
      if s.flushTime last ≠ RIGHT_NOW ∧ s.flushTime last ≤ time then
        time = s.flushTime b →
          s.isRunning last = false ∧ s.key last = s.flushTime last
      else
        ∀ stop ∈ (s.manager.active.erase b).find?
            (FileManager.stopsScan s.flushTime time),
          s.isRunning stop = false

instance (s : Schedule ι) (b : ι) (time : Nat) :
    Decidable (s.LinksInOrder b time) := by
  delta LinksInOrder
  infer_instance

/-- Notifications are not stale, unless the current one is still on its way,
and every backend is linked in order. -/
def Orderly (s : Schedule ι) : ScheduleAction ι → Prop
  | .registerAsync b =>
      s.flushTime b = 0 ∨ (b, s.flushTime b) ∈ s.inFlight
  | .requestFlush _ time => time ≠ 0
  | .deliver b time =>
      s.registered b = true → s.isRunning b = false →
        (time = s.flushTime b ∨
          s.flushTime b < time ∧ (b, s.flushTime b) ∈ s.inFlight) ∧
        s.LinksInOrder b time
  | .workerDone frozen =>
      match s.pc with
      | .running b =>
          frozen = false → s.flushTime b ≠ 0 →
            s.LinksInOrder b (s.flushTime b)
      | _ => True
  | _ => True

instance (s : Schedule ι) (action : ScheduleAction ι) :
    Decidable (s.Orderly action) := by
  cases action with
  | workerDone frozen =>
      dsimp only [Orderly]
      split <;> infer_instance
  | _ =>
      dsimp only [Orderly]
      infer_instance

/-! ## The invariant -/

/-- `y` comes after `x` in the list: if `y` is where its current time has put
it, then `x` is due no later. -/
def Precedes (s : Schedule ι) (x y : ι) : Prop :=
  s.isRunning x = false → s.isRunning y = false →
    s.key y = s.flushTime y → s.flushTime x ≤ s.flushTime y

structure Inv (s : Schedule ι) : Prop where
  nodup : s.manager.active.Nodup
  ordered : s.manager.active.Pairwise s.Precedes
  pending : ∀ b ∈ s.manager.active, s.isRunning b = false →
    s.flushTime b ≠ 0 ∧ s.flushTime b ≤ s.key b
  linked : ∀ b, s.registered b = true → s.isRunning b = false →
    s.flushTime b ≠ 0 →
      (b ∈ s.manager.active ∧ s.key b = s.flushTime b) ∨
        (b, s.flushTime b) ∈ s.inFlight
  times : ∀ b time, (b, time) ∈ s.inFlight → time ≠ 0
  known : ∀ b, s.registered b = true → b ∈ s.manager.backends

theorem initial_inv : (initial : Schedule ι).Inv := by
  constructor <;> simp [initial, FileManager.new]

omit [DecidableEq ι] in
theorem related_getLast {R : ι → ι → Prop} {l : List ι} {x last : ι}
    (h : l.Pairwise R) (hx : x ∈ l) (hlast : l.getLast? = some last) :
    x = last ∨ R x last := by
  rcases List.getLast?_eq_some_iff.mp hlast with ⟨front, rfl⟩
  rcases List.mem_append.mp hx with hfront | hback
  · exact .inr ((List.pairwise_append.mp h).2.2 x hfront last (by simp))
  · exact .inl (List.mem_singleton.mp hback)

/-- Linking a backend in order keeps the list ordered. -/
theorem link_ordered {s t : Schedule ι} {b : ι} {time : Nat}
    (hinv : s.Inv) (hactive : t.manager.active =
      FileManager.link s.flushTime b time (s.manager.active.erase b))
    (hflush : t.flushTime = s.flushTime)
    (hkey : t.key = Function.update s.key b time)
    (hrunning : ∀ x, t.isRunning x = false → x ≠ b → s.isRunning x = false)
    (htime : time ≠ 0) (hnow : t.isRunning b = false → s.flushTime b ≤ time)
    (hlink : t.isRunning b = false → s.LinksInOrder b time) :
    t.manager.active.Pairwise t.Precedes := by
  have hfresh : b ∉ s.manager.active.erase b := hinv.nodup.not_mem_erase
  have hold : (s.manager.active.erase b).Pairwise s.Precedes :=
    hinv.ordered.sublist List.erase_sublist
  have hnew : (s.manager.active.erase b).Pairwise t.Precedes := by
    apply hold.imp_of_mem
    intro x y hx hy hprec hrunx hruny hsettled
    have hxb : x ≠ b := fun h => hfresh (h ▸ hx)
    have hyb : y ≠ b := fun h => hfresh (h ▸ hy)
    rw [hkey, hflush, Function.update_of_ne hyb] at hsettled
    rw [hflush]
    exact hprec (hrunning x hrunx hxb) (hrunning y hruny hyb) hsettled
  rcases FileManager.link_split s.flushTime b time
      (s.manager.active.erase b) with ⟨before, after, hsplit, hlinked, how⟩
  rw [hsplit] at hfresh hold hnew
  have hne : ∀ x, x ∈ before ++ after → x ≠ b := by
    rintro x hx rfl
    exact hfresh hx
  have hmem : ∀ x, x ∈ before ++ after → x ∈ s.manager.active := by
    intro x hx
    rw [← hsplit] at hx
    exact List.mem_of_mem_erase hx
  have hbefore : ∀ x ∈ before, t.Precedes x b := by
    intro x hx hrunx hrunb hsettled
    have hxall : x ∈ before ++ after := List.mem_append_left _ hx
    rw [hkey, hflush, Function.update_self] at hsettled
    rw [hflush, ← hsettled]
    cases how with
    | front _ hnone => simp [hnone] at hx
    | back last hscheduled hnone hlast hearlier =>
        subst after
        rw [List.append_nil] at hsplit hold hnew
        have hdecides := hlink hrunb hscheduled last
          (by rw [hsplit, hlast]; rfl)
        rw [if_pos hearlier] at hdecides
        rcases hdecides hsettled with ⟨hrunlast, hkeylast⟩
        rcases related_getLast hold hx hlast with rfl | hprec
        · exact hearlier.2
        · have hle := hprec (hrunning x hrunx (hne x hxall)) hrunlast hkeylast
          omega
    | scanned _ _ hpassed _ =>
        have hpass := hpassed x hx
        rw [FileManager.stopsScan, decide_eq_false_iff_not] at hpass
        simp only [RIGHT_NOW] at hpass
        omega
  have hafter : ∀ y ∈ after, t.Precedes b y := by
    intro y hy hrunb hruny hsettled
    have hyall : y ∈ before ++ after := List.mem_append_right _ hy
    have hyb := hne y hyall
    have hruny' := hrunning y hruny hyb
    have hle := hnow hrunb
    rw [hkey, hflush, Function.update_of_ne hyb] at hsettled
    rw [hflush]
    cases how with
    | front hright _ =>
        have hpos := (hinv.pending y (hmem y hyall) hruny').1
        rw [hright, RIGHT_NOW] at hle
        omega
    | back last _ hnone _ _ => simp [hnone] at hy
    | scanned hscheduled hlast _ hstops =>
        cases after with
        | nil => simp at hy
        | cons stop rest =>
            have hfind := hstops stop rfl
            have hlate := List.find?_some hfind
            rw [FileManager.stopsScan, decide_eq_true_eq] at hlate
            cases hend : (before ++ stop :: rest).getLast? with
            | none => simp at hend
            | some last =>
                have hdecides := hlink hrunb hscheduled last
                  (by rw [hsplit, hend]; rfl)
                rw [if_neg (hlast last hend), hsplit] at hdecides
                have hrunstop := hdecides stop hfind
                rcases List.mem_cons.mp hy with rfl | hrest
                · omega
                · have hprec :=
                    (List.pairwise_cons.mp
                      (List.pairwise_append.mp hold).2.1).1 y hrest
                  have hstop := hprec hrunstop hruny' hsettled
                  omega
  rw [hactive, hlinked]
  rcases List.pairwise_append.mp hnew with ⟨hfirst, hsecond, hacross⟩
  rw [List.pairwise_append, List.pairwise_cons]
  refine ⟨hfirst, ⟨hafter, hsecond⟩, ?_⟩
  intro x hx y hy
  rcases List.mem_cons.mp hy with rfl | hy
  · exact hbefore x hx
  · exact hacross x hx y hy

omit [DecidableEq ι] in
@[simp] theorem activateBackend_active [DecidableEq ι] (m : FileManager ι)
    (flushTime : ι → Nat) (b : ι) {time : Nat} (h : time ≠ 0) :
    (m.activateBackend flushTime b time).active =
      FileManager.link flushTime b time (m.active.erase b) := by
  rw [FileManager.activateBackend, if_neg h]

/-! ## Preservation -/

/-- A step that changes nothing but one backend, which it leaves running or
out of the list. -/
theorem Inv.aside {s t : Schedule ι} {b : ι} (hinv : s.Inv)
    (hactive : t.manager.active.Sublist s.manager.active)
    (hkept : ∀ x ∈ s.manager.active, x ≠ b → x ∈ t.manager.active)
    (hbackends : ∀ x ∈ s.manager.backends, t.registered x = true →
      x ∈ t.manager.backends)
    (hflush : ∀ x, x ≠ b → t.flushTime x = s.flushTime x)
    (hkey : t.key = s.key) (hflight : t.inFlight = s.inFlight)
    (hregistered : ∀ x, t.registered x = true → s.registered x = true)
    (hrunning : ∀ x, x ≠ b → t.isRunning x = false → s.isRunning x = false)
    (haside : t.isRunning b = true ∨ b ∉ t.manager.active ∧
      (t.registered b = true → t.flushTime b = 0)) : t.Inv := by
  have hother : ∀ x ∈ t.manager.active, t.isRunning x = false → x ≠ b := by
    rintro x hx hrunx rfl
    rcases haside with hrun | ⟨hout, -⟩
    · simp [hrun] at hrunx
    · exact hout hx
  constructor
  · exact hinv.nodup.sublist hactive
  · apply (hinv.ordered.sublist hactive).imp_of_mem
    intro x y hx hy hprec hrunx hruny hsettled
    have hxb := hother x hx hrunx
    have hyb := hother y hy hruny
    rw [hkey, hflush y hyb] at hsettled
    rw [hflush x hxb, hflush y hyb]
    exact hprec (hrunning x hxb hrunx) (hrunning y hyb hruny) hsettled
  · intro x hx hrunx
    have hxb := hother x hx hrunx
    rw [hflush x hxb, hkey]
    exact hinv.pending x (hactive.subset hx) (hrunning x hxb hrunx)
  · intro x hreg hrunx htime
    have hxb : x ≠ b := by
      rintro rfl
      rcases haside with hrun | ⟨-, hzero⟩
      · simp [hrun] at hrunx
      · exact htime (hzero hreg)
    rw [hflush x hxb] at htime ⊢
    rw [hkey, hflight]
    rcases hinv.linked x (hregistered x hreg) (hrunning x hxb hrunx) htime with
      ⟨hmem, hsettled⟩ | hwaits
    · exact .inl ⟨hkept x hmem hxb, hsettled⟩
    · exact .inr hwaits
  · intro x time hmem
    exact hinv.times x time (hflight ▸ hmem)
  · intro x hreg
    exact hbackends x (hinv.known x (hregistered x hreg)) hreg

theorem registerAsync_inv {s : Schedule ι} {b : ι} (hinv : s.Inv)
    (hallowed : s.flushTime b = 0 ∨ (b, s.flushTime b) ∈ s.inFlight) :
    Inv
      { s with
        manager := s.manager.addBackend b
        registered := Function.update s.registered b true } := by
  have hactive : (s.manager.addBackend b).active = s.manager.active := by
    unfold FileManager.addBackend
    split <;> rfl
  constructor
  · simp only [hactive]
    exact hinv.nodup
  · simp only [hactive]
    exact hinv.ordered
  · simp only [hactive]
    exact hinv.pending
  · intro x hreg hrunx htime
    simp only [hactive]
    by_cases hxb : x = b
    · subst x
      exact .inr (hallowed.resolve_left htime)
    · simp only [Function.update_of_ne hxb] at hreg
      exact hinv.linked x hreg hrunx htime
  · exact hinv.times
  · intro x hreg
    simp only [FileManager.addBackend]
    by_cases hxb : x = b
    · subst x
      split
      next hold => exact hold
      next => simp
    · simp only [Function.update_of_ne hxb] at hreg
      have hold := hinv.known x hreg
      split
      next => exact hold
      next => exact List.mem_append_left _ hold

/-- A request lowers the flush time, so the backend leaves the place that its
old time gave it. -/
theorem requestFlush_inv {s : Schedule ι} {b : ι} {time : Nat}
    (hinv : s.Inv) (htime : time ≠ 0) : (s.requestFlush b time).Inv := by
  unfold requestFlush
  split
  next => exact hinv
  next haccepted =>
    have hlower : s.flushTime b ≠ 0 → time < s.flushTime b := by
      intro hset
      have hnot : ¬ s.flushTime b ≤ time := fun hle =>
        haccepted ⟨hset, .inr hle⟩
      omega
    constructor
    · exact hinv.nodup
    · apply hinv.ordered.imp_of_mem
      intro x y hx hy hprec hrunx hruny hsettled
      simp only [setFlushTime] at hsettled ⊢
      by_cases hyb : y = b
      · subst y
        rw [Function.update_self] at hsettled
        rcases hinv.pending b hy hruny with ⟨hset, hle⟩
        have hlt := hlower hset
        omega
      · rw [Function.update_of_ne hyb] at hsettled ⊢
        have hle := hprec hrunx hruny hsettled
        by_cases hxb : x = b
        · subst x
          have hlt := hlower (hinv.pending b hx hrunx).1
          rw [Function.update_self]
          omega
        · rw [Function.update_of_ne hxb]
          exact hle
    · intro x hx hrunx
      simp only [setFlushTime]
      rcases hinv.pending x hx hrunx with ⟨hset, hle⟩
      by_cases hxb : x = b
      · subst x
        have hlt := hlower hset
        rw [Function.update_self]
        exact ⟨htime, by omega⟩
      · rw [Function.update_of_ne hxb]
        exact ⟨hset, hle⟩
    · intro x hreg hrunx hset
      simp only [setFlushTime] at hset ⊢
      by_cases hxb : x = b
      · subst x
        rw [Function.update_self]
        exact .inr (List.mem_append_right _ (List.mem_singleton.mpr rfl))
      · rw [Function.update_of_ne hxb] at hset ⊢
        rcases hinv.linked x hreg hrunx hset with hlinked | hwaits
        · exact .inl hlinked
        · exact .inr (List.mem_append_left _ hwaits)
    · intro x when hmem
      rcases List.mem_append.mp hmem with hold | hnew
      · exact hinv.times x when hold
      · simp only [List.mem_singleton, Prod.mk.injEq] at hnew
        rw [hnew.2]
        exact htime
    · exact hinv.known

theorem deliver_inv {s : Schedule ι} {b : ι} {time : Nat} (hinv : s.Inv)
    (hmem : (b, time) ∈ s.inFlight)
    (hallowed : s.Orderly (.deliver b time)) : (s.deliver b time).Inv := by
  have htime : time ≠ 0 := hinv.times b time hmem
  have hflight : ∀ x when, x ≠ b → (x, when) ∈ s.inFlight →
      (x, when) ∈ s.inFlight.erase (b, time) := by
    intro x when hxb hold
    exact (List.mem_erase_of_ne (fun h => hxb (congrArg Prod.fst h))).mpr hold
  cases hreg : s.registered b with
  | false =>
      have hstay : s.deliver b time =
          { s with inFlight := s.inFlight.erase (b, time) } := by
        simp [deliver, hreg, FileManager.notify]
      rw [hstay]
      refine ⟨hinv.nodup, hinv.ordered, hinv.pending, ?_, ?_, hinv.known⟩
      · intro x hregx hrunx hset
        have hxb : x ≠ b := by
          rintro rfl
          simp [hreg] at hregx
        rcases hinv.linked x hregx hrunx hset with hlinked | hwaits
        · exact .inl hlinked
        · exact .inr (hflight x _ hxb hwaits)
      · intro x when hin
        exact hinv.times x when (List.mem_of_mem_erase hin)
  | true =>
      have hactive : (s.deliver b time).manager.active =
          FileManager.link s.flushTime b time (s.manager.active.erase b) := by
        simp [deliver, hreg, htime]
      have hkey : (s.deliver b time).key = Function.update s.key b time := by
        simp [deliver, hreg, htime]
      have hall : ∀ x, x ∈ (s.deliver b time).manager.active ↔
          x = b ∨ x ∈ s.manager.active := by
        intro x
        simp only [deliver, hreg, FileManager.notify_active]
        exact FileManager.mem_activateBackend htime
      have horderly : s.isRunning b = false → _ := hallowed hreg
      constructor
      · simp only [deliver, hreg, FileManager.notify_active]
        exact FileManager.activateBackend_nodup s.flushTime b time hinv.nodup
      · refine link_ordered hinv hactive rfl hkey (fun x h _ => h) htime ?_
          (fun h => (horderly h).2)
        intro hrunb
        rcases (horderly hrunb).1 with heq | ⟨hlt, -⟩ <;> omega
      · intro x hx hrunx
        rw [hkey]
        simp only [deliver]
        by_cases hxb : x = b
        · subst x
          rw [Function.update_self]
          rcases (horderly hrunx).1 with heq | ⟨hlt, hcurrent⟩
          · omega
          · exact ⟨hinv.times b _ hcurrent, by omega⟩
        · rw [Function.update_of_ne hxb]
          exact hinv.pending x (((hall x).mp hx).resolve_left hxb) hrunx
      · intro x hregx hrunx hset
        rw [hkey, hall]
        simp only [deliver] at hset ⊢
        by_cases hxb : x = b
        · subst x
          rw [Function.update_self]
          rcases (horderly hrunx).1 with heq | ⟨hlt, hcurrent⟩
          · exact .inl ⟨.inl rfl, heq⟩
          · refine .inr ((List.mem_erase_of_ne ?_).mpr hcurrent)
            simp only [ne_eq, Prod.mk.injEq, true_and]
            omega
        · rw [Function.update_of_ne hxb]
          rcases hinv.linked x hregx hrunx hset with ⟨hold, hkeyx⟩ | hwaits
          · exact .inl ⟨.inr hold, hkeyx⟩
          · exact .inr (hflight x _ hxb hwaits)
      · intro x when hin
        exact hinv.times x when (List.mem_of_mem_erase hin)
      · intro x hregx
        simp only [deliver, FileManager.notify_backends]
        exact hinv.known x hregx

theorem round_inv {s : Schedule ι} {now : Nat} (hinv : s.Inv)
    (hready : s.pc = .ready) : (s.round now).Inv := by
  have hidle : ∀ x, s.isRunning x = false := by simp [isRunning, hready]
  have hframe := s.manager.decideRound_frame s.flushTime now
  have hsub : (s.manager.dropStale s.flushTime).active.Sublist
      s.manager.active := List.dropWhile_sublist _
  have hkept : ∀ x ∈ s.manager.active,
      x ∈ (s.manager.dropStale s.flushTime).active := by
    intro x hx
    exact FileManager.mem_dropStale hx (hinv.pending x hx (hidle x)).1
  have hwaiting : ∀ m limit, m.active =
      (s.manager.dropStale s.flushTime).active →
      m.backends = s.manager.backends →
      Inv { s with manager := m, pc := .waiting limit } := by
    intro m limit hactive hbackends
    refine ⟨?_, ?_, ?_, ?_, hinv.times, ?_⟩
    · exact hinv.nodup.sublist (hactive ▸ hsub)
    · apply (hinv.ordered.sublist (hactive ▸ hsub)).imp
      intro x y hprec _ _ hsettled
      exact hprec (hidle x) (hidle y) hsettled
    · intro x hx _
      exact hinv.pending x ((hactive ▸ hsub).subset hx) (hidle x)
    · intro x hreg _ hset
      rcases hinv.linked x hreg (hidle x) hset with ⟨hmem, hkey⟩ | hwaits
      · exact .inl ⟨hactive ▸ hkept x hmem, hkey⟩
      · exact .inr hwaits
    · intro x hreg
      simp only [hbackends]
      exact hinv.known x hreg
  unfold round
  cases hdecide : s.manager.decideRound s.flushTime now with
  | mk decision m =>
      simp only [hdecide] at hframe
      rcases hframe with ⟨hactive, hbackends, -⟩
      cases decision with
      | wait => exact hwaiting m none hactive hbackends
      | waitUntil time => exact hwaiting m (some time) hactive hbackends
      | select b early =>
          have hout : b ∉ (m.deactivateBackend b).active := by
            simp only [FileManager.deactivateBackend, hactive]
            exact (hinv.nodup.sublist hsub).not_mem_erase
          have hlist : (m.deactivateBackend b).active.Sublist
              s.manager.active := by
            simp only [FileManager.deactivateBackend, hactive]
            exact List.erase_sublist.trans hsub
          have hrest : ∀ x ∈ s.manager.active, x ≠ b →
              x ∈ (m.deactivateBackend b).active := by
            intro x hx hxb
            simp only [FileManager.deactivateBackend, hactive]
            exact (List.mem_erase_of_ne hxb).mpr (hkept x hx)
          have hflush : ∀ x, x ≠ b →
              (if early = true then s.setFlushTime b RIGHT_NOW
                else s).flushTime x = s.flushTime x := by
            intro x hxb
            split
            next => exact Function.update_of_ne hxb _ _
            next => rfl
          dsimp only
          split
          next hmem =>
            refine hinv.aside (b := b) hlist hrest ?_ hflush ?_ ?_ ?_ ?_
              (.inl (by simp [isRunning]))
            · intro x hx _
              exact hbackends ▸ hx
            · cases early <;> rfl
            · cases early <;> rfl
            · cases early <;> exact fun x h => h
            · exact fun x _ _ => hidle x
          next hmem =>
            refine hinv.aside (b := b) hlist hrest ?_ hflush ?_ ?_ ?_ ?_
              (.inr ⟨hout, ?_⟩)
            · intro x hx _
              exact hbackends ▸ hx
            · cases early <;> rfl
            · cases early <;> rfl
            · cases early <;> exact fun x h => h
            · exact fun x _ _ => hidle x
            · intro hreg
              have hknown : b ∈ s.manager.backends :=
                hinv.known b (by cases early <;> exact hreg)
              exact absurd (hbackends ▸ hknown) hmem

theorem workerDone_inv {s : Schedule ι} {b : ι} {frozen : Bool}
    (hinv : s.Inv) (hpc : s.pc = .running b)
    (hallowed : s.Orderly (.workerDone frozen)) :
    (s.workerDone b frozen).Inv := by
  have hrun : s.isRunning b = true := by simp [isRunning, hpc]
  have hothers : ∀ x, x ≠ b → s.isRunning x = false := by
    intro x hxb
    simp [isRunning, hpc, Ne.symm hxb]
  have hstop : ∀ m : FileManager ι, m.stopIfEmpty.active = m.active ∧
      m.stopIfEmpty.backends = m.backends := by
    intro m
    unfold FileManager.stopIfEmpty
    split <;> exact ⟨rfl, rfl⟩
  simp only [Orderly, hpc] at hallowed
  unfold workerDone
  split
  next =>
    refine hinv.aside (b := b) ?_ ?_ ?_ ?_ rfl rfl ?_
      (fun x hxb _ => hothers x hxb) (.inr ⟨?_, by simp⟩)
    · simp only [hstop]
      exact List.erase_sublist
    · intro x hx hxb
      simp only [hstop]
      exact (List.mem_erase_of_ne hxb).mpr hx
    · intro x hx hreg
      have hxb : x ≠ b := by
        rintro rfl
        simp at hreg
      simp only [hstop]
      exact (List.mem_erase_of_ne hxb).mpr hx
    · intro x hxb
      exact Function.update_of_ne hxb _ _
    · intro x hreg
      by_cases hxb : x = b
      · subst x
        simp at hreg
      · simpa [hxb] using hreg
    · simp only [hstop]
      exact hinv.nodup.not_mem_erase
  next hfrozen =>
    split
    next hidle =>
      refine hinv.aside (b := b) List.erase_sublist ?_ (fun x hx _ => hx)
        (fun x _ => rfl) rfl rfl (fun x h => h) (fun x hxb _ => hothers x hxb)
        (.inr ⟨hinv.nodup.not_mem_erase, fun _ => hidle⟩)
      intro x hx hxb
      exact (List.mem_erase_of_ne hxb).mpr hx
    next hset =>
      have hall : ∀ x, x ∈ (s.manager.activateBackend s.flushTime b
          (s.flushTime b)).active ↔ x = b ∨ x ∈ s.manager.active :=
        fun x => FileManager.mem_activateBackend hset
      have hlink : s.LinksInOrder b (s.flushTime b) :=
        hallowed (by simpa using hfrozen) hset
      constructor
      · exact FileManager.activateBackend_nodup s.flushTime b _ hinv.nodup
      · exact link_ordered hinv (activateBackend_active _ _ _ hset) rfl rfl
          (fun x _ hxb => hothers x hxb) hset (fun _ => Nat.le_refl _)
          (fun _ => hlink)
      · intro x hx _
        by_cases hxb : x = b
        · subst x
          simp only [Function.update_self]
          exact ⟨hset, Nat.le_refl _⟩
        · simp only [Function.update_of_ne hxb]
          exact hinv.pending x (((hall x).mp hx).resolve_left hxb)
            (hothers x hxb)
      · intro x hreg _ hsetx
        by_cases hxb : x = b
        · subst x
          simp only [Function.update_self]
          exact .inl ⟨(hall b).mpr (.inl rfl), trivial⟩
        · simp only [Function.update_of_ne hxb]
          rcases hinv.linked x hreg (hothers x hxb) hsetx with
            ⟨hmem, hkey⟩ | hwaits
          · exact .inl ⟨(hall x).mpr (.inr hmem), hkey⟩
          · exact .inr hwaits
      · exact hinv.times
      · intro x hreg
        simp only [FileManager.activateBackend_backends]
        exact hinv.known x hreg

theorem step_inv {s t : Schedule ι} {action : ScheduleAction ι}
    (hinv : s.Inv) (hallowed : s.Orderly action)
    (hstep : s.step action = some t) : t.Inv := by
  cases action with
  | registerAsync b =>
      simp only [step, Option.some.injEq] at hstep
      subst t
      exact registerAsync_inv hinv hallowed
  | requestFlush b time =>
      simp only [step, Option.some.injEq] at hstep
      subst t
      exact requestFlush_inv hinv hallowed
  | deliver b time =>
      simp only [step] at hstep
      split_ifs at hstep with hmem
      simp only [Option.some.injEq] at hstep
      subst t
      exact deliver_inv hinv hmem hallowed
  | round now =>
      simp only [step] at hstep
      cases hpc : s.pc <;> simp only [hpc, reduceCtorEq] at hstep
      split_ifs at hstep
      simp only [Option.some.injEq] at hstep
      subst t
      exact round_inv hinv hpc
  | wake =>
      simp only [step] at hstep
      cases hpc : s.pc <;> simp only [hpc, reduceCtorEq] at hstep
      simp only [Option.some.injEq] at hstep
      subst t
      have hidle : ∀ x, s.isRunning x = false := by simp [isRunning, hpc]
      refine ⟨hinv.nodup, ?_, ?_, ?_, hinv.times, hinv.known⟩
      · apply hinv.ordered.imp
        intro x y hprec _ _ hsettled
        exact hprec (hidle x) (hidle y) hsettled
      · intro x hx _
        exact hinv.pending x hx (hidle x)
      · intro x hreg _
        exact hinv.linked x hreg (hidle x)
  | storeFlushTime time =>
      simp only [step] at hstep
      cases hpc : s.pc <;> simp only [hpc, reduceCtorEq] at hstep
      next b =>
        simp only [Option.some.injEq] at hstep
        subst t
        exact hinv.aside (b := b) (List.Sublist.refl _) (fun x hx _ => hx)
          (fun x hx _ => hx) (fun x hxb => Function.update_of_ne hxb _ _)
          rfl rfl (fun x h => h) (fun x _ h => h)
          (.inl (by simp [isRunning, setFlushTime, hpc]))
  | workerDone frozen =>
      simp only [step] at hstep
      cases hpc : s.pc <;> simp only [hpc, reduceCtorEq] at hstep
      simp only [Option.some.injEq] at hstep
      subst t
      exact workerDone_inv hinv hpc hallowed

/-! ## The head of an ordered list decides -/

/-- No backend that is registered and delivered is due before the head. -/
theorem head_earliest {s : Schedule ι} (hinv : s.Inv)
    (hready : s.pc = .ready) {b : ι} (hregistered : s.registered b = true)
    (hdelivered : s.Delivered b) (hset : s.flushTime b ≠ 0) :
    ∃ head rest, s.manager.active = head :: rest ∧
      s.flushTime head ≤ s.flushTime b := by
  have hidle : ∀ x, s.isRunning x = false := by simp [isRunning, hready]
  rcases hinv.linked b hregistered (hidle b) hset with ⟨hmem, hkey⟩ | hwaits
  · cases hactive : s.manager.active with
    | nil => simp [hactive] at hmem
    | cons head rest =>
        refine ⟨head, rest, rfl, ?_⟩
        rw [hactive] at hmem
        rcases List.mem_cons.mp hmem with rfl | hrest
        · exact Nat.le_refl _
        · have hordered := hactive ▸ hinv.ordered
          exact (List.pairwise_cons.mp hordered).1 b hrest (hidle head)
            (hidle b) hkey
  · exact absurd hwaits (hdelivered _)

theorem dropStale_eq {s : Schedule ι} (hinv : s.Inv)
    (hready : s.pc = .ready) :
    (s.manager.dropStale s.flushTime).active = s.manager.active := by
  have hidle : ∀ x, s.isRunning x = false := by simp [isRunning, hready]
  simp only [FileManager.dropStale]
  cases hactive : s.manager.active with
  | nil => rfl
  | cons head rest =>
      have hset := (hinv.pending head (by simp [hactive]) (hidle head)).1
      simp [hset]

theorem round_waits {s : Schedule ι} {now : Nat} {limit : Option Nat}
    (hready : s.pc = .ready) (hwaits : (s.round now).pc = .waiting limit) :
    ((s.manager.decideRound s.flushTime now).1 = .wait ∧ limit = none ∨
        ∃ time, (s.manager.decideRound s.flushTime now).1 = .waitUntil time ∧
          limit = some time) ∧
      (s.round now).flushTime = s.flushTime ∧
      (s.round now).registered = s.registered ∧
      (s.round now).inFlight = s.inFlight := by
  unfold round at hwaits ⊢
  cases hdecide : s.manager.decideRound s.flushTime now with
  | mk decision m =>
      simp only [hdecide] at hwaits ⊢
      cases decision with
      | wait =>
          simp only [ManagerPc.waiting.injEq] at hwaits
          simp [← hwaits]
      | waitUntil time =>
          simp only [ManagerPc.waiting.injEq] at hwaits
          simp [← hwaits]
      | select b early =>
          dsimp only at hwaits
          cases early <;> split_ifs at hwaits <;>
            simp [setFlushTime, hready] at hwaits

theorem round_noneDueBefore {s : Schedule ι} {now : Nat} {limit : Option Nat}
    (hinv : s.Inv) (hready : s.pc = .ready)
    (hwaits : (s.round now).pc = .waiting limit) :
    (s.round now).NoneDueBefore limit := by
  rcases round_waits hready hwaits with
    ⟨hdecision, hflush, hregistered, hflight⟩
  have hlimits := s.manager.decideRound_waits s.flushTime now
  rw [dropStale_eq hinv hready] at hlimits
  intro b hreg hdelivered hset
  rw [hregistered] at hreg
  rw [hflush] at hset ⊢
  rcases head_earliest hinv hready hreg
      (fun time => hflight ▸ hdelivered time) hset with
    ⟨head, rest, hactive, hle⟩
  rcases hdecision with ⟨hwait, -⟩ | ⟨time, huntil, rfl⟩
  · simp [hactive] at hlimits
    exact absurd hwait hlimits.1
  · rcases hlimits.2 time huntil with ⟨first, others, hfirst, rfl, hlater⟩
    rw [hactive, List.cons.injEq] at hfirst
    rcases hfirst with ⟨rfl, -⟩
    have hpos : s.flushTime head ≠ 0 :=
      (hinv.pending head (by simp [hactive]) (by simp [isRunning, hready])).1
    refine ⟨?_, s.flushTime head, rfl, hle⟩
    simp only [RIGHT_NOW] at hlater ⊢
    omega

/-! ## What the manager sleeps past -/

/-- In every run in which notifications are not stale and every backend is
linked in order, the manager does not wait beyond the flush time of a
registered backend whose notifications are delivered. -/
theorem never_sleeps_past_due (s t : Schedule ι) (now : Nat)
    (limit : Option Nat) (hrun : Run step Orderly initial s)
    (hround : s.step (.round now) = some t)
    (hwaits : t.pc = .waiting limit) : t.NoneDueBefore limit := by
  have hinv : s.Inv :=
    hrun.invariant (fun _ _ _ hinv hok hstep => step_inv hinv hok hstep)
      initial_inv
  simp only [step] at hround
  cases hpc : s.pc <;> simp only [hpc, reduceCtorEq] at hround
  split_ifs at hround
  simp only [Option.some.injEq] at hround
  subst t
  exact round_noneDueBefore hinv hpc hwaits

private def waitsUntil {ι : Type} (due : Nat) : ManagerPc ι → Bool
  | .waiting (some limit) => decide (limit = due)
  | _ => false

private theorem eq_of_waitsUntil {ι : Type} {due : Nat}
    {pc : ManagerPc ι} (h : waitsUntil due pc = true) :
    pc = .waiting (some due) := by
  unfold waitsUntil at h
  split at h
  next limit => rw [decide_eq_true_eq.mp h]
  next => simp at h

/-- Backend 1 is due earlier, and notifies later, than backend 0. -/
theorem never_sleeps_past_due_two_backends :
    ∃ t : Schedule (Fin 2), t.registered 1 = true ∧ t.flushTime 1 = 300 ∧
      t.NoneDueBefore (some 300) := by
  rcases exists_run_of_exec step Orderly
      (initial : Schedule (Fin 2))
      [.registerAsync 0, .registerAsync 1, .requestFlush 0 500,
        .requestFlush 1 300, .deliver 0 500, .deliver 1 300]
      (fun s : Schedule (Fin 2) => (s.step (.round 0)).any
        fun t : Schedule (Fin 2) => t.registered 1 &&
          decide (t.flushTime 1 = 300) && waitsUntil 300 t.pc) (by decide) with ⟨s, hrun, hcheck⟩
  cases hround : s.step (.round 0) with
  | none => simp [hround] at hcheck
  | some t =>
      simp only [hround, Option.any_some, Bool.and_eq_true,
        decide_eq_true_eq] at hcheck
      rcases hcheck with ⟨⟨hregistered, hflush⟩, hwaits⟩
      exact ⟨t, hregistered, hflush, never_sleeps_past_due s t 0 _ hrun hround
        (eq_of_waitsUntil hwaits)⟩

/-- Backend 1 is scheduled and then flushed at once; the notification of the
flush is delivered first, the older one with the later time second. -/
theorem stale_notification_hides_due :
    ¬ ∀ (s t : Schedule (Fin 2)) (now : Nat) (limit : Option Nat),
      Reachable step initial s → s.step (.round now) = some t →
        t.pc = .waiting limit → t.NoneDueBefore limit := by
  intro hall
  rcases exists_reachable_of_exec step
      (initial : Schedule (Fin 2))
      [.registerAsync 0, .registerAsync 1, .requestFlush 0 300,
        .deliver 0 300, .requestFlush 1 500, .requestFlush 1 RIGHT_NOW,
        .deliver 1 RIGHT_NOW, .deliver 1 500]
      (fun s : Schedule (Fin 2) => match s.step (.round 0) with
        | some t => t.registered 1 && decide (t.flushTime 1 = RIGHT_NOW) &&
            t.inFlight.isEmpty &&
            match t.pc with
            | .waiting _ => true
            | _ => false
        | none => false) (by decide) with ⟨s, hreach, hcheck⟩
  cases hround : s.step (.round 0) with
  | none => simp [hround] at hcheck
  | some t =>
      simp only [hround, Bool.and_eq_true, decide_eq_true_eq,
        List.isEmpty_iff] at hcheck
      rcases hcheck with ⟨⟨⟨hregistered, hflush⟩, hdelivered⟩, hwaits⟩
      split at hwaits
      next limit hpc =>
        have hnone := hall s t 0 limit hreach hround hpc 1 hregistered
          (by simp [Delivered, hdelivered]) (by simp [hflush, RIGHT_NOW])
        exact hnone.1 hflush
      next => simp at hwaits

end Schedule

end Logme
