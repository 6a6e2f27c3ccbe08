import Logme.BufferQueue
import Logme.Library.HandoffPipeline
import Mathlib.Data.List.Nodup
import Mathlib.Logic.Function.Basic

/-!
# The buffer queue under every interleaving

Any number of threads append and publish, and one consumer takes the ready
list.  A step is one section under `DataLock`, `ReadyLock` or `FreeLock`.
`Append` runs inside a `DataLock` that its caller holds, so a thread locks and
unlocks it explicitly and other threads' `FreeLock` and `ReadyLock` sections
may fall in between; the publishing functions take `DataLock` themselves, for
the exchange of the current buffer only.

The system carries three history variables: the accepted and the handed out
bytes, and the order in which threads detached a buffer from `Current` that
they have not enqueued yet.
-/

namespace Logme
namespace BufferQueue

open StepSystem HandoffPipeline

inductive Op (β : Type) where
  | append (p : List β) (firstWriteTime : Nat)
  | publishCurrent
  | publishCurrentIfMatches (expected : Option Nat)

/-- Where a thread stands inside a queue operation.  An idle thread keeps the
result of its last operation. -/
inductive Pc (β : Type) where
  | idle (result : AppendResult)
  | takeFree (op : Op β)
  | createCheck (op : Op β)
  | createCount (op : Op β) (buffer : DataBuffer β)
  | install (op : Op β) (replacement : DataBuffer β) (allocated : Bool)
  | releaseReplacement (op : Op β) (replacement : DataBuffer β)
      (result : AppendResult)
  | grow (op : Op β) (old : DataBuffer β) (allocated : Bool)
  | enqueue (op : Op β) (old : DataBuffer β)

variable {τ β : Type}

def Pc.isIdle : Pc β → Bool
  | .idle _ => true
  | _ => false

/-- The thread has detached a buffer and not enqueued it yet. -/
def Pc.detaching : Pc β → Bool
  | .grow _ _ _ => true
  | .enqueue _ _ => true
  | _ => false

def Pc.enqueuing : Pc β → Bool
  | .enqueue _ _ => true
  | _ => false

def Pc.held : Pc β → List β
  | .grow _ old _ => old.data
  | .enqueue _ old => old.data
  | _ => []

structure System (τ β : Type) where
  queue : BufferQueue β
  pc : τ → Pc β
  dataLock : Option τ
  createLock : Option τ
  inHand : List (DataBuffer β)
  accepted : List β
  handedOut : List β
  detachOrder : List τ

inductive Action (τ β : Type) where
  | lockData (t : τ)
  | unlockData (t : τ)
  | start (t : τ) (op : Op β)
  | step (t : τ) (a : Allocation)
  | setCurrentFirstWriteTime (t : τ) (value : Nat)
  | prepareSoftFlushCurrent
  | takeReady
  | recycle
  | trimFreeBuffersIfIdle

namespace System

def initial (queue : BufferQueue β) : System τ β where
  queue := queue
  pc := fun _ => .idle ⟨false, false⟩
  dataLock := none
  createLock := none
  inHand := []
  accepted := []
  handedOut := []
  detachOrder := []

variable [DecidableEq τ]

def setPc (s : System τ β) (t : τ) (pc : Pc β) : System τ β :=
  { s with pc := Function.update s.pc t pc }

def setQueue (s : System τ β) (queue : BufferQueue β) : System τ β :=
  { s with queue := queue }

def failed : AppendResult := ⟨false, false⟩

def start (s : System τ β) (t : τ) : Op β → Option (System τ β)
  | .append p time =>
      if s.dataLock ≠ some t then none
      else if p.length = 0 then some (s.setPc t (.idle ⟨true, false⟩))
      else if h : s.queue.current.canAppend p.length then
        some
          { (s.setPc t (.idle ⟨true, decide (s.queue.current.size = 0)⟩)) with
            queue := s.queue.appendCurrent p time h
            accepted := s.accepted ++ p }
      else some (s.setPc t (.takeFree (.append p time)))
  | .publishCurrent =>
      if s.dataLock = some t then none
      else some (s.setPc t (.takeFree .publishCurrent))
  | .publishCurrentIfMatches expected =>
      if s.dataLock = some t then none
      else if expected = none then some (s.setPc t (.idle failed))
      else some (s.setPc t (.takeFree (.publishCurrentIfMatches expected)))

def publishRefused (queue : BufferQueue β) : Op β → Bool
  | .publishCurrentIfMatches expected =>
      decide (some queue.current.address ≠ expected ∨ queue.current.size = 0)
  | _ => decide (queue.current.size = 0)

/-- The `DataLock` section of an operation that has a replacement. -/
def install (s : System τ β) (t : τ) (op : Op β)
    (replacement : DataBuffer β) (allocated : Bool) : Option (System τ β) :=
  match op with
  | .append p time =>
      if h : s.queue.current.canAppend p.length then
        some
          { (s.setPc t (.releaseReplacement op replacement
                ⟨true, decide (s.queue.current.size = 0)⟩)) with
            queue := s.queue.appendCurrent p time h
            accepted := s.accepted ++ p }
      else if h : replacement.reset.canAppend p.length then
        some
          { (s.setPc t (.grow op s.queue.current allocated)) with
            queue := s.queue.replaceAndAppend replacement.reset p time h
            accepted := s.accepted ++ p
            detachOrder := s.detachOrder ++ [t] }
      else some (s.setPc t (.releaseReplacement op replacement failed))
  | _ =>
      if s.dataLock ≠ none then none
      else if publishRefused s.queue op then
        some
          { (s.setPc t (.releaseReplacement op replacement failed)) with
            dataLock := some t }
      else
        some
          { (s.setPc t (.grow op s.queue.current allocated)) with
            queue := s.queue.replaceCurrent replacement
            detachOrder := s.detachOrder ++ [t] }

def stepThread (s : System τ β) (t : τ) (a : Allocation) :
    Option (System τ β) :=
  match s.pc t with
  | .idle _ => none
  | .takeFree op =>
      match s.queue.tryTakeFreeBuffer with
      | (some buffer, queue) =>
          some ((s.setQueue queue).setPc t (.install op buffer false))
      | (none, queue) => some ((s.setQueue queue).setPc t (.createCheck op))
  | .createCheck op =>
      if s.createLock ≠ none then none
      else if s.queue.atBufferLimit then some (s.setPc t (.idle failed))
      else
        some
          { (s.setPc t (.createCount op (a.buffer s.queue.options))) with
            createLock := some t }
  | .createCount op buffer =>
      if s.queue.atBufferLimit then
        some { (s.setPc t (.idle failed)) with createLock := none }
      else
        some
          { (s.setPc t (.install op buffer true)) with
            queue := s.queue.countCreated
            createLock := none }
  | .install op replacement allocated => s.install t op replacement allocated
  | .releaseReplacement op replacement result =>
      some
        { (s.setPc t (.idle result)) with
          queue := s.queue.releaseBuffer replacement
          dataLock := match op with
            | .append _ _ => s.dataLock
            | _ => none }
  | .grow op old allocated =>
      some
        ((s.setQueue (s.queue.maybeGrowAdaptive allocated)).setPc t
          (.enqueue op old))
  | .enqueue op old =>
      some
        { (s.setPc t (.idle ⟨true, match op with
            | .append _ _ => true
            | _ => false⟩)) with
          queue := s.queue.enqueueReady old
          detachOrder := s.detachOrder.erase t }

def step (s : System τ β) : Action τ β → Option (System τ β)
  | .lockData t =>
      if s.dataLock = none ∧ (s.pc t).isIdle then
        some { s with dataLock := some t }
      else none
  | .unlockData t =>
      if s.dataLock = some t ∧ (s.pc t).isIdle then
        some { s with dataLock := none }
      else none
  | .start t op => if (s.pc t).isIdle then s.start t op else none
  | .step t a => s.stepThread t a
  | .setCurrentFirstWriteTime t value =>
      if s.dataLock = some t then
        some (s.setQueue (s.queue.setCurrentFirstWriteTime value))
      else none
  | .prepareSoftFlushCurrent =>
      if s.dataLock = none then
        some (s.setQueue s.queue.prepareSoftFlushCurrent.2.2)
      else none
  | .takeReady =>
      if s.inHand.isEmpty then
        some
          { s with
            queue := s.queue.takeReady.2
            inHand := s.queue.takeReady.1
            handedOut := s.handedOut ++ s.queue.takeReady.1.flatMap DataBuffer.data }
      else none
  | .recycle =>
      some { s with queue := s.queue.recycle s.inHand, inHand := [] }
  | .trimFreeBuffersIfIdle => some (s.setQueue s.queue.trimFreeBuffersIfIdle)

/-- No operation is in progress. -/
def Quiescent (s : System τ β) : Prop :=
  s.dataLock = none ∧ ∀ t, (s.pc t).isIdle

/-- `EnqueueReady` is executed by the thread whose detached buffer is the
oldest of those still outside the ready list. -/
def EnqueuesInOrder (s : System τ β) : Action τ β → Prop
  | .step t _ => (s.pc t).enqueuing = true → s.detachOrder.head? = some t
  | _ => True

instance (s : System τ β) (action : Action τ β) :
    Decidable (s.EnqueuesInOrder action) :=
  match action with
  | .step t _ =>
      inferInstanceAs
        (Decidable ((s.pc t).enqueuing = true → s.detachOrder.head? = some t))
  | .lockData _ => .isTrue trivial
  | .unlockData _ => .isTrue trivial
  | .start _ _ => .isTrue trivial
  | .setCurrentFirstWriteTime _ _ => .isTrue trivial
  | .prepareSoftFlushCurrent => .isTrue trivial
  | .takeReady => .isTrue trivial
  | .recycle => .isTrue trivial
  | .trimFreeBuffersIfIdle => .isTrue trivial

/-! ## The queue as a hand-off pipeline -/

/-- The bytes of the system by stage.  A detached buffer belongs to the thread
between its two sections. -/
def view (s : System τ β) : Pipeline τ β where
  accepted := s.accepted
  delivered := s.handedOut
  ready := s.queue.readyList.flatMap DataBuffer.data
  detached := s.detachOrder.map fun t => (t, (s.pc t).held)
  current := s.queue.current.data

/-- The detach order lists exactly the threads that hold a detached buffer. -/
structure Inv (s : System τ β) : Prop where
  mem_iff : ∀ t, t ∈ s.detachOrder ↔ (s.pc t).detaching = true
  nodup : s.detachOrder.Nodup

omit [DecidableEq τ] in
theorem initial_inv (queue : BufferQueue β) :
    (initial queue : System τ β).Inv := by
  constructor <;> simp [initial, Pc.detaching]

/-- A thread that does not start or end a hand-off leaves the invariant and
the detached stage alone. -/
theorem quiet_setPc {s next : System τ β} {t : τ} {pc : Pc β}
    (hinv : s.Inv) (hpc : next.pc = Function.update s.pc t pc)
    (horder : next.detachOrder = s.detachOrder)
    (hdetaching : pc.detaching = (s.pc t).detaching)
    (hheld : pc.held = (s.pc t).held) :
    next.Inv ∧ next.view.detached = s.view.detached := by
  refine ⟨⟨?_, by rw [horder]; exact hinv.nodup⟩, ?_⟩
  · intro u
    rw [horder, hinv.mem_iff u, hpc]
    by_cases hu : u = t
    · subst u
      simp [hdetaching]
    · simp [hu]
  · simp only [view, horder]
    apply List.map_congr_left
    intro u _
    rw [hpc]
    by_cases hu : u = t
    · subst u
      simp [hheld]
    · simp [hu]

/-- A thread that detaches a buffer becomes the last owner. -/
theorem detach_setPc {s next : System τ β} {t : τ} {pc : Pc β}
    (hinv : s.Inv) (hpc : next.pc = Function.update s.pc t pc)
    (horder : next.detachOrder = s.detachOrder ++ [t])
    (hold : (s.pc t).detaching = false) (hnew : pc.detaching = true) :
    next.Inv ∧ next.view.detached = s.view.detached ++ [(t, pc.held)] := by
  have hfresh : t ∉ s.detachOrder := by
    rw [hinv.mem_iff t, hold]
    simp
  refine ⟨⟨?_, ?_⟩, ?_⟩
  · intro u
    rw [horder, List.mem_append, hinv.mem_iff u, hpc]
    by_cases hu : u = t
    · subst u
      simp [hnew]
    · simp [hu]
  · rw [horder, List.nodup_append]
    refine ⟨hinv.nodup, by simp, ?_⟩
    intro u hu v hv heq
    rw [List.mem_singleton] at hv
    subst v
    exact hfresh (heq ▸ hu)
  · simp only [view, horder, List.map_append, List.map_singleton]
    rw [hpc, Function.update_self]
    congr 1
    apply List.map_congr_left
    intro u hu
    have hne : u ≠ t := fun heq => hfresh (heq ▸ hu)
    simp [hne]

/-- A thread that enqueues its buffer leaves the detach order. -/
theorem enqueue_setPc {s next : System τ β} {t : τ} {pc : Pc β}
    (hinv : s.Inv) (hpc : next.pc = Function.update s.pc t pc)
    (horder : next.detachOrder = s.detachOrder.erase t)
    (hnew : pc.detaching = false) :
    next.Inv ∧
      next.view.detached =
        (s.detachOrder.erase t).map fun u => (u, (s.pc u).held) := by
  have hgone : t ∉ s.detachOrder.erase t := hinv.nodup.not_mem_erase
  refine ⟨⟨?_, ?_⟩, ?_⟩
  · intro u
    rw [horder, hpc]
    by_cases hu : u = t
    · subst u
      simp [hnew, hgone]
    · rw [List.mem_erase_of_ne hu, hinv.mem_iff u]
      simp [hu]
  · rw [horder]
    exact hinv.nodup.erase t
  · simp only [view, horder]
    apply List.map_congr_left
    intro u hu
    have hne : u ≠ t := fun heq => hgone (heq ▸ hu)
    rw [hpc]
    simp [hne]

/-- What a step of the queue is for the pipeline: a run of moves, each of
which is in order when the step is. -/
def Matches (s next : System τ β) (allowed : Prop) : Prop :=
  next.Inv ∧
    Run Pipeline.step (fun p move => allowed → p.InOrder move) s.view next.view

omit [DecidableEq τ] in
theorem view_eq_of {s : System τ β} {p : Pipeline τ β}
    (haccepted : s.accepted = p.accepted)
    (hdelivered : s.handedOut = p.delivered)
    (hready : s.queue.readyList.flatMap DataBuffer.data = p.ready)
    (hdetached : s.view.detached = p.detached)
    (hcurrent : s.queue.current.data = p.current) : s.view = p := by
  cases p
  simp_all [view]

/-- A thread moves on inside its operation and no byte changes its stage. -/
theorem matches_quiet {s next : System τ β} {allowed : Prop} {t : τ}
    (pc : Pc β) (hinv : s.Inv)
    (hpc : next.pc = Function.update s.pc t pc)
    (horder : next.detachOrder = s.detachOrder)
    (hdetaching : pc.detaching = (s.pc t).detaching)
    (hheld : pc.held = (s.pc t).held)
    (haccepted : next.accepted = s.accepted)
    (hdelivered : next.handedOut = s.handedOut)
    (hready : next.queue.readyList = s.queue.readyList)
    (hcurrent : next.queue.current.data = s.queue.current.data) :
    Matches s next allowed := by
  obtain ⟨hnext, hdetached⟩ := quiet_setPc hinv hpc horder hdetaching hheld
  have hview : next.view = s.view :=
    view_eq_of haccepted hdelivered (by rw [hready]; rfl) hdetached hcurrent
  refine ⟨hnext, ?_⟩
  rw [hview]
  exact .refl

theorem matches_accept {s next : System τ β} {allowed : Prop} {t : τ}
    (pc : Pc β) (p : List β) (hinv : s.Inv)
    (hpc : next.pc = Function.update s.pc t pc)
    (horder : next.detachOrder = s.detachOrder)
    (hdetaching : pc.detaching = (s.pc t).detaching)
    (hheld : pc.held = (s.pc t).held)
    (haccepted : next.accepted = s.accepted ++ p)
    (hdelivered : next.handedOut = s.handedOut)
    (hready : next.queue.readyList = s.queue.readyList)
    (hcurrent : next.queue.current.data = s.queue.current.data ++ p) :
    Matches s next allowed := by
  obtain ⟨hnext, hdetached⟩ := quiet_setPc hinv hpc horder hdetaching hheld
  refine ⟨hnext, .single (a := .accept p) (fun _ => trivial) ?_⟩
  simp only [Pipeline.step, Option.some.injEq]
  symm
  exact view_eq_of haccepted hdelivered (by rw [hready]; rfl) hdetached hcurrent

/-- A thread takes the current buffer away and leaves one that holds `p`. -/
theorem matches_detach {s next : System τ β} {allowed : Prop} {t : τ}
    (pc : Pc β) (p : List β) (hinv : s.Inv)
    (hpc : next.pc = Function.update s.pc t pc)
    (horder : next.detachOrder = s.detachOrder ++ [t])
    (hold : (s.pc t).detaching = false) (hnew : pc.detaching = true)
    (hheld : pc.held = s.queue.current.data)
    (haccepted : next.accepted = s.accepted ++ p)
    (hdelivered : next.handedOut = s.handedOut)
    (hready : next.queue.readyList = s.queue.readyList)
    (hcurrent : next.queue.current.data = p) :
    Matches s next allowed := by
  obtain ⟨hnext, hdetached⟩ := detach_setPc hinv hpc horder hold hnew
  refine ⟨hnext, Run.trans (.single (a := .detach t) (fun _ => trivial) rfl)
    (.single (a := .accept p) (fun _ => trivial) ?_)⟩
  simp only [Pipeline.step, Option.some.injEq]
  rw [hheld] at hdetached
  symm
  exact view_eq_of haccepted hdelivered (by rw [hready]; rfl) hdetached
    (by simpa using hcurrent)

theorem matches_enqueue {s next : System τ β} {t : τ} (pc : Pc β)
    {allowed : Prop} (hinv : s.Inv)
    (hpc : next.pc = Function.update s.pc t pc)
    (horder : next.detachOrder = s.detachOrder.erase t)
    (hold : (s.pc t).detaching = true) (hnew : pc.detaching = false)
    (hallowed : allowed → s.detachOrder.head? = some t)
    (haccepted : next.accepted = s.accepted)
    (hdelivered : next.handedOut = s.handedOut)
    (hready : next.queue.readyList.flatMap DataBuffer.data =
      s.queue.readyList.flatMap DataBuffer.data ++ (s.pc t).held)
    (hcurrent : next.queue.current.data = s.queue.current.data) :
    Matches s next allowed := by
  obtain ⟨hnext, hdetached⟩ := enqueue_setPc hinv hpc horder hnew
  refine ⟨hnext, .single (a := .enqueue t) ?_ ?_⟩
  · intro h
    have hheadMap := congrArg (Option.map id) (hallowed h)
    simpa [Pipeline.InOrder, view, Function.comp_def] using hheadMap
  · have hmem : t ∈ s.detachOrder := (hinv.mem_iff t).mpr hold
    have htake :
        takeSegment t s.view.detached =
          some ((s.pc t).held,
            (s.detachOrder.erase t).map fun u => (u, (s.pc u).held)) :=
      takeSegment_map (fun u => (s.pc u).held) t s.detachOrder hmem
    simp only [Pipeline.step, htake, Option.some.injEq]
    symm
    exact view_eq_of haccepted hdelivered hready hdetached hcurrent

theorem install_matches {s next : System τ β} {t : τ} {op : Op β}
    {replacement : DataBuffer β} {allocated : Bool} {allowed : Prop}
    (hinv : s.Inv) (hpc : s.pc t = .install op replacement allocated)
    (hstep : s.install t op replacement allocated = some next) :
    Matches s next allowed := by
  have hold : (s.pc t).detaching = false := by simp [hpc, Pc.detaching]
  have hheld : (s.pc t).held = [] := by simp [hpc, Pc.held]
  have hpublish : ∀ op' : Op β,
      (if s.dataLock ≠ none then none
        else if publishRefused s.queue op' then
          some
            { (s.setPc t (.releaseReplacement op' replacement failed)) with
              dataLock := some t }
        else
          some
            { (s.setPc t (.grow op' s.queue.current allocated)) with
              queue := s.queue.replaceCurrent replacement
              detachOrder := s.detachOrder ++ [t] }) = some next →
        Matches s next allowed := by
    intro op' hstep
    split_ifs at hstep with hlock hrefused
    · simp only [Option.some.injEq] at hstep
      subst next
      exact matches_quiet (t := t) (.releaseReplacement op' replacement failed)
        hinv rfl rfl hold.symm hheld.symm rfl rfl rfl rfl
    · simp only [Option.some.injEq] at hstep
      subst next
      exact matches_detach (t := t) (.grow op' s.queue.current allocated) []
        hinv rfl rfl hold rfl rfl (List.append_nil _).symm rfl rfl rfl
  cases op with
  | append p time =>
      simp only [install] at hstep
      split_ifs at hstep with happend hreplace
      · simp only [Option.some.injEq] at hstep
        subst next
        exact matches_accept (t := t)
          (.releaseReplacement (.append p time) replacement _) p
          hinv rfl rfl hold.symm hheld.symm rfl rfl (by simp) (by simp)
      · simp only [Option.some.injEq] at hstep
        subst next
        exact matches_detach (t := t)
          (.grow (.append p time) s.queue.current allocated) p
          hinv rfl rfl hold rfl rfl rfl rfl rfl
          (by simp [replaceAndAppend])
      · simp only [Option.some.injEq] at hstep
        subst next
        exact matches_quiet (t := t)
          (.releaseReplacement (.append p time) replacement failed)
          hinv rfl rfl hold.symm hheld.symm rfl rfl rfl rfl
  | publishCurrent => exact hpublish _ hstep
  | publishCurrentIfMatches expected => exact hpublish _ hstep

theorem stepThread_matches {s next : System τ β} {t : τ} {a : Allocation}
    (hinv : s.Inv) (hstep : s.stepThread t a = some next) :
    Matches s next (s.EnqueuesInOrder (.step t a)) := by
  unfold stepThread at hstep
  cases hpc : s.pc t with
  | idle result => simp [hpc] at hstep
  | takeFree op =>
      have hready := tryTakeFreeBuffer_readyList s.queue
      have hcurrent := tryTakeFreeBuffer_current s.queue
      simp only [hpc] at hstep
      cases htake : s.queue.tryTakeFreeBuffer with
      | mk found queue =>
          rw [htake] at hready hcurrent
          cases found with
          | none =>
              simp only [htake, Option.some.injEq] at hstep
              subst next
              exact matches_quiet (t := t) (.createCheck op) hinv rfl rfl
                (by rw [hpc]; rfl) (by rw [hpc]; rfl) rfl rfl hready
                (congrArg DataBuffer.data hcurrent)
          | some buffer =>
              simp only [htake, Option.some.injEq] at hstep
              subst next
              exact matches_quiet (t := t) (.install op buffer false)
                hinv rfl rfl (by rw [hpc]; rfl) (by rw [hpc]; rfl) rfl rfl
                hready (congrArg DataBuffer.data hcurrent)
  | createCheck op =>
      simp only [hpc] at hstep
      split_ifs at hstep with hlock hlimit
      · simp only [Option.some.injEq] at hstep
        subst next
        exact matches_quiet (t := t) (.idle failed) hinv rfl rfl
          (by rw [hpc]; rfl) (by rw [hpc]; rfl) rfl rfl rfl rfl
      · simp only [Option.some.injEq] at hstep
        subst next
        exact matches_quiet (t := t) (.createCount op _) hinv rfl rfl
          (by rw [hpc]; rfl) (by rw [hpc]; rfl) rfl rfl rfl rfl
  | createCount op buffer =>
      simp only [hpc] at hstep
      split_ifs at hstep with hlimit
      · simp only [Option.some.injEq] at hstep
        subst next
        exact matches_quiet (t := t) (.idle failed) hinv rfl rfl
          (by rw [hpc]; rfl) (by rw [hpc]; rfl) rfl rfl rfl rfl
      · simp only [Option.some.injEq] at hstep
        subst next
        exact matches_quiet (t := t) (.install op buffer true) hinv rfl
          rfl (by rw [hpc]; rfl) (by rw [hpc]; rfl) rfl rfl rfl rfl
  | install op replacement allocated =>
      simp only [hpc] at hstep
      exact install_matches hinv hpc hstep
  | releaseReplacement op replacement result =>
      simp only [hpc, Option.some.injEq] at hstep
      subst next
      exact matches_quiet (t := t) (.idle result) hinv rfl rfl
        (by rw [hpc]; rfl) (by rw [hpc]; rfl) rfl rfl rfl rfl
  | grow op old allocated =>
      simp only [hpc, Option.some.injEq] at hstep
      subst next
      exact matches_quiet (t := t) (.enqueue op old) hinv rfl rfl
        (by rw [hpc]; rfl) (by rw [hpc]; rfl) rfl rfl
        (maybeGrowAdaptive_readyList _ _)
        (congrArg DataBuffer.data (maybeGrowAdaptive_current _ _))
  | enqueue op old =>
      simp only [hpc, Option.some.injEq] at hstep
      subst next
      refine matches_enqueue (t := t) _ hinv rfl rfl (by rw [hpc]; rfl) rfl
        ?_ rfl rfl ?_ ?_
      · intro hinOrder
        exact hinOrder (by rw [hpc]; rfl)
      · rw [hpc]
        exact enqueueReady_bytes s.queue old
      · exact congrArg DataBuffer.data (enqueueReady_current s.queue old)

theorem start_matches {s next : System τ β} {t : τ} {op : Op β}
    {allowed : Prop} (hinv : s.Inv) (hidle : (s.pc t).isIdle = true)
    (hstep : s.start t op = some next) : Matches s next allowed := by
  have hold : (s.pc t).detaching = false := by
    cases hpc : s.pc t <;> simp_all [Pc.isIdle, Pc.detaching]
  have hheld : (s.pc t).held = [] := by
    cases hpc : s.pc t <;> simp_all [Pc.isIdle, Pc.held]
  have hmove : ∀ pc : Pc β, pc.detaching = false → pc.held = [] →
      Matches s (s.setPc t pc) allowed := by
    intro pc hpc hpcHeld
    exact matches_quiet (t := t) pc hinv rfl rfl (hpc.trans hold.symm)
      (hpcHeld.trans hheld.symm) rfl rfl rfl rfl
  cases op with
  | append p time =>
      simp only [start] at hstep
      split_ifs at hstep with hlock hempty happend
      · simp only [Option.some.injEq] at hstep
        subst next
        exact hmove _ rfl rfl
      · simp only [Option.some.injEq] at hstep
        subst next
        exact matches_accept (t := t) (.idle _) p hinv rfl rfl
          hold.symm hheld.symm rfl rfl (by simp) (by simp)
      · simp only [Option.some.injEq] at hstep
        subst next
        exact hmove _ rfl rfl
  | publishCurrent =>
      simp only [start] at hstep
      split_ifs at hstep with hlock
      simp only [Option.some.injEq] at hstep
      subst next
      exact hmove _ rfl rfl
  | publishCurrentIfMatches expected =>
      simp only [start] at hstep
      split_ifs at hstep with hlock hexpected
      · simp only [Option.some.injEq] at hstep
        subst next
        exact hmove _ rfl rfl
      · simp only [Option.some.injEq] at hstep
        subst next
        exact hmove _ rfl rfl

omit [DecidableEq τ] in
theorem Inv.of_threads_eq {s next : System τ β} (hinv : s.Inv)
    (hpc : next.pc = s.pc) (horder : next.detachOrder = s.detachOrder) :
    next.Inv := by
  constructor
  · intro t
    rw [hpc, horder]
    exact hinv.mem_iff t
  · rw [horder]
    exact hinv.nodup

/-- Every step of the queue system is a run of the pipeline. -/
theorem step_matches {s next : System τ β} {action : Action τ β}
    (hinv : s.Inv) (hstep : s.step action = some next) :
    Matches s next (s.EnqueuesInOrder action) := by
  have hsame : ∀ next' : System τ β, next'.pc = s.pc →
      next'.detachOrder = s.detachOrder → next'.view = s.view →
      Matches s next' (s.EnqueuesInOrder action) := by
    intro next' hpc horder hview
    refine ⟨hinv.of_threads_eq hpc horder, ?_⟩
    rw [hview]
    exact .refl
  cases action with
  | lockData t =>
      simp only [step] at hstep
      split_ifs at hstep
      simp only [Option.some.injEq] at hstep
      subst next
      exact hsame _ rfl rfl rfl
  | unlockData t =>
      simp only [step] at hstep
      split_ifs at hstep
      simp only [Option.some.injEq] at hstep
      subst next
      exact hsame _ rfl rfl rfl
  | start t op =>
      simp only [step] at hstep
      split_ifs at hstep with hidle
      exact start_matches hinv hidle hstep
  | step t a => exact stepThread_matches hinv hstep
  | setCurrentFirstWriteTime t value =>
      simp only [step] at hstep
      split_ifs at hstep
      simp only [Option.some.injEq] at hstep
      subst next
      exact hsame _ rfl rfl (by simp [view, setQueue])
  | prepareSoftFlushCurrent =>
      simp only [step] at hstep
      split_ifs at hstep
      simp only [Option.some.injEq] at hstep
      subst next
      exact hsame _ rfl rfl (by simp [view, setQueue])
  | takeReady =>
      simp only [step] at hstep
      split_ifs at hstep
      simp only [Option.some.injEq] at hstep
      subst next
      exact ⟨hinv.of_threads_eq rfl rfl,
        .single (a := .deliver) (fun _ => trivial) rfl⟩
  | recycle =>
      simp only [step, Option.some.injEq] at hstep
      subst next
      exact hsame _ rfl rfl rfl
  | trimFreeBuffersIfIdle =>
      simp only [step, Option.some.injEq] at hstep
      subst next
      exact hsame _ rfl rfl rfl

/-- Runs of the queue system are runs of the pipeline; in-order runs are
in-order runs. -/
theorem run_view {ok : System τ β → Action τ β → Prop}
    (ok' : Pipeline τ β → Move τ β → Prop) {s next : System τ β}
    (hrun : Run step ok s next) (hinv : s.Inv)
    (hok : ∀ s action p move, ok s action →
      (s.EnqueuesInOrder action → p.InOrder move) → ok' p move) :
    next.Inv ∧ Run Pipeline.step ok' s.view next.view := by
  apply hrun.simulate view Inv _ hinv
  intro s action t hs haction hstep
  obtain ⟨ht, hmoves⟩ := step_matches hs hstep
  exact ⟨ht, hmoves.mono fun p move hmove => hok s action p move haction hmove⟩

/-! ## First in, first out -/

/-- At rest: what was handed out, then the ready list, then the current
buffer is what was accepted, in the order of acceptance. -/
def Fifo (s : System τ β) : Prop :=
  s.handedOut ++ s.queue.readyList.flatMap DataBuffer.data ++
      s.queue.current.data = s.accepted

omit [DecidableEq τ] in
theorem Inv.detachOrder_of_quiescent {s : System τ β} (hinv : s.Inv)
    (hquiet : s.Quiescent) : s.detachOrder = [] := by
  rw [List.eq_nil_iff_forall_not_mem]
  intro t hmem
  have hdetaching := (hinv.mem_iff t).mp hmem
  have hidle := hquiet.2 t
  cases hpc : s.pc t <;> simp_all [Pc.isIdle, Pc.detaching]

omit [DecidableEq τ] in
theorem content_of_quiescent {s : System τ β} (hinv : s.Inv)
    (hquiet : s.Quiescent) :
    s.view.content =
      s.handedOut ++ s.queue.readyList.flatMap DataBuffer.data ++
        s.queue.current.data := by
  simp [Pipeline.content, view, hinv.detachOrder_of_quiescent hquiet]

/-- When buffers are enqueued in the order in which they were detached, the
queue is first in, first out. -/
theorem fifo_of_enqueues_in_order (options : Options) (a : Allocation)
    (s : System τ β)
    (hrun : Run step EnqueuesInOrder
      (initial (BufferQueue.new options a)) s)
    (hquiet : s.Quiescent) : s.Fifo := by
  obtain ⟨hinv, hview⟩ :=
    run_view Pipeline.InOrder hrun (initial_inv _)
      (fun _ _ _ _ hok himp => himp hok)
  unfold Fifo
  rw [← content_of_quiescent hinv hquiet]
  apply run_ordered hview
  simp [Pipeline.content, view, initial, BufferQueue.new, Allocation.buffer]

/-! ## The gap between the two sections of `PublishCurrent` -/

/-- Append a record to the current buffer while nobody else is inside. -/
private def appendRecord (t : τ) (p : List β) : List (Action τ β) :=
  [.lockData t, .start t (.append p 1000), .unlockData t]

/-- A publisher up to the end of its `DataLock` section; it allocates its
replacement at the given address. -/
private def detachCurrent (t : τ) (address : Nat) : List (Action τ β) :=
  .start t .publishCurrent :: List.replicate 4 (.step t ⟨address, none⟩)

/-- The rest of a publisher: `MaybeGrowAdaptive` and `EnqueueReady`. -/
private def enqueueDetached (t : τ) : List (Action τ β) :=
  List.replicate 2 (.step t ⟨0, none⟩)

private def atRest (s : System (Fin 3) UInt8) : Bool :=
  decide (s.dataLock = none) && decide (∀ t, (s.pc t).isIdle = true)

private theorem quiescent_of_atRest {s : System (Fin 3) UInt8}
    (h : s.atRest = true) : s.Quiescent := by
  simpa [atRest, Quiescent] using h

/-- Two publishers meet between their sections: the first detaches a buffer,
the second detaches and enqueues the next one before it. -/
theorem publishers_reorder :
    ¬ ∀ (options : Options) (a : Allocation) (s : System (Fin 3) UInt8),
      Reachable step (initial (BufferQueue.new options a)) s →
        s.Quiescent → s.Fifo := by
  intro hall
  obtain ⟨s, hreach, hcheck⟩ :
      ∃ s : System (Fin 3) UInt8,
        Reachable step (initial (BufferQueue.new {} ⟨0, none⟩)) s ∧
          (s.atRest && decide (¬ s.handedOut ++
            s.queue.readyList.flatMap DataBuffer.data ++
              s.queue.current.data = s.accepted)) = true :=
    exists_reachable_of_exec _ _
      (appendRecord 0 [0x61] ++ detachCurrent 1 1 ++
        appendRecord 0 [0x62] ++ detachCurrent 2 2 ++
          enqueueDetached 2 ++ enqueueDetached 1) _ (by decide)
  rw [Bool.and_eq_true, decide_eq_true_eq] at hcheck
  exact hcheck.2 (hall _ _ s hreach (quiescent_of_atRest hcheck.1))

/-- Two publishers whose sections do not overlap, then the consumer. -/
theorem fifo_of_enqueues_in_order_two_publishers :
    ∃ s : System (Fin 3) UInt8,
      Run step EnqueuesInOrder (initial (BufferQueue.new {} ⟨0, none⟩)) s ∧
        s.Quiescent ∧ s.handedOut = [0x61, 0x62] ∧ s.Fifo := by
  obtain ⟨s, hrun, hcheck⟩ :
      ∃ s : System (Fin 3) UInt8,
        Run step EnqueuesInOrder
            (initial (BufferQueue.new {} ⟨0, none⟩)) s ∧
          (s.atRest && decide (s.handedOut = [0x61, 0x62])) = true :=
    exists_run_of_exec _ _ _
      (appendRecord 0 [0x61] ++ detachCurrent 1 1 ++ enqueueDetached 1 ++
        appendRecord 0 [0x62] ++ detachCurrent 2 2 ++ enqueueDetached 2 ++
          [.takeReady]) _ (by decide)
  rw [Bool.and_eq_true, decide_eq_true_eq] at hcheck
  have hquiet := quiescent_of_atRest hcheck.1
  exact ⟨s, hrun, hquiet, hcheck.2,
    fifo_of_enqueues_in_order {} ⟨0, none⟩ s hrun hquiet⟩

end System
end BufferQueue
end Logme
