import Mathlib.Algebra.Group.Nat.Defs
import Mathlib.Data.List.Nodup
import Mathlib.Logic.Function.Basic
import Logme.Library.StepSystem

/-!
# The reentry guard of `Channel::Display`

`DisplayReentryGuard` keeps, for each thread, the channels whose `Display` is
on the call stack.  The first eight are kept in an array; when it is full they
are copied to a vector, which is used from then on.  Either way the guard is
the list `stack` of the channels that have entered, oldest first.
-/

namespace Logme

/-- `SMALL_CAPACITY`. -/
def reentryCapacity : Nat := 8

/-- `DisplayReentryGuard::State`; cells of the array from `depth` on hold old
values. -/
structure ReentryState (κ : Type) where
  depth : Nat
  overflow : Bool
  smallStack : Nat → Option κ
  largeStack : List κ
  depth_le : depth ≤ reentryCapacity

namespace ReentryState

variable {κ : Type}

def initial : ReentryState κ where
  depth := 0
  overflow := false
  smallStack := fun _ => none
  largeStack := []
  depth_le := Nat.zero_le _

/-- The channels in the first `depth` cells of the array. -/
def small (s : ReentryState κ) : List κ :=
  (List.range s.depth).filterMap s.smallStack

def promoteToOverflow (s : ReentryState κ) : ReentryState κ :=
  { s with overflow := true, largeStack := s.largeStack ++ s.small }

variable [DecidableEq κ]

/-- The part of the constructor that uses the vector. -/
def enterLarge (s : ReentryState κ) (channel : κ) : Bool × ReentryState κ :=
  if channel ∈ s.largeStack then (false, s)
  else (true, { s with largeStack := s.largeStack ++ [channel] })

/-- The constructor: `EnteredValue` and the new state.  The test of the last
cell is made before the others. -/
def enter (s : ReentryState κ) (channel : κ) : Bool × ReentryState κ :=
  if s.overflow = false then
    if 0 < s.depth ∧ s.smallStack (s.depth - 1) = some channel then (false, s)
    else if (List.range s.depth).any fun i => s.smallStack i == some channel then
      (false, s)
    else if h : s.depth < reentryCapacity then
      (true,
        { s with
          smallStack := Function.update s.smallStack s.depth (some channel)
          depth := s.depth + 1
          depth_le := h })
    else s.promoteToOverflow.enterLarge channel
  else s.enterLarge channel

omit [DecidableEq κ] in
/-- The destructor. -/
def leave (s : ReentryState κ) (entered : Bool) : ReentryState κ :=
  if entered = false then s
  else if s.overflow = false then
    { s with
      depth := s.depth - 1
      depth_le := Nat.le_trans (Nat.sub_le _ _) s.depth_le }
  else { s with largeStack := s.largeStack.dropLast }

/-! ## The guard as a stack -/

omit [DecidableEq κ]

/-- The channels that have entered, whichever part holds them. -/
def stack (s : ReentryState κ) : List κ :=
  if s.overflow then s.largeStack else s.small

/-- The cells below `depth` are filled, and the vector is empty until it is
used. -/
structure WellFormed (s : ReentryState κ) : Prop where
  filled : ∀ i < s.depth, (s.smallStack i).isSome
  unused : s.overflow = false → s.largeStack = []

theorem initial_wellFormed : (initial : ReentryState κ).WellFormed :=
  ⟨by simp [initial], fun _ => rfl⟩

@[simp] theorem initial_stack : (initial : ReentryState κ).stack = [] := rfl

theorem stack_of_small {s : ReentryState κ} (h : s.overflow = false) :
    s.stack = s.small := by
  rw [stack, h, if_neg Bool.false_ne_true]

theorem stack_of_large {s : ReentryState κ} (h : s.overflow = true) :
    s.stack = s.largeStack := by
  rw [stack, h, if_pos rfl]

theorem mem_small {s : ReentryState κ} {channel : κ} :
    channel ∈ s.small ↔ ∃ i < s.depth, s.smallStack i = some channel := by
  simp [small]

/-- The destructor of an entered guard pops the newest channel. -/
theorem leave_stack {s : ReentryState κ} (h : s.WellFormed) :
    (s.leave true).stack = s.stack.dropLast := by
  unfold leave
  rw [if_neg (by simp)]
  split
  next hsmall =>
    rw [stack_of_small hsmall, stack_of_small (by exact hsmall)]
    change (List.range (s.depth - 1)).filterMap s.smallStack =
      ((List.range s.depth).filterMap s.smallStack).dropLast
    cases hdepth : s.depth with
    | zero => rfl
    | succ depth =>
        have hlast := h.filled depth (by omega)
        obtain ⟨channel, hchannel⟩ := Option.isSome_iff_exists.mp hlast
        simp [List.range_succ, hchannel]
  next hlarge =>
    have hoverflow : s.overflow = true := by simpa using hlarge
    rw [stack_of_large hoverflow, stack_of_large (by exact hoverflow)]

theorem leave_wellFormed {s : ReentryState κ} (h : s.WellFormed)
    (entered : Bool) : (s.leave entered).WellFormed := by
  unfold leave
  split
  next => exact h
  next =>
    split
    next => exact ⟨fun i hi => h.filled i (by dsimp only at hi; omega), h.unused⟩
    next hlarge => exact ⟨h.filled, fun hsmall => absurd hsmall hlarge⟩

variable [DecidableEq κ]

/-- What a constructor does to the stack: it enters unless the channel is
there. -/
structure EnterSpec (s : ReentryState κ) (channel : κ)
    (r : Bool × ReentryState κ) : Prop where
  wellFormed : r.2.WellFormed
  entered : r.1 = true ↔ channel ∉ s.stack
  stack : r.2.stack = if channel ∈ s.stack then s.stack else s.stack ++ [channel]
  unchanged : r.1 = false → r.2 = s

theorem enterLarge_spec {s : ReentryState κ} (h : s.WellFormed)
    (hlarge : s.overflow = true) (channel : κ) :
    s.EnterSpec channel (s.enterLarge channel) := by
  unfold enterLarge
  by_cases hmem : channel ∈ s.largeStack
  · rw [if_pos hmem]
    refine ⟨h, ?_, ?_, fun _ => rfl⟩
    · simp [stack_of_large hlarge, hmem]
    · simp [stack_of_large hlarge, hmem]
  · rw [if_neg hmem]
    refine ⟨⟨h.filled, fun hsmall => ?_⟩, ?_, ?_, by simp⟩
    · dsimp only at hsmall
      rw [hlarge] at hsmall
      exact absurd hsmall (by decide)
    · simp [stack_of_large hlarge, hmem]
    · rw [stack_of_large (by exact hlarge), stack_of_large hlarge, if_neg hmem]

omit [DecidableEq κ] in
theorem promoteToOverflow_stack {s : ReentryState κ} (h : s.WellFormed)
    (hsmall : s.overflow = false) :
    s.promoteToOverflow.WellFormed ∧ s.promoteToOverflow.stack = s.stack := by
  refine ⟨⟨h.filled, fun hlarge => ?_⟩, ?_⟩
  · exact absurd hlarge (by simp [promoteToOverflow])
  · rw [stack_of_large rfl, stack_of_small hsmall, promoteToOverflow,
      h.unused hsmall, List.nil_append]

theorem enter_spec {s : ReentryState κ} (h : s.WellFormed) (channel : κ) :
    s.EnterSpec channel (s.enter channel) := by
  unfold enter
  split
  next hsmall =>
    have hfound : (∃ i < s.depth, s.smallStack i = some channel) →
        s.EnterSpec channel (false, s) := by
      intro hcell
      have hmem : channel ∈ s.stack := by
        rw [stack_of_small hsmall]
        exact mem_small.mpr hcell
      exact ⟨h, by simp [hmem], by simp [hmem], fun _ => rfl⟩
    split
    next hlast => exact hfound ⟨s.depth - 1, by omega, hlast.2⟩
    next =>
      split
      next hany =>
        apply hfound
        simpa [List.any_eq_true] using hany
      next hnone =>
        have hnot : channel ∉ s.stack := by
          rw [stack_of_small hsmall, mem_small]
          simpa [List.any_eq_true] using hnone
        split
        next hroom =>
          have hcells : ∀ i < s.depth,
              Function.update s.smallStack s.depth (some channel) i =
                s.smallStack i :=
            fun i hi => Function.update_of_ne (Nat.ne_of_lt hi) ..
          refine ⟨⟨?_, h.unused⟩, by simp [hnot], ?_, by simp⟩
          · intro i hi
            dsimp only at hi ⊢
            rcases Nat.lt_succ_iff_lt_or_eq.mp hi with hi | rfl
            · rw [hcells i hi]
              exact h.filled i hi
            · simp
          · rw [if_neg hnot, stack_of_small hsmall, stack_of_small (by exact hsmall)]
            simp only [small, List.range_succ, List.filterMap_append,
              List.filterMap_cons, Function.update_self, List.filterMap_nil]
            congr 1
            apply List.filterMap_congr
            intro i hi
            exact hcells i (List.mem_range.mp hi)
        next =>
          rcases promoteToOverflow_stack h hsmall with ⟨hpromoted, hstack⟩
          have hspec := enterLarge_spec hpromoted rfl channel
          have hentered : (s.promoteToOverflow.enterLarge channel).1 = true := by
            rw [hspec.entered, hstack]
            exact hnot
          refine ⟨hspec.wellFormed, ?_, ?_, ?_⟩
          · rw [← hstack]
            exact hspec.entered
          · rw [← hstack]
            exact hspec.stack
          · intro hfalse
            rw [hentered] at hfalse
            exact absurd hfalse (by decide)
  next hlarge => exact enterLarge_spec h (by simpa using hlarge) channel

/-- A guard that is destroyed restores the stack it was created on. -/
theorem leave_enter_stack {s : ReentryState κ} (h : s.WellFormed) {channel : κ}
    {t : ReentryState κ} (ht : t.WellFormed)
    (hentered : (s.enter channel).1 = true)
    (hsame : t.stack = (s.enter channel).2.stack) :
    (t.leave true).stack = s.stack := by
  have hspec := enter_spec h channel
  rw [leave_stack ht, hsame, hspec.stack, if_neg (hspec.entered.mp hentered),
    List.dropLast_concat]

end ReentryState

/-! ## Nested guards -/

/-- A thread with its open guards, newest first: the channel of each and
whether it has entered. -/
structure OpenGuards (κ : Type) where
  state : ReentryState κ
  guards : List (κ × Bool)

inductive GuardEvent (κ : Type) where
  | create (channel : κ)
  | destroy

namespace OpenGuards

open StepSystem

variable {κ : Type}

def start : OpenGuards κ := ⟨.initial, []⟩

/-- The channels of the open guards. -/
def channels (s : OpenGuards κ) : List κ := s.guards.map Prod.fst

/-- The channels of the guards that have entered, oldest first. -/
def entered (guards : List (κ × Bool)) : List κ :=
  ((guards.filter Prod.snd).map Prod.fst).reverse

/-- A guard has entered exactly if no older one is on the same channel. -/
def Nested : List (κ × Bool) → Prop
  | [] => True
  | guard :: rest =>
      (guard.2 = true ↔ guard.1 ∉ rest.map Prod.fst) ∧ Nested rest

theorem Nested.mem_entered {guards : List (κ × Bool)} (h : Nested guards)
    (channel : κ) : channel ∈ entered guards ↔ channel ∈ guards.map Prod.fst := by
  induction guards with
  | nil => simp [entered]
  | cons guard rest ih =>
      rcases guard with ⟨own, hasEntered⟩
      have hrest := ih h.2
      have hown := h.1
      simp only [entered, List.mem_reverse] at hrest ⊢
      cases hasEntered with
      | true => simp [hrest]
      | false =>
          have hmem : own ∈ rest.map Prod.fst := by
            by_contra hnot
            exact absurd (hown.mpr hnot) (by simp)
          rw [List.filter_cons_of_neg (by simp), hrest, List.map_cons,
            List.mem_cons]
          constructor
          · exact .inr
          · rintro (rfl | hchannel)
            · exact hmem
            · exact hchannel

structure Inv (s : OpenGuards κ) : Prop where
  wellFormed : s.state.WellFormed
  stack : s.state.stack = entered s.guards
  nested : Nested s.guards

theorem start_inv : (start : OpenGuards κ).Inv :=
  ⟨ReentryState.initial_wellFormed, rfl, trivial⟩

theorem Inv.mem_stack {s : OpenGuards κ} (h : s.Inv) (channel : κ) :
    channel ∈ s.state.stack ↔ channel ∈ s.channels := by
  rw [h.stack]
  exact h.nested.mem_entered channel

variable [DecidableEq κ]

def step (s : OpenGuards κ) : GuardEvent κ → Option (OpenGuards κ)
  | .create channel =>
      let r := s.state.enter channel
      some ⟨r.2, (channel, r.1) :: s.guards⟩
  | .destroy =>
      match s.guards with
      | [] => none
      | guard :: rest => some ⟨s.state.leave guard.2, rest⟩

theorem step_inv {s next : OpenGuards κ} {event : GuardEvent κ} (h : s.Inv)
    (hstep : s.step event = some next) : next.Inv := by
  cases event with
  | create channel =>
      simp only [step, Option.some.injEq] at hstep
      subst hstep
      have hspec := ReentryState.enter_spec h.wellFormed channel
      have hentered : (s.state.enter channel).1 = true ↔ channel ∉ s.channels := by
        rw [hspec.entered, h.mem_stack]
      refine ⟨hspec.wellFormed, ?_, hentered, h.nested⟩
      dsimp only
      rw [hspec.stack, h.stack]
      cases hr : (s.state.enter channel).1 with
      | true =>
          have hnot := hspec.entered.mp hr
          rw [h.stack] at hnot
          simp [entered] at hnot ⊢
          exact hnot
      | false =>
          have hmem : channel ∈ entered s.guards := by
            rw [← h.stack]
            by_contra hnot
            rw [hspec.entered.mpr hnot] at hr
            exact absurd hr (by decide)
          rw [if_pos hmem]
          simp [entered]
  | destroy =>
      cases hguards : s.guards with
      | nil => simp [step, hguards] at hstep
      | cons guard rest =>
          simp only [step, hguards, Option.some.injEq] at hstep
          subst hstep
          have hstack := h.stack
          have hnested := h.nested
          rw [hguards] at hstack hnested
          refine ⟨ReentryState.leave_wellFormed h.wellFormed _, ?_, hnested.2⟩
          rcases guard with ⟨channel, hasEntered⟩
          cases hasEntered with
          | true =>
              dsimp only
              rw [ReentryState.leave_stack h.wellFormed, hstack]
              simp [entered]
          | false =>
              dsimp only [ReentryState.leave]
              rw [if_pos rfl, hstack]
              simp [entered]

theorem reachable_inv {s : OpenGuards κ} (hreach : Reachable step start s) :
    s.Inv := by
  apply hreach.invariant _ start_inv
  intro s event next h _ hstep
  exact step_inv h hstep

/-- At every nesting depth a new guard enters exactly if its channel is not
the channel of an open guard. -/
theorem enters_iff {s : OpenGuards κ} (hreach : Reachable step start s)
    (channel : κ) :
    (s.state.enter channel).1 = true ↔ channel ∉ s.channels := by
  have h := reachable_inv hreach
  rw [(ReentryState.enter_spec h.wellFormed channel).entered, h.mem_stack]

/-- Ten channels are open; the array holds eight. -/
example : (exec step (start : OpenGuards Nat)
    ((List.range 10).map GuardEvent.create)).any
      (fun s => s.state.overflow && !(s.state.enter 3).1 && (s.state.enter 10).1) =
    true := by
  decide

end OpenGuards
end Logme
