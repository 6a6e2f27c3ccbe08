import Logme.Library.PointerChain
import Logme.Logger

/-!
# Display over links

The links of the channels that let a record pass form a graph in which every
channel has at most one successor.  `display` walks this graph with the guard
as its set of visited channels, and delivers the record to the backends of the
channels on its way back.
-/

namespace Logme
namespace Logger

open PointerChain StepSystem

/-- The channel is enabled and its filters accept the record. -/
def passes (l : Logger) (r : Record) (c : Nat) : Bool :=
  match l.heap[c]? with
  | some channel => !l.shutdownCalled && channel.enabled && l.accepts channel r
  | none => false

/-- The channel that a record is passed on to. -/
def next (l : Logger) (r : Record) (c : Nat) : Option Nat :=
  match l.heap[c]? with
  | some channel =>
      if l.passes r c && channel.followsLink r then (l.linkTarget channel).1
      else none
  | none => none

/-- The deliveries to the own backends of a channel. -/
def deliveriesOf (l : Logger) (c : Nat) : List Delivery :=
  match l.heap[c]? with
  | some channel => ownDeliveries c channel
  | none => []

/-- The record is passed on from `c` to `d` over channels that are not open,
and passes there. -/
def Receives (l : Logger) (r : Record) (opened : List Nat) (c d : Nat) : Prop :=
  (d ∉ opened ∧ Reaches (l.next r) opened c d) ∧ l.passes r d = true

theorem passes_eq {l : Logger} {c : Nat} {channel : Channel}
    (hc : l.heap[c]? = some channel) (r : Record) :
    l.passes r c =
      (!l.shutdownCalled && channel.enabled && l.accepts channel r) := by
  rw [passes, hc]

theorem next_eq {l : Logger} {c : Nat} {channel : Channel}
    (hc : l.heap[c]? = some channel) (r : Record) :
    l.next r c =
      if l.passes r c && channel.followsLink r then (l.linkTarget channel).1
      else none := by
  rw [next, hc]

theorem next_of_missing {l : Logger} {c : Nat} (hc : l.heap[c]? = none)
    (r : Record) : l.next r c = none := by
  rw [next, hc]

theorem lt_length_of_next {l : Logger} {r : Record} {c d : Nat}
    (h : l.next r c = some d) : c ∈ List.range l.heap.length := by
  rw [List.mem_range]
  by_contra hge
  rw [next_of_missing (List.getElem?_eq_none (Nat.not_lt.mp hge))] at h
  exact absurd h (by simp)

/-- Following a link leaves the logger alone or adds an empty channel, which
is then the target. -/
theorem linkTarget_cases {l l' : Logger} {channel : Channel} {d : Nat}
    (h : l.linkTarget channel = (some d, l')) :
    l' = l ∨ (d = l.heap.length ∧ ∃ created, l'.heap[d]? = some created ∧
      created.backends = [] ∧ created.link = none ∧ created.linkTo = none) := by
  have hcreate : ∀ name flags level,
      l.createChannelInternal name flags level = (some d, l') →
        l' = l ∨ (d = l.heap.length ∧ ∃ created, l'.heap[d]? = some created ∧
          created.backends = [] ∧ created.link = none ∧ created.linkTo = none) := by
    intro name flags level hcreate
    unfold createChannelInternal at hcreate
    split at hcreate
    next => simp at hcreate
    next =>
      split at hcreate
      next =>
        simp only [Prod.mk.injEq] at hcreate
        exact .inl hcreate.2.symm
      next =>
        simp only [Prod.mk.injEq, Option.some.injEq] at hcreate
        rcases hcreate with ⟨rfl, rfl⟩
        exact .inr ⟨rfl, .new name flags level, by simp, rfl, rfl, rfl⟩
  unfold linkTarget at h
  split at h
  next =>
    simp only [Prod.mk.injEq] at h
    exact .inl h.2.symm
  next =>
    unfold getChannel at h
    split at h
    next =>
      simp only [Prod.mk.injEq] at h
      exact .inl h.2.symm
    next => exact hcreate _ _ _ h
  next => simp at h

/-! ## Created channels -/

/-- `l'` is `l` with channels added that have no backends and no links. -/
structure Extends (l l' : Logger) : Prop where
  kept : ∀ (c : Nat) (channel : Channel), l.heap[c]? = some channel → l'.heap[c]? = some channel
  default : l'.default = l.default
  looked : ∀ name c, l.channels.lookup name = some c →
    l'.channels.lookup name = some c
  registered : ∀ name c, l'.channels.lookup name = some c →
    l.channels.lookup name = some c ∨ l.heap[c]? = none
  created : ∀ (c : Nat) (channel : Channel), l'.heap[c]? = some channel →
    l.heap[c]? = some channel ∨
    (channel.backends = [] ∧ channel.link = none ∧ channel.linkTo = none)
  shutdownCalled : l'.shutdownCalled = l.shutdownCalled
  errorChannel : l'.errorChannel = l.errorChannel
  activeSnapshot : l'.activeSnapshot = l.activeSnapshot

theorem Extends.refl (l : Logger) : l.Extends l :=
  ⟨fun _ _ h => h, rfl, fun _ _ h => h, fun _ _ h => .inl h, fun _ _ h => .inl h,
    rfl, rfl, rfl⟩

theorem Extends.trans {l₁ l₂ l₃ : Logger} (h₁ : l₁.Extends l₂)
    (h₂ : l₂.Extends l₃) : l₁.Extends l₃ where
  kept c channel h := h₂.kept c channel (h₁.kept c channel h)
  default := h₂.default.trans h₁.default
  looked name c h := h₂.looked name c (h₁.looked name c h)
  registered name c h := by
    rcases h₂.registered name c h with hold | hnew
    · exact h₁.registered name c hold
    · right
      cases hc : l₁.heap[c]? with
      | none => rfl
      | some channel =>
          rw [h₁.kept c channel hc] at hnew
          exact absurd hnew (by simp)
  created c channel h := by
    rcases h₂.created c channel h with hold | hnew
    · exact h₁.created c channel hold
    · exact .inr hnew
  shutdownCalled := h₂.shutdownCalled.trans h₁.shutdownCalled
  errorChannel := h₂.errorChannel.trans h₁.errorChannel
  activeSnapshot := h₂.activeSnapshot.trans h₁.activeSnapshot

theorem createChannelInternal_cases (l : Logger) (name : Name) (flags : OutputFlags)
    (level : Level) :
    (l.createChannelInternal name flags level).2 = l ∨
      (l.createChannelInternal name flags level).2 =
        { l with
          heap := l.heap ++ [.new name flags level]
          channels := l.channels ++ [(name, l.heap.length)] } := by
  unfold createChannelInternal
  split
  next => exact .inl rfl
  next =>
    split
    next => exact .inl rfl
    next => exact .inr (by rw [List.concat_eq_append, List.concat_eq_append])

theorem lookup_append_singleton {channels : List (Name × Nat)} {name other : Name} {c i : Nat}
    (h : (channels ++ [(name, i)]).lookup other = some c) :
    channels.lookup other = some c ∨ (other = name ∧ c = i) := by
  rw [List.lookup_append, Option.or_eq_some_iff] at h
  rcases h with hold | ⟨-, hnew⟩
  · exact .inl hold
  · simp only [List.lookup_cons, List.lookup_nil] at hnew
    split at hnew
    next heq => exact .inr ⟨beq_iff_eq.mp heq, (Option.some.inj hnew).symm⟩
    next => simp at hnew

theorem createChannelInternal_extends (l : Logger) (name : Name)
    (flags : OutputFlags) (level : Level) :
    l.Extends (l.createChannelInternal name flags level).2 := by
  rcases l.createChannelInternal_cases name flags level with hsame | hnew
  · rw [hsame]
    exact .refl l
  · rw [hnew]
    refine ⟨?_, rfl, ?_, ?_, ?_, rfl, rfl, rfl⟩
    · intro c channel h
      have hlt := (List.getElem?_eq_some_iff.mp h).1
      rw [List.getElem?_append_left hlt]
      exact h
    · intro other c h
      rw [List.lookup_append, h]
      rfl
    · intro other c h
      refine (lookup_append_singleton h).imp_right ?_
      rintro ⟨-, rfl⟩
      exact List.getElem?_length _
    · intro c channel h
      rcases Nat.lt_or_ge c l.heap.length with hlt | hge
      · rw [List.getElem?_append_left hlt] at h
        exact .inl h
      · rw [List.getElem?_append_right hge] at h
        have hadded := List.mem_of_getElem? h
        rw [List.mem_singleton] at hadded
        subst hadded
        exact .inr ⟨rfl, rfl, rfl⟩

theorem getChannel_extends (l : Logger) (name : Name) :
    l.Extends (l.getChannel name).2 := by
  unfold getChannel
  split
  next => exact .refl l
  next => exact l.createChannelInternal_extends name _ _

theorem linkTarget_extends (l : Logger) (channel : Channel) :
    l.Extends (l.linkTarget channel).2 := by
  unfold linkTarget
  split
  next => exact .refl l
  next => exact l.getChannel_extends _
  next => exact .refl l

/-- The rule for what `Display` does to the logger: it looks up targets of links
and nothing else. -/
theorem display_rule {R : Logger → Logger → Prop} (hrefl : ∀ l, R l l)
    (htrans : ∀ l₁ l₂ l₃, R l₁ l₂ → R l₂ l₃ → R l₁ l₃)
    (htarget : ∀ (l : Logger) (c : Nat) (channel : Channel), l.heap[c]? = some channel →
      R l (l.linkTarget channel).2)
    {fuel : Nat} {l : Logger} {guard : ReentryState Nat} {c : Nat} {r : Record}
    {result : Displayed} (h : display fuel l guard c r = some result) :
    R l result.logger := by
  induction fuel generalizing l guard c result with
  | zero => simp [display] at h
  | succ fuel ih =>
      have hself : ∀ {guard' deliveries},
          some (Displayed.mk l guard' deliveries) = some result → R l result.logger := by
        rintro _ _ ⟨⟩
        exact hrefl l
      rw [display] at h
      split at h
      next => exact hself h
      next channel hc =>
        split at h
        next => exact hself h
        next =>
          split at h
          next => exact hself h
          next =>
            dsimp only at h
            split at h
            next => exact hself h
            next =>
              split at h
              next => exact hself h
              next =>
                have htarget := htarget l c channel hc
                split at h
                next l' hl =>
                  rw [hl] at htarget
                  simp only [Option.some.injEq] at h
                  subst h
                  exact htarget
                next d l' hl =>
                  rw [hl] at htarget
                  obtain ⟨linked, hlinked, rfl⟩ := Option.map_eq_some_iff.mp h
                  have hrest : R l' linked.logger := ih hlinked
                  exact htrans _ _ _ htarget hrest

theorem display_extends {fuel : Nat} {l : Logger} {guard : ReentryState Nat}
    {c : Nat} {r : Record} {result : Displayed}
    (h : display fuel l guard c r = some result) : l.Extends result.logger :=
  display_rule Extends.refl (fun _ _ _ => Extends.trans)
    (fun l _ channel _ => l.linkTarget_extends channel) h

theorem Extends.accepts {l l' : Logger} (h : l.Extends l') (channel : Channel)
    (r : Record) : l'.accepts channel r = l.accepts channel r := by
  unfold Logger.accepts effectiveLevel getSubsystemLevel
  rw [h.activeSnapshot]

theorem Extends.passes {l l' : Logger} (h : l.Extends l') {c : Nat}
    {channel : Channel} (hc : l.heap[c]? = some channel) (r : Record) :
    l'.passes r c = l.passes r c := by
  rw [passes_eq hc, passes_eq (h.kept c channel hc), h.shutdownCalled, h.accepts]

/-! ## One display -/

/-- `display` restores the stack of the guard. -/
structure Restores (guard : ReentryState Nat) (result : Displayed)
    (deliveries : List Delivery) : Prop where
  wellFormed : result.guard.WellFormed
  stack : result.guard.stack = guard.stack
  deliveries : result.deliveries = deliveries

/-- What happens when the guard of a channel is left again at once. -/
theorem restores_leave {guard : ReentryState Nat} (h : guard.WellFormed)
    {c : Nat} (hentered : (guard.enter c).1 = true) (l : Logger)
    (deliveries : List Delivery) :
    Restores guard ⟨l, (guard.enter c).2.leave true, deliveries⟩ deliveries := by
  have hspec := ReentryState.enter_spec h c
  exact ⟨ReentryState.leave_wellFormed hspec.wellFormed true,
    ReentryState.leave_enter_stack h hspec.wellFormed hentered rfl, rfl⟩

theorem restores_blocked {guard : ReentryState Nat} (h : guard.WellFormed)
    {c : Nat} (hentered : (guard.enter c).1 = false) (l : Logger) :
    Restores guard ⟨l, (guard.enter c).2.leave false, []⟩ [] := by
  have hsame := (ReentryState.enter_spec h c).unchanged hentered
  have hleave : (guard.enter c).2.leave false = guard := by
    rw [hsame]
    rfl
  rw [hleave]
  exact ⟨h, rfl, rfl⟩

/-- A channel without links and backends receives nothing. -/
theorem display_empty {l : Logger} {guard : ReentryState Nat}
    (h : guard.WellFormed) {c : Nat} {channel : Channel}
    (hc : l.heap[c]? = some channel) (hbackends : channel.backends = [])
    (hlink : channel.link = none) (hlinkTo : channel.linkTo = none)
    (fuel : Nat) (r : Record) :
    ∃ result, display (fuel + 1) l guard c r = some result ∧
      Restores guard result [] := by
  have hown : ownDeliveries c channel = [] := by
    simp [ownDeliveries, Channel.displayed, hbackends]
  have hfollows : channel.followsLink r = false := by
    simp [Channel.followsLink, hlink, hlinkTo]
  simp only [display, hc, hfollows, hown, if_true]
  split
  next => exact ⟨_, rfl, h, rfl, rfl⟩
  next =>
    split
    next hblocked => exact ⟨_, rfl, restores_blocked h hblocked l⟩
    next hentered =>
      have hin : (guard.enter c).1 = true := by simpa using hentered
      split
      next => exact ⟨_, rfl, restores_leave h hin l []⟩
      next => exact ⟨_, rfl, restores_leave h hin l []⟩

theorem filter_not_passing {l : Logger} {r : Record} {c : Nat}
    (h : l.passes r c = false) : [c].filter (l.passes r) = [] := by
  simp [h]

/-- Where a channel does not pass the record on, the walk ends. -/
theorem walk_of_next_none {l : Logger} {r : Record} {fuel : Nat}
    {visited : List Nat} {c : Nat} {nodes : List Nat}
    (hnext : l.next r c = none)
    (hwalk : walk (l.next r) (fuel + 1) visited c = some nodes) :
    nodes = if c ∈ visited then [] else [c] := by
  rw [walk, hnext] at hwalk
  split at hwalk <;> simp only [Option.some.injEq] at hwalk <;> simp [*]

/-- A channel that does not pass contributes nothing to the walk. -/
theorem filter_walk_not_passing {l : Logger} {r : Record} {fuel : Nat}
    {visited : List Nat} {c : Nat} {nodes : List Nat}
    (hpasses : l.passes r c = false)
    (hwalk : walk (l.next r) (fuel + 1) visited c = some nodes) :
    nodes.filter (l.passes r) = [] := by
  have hnext : l.next r c = none := by
    unfold next
    split
    next => rw [hpasses, Bool.false_and, if_neg Bool.false_ne_true]
    next => rfl
  rw [walk_of_next_none hnext hwalk]
  split
  next => rfl
  next => exact filter_not_passing hpasses

/-- The channel has entered and passes the record: what is left is its link. -/
theorem display_passing {l : Logger} {r : Record} {fuel : Nat}
    {guard : ReentryState Nat} (h : guard.WellFormed) {c : Nat}
    {channel : Channel} (hc : l.heap[c]? = some channel)
    (hentered : (guard.enter c).1 = true) (hpasses : l.passes r c = true)
    {nodes : List Nat}
    (hwalk : walk (l.next r) (fuel + 1) guard.stack c = some nodes)
    (ih : ∀ d rest, walk (l.next r) fuel (guard.enter c).2.stack d = some rest →
      ∃ result, display (fuel + 1) l (guard.enter c).2 d r = some result ∧
        Restores (guard.enter c).2 result
          ((rest.filter (l.passes r)).flatMap l.deliveriesOf)) :
    ∃ result, display (fuel + 1 + 1) l guard c r = some result ∧
      Restores guard result ((nodes.filter (l.passes r)).flatMap l.deliveriesOf) := by
  have hspec := ReentryState.enter_spec h c
  have hfresh : c ∉ guard.stack := hspec.entered.mp hentered
  have hown : l.deliveriesOf c = ownDeliveries c channel := by
    rw [deliveriesOf, hc]
  have hstack : (guard.enter c).2.stack = guard.stack ++ [c] := by
    rw [hspec.stack, if_neg hfresh]
  have hlast : ([c].filter (l.passes r)).flatMap l.deliveriesOf =
      ownDeliveries c channel := by
    simp [hpasses, hown]
  have hchecks := hpasses
  rw [passes_eq hc, Bool.and_eq_true, Bool.and_eq_true] at hchecks
  rcases hchecks with ⟨⟨hshutdown, henabled⟩, haccepts⟩
  have hnext := next_eq hc r
  rw [hpasses, Bool.true_and] at hnext
  have hon : ¬ (l.shutdownCalled || !channel.enabled) = true := by
    simp only [Bool.not_eq_true'] at hshutdown
    simp [hshutdown, henabled]
  rw [display]
  simp only [hc]
  rw [if_neg hon, if_neg (by simp [hentered]), if_neg (by simp [haccepts])]
  by_cases hfollows : channel.followsLink r = true
  · rw [if_neg (by simp [hfollows])]
    rw [if_pos hfollows] at hnext
    cases htarget : l.linkTarget channel with
    | mk target l' =>
        rw [htarget] at hnext
        cases target with
        | none =>
            rw [walk_of_next_none hnext hwalk, if_neg hfresh, hlast]
            exact ⟨_, rfl, restores_leave h hentered l' _⟩
        | some d =>
            rw [walk, if_neg hfresh, hnext] at hwalk
            obtain ⟨rest, hrest, rfl⟩ := Option.map_eq_some_iff.mp hwalk
            rw [List.filter_append, List.flatMap_append, hlast]
            have hlinked : ∃ result,
                display (fuel + 1) l' (guard.enter c).2 d r = some result ∧
                  Restores (guard.enter c).2 result
                    ((rest.filter (l.passes r)).flatMap l.deliveriesOf) := by
              rcases linkTarget_cases htarget with
                rfl | ⟨rfl, created, hcreated, hbackends, hlink, hlinkTo⟩
              · apply ih
                rw [hstack]
                exact hrest
              · have hmissing : l.passes r l.heap.length = false := by
                  simp [passes]
                cases fuel with
                | zero => simp [walk] at hrest
                | succ fuel =>
                    rw [filter_walk_not_passing hmissing hrest]
                    exact display_empty hspec.wellFormed hcreated hbackends hlink
                      hlinkTo _ r
            obtain ⟨result, hresult, hrestores⟩ := hlinked
            dsimp only
            rw [hresult]
            refine ⟨_, rfl, ?_⟩
            exact ⟨ReentryState.leave_wellFormed hrestores.wellFormed true,
              ReentryState.leave_enter_stack h hrestores.wellFormed hentered
                hrestores.stack,
              congrArg (· ++ ownDeliveries c channel) hrestores.deliveries⟩
  · rw [if_pos (by simpa using hfollows)]
    rw [if_neg hfollows] at hnext
    rw [walk_of_next_none hnext hwalk, if_neg hfresh, hlast]
    exact ⟨_, rfl, restores_leave h hentered l _⟩

/-- The walk and `display` take the same steps; the last step, into a created
channel, needs one more. -/
theorem display_walk {l : Logger} {r : Record} {fuel : Nat}
    {guard : ReentryState Nat} (h : guard.WellFormed) {c : Nat}
    {nodes : List Nat}
    (hwalk : walk (l.next r) fuel guard.stack c = some nodes) :
    ∃ result, display (fuel + 1) l guard c r = some result ∧
      Restores guard result ((nodes.filter (l.passes r)).flatMap l.deliveriesOf) := by
  induction fuel generalizing guard c nodes with
  | zero => simp [walk] at hwalk
  | succ fuel ih =>
      have hspec := ReentryState.enter_spec h c
      by_cases hpasses : l.passes r c = true
      · cases hentered : (guard.enter c).1 with
        | true =>
            obtain ⟨channel, hc⟩ : ∃ channel, l.heap[c]? = some channel := by
              cases hc : l.heap[c]? with
              | none => simp [passes, hc] at hpasses
              | some channel => exact ⟨channel, rfl⟩
            exact display_passing h hc hentered hpasses hwalk
              fun d rest hrest => ih hspec.wellFormed hrest
        | false =>
            have hvisited : c ∈ guard.stack := by
              by_contra hnot
              rw [hspec.entered.mpr hnot] at hentered
              exact absurd hentered (by decide)
            rw [walk, if_pos hvisited, Option.some.injEq] at hwalk
            subst hwalk
            rw [display]
            split
            next => exact ⟨_, rfl, h, rfl, rfl⟩
            next =>
              split
              next => exact ⟨_, rfl, h, rfl, rfl⟩
              next => exact ⟨_, rfl, restores_blocked h hentered l⟩
      · rw [filter_walk_not_passing (by simpa using hpasses) hwalk]
        rw [display]
        cases hc : l.heap[c]? with
        | none => exact ⟨_, rfl, h, rfl, rfl⟩
        | some channel =>
            rw [passes_eq hc] at hpasses
            dsimp only
            split
            next => exact ⟨_, rfl, h, rfl, rfl⟩
            next hon =>
              split
              next hblocked => exact ⟨_, rfl, restores_blocked h hblocked l⟩
              next hentered =>
                have hrejects : l.accepts channel r = false := by
                  by_contra haccepts
                  simp only [Bool.or_eq_true, Bool.not_eq_true', not_or,
                    Bool.not_eq_false] at hon haccepts
                  exact hpasses (by simp [hon, haccepts])
                rw [if_pos hrejects]
                exact ⟨_, rfl, restores_leave h (by simpa using hentered) l _⟩

/-- More fuel does not change a result. -/
theorem display_mono {l : Logger} {guard : ReentryState Nat} {c : Nat}
    {r : Record} {result : Displayed} {fuel : Nat}
    (h : display fuel l guard c r = some result) {more : Nat}
    (hmore : fuel ≤ more) : display more l guard c r = some result := by
  induction fuel generalizing l guard c result more with
  | zero => simp [display] at h
  | succ fuel ih =>
      cases more with
      | zero => omega
      | succ more =>
          rw [display] at h ⊢
          split at h <;> try exact h
          next channel hc =>
            split at h
            next hoff => rw [if_pos hoff]; exact h
            next hon =>
              rw [if_neg hon]
              split at h
              next hblocked => rw [if_pos hblocked]; exact h
              next hentered =>
                rw [if_neg hentered]
                dsimp only at h ⊢
                split at h
                next hrejects => rw [if_pos hrejects]; exact h
                next haccepts =>
                  rw [if_neg haccepts]
                  split at h
                  next hlinkless => rw [if_pos hlinkless]; exact h
                  next hlinked =>
                    rw [if_neg hlinked]
                    split at h
                    next => exact h
                    next d l' htarget =>
                      obtain ⟨inner, hinner, rfl⟩ := Option.map_eq_some_iff.mp h
                      rw [ih hinner (by omega)]
                      rfl

/-- The fuel with which every display ends: a step for each channel, one into
a created channel and one into a channel on the stack. -/
def displayFuel (l : Logger) : Nat := l.heap.length + 2

/-- `display` ends, restores the guard and delivers once to every channel that
receives the record; nothing is delivered to the channels that are open. -/
structure DisplaysOnce (l : Logger) (guard : ReentryState Nat)
    (opened : List Nat) (c : Nat) (r : Record) (result : Displayed) : Prop where
  returns : ∀ fuel, l.displayFuel ≤ fuel →
    display fuel l guard c r = some result
  wellFormed : result.guard.WellFormed
  stack : result.guard.stack = guard.stack
  extended : l.Extends result.logger
  deliveries : ∃ receivers : List Nat, receivers.Nodup ∧
    (∀ d, d ∈ receivers ↔ l.Receives r opened c d) ∧
    result.deliveries = receivers.flatMap l.deliveriesOf
  nodup : result.deliveries.Nodup

theorem deliveriesOf_nodup (l : Logger) (c : Nat) : (l.deliveriesOf c).Nodup := by
  unfold deliveriesOf
  split
  next channel _ =>
    apply (Channel.displayed_nodup channel).map
    intro a b hab
    simpa using hab
  next => exact List.nodup_nil

theorem channel_of_mem_deliveriesOf {l : Logger} {c : Nat} {d : Delivery}
    (h : d ∈ l.deliveriesOf c) : d.channel = c := by
  unfold deliveriesOf at h
  split at h
  next =>
    obtain ⟨backend, -, rfl⟩ := List.mem_map.mp h
    rfl
  next => simp at h

theorem nodup_flatMap_deliveriesOf (l : Logger) {receivers : List Nat}
    (h : receivers.Nodup) : (receivers.flatMap l.deliveriesOf).Nodup := by
  rw [List.nodup_flatMap]
  refine ⟨fun c _ => l.deliveriesOf_nodup c, ?_⟩
  apply h.imp
  intro a b hab d ha hb
  exact hab ((channel_of_mem_deliveriesOf ha).symm.trans
    (channel_of_mem_deliveriesOf hb))

/-- Only the elements of the list of open channels matter. -/
theorem Receives.congr {l : Logger} {r : Record} {opened opened' : List Nat}
    (h : ∀ d, d ∈ opened ↔ d ∈ opened') {c d : Nat} :
    l.Receives r opened c d ↔ l.Receives r opened' c d := by
  simp only [Receives, Reaches, h]

theorem display_displaysOnce (l : Logger) {guard : ReentryState Nat}
    (hguard : guard.WellFormed) (c : Nat) (r : Record) :
    ∃ result, l.DisplaysOnce guard guard.stack c r result := by
  have hremaining : remaining (List.range l.heap.length) guard.stack <
      l.heap.length + 1 :=
    Nat.lt_succ_of_le (Nat.le_trans (List.length_filter_le _ _)
      (Nat.le_of_eq List.length_range))
  obtain ⟨nodes, hwalk⟩ := Option.isSome_iff_exists.mp
    (walk_isSome (fun _ _ h => lt_length_of_next (r := r) h) c hremaining)
  have hw := walk_spec hwalk
  obtain ⟨result, hresult, hrestores⟩ := display_walk hguard hwalk
  refine ⟨result, fun fuel hfuel => display_mono hresult hfuel,
    hrestores.wellFormed, hrestores.stack, display_extends hresult, ?_, ?_⟩
  · refine ⟨nodes.filter (l.passes r), hw.nodup.filter _, ?_,
      hrestores.deliveries⟩
    intro d
    rw [List.mem_filter, hw.mem_iff, Receives]
  · rw [hrestores.deliveries]
    exact nodup_flatMap_deliveriesOf l (hw.nodup.filter _)

/-! ## Deliveries of a display -/

theorem mem_deliveriesOf {l : Logger} {c : Nat} {channel : Channel}
    (hc : l.heap[c]? = some channel) (backend : Nat) :
    ⟨c, backend⟩ ∈ l.deliveriesOf c ↔ backend ∈ channel.displayed := by
  rw [deliveriesOf, hc]
  simp [ownDeliveries]

theorem DisplaysOnce.mem_iff {l : Logger} {guard : ReentryState Nat}
    {opened : List Nat} {c : Nat} {r : Record} {result : Displayed}
    (h : l.DisplaysOnce guard opened c r result) (d : Delivery) :
    d ∈ result.deliveries ↔
      l.Receives r opened c d.channel ∧ d ∈ l.deliveriesOf d.channel := by
  obtain ⟨receivers, -, hreceives, hdeliveries⟩ := h.deliveries
  rw [hdeliveries, List.mem_flatMap]
  constructor
  · rintro ⟨e, he, hd⟩
    have hchannel := channel_of_mem_deliveriesOf hd
    subst hchannel
    exact ⟨(hreceives d.channel).mp he, hd⟩
  · rintro ⟨hreceived, hd⟩
    exact ⟨d.channel, (hreceives d.channel).mpr hreceived, hd⟩

/-- A channel whose filters reject the record passes it on to nobody. -/
theorem Receives.passes_start {l : Logger} {r : Record} {opened : List Nat}
    {c d : Nat} (h : l.Receives r opened c d) : l.passes r c = true := by
  rcases h with ⟨⟨-, hreach⟩, hpasses⟩
  rcases hreach.cases_head with rfl | ⟨e, ⟨-, hnext⟩, -⟩
  · exact hpasses
  · unfold next at hnext
    split at hnext
    next =>
      split at hnext
      next hboth => exact (Bool.and_eq_true_iff.mp hboth).1
      next => simp at hnext
    next => simp at hnext

/-- Where the link is not followed only the channel itself receives. -/
theorem Receives.eq_start {l : Logger} {r : Record} {opened : List Nat}
    {c d : Nat} (h : l.Receives r opened c d) (hnext : l.next r c = none) :
    d = c := by
  rcases h.1.2.cases_head with rfl | ⟨e, hedge, -⟩
  · rfl
  · rw [hnext] at hedge
    exact absurd hedge.2 (by simp)

theorem DisplaysOnce.own_iff {l : Logger} {guard : ReentryState Nat}
    {opened : List Nat} {c : Nat} {r : Record} {result : Displayed}
    (h : l.DisplaysOnce guard opened c r result) (hopen : c ∉ opened)
    {channel : Channel} (hc : l.heap[c]? = some channel) {backend : Nat}
    (hbackend : backend ∈ channel.displayed) :
    ⟨c, backend⟩ ∈ result.deliveries ↔ l.passes r c = true := by
  rw [h.mem_iff, mem_deliveriesOf hc]
  constructor
  · exact fun hd => hd.1.2
  · exact fun hpasses => ⟨⟨⟨hopen, .refl⟩, hpasses⟩, hbackend⟩

/-- Nothing is delivered at a channel that is inactive or rejects the record. -/
theorem DisplaysOnce.deliveries_nil {l : Logger} {guard : ReentryState Nat}
    {opened : List Nat} {c : Nat} {r : Record} {result : Displayed}
    (h : l.DisplaysOnce guard opened c r result) {channel : Channel}
    (hc : l.heap[c]? = some channel)
    (hsilent : channel.active = false ∨ l.passes r c = false) :
    result.deliveries = [] := by
  apply List.eq_nil_iff_forall_not_mem.mpr
  intro d hd
  rcases h.mem_iff d |>.mp hd with ⟨hreceived, hown⟩
  have hpasses := hreceived.passes_start
  rcases hsilent with hinactive | hrejects
  · rcases Channel.inactive_of hinactive with ⟨hlink, hlinkTo, hempty⟩
    have hnext : l.next r c = none := by
      rw [next_eq hc, Channel.followsLink, hlink, hlinkTo]
      simp
    have hchannel := hreceived.eq_start hnext
    rcases d with ⟨e, backend⟩
    subst hchannel
    rw [passes_eq hc, Bool.and_eq_true, Bool.and_eq_true] at hpasses
    rw [mem_deliveriesOf hc, Channel.displayed, hempty hpasses.1.2] at hown
    simp at hown
  · rw [hpasses] at hrejects
    exact absurd hrejects (by decide)

/-- On every graph of channels, and from every nesting of displays, `display`
ends and delivers a record exactly to the channels that it reaches outside the
call stack, once to each of their backends; the guard is the set of the
channels on the call stack. -/
theorem display_over_links {thread : OpenGuards Nat}
    (hreach : Reachable OpenGuards.step .start thread) (l : Logger) (c : Nat)
    (r : Record) :
    (∃ result, l.DisplaysOnce thread.state thread.channels c r result) ∧
    ∀ channel, (thread.state.enter channel).1 = true ↔
      channel ∉ thread.channels := by
  refine ⟨?_, OpenGuards.enters_iff hreach⟩
  have hinv := OpenGuards.reachable_inv hreach
  obtain ⟨result, hresult⟩ := l.display_displaysOnce hinv.wellFormed c r
  rcases hresult with
    ⟨hreturns, hwellFormed, hstack, hextends, ⟨receivers, hnodup, hmem, hdeliveries⟩,
      hall⟩
  refine ⟨result, hreturns, hwellFormed, hstack, hextends,
    ⟨receivers, hnodup, fun d => ?_, hdeliveries⟩, hall⟩
  rw [hmem d]
  exact Receives.congr hinv.mem_stack

/-- The default channel and a second channel that link to each other. -/
def linkCycle : Logger :=
  let created := ((new 0).createChannelInternal [65] .default .default).2
  (created.modifyChannel 0 fun c => c.addLinkPtr (some 1)).modifyChannel 1
    fun c => (c.addBackend 1).addLinkPtr (some 0)

/-- A record displayed on a cycle of two channels. -/
theorem display_over_links_cycle :
    (∃ result, linkCycle.DisplaysOnce OpenGuards.start.state
      (OpenGuards.start : OpenGuards Nat).channels 0 ⟨.info, 0, none, []⟩ result) ∧
    ∀ channel, ((OpenGuards.start : OpenGuards Nat).state.enter channel).1 = true ↔
      channel ∉ (OpenGuards.start : OpenGuards Nat).channels :=
  display_over_links .refl linkCycle 0 ⟨.info, 0, none, []⟩

example : (display linkCycle.displayFuel linkCycle .initial 0
    ⟨.info, 0, none, []⟩).map (·.deliveries) = some [⟨1, 1⟩, ⟨0, 0⟩] := by
  decide

end Logger
end Logme
