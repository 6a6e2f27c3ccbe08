import Logme.DoLog

/-!
# The error copy

A record of level `ERROR` or higher is displayed at its channel `c` and, if the
error channel has another name, once more there with `DisableLink` added to the
flags.  The links of `c` can lead to the error channel as well, and the record's
override can remove `DisableLink` again.
-/

namespace Logme
namespace Logger

open PointerChain

/-! ## Deliveries after channels have been created -/

/-- Only a channel with a link has a successor. -/
theorem linked_of_next {l : Logger} {r : Record} {a b : Nat}
    (h : l.next r a = some b) : ∃ channel, l.heap[a]? = some channel ∧
      (channel.link ≠ none ∨ channel.linkTo ≠ none) := by
  unfold next at h
  split at h
  next channel hc =>
    refine ⟨channel, hc, ?_⟩
    by_contra hnone
    rw [not_or, not_not, not_not] at hnone
    simp [Channel.followsLink, hnone.1, hnone.2] at h
  next => simp at h

theorem Extends.old_of_linked {l l' : Logger} (h : l.Extends l') {r : Record}
    {a b : Nat} (hnext : l'.next r a = some b) : ∃ channel, l.heap[a]? = some channel := by
  obtain ⟨channel, hc, hlink⟩ := linked_of_next hnext
  rcases h.created a channel hc with hold | ⟨-, hnone, hnoneTo⟩
  · exact ⟨channel, hold⟩
  · rcases hlink with hlink | hlinkTo
    · exact absurd hnone hlink
    · exact absurd hnoneTo hlinkTo

theorem Extends.existing {l l' : Logger} (h : l.Extends l') {name : Name} {c : Nat}
    (hc : l.getExistingChannel name = some c) : l'.getExistingChannel name = some c := by
  unfold getExistingChannel at hc ⊢
  split
  next hempty =>
    rw [if_pos hempty] at hc
    rw [h.default, hc]
  next hnamed =>
    rw [if_neg hnamed] at hc
    exact h.looked name c hc

/-- When `GetChannel` finds a channel that exists already. -/
theorem getChannel_eq_old {l : Logger} {name : Name} {c : Nat} {channel : Channel}
    (hc : l.heap[c]? = some channel) :
    (l.getChannel name).1 = some c ↔ l.getExistingChannel name = some c ∨
      (l.getExistingChannel name = none ∧ l.shutdownCalled = false ∧
        l.channels.lookup name = some c) := by
  unfold getChannel
  cases hexisting : l.getExistingChannel name with
  | some d => simp
  | none =>
      unfold createChannelInternal
      cases hshutdown : l.shutdownCalled with
      | true => simp
      | false =>
          cases hlookup : l.channels.lookup name with
          | some d => simp
          | none =>
              have hlt := (List.getElem?_eq_some_iff.mp hc).1
              simp only [Bool.false_eq_true, if_false, Option.some.injEq, reduceCtorEq,
                and_false, or_false, iff_false]
              omega

/-- Creating channels does not change which channel `GetChannel` finds. -/
theorem Extends.getChannel_iff {l l' : Logger} (h : l.Extends l') {name : Name}
    {c : Nat} {channel : Channel} (hc : l.heap[c]? = some channel) :
    (l'.getChannel name).1 = some c ↔ (l.getChannel name).1 = some c := by
  rw [getChannel_eq_old hc, getChannel_eq_old (h.kept c channel hc), h.shutdownCalled]
  have hlookup : l'.channels.lookup name = some c ↔ l.channels.lookup name = some c := by
    refine ⟨fun hnew => ?_, h.looked name c⟩
    rcases h.registered name c hnew with hold | hnone
    · exact hold
    · rw [hc] at hnone
      exact absurd hnone (by simp)
  unfold getExistingChannel
  split
  next => rw [h.default, hlookup]
  next =>
    rw [hlookup]
    constructor
    · rintro (hfound | ⟨-, -, hfound⟩)
      · exact .inl hfound
      · exact .inl hfound
    · rintro (hfound | ⟨-, -, hfound⟩)
      · exact .inl hfound
      · exact .inl hfound

theorem linkTarget_fst (l : Logger) (channel : Channel) :
    (l.linkTarget channel).1 =
      match channel.linkTo, channel.link with
      | some c, _ => some c
      | none, some name => (l.getChannel name).1
      | none, none => none := by
  unfold linkTarget
  cases channel.linkTo with
  | some c => rfl
  | none => cases channel.link <;> rfl

theorem Extends.next_iff {l l' : Logger} (h : l.Extends l') {r : Record} {a b : Nat}
    {source target : Channel} (ha : l.heap[a]? = some source)
    (hb : l.heap[b]? = some target) : l'.next r a = some b ↔ l.next r a = some b := by
  rw [next_eq ha, next_eq (h.kept a source ha), h.passes ha]
  split
  next =>
    rw [linkTarget_fst, linkTarget_fst]
    split
    next => rfl
    next => exact h.getChannel_iff hb
    next => rfl
  next => rfl

theorem old_of_next {l l' : Logger} (h : l.Extends l') {r : Record} {opened : List Nat}
    {a d : Nat} (hreach : Reaches (l'.next r) opened a d) {channel : Channel}
    (hd : l.heap[d]? = some channel) : ∃ source, l.heap[a]? = some source := by
  rcases hreach.cases_head with rfl | ⟨b, hedge, -⟩
  · exact ⟨channel, hd⟩
  · exact h.old_of_linked hedge.2

/-- Created channels do not change what is reached among the others. -/
theorem Extends.reaches_iff {l l' : Logger} (h : l.Extends l') {r : Record}
    {opened : List Nat} {a d : Nat} {channel : Channel}
    (hd : l.heap[d]? = some channel) :
    Reaches (l'.next r) opened a d ↔ Reaches (l.next r) opened a d := by
  constructor
  · intro hreach
    induction hreach using Relation.ReflTransGen.head_induction_on with
    | refl => exact .refl
    | head hedge hrest ih =>
        obtain ⟨source, ha⟩ := h.old_of_linked hedge.2
        obtain ⟨target, hb⟩ := old_of_next h hrest hd
        exact .head ⟨hedge.1, (h.next_iff ha hb).mp hedge.2⟩ ih
  · intro hreach
    induction hreach using Relation.ReflTransGen.head_induction_on with
    | refl => exact .refl
    | head hedge hrest ih =>
        obtain ⟨source, ha, -⟩ := linked_of_next hedge.2
        obtain ⟨target, hb⟩ := old_of_next (.refl l) hrest hd
        exact .head ⟨hedge.1, (h.next_iff ha hb).mpr hedge.2⟩ ih

/-- A display after channels have been created delivers the same. -/
theorem Extends.delivered_iff {l l' : Logger} (h : l.Extends l') {r : Record}
    {opened : List Nat} {c : Nat} (d : Delivery) :
    (l'.Receives r opened c d.channel ∧ d ∈ l'.deliveriesOf d.channel) ↔
      (l.Receives r opened c d.channel ∧ d ∈ l.deliveriesOf d.channel) := by
  cases hc : l.heap[d.channel]? with
  | some channel =>
      rw [Receives, Receives, h.reaches_iff hc, h.passes hc, deliveriesOf, deliveriesOf,
        hc, h.kept d.channel channel hc]
  | none =>
      have hold : d ∉ l.deliveriesOf d.channel := by simp [deliveriesOf, hc]
      have hnew : d ∉ l'.deliveriesOf d.channel := by
        unfold deliveriesOf
        split
        next channel hchannel =>
          rcases h.created d.channel channel hchannel with hkept | ⟨hempty, -⟩
          · rw [hc] at hkept
            exact absurd hkept (by simp)
          · simp [ownDeliveries, Channel.displayed, hempty]
        next => simp
      exact ⟨fun hd => absurd hd.2 hnew, fun hd => absurd hd.2 hold⟩

/-! ## The error copy -/

/-- The error channel `e` exists, has backends and displays both the record and
its copy. -/
structure ErrorChannelReady (l : Logger) (r : Record) (e : Nat) (name : Name)
    (target : Channel) : Prop where
  named : l.errorChannel = some name
  existing : l.getExistingChannel name = some e
  found : l.heap[e]? = some target
  backends : target.displayed ≠ []
  passes : l.passes r e = true
  copyPasses : l.passes (errorRecord r) e = true

/-- Each backend of the error channel `e` has received the record exactly once,
and the other channels only through the links of `c`, and no more than once. -/
structure DeliveredOnce (l : Logger) (r : Record) (c e : Nat) (target : Channel)
    (deliveries : List Delivery) : Prop where
  once : ∀ backend ∈ target.displayed, deliveries.count ⟨e, backend⟩ = 1
  unlinked : ∀ d ∈ deliveries, d.channel ≠ e →
    l.Receives r [] c d.channel ∧ deliveries.count d = 1

/-- When the error copy is right: it is made exactly if the links of `c` do not
lead to `e`, and its own links lead to no backends. -/
structure CopyFits (l : Logger) (r : Record) (c e : Nat) (channel : Channel)
    (name : Name) : Prop where
  exclusive : l.Receives r [] c e ↔ channel.name = name
  ends : channel.name ≠ name → ∀ d ≠ e, l.Receives (errorRecord r) [] e d →
    l.deliveriesOf d = []

/-- The deliveries are those of a display of the record at `c`. -/
structure DeliveredFrom (l : Logger) (r : Record) (c : Nat)
    (deliveries : List Delivery) : Prop where
  nodup : deliveries.Nodup
  mem : ∀ d, d ∈ deliveries ↔
    l.Receives r [] c d.channel ∧ d ∈ l.deliveriesOf d.channel

theorem DisplaysOnce.deliveredFrom {l l' : Logger} (hextends : l.Extends l')
    {guard : ReentryState Nat} (hstack : guard.stack = []) {c : Nat} {r : Record}
    {result : Displayed} (h : l'.DisplaysOnce guard guard.stack c r result) :
    l.DeliveredFrom r c result.deliveries := by
  rw [hstack] at h
  refine ⟨h.nodup, fun d => ?_⟩
  rw [h.mem_iff, hextends.delivered_iff]

theorem DeliveredFrom.mem_backend {l : Logger} {r : Record} {c e : Nat}
    {deliveries : List Delivery} (h : l.DeliveredFrom r c deliveries)
    {target : Channel} (he : l.heap[e]? = some target) {backend : Nat}
    (hbackend : backend ∈ target.displayed) :
    ⟨e, backend⟩ ∈ deliveries ↔ l.Receives r [] c e := by
  rw [h.mem, mem_deliveriesOf he]
  exact and_iff_left hbackend

/-- Without a copy the links have to lead to the error channel. -/
theorem deliveredOnce_iff_of_no_copy {l : Logger} {r : Record} {c e : Nat}
    {channel target : Channel} {name : Name} (hsame : channel.name = name)
    (hready : l.ErrorChannelReady r e name target) {own : List Delivery}
    (hown : l.DeliveredFrom r c own) :
    l.DeliveredOnce r c e target own ↔ l.CopyFits r c e channel name := by
  constructor
  · intro honce
    obtain ⟨backend, hbackend⟩ := List.exists_mem_of_ne_nil _ hready.backends
    have hmem : ⟨e, backend⟩ ∈ own := by
      rw [← List.count_pos_iff, honce.once backend hbackend]
      exact Nat.one_pos
    have hreceives := (hown.mem_backend hready.found hbackend).mp hmem
    exact ⟨iff_of_true hreceives hsame, fun hother => absurd hsame hother⟩
  · intro hfits
    refine ⟨?_, ?_⟩
    · intro backend hbackend
      apply List.count_eq_one_of_mem hown.nodup
      exact (hown.mem_backend hready.found hbackend).mpr (hfits.exclusive.mpr hsame)
    · intro d hd _
      exact ⟨((hown.mem d).mp hd).1, List.count_eq_one_of_mem hown.nodup hd⟩

/-- With a copy the links must not lead to the error channel, and the copy must
stop there. -/
theorem deliveredOnce_iff_of_copy {l : Logger} {r : Record} {c e : Nat}
    {channel target : Channel} {name : Name} (hother : channel.name ≠ name)
    (hready : l.ErrorChannelReady r e name target) {own copy : List Delivery}
    (hown : l.DeliveredFrom r c own)
    (hcopy : l.DeliveredFrom (errorRecord r) e copy) :
    l.DeliveredOnce r c e target (own ++ copy) ↔ l.CopyFits r c e channel name := by
  have hcopied : ∀ backend ∈ target.displayed, copy.count ⟨e, backend⟩ = 1 := by
    intro backend hbackend
    apply List.count_eq_one_of_mem hcopy.nodup
    apply (hcopy.mem_backend hready.found hbackend).mpr
    exact ⟨⟨by simp, .refl⟩, hready.copyPasses⟩
  constructor
  · intro honce
    refine ⟨?_, ?_⟩
    · refine iff_of_false (fun hreceives => ?_) hother
      obtain ⟨backend, hbackend⟩ := List.exists_mem_of_ne_nil _ hready.backends
      have hmem := (hown.mem_backend hready.found hbackend).mpr hreceives
      have htwice := honce.once backend hbackend
      rw [List.count_append, List.count_eq_one_of_mem hown.nodup hmem,
        hcopied backend hbackend] at htwice
      omega
    · intro _ d hd hreceives
      by_contra hbackends
      obtain ⟨x, hx⟩ := List.exists_mem_of_ne_nil _ hbackends
      have hchannel := channel_of_mem_deliveriesOf hx
      subst hchannel
      have hinCopy := (hcopy.mem x).mpr ⟨hreceives, hx⟩
      rcases honce.unlinked x (List.mem_append_right _ hinCopy) hd with
        ⟨hreached, htwice⟩
      have hinOwn := (hown.mem x).mpr ⟨hreached, hx⟩
      rw [List.count_append, List.count_eq_one_of_mem hown.nodup hinOwn,
        List.count_eq_one_of_mem hcopy.nodup hinCopy] at htwice
      omega
  · intro hfits
    have hends : ∀ d ∈ copy, d.channel = e := by
      intro d hd
      by_contra hne
      rcases (hcopy.mem d).mp hd with ⟨hreceives, hmem⟩
      rw [hfits.ends hother d.channel hne hreceives] at hmem
      simp at hmem
    refine ⟨?_, ?_⟩
    · intro backend hbackend
      have hnot : ⟨e, backend⟩ ∉ own := by
        rw [hown.mem_backend hready.found hbackend, hfits.exclusive]
        exact hother
      rw [List.count_append, List.count_eq_zero_of_not_mem hnot,
        hcopied backend hbackend]
    · intro d hd hne
      have hnot : d ∉ copy := fun hmem => hne (hends d hmem)
      have hmem := (List.mem_append.mp hd).resolve_right hnot
      refine ⟨((hown.mem d).mp hmem).1, ?_⟩
      rw [List.count_append, List.count_eq_one_of_mem hown.nodup hmem,
        List.count_eq_zero_of_not_mem hnot]

/-! ## `DoLog` -/

theorem hasOtherErrorChannel_eq {l : Logger} {r : Record} {e : Nat} {name : Name}
    {channel target : Channel} (hready : l.ErrorChannelReady r e name target) :
    l.hasOtherErrorChannel channel = decide (channel.name ≠ name) := by
  rw [hasOtherErrorChannel, hready.named]

theorem errorTarget_of_same {l : Logger} {name : Name} {channel : Channel}
    (hnamed : l.errorChannel = some name) (hsame : channel.name = name)
    (level : Level) : l.errorTarget channel level = none := by
  rw [errorTarget, hnamed]
  split
  next => rfl
  next =>
    dsimp only
    rw [if_pos hsame]

theorem errorTarget_of_other {l : Logger} {name : Name} {channel : Channel}
    (hnamed : l.errorChannel = some name) (hother : channel.name ≠ name)
    {level : Level} (hlevel : .error ≤ level) :
    l.errorTarget channel level = l.getExistingChannel name := by
  rw [errorTarget, hnamed, if_neg (Level.not_lt.mpr hlevel)]
  dsimp only
  rw [if_neg hother]

/-- A silent channel delivers a record to nobody. -/
theorem deliveredFrom_nil_of_silent {l : Logger} {r : Record} {c : Nat}
    {channel : Channel} (hc : l.heap[c]? = some channel)
    (hsilent : l.Silent channel r.level r.subsystem) : l.DeliveredFrom r c [] := by
  obtain ⟨result, hresult⟩ :=
    l.display_displaysOnce ReentryState.initial_wellFormed c r
  rw [← hresult.deliveries_nil hc (hsilent.no_deliveries hc)]
  exact hresult.deliveredFrom (.refl l) ReentryState.initial_stack

/-- An error record is delivered exactly once to the error channel, and to
nobody else because of the copy, if and only if the copy fits. -/
theorem error_copy_once_iff {l : Logger} {context : Context} {now c e : Nat}
    {channel target : Channel} {text : List UInt8} {name : Name}
    (haccepted : Accepted now l context l c channel text)
    (hlevel : .error ≤ context.level)
    (hready : l.ErrorChannelReady (admittedRecord now context text) e name target)
    {guard : ReentryState Nat} (hguard : guard.WellFormed) (hstack : guard.stack = []) :
    ∃ logged, Logs now l guard context logged ∧
      (l.DeliveredOnce (admittedRecord now context text) c e target
          logged.displayed.deliveries ↔
        l.CopyFits (admittedRecord now context text) c e channel name) := by
  obtain ⟨logged, hlogs, houtcome⟩ := l.doLog_logs now hguard context
  refine ⟨logged, hlogs, ?_⟩
  cases houtcome with
  | stopped hgate =>
      -- Only the test for output can have stopped the record.
      have hignores : l.ignores channel context = true := by
        by_contra hreported
        rw [gate_of_admitted ⟨haccepted, by simpa using hreported⟩] at hgate
        simp at hgate
      rw [ignores, Bool.and_eq_true, Bool.or_eq_true, decide_eq_true_eq,
        hasOtherErrorChannel_eq hready, Bool.not_eq_true', Bool.not_eq_true',
        decide_eq_false_iff_not, not_not] at hignores
      have hsame := hignores.2.resolve_left (Level.not_lt.mpr hlevel)
      apply deliveredOnce_iff_of_no_copy hsame hready
      apply deliveredFrom_nil_of_silent haccepted.found
      rw [admittedRecord_level, admittedRecord_subsystem]
      exact silent_of_not_output hignores.1 fun _ => rfl
  | @written l' c' channel' text' own copy hadmitted hwrites =>
      have htarget := hadmitted.target
      rw [haccepted.target, Prod.mk.injEq, Option.some.injEq] at htarget
      rcases htarget with ⟨rfl, rfl⟩
      have hfound := hadmitted.found
      rw [haccepted.found, Option.some.injEq] at hfound
      subst hfound
      have htext := hadmitted.hasText
      rw [haccepted.hasText, Option.some.injEq] at htext
      subst htext
      have hextends := hwrites.displays.extended
      have hown := hwrites.displays.deliveredFrom (.refl l) hstack
      have hnamed := hextends.errorChannel.trans hready.named
      by_cases hsame : channel.name = name
      · have hcopy : copy.deliveries = [] := by
          cases hwrites.copies with
          | omitted _ hunchanged => rw [hunchanged]
          | displayed e' htarget _ =>
              rw [errorTarget_of_same hnamed hsame] at htarget
              simp at htarget
        rw [hcopy, List.append_nil]
        exact deliveredOnce_iff_of_no_copy hsame hready hown
      · have htarget : own.logger.errorTarget channel
            (admittedRecord now context text).level = some e := by
          rw [errorTarget_of_other hnamed hsame
            (by rw [admittedRecord_level]; exact hlevel)]
          exact hextends.existing hready.existing
        have hcopy : l.DeliveredFrom (errorRecord (admittedRecord now context text)) e
            copy.deliveries := by
          cases hwrites.copies with
          | omitted hnone _ =>
              rw [htarget] at hnone
              simp at hnone
          | displayed e' hsome honce =>
              rw [htarget, Option.some.injEq] at hsome
              subst hsome
              exact honce.deliveredFrom hextends
                (hwrites.displays.stack.trans hstack)
        exact deliveredOnce_iff_of_copy hsame hready hown hcopy

/-- The default channel and an error channel with one backend. -/
def withErrorChannel : Logger :=
  let created := ((new 3).createChannelInternal [69] .default .default).2
  (created.modifyChannel 1 fun c => c.addBackend 7).setErrorChannel [69]

/-- An error record for the default channel. -/
def errorExample : Context where
  level := .error
  subsystem := 0
  ovr := none
  ch := none
  channel := []
  text := some [65]
  collapseCache := none
  collapseRepeatCount := 0

theorem errorExample_accepted {l : Logger} {channel : Channel}
    (hrunning : l.shutdownCalled = false) (hdefault : l.default = some 0)
    (hc : l.heap[0]? = some channel) :
    Accepted 0 l errorExample l 0 channel [65] where
  running := hrunning
  limits := rfl
  subsystem := rfl
  target := by simp [recordChannel, errorExample, getChannel, getExistingChannel, hdefault]
  found := hc
  hasText := rfl
  collapse := rfl

/-- An error record of a channel without links. -/
theorem error_copy_once_iff_unlinked :
    ∃ logged, Logs 0 withErrorChannel .initial errorExample logged ∧
      (withErrorChannel.DeliveredOnce (admittedRecord 0 errorExample [65]) 0 1
          (((Channel.new [69] .default .default).addBackend 7))
          logged.displayed.deliveries ↔
        withErrorChannel.CopyFits (admittedRecord 0 errorExample [65]) 0 1
          ((Channel.new [] .default .default).addBackend 3) [69]) :=
  error_copy_once_iff (errorExample_accepted rfl rfl rfl) (by decide)
    ⟨rfl, rfl, rfl, by decide, by decide, by decide⟩ ReentryState.initial_wellFormed
    rfl

/-- The default channel links to the error channel, which gets the record over
the link and as a copy. -/
theorem error_copy_duplicated :
    (doLog 9 0 (withErrorChannel.modifyChannel 0 fun c => c.addLinkID [69]) .initial
      errorExample).map (·.displayed.deliveries) =
      some [⟨1, 7⟩, ⟨0, 3⟩, ⟨1, 7⟩] := by
  decide

end Logger
end Logme
