import Mathlib.Data.Set.Insert
import Logme.DoLog

/-!
# Filtering of records

The documented rule is stated over a configuration made of sets and maps: the
blocked, allowed and reported subsystems, the subsystem levels, and for each
channel whether it is enabled and its level.  The logger keeps the same
configuration in sorted lists and a copied snapshot, and the decision is split
between `DoLog`, `IsOutputActive` and `Display`.
-/

namespace Logme

inductive FilterUpdate where
  | setFilterLevel (c : Nat) (level : Level)
  | setEnabled (c : Nat) (enable : Bool)
  | addBlocked (sid : Nat)
  | removeBlocked (sid : Nat)
  | clearBlocked
  | addAllowed (sid : Nat)
  | removeAllowed (sid : Nat)
  | clearAllowed
  | clearFilters
  | report (sid : Nat)
  | unreport (sid : Nat)
  | setBlockReported (block : Bool)
  | setLevel (sid : Nat) (level : Level)
  | removeLevel (sid : Nat)
  | clearLevels

namespace Logger

def updateFilter (l : Logger) : FilterUpdate → Logger
  | .setFilterLevel c level => l.modifyChannel c fun ch => ch.setFilterLevel level
  | .setEnabled c enable => l.modifyChannel c fun ch => ch.setEnabled enable
  | .addBlocked sid => l.addBlockedSubsystem sid
  | .removeBlocked sid => l.removeBlockedSubsystem sid
  | .clearBlocked => l.clearBlockedSubsystems
  | .addAllowed sid => l.addAllowedSubsystem sid
  | .removeAllowed sid => l.removeAllowedSubsystem sid
  | .clearAllowed => l.clearAllowedSubsystems
  | .clearFilters => l.clearSubsystemFilters
  | .report sid => l.reportSubsystem sid
  | .unreport sid => l.unreportSubsystem sid
  | .setBlockReported block => l.setBlockReportedSubsystems block
  | .setLevel sid level => l.setSubsystemLevel sid level
  | .removeLevel sid => l.removeSubsystemLevel sid
  | .clearLevels => l.clearSubsystemLevels

end Logger

/-! ## The documented rule -/

structure FilterConfig where
  blocked : Set Nat
  allowed : Set Nat
  reported : Set Nat
  blockReported : Bool
  levels : Nat → Option Level
  enabled : Nat → Bool
  channelLevel : Nat → Level

namespace FilterConfig

/-- Updates for the unnamed subsystem are ignored. -/
def update (cfg : FilterConfig) : FilterUpdate → FilterConfig
  | .setFilterLevel c level =>
      { cfg with channelLevel := Function.update cfg.channelLevel c level }
  | .setEnabled c enable =>
      { cfg with enabled := Function.update cfg.enabled c enable }
  | .addBlocked sid =>
      if sid = 0 then cfg else { cfg with blocked := insert sid cfg.blocked }
  | .removeBlocked sid =>
      if sid = 0 then cfg else { cfg with blocked := cfg.blocked \ {sid} }
  | .clearBlocked => { cfg with blocked := ∅ }
  | .addAllowed sid =>
      if sid = 0 then cfg else { cfg with allowed := insert sid cfg.allowed }
  | .removeAllowed sid =>
      if sid = 0 then cfg else { cfg with allowed := cfg.allowed \ {sid} }
  | .clearAllowed => { cfg with allowed := ∅ }
  | .clearFilters => { cfg with blocked := ∅, allowed := ∅, reported := ∅ }
  | .report sid =>
      if sid = 0 then cfg
      else if cfg.blockReported then
        { cfg with
          reported := insert sid cfg.reported
          blocked := insert sid cfg.blocked }
      else
        { cfg with
          reported := insert sid cfg.reported
          allowed := insert sid cfg.allowed }
  | .unreport sid =>
      if sid = 0 then cfg
      else if cfg.blockReported then
        { cfg with
          reported := cfg.reported \ {sid}
          blocked := cfg.blocked \ {sid} }
      else
        { cfg with
          reported := cfg.reported \ {sid}
          allowed := cfg.allowed \ {sid} }
  | .setBlockReported block =>
      { cfg with
        blockReported := block
        blocked := if block then cfg.reported else ∅
        allowed := if block then ∅ else cfg.reported }
  | .setLevel sid level =>
      if sid = 0 then cfg
      else { cfg with levels := Function.update cfg.levels sid (some level) }
  | .removeLevel sid =>
      if sid = 0 then cfg
      else { cfg with levels := Function.update cfg.levels sid none }
  | .clearLevels => { cfg with levels := fun _ => none }

/-- A record of the subsystem and level passes at the channel. -/
structure Allows (cfg : FilterConfig) (c sid : Nat) (level : Level) : Prop where
  enabled : cfg.enabled c = true
  decision : (sid = 0 ∧ cfg.channelLevel c ≤ level) ∨
    (sid ≠ 0 ∧ sid ∉ cfg.blocked ∧ (sid ∈ cfg.allowed ∨ cfg.allowed = ∅) ∧
      (cfg.levels sid).getD (cfg.channelLevel c) ≤ level)

end FilterConfig

/-! ## The logger keeps the configuration -/

namespace Logger

open LowerBound

structure Keeps (l : Logger) (cfg : FilterConfig) : Prop where
  blocked : ∀ sid, sid ∈ l.blockedSubsystems ↔ sid ∈ cfg.blocked
  allowed : ∀ sid, sid ∈ l.allowedSubsystems ↔ sid ∈ cfg.allowed
  reported : ∀ sid, sid ∈ l.subsystems ↔ sid ∈ cfg.reported
  blockReported : l.blockReportedSubsystems = cfg.blockReported
  levels : ∀ sid, l.subsystemLevels.get sid = cfg.levels sid
  channels : ∀ (c : Nat) (channel : Channel), l.heap[c]? = some channel →
    channel.enabled = cfg.enabled c ∧ channel.levelFilter = cfg.channelLevel c

/-- The configuration of a logger. -/
def filterConfig (l : Logger) : FilterConfig where
  blocked := {sid | sid ∈ l.blockedSubsystems}
  allowed := {sid | sid ∈ l.allowedSubsystems}
  reported := {sid | sid ∈ l.subsystems}
  blockReported := l.blockReportedSubsystems
  levels := l.subsystemLevels.get
  enabled c := (l.heap[c]?).any Channel.enabled
  channelLevel c := (l.heap[c]?).elim .default Channel.levelFilter

theorem keeps_filterConfig (l : Logger) : l.Keeps l.filterConfig where
  blocked _ := Iff.rfl
  allowed _ := Iff.rfl
  reported _ := Iff.rfl
  blockReported := rfl
  levels _ := rfl
  channels c channel hc := by simp [filterConfig, hc]

theorem mem_addSubsystemToList {list : List Nat} (hs : Sorted id list) {S : Set Nat}
    (hmem : ∀ sid, sid ∈ list ↔ sid ∈ S) (sid s : Nat) :
    s ∈ addSubsystemToList list sid ↔ s ∈ insert sid S := by
  rw [addSubsystemToList, mem_insertNew hs, hmem, Set.mem_insert_iff]

theorem mem_removeSubsystemFromList {list : List Nat} (hs : Sorted id list)
    {S : Set Nat} (hmem : ∀ sid, sid ∈ list ↔ sid ∈ S) (sid s : Nat) :
    s ∈ removeSubsystemFromList list sid ↔ s ∈ S \ {sid} := by
  rw [removeSubsystemFromList, mem_erase hs, hmem, Set.mem_sdiff,
    Set.mem_singleton_iff]
  rfl

theorem mem_nil_iff_mem_empty (sid : Nat) : sid ∈ [] ↔ sid ∈ (∅ : Set Nat) := by
  simp

theorem mem_addAll (reported : List Nat) (sid : Nat) :
    sid ∈ addAll reported ↔ sid ∈ reported := by
  have hfold : ∀ (list : List Nat), Sorted id list →
      (sid ∈ reported.foldl addSubsystemToList list ↔ sid ∈ reported ∨ sid ∈ list) := by
    induction reported with
    | nil => simp
    | cons first rest ih =>
        intro list h
        rw [List.foldl_cons, ih _ (sorted_addSubsystemToList h first),
          addSubsystemToList, mem_insertNew h, List.mem_cons]
        tauto
  rw [addAll, hfold [] sorted_nil]
  simp

theorem Keeps.setBlocked {l : Logger} {cfg : FilterConfig} (h : l.Keeps cfg)
    {list : List Nat} (hs : Sorted id list) {blocked : Set Nat}
    (hmem : ∀ sid, sid ∈ list ↔ sid ∈ blocked) :
    (l.setBlocked list hs).Keeps { cfg with blocked := blocked } :=
  ⟨hmem, h.allowed, h.reported, h.blockReported, h.levels, h.channels⟩

theorem Keeps.setAllowed {l : Logger} {cfg : FilterConfig} (h : l.Keeps cfg)
    {list : List Nat} (hs : Sorted id list) {allowed : Set Nat}
    (hmem : ∀ sid, sid ∈ list ↔ sid ∈ allowed) :
    (l.setAllowed list hs).Keeps { cfg with allowed := allowed } :=
  ⟨h.blocked, hmem, h.reported, h.blockReported, h.levels, h.channels⟩

theorem Keeps.setReported {l : Logger} {cfg : FilterConfig} (h : l.Keeps cfg)
    {list : List Nat} (hs : Sorted id list) {reported : Set Nat}
    (hmem : ∀ sid, sid ∈ list ↔ sid ∈ reported) :
    (l.setReported list hs).Keeps { cfg with reported := reported } :=
  ⟨h.blocked, h.allowed, hmem, h.blockReported, h.levels, h.channels⟩

theorem Keeps.publishLevels {l : Logger} {cfg : FilterConfig} (h : l.Keeps cfg)
    {levels : SubsystemLevels} (hs : levels.Sorted) {table : Nat → Option Level}
    (hget : ∀ sid, levels.get sid = table sid) :
    (l.publishLevels levels hs).Keeps { cfg with levels := table } :=
  ⟨h.blocked, h.allowed, h.reported, h.blockReported, hget, h.channels⟩

/-- An operation of a channel that sets the enabled flag and the level. -/
theorem Keeps.modifyChannel {l : Logger} {cfg : FilterConfig} (h : l.Keeps cfg)
    (c : Nat) {f : Channel → Channel} {enabled : Nat → Bool}
    {channelLevel : Nat → Level}
    (hother : ∀ d ≠ c, enabled d = cfg.enabled d ∧ channelLevel d = cfg.channelLevel d)
    (hown : ∀ channel, l.heap[c]? = some channel →
      (f channel).enabled = enabled c ∧ (f channel).levelFilter = channelLevel c) :
    (l.modifyChannel c f).Keeps
      { cfg with enabled := enabled, channelLevel := channelLevel } := by
  refine ⟨h.blocked, h.allowed, h.reported, h.blockReported, h.levels, ?_⟩
  intro d channel hd
  simp only [Logger.modifyChannel, List.getElem?_modify] at hd
  obtain ⟨old, hold, rfl⟩ := Option.map_eq_some_iff.mp hd
  by_cases hdc : c = d
  · subst hdc
    rw [if_pos rfl]
    exact hown old hold
  · rw [if_neg hdc]
    dsimp only
    rw [(hother d (Ne.symm hdc)).1, (hother d (Ne.symm hdc)).2]
    exact h.channels d old hold

theorem update_eq_ite (table : Nat → Option Level) (sid : Nat)
    (level : Option Level) (sid' : Nat) :
    Function.update table sid level sid' = if sid = sid' then level else table sid' := by
  rw [Function.update_apply]
  simp only [eq_comm]

theorem updateFilter_shutdownCalled (l : Logger) (u : FilterUpdate) :
    (l.updateFilter u).shutdownCalled = l.shutdownCalled := by
  cases u with
  | removeLevel sid =>
      simp only [updateFilter, removeSubsystemLevel]
      split
      next => rfl
      next => split <;> rfl
  | report sid =>
      simp only [updateFilter, reportSubsystem]
      split
      next => rfl
      next => split <;> rfl
  | unreport sid =>
      simp only [updateFilter, unreportSubsystem]
      split
      next => rfl
      next => split <;> rfl
  | setBlockReported block =>
      simp only [updateFilter, setBlockReportedSubsystems]
      split
      next => rfl
      next => split <;> rfl
  | addBlocked sid => simp only [updateFilter, addBlockedSubsystem]; split <;> rfl
  | removeBlocked sid => simp only [updateFilter, removeBlockedSubsystem]; split <;> rfl
  | addAllowed sid => simp only [updateFilter, addAllowedSubsystem]; split <;> rfl
  | removeAllowed sid => simp only [updateFilter, removeAllowedSubsystem]; split <;> rfl
  | setLevel sid level => simp only [updateFilter, setSubsystemLevel]; split <;> rfl
  | setFilterLevel | setEnabled | clearBlocked | clearAllowed | clearFilters
  | clearLevels => rfl

theorem updateFilter_keeps {l : Logger} {cfg : FilterConfig} (h : l.Keeps cfg)
    (hrunning : l.shutdownCalled = false) (u : FilterUpdate) :
    (l.updateFilter u).Keeps (cfg.update u) := by
  cases u with
  | setFilterLevel c level =>
      apply h.modifyChannel c
      · intro d hd
        exact ⟨rfl, Function.update_of_ne hd ..⟩
      · intro channel hc
        rw [Function.update_self]
        exact ⟨(h.channels c channel hc).1, rfl⟩
  | setEnabled c enable =>
      apply h.modifyChannel c
      · intro d hd
        exact ⟨Function.update_of_ne hd .., rfl⟩
      · intro channel hc
        rw [Function.update_self]
        exact ⟨rfl, (h.channels c channel hc).2⟩
  | addBlocked sid =>
      by_cases hsid : sid = 0
      · subst hsid
        simpa [updateFilter, addBlockedSubsystem, FilterConfig.update] using h
      · rw [updateFilter, addBlockedSubsystem, if_neg (by simp [hrunning, hsid]),
          FilterConfig.update, if_neg hsid]
        exact h.setBlocked _ (mem_addSubsystemToList l.blockedSorted h.blocked sid)
  | removeBlocked sid =>
      by_cases hsid : sid = 0
      · subst hsid
        simpa [updateFilter, removeBlockedSubsystem, FilterConfig.update] using h
      · rw [updateFilter, removeBlockedSubsystem, if_neg hsid,
          FilterConfig.update, if_neg hsid]
        exact h.setBlocked _ (mem_removeSubsystemFromList l.blockedSorted h.blocked sid)
  | clearBlocked => exact h.setBlocked _ (by simp)
  | addAllowed sid =>
      by_cases hsid : sid = 0
      · subst hsid
        simpa [updateFilter, addAllowedSubsystem, FilterConfig.update] using h
      · rw [updateFilter, addAllowedSubsystem, if_neg (by simp [hrunning, hsid]),
          FilterConfig.update, if_neg hsid]
        exact h.setAllowed _ (mem_addSubsystemToList l.allowedSorted h.allowed sid)
  | removeAllowed sid =>
      by_cases hsid : sid = 0
      · subst hsid
        simpa [updateFilter, removeAllowedSubsystem, FilterConfig.update] using h
      · rw [updateFilter, removeAllowedSubsystem, if_neg hsid,
          FilterConfig.update, if_neg hsid]
        exact h.setAllowed _ (mem_removeSubsystemFromList l.allowedSorted h.allowed sid)
  | clearAllowed => exact h.setAllowed _ (by simp)
  | clearFilters =>
      have hblocked := h.setBlocked sorted_nil mem_nil_iff_mem_empty
      have hallowed := hblocked.setAllowed sorted_nil mem_nil_iff_mem_empty
      exact hallowed.setReported sorted_nil mem_nil_iff_mem_empty
  | report sid =>
      by_cases hsid : sid = 0
      · subst hsid
        simpa [updateFilter, reportSubsystem, FilterConfig.update] using h
      · rw [updateFilter, reportSubsystem, if_neg (by simp [hrunning, hsid]),
          FilterConfig.update, if_neg hsid]
        have hreported := h.setReported
          (sorted_addSubsystemToList l.reportedSorted sid)
          (mem_addSubsystemToList l.reportedSorted h.reported sid)
        have hsame := h.blockReported
        by_cases hblock : cfg.blockReported = true
        · rw [if_pos hblock]
          dsimp only
          rw [if_pos (by exact hsame.trans hblock)]
          exact hreported.setBlocked _
            (mem_addSubsystemToList l.blockedSorted h.blocked sid)
        · rw [if_neg hblock]
          dsimp only
          rw [if_neg (by exact hsame ▸ hblock)]
          exact hreported.setAllowed _
            (mem_addSubsystemToList l.allowedSorted h.allowed sid)
  | unreport sid =>
      by_cases hsid : sid = 0
      · subst hsid
        simpa [updateFilter, unreportSubsystem, FilterConfig.update] using h
      · rw [updateFilter, unreportSubsystem, if_neg hsid,
          FilterConfig.update, if_neg hsid]
        have hreported := h.setReported
          (sorted_removeSubsystemFromList l.reportedSorted sid)
          (mem_removeSubsystemFromList l.reportedSorted h.reported sid)
        have hsame := h.blockReported
        by_cases hblock : cfg.blockReported = true
        · rw [if_pos hblock]
          dsimp only
          rw [if_pos (by exact hsame.trans hblock)]
          exact hreported.setBlocked _
            (mem_removeSubsystemFromList l.blockedSorted h.blocked sid)
        · rw [if_neg hblock]
          dsimp only
          rw [if_neg (by exact hsame ▸ hblock)]
          exact hreported.setAllowed _
            (mem_removeSubsystemFromList l.allowedSorted h.allowed sid)
  | setBlockReported block =>
      rw [updateFilter, setBlockReportedSubsystems, if_neg (by simp [hrunning])]
      have hblock : ({ l with blockReportedSubsystems := block } : Logger).Keeps
          { cfg with blockReported := block } :=
        ⟨h.blocked, h.allowed, h.reported, rfl, h.levels, h.channels⟩
      have hcleared := (hblock.setBlocked sorted_nil mem_nil_iff_mem_empty).setAllowed
        sorted_nil mem_nil_iff_mem_empty
      cases block with
      | true =>
          exact hcleared.setBlocked (sorted_addAll l.subsystems)
            fun sid => (mem_addAll l.subsystems sid).trans (h.reported sid)
      | false =>
          exact hcleared.setAllowed (sorted_addAll l.subsystems)
            fun sid => (mem_addAll l.subsystems sid).trans (h.reported sid)
  | setLevel sid level =>
      by_cases hsid : sid = 0
      · subst hsid
        simpa [updateFilter, setSubsystemLevel, FilterConfig.update] using h
      · rw [updateFilter, setSubsystemLevel, if_neg (by simp [hrunning, hsid]),
          FilterConfig.update, if_neg hsid]
        apply h.publishLevels
        intro sid'
        rw [SubsystemLevels.get_set l.levelsSorted, h.levels]
        exact (update_eq_ite cfg.levels sid _ sid').symm
  | removeLevel sid =>
      by_cases hsid : sid = 0
      · subst hsid
        simpa [updateFilter, removeSubsystemLevel, FilterConfig.update] using h
      · have hget := SubsystemLevels.get_remove l.levelsSorted sid
        simp only [h.levels, ← update_eq_ite] at hget
        rw [updateFilter, removeSubsystemLevel, if_neg hsid, FilterConfig.update,
          if_neg hsid]
        split
        next levels hremove =>
          rw [hremove] at hget
          exact h.publishLevels _ hget
        next hremove =>
          rw [hremove] at hget
          exact ⟨h.blocked, h.allowed, h.reported, h.blockReported, hget, h.channels⟩
  | clearLevels => exact h.publishLevels _ (by simp)

/-- After any history of updates the logger keeps the configuration that the
updates describe. -/
theorem updateFilters_keeps {l : Logger} {cfg : FilterConfig} (h : l.Keeps cfg)
    (hrunning : l.shutdownCalled = false) (updates : List FilterUpdate) :
    (updates.foldl updateFilter l).Keeps (updates.foldl FilterConfig.update cfg) ∧
      (updates.foldl updateFilter l).shutdownCalled = false := by
  induction updates generalizing l cfg with
  | nil => exact ⟨h, hrunning⟩
  | cons u rest ih =>
      apply ih (updateFilter_keeps h hrunning u)
      rw [updateFilter_shutdownCalled, hrunning]

/-! ## The decision -/

theorem getSubsystemLevel_eq (l : Logger) (sid : Nat) :
    l.getSubsystemLevel sid = if sid = 0 then none else l.subsystemLevels.get sid := by
  rw [getSubsystemLevel, l.published, publishedLevels]
  split
  next => rfl
  next =>
    split
    next hempty => rw [hempty]; rfl
    next => rfl

theorem admitsSubsystem_iff (l : Logger) (sid : Nat) :
    l.admitsSubsystem sid = true ↔ sid = 0 ∨ (sid ∉ l.blockedSubsystems ∧
      (sid ∈ l.allowedSubsystems ∨ l.allowedSubsystems = [])) := by
  rw [admitsSubsystem, Bool.or_eq_true, Bool.and_eq_true, Bool.or_eq_true,
    beq_iff_eq, Bool.not_eq_true', ← Bool.not_eq_true, contains_iff l.blockedSorted,
    contains_iff l.allowedSorted, List.isEmpty_iff, or_comm (a := _ ∈ _)]

/-- The filters of the logger and of the channel decide by the documented
rule. -/
theorem Keeps.allows_iff {l : Logger} {cfg : FilterConfig} (h : l.Keeps cfg)
    {c : Nat} {channel : Channel} (hc : l.heap[c]? = some channel) (sid : Nat)
    (level : Level) :
    cfg.Allows c sid level ↔ channel.enabled = true ∧
      l.admitsSubsystem sid = true ∧ l.effectiveLevel channel sid ≤ level := by
  rcases h.channels c channel hc with ⟨henabled, hlevel⟩
  have hempty : cfg.allowed = ∅ ↔ l.allowedSubsystems = [] := by
    rw [Set.eq_empty_iff_forall_notMem, List.eq_nil_iff_forall_not_mem]
    simp only [h.allowed]
  rw [admitsSubsystem_iff, effectiveLevel, getSubsystemLevel_eq, henabled, hlevel,
    h.blocked, h.allowed, ← hempty, h.levels]
  constructor
  · rintro ⟨hon, ⟨rfl, hpass⟩ | ⟨hnamed, hblocked, hallowed, hpass⟩⟩
    · exact ⟨hon, .inl rfl, by simpa using hpass⟩
    · exact ⟨hon, .inr ⟨hblocked, hallowed⟩, by rwa [if_neg hnamed]⟩
  · rintro ⟨hon, hadmits, hpass⟩
    refine ⟨hon, ?_⟩
    by_cases hnamed : sid = 0
    · rw [if_pos hnamed] at hpass
      exact .inl ⟨hnamed, hpass⟩
    · rw [if_neg hnamed] at hpass
      rcases hadmits.resolve_left hnamed with ⟨hblocked, hallowed⟩
      exact .inr ⟨hnamed, hblocked, hallowed, hpass⟩

/-- The record has no limits and is not collapsed. -/
structure Unlimited (context : Context) : Prop where
  limits : ∀ ovr, context.ovr = some ovr →
    ovr.maxFrequency = 0 ∧ ovr.maxRepetitions = -1
  collapse : context.collapseCache = none

theorem Unlimited.admitRecord {context : Context} (h : Unlimited context) (now : Nat) :
    context.admitRecord now = (true, context) := by
  unfold Context.admitRecord
  split
  next => rfl
  next ovr hovr =>
    rcases h.limits ovr hovr with ⟨hfrequency, hrepetitions⟩
    have hsame : ovr.admitRecord now = (true, ovr) := by
      rw [Override.admitRecord, Override.admitFrequency, if_pos hfrequency]
      dsimp only
      rw [Override.admitRepetitions, if_pos hrepetitions]
    rw [hsame, ← hovr]

/-- A channel that lets the record pass and has backends has output. -/
theorem not_ignores {l : Logger} {channel : Channel} {context : Context}
    (henabled : channel.enabled = true) (hbackends : channel.backends ≠ [])
    (hlevel : l.effectiveLevel channel context.subsystem ≤ context.level) :
    l.ignores channel context = false := by
  have hactive : channel.active = true := by
    by_contra hinactive
    exact hbackends ((Channel.inactive_of (by simpa using hinactive)).2.2 henabled)
  have hoverride : l.isOutputActive channel context = true := by
    rw [isOutputActive]
    split
    next => exact hactive
    next hplain =>
      have hnone : l.getSubsystemLevel context.subsystem = none := by
        by_cases hsid : context.subsystem = 0
        · rw [getSubsystemLevel, if_pos hsid]
        · apply getSubsystemLevel_of_no_overrides
          by_contra hoverrides
          exact hplain ⟨hsid, by simpa using hoverrides⟩
      rw [effectiveLevel, hnone, Option.getD_none] at hlevel
      rw [if_neg (Level.not_lt.mpr hlevel)]
      exact hactive
  rw [ignores, hoverride]
  rfl

theorem passes_iff {l : Logger} (hrunning : l.shutdownCalled = false) {c : Nat}
    {channel : Channel} (hc : l.heap[c]? = some channel)
    (hfilter : channel.displayFilter = none) (r : Record) :
    l.passes r c = true ↔ channel.enabled = true ∧
      l.effectiveLevel channel r.subsystem ≤ r.level := by
  rw [passes_eq hc, hrunning, accepts, Channel.filterAccepts, hfilter]
  simp

/-- Whatever the history of updates, a record reaches the backends of its
channel exactly if the documented rule lets it pass. -/
theorem record_filtering {l : Logger} (hrunning : l.shutdownCalled = false)
    (updates : List FilterUpdate) {context : Context} (hunlimited : Unlimited context)
    (htext : context.text.isSome) {c : Nat}
    (htarget : (updates.foldl updateFilter l).recordChannel context =
      (some c, updates.foldl updateFilter l))
    {channel : Channel} (hc : (updates.foldl updateFilter l).heap[c]? = some channel)
    (hfilter : channel.displayFilter = none) {backend : Nat}
    (hbackend : backend ∈ channel.displayed) {guard : ReentryState Nat}
    (hguard : guard.WellFormed) (hopen : c ∉ guard.stack) (now : Nat) :
    ∃ logged, Logs now (updates.foldl updateFilter l) guard context logged ∧
      (⟨c, backend⟩ ∈ logged.displayed.deliveries ↔
        (updates.foldl FilterConfig.update l.filterConfig).Allows c
          context.subsystem context.level) := by
  rcases updateFilters_keeps l.keeps_filterConfig hrunning updates with
    ⟨hkeeps, hstillRunning⟩
  generalize updates.foldl updateFilter l = l' at htarget hc hkeeps hstillRunning ⊢
  rw [hkeeps.allows_iff hc]
  obtain ⟨logged, hlogs, houtcome⟩ := l'.doLog_logs now hguard context
  refine ⟨logged, hlogs, ?_⟩
  have hbackends : channel.backends ≠ [] := by
    rintro hempty
    simp [Channel.displayed, hempty] at hbackend
  cases houtcome with
  | stopped hgate =>
      refine ⟨by simp, ?_⟩
      rintro ⟨henabled, hadmits, hlevel⟩
      obtain ⟨text, htext⟩ := Option.isSome_iff_exists.mp htext
      have hadmitted : Admitted now l' context l' c channel text :=
        ⟨⟨hstillRunning, by rw [hunlimited.admitRecord], hadmits, htarget, hc, htext, by
            rw [hunlimited.admitRecord, Context.applyCollapse, hunlimited.collapse]⟩,
          not_ignores henabled hbackends hlevel⟩
      rw [gate_of_admitted hadmitted] at hgate
      simp at hgate
  | @written l₁ c₁ channel₁ text own copy hadmitted hwrites =>
      have hsame := hadmitted.target
      rw [htarget, Prod.mk.injEq, Option.some.injEq] at hsame
      rcases hsame with ⟨rfl, rfl⟩
      have hown := hwrites.displays.own_iff hopen hc hbackend
      have hpasses := passes_iff hstillRunning hc hfilter
        (admittedRecord now context text)
      rw [admittedRecord_subsystem, admittedRecord_level] at hpasses
      rw [List.mem_append, hown]
      constructor
      · intro hdelivered
        have hpassed : l'.passes (admittedRecord now context text) c = true := by
          rcases hdelivered with hfirst | hsecond
          · exact hfirst
          · cases hwrites.copies with
            | omitted _ hunchanged => simp [hunchanged] at hsecond
            | displayed e _ honce =>
                have hcopied := (honce.mem_iff _).mp hsecond |>.1.2
                rw [hwrites.displays.extended.passes hc, passes_iff hstillRunning hc
                  hfilter] at hcopied
                exact hpasses.mpr (by simpa [errorRecord] using hcopied)
        rcases hpasses.mp hpassed with ⟨henabled, hlevel⟩
        exact ⟨henabled, hadmitted.subsystem, hlevel⟩
      · rintro ⟨henabled, -, hlevel⟩
        exact .inl (hpasses.mpr ⟨henabled, hlevel⟩)

/-- A record of a subsystem whose level lets it pass a stricter channel. -/
def relaxedRecord : Context where
  level := .debug
  subsystem := 7
  ovr := none
  ch := none
  channel := []
  text := some [65]
  collapseCache := none
  collapseRepeatCount := 0

def relaxingUpdates : List FilterUpdate :=
  [.setFilterLevel 0 .warn, .report 5, .setLevel 7 .debug]

theorem record_filtering_relaxed :
    ∃ logged, Logs 0 (relaxingUpdates.foldl updateFilter (new 3)) .initial
        relaxedRecord logged ∧
      (⟨0, 3⟩ ∈ logged.displayed.deliveries ↔
        (relaxingUpdates.foldl FilterConfig.update (new 3).filterConfig).Allows 0 7
          .debug) :=
  record_filtering rfl relaxingUpdates ⟨by simp [relaxedRecord], rfl⟩ rfl rfl rfl rfl
    (by decide) ReentryState.initial_wellFormed (by simp) 0

example : (doLog 9 0 (relaxingUpdates.foldl updateFilter (new 3)) .initial
    relaxedRecord).map (·.displayed.deliveries) = some [⟨0, 3⟩] := by
  decide

end Logger
end Logme
