import Logme.LogOverloads

/-!
# Prechecks

The log macros ask `WouldLog` before they evaluate the arguments of a
statement, and the overloads of `Log` for a channel pointer return early.  Both
repeat the filters of `DoLog` on less information.
-/

namespace Logme
namespace Logger

/-! ## The prechecks -/

/-- The answer by the level override of a subsystem, if it has one. -/
def wouldLogSubsystem (l : Logger) (level : Level) (channel : Channel)
    (sid : Nat) : Option Bool :=
  if sid ≠ 0 then
    (l.getSubsystemLevel sid).map fun subsystemLevel =>
      decide (subsystemLevel ≤ level) && channel.active
  else none

def wouldLogChannel (level : Level) (channel : Channel) : Bool :=
  if level < channel.levelFilter then false else channel.active

/-- The error channel gets the record. -/
def errorChannelGets (l : Logger) (level : Level) : Bool :=
  decide (Level.error ≤ level) && l.errorChannel.isSome

def wouldLog (l : Logger) (t : ThreadSettings) (level : Level)
    (defaultSubsystem : Nat) (ch : Option Nat) (explicitSubsystem : Option Nat) :
    Bool :=
  if l.errorChannelGets level then true
  else
    match ch.bind fun c => l.heap[c]? with
    | none => false
    | some channel =>
        match explicitSubsystem with
        | some sid =>
            (l.wouldLogSubsystem level channel sid).getD
              (wouldLogChannel level channel)
        | none =>
            if l.hasSubsystemLevelOverrides then
              if t.isSubsystemDefined then true
              else
                (l.wouldLogSubsystem level channel defaultSubsystem).getD
                  (wouldLogChannel level channel)
            else wouldLogChannel level channel

def wouldLogWithUnknownSubsystem (l : Logger) (level : Level) (ch : Option Nat) :
    Bool :=
  if l.errorChannelGets level then true
  else
    match ch.bind fun c => l.heap[c]? with
    | none => false
    | some channel =>
        if !channel.active then false
        else if l.hasSubsystemLevelOverrides then true
        else decide (channel.levelFilter ≤ level)

end Logger

namespace LogArguments

/-- The channel pointer among the arguments. -/
def pointer : LogArguments → Option (Option Nat)
  | .ch c => some c
  | .chSid c _ => some c
  | .chOvr c _ => some c
  | .chSidOvr c _ _ => some c
  | _ => Option.none

/-- The channel name among the arguments. -/
def name : LogArguments → Option Name
  | .id n => some n
  | .idSid n _ => some n
  | .idOvr n _ => some n
  | .idSidOvr n _ _ => some n
  | _ => Option.none

end LogArguments

namespace Logger

/-- The channel that the macro asks about; a name is resolved by the macros
with preparation code only. -/
def precheckChannel (l : Logger) (withCode : Bool) (args : LogArguments) :
    Option (Option Nat) :=
  match args.pointer, args.name with
  | some ch, _ => some ch
  | none, some name => if withCode then some (l.getExistingChannel name) else none
  | none, none => none

/-- The precheck of a log macro.  A subsystem in a forwarded parameter pack is
not known to it. -/
def precheck (l : Logger) (t : ThreadSettings) (site : CallSite)
    (withCode forwarded : Bool) (args : LogArguments) : Bool :=
  match l.precheckChannel withCode args with
  | none => true
  | some ch =>
      if args.sid.isSome && forwarded then
        l.wouldLogWithUnknownSubsystem site.level ch
      else l.wouldLog t site.level site.subsystem ch args.sid

/-! ## What a negative answer means -/

theorem silent_of_wouldLogChannel {l : Logger} {channel : Channel} {level : Level}
    (h : wouldLogChannel level channel = false) {sid : Nat}
    (hnone : l.getSubsystemLevel sid = none) : l.Silent channel level sid := by
  unfold wouldLogChannel at h
  split at h
  next hless =>
    right
    rw [effectiveLevel, hnone]
    exact hless
  next => exact .inl h

theorem silent_of_wouldLogSubsystem {l : Logger} {channel : Channel} {level : Level}
    {sid : Nat}
    (h : (l.wouldLogSubsystem level channel sid).getD (wouldLogChannel level channel) =
      false) : l.Silent channel level sid := by
  unfold wouldLogSubsystem at h
  split at h
  next hnamed =>
    cases hlevel : l.getSubsystemLevel sid with
    | none =>
        rw [hlevel] at h
        exact silent_of_wouldLogChannel h hlevel
    | some subsystemLevel =>
        rw [hlevel, Option.map_some, Option.getD_some, Bool.and_eq_false_iff,
          decide_eq_false_iff_not] at h
        rcases h with hless | hinactive
        · right
          rw [effectiveLevel, hlevel]
          exact Level.not_le.mp hless
        · exact .inl hinactive
  next hunnamed =>
    apply silent_of_wouldLogChannel h
    rw [getSubsystemLevel, if_pos (by simpa using hunnamed)]

theorem silent_of_no_overrides {l : Logger} {channel : Channel} {level : Level}
    (hoverrides : l.hasSubsystemLevelOverrides = false) (hless : level < channel.levelFilter)
    (sid : Nat) : l.Silent channel level sid := by
  right
  rw [effectiveLevel, getSubsystemLevel_of_no_overrides hoverrides]
  exact hless

/-- The subsystem of a record: the explicit one, else that of the thread, else
that of the call site. -/
def recordSubsystem (t : ThreadSettings) (site : CallSite) (args : LogArguments) : Nat :=
  args.sid.getD (t.subsystem.getD site.subsystem)

/-- No error copy is made of the record. -/
def NoErrorCopy (l : Logger) (level : Level) : Prop :=
  level < .error ∨ l.errorChannel = none

theorem noErrorCopy_of {l : Logger} {level : Level}
    (h : l.errorChannelGets level = false) : l.NoErrorCopy level := by
  rw [errorChannelGets, Bool.and_eq_false_iff, decide_eq_false_iff_not,
    Option.isSome_eq_false_iff, Option.isNone_iff_eq_none] at h
  rcases h with hless | hnone
  · exact .inl (Level.not_le.mp hless)
  · exact .inr hnone

theorem silent_of_wouldLog {l : Logger} {t : ThreadSettings} {site : CallSite}
    {args : LogArguments} {ch : Option Nat}
    (h : l.wouldLog t site.level site.subsystem ch args.sid = false) :
    l.NoErrorCopy site.level ∧ ∀ c channel, ch = some c → l.heap[c]? = some channel →
      l.Silent channel site.level (recordSubsystem t site args) := by
  unfold wouldLog at h
  split at h
  next => simp at h
  next herror =>
    refine ⟨noErrorCopy_of (by simpa using herror), ?_⟩
    rintro c channel rfl hc
    simp only [Option.bind_some, hc] at h
    unfold recordSubsystem
    split at h
    next sid hsid =>
      rw [hsid]
      exact silent_of_wouldLogSubsystem h
    next hsid =>
      rw [hsid, Option.getD_none]
      split at h
      next =>
        split at h
        next => simp at h
        next hthread =>
          have hnone : t.subsystem = none := by
            simpa [ThreadSettings.isSubsystemDefined] using hthread
          rw [hnone, Option.getD_none]
          exact silent_of_wouldLogSubsystem h
      next hoverrides =>
        exact silent_of_wouldLogChannel h
          (getSubsystemLevel_of_no_overrides (by simpa using hoverrides) _)

theorem silent_of_unknownSubsystem {l : Logger} {level : Level} {ch : Option Nat}
    (h : l.wouldLogWithUnknownSubsystem level ch = false) :
    l.NoErrorCopy level ∧ ∀ c channel, ch = some c → l.heap[c]? = some channel →
      ∀ sid, l.Silent channel level sid := by
  unfold wouldLogWithUnknownSubsystem at h
  split at h
  next => simp at h
  next herror =>
    refine ⟨noErrorCopy_of (by simpa using herror), ?_⟩
    rintro c channel rfl hc sid
    simp only [Option.bind_some, hc] at h
    split at h
    next hinactive => exact .inl (by simpa using hinactive)
    next =>
      split at h
      next => simp at h
      next hoverrides =>
        exact silent_of_no_overrides (by simpa using hoverrides)
          (Level.not_le.mp (by simpa using h)) sid

/-- The early return: the context still has the subsystem of the call site. -/
theorem silent_of_skips {l : Logger} {t : ThreadSettings} {context : Context}
    {ch : Option Nat} (h : l.skips t context ch = true) :
    l.NoErrorCopy context.level ∧ ∀ c channel, ch = some c →
      l.heap[c]? = some channel →
      l.Silent channel context.level (t.subsystem.getD context.subsystem) := by
  unfold skips at h
  split at h
  next => simp at h
  next channel hchannel =>
    simp only [Bool.and_eq_true, decide_eq_true_eq, Bool.not_eq_true',
      Bool.and_eq_false_iff, Bool.or_eq_false_iff] at h
    rcases h with ⟨⟨hless, hsubsystem⟩, houtput⟩
    refine ⟨.inl hless, ?_⟩
    rintro c channel' rfl hc
    rw [Option.bind_some, hc, Option.some.injEq] at hchannel
    subst hchannel
    apply silent_of_not_output houtput
    intro hoverrides
    rcases hsubsystem with hnone | ⟨-, hthread⟩
    · rw [hoverrides] at hnone
      exact absurd hnone (by decide)
    · have hnone : t.subsystem = none := by
        simpa [ThreadSettings.isSubsystemDefined] using hthread
      rw [hnone, Option.getD_none]

/-! ## `DoLog` writes nothing -/

theorem errorTarget_of_noErrorCopy {l : Logger} {channel : Channel} {level : Level}
    (h : l.NoErrorCopy level) : l.errorTarget channel level = none := by
  unfold errorTarget
  rcases h with hless | hnone
  · rw [if_pos hless]
  · rw [hnone]
    split <;> rfl

theorem recordChannel_extends (l : Logger) (context : Context) :
    l.Extends (l.recordChannel context).2 := by
  unfold recordChannel
  split
  next => exact .refl l
  next => exact l.getChannel_extends _

/-- A record that no channel displays and of which no copy is made is not
written. -/
theorem writes_nothing {l : Logger} {context : Context}
    (herror : l.NoErrorCopy context.level)
    (hsilent : ∀ l' c channel, l.recordChannel context = (some c, l') →
      l'.heap[c]? = some channel →
        l'.Silent channel context.level context.subsystem)
    {guard : ReentryState Nat} (hguard : guard.WellFormed) (now : Nat) :
    ∃ logged, Logs now l guard context logged ∧ logged.displayed.deliveries = [] := by
  obtain ⟨logged, hlogs, houtcome⟩ := l.doLog_logs now hguard context
  refine ⟨logged, hlogs, ?_⟩
  cases houtcome with
  | stopped => rfl
  | @written l' c channel text own copy hadmitted hwrites =>
      have hsame := l.recordChannel_extends context
      rw [hadmitted.target] at hsame
      have hnone : own.logger.NoErrorCopy context.level := by
        rw [NoErrorCopy, hwrites.displays.extended.errorChannel, hsame.errorChannel]
        exact herror
      have hown : own.deliveries = [] := by
        apply hwrites.displays.deliveries_nil hadmitted.found
        apply Silent.no_deliveries _ hadmitted.found
        rw [admittedRecord_level, admittedRecord_subsystem]
        exact hsilent l' c channel hadmitted.target hadmitted.found
      have hcopy : copy.deliveries = [] := by
        cases hwrites.copies with
        | omitted _ hunchanged => rw [hunchanged]
        | displayed e htarget _ =>
            rw [admittedRecord_level, errorTarget_of_noErrorCopy hnone] at htarget
            simp at htarget
      rw [hown, hcopy, List.append_nil]

/-! ## Soundness -/

theorem prepared_level (t : ThreadSettings) (site : CallSite) (args : LogArguments) :
    (formatContext t (site.context args) args).level = site.level := by
  cases args <;> rfl

theorem prepared_subsystem (t : ThreadSettings) (site : CallSite) (args : LogArguments) :
    (formatContext t (site.context args) args).subsystem = recordSubsystem t site args := by
  rw [formatContext_subsystem]
  cases args <;> rfl

theorem prepared_ch (t : ThreadSettings) (site : CallSite) (args : LogArguments) :
    (formatContext t (site.context args) args).ch = args.pointer.join := by
  cases args <;> rfl

theorem prepared_channel (t : ThreadSettings) (site : CallSite) {args : LogArguments}
    {name : Name} (h : args.name = some name) :
    (formatContext t (site.context args) args).channel = name := by
  cases args <;> simp only [LogArguments.name, Option.some.injEq, reduceCtorEq] at h
  all_goals
    subst h
    rfl

theorem created_inactive {l l' : Logger} {name : Name} {c : Nat} {channel : Channel}
    (hmissing : l.channels.lookup name = none)
    (hcreated : l.createChannelInternal name .default .default = (some c, l'))
    (hc : l'.heap[c]? = some channel) : channel.active = false := by
  unfold createChannelInternal at hcreated
  rw [hmissing] at hcreated
  split at hcreated
  next => simp at hcreated
  next =>
    simp only [Prod.mk.injEq, Option.some.injEq] at hcreated
    rcases hcreated with ⟨rfl, rfl⟩
    have hnew : channel = Channel.new name .default .default := by
      simpa using hc.symm
    rw [hnew]
    rfl

/-- The channel that a macro asks about is the one `DoLog` finds, or `DoLog`
creates an inactive one. -/
theorem silent_of_precheckChannel {l : Logger} {t : ThreadSettings} {site : CallSite}
    {args : LogArguments} {withCode : Bool} {ch : Option Nat} {level : Level} {sid : Nat}
    (hpointer : args.pointer ≠ some none)
    (hname : args.name = some [] → l.default.isSome)
    (hchannel : l.precheckChannel withCode args = some ch)
    (hsilent : ∀ c channel, ch = some c → l.heap[c]? = some channel →
      l.Silent channel level sid)
    (text : List UInt8) {l' : Logger} {c : Nat} {channel : Channel}
    (htarget : l.recordChannel ((formatContext t (site.context args) args).setText text) =
      (some c, l')) (hc : l'.heap[c]? = some channel) :
    l'.Silent channel level sid := by
  have hch : ((formatContext t (site.context args) args).setText text).ch =
      args.pointer.join := prepared_ch t site args
  unfold recordChannel at htarget
  rw [hch] at htarget
  unfold precheckChannel at hchannel
  cases hp : args.pointer with
  | some pointer =>
      rw [hp] at hchannel htarget hpointer
      simp only [Option.some.injEq] at hchannel
      subst hchannel
      cases pointer with
      | none => exact absurd rfl hpointer
      | some d =>
          simp only [Option.join_some, Prod.mk.injEq, Option.some.injEq] at htarget
          rcases htarget with ⟨rfl, rfl⟩
          exact hsilent d channel rfl hc
  | none =>
      rw [hp] at hchannel htarget
      cases hn : args.name with
      | none => simp [hn] at hchannel
      | some name =>
          rw [hn] at hchannel hname
          simp only [Option.ite_none_right_eq_some, Option.some.injEq] at hchannel
          rcases hchannel with ⟨-, rfl⟩
          have hcontext : ((formatContext t (site.context args) args).setText text).channel =
              name := prepared_channel t site hn
          simp only [Option.join_none, hcontext] at htarget
          unfold getChannel at htarget
          cases hexisting : l.getExistingChannel name with
          | some d =>
              simp only [hexisting, Prod.mk.injEq, Option.some.injEq] at htarget
              rcases htarget with ⟨rfl, rfl⟩
              exact hsilent d channel hexisting hc
          | none =>
              simp only [hexisting] at htarget
              refine .inl (created_inactive ?_ htarget hc)
              unfold getExistingChannel at hexisting
              split at hexisting
              next hempty =>
                have hdefault := hname (by rw [hempty])
                rw [hexisting] at hdefault
                exact absurd hdefault (by decide)
              next => exact hexisting

/-- Where a precheck answers false or an overload returns early, `DoLog` would
write nothing. -/
theorem prechecks_sound {l : Logger} {t : ThreadSettings} {site : CallSite}
    {args : LogArguments} {withCode forwarded : Bool}
    (hpointer : args.pointer ≠ some none)
    (hname : args.name = some [] → l.default.isSome)
    (hnegative : l.precheck t site withCode forwarded args = false ∨
      l.returnsEarly t (site.context args) args = true)
    (text : List UInt8) {guard : ReentryState Nat} (hguard : guard.WellFormed)
    (now : Nat) :
    ∃ logged,
      Logs now l guard ((formatContext t (site.context args) args).setText text) logged ∧
        logged.displayed.deliveries = [] := by
  have hlevel : ((formatContext t (site.context args) args).setText text).level =
      site.level := prepared_level t site args
  have hsubsystem : ((formatContext t (site.context args) args).setText text).subsystem =
      recordSubsystem t site args := prepared_subsystem t site args
  have hquiet : l.NoErrorCopy site.level ∧ ∃ withCode ch,
      l.precheckChannel withCode args = some ch ∧
        ∀ c channel, ch = some c → l.heap[c]? = some channel →
          l.Silent channel site.level (recordSubsystem t site args) := by
    rcases hnegative with hprecheck | hearly
    · unfold precheck at hprecheck
      split at hprecheck
      next => simp at hprecheck
      next ch hch =>
        split at hprecheck
        next =>
          have h := silent_of_unknownSubsystem hprecheck
          exact ⟨h.1, withCode, ch, hch, fun c channel hc hfound =>
            h.2 c channel hc hfound _⟩
        next =>
          have h := silent_of_wouldLog hprecheck
          exact ⟨h.1, withCode, ch, hch, h.2⟩
    · cases args with
      | ch pointer =>
          have h := silent_of_skips hearly
          exact ⟨h.1, false, pointer, rfl, h.2⟩
      | chOvr pointer ovr =>
          have h := silent_of_skips hearly
          exact ⟨h.1, false, pointer, rfl, h.2⟩
      | _ => simp [returnsEarly] at hearly
  rcases hquiet with ⟨herror, withCode, ch, hchannel, hsilent⟩
  apply writes_nothing _ _ hguard now
  · rw [hlevel]
    exact herror
  · intro l' c channel htarget hc
    rw [hlevel, hsubsystem]
    exact silent_of_precheckChannel hpointer hname hchannel hsilent text htarget hc

/-- A debug record for the default channel, whose level is `INFO`. -/
theorem prechecks_sound_debug_record :
    ∃ logged,
      Logs 0 (new 3) .initial
        ((formatContext ⟨none, none, none⟩ (CallSite.context ⟨.debug, [], 0, none⟩
          (.ch (some 0))) (.ch (some 0))).setText [65]) logged ∧
        logged.displayed.deliveries = [] :=
  @prechecks_sound (new 3) ⟨none, none, none⟩ ⟨.debug, [], 0, none⟩ (.ch (some 0))
    false false (by decide) (by decide) (.inl (by decide)) [65] .initial
    ReentryState.initial_wellFormed 0

/-- For a null channel pointer `WouldLog` answers false, while `DoLog` takes the
channel of the call site, here the default one. -/
theorem null_pointer_discarded :
    (new 3).precheck ⟨none, none, none⟩ ⟨.info, [], 0, none⟩ false false (.ch none) =
      false ∧
    (doLog 9 0 (new 3) .initial
      ((formatContext ⟨none, none, none⟩ (CallSite.context ⟨.info, [], 0, none⟩
        (.ch none)) (.ch none)).setText [65])).map (·.displayed.deliveries) =
      some [⟨0, 3⟩] := by
  decide

end Logger
end Logme
