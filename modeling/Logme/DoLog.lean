import Logme.DisplayOverLinks

/-!
# `Logger::DoLog`

A record passes the limits of its override, the subsystem lists, the test
whether its channel has output at all and the collapse cache of its call site;
then it is displayed at its channel, and a record of level `ERROR` or higher
once more at the error channel.  `DoAutodelete`, which clears channels that are
no longer registered, is a step of its own.
-/

namespace Logme

/-- `a - b` of `uint64_t` values. -/
def elapsed (now last : Nat) : Nat := (now + 2 ^ 64 - last) % 2 ^ 64

/-! ## Limits of an override -/

def Override.admitFrequency (ovr : Override) (now : Nat) : Bool × Override :=
  if ovr.maxFrequency = 0 then (true, ovr)
  else if ovr.lastTime ≠ 0 ∧ elapsed now ovr.lastTime < ovr.maxFrequency then
    (false, ovr)
  else (true, { ovr with lastTime := now })

def Override.admitRepetitions (ovr : Override) : Bool × Override :=
  if ovr.maxRepetitions = -1 then (true, ovr)
  else if ovr.maxRepetitions ≤ ovr.repetitions then (false, ovr)
  else (true, { ovr with repetitions := ovr.repetitions + 1 })

def Override.admitRecord (ovr : Override) (now : Nat) : Bool × Override :=
  match ovr.admitFrequency now with
  | (false, ovr) => (false, ovr)
  | (true, ovr) => ovr.admitRepetitions

/-! ## Collapsing -/

inductive CollapseMode where
  | count
  | time
  deriving DecidableEq

/-- `CollapseContextCache`; `normalize` removes what the ignore pattern
matches. -/
structure CollapseCache where
  mode : CollapseMode
  limit : Nat
  intervalMs : Nat
  lastKey : List UInt8
  lastOutputTime : Nat
  repeatCount : Nat
  normalize : List UInt8 → List UInt8

namespace CollapseCache

def off (cache : CollapseCache) : Bool :=
  match cache.mode with
  | .count => decide (cache.limit = 0)
  | .time => decide (cache.intervalMs = 0)

/-- `ApplyCollapse`: the repeat count to print, or `none` for a record that is
held back. -/
def apply (cache : CollapseCache) (now : Nat) (text : List UInt8) :
    Option Nat × CollapseCache :=
  if cache.off then (some 0, cache)
  else if cache.lastKey ≠ cache.normalize text then
    (some 0,
      { cache with
        lastKey := cache.normalize text
        lastOutputTime := now
        repeatCount := 0 })
  else
    match cache.mode with
    | .count =>
        let count := cache.repeatCount + 1
        if count < cache.limit then (none, { cache with repeatCount := count })
        else (some count, { cache with repeatCount := 0 })
    | .time =>
        if elapsed now cache.lastOutputTime < cache.intervalMs then
          (none, { cache with repeatCount := cache.repeatCount + 1 })
        else
          (some cache.repeatCount,
            { cache with repeatCount := 0, lastOutputTime := now })

end CollapseCache

/-! ## The context of a record -/

/-- What `DoLog` reads from a `Context`.  `text` is the formatted text, or
`none` for a null format. -/
structure Context where
  level : Level
  subsystem : Nat
  ovr : Option Override
  ch : Option Nat
  channel : Name
  text : Option (List UInt8)
  collapseCache : Option CollapseCache
  collapseRepeatCount : Nat

namespace Context

def admitRecord (context : Context) (now : Nat) : Bool × Context :=
  match context.ovr with
  | none => (true, context)
  | some ovr =>
      ((ovr.admitRecord now).1, { context with ovr := some (ovr.admitRecord now).2 })

def applyCollapse (context : Context) (now : Nat) (text : List UInt8) :
    Bool × Context :=
  match context.collapseCache with
  | none => (true, { context with collapseRepeatCount := 0 })
  | some cache =>
      ((cache.apply now text).1.isSome,
        { context with
          collapseRepeatCount := (cache.apply now text).1.getD 0
          collapseCache := some (cache.apply now text).2 })

def record (context : Context) (text : List UInt8) : Record :=
  ⟨context.level, context.subsystem, context.ovr, text⟩

@[simp] theorem admitRecord_level (context : Context) (now : Nat) :
    (context.admitRecord now).2.level = context.level := by
  unfold admitRecord
  split <;> rfl

@[simp] theorem admitRecord_subsystem (context : Context) (now : Nat) :
    (context.admitRecord now).2.subsystem = context.subsystem := by
  unfold admitRecord
  split <;> rfl

@[simp] theorem admitRecord_ch (context : Context) (now : Nat) :
    (context.admitRecord now).2.ch = context.ch := by
  unfold admitRecord
  split <;> rfl

@[simp] theorem admitRecord_channel (context : Context) (now : Nat) :
    (context.admitRecord now).2.channel = context.channel := by
  unfold admitRecord
  split <;> rfl

@[simp] theorem admitRecord_text (context : Context) (now : Nat) :
    (context.admitRecord now).2.text = context.text := by
  unfold admitRecord
  split <;> rfl

@[simp] theorem applyCollapse_record (context : Context) (now : Nat)
    (text : List UInt8) (text' : List UInt8) :
    (context.applyCollapse now text).2.record text' = context.record text' := by
  unfold applyCollapse
  split <;> rfl

end Context

namespace Logger

open LowerBound

/-! ## The filters of the logger -/

/-- The subsystem lists let a record of the subsystem pass. -/
def admitsSubsystem (l : Logger) (sid : Nat) : Bool :=
  sid == 0 || (!contains sid l.blockedSubsystems &&
    (l.allowedSubsystems.isEmpty || contains sid l.allowedSubsystems))

/-- The channel of a record. -/
def recordChannel (l : Logger) (context : Context) : Option Nat × Logger :=
  match context.ch with
  | some c => (some c, l)
  | none => l.getChannel context.channel

def isOutputActive (l : Logger) (channel : Channel) (context : Context) : Bool :=
  if context.subsystem ≠ 0 ∧ l.hasSubsystemLevelOverrides then channel.active
  else if context.level < channel.levelFilter then false
  else channel.active

theorem getSubsystemLevel_of_no_overrides {l : Logger}
    (h : l.hasSubsystemLevelOverrides = false) (sid : Nat) :
    l.getSubsystemLevel sid = none := by
  rw [hasSubsystemLevelOverrides, Option.isSome_eq_false_iff,
    Option.isNone_iff_eq_none] at h
  rw [getSubsystemLevel, h]
  split <;> rfl

/-- The error channel has another name than the channel of the record. -/
def hasOtherErrorChannel (l : Logger) (channel : Channel) : Bool :=
  match l.errorChannel with
  | none => false
  | some name => decide (channel.name ≠ name)

/-- The channel has no output for the record, and it is not an error that the
error channel gets. -/
def ignores (l : Logger) (channel : Channel) (context : Context) : Bool :=
  !l.isOutputActive channel context &&
    (decide (context.level < .error) || !l.hasOtherErrorChannel channel)

/-- How far a record gets before it is displayed. -/
inductive Gate where
  | stop (l : Logger) (context : Context)
  | pass (l : Logger) (c : Nat) (channel : Channel) (text : List UInt8)
      (context : Context)

/-- The part of `DoLog` before `Display`. -/
def gate (now : Nat) (l : Logger) (context : Context) : Gate :=
  if l.shutdownCalled then .stop l context
  else if (context.admitRecord now).1 = false then .stop l (context.admitRecord now).2
  else
    let context := (context.admitRecord now).2
    if l.admitsSubsystem context.subsystem = false then .stop l context
    else
      match l.recordChannel context with
      | (none, l) => .stop l context
      | (some c, l) =>
          match l.heap[c]? with
          | none => .stop l context
          | some channel =>
              if l.ignores channel context then .stop l context
              else
                match context.text with
                | none => .stop l context
                | some text =>
                    let collapsed := context.applyCollapse now text
                    if collapsed.1 = false then .stop l collapsed.2
                    else .pass l c channel text collapsed.2

/-! ## Silent channels -/

/-- A record of the level and subsystem is not displayed at the channel. -/
def Silent (l : Logger) (channel : Channel) (level : Level) (sid : Nat) : Prop :=
  channel.active = false ∨ level < l.effectiveLevel channel sid

/-- A channel without output for the context is silent. -/
theorem silent_of_not_output {l : Logger} {channel : Channel} {context : Context}
    (h : l.isOutputActive channel context = false) {sid : Nat}
    (hsid : l.hasSubsystemLevelOverrides = true → sid = context.subsystem) :
    l.Silent channel context.level sid := by
  unfold isOutputActive at h
  split at h
  next => exact .inl h
  next hplain =>
    split at h
    next hless =>
      right
      have hnone : l.getSubsystemLevel sid = none := by
        cases hoverrides : l.hasSubsystemLevelOverrides with
        | true =>
            have hzero : context.subsystem = 0 := by
              by_contra hnamed
              exact hplain ⟨hnamed, hoverrides⟩
            rw [hsid hoverrides, hzero, getSubsystemLevel, if_pos rfl]
        | false => exact getSubsystemLevel_of_no_overrides hoverrides sid
      rw [effectiveLevel, hnone]
      exact hless
    next => exact .inl h

theorem Silent.no_deliveries {l : Logger} {channel : Channel} {r : Record}
    (h : l.Silent channel r.level r.subsystem) {c : Nat}
    (hc : l.heap[c]? = some channel) :
    channel.active = false ∨ l.passes r c = false := by
  rcases h with hinactive | hless
  · exact .inl hinactive
  · right
    rw [passes_eq hc, accepts, decide_eq_false (Level.not_le.mpr hless), Bool.and_false,
      Bool.and_false]

/-! ## Writing a record -/

/-- The override of the error copy: `DisableLink` is added to the flags of the
record's own override, or of a new one. -/
def errorOverride (ovr : Option Override) : Override :=
  let copy := ovr.getD {}
  { copy with add := copy.add.withDisableLink }

def errorRecord (r : Record) : Record :=
  { r with ovr := some (errorOverride r.ovr) }

/-- The channel of the error copy. -/
def errorTarget (l : Logger) (channel : Channel) (level : Level) : Option Nat :=
  if level < .error then none
  else
    match l.errorChannel with
    | none => none
    | some name =>
        if channel.name = name then none else l.getExistingChannel name

def displayErrorCopy (fuel : Nat) (l : Logger) (guard : ReentryState Nat)
    (channel : Channel) (r : Record) : Option Displayed :=
  match l.errorTarget channel r.level with
  | none => some ⟨l, guard, []⟩
  | some e => display fuel l guard e (errorRecord r)

def writeRecord (fuel : Nat) (l : Logger) (guard : ReentryState Nat) (c : Nat)
    (channel : Channel) (r : Record) : Option Displayed :=
  (display fuel l guard c r).bind fun own =>
    (displayErrorCopy fuel own.logger own.guard channel r).map fun copy =>
      ⟨copy.logger, copy.guard, own.deliveries ++ copy.deliveries⟩

structure Logged where
  displayed : Displayed
  context : Context

/-- `DoLog`, without statistics and the fatal handler. -/
def doLog (fuel now : Nat) (l : Logger) (guard : ReentryState Nat)
    (context : Context) : Option Logged :=
  match gate now l context with
  | .stop l context => some ⟨⟨l, guard, []⟩, context⟩
  | .pass l c channel text context =>
      (writeRecord fuel l guard c channel (context.record text)).map (⟨·, context⟩)

/-! ## The gate -/

/-- The record has a channel and is not rejected by limits, by the subsystem
lists or by collapsing; `l'` is the logger after the channel has been looked
up. -/
structure Accepted (now : Nat) (l : Logger) (context : Context) (l' : Logger)
    (c : Nat) (channel : Channel) (text : List UInt8) : Prop where
  running : l.shutdownCalled = false
  limits : (context.admitRecord now).1 = true
  subsystem : l.admitsSubsystem context.subsystem = true
  target : l.recordChannel context = (some c, l')
  found : l'.heap[c]? = some channel
  hasText : context.text = some text
  collapse : ((context.admitRecord now).2.applyCollapse now text).1 = true

/-- The record passes everything before `Display`. -/
structure Admitted (now : Nat) (l : Logger) (context : Context) (l' : Logger)
    (c : Nat) (channel : Channel) (text : List UInt8) : Prop extends
    Accepted now l context l' c channel text where
  reported : l'.ignores channel context = false

theorem recordChannel_admitRecord (l : Logger) (context : Context) (now : Nat) :
    l.recordChannel (context.admitRecord now).2 = l.recordChannel context := by
  simp [recordChannel]

theorem ignores_admitRecord (l : Logger) (channel : Channel) (context : Context)
    (now : Nat) :
    l.ignores channel (context.admitRecord now).2 = l.ignores channel context := by
  simp [ignores, isOutputActive]

/-- The context of an admitted record. -/
def admittedContext (now : Nat) (context : Context) (text : List UInt8) : Context :=
  ((context.admitRecord now).2.applyCollapse now text).2

/-- The record that is displayed. -/
def admittedRecord (now : Nat) (context : Context) (text : List UInt8) : Record :=
  (admittedContext now context text).record text

@[simp] theorem admittedRecord_level (now : Nat) (context : Context)
    (text : List UInt8) :
    (admittedRecord now context text).level = context.level := by
  rw [admittedRecord, admittedContext, Context.applyCollapse_record]
  exact context.admitRecord_level now

@[simp] theorem admittedRecord_subsystem (now : Nat) (context : Context)
    (text : List UInt8) :
    (admittedRecord now context text).subsystem = context.subsystem := by
  rw [admittedRecord, admittedContext, Context.applyCollapse_record]
  exact context.admitRecord_subsystem now

theorem gate_of_admitted {now : Nat} {l l' : Logger} {context : Context}
    {c : Nat} {channel : Channel} {text : List UInt8}
    (h : Admitted now l context l' c channel text) :
    gate now l context = .pass l' c channel text (admittedContext now context text) := by
  rw [gate, h.running, if_neg Bool.false_ne_true, if_neg (by simp [h.limits])]
  dsimp only
  rw [Context.admitRecord_subsystem, if_neg (by simp [h.subsystem]), recordChannel_admitRecord,
    h.target]
  dsimp only
  rw [h.found]
  dsimp only
  rw [ignores_admitRecord, if_neg (by simp [h.reported]), Context.admitRecord_text, h.hasText]
  dsimp only
  rw [if_neg (by simp [h.collapse])]
  rfl

theorem admitted_of_gate {now : Nat} {l l' : Logger} {context context' : Context}
    {c : Nat} {channel : Channel} {text : List UInt8}
    (h : gate now l context = .pass l' c channel text context') :
    Admitted now l context l' c channel text := by
  unfold gate at h
  split at h
  next => simp at h
  next hshutdown =>
    split at h
    next => simp at h
    next hlimits =>
      dsimp only at h
      rw [Context.admitRecord_subsystem, recordChannel_admitRecord] at h
      split at h
      next => simp at h
      next hsubsystem =>
        split at h
        next => simp at h
        next d l₁ htarget =>
          split at h
          next => simp at h
          next found hfound =>
            rw [ignores_admitRecord, Context.admitRecord_text] at h
            split at h
            next => simp at h
            next hreported =>
              split at h
              next => simp at h
              next text' htext =>
                split at h
                next => simp at h
                next hcollapse =>
                  simp only [Gate.pass.injEq] at h
                  rcases h with ⟨rfl, rfl, rfl, rfl, -⟩
                  exact ⟨⟨by simpa using hshutdown, by simpa using hlimits,
                    by simpa using hsubsystem, htarget, hfound, htext,
                    by simpa using hcollapse⟩, by simpa using hreported⟩

/-! ## What `DoLog` writes -/

/-- `DoLog` returns `logged`. -/
def Logs (now : Nat) (l : Logger) (guard : ReentryState Nat) (context : Context)
    (logged : Logged) : Prop :=
  ∃ enough, ∀ fuel, enough ≤ fuel → doLog fuel now l guard context = some logged

/-- What the error copy leads to. -/
inductive ErrorCopy (l : Logger) (guard : ReentryState Nat) (channel : Channel)
    (r : Record) (copy : Displayed) : Prop where
  | omitted (target : l.errorTarget channel r.level = none)
      (unchanged : copy = ⟨l, guard, []⟩)
  | displayed (e : Nat) (target : l.errorTarget channel r.level = some e)
      (once : l.DisplaysOnce guard guard.stack e (errorRecord r) copy)

/-- A record is displayed at its channel and then at the error channel. -/
structure Writes (l : Logger) (guard : ReentryState Nat) (c : Nat)
    (channel : Channel) (r : Record) (own copy : Displayed) : Prop where
  returns : ∃ enough, ∀ fuel, enough ≤ fuel →
    writeRecord fuel l guard c channel r =
      some ⟨copy.logger, copy.guard, own.deliveries ++ copy.deliveries⟩
  displays : l.DisplaysOnce guard guard.stack c r own
  copies : ErrorCopy own.logger own.guard channel r copy

theorem displayErrorCopy_returns (l : Logger) {guard : ReentryState Nat}
    (hguard : guard.WellFormed) (channel : Channel) (r : Record) :
    ∃ copy, ErrorCopy l guard channel r copy ∧ ∀ fuel, l.displayFuel ≤ fuel →
      displayErrorCopy fuel l guard channel r = some copy := by
  cases htarget : l.errorTarget channel r.level with
  | none =>
      refine ⟨_, .omitted htarget rfl, fun fuel _ => ?_⟩
      rw [displayErrorCopy, htarget]
  | some e =>
      obtain ⟨copy, hcopy⟩ := l.display_displaysOnce hguard e (errorRecord r)
      refine ⟨copy, .displayed e htarget hcopy, fun fuel hfuel => ?_⟩
      rw [displayErrorCopy, htarget]
      exact hcopy.returns fuel hfuel

theorem writeRecord_returns (l : Logger) {guard : ReentryState Nat}
    (hguard : guard.WellFormed) (c : Nat) (channel : Channel) (r : Record) :
    ∃ own copy, Writes l guard c channel r own copy := by
  obtain ⟨own, hown⟩ := l.display_displaysOnce hguard c r
  obtain ⟨copy, hcopy, hreturns⟩ :=
    own.logger.displayErrorCopy_returns hown.wellFormed channel r
  refine ⟨own, copy, ⟨max l.displayFuel own.logger.displayFuel, ?_⟩, hown, hcopy⟩
  intro fuel hfuel
  rw [writeRecord, hown.returns fuel (by omega), Option.bind_some,
    hreturns fuel (by omega)]
  rfl

/-- What a call of `DoLog` leads to. -/
inductive Outcome (now : Nat) (l : Logger) (guard : ReentryState Nat)
    (context : Context) : Logged → Prop where
  | stopped {l' : Logger} {context' : Context}
      (gate : gate now l context = .stop l' context') :
      Outcome now l guard context ⟨⟨l', guard, []⟩, context'⟩
  | written {l' : Logger} {c : Nat} {channel : Channel} {text : List UInt8}
      {own copy : Displayed} (admitted : Admitted now l context l' c channel text)
      (writes : Writes l' guard c channel (admittedRecord now context text) own copy) :
      Outcome now l guard context
        ⟨⟨copy.logger, copy.guard, own.deliveries ++ copy.deliveries⟩,
          admittedContext now context text⟩

theorem logs_of_writes {now : Nat} {l l' : Logger} {guard : ReentryState Nat}
    {context : Context} {c : Nat} {channel : Channel} {text : List UInt8}
    {own copy : Displayed} (hadmitted : Admitted now l context l' c channel text)
    (hwrites : Writes l' guard c channel (admittedRecord now context text) own copy) :
    Logs now l guard context
      ⟨⟨copy.logger, copy.guard, own.deliveries ++ copy.deliveries⟩,
        admittedContext now context text⟩ := by
  obtain ⟨enough, henough⟩ := hwrites.returns
  refine ⟨enough, fun fuel hfuel => ?_⟩
  rw [doLog, gate_of_admitted hadmitted]
  dsimp only
  rw [← admittedRecord, henough fuel hfuel]
  rfl

theorem doLog_logs (now : Nat) (l : Logger) {guard : ReentryState Nat}
    (hguard : guard.WellFormed) (context : Context) :
    ∃ logged, Logs now l guard context logged ∧
      Outcome now l guard context logged := by
  cases hgate : gate now l context with
  | stop l' context' =>
      refine ⟨_, ⟨0, fun fuel _ => ?_⟩, .stopped hgate⟩
      rw [doLog, hgate]
  | pass l' c channel text context' =>
      have hadmitted := admitted_of_gate hgate
      obtain ⟨own, copy, hwrites⟩ := l'.writeRecord_returns hguard c channel
        (admittedRecord now context text)
      exact ⟨_, logs_of_writes hadmitted hwrites, .written hadmitted hwrites⟩

end Logger
end Logme
