import Logme.ErrorChannel
import Logme.Precheck

/-!
# The budget of a suppressed record

`DoLog` counts a record against the limits of its override before it asks the
filters of the logger and of the channels.  A record that no filter lets
through has then used up a repetition and moved the time of the last record.
-/

namespace Logme

/-! ## What the limits count -/

namespace Override

/-- The counters of the two limits. -/
def spent (ovr : Override) : Int × Nat := (ovr.repetitions, ovr.lastTime)

def TooSoon (ovr : Override) (now : Nat) : Prop :=
  ovr.maxFrequency ≠ 0 ∧ ovr.lastTime ≠ 0 ∧ elapsed now ovr.lastTime < ovr.maxFrequency

/-- A record at the time `now` leaves the counters alone: it comes too soon, or
it has no new time to note and no repetition to count. -/
def Unspent (ovr : Override) (now : Nat) : Prop :=
  ovr.TooSoon now ∨
    ((ovr.maxFrequency = 0 ∨ ovr.lastTime = now) ∧
      (ovr.maxRepetitions = -1 ∨ ovr.maxRepetitions ≤ ovr.repetitions))

theorem admitFrequency_cases (ovr : Override) (now : Nat) :
    (ovr.TooSoon now ∧ ovr.admitFrequency now = (false, ovr)) ∨
      (¬ ovr.TooSoon now ∧ ∃ time, ovr.admitFrequency now =
        (true, { ovr with lastTime := time }) ∧
        (time = ovr.lastTime ↔ ovr.maxFrequency = 0 ∨ ovr.lastTime = now)) := by
  unfold admitFrequency TooSoon
  split
  case isTrue hfree =>
    right
    exact ⟨fun h => h.1 hfree, ovr.lastTime, rfl, by simp [hfree]⟩
  case isFalse hlimited =>
    split
    case isTrue hsoon => exact .inl ⟨⟨hlimited, hsoon⟩, rfl⟩
    case isFalse hlate =>
      right
      refine ⟨fun h => hlate h.2, now, rfl, ?_⟩
      rw [or_iff_right hlimited]
      exact eq_comm

theorem spent_admitRepetitions (ovr : Override) :
    ovr.admitRepetitions.2.lastTime = ovr.lastTime ∧
      (ovr.admitRepetitions.2.repetitions = ovr.repetitions ↔
        ovr.maxRepetitions = -1 ∨ ovr.maxRepetitions ≤ ovr.repetitions) := by
  unfold admitRepetitions
  split
  case isTrue hfree => exact ⟨rfl, by simp [hfree]⟩
  case isFalse hlimited =>
    split
    case isTrue hused => exact ⟨rfl, by simp [hused]⟩
    case isFalse hleft =>
      refine ⟨rfl, ?_⟩
      dsimp only
      omega

theorem spent_admitRecord_iff (ovr : Override) (now : Nat) :
    (ovr.admitRecord now).2.spent = ovr.spent ↔ ovr.Unspent now := by
  unfold admitRecord Unspent
  obtain ⟨hsoon, hresult⟩ | ⟨hlate, time, hresult, htime⟩ := ovr.admitFrequency_cases now
  · rw [hresult]
    exact iff_of_true rfl (.inl hsoon)
  · rw [hresult, or_iff_right hlate]
    dsimp only
    obtain ⟨hlast, hcount⟩ := spent_admitRepetitions { ovr with lastTime := time }
    rw [spent, spent, Prod.mk.injEq, hlast, hcount, htime, and_comm]

end Override

/-! ## Where the filters let a record through -/

namespace Logger

variable {l l' : Logger} {guard : ReentryState Nat} {context : Context} {now : Nat}
  {text : List UInt8}

/-- A backend behind the channel `c` gets the record. -/
def Displays (l : Logger) (guard : ReentryState Nat) (c : Nat) (r : Record) : Prop :=
  ∃ d : Delivery, l.Receives r guard.stack c d.channel ∧ d ∈ l.deliveriesOf d.channel

/-- The subsystem lists, the channel of the record and the channels behind it,
or the error channel, let the record through to a backend. -/
def PassesFilters (now : Nat) (l : Logger) (guard : ReentryState Nat) (context : Context)
    (text : List UInt8) : Prop :=
  l.admitsSubsystem context.subsystem = true ∧
    ∃ l' c channel, l.recordChannel context = (some c, l') ∧ l'.heap[c]? = some channel ∧
      l'.ignores channel context = false ∧
      (l'.Displays guard c (admittedRecord now context text) ∨
        ∃ e, l'.errorTarget channel context.level = some e ∧
          l'.Displays guard e (errorRecord (admittedRecord now context text)))

/-- A record is delivered somewhere by a display exactly if it is displayed. -/
theorem DisplaysOnce.deliveries_ne_nil (hextends : l.Extends l') {c : Nat} {r : Record}
    {result : Displayed} (h : l'.DisplaysOnce guard guard.stack c r result) :
    result.deliveries ≠ [] ↔ l.Displays guard c r := by
  constructor
  · intro hne
    obtain ⟨d, hd⟩ := List.exists_mem_of_ne_nil _ hne
    exact ⟨d, (hextends.delivered_iff d).mp ((h.mem_iff d).mp hd)⟩
  · intro ⟨d, hd⟩
    exact List.ne_nil_of_mem ((h.mem_iff d).mpr ((hextends.delivered_iff d).mpr hd))

theorem Displays.found {c : Nat} {r : Record} (h : l.Displays guard c r) :
    ∃ channel, l.heap[c]? = some channel := by
  obtain ⟨d, hreceives, -⟩ := h
  have hpasses := hreceives.passes_start
  cases hc : l.heap[c]? with
  | none =>
      rw [Logger.passes, hc] at hpasses
      exact absurd hpasses Bool.false_ne_true
  | some channel => exact ⟨channel, rfl⟩

/-- The channels that a display creates are never the error channel. -/
theorem Extends.errorTarget_iff (h : l.Extends l') {channel found : Channel} {level : Level}
    {e : Nat} (he : l.heap[e]? = some found) :
    l'.errorTarget channel level = some e ↔ l.errorTarget channel level = some e := by
  unfold errorTarget
  rw [h.errorChannel]
  split
  case isTrue => rfl
  case isFalse =>
    cases l.errorChannel with
    | none => rfl
    | some name =>
        dsimp only
        split
        case isTrue => rfl
        case isFalse =>
          constructor
          · intro hnew
            unfold getExistingChannel at hnew ⊢
            split at hnew
            case isTrue hempty =>
              rw [if_pos hempty, ← h.default]
              exact hnew
            case isFalse hnamed =>
              rw [if_neg hnamed]
              obtain hold | hnone := h.registered name e hnew
              · exact hold
              · rw [he] at hnone
                exact absurd hnone (Option.some_ne_none found)
          · exact h.existing

/-- The copy reaches a backend exactly if the error channel displays it. -/
theorem ErrorCopy.deliveries_ne_nil (hextends : l.Extends l') {guard' : ReentryState Nat}
    (hstack : guard'.stack = guard.stack) {channel : Channel} {r : Record} {copy : Displayed}
    (h : ErrorCopy l' guard' channel r copy) :
    copy.deliveries ≠ [] ↔
      ∃ e, l.errorTarget channel r.level = some e ∧ l.Displays guard e (errorRecord r) := by
  cases h with
  | omitted hnone hunchanged =>
      rw [hunchanged]
      constructor
      · exact fun hne => absurd rfl hne
      · intro ⟨e, htarget, hdisplays⟩
        obtain ⟨found, hfound⟩ := hdisplays.found
        rw [(hextends.errorTarget_iff hfound).mpr htarget] at hnone
        exact absurd hnone (Option.some_ne_none e)
  | displayed e htarget honce =>
      have hcopy : copy.deliveries ≠ [] ↔ l.Displays guard e (errorRecord r) := by
        rw [honce.deliveries_ne_nil hextends, Displays, Displays, hstack]
      rw [hcopy]
      constructor
      · intro hdisplays
        obtain ⟨found, hfound⟩ := hdisplays.found
        exact ⟨e, (hextends.errorTarget_iff hfound).mp htarget, hdisplays⟩
      · intro ⟨e', htarget', hdisplays⟩
        obtain ⟨found, hfound⟩ := hdisplays.found
        have hsame := (hextends.errorTarget_iff hfound).mpr htarget'
        rw [htarget, Option.some.injEq] at hsame
        rw [hsame]
        exact hdisplays

/-- What is written reaches a backend exactly if the filters let it through. -/
theorem Writes.deliveries_ne_nil {c : Nat} {channel : Channel} {own copy : Displayed}
    (hadmitted : Admitted now l context l' c channel text)
    (h : Writes l' guard c channel (admittedRecord now context text) own copy) :
    own.deliveries ++ copy.deliveries ≠ [] ↔ PassesFilters now l guard context text := by
  have hown := h.displays.deliveries_ne_nil (.refl l')
  have hcopy := h.copies.deliveries_ne_nil h.displays.extended h.displays.stack
  rw [admittedRecord_level] at hcopy
  rw [ne_eq, List.append_eq_nil_iff, not_and_or, ← ne_eq, ← ne_eq, hown, hcopy]
  constructor
  · intro hdisplays
    exact ⟨hadmitted.subsystem, l', c, channel, hadmitted.target, hadmitted.found,
      hadmitted.reported, hdisplays⟩
  · intro ⟨_, _, _, _, htarget, hfound, _, hdisplays⟩
    rw [hadmitted.target] at htarget
    obtain ⟨rfl, rfl⟩ : c = _ ∧ l' = _ := by simpa using htarget
    rw [hadmitted.found] at hfound
    obtain rfl := Option.some.inj hfound
    exact hdisplays

/-- A record that its limits and its collapse cache let through is delivered
exactly if the filters let it through as well. -/
theorem delivered_iff_passesFilters (hrunning : l.shutdownCalled = false)
    (htext : context.text = some text) {logged : Logged}
    (houtcome : Outcome now l guard context logged) :
    logged.displayed.deliveries ≠ [] ↔
      (context.admitRecord now).1 = true ∧
        ((context.admitRecord now).2.applyCollapse now text).1 = true ∧
        PassesFilters now l guard context text := by
  cases houtcome with
  | stopped hgate =>
      constructor
      · exact fun hne => absurd rfl hne
      · intro ⟨hlimits, hcollapse, hsubsystem, l', c, channel, htarget, hfound, hreported, _⟩
        rw [gate_of_admitted ⟨⟨hrunning, hlimits, hsubsystem, htarget, hfound, htext, hcollapse⟩,
          hreported⟩] at hgate
        exact Gate.noConfusion hgate
  | @written _ _ _ text' _ _ hadmitted hwrites =>
      obtain rfl : text' = text := Option.some.inj (hadmitted.hasText.symm.trans htext)
      rw [hwrites.deliveries_ne_nil hadmitted]
      exact ⟨fun hpasses => ⟨hadmitted.limits, hadmitted.collapse, hpasses⟩, fun h => h.2.2⟩

/-- Whatever becomes of the record, its limits have counted it. -/
theorem Outcome.context_ovr (hrunning : l.shutdownCalled = false) {logged : Logged}
    (h : Outcome now l guard context logged) :
    logged.context.ovr = (context.admitRecord now).2.ovr := by
  have hcollapsed : ∀ context : Context, ∀ text,
      (context.applyCollapse now text).2.ovr = context.ovr := by
    intro context text
    unfold Context.applyCollapse
    split <;> rfl
  cases h with
  | stopped hgate =>
      unfold gate at hgate
      rw [hrunning, if_neg Bool.false_ne_true] at hgate
      dsimp only at hgate
      split at hgate
      case isTrue => rw [(Gate.stop.inj hgate).2]
      case isFalse =>
        split at hgate
        case isTrue => rw [(Gate.stop.inj hgate).2]
        case isFalse =>
          split at hgate
          next => rw [(Gate.stop.inj hgate).2]
          next =>
            split at hgate
            next => rw [(Gate.stop.inj hgate).2]
            next =>
              split at hgate
              next => rw [(Gate.stop.inj hgate).2]
              next =>
                split at hgate
                next => rw [(Gate.stop.inj hgate).2]
                next =>
                  split at hgate
                  next => rw [← (Gate.stop.inj hgate).2, hcollapsed]
                  next => exact Gate.noConfusion hgate
  | written => rw [admittedContext, hcollapsed]

theorem Logs.unique {logged logged' : Logged} (h : Logs now l guard context logged)
    (h' : Logs now l guard context logged') : logged = logged' := by
  obtain ⟨enough, henough⟩ := h
  obtain ⟨enough', henough'⟩ := h'
  have hsame := (henough (max enough enough') (by omega)).symm.trans
    (henough' (max enough enough') (by omega))
  exact Option.some.inj hsame

end Logger

/-! ## Log statements -/

namespace LogArguments

/-- The override among the arguments. -/
def explicitOvr : LogArguments → Option Override
  | .ovr given => some given
  | .ovrSid given _ => some given
  | .idOvr _ given => some given
  | .chOvr _ given => some given
  | .idSidOvr _ _ given => some given
  | .chSidOvr _ _ given => some given
  | _ => Option.none

end LogArguments

/-- A call of an overload; `macroForm` is there for a log macro, which asks its
precheck first: with preparation code, with a forwarded parameter pack. -/
structure LogStatement where
  site : CallSite
  args : LogArguments
  stream : Bool
  macroForm : Option (Bool × Bool)
  text : List UInt8

namespace Logger

variable {l : Logger} {t : ThreadSettings} {s : LogStatement} {guard : ReentryState Nat}
  {context : Context} {now : Nat}

/-- The context with which a statement calls `DoLog`, if it does. -/
def issue (l : Logger) (t : ThreadSettings) (s : LogStatement) : Option Context :=
  if s.macroForm.any fun form => !l.precheck t s.site form.1 form.2 s.args then none
  else if s.stream then l.streamLog t (s.site.context s.args) s.args s.text
  else l.formatLog t (s.site.context s.args) s.args s.text

/-- Where the filters suppress the record of the statement, nothing is
delivered and the counters of the override stay as they are. -/
def KeepsBudget (now : Nat) (l : Logger) (t : ThreadSettings) (guard : ReentryState Nat)
    (s : LogStatement) : Prop :=
  ∀ context, l.issue t s = some context → ¬ PassesFilters now l guard context s.text →
    ∃ logged, Logs now l guard context logged ∧ logged.displayed.deliveries = [] ∧
      logged.context.ovr.map Override.spent = context.ovr.map Override.spent

theorem formatContext_ovr_eq (t : ThreadSettings) (context : Context) (args : LogArguments) :
    (formatContext t context args).ovr = some (args.explicitOvr.getD t.getThreadOverride) := by
  cases args <;> rfl

theorem formatLog_spec {prepared : Context} {args : LogArguments} {text : List UInt8}
    (h : l.formatLog t context args text = some prepared) :
    l.shutdownCalled = false ∧ prepared.text = some text ∧
      prepared.ovr = some (args.explicitOvr.getD t.getThreadOverride) := by
  unfold formatLog at h
  split at h
  case isTrue => exact absurd h.symm (Option.some_ne_none prepared)
  case isFalse hgoes =>
    rw [Bool.or_eq_true, not_or, Bool.not_eq_true] at hgoes
    obtain rfl := Option.some.inj h
    exact ⟨hgoes.1, rfl, formatContext_ovr_eq t context args⟩

theorem issue_spec (h : l.issue t s = some context) :
    l.shutdownCalled = false ∧ context.text = some s.text ∧
      context.ovr = some (s.args.explicitOvr.getD t.getThreadOverride) := by
  unfold issue at h
  split at h
  case isTrue => exact absurd h.symm (Option.some_ne_none context)
  case isFalse =>
    split at h
    case isFalse => exact formatLog_spec h
    case isTrue =>
      have hrunning : l.shutdownCalled = false := by
        unfold streamLog at h
        split at h
        next => exact absurd h.symm (Option.some_ne_none context)
        next => exact (formatLog_spec h).1
      by_cases htext : s.text = []
      · rw [streamLog, if_pos htext] at h
        exact absurd h.symm (Option.some_ne_none context)
      · rw [streamLog_eq l t _ s.args htext hrunning] at h
        obtain rfl := Option.some.inj h
        exact ⟨hrunning, rfl, formatContext_ovr_eq t _ s.args⟩

/-- The record of a statement with an override that its filters suppress costs
nothing exactly if the override's own limits refuse or do not count it. -/
theorem keepsBudget_iff (now : Nat) (l : Logger) (t : ThreadSettings)
    {guard : ReentryState Nat} (hguard : guard.WellFormed) {s : LogStatement} {ovr : Override}
    (hovr : s.args.explicitOvr = some ovr) :
    KeepsBudget now l t guard s ↔ ∀ context, l.issue t s = some context →
      PassesFilters now l guard context s.text ∨ ovr.Unspent now := by
  apply forall_congr'
  intro context
  apply forall_congr'
  intro hissue
  obtain ⟨hrunning, htext, hcontext⟩ := issue_spec hissue
  rw [hovr, Option.getD_some] at hcontext
  obtain ⟨logged, hlogs, houtcome⟩ := l.doLog_logs now hguard context
  -- `DoLog` spends the budget before it asks the filters
  have hspent : logged.context.ovr.map Override.spent = context.ovr.map Override.spent ↔
      ovr.Unspent now := by
    rw [houtcome.context_ovr hrunning, Context.admitRecord, hcontext]
    dsimp only
    rw [Option.map_some, Option.map_some, Option.some.injEq, Override.spent_admitRecord_iff]
  rw [← hspent]
  constructor
  · intro hkeeps
    by_cases hpasses : PassesFilters now l guard context s.text
    · exact .inl hpasses
    · right
      obtain ⟨logged', hlogs', -, hsame⟩ := hkeeps hpasses
      rw [hlogs.unique hlogs']
      exact hsame
  · intro hcondition hsuppressed
    refine ⟨logged, hlogs, ?_, hcondition.resolve_left hsuppressed⟩
    by_contra hne
    exact hsuppressed ((delivered_iff_passesFilters hrunning htext houtcome).mp hne).2.2

/-- A one-time debug message by a direct call, for the default channel with the
level `INFO`. -/
def debugOnce : LogStatement :=
  ⟨⟨.debug, [], 0, none⟩, .ovr { maxRepetitions := 1 }, false, none, [65]⟩

theorem keepsBudget_iff_debugOnce :
    KeepsBudget 5 (new 3) ⟨none, none, none⟩ .initial debugOnce ↔
      ∀ context, (new 3).issue ⟨none, none, none⟩ debugOnce = some context →
        PassesFilters 5 (new 3) .initial context debugOnce.text ∨
          Override.Unspent { maxRepetitions := 1 } 5 :=
  keepsBudget_iff 5 (new 3) ⟨none, none, none⟩ ReentryState.initial_wellFormed rfl

/-- The level of the channel suppresses the message, and its only repetition
is gone. -/
theorem not_keepsBudget_debugOnce :
    ¬ KeepsBudget 5 (new 3) ⟨none, none, none⟩ .initial debugOnce := by
  intro hkeeps
  let context : Context :=
    ⟨.debug, 0, some { maxRepetitions := 1 }, none, [], some [65], none, 0⟩
  let spent : Context :=
    ⟨.debug, 0, some { maxRepetitions := 1, repetitions := 1 }, none, [], some [65], none, 0⟩
  have hgate : gate 5 (new 3) context = .stop (new 3) spent := rfl
  have hlogs : Logs 5 (new 3) .initial context ⟨⟨new 3, .initial, []⟩, spent⟩ :=
    ⟨0, fun fuel _ => rfl⟩
  have hsuppressed : ¬ PassesFilters 5 (new 3) .initial context [65] := by
    intro hpasses
    exact (delivered_iff_passesFilters rfl rfl (.stopped hgate)).mpr ⟨rfl, rfl, hpasses⟩ rfl
  obtain ⟨logged, hlogged, -, hsame⟩ := hkeeps context rfl hsuppressed
  rw [hlogged.unique hlogs] at hsame
  exact absurd hsame (by decide)

end Logger
end Logme
