import Logme.SuppressedBudget

/-!
# Limits of a thread override

Every overload without an override, and the functions of the C API, take a copy
of the override that is installed for the thread.  `DoLog` counts in the copy,
which is dropped afterwards, so that the next record finds the installed
override as it was.
-/

namespace Logme

/-! ## The limits of an override -/

namespace Override

variable {ovr : Override} {now : Nat}

def Exhausted (ovr : Override) : Prop :=
  ovr.maxRepetitions ≠ -1 ∧ ovr.maxRepetitions ≤ ovr.repetitions

/-- The times keep the limits: no more of them than repetitions, and any two as
far apart as the frequency asks. -/
structure KeptBy (ovr : Override) (times : List Nat) : Prop where
  repetitions : ovr.maxRepetitions ≠ -1 → (times.length : Int) ≤ max 0 ovr.maxRepetitions
  frequency : ovr.maxFrequency ≠ 0 →
    times.Pairwise fun earlier later => earlier + ovr.maxFrequency ≤ later

theorem admitRepetitions_fst :
    ovr.admitRepetitions.1 = true ↔ ¬ ovr.Exhausted := by
  unfold admitRepetitions Exhausted
  split
  case isTrue hfree => simp [hfree]
  case isFalse hlimited =>
    split
    case isTrue hused => simp [hlimited, hused]
    case isFalse hleft => simp [hleft]

theorem admitRecord_fst :
    (ovr.admitRecord now).1 = true ↔ ¬ ovr.TooSoon now ∧ ¬ ovr.Exhausted := by
  unfold admitRecord
  obtain ⟨hsoon, hresult⟩ | ⟨hlate, time, hresult, -⟩ := ovr.admitFrequency_cases now
  · rw [hresult]
    exact iff_of_false Bool.false_ne_true fun h => h.1 hsoon
  · rw [hresult]
    dsimp only
    rw [admitRepetitions_fst, and_iff_right hlate]
    rfl

theorem keptBy_nil (ovr : Override) : ovr.KeptBy [] :=
  ⟨fun _ => le_max_left 0 _, fun _ => .nil⟩

end Override

/-! ## Records of a thread -/

def toCppLevel : Int → Level
  | 0 => .debug
  | 1 => .info
  | 2 => .warn
  | 3 => .error
  | 4 => .critical
  | _ => .info

/-- A call of `LogmeWriteSiteV`; `none` stands for a null pointer. -/
structure CWrite where
  level : Int
  channel : Option Name
  subsystem : Option Nat
  text : List UInt8

/-- The context of `DoWriteV`; `CH` and `SUBSID` are the global ones. -/
def CWrite.context (w : CWrite) (ch : Name) (subsid : Nat) (ovr : Override) : Context where
  level := toCppLevel w.level
  subsystem := w.subsystem.getD subsid
  ovr := some ovr
  ch := none
  channel := match w.channel with
    | none => ch
    | some name => if name = [] then ch else name
  text := some w.text
  collapseCache := none
  collapseRepeatCount := 0

/-- A record without an override of its own. -/
inductive ThreadCall where
  | log (s : LogStatement) (plain : s.args.explicitOvr = none)
  | write (w : CWrite) (ch : Name) (subsid : Nat)

/-- A call on the thread with the state that it meets. -/
structure ThreadRecord where
  logger : Logger
  guard : ReentryState Nat
  wellFormed : guard.WellFormed
  channel : Option Name
  subsystem : Option Nat
  now : Nat
  call : ThreadCall

namespace ThreadRecord

open Logger

variable {ovr : Override} {r : ThreadRecord}

/-- The context with the copy of the installed override, if `DoLog` is
called. -/
def context (r : ThreadRecord) (ovr : Override) : Option Context :=
  match r.call with
  | .log s _ => r.logger.issue ⟨r.channel, r.subsystem, some ovr⟩ s
  | .write w ch subsid =>
      if r.logger.shutdownCalled then none else some (w.context ch subsid ovr)

/-- Some backend gets the record while the override is installed. -/
def Delivered (r : ThreadRecord) (ovr : Override) : Prop :=
  ∃ context logged, r.context ovr = some context ∧
    Logs r.now r.logger r.guard context logged ∧ logged.displayed.deliveries ≠ []

/-- Neither the filters nor a collapse state keep the record back. -/
def Passes (r : ThreadRecord) (ovr : Override) : Prop :=
  ∃ context text, r.context ovr = some context ∧ context.text = some text ∧
    (context.applyCollapse r.now text).1 = true ∧
    PassesFilters r.now r.logger r.guard context text

theorem context_spec {context : Context} (h : r.context ovr = some context) :
    r.logger.shutdownCalled = false ∧ (∃ text, context.text = some text) ∧
      context.ovr = some ovr := by
  unfold ThreadRecord.context at h
  split at h
  next s plain _ =>
    obtain ⟨hrunning, htext, hovr⟩ := issue_spec h
    rw [plain, Option.getD_none] at hovr
    exact ⟨hrunning, ⟨s.text, htext⟩, hovr⟩
  next w ch subsid _ =>
    split at h
    case isTrue => exact absurd h.symm (Option.some_ne_none context)
    case isFalse hrunning =>
      obtain rfl := Option.some.inj h
      exact ⟨by simpa using hrunning, ⟨w.text, rfl⟩, rfl⟩

theorem applyCollapse_admitRecord (context : Context) (now : Nat) (text : List UInt8) :
    ((context.admitRecord now).2.applyCollapse now text).1 =
      (context.applyCollapse now text).1 := by
  have hcache : (context.admitRecord now).2.collapseCache = context.collapseCache := by
    unfold Context.admitRecord
    split <;> rfl
  unfold Context.applyCollapse
  rw [hcache]
  split <;> rfl

/-- The installed override decides about each record anew. -/
theorem delivered_iff (r : ThreadRecord) (ovr : Override) :
    r.Delivered ovr ↔ ¬ ovr.Exhausted ∧ ¬ ovr.TooSoon r.now ∧ r.Passes ovr := by
  have hcontext : ∀ context, r.context ovr = some context → ∀ logged,
      Logger.Outcome r.now r.logger r.guard context logged → ∀ text, context.text = some text →
        (logged.displayed.deliveries ≠ [] ↔ (¬ ovr.TooSoon r.now ∧ ¬ ovr.Exhausted) ∧
          (context.applyCollapse r.now text).1 = true ∧
          PassesFilters r.now r.logger r.guard context text) := by
    intro context hissued logged houtcome text htext
    obtain ⟨hrunning, -, hovr⟩ := context_spec hissued
    have hlimits : (context.admitRecord r.now).1 = (ovr.admitRecord r.now).1 := by
      rw [Context.admitRecord, hovr]
    rw [delivered_iff_passesFilters hrunning htext houtcome, hlimits, Override.admitRecord_fst,
      applyCollapse_admitRecord]
  constructor
  · intro hdelivered
    obtain ⟨context, logged, hissued, hlogs, hdelivered⟩ := hdelivered
    obtain ⟨-, ⟨text, htext⟩, -⟩ := context_spec hissued
    obtain ⟨logged', hlogs', houtcome⟩ := r.logger.doLog_logs r.now r.wellFormed context
    rw [hlogs.unique hlogs'] at hdelivered
    obtain ⟨⟨hlate, hleft⟩, hcollapse, hfilters⟩ :=
      (hcontext context hissued logged' houtcome text htext).mp hdelivered
    exact ⟨hleft, hlate, context, text, hissued, htext, hcollapse, hfilters⟩
  · intro hconditions
    obtain ⟨hleft, hlate, context, text, hissued, htext, hcollapse, hfilters⟩ := hconditions
    obtain ⟨logged, hlogs, houtcome⟩ := r.logger.doLog_logs r.now r.wellFormed context
    exact ⟨context, logged, hissued, hlogs,
      (hcontext context hissued logged houtcome text htext).mpr
        ⟨⟨hlate, hleft⟩, hcollapse, hfilters⟩⟩

end ThreadRecord

/-! ## Runs of a thread -/

open scoped Classical in
/-- The times of the records that fulfil a condition. -/
noncomputable def timesOf (P : ThreadRecord → Prop) (records : List ThreadRecord) : List Nat :=
  (records.filter fun r => decide (P r)).map ThreadRecord.now

theorem timesOf_eq_nil {P : ThreadRecord → Prop} (h : ∀ r, ¬ P r)
    (records : List ThreadRecord) : timesOf P records = [] := by
  simp [timesOf, h]

/-- What is delivered while the override is installed keeps its limits. -/
def LimitsEnforced (ovr : Override) (records : List ThreadRecord) : Prop :=
  ovr.KeptBy (timesOf (·.Delivered ovr) records)

/-- The limits of a thread override hold exactly where they have nothing to do:
it is installed exhausted, or the records that come late enough after its last
time and pass everything else keep the limits by themselves. -/
theorem limitsEnforced_iff (ovr : Override) (records : List ThreadRecord) :
    LimitsEnforced ovr records ↔
      ovr.Exhausted ∨
        ovr.KeptBy (timesOf (fun r => ¬ ovr.TooSoon r.now ∧ r.Passes ovr) records) := by
  unfold LimitsEnforced
  by_cases hused : ovr.Exhausted
  · have hnone : timesOf (·.Delivered ovr) records = [] :=
      timesOf_eq_nil (fun r hdelivered => ((r.delivered_iff ovr).mp hdelivered).1 hused) records
    rw [hnone]
    exact iff_of_true ovr.keptBy_nil (.inl hused)
  · have hsame : (fun r : ThreadRecord => r.Delivered ovr) =
        fun r => ¬ ovr.TooSoon r.now ∧ r.Passes ovr := by
      funext r
      rw [r.delivered_iff, eq_iff_iff]
      exact and_iff_right hused
    rw [hsame, or_iff_right hused]

/-- An `INFO` record for the default channel by the C API. -/
def infoWrite (now : Nat) : ThreadRecord where
  logger := .new 3
  guard := .initial
  wellFormed := ReentryState.initial_wellFormed
  channel := none
  subsystem := none
  now := now
  call := .write ⟨1, none, none, [65]⟩ [] 0

/-- With a one-time override installed the record is delivered twice. -/
theorem not_limitsEnforced_infoWrite :
    ¬ LimitsEnforced { maxRepetitions := 1 } [infoWrite 5, infoWrite 6] := by
  intro henforced
  have hdelivered : ∀ now, (infoWrite now).Delivered { maxRepetitions := 1 } := by
    intro now
    refine ⟨⟨.info, 0, some { maxRepetitions := 1 }, none, [], some [65], none, 0⟩,
      ⟨⟨.new 3, (ReentryState.initial.enter 0).2.leave true, [⟨0, 3⟩]⟩, ⟨.info, 0,
        some { maxRepetitions := 1, repetitions := 1 }, none, [], some [65], none, 0⟩⟩, rfl,
      ⟨1, fun fuel hfuel => ?_⟩, List.cons_ne_nil _ _⟩
    obtain ⟨fuel, rfl⟩ := Nat.exists_eq_add_of_le' hfuel
    rfl
  have hcount := henforced.repetitions (by decide)
  simp only [timesOf, hdelivered, decide_true, List.filter_cons_of_pos, List.filter_nil,
    List.map_cons, List.map_nil, List.length_cons, List.length_nil] at hcount
  exact absurd hcount (by decide)

end Logme
