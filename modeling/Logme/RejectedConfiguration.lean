import Logme.LoadConfiguration

/-!
# Rejected configurations

The loader does what the parsers do one after another, writes their reports and
applies what they have collected; it sets the names of the structured fields on
the way.  A report is an ordinary log statement, which creates its channel when
there is none.
-/

namespace Logme

/-! ## Reports that leave the logger as it is -/

namespace Logger

/-- Nothing has changed, or a channel was created. -/
def SameOrLarger (l l' : Logger) : Prop := l' = l ∨ l.heap.length < l'.heap.length

theorem SameOrLarger.refl (l : Logger) : l.SameOrLarger l := .inl rfl

theorem SameOrLarger.trans {l₁ l₂ l₃ : Logger} (h₁ : l₁.SameOrLarger l₂)
    (h₂ : l₂.SameOrLarger l₃) : l₁.SameOrLarger l₃ := by
  rcases h₁ with rfl | h₁
  · exact h₂
  · rcases h₂ with rfl | h₂
    · exact .inr h₁
    · exact .inr (h₁.trans h₂)

theorem getChannel_sameOrLarger (l : Logger) (name : Name) :
    l.SameOrLarger (l.getChannel name).2 := by
  unfold getChannel createChannelInternal
  split
  next => exact .refl l
  next =>
    split
    next => exact .refl l
    next =>
      split
      next => exact .refl l
      next => exact .inr (by simp)

theorem linkTarget_sameOrLarger (l : Logger) (channel : Channel) :
    l.SameOrLarger (l.linkTarget channel).2 := by
  unfold linkTarget
  split
  next => exact .refl l
  next => exact l.getChannel_sameOrLarger _
  next => exact .refl l

theorem recordChannel_sameOrLarger (l : Logger) (context : Context) :
    l.SameOrLarger (l.recordChannel context).2 := by
  unfold recordChannel
  split
  next => exact .refl l
  next => exact l.getChannel_sameOrLarger _

/-- The rule for what a report does to the logger. -/
theorem writeReport_rule {R : Logger → Logger → Prop} (hrefl : ∀ l, R l l)
    (htrans : ∀ l₁ l₂ l₃, R l₁ l₂ → R l₂ l₃ → R l₁ l₃)
    (htarget : ∀ (l : Logger) (c : Nat) (channel : Channel), l.heap[c]? = some channel →
      R l (l.linkTarget channel).2)
    {env : LoaderEnvironment} {l : Logger} {m : ConfigMessage}
    (hrecord : ∀ context,
      l.formatLog env.thread (m.site.context m.arguments) m.arguments m.text = some context →
        R l (l.recordChannel context).2) : R l (l.writeReport env m) := by
  unfold writeReport
  split
  next =>
    split
    next logged hlogged =>
      obtain ⟨context, hcontext, hlogged⟩ := Option.bind_eq_some_iff.mp hlogged
      exact doLog_rule hrefl htrans htarget (hrecord context hcontext) hlogged
    next => exact hrefl l
  next => exact hrefl l

theorem writeReport_sameOrLarger (env : LoaderEnvironment) (l : Logger)
    (m : ConfigMessage) : l.SameOrLarger (l.writeReport env m) :=
  writeReport_rule SameOrLarger.refl (fun _ _ _ => SameOrLarger.trans)
    (fun l _ channel _ => l.linkTarget_sameOrLarger channel)
    fun context _ => l.recordChannel_sameOrLarger context

theorem writeReports_sameOrLarger (env : LoaderEnvironment) (l : Logger)
    (messages : List ConfigMessage) :
    l.SameOrLarger (messages.foldl (writeReport env) l) := by
  induction messages generalizing l with
  | nil => exact .refl l
  | cons m rest ih => exact (l.writeReport_sameOrLarger env m).trans (ih _)

/-- Channels are never removed again, so that reports leave the logger as it is
only if each of them does. -/
theorem writeReports_eq_iff (env : LoaderEnvironment) (l : Logger)
    (messages : List ConfigMessage) :
    messages.foldl (writeReport env) l = l ↔ ∀ m ∈ messages, l.writeReport env m = l := by
  induction messages with
  | nil => exact iff_of_true rfl nofun
  | cons m rest ih =>
      rw [List.foldl_cons, List.forall_mem_cons]
      constructor
      · intro hall
        have hfirst : l.writeReport env m = l := by
          rcases l.writeReport_sameOrLarger env m with heq | hlt
          · exact heq
          · have hrest := (l.writeReport env m).writeReports_sameOrLarger env rest
            rw [hall] at hrest
            rcases hrest with heq | hgt
            · exact heq.symm
            · omega
        rw [hfirst] at hall
        exact ⟨hfirst, ih.mp hall⟩
      · rintro ⟨hfirst, hrest⟩
        rw [hfirst]
        exact ih.mpr hrest

/-- Every link by name leads to a channel. -/
def LinksFound (l : Logger) : Prop :=
  ∀ (c : Nat) (channel : Channel) (name : Name), l.heap[c]? = some channel →
    channel.link = some name → (l.getExistingChannel name).isSome

theorem getChannel_of_found {l : Logger} {name : Name}
    (h : (l.getExistingChannel name).isSome) : (l.getChannel name).2 = l := by
  obtain ⟨c, hc⟩ := Option.isSome_iff_exists.mp h
  rw [getChannel, hc]

/-- A report to a channel that exists leaves the logger as it is, if the links
lead to channels. -/
theorem writeReport_eq_self {env : LoaderEnvironment} {l : Logger} {m : ConfigMessage}
    (hlinks : l.LinksFound)
    (hchannel : ∀ context,
      l.formatLog env.thread (m.site.context m.arguments) m.arguments m.text = some context →
        (l.recordChannel context).2 = l) : l.writeReport env m = l := by
  refine writeReport_rule (R := fun l l' => l.LinksFound → l' = l) (fun _ _ => rfl) ?_ ?_
    (fun context hcontext _ => hchannel context hcontext) hlinks
  · intro l₁ l₂ l₃ h₁ h₂ hlinks
    have heq := h₁ hlinks
    subst heq
    exact h₂ hlinks
  · intro l c channel hc hlinks
    unfold linkTarget
    split
    next => rfl
    next name _ hlink => exact getChannel_of_found (hlinks c channel name hc hlink)
    next => rfl

end Logger

/-! ## The loader and the parsers -/

namespace LoadedState

variable {env : LoaderEnvironment} {s : LoadedState}

theorem writes_append (s : LoadedState) (first second : List ConfigMessage) :
    s.writes env (first ++ second) = (s.writes env first).writes env second := by
  simp only [writes, List.foldl_append]

theorem withFieldNames_writes (s : LoadedState) (messages : List ConfigMessage)
    (names : Option OutputFieldNameMap) :
    (s.writes env messages).withFieldNames names =
      (s.withFieldNames names).writes env messages := by
  cases names <;> rfl

/-- The loader has written the reports of the parsers and set the names of the
fields, and it has applied what was collected. -/
def Loads (env : LoaderEnvironment) (s : LoadedState) (p : Parsed ParsedConfig)
    (names : Option OutputFieldNameMap) (result : LoadResult × LoadedState) : Prop :=
  let collected := (s.withFieldNames names).writes env p.messages
  match p.outcome with
  | .value config => result = collected.apply env config
  | .rejected => ∃ error, result = (.rejected error, collected)
  | .thrown => result = (.thrown, collected)

theorem Loads.stage {α : Type} {p : Parsed α} {q : α → Parsed ParsedConfig}
    {names : α → Option OutputFieldNameMap} {error : String}
    {next : LoadedState → α → LoadResult × LoadedState}
    (hnext : ∀ a, Loads env (s.writes env p.messages) (q a) (names a)
      (next (s.writes env p.messages) a)) :
    Loads env s (p >>= q) (p.outcome.value?.bind names) (s.stage env p error next) := by
  have hbind : p >>= q = p.bind q := rfl
  rw [hbind]
  cases houtcome : p.outcome with
  | value a =>
      have hnext := hnext a
      simp only [Loads, Parsed.bind, LoadedState.stage, houtcome, ParseOutcome.value?,
        Option.bind_some, writes_append] at hnext ⊢
      rwa [withFieldNames_writes] at hnext
  | rejected =>
      simp only [Loads, Parsed.bind, LoadedState.stage, houtcome, ParseOutcome.value?]
      exact ⟨_, rfl⟩
  | thrown => simp only [Loads, Parsed.bind, LoadedState.stage, houtcome, ParseOutcome.value?]; rfl

theorem Loads.withFieldNames {p : Parsed ParsedConfig} {names : Option OutputFieldNameMap}
    {result : LoadResult × LoadedState} (h : Loads env (s.withFieldNames names) p none result) :
    Loads env s p names result := h

/-- A later parser sets no names. -/
theorem Loads.later {α : Type} {p : Parsed α} {q : α → Parsed ParsedConfig}
    {error : String} {next : LoadedState → α → LoadResult × LoadedState}
    (hnext : ∀ a, Loads env (s.writes env p.messages) (q a) none
      (next (s.writes env p.messages) a)) :
    Loads env s (p >>= q) none (s.stage env p error next) := by
  have hstage : Loads env s (p >>= q) (p.outcome.value?.bind fun _ => none)
      (s.stage env p error next) := Loads.stage hnext
  rwa [Option.bind_fun_none] at hstage

theorem loadConfiguration_loads (s : LoadedState) (path : Name) {data : Name}
    {root : JsonValue} (hroot : env.parse data = .ok root) :
    Loads env s (parseConfiguration env s.logger.shutdownCalled root path)
      (givenFieldNames env root path) (s.loadConfiguration env data path) := by
  rw [loadConfiguration, hroot]
  refine Loads.stage fun config => Loads.stage fun control => Loads.stage fun names => ?_
  refine Loads.withFieldNames ?_
  exact Loads.later fun flags => Loads.later fun channels => Loads.later fun subsystems =>
    Loads.later fun home => rfl

end LoadedState

/-! ## What a rejected configuration changes -/

/-- Every name that a configuration gives to a field is the one in force. -/
def FieldNamesInForce (names : Option OutputFieldNameMap) (current : OutputFieldNames) :
    Prop :=
  ∀ given, names = some given → ∀ field name, given field = some name →
    name = [] ∨ current field = name

theorem setOutputFieldNames_eq_iff (names : OutputFieldNameMap) (current : OutputFieldNames) :
    setOutputFieldNames names current = current ↔ FieldNamesInForce (some names) current := by
  constructor
  · rintro hall given hgiven field name hname
    cases hgiven
    have hfield := congrFun hall field
    rw [setOutputFieldNames, hname] at hfield
    dsimp only at hfield
    split at hfield
    next hempty => exact .inl hempty
    next => exact .inr hfield.symm
  · intro hforce
    funext field
    unfold setOutputFieldNames
    split
    next => rfl
    next name hname =>
      split
      next => rfl
      next hne => exact ((hforce names rfl field name hname).resolve_left hne).symm

theorem LoadedState.withFieldNames_fieldNames_eq_iff (s : LoadedState)
    (names : Option OutputFieldNameMap) :
    (s.withFieldNames names).fieldNames = s.fieldNames ↔
      FieldNamesInForce names s.fieldNames := by
  cases names with
  | none => exact iff_of_true rfl nofun
  | some names => exact setOutputFieldNames_eq_iff names s.fieldNames

theorem LoadedState.withFieldNames_eq (s : LoadedState) (names : Option OutputFieldNameMap) :
    s.withFieldNames names =
      { s with fieldNames := (s.withFieldNames names).fieldNames } := by
  cases names <;> rfl

theorem LoadedState.apply_not_rejected (env : LoaderEnvironment) (s : LoadedState)
    (config : ParsedConfig) (error : Name) : (s.apply env config).1 ≠ .rejected error := by
  unfold LoadedState.apply
  dsimp only
  split <;> exact nofun

/-- A rejected configuration changes nothing exactly if the names that it gives
to the structured fields, where the parsers come to them, are those in force, and
every report of the parsers finds its channels. -/
theorem rejected_unchanged_iff (env : LoaderEnvironment) (s : LoadedState)
    (data path error : Name)
    (hrejected : (s.loadConfiguration env data path).1 = .rejected error) :
    (s.loadConfiguration env data path).2 = s ↔
      ∀ root, env.parse data = .ok root →
        FieldNamesInForce (givenFieldNames env root path) s.fieldNames ∧
          ∀ m ∈ (parseConfiguration env s.logger.shutdownCalled root path).messages,
            s.logger.writeReport env m = s.logger := by
  cases hroot : env.parse data with
  | error text =>
      rw [LoadedState.loadConfiguration, hroot]
      exact iff_of_true rfl nofun
  | ok root =>
      have hstate : (s.loadConfiguration env data path).2 =
          (s.withFieldNames (givenFieldNames env root path)).writes env
            (parseConfiguration env s.logger.shutdownCalled root path).messages := by
        have hloads := s.loadConfiguration_loads path hroot
        unfold LoadedState.Loads at hloads
        dsimp only at hloads
        split at hloads
        next config _ =>
          rw [hloads] at hrejected
          exact absurd hrejected (LoadedState.apply_not_rejected env _ config error)
        next =>
          obtain ⟨text, hloads⟩ := hloads
          rw [hloads]
        next => rw [hloads]
      have hroots : (∀ other, Except.ok root = Except.ok (ε := Name) other →
          FieldNamesInForce (givenFieldNames env other path) s.fieldNames ∧
            ∀ m ∈ (parseConfiguration env s.logger.shutdownCalled other path).messages,
              s.logger.writeReport env m = s.logger) ↔
          FieldNamesInForce (givenFieldNames env root path) s.fieldNames ∧
            ∀ m ∈ (parseConfiguration env s.logger.shutdownCalled root path).messages,
              s.logger.writeReport env m = s.logger := by
        constructor
        · intro hall
          exact hall root rfl
        · rintro hone other ⟨⟩
          exact hone
      rw [hroots, hstate, ← s.withFieldNames_fieldNames_eq_iff,
        ← Logger.writeReports_eq_iff, s.withFieldNames_eq]
      constructor
      · intro heq
        have hnames := congrArg LoadedState.fieldNames heq
        have hlogger := congrArg (fun s : LoadedState => s.logger) heq
        exact ⟨hnames, hlogger⟩
      · rintro ⟨hnames, hlogger⟩
        rw [hnames, LoadedState.writes, hlogger]

/-! ## Two configurations -/

/-- An environment in which every text is read as `root`. -/
def readingEnvironment (root : JsonValue) : LoaderEnvironment where
  toConfigEnvironment := plainConfigEnvironment
  parse := fun _ => .ok root
  build := ⟨false, false, true, false⟩
  inetAddr := fun _ => 0xFFFFFFFF
  maxSizeDefault := 8 * 1024 * 1024
  startServer := fun _ => true
  thread := ⟨none, none, none⟩

/-- A logger that has the channel `logme`. -/
def reportingState : LoadedState where
  logger := (Logger.createChannelInternal (.new 0) Logger.internalChannel .default .default).2
  backends := [⟨.console {}, [], []⟩]
  home := []
  fieldNames := defaultFieldNames
  watchDog := ⟨0, 0, [], false⟩

/-- Flags that are not an object. -/
def flagsRejected : JsonValue := .object [(ascii "flags", .bool true)]

/-- The same after a name for the message. -/
def flagsRejectedAfterNames : JsonValue :=
  .object [(ascii "flags", .bool true),
    (ascii "structured_fields", .object [(ascii "message", .string (ascii "msg"))])]

theorem reportingState_linksFound : reportingState.logger.LinksFound := by
  intro c channel name hchannel hlink
  have hnone : ∀ channel ∈ reportingState.logger.heap, channel.link = none := by
    decide
  rw [hnone channel (List.mem_of_getElem? hchannel)] at hlink
  contradiction

theorem rejected_unchanged_flagsRejected :
    ((reportingState.loadConfiguration (readingEnvironment flagsRejected) [] []).1 =
      .rejected (ascii "output flags parsing failed")) ∧
    (reportingState.loadConfiguration (readingEnvironment flagsRejected) [] []).2 =
      reportingState := by
  refine ⟨rfl, (rejected_unchanged_iff _ _ _ _ _ rfl).mpr ?_⟩
  rintro root ⟨⟩
  refine ⟨nofun, fun m hm => ?_⟩
  refine Logger.writeReport_eq_self reportingState_linksFound fun context hcontext => ?_
  have hmessages : (parseConfiguration (readingEnvironment flagsRejected)
      reportingState.logger.shutdownCalled flagsRejected []).messages =
        [⟨.error, true, ascii "\"flags\" is not an object"⟩] := rfl
  rw [hmessages, List.mem_singleton] at hm
  subst hm
  cases hcontext
  rfl

/-- The name of the message stays set although the flags are rejected. -/
theorem field_name_set_by_rejected :
    ((reportingState.loadConfiguration (readingEnvironment flagsRejectedAfterNames) [] []).1 =
      .rejected (ascii "output flags parsing failed")) ∧
    (reportingState.loadConfiguration (readingEnvironment flagsRejectedAfterNames)
      [] []).2.fieldNames .message ≠ reportingState.fieldNames .message := by
  refine ⟨rfl, ?_⟩
  decide

end Logme
