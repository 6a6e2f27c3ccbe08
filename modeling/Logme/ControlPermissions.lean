import Logme.ControlConfinement

/-!
# Commands and their permissions

The check of the policy and the handlers read the words of a command on their
own.  Both come to the same operation and, for `backend`, to the same kind of
type; with the laws of the operations every handler keeps what the policy
protects, and so does the whole command.
-/

namespace Logme

/-! ## Types of backends in the check and in the handler -/

/-- The spellings that the handler takes for a backend that writes a file. -/
def fileSpellings : List Name :=
  [ascii "file", ascii "sharedfile", ascii "shared", ascii "sfile",
    ascii "filebackend", ascii "sharedfilebackend"]

theorem withoutBackend_mem_fileSpellings {input : Name} {type : BackendType}
    (h : normalizeBackendType input = some type) (hfile : type.isFile = true) :
    withoutBackend input ∈ fileSpellings := by
  have hno : ∀ other : BackendType, other.isFile = false → some other ≠ some type := by
    rintro _ hother ⟨⟩
    rw [hfile] at hother
    contradiction
  unfold normalizeBackendType at h
  dsimp only at h
  generalize withoutBackend input = s at h ⊢
  rcases ite_eq_iff.mp h with ⟨-, h⟩ | ⟨-, h⟩
  · exact absurd h (hno _ rfl)
  rcases ite_eq_iff.mp h with ⟨-, h⟩ | ⟨-, h⟩
  · exact absurd h (hno _ rfl)
  rcases ite_eq_iff.mp h with ⟨rfl, -⟩ | ⟨-, h⟩
  · decide
  rcases ite_eq_iff.mp h with ⟨rfl | rfl | rfl, -⟩ | ⟨-, h⟩
  · decide
  · decide
  · decide
  rcases ite_eq_iff.mp h with ⟨-, h⟩ | ⟨-, h⟩
  · exact absurd h (hno _ rfl)
  rcases ite_eq_iff.mp h with ⟨-, h⟩ | ⟨-, h⟩
  · exact absurd h (hno _ rfl)
  rcases ite_eq_iff.mp h with ⟨-, h⟩ | ⟨-, h⟩
  · exact absurd h (hno _ rfl)
  rcases ite_eq_iff.mp h with ⟨-, h⟩ | ⟨-, h⟩
  · exact absurd h (hno _ rfl)
  rcases ite_eq_iff.mp h with ⟨rfl, -⟩ | ⟨-, h⟩
  · decide
  rcases ite_eq_iff.mp h with ⟨rfl, -⟩ | ⟨-, h⟩
  · decide
  rcases ite_eq_iff.mp h with ⟨-, h⟩ | ⟨-, h⟩
  · exact absurd h (hno _ rfl)
  rcases ite_eq_iff.mp h with ⟨-, h⟩ | ⟨-, h⟩
  · exact absurd h (hno _ rfl)
  contradiction

theorem normalizeControlBackendType_eq (input : Name) :
    normalizeControlBackendType input =
      if withoutBackend input = ascii "console" ∨ withoutBackend input = ascii "con" then
        ascii "console"
      else if withoutBackend input = ascii "debug" ∨
          withoutBackend input = ascii "dbg" then ascii "debug"
      else if withoutBackend input = ascii "file" then ascii "file"
      else if withoutBackend input = ascii "sharedfile" ∨
          withoutBackend input = ascii "shared" ∨
          withoutBackend input = ascii "sfile" then ascii "sharedfile"
      else if withoutBackend input = ascii "buffer" ∨
          withoutBackend input = ascii "buf" then ascii "buffer"
      else if withoutBackend input = ascii "ringbuffer" ∨
          withoutBackend input = ascii "ring" ∨
          withoutBackend input = ascii "rbuf" then ascii "ringbuffer"
      else withoutBackend input := rfl

/-- What the check lets through as no file is no file to the handler. -/
theorem isFile_of_diagnostic {input : Name} {type : BackendType}
    (hcheck : isDiagnosticBackendType (normalizeControlBackendType input) = true)
    (h : normalizeBackendType input = some type) : type.isFile = false := by
  by_contra hfile
  have hmem := withoutBackend_mem_fileSpellings h (by simpa using hfile)
  rw [normalizeControlBackendType_eq] at hcheck
  generalize withoutBackend input = s at hmem hcheck
  simp only [fileSpellings, List.mem_cons, List.not_mem_nil, or_false] at hmem
  revert hcheck
  rcases hmem with rfl | rfl | rfl | rfl | rfl | rfl <;> decide

theorem index_of_getChannelFromArgs {s : ControlState} {arr : List Name}
    {c index : Nat} (h : getChannelFromArgs s arr 1 = .ok (c, index)) :
    index = operationIndex arr := by
  have hdefault : getChannelFromArgs.byDefault s 1 = .ok (c, index) → index = 1 := by
    unfold getChannelFromArgs.byDefault
    split <;> simp +contextual [eq_comm]
  unfold getChannelFromArgs at h
  unfold operationIndex
  rcases hargs : arr.drop 1 with _ | ⟨option, _ | ⟨name, rest⟩⟩
  · rw [hargs] at h
    exact hdefault h
  · rw [hargs] at h
    exact hdefault h
  · rw [hargs] at h
    dsimp only at h ⊢
    by_cases hoption : option = ascii "--channel"
    · rw [if_pos hoption] at h ⊢
      split at h
      next => contradiction
      next =>
        split at h
        next => contradiction
        next =>
          cases h
          rfl
    · rw [if_neg hoption] at h ⊢
      exact hdefault h

/-- An option that the type of the backend must allow leaves the type. -/
theorem type_of_allowed {p : Prop} [Decidable p] {config changed config' : BackendConfig}
    {consumed taken : Bool} {error : Name}
    (h : (if p then .ok (changed, consumed) else .error error :
      Except Name (BackendConfig × Bool)) = .ok (config', taken))
    (hsame : changed.type = config.type) : config'.type = config.type := by
  split at h
  next =>
    cases h
    exact hsame
  next => contradiction

theorem type_of_parseBackendOption {config config' : BackendConfig} {arg : Name}
    {value : Option Name} {taken : Bool}
    (h : parseBackendOption config arg value = .ok (config', taken)) :
    config'.type = config.type := by
  unfold parseBackendOption at h
  rcases ite_eq_iff.mp h with ⟨-, h⟩ | ⟨-, h⟩
  · exact type_of_allowed h rfl
  rcases ite_eq_iff.mp h with ⟨-, h⟩ | ⟨-, h⟩
  · exact type_of_allowed h rfl
  rcases ite_eq_iff.mp h with ⟨-, h⟩ | ⟨-, h⟩
  · exact type_of_allowed h rfl
  rcases ite_eq_iff.mp h with ⟨-, h⟩ | ⟨-, h⟩
  · split at h
    next => contradiction
    next => exact type_of_allowed h rfl
  rcases ite_eq_iff.mp h with ⟨-, h⟩ | ⟨-, h⟩
  · split at h
    next => contradiction
    next =>
      split at h
      next => contradiction
      next => exact type_of_allowed h rfl
  rcases ite_eq_iff.mp h with ⟨-, h⟩ | ⟨-, h⟩
  · split at h
    next => contradiction
    next =>
      split at h
      next => contradiction
      next => exact type_of_allowed h rfl
  rcases ite_eq_iff.mp h with ⟨-, h⟩ | ⟨-, h⟩
  · split at h
    next => contradiction
    next =>
      split at h
      next => contradiction
      next => exact type_of_allowed h rfl
  rcases ite_eq_iff.mp h with ⟨-, h⟩ | ⟨-, h⟩
  · split at h
    next => contradiction
    next =>
      split at h
      next => contradiction
      next => exact type_of_allowed h rfl
  rcases ite_eq_iff.mp h with ⟨-, h⟩ | ⟨-, h⟩
  · split at h
    next => contradiction
    next =>
      split at h
      next => contradiction
      next =>
        split at h
        next => contradiction
        next => exact type_of_allowed h rfl
  contradiction

theorem type_of_parseBackendOptions {config config' : BackendConfig}
    {options : List Name} (h : parseBackendOptions config options = .ok config') :
    config'.type = config.type := by
  induction config, options using parseBackendOptions.induct with
  | case1 config =>
      cases h
      rfl
  | case2 config arg =>
      rw [parseBackendOptions] at h
      cases hround : parseBackendOption config arg none with
      | error error =>
          rw [hround] at h
          contradiction
      | ok round =>
          rw [hround] at h
          cases h
          exact type_of_parseBackendOption hround
  | case3 config arg value rest error hround =>
      rw [parseBackendOptions, hround] at h
      contradiction
  | case4 config arg value rest config₁ hround ih =>
      rw [parseBackendOptions, hround] at h
      exact (ih h).trans (type_of_parseBackendOption hround)
  | case5 config arg value rest config₁ hround ih =>
      rw [parseBackendOptions, hround] at h
      exact (ih h).trans (type_of_parseBackendOption hround)

/-! ## Handlers -/

open ControlState

section Handlers

variable {named : Name → Prop} {exempt : Nat → Prop} {change : Change}
  {policy : ControlPolicy} {s : ControlState}

theorem addBackendCommand_keeps (env : ControlEnvironment) {c : Nat}
    {type : BackendType} {typeInput : Name} {options : List Name}
    (hbackends : change ≠ .backends)
    (hfile : change = .fileBackends → type.isFile = false)
    (hinternal : named Logger.internalChannel) (hlinks : s.logger.LinksNamed named) :
    Keeps named exempt change s
      (addBackendCommand env s c type typeInput options).1 := by
  have hself := Keeps.refl named exempt change s
  unfold addBackendCommand
  split
  next => exact hself
  next =>
    split
    next => exact hself
    next =>
      split
      next => exact hself
      next config hconfig =>
        have htype : config.type = type := type_of_parseBackendOptions hconfig
        have happlied : Keeps named exempt change s (s.applyConfig env config).2 :=
          keeps_applyConfig env config hinternal hlinks
        dsimp only
        split
        next =>
          refine happlied.trans (keeps_addBackend hbackends fun hchange => ?_)
          rw [htype]
          exact hfile hchange
        next => exact happlied

theorem deleteBackendCommand_keeps {c : Nat} {type : BackendType} {typeInput : Name}
    (hbackends : change ≠ .backends)
    (hfile : change = .fileBackends → type.isFile = false) :
    Keeps named exempt change s (deleteBackendCommand s c type typeInput).1 := by
  unfold deleteBackendCommand
  split
  next => exact .refl named exempt change s
  next backend hfound =>
    refine keeps_modifyChannel (Channel.removeBackend_subset · _)
      fun _ channel => ?_
    cases change with
    | backends => contradiction
    | fileBackends =>
        -- a backend with this id has the type that the command names
        obtain ⟨_, -, hfind⟩ := Option.bind_eq_some_iff.mp hfound
        have htype : s.backendType backend = some type := by
          simpa using List.find?_some hfind
        refine (List.filter_filter ..).trans (List.filter_congr fun other _ => ?_)
        by_cases hid : other.id = backend.id
        · have hother : s.backendType other = some type := by
            rw [← htype, backendType, backendType, hid]
          simp [writesFile, hother, hfile rfl]
        · simp [hid]
    | links => exact ⟨rfl, rfl⟩
    | levels => rfl
    | flags => rfl
    | _ => trivial

theorem commandBackend_keeps (env : ControlEnvironment) {arr : List Name}
    (hcheck : checkBackendControlPolicy arr policy = .ok ())
    (hnot : policy.allows change = false)
    (hinternal : named Logger.internalChannel) (hlinks : s.logger.LinksNamed named) :
    Keeps named exempt change s (commandBackend env s arr).1 := by
  have hself := Keeps.refl named exempt change s
  have hallowed : policy.allowBackendChanges = true := by
    by_contra h
    unfold checkBackendControlPolicy at hcheck
    rw [if_pos (by simpa using h)] at hcheck
    contradiction
  have hbackends : change ≠ .backends := by
    rintro rfl
    rw [ControlPolicy.allows, hallowed] at hnot
    contradiction
  unfold commandBackend
  split
  next => exact hself
  next c index hchannel =>
    split
    next op typeInput options hargs =>
      split
      next => exact hself
      next hop =>
        split
        next => exact hself
        next =>
          split
          next => exact hself
          next type htype =>
            have hfile : change = .fileBackends → type.isFile = false := by
              rintro rfl
              have hforbidden : policy.allowFileBackends = false := hnot
              rw [index_of_getChannelFromArgs hchannel] at hargs
              unfold checkBackendControlPolicy at hcheck
              rw [hallowed, hforbidden, hargs] at hcheck
              simp only [hop, if_false, Bool.false_eq_true, Bool.true_eq_false] at hcheck
              split at hcheck
              next hdiagnostic => exact isFile_of_diagnostic hdiagnostic htype
              next => contradiction
            split
            next =>
              exact addBackendCommand_keeps env hbackends hfile hinternal hlinks
            next => exact deleteBackendCommand_keeps hbackends hfile
    next => exact hself

theorem commandLevel_keeps {arr : List Name} (hchange : change ≠ .levels) :
    Keeps named exempt change s (commandLevel s arr).1 := by
  have hself := Keeps.refl named exempt change s
  unfold commandLevel
  split
  next => exact hself
  next c index _ =>
    split
    next => exact hself
    next =>
      split
      next => exact hself
      next level _ =>
        refine keeps_modifyChannel (Channel.setFilterLevel_subset · _)
          fun _ channel => ?_
        cases change <;> first | contradiction | simp [ChannelKeeps, Channel.setFilterLevel]

theorem commandFlags_keeps {arr : List Name} (hchange : change ≠ .flags) :
    Keeps named exempt change s (commandFlags s arr).1 := by
  have hself := Keeps.refl named exempt change s
  unfold commandFlags
  split
  next => exact hself
  next c index _ =>
    dsimp only
    split
    next => exact hself
    next =>
      split
      next => exact hself
      next f _ =>
        refine keeps_modifyChannel (Channel.setFlags_subset · _)
          fun _ channel => ?_
        cases change <;> first | contradiction | simp [ChannelKeeps, Channel.setFlags]

theorem keeps_setErrorChannel {name : Option Name} (hchange : change ≠ .errorChannel) :
    Keeps named exempt change s (s.setErrorChannel name) := by
  refine keeps_settings rfl rfl rfl ?_
  cases change <;>
    first | contradiction | simp [SettingsKeep, setErrorChannel, withLogger]

theorem addLink_keeps {source target : Nat} (hchange : change ≠ .links) :
    Keeps named exempt change s (s.addLink source target) := by
  unfold addLink
  split
  next => exact .refl named exempt change s
  next =>
    refine keeps_modifyChannel (Channel.addLinkPtr_subset · _)
      fun _ channel => ?_
    cases change <;> first | contradiction | simp [ChannelKeeps, Channel.addLinkPtr]

theorem keeps_removeLink {c : Nat} (hchange : change ≠ .links) :
    Keeps named exempt change s
      (s.modifyChannel c Channel.removeLink
        Channel.removeLink_subset) := by
  refine keeps_modifyChannel Channel.removeLink_subset
    fun _ channel => ?_
  cases change <;> first | contradiction | simp [ChannelKeeps, Channel.removeLink]

theorem bindChannelCommand_keeps {name : Name} {arguments : List Name}
    (hchange : change ≠ .links) :
    Keeps named exempt change s (bindChannelCommand s name arguments).1 := by
  have hself := Keeps.refl named exempt change s
  unfold bindChannelCommand
  split
  next => exact hself
  next =>
    split
    next => exact hself
    next =>
      split
      next => exact hself
      next => exact addLink_keeps hchange

theorem deleteChannelCommand_keeps {name : Name} (hchange : change ≠ .channels) :
    Keeps named (Deleted s (deleteChannelCommand s name).1) change s
      (deleteChannelCommand s name).1 := by
  unfold deleteChannelCommand
  split
  next => exact .refl named _ change s
  next =>
    split
    next => exact .refl named _ change s
    next =>
      split
      next => exact .refl named _ change s
      next =>
        split
        next => exact .refl named _ change s
        next => exact keeps_deleteChannel hchange

theorem allowed_of_require {allowed : Bool} {reason : String}
    (h : require allowed reason = .ok ()) : allowed = true := by
  cases allowed with
  | false => cases h
  | true => rfl

theorem ne_of_allowed {other : Change} (hallowed : policy.allows other = true)
    (hnot : policy.allows change = false) : change ≠ other := by
  rintro rfl
  rw [hallowed] at hnot
  contradiction

/-- The permissions that the operations on a channel have passed. -/
structure ChannelPermissions (policy : ControlPolicy) (opt : Name) : Prop where
  create : opt = ascii "--create" → policy.allows .channels = true
  delete : opt = ascii "--delete" → policy.allows .channels = true
  bind : opt = ascii "--bind" → policy.allows .links = true
  unbind : opt = ascii "--unbind" → policy.allows .links = true
  error : opt = ascii "--error" → policy.allows .errorChannel = true
  clearError : opt = ascii "--clear-error" → policy.allows .errorChannel = true

theorem channelPermissions_of_check {c opt : Name} {rest : List Name}
    (hcheck : checkChannelControlPolicy (c :: opt :: rest) policy = .ok ()) :
    ChannelPermissions policy opt := by
  constructor
  all_goals
    rintro rfl
    exact allowed_of_require hcheck

theorem channelOperation_keeps {opt name : Name} {arguments : List Name}
    (hpermissions : ChannelPermissions policy opt)
    (hnot : policy.allows change = false) :
    Keeps named (Deleted s (channelOperation s opt name arguments).1) change s
      (channelOperation s opt name arguments).1 := by
  have hself : ∀ exempt, Keeps named exempt change s s :=
    fun exempt => .refl named exempt change s
  unfold channelOperation
  dsimp only
  split
  next =>
    split
    next => exact hself _
    next =>
      refine keeps_modifyChannel (Channel.setEnabled_subset · _)
        fun _ channel => ?_
      cases change <;> simp [ChannelKeeps, Channel.setEnabled]
  next =>
    split
    next hcreate =>
      split
      next => exact hself _
      next =>
        exact keeps_createChannel (ne_of_allowed (hpermissions.create hcreate) hnot)
    next =>
      split
      next hdelete =>
        exact deleteChannelCommand_keeps
          (ne_of_allowed (hpermissions.delete hdelete) hnot)
      next =>
        split
        next hbind =>
          exact bindChannelCommand_keeps (ne_of_allowed (hpermissions.bind hbind) hnot)
        next =>
          split
          next hunbind =>
            split
            next => exact hself _
            next =>
              exact keeps_removeLink (ne_of_allowed (hpermissions.unbind hunbind) hnot)
          next =>
            split
            next herror =>
              split
              next => exact hself _
              next =>
                exact keeps_setErrorChannel (ne_of_allowed (hpermissions.error herror) hnot)
            next => exact hself _

theorem commandChannel_keeps (env : ControlEnvironment) {arr : List Name}
    {response : Name} (hcheck : checkChannelControlPolicy arr policy = .ok ())
    (hnot : policy.allows change = false) :
    Keeps named (Deleted s (commandChannel env s arr response).1) change s
      (commandChannel env s arr response).1 := by
  have hinformation : ∀ name found, Keeps named
      (Deleted s (commandChannel.information env s arr response name found).1) change s
      (commandChannel.information env s arr response name found).1 := by
    intro name found
    unfold commandChannel.information
    split <;> exact .refl named _ change s
  unfold commandChannel
  split
  next => exact hinformation _ _
  next opt rest hargs =>
    obtain ⟨c, rfl⟩ : ∃ c, arr = c :: opt :: rest := by
      rcases arr with _ | ⟨c, more⟩
      · simp at hargs
      · exact ⟨c, by simpa using hargs⟩
    have hpermissions := channelPermissions_of_check hcheck
    split
    next =>
      split
      next hclear =>
        exact keeps_setErrorChannel (ne_of_allowed (hpermissions.clearError hclear) hnot)
      next =>
        split
        next => exact .refl named _ change s
        next => exact channelOperation_keeps hpermissions hnot
    next => exact hinformation _ _

theorem onTracePoints_keeps {pattern : Name} {f : TracePoint → TracePoint}
    (hchange : change ≠ .tracePoints) :
    Keeps named exempt change s (s.onTracePoints pattern f).2 := by
  refine keeps_settings rfl rfl rfl ?_
  cases change <;> first | contradiction | simp [SettingsKeep, onTracePoints]

theorem commandTrace_keeps {arr : List Name} (hchange : change ≠ .tracePoints) :
    Keeps named exempt change s (commandTrace s arr).1 := by
  have hself := Keeps.refl named exempt change s
  unfold commandTrace
  dsimp only
  split
  next => exact hself
  next =>
    split
    next => exact hself
    next =>
      split
      next =>
        split
        next => exact hself
        next => exact onTracePoints_keeps hchange
      next =>
        split
        next => exact onTracePoints_keeps hchange
        next => exact hself

theorem commandLogStatistics_keeps (env : ControlEnvironment) {arr : List Name}
    (hchange : change ≠ .statistics) :
    Keeps named exempt change s (commandLogStatistics env s arr).1 := by
  have hset : ∀ session, Keeps named exempt change s { s with statistics := session } := by
    intro session
    refine keeps_settings rfl rfl rfl ?_
    cases change <;> first | contradiction | simp [SettingsKeep]
  unfold commandLogStatistics
  dsimp only
  split
  next => exact hset _
  next =>
    split
    next => exact hset _
    next =>
      split
      next => exact hset _
      next => exact .refl named exempt change s

theorem withFilters_keeps (l : Logger) (hchange : change ≠ .subsystems)
    (hheap : l.heap = s.logger.heap) (hchannels : l.channels = s.logger.channels)
    (herror : l.errorChannel = s.logger.errorChannel) :
    Keeps named exempt change s (s.withFilters l hheap) := by
  refine keeps_settings hheap hchannels rfl ?_
  cases change with
  | subsystems => contradiction
  | errorChannel => exact herror
  | tracePoints => rfl
  | statistics => rfl
  | _ => trivial

theorem setBlocked_keeps {list : List Nat} {h : LowerBound.Sorted id list}
    (hchange : change ≠ .subsystems) :
    Keeps named exempt change s (s.setBlocked list h) :=
  withFilters_keeps (s.logger.setBlocked list h) hchange rfl rfl rfl

theorem setAllowed_keeps {list : List Nat} {h : LowerBound.Sorted id list}
    (hchange : change ≠ .subsystems) :
    Keeps named exempt change s (s.setAllowed list h) :=
  withFilters_keeps (s.logger.setAllowed list h) hchange rfl rfl rfl

theorem setLevels_keeps {levels : SubsystemLevels} {h : levels.Sorted}
    (hchange : change ≠ .subsystems) :
    Keeps named exempt change s (s.setLevels levels h) :=
  withFilters_keeps (s.logger.publishLevels levels h) hchange rfl rfl rfl

theorem clearSubsystems_keeps (hchange : change ≠ .subsystems) :
    Keeps named exempt change s (s.clearSubsystems) :=
  withFilters_keeps s.logger.clearSubsystemFilters.clearSubsystemLevels hchange rfl rfl
    rfl

theorem subsystemOperation_keeps {opt name : Name} {sid : Nat} {response : Name}
    (hchange : change ≠ .subsystems) :
    Keeps named exempt change s (subsystemOperation s opt name sid response).1 := by
  have hself := Keeps.refl named exempt change s
  unfold subsystemOperation
  dsimp only
  split
  next =>
    split
    next => exact hself
    next => exact setBlocked_keeps hchange
  next =>
    split
    next =>
      split
      next => exact setBlocked_keeps hchange
      next => exact hself
    next =>
      split
      next =>
        split
        next => exact hself
        next => exact setAllowed_keeps hchange
      next =>
        split
        next =>
          split
          next => exact setAllowed_keeps hchange
          next => exact hself
        next => split <;> exact hself

theorem setLevelCommand_keeps {sid : Nat} {levelText : Name}
    (hchange : change ≠ .subsystems) :
    Keeps named exempt change s (setLevelCommand s sid levelText).1 := by
  unfold setLevelCommand
  split
  next => exact .refl named exempt change s
  next => exact setLevels_keeps hchange

theorem removeLevelCommand_keeps {sid : Nat} {name : Name}
    (hchange : change ≠ .subsystems) :
    Keeps named exempt change s (removeLevelCommand s sid name).1 := by
  unfold removeLevelCommand
  split
  next => exact .refl named exempt change s
  next s' hs' =>
    unfold ControlState.removeLevel at hs'
    split at hs'
    next =>
      cases hs'
      exact setLevels_keeps hchange
    next => contradiction

theorem namedSubsystem_keeps (env : ControlEnvironment) {opt name : Name}
    {arguments : List Name} {response : Name} (hchange : change ≠ .subsystems)
    (hinternal : named Logger.internalChannel) (hlinks : s.logger.LinksNamed named) :
    Keeps named exempt change s (namedSubsystem env s opt name arguments response).1 := by
  unfold namedSubsystem
  dsimp only
  set reported := if 8 < (cString name).length then
    s.report env.setting (truncatedName name) else s with hreported
  have hself : Keeps named exempt change s reported := by
    rw [hreported]
    split
    next => exact keeps_report env.setting _ hinternal hlinks
    next => exact .refl named exempt change s
  split
  next => split <;> exact hself
  next =>
    split
    next =>
      split
      next => exact hself.trans (setLevelCommand_keeps hchange)
      next => exact hself.trans (subsystemOperation_keeps hchange)
    next =>
      split
      next => exact hself.trans (removeLevelCommand_keeps hchange)
      next => exact hself.trans (subsystemOperation_keeps hchange)
    next => exact hself.trans (subsystemOperation_keeps hchange)

theorem commandSubsystem_keeps (env : ControlEnvironment) {arr : List Name}
    {response : Name} (hchange : change ≠ .subsystems)
    (hinternal : named Logger.internalChannel) (hlinks : s.logger.LinksNamed named) :
    Keeps named exempt change s (commandSubsystem env s arr response).1 := by
  have hself := Keeps.refl named exempt change s
  unfold commandSubsystem
  dsimp only
  split
  next => exact hself
  next =>
    split
    next => exact clearSubsystems_keeps hchange
    next =>
      split
      next => exact setBlocked_keeps hchange
      next =>
        split
        next => exact setAllowed_keeps hchange
        next =>
          split
          next => exact setLevels_keeps hchange
          next => exact hself
  next => exact namedSubsystem_keeps env hchange hinternal hlinks

/-! ## Whole commands -/

/-- A built-in command keeps what the policy that let it through protects. -/
theorem builtin_keeps (env : ControlEnvironment) {c : Name} {rest : List Name}
    {response : Name} {result : ControlState × Name}
    (hcheck : checkControlPolicy (c :: rest) policy = .ok ())
    (hnot : policy.allows change = false)
    (hinternal : named Logger.internalChannel) (hlinks : s.logger.LinksNamed named)
    (h : builtin env s c (c :: rest) response = some result) :
    Keeps named (Deleted s result.1) change s result.1 := by
  have hself := fun exempt => Keeps.refl named exempt change s
  have hkeeps : ∀ {other : ControlState × Name} {exempt : Nat → Prop},
      Keeps named exempt change s other.1 → (∀ d, exempt d → Deleted s other.1 d) →
        some other = some result → Keeps named (Deleted s result.1) change s result.1 := by
    rintro other exempt hother hmore ⟨⟩
    exact hother.exempting hmore
  have hnone : ∀ {other : ControlState} (d : Nat), nowhere d → Deleted s other d :=
    fun _ hd => hd.elim
  unfold builtin at h
  rcases ite_eq_iff.mp h with ⟨-, h⟩ | ⟨-, h⟩
  · exact hkeeps (hself nowhere) hnone h
  rcases ite_eq_iff.mp h with ⟨-, h⟩ | ⟨-, h⟩
  · exact hkeeps (hself nowhere) hnone h
  rcases ite_eq_iff.mp h with ⟨-, h⟩ | ⟨-, h⟩
  · exact hkeeps (hself nowhere) hnone h
  rcases ite_eq_iff.mp h with ⟨rfl, h⟩ | ⟨-, h⟩
  · exact hkeeps (commandChannel_keeps env hcheck hnot) (fun _ hd => hd) h
  rcases ite_eq_iff.mp h with ⟨rfl, h⟩ | ⟨-, h⟩
  · have hallowed : policy.allows .subsystems = true := allowed_of_require hcheck
    exact hkeeps (commandSubsystem_keeps env (ne_of_allowed hallowed hnot) hinternal
      hlinks) hnone h
  rcases ite_eq_iff.mp h with ⟨rfl, h⟩ | ⟨-, h⟩
  · exact hkeeps (commandBackend_keeps env hcheck hnot hinternal hlinks) hnone h
  rcases ite_eq_iff.mp h with ⟨rfl, h⟩ | ⟨-, h⟩
  · have hallowed : policy.allows .flags = true := allowed_of_require hcheck
    exact hkeeps (commandFlags_keeps (ne_of_allowed hallowed hnot)) hnone h
  rcases ite_eq_iff.mp h with ⟨rfl, h⟩ | ⟨-, h⟩
  · have hallowed : policy.allows .levels = true := allowed_of_require hcheck
    exact hkeeps (commandLevel_keeps (ne_of_allowed hallowed hnot)) hnone h
  rcases ite_eq_iff.mp h with ⟨rfl, h⟩ | ⟨-, h⟩
  · have hallowed : policy.allows .tracePoints = true := allowed_of_require hcheck
    exact hkeeps (commandTrace_keeps (ne_of_allowed hallowed hnot)) hnone h
  rcases ite_eq_iff.mp h with ⟨rfl, h⟩ | ⟨-, h⟩
  · have hallowed : policy.allows .statistics = true := allowed_of_require hcheck
    exact hkeeps (commandLogStatistics_keeps env (ne_of_allowed hallowed hnot)) hnone h
  rcases ite_eq_iff.mp h with ⟨-, h⟩ | ⟨-, h⟩
  · exact hkeeps (hself nowhere) hnone h
  rcases ite_eq_iff.mp h with ⟨-, h⟩ | ⟨-, h⟩
  · exact hkeeps (hself nowhere) hnone h
  contradiction

theorem runBuiltin_keeps (env : ControlEnvironment) {items : List Name}
    {calls : List ControlCall} {response : Name}
    (hcheck : checkControlPolicy items policy = .ok ())
    (hnot : policy.allows change = false)
    (hinternal : named Logger.internalChannel) (hlinks : s.logger.LinksNamed named) :
    Keeps named (Deleted s (runBuiltin env s items calls response).state) change s
      (runBuiltin env s items calls response).state := by
  unfold runBuiltin
  split
  next => exact .refl named _ change s
  next c rest =>
    split
    next s' response' h => exact builtin_keeps env hcheck hnot hinternal hlinks h
    next => exact .refl named _ change s

theorem controlInternal_keeps (env : ControlEnvironment) {command : Name}
    (hnot : policy.allows change = false)
    (hinternal : named Logger.internalChannel) (hlinks : s.logger.LinksNamed named) :
    Keeps named (Deleted s (controlInternal env none policy s command).state) change s
      (controlInternal env none policy s command).state := by
  unfold controlInternal
  dsimp only
  split
  next => exact .refl named _ change s
  next hcheck => exact runBuiltin_keeps env hcheck hnot hinternal hlinks

/-- A command in a format has the effect of the command that it wraps; an
unknown format has none. -/
theorem control_state_cases (env : ControlEnvironment)
    (extension : Option ControlExtension) (policy : ControlPolicy) (s : ControlState)
    (command : Name) :
    (control env extension policy s command).state = s ∨
      ∃ inner, (control env extension policy s command).state =
        (controlInternal env extension policy s inner).state := by
  unfold control
  split
  next first format _ _ =>
    split
    next =>
      split
      next => exact .inl rfl
      next =>
        dsimp only
        split
        next => exact .inr ⟨_, rfl⟩
        next =>
          split
          next => exact .inr ⟨_, rfl⟩
          next => exact .inl rfl
    next => exact .inr ⟨_, rfl⟩
  next => exact .inr ⟨_, rfl⟩

end Handlers

/-- Nothing changes that the policy does not allow to change, except in the
channels that are exempt. -/
def Confined (named : Name → Prop) (exempt : Nat → Prop) (policy : ControlPolicy)
    (s s' : ControlState) : Prop :=
  ∀ change, policy.allows change = false → Keeps named exempt change s s'

/-- A deleted channel takes its backends and its link with it, and a message of
the library may create the channel that it goes to. -/
theorem control_confined (env : ControlEnvironment) (policy : ControlPolicy)
    (s : ControlState) (command : Name) :
    Confined s.logger.messageNames
      (Deleted s (control env none policy s command).state) policy s
      (control env none policy s command).state := by
  intro change hnot
  rcases control_state_cases env none policy s command with heq | ⟨inner, heq⟩
  · rw [heq]
    exact .refl _ _ change s
  · rw [heq]
    exact controlInternal_keeps env hnot (.inl rfl) s.logger.linksNamed_messageNames

/-! ## A channel with a file, and a long subsystem name -/

def consoleState : ControlState where
  logger := Logger.new 0
  backends := [{ type := .console, async := false, maxSize := 0 }]
  tracePoints := []
  statistics := ⟨none, false, 1⟩
  configured := by decide

def fileState : ControlState :=
  (consoleState.createChannel (ascii "f")).addBackend 1
    { type := .file, async := true, maxSize := 0 }

def plainEnvironment : ControlEnvironment where
  disk := CmdLogs.disk
  home := CmdLogs.diskHome
  extensions := []
  setting := ⟨true, 0, .initial, 1⟩
  openFile := fun _ => (true, [])
  maxSizeDefault := 0
  help := id
  shows := fun _ _ => []

/-- Only channels may be created and deleted. -/
def channelsOnly : ControlPolicy :=
  { ControlPolicy.safe with allowChannelCreateDelete := true }

/-- The file backend of a deleted channel is removed, and the report of a long
name creates the channel that it goes to. -/
theorem deleted_channel_loses_file :
    ¬ Confined (fun _ => False) nowhere channelsOnly fileState
        (control plainEnvironment none channelsOnly fileState
          (ascii "channel --delete f")).state ∧
      ¬ Confined (fun _ => False) nowhere .safe consoleState
        (control plainEnvironment none .safe consoleState
          (ascii "subsystem --block averylongname")).state := by
  refine ⟨fun h => ?_, fun h => ?_⟩
  · have hbefore : ∀ channel, fileState.logger.heap[1]? = some channel →
        channel.backends = [⟨1, false⟩] := by
      rintro channel ⟨⟩
      rfl
    have hafter : ((control plainEnvironment none channelsOnly fileState
        (ascii "channel --delete f")).state.logger.heap[1]?).map Channel.backends =
          some [] := by decide +kernel
    obtain ⟨channel', hc, hnone⟩ := Option.map_eq_some_iff.mp hafter
    obtain ⟨channel, hold, hsame, -⟩ := (h .backends rfl).each 1 channel' hc id
    rcases hold with hold | ⟨hold, -⟩
    · rw [hnone, hbefore channel hold] at hsame
      contradiction
    · contradiction
  · have hcreated : (control plainEnvironment none .safe consoleState
        (ascii "subsystem --block averylongname")).state.logger.channels.lookup
          (ascii "logme") = some 1 := by decide +kernel
    rcases ((h .channels rfl).channels rfl).new _ 1 hcreated with hold | hnamed
    · contradiction
    · exact hnamed

end Logme
