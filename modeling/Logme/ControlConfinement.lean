import Logme.Control

/-!
# Commands under a policy

Every kind of change has its permission.  A command keeps what its policy does
not allow to change: this is shown for the operations on the state, then for
every handler, and with the check of the policy for the whole command.
-/

namespace Logme

inductive Change where
  | channels
  | backends
  | fileBackends
  | links
  | errorChannel
  | levels
  | flags
  | tracePoints
  | statistics
  | subsystems
  deriving DecidableEq

/-- The permission for a kind of change. -/
def ControlPolicy.allows (policy : ControlPolicy) : Change → Bool
  | .channels => policy.allowChannelCreateDelete
  | .backends => policy.allowBackendChanges
  | .fileBackends => policy.allowFileBackends
  | .links => policy.allowChannelRouting
  | .errorChannel => policy.allowChannelError
  | .levels => policy.allowLevelChanges
  | .flags => policy.allowFlagChanges
  | .tracePoints => policy.allowTraceChanges
  | .statistics => policy.allowLogStatistics
  | .subsystems => policy.allowSubsystemChanges

namespace ControlState

/-- The backend writes a file. -/
def writesFile (s : ControlState) (backend : ChannelBackend) : Bool :=
  (s.backendType backend).any BackendType.isFile

/-- What a change of a channel leaves as it was. -/
def ChannelKeeps (change : Change) (s s' : ControlState)
    (channel channel' : Channel) : Prop :=
  match change with
  | .backends =>
      channel'.backends = channel.backends ∧
        ∀ backend ∈ channel.backends, s'.backendType backend = s.backendType backend
  | .fileBackends =>
      channel'.backends.filter s'.writesFile = channel.backends.filter s.writesFile
  | .links => channel'.link = channel.link ∧ channel'.linkTo = channel.linkTo
  | .levels => channel'.levelFilter = channel.levelFilter
  | .flags => channel'.flags = channel.flags
  | _ => True

/-- What a change of the settings outside the channels leaves as it was. -/
def SettingsKeep (change : Change) (s s' : ControlState) : Prop :=
  match change with
  | .errorChannel => s'.logger.errorChannel = s.logger.errorChannel
  | .tracePoints => s'.tracePoints = s.tracePoints
  | .statistics => s'.statistics = s.statistics
  | .subsystems =>
      s'.logger.blockedSubsystems = s.logger.blockedSubsystems ∧
        s'.logger.allowedSubsystems = s.logger.allowedSubsystems ∧
        s'.logger.subsystems = s.logger.subsystems ∧
        s'.logger.subsystemLevels = s.logger.subsystemLevels
  | _ => True

/-- The registered channels stay, and new ones have names that `named` allows. -/
structure ChannelsKept (named : Name → Prop) (s s' : ControlState) : Prop where
  stay : ∀ name c, s.logger.channels.lookup name = some c →
    s'.logger.channels.lookup name = some c
  new : ∀ name c, s'.logger.channels.lookup name = some c →
    s.logger.channels.lookup name = some c ∨ named name

/-- A channel before a command; one that the command creates was a new one. -/
def Before (s : ControlState) (c : Nat) (channel : Channel) : Prop :=
  s.logger.heap[c]? = some channel ∨
    s.logger.heap[c]? = none ∧ ∃ name flags level, channel = .new name flags level

/-- A kind of change has not happened from one state to another, except in
channels that are exempt. -/
structure Keeps (named : Name → Prop) (exempt : Nat → Prop) (change : Change)
    (s s' : ControlState) : Prop where
  channels : change = .channels → ChannelsKept named s s'
  stay : s.logger.heap.length ≤ s'.logger.heap.length
  each : ∀ (c : Nat) (channel' : Channel), s'.logger.heap[c]? = some channel' →
    ¬ exempt c → ∃ channel, s.Before c channel ∧
      ChannelKeeps change s s' channel channel'
  settings : SettingsKeep change s s'

/-- Nothing is exempt. -/
def nowhere (_ : Nat) : Prop := False

/-- The channel is no longer registered. -/
def Deleted (s s' : ControlState) (c : Nat) : Prop :=
  ∃ name, s.logger.channels.lookup name = some c ∧
    s'.logger.channels.lookup name = none

variable {named : Name → Prop} {exempt : Nat → Prop} {change : Change}

theorem ChannelKeeps.refl (s : ControlState) (channel : Channel) :
    ChannelKeeps change s s channel channel := by
  cases change <;> simp [ChannelKeeps]

theorem ChannelKeeps.trans {s₁ s₂ s₃ : ControlState}
    {channel₁ channel₂ channel₃ : Channel}
    (h₁ : ChannelKeeps change s₁ s₂ channel₁ channel₂)
    (h₂ : ChannelKeeps change s₂ s₃ channel₂ channel₃) :
    ChannelKeeps change s₁ s₃ channel₁ channel₃ := by
  cases change with
  | backends =>
      obtain ⟨hsame₁, htypes₁⟩ := h₁
      obtain ⟨hsame₂, htypes₂⟩ := h₂
      refine ⟨hsame₂.trans hsame₁, fun backend hmem => ?_⟩
      rw [htypes₂ backend (hsame₁ ▸ hmem), htypes₁ backend hmem]
  | fileBackends => exact Eq.trans h₂ h₁
  | links => exact ⟨h₂.1.trans h₁.1, h₂.2.trans h₁.2⟩
  | levels => exact Eq.trans h₂ h₁
  | flags => exact Eq.trans h₂ h₁
  | _ => trivial

theorem SettingsKeep.refl (s : ControlState) : SettingsKeep change s s := by
  cases change <;> simp [SettingsKeep]

theorem SettingsKeep.trans {s₁ s₂ s₃ : ControlState}
    (h₁ : SettingsKeep change s₁ s₂) (h₂ : SettingsKeep change s₂ s₃) :
    SettingsKeep change s₁ s₃ := by
  cases change with
  | subsystems =>
      obtain ⟨hb₁, ha₁, hs₁, hl₁⟩ := h₁
      obtain ⟨hb₂, ha₂, hs₂, hl₂⟩ := h₂
      exact ⟨hb₂.trans hb₁, ha₂.trans ha₁, hs₂.trans hs₁, hl₂.trans hl₁⟩
  | errorChannel => exact Eq.trans h₂ h₁
  | tracePoints => exact Eq.trans h₂ h₁
  | statistics => exact Eq.trans h₂ h₁
  | _ => trivial

theorem ChannelsKept.refl (named : Name → Prop) (s : ControlState) :
    ChannelsKept named s s := ⟨fun _ _ h => h, fun _ _ h => .inl h⟩

theorem ChannelKeeps.new (s s' : ControlState) (name : Name)
    (flags : OutputFlags) (level : Level) :
    ChannelKeeps change s s' (.new name flags level) (.new name flags level) := by
  cases change <;> simp [ChannelKeeps, Channel.new]

/-- A channel stays as it is while the configurations do. -/
theorem ChannelKeeps.same {s s' : ControlState} (h : s'.backends = s.backends)
    (channel : Channel) : ChannelKeeps change s s' channel channel := by
  have htypes : s'.backendType = s.backendType := by
    funext backend
    rw [backendType, backendType, h]
  have hfiles : s'.writesFile = s.writesFile := by
    funext backend
    rw [writesFile, writesFile, htypes]
  cases change <;> simp [ChannelKeeps, htypes, hfiles]

theorem Keeps.refl (named : Name → Prop) (exempt : Nat → Prop)
    (change : Change) (s : ControlState) : Keeps named exempt change s s where
  channels _ := .refl named s
  stay := le_rfl
  each _ channel h _ := ⟨channel, .inl h, .refl s channel⟩
  settings := .refl s

theorem Keeps.trans {s₁ s₂ s₃ : ControlState}
    (h₁ : Keeps named exempt change s₁ s₂) (h₂ : Keeps named exempt change s₂ s₃) :
    Keeps named exempt change s₁ s₃ where
  channels hchange := by
    obtain ⟨hstay₁, hnew₁⟩ := h₁.channels hchange
    obtain ⟨hstay₂, hnew₂⟩ := h₂.channels hchange
    refine ⟨fun name c h => hstay₂ name c (hstay₁ name c h), fun name c h => ?_⟩
    rcases hnew₂ name c h with hold | hnamed
    · exact hnew₁ name c hold
    · exact .inr hnamed
  stay := h₁.stay.trans h₂.stay
  each c channel₃ h hexempt := by
    obtain ⟨channel₂, hbefore, hkeeps₂⟩ := h₂.each c channel₃ h hexempt
    rcases hbefore with hc₂ | ⟨hnone, name, flags, level, rfl⟩
    · obtain ⟨channel₁, hbefore₁, hkeeps₁⟩ := h₁.each c channel₂ hc₂ hexempt
      exact ⟨channel₁, hbefore₁, hkeeps₁.trans hkeeps₂⟩
    · have hnone₁ : s₁.logger.heap[c]? = none := by
        rw [List.getElem?_eq_none_iff] at hnone ⊢
        exact h₁.stay.trans hnone
      exact ⟨_, .inr ⟨hnone₁, name, flags, level, rfl⟩,
        (ChannelKeeps.new s₁ s₂ name flags level).trans hkeeps₂⟩
  settings := h₁.settings.trans h₂.settings

theorem Keeps.exempting {s s' : ControlState} {exempt' : Nat → Prop}
    (h : Keeps named exempt change s s') (hmore : ∀ c, exempt c → exempt' c) :
    Keeps named exempt' change s s' where
  channels := h.channels
  stay := h.stay
  each c channel hc hexempt := h.each c channel hc fun hold => hexempt (hmore c hold)
  settings := h.settings

/-! ## The operations on the state -/

/-- Only the heap of channels changes, position by position. -/
theorem keeps_of_heap {s s' : ControlState}
    (hchannels : change = .channels → ChannelsKept named s s')
    (hstay : s.logger.heap.length ≤ s'.logger.heap.length)
    (hbackends : s'.backends = s.backends) (hsettings : SettingsKeep change s s')
    (heach : ∀ (c : Nat) (channel' : Channel), s'.logger.heap[c]? = some channel' →
      ¬ exempt c → ∃ channel, s.Before c channel ∧
        ChannelKeeps change s s channel channel') :
    Keeps named exempt change s s' where
  channels := hchannels
  stay := hstay
  each c channel' hc hexempt := by
    obtain ⟨channel, hbefore, hkeeps⟩ := heach c channel' hc hexempt
    exact ⟨channel, hbefore, hkeeps.trans (.same hbackends channel')⟩
  settings := hsettings

theorem keeps_extends {s s' : ControlState}
    (hchannels : change = .channels → ChannelsKept named s s')
    (hbackends : s'.backends = s.backends) (hsettings : SettingsKeep change s s')
    (hextends : s.logger.Extends s'.logger) : Keeps named exempt change s s' := by
  have hstay : s.logger.heap.length ≤ s'.logger.heap.length := by
    by_contra hlt
    have hlast : s'.logger.heap.length < s.logger.heap.length := by omega
    have hkept := hextends.kept _ _ (List.getElem?_eq_getElem hlast)
    rw [List.getElem?_eq_none_iff.mpr le_rfl] at hkept
    contradiction
  refine keeps_of_heap hchannels hstay hbackends hsettings fun c channel' hc _ => ?_
  cases hbefore : s.logger.heap[c]? with
  | some channel =>
      have hsame := hextends.kept c channel hbefore
      rw [hc] at hsame
      cases hsame
      exact ⟨channel', .inl hbefore, .refl s channel'⟩
  | none =>
      rcases hextends.created c channel' hc with hold | ⟨hnone, hlink, hlinkTo⟩
      · rw [hbefore] at hold
        contradiction
      · refine ⟨.new channel'.name channel'.flags channel'.levelFilter,
          .inr ⟨hbefore, _, _, _, rfl⟩, ?_⟩
        cases change <;>
          simp [ChannelKeeps, Channel.new, hnone, hlink, hlinkTo]

theorem keeps_report (setting : Logger.MessageSetting) {s : ControlState}
    (message : Logger.InternalMessage) (hinternal : named Logger.internalChannel)
    (hlinks : s.logger.LinksNamed named) :
    Keeps named exempt change s (s.report setting message) := by
  have hgrows := Logger.report_grows setting message hinternal hlinks
  refine keeps_extends (fun _ => ⟨hgrows.extends'.looked, hgrows.names⟩) rfl ?_
    hgrows.extends'
  cases change with
  | subsystems => exact ⟨hgrows.blocked, hgrows.allowed, hgrows.reported, hgrows.levels⟩
  | errorChannel => exact hgrows.extends'.errorChannel
  | tracePoints => rfl
  | statistics => rfl
  | _ => trivial

theorem keeps_reports (setting : Logger.MessageSetting) {s : ControlState}
    (messages : List Logger.InternalMessage)
    (hinternal : named Logger.internalChannel) (hlinks : s.logger.LinksNamed named) :
    Keeps named exempt change s (messages.foldl (report setting) s) := by
  induction messages generalizing s with
  | nil => exact .refl named exempt change s
  | cons message rest ih =>
      have hgrows := Logger.report_grows setting message hinternal hlinks
      exact (keeps_report setting message hinternal hlinks).trans
        (ih (hlinks.grows hgrows))

theorem keeps_applyConfig (env : ControlEnvironment) {s : ControlState}
    (config : BackendConfig) (hinternal : named Logger.internalChannel)
    (hlinks : s.logger.LinksNamed named) :
    Keeps named exempt change s (s.applyConfig env config).2 := by
  unfold applyConfig
  split
  next => exact keeps_reports env.setting _ hinternal hlinks
  next => exact .refl named exempt change s

theorem keeps_modifyChannel {s : ControlState} {c : Nat} {f : Channel → Channel}
    (hsub : ∀ channel, (f channel).backends ⊆ channel.backends)
    (hf : ¬ exempt c → ∀ channel, ChannelKeeps change s s channel (f channel)) :
    Keeps named exempt change s (s.modifyChannel c f hsub) := by
  have hsettings : SettingsKeep change s (s.modifyChannel c f hsub) := by
    cases change <;> simp [SettingsKeep, modifyChannel, withLogger, Logger.modifyChannel]
  refine keeps_of_heap (fun _ => ⟨fun _ _ h => h, fun _ _ h => .inl h⟩) ?_ rfl
    hsettings fun d channel' hd hexempt => ?_
  · change _ ≤ (s.logger.heap.modify c f).length
    rw [List.length_modify]
  · change (s.logger.heap.modify c f)[d]? = some channel' at hd
    rw [List.getElem?_modify, Option.map_eq_map, Option.map_eq_some_iff] at hd
    obtain ⟨channel, hold, rfl⟩ := hd
    refine ⟨channel, .inl hold, ?_⟩
    split
    next h =>
      subst h
      exact hf hexempt channel
    next => exact .refl s channel

/-- A backend that is no file may be added where backends may change. -/
theorem keeps_addBackend {s : ControlState} {c : Nat} {config : BackendConfig}
    (hbackends : change ≠ .backends)
    (hfile : change = .fileBackends → config.type.isFile = false) :
    Keeps named exempt change s (s.addBackend c config) := by
  have hheap : (s.addBackend c config).logger.heap = s.logger.heap ∨
      (s.addBackend c config).logger.heap =
        s.logger.heap.modify c (·.addBackend s.backends.length) := by
    unfold addBackend
    dsimp only
    split
    next => exact .inl rfl
    next => exact .inr rfl
  have hchannels : (s.addBackend c config).logger.channels = s.logger.channels := by
    unfold addBackend
    dsimp only
    split <;> rfl
  -- the backends of the channels have configurations already, so these stay
  have htypes : ∀ channel ∈ s.logger.heap, ∀ backend ∈ channel.backends,
      (s.addBackend c config).backendType backend = s.backendType backend := by
    intro channel hmem backend hbackend
    have hlt := s.configured channel hmem backend hbackend
    unfold backendType
    rw [show (s.addBackend c config).backends = s.backends ++ [config] from rfl,
      List.getElem?_append_left hlt]
  have hfiles : ∀ channel ∈ s.logger.heap,
      channel.backends.filter (s.addBackend c config).writesFile =
        channel.backends.filter s.writesFile := by
    intro channel hmem
    refine List.filter_congr fun backend hbackend => ?_
    rw [writesFile, writesFile, htypes channel hmem backend hbackend]
  have hkeeps : ∀ channel ∈ s.logger.heap,
      ChannelKeeps change s (s.addBackend c config) channel channel := by
    intro channel hmem
    cases change with
    | backends => contradiction
    | fileBackends => exact hfiles channel hmem
    | links => exact ⟨rfl, rfl⟩
    | levels => rfl
    | flags => rfl
    | _ => trivial
  have hadded : ∀ channel ∈ s.logger.heap,
      ChannelKeeps change s (s.addBackend c config) channel
        (channel.addBackend s.backends.length) := by
    intro channel hmem
    unfold Channel.addBackend
    split
    next => exact hkeeps channel hmem
    next =>
      cases change with
      | backends => contradiction
      | fileBackends =>
          have hnew : (s.addBackend c config).writesFile ⟨s.backends.length, false⟩ =
              false := by
            unfold writesFile backendType addBackend
            simp [hfile rfl]
          change List.filter _ (channel.backends.concat _) = _
          rw [List.concat_eq_append, List.filter_append, hfiles channel hmem,
            List.filter_singleton, hnew]
          simp
      | links => exact ⟨rfl, rfl⟩
      | levels => rfl
      | flags => rfl
      | _ => trivial
  refine ⟨fun _ => ?_, ?_, fun d channel' hd _ => ?_, ?_⟩
  · refine ⟨fun name d h => ?_, fun name d h => .inl ?_⟩
    · rw [hchannels]
      exact h
    · rw [← hchannels]
      exact h
  · rcases hheap with h | h
    · exact h ▸ le_rfl
    · rw [h, List.length_modify]
  · rcases hheap with h | h
    · rw [h] at hd
      exact ⟨channel', .inl hd, hkeeps channel' (List.mem_of_getElem? hd)⟩
    · rw [h, List.getElem?_modify, Option.map_eq_map, Option.map_eq_some_iff] at hd
      obtain ⟨channel, hold, rfl⟩ := hd
      have hmem := List.mem_of_getElem? hold
      refine ⟨channel, .inl hold, ?_⟩
      split
      next => exact hadded channel hmem
      next => exact hkeeps channel hmem
  · unfold addBackend
    cases change with
    | errorChannel =>
        dsimp only [SettingsKeep]
        split <;> rfl
    | subsystems =>
        dsimp only [SettingsKeep]
        split <;> exact ⟨rfl, rfl, rfl, rfl⟩
    | tracePoints => rfl
    | statistics => rfl
    | _ => trivial

/-- Settings beside the channels change. -/
theorem keeps_settings {s s' : ControlState} (hheap : s'.logger.heap = s.logger.heap)
    (hchannels : s'.logger.channels = s.logger.channels)
    (hbackends : s'.backends = s.backends) (hsettings : SettingsKeep change s s') :
    Keeps named exempt change s s' := by
  refine keeps_of_heap (fun _ => ?_) (hheap ▸ le_rfl) hbackends hsettings
    fun d channel' hd _ => ?_
  · refine ⟨fun name d h => ?_, fun name d h => .inl ?_⟩
    · rw [hchannels]
      exact h
    · rw [← hchannels]
      exact h
  · rw [hheap] at hd
    exact ⟨channel', .inl hd, .refl s channel'⟩

theorem keeps_createChannel {s : ControlState} {name : Name}
    (hchange : change ≠ .channels) :
    Keeps named exempt change s (s.createChannel name) := by
  have hgrows : s.logger.Grows (fun _ => True) (s.createChannel name).logger :=
    s.logger.createChannelInternal_grows .default .default trivial
  refine keeps_extends (fun h => absurd h hchange) rfl ?_ hgrows.extends'
  cases change with
  | subsystems => exact ⟨hgrows.blocked, hgrows.allowed, hgrows.reported, hgrows.levels⟩
  | errorChannel => exact hgrows.extends'.errorChannel
  | tracePoints => rfl
  | statistics => rfl
  | _ => trivial

/-- A deleted channel loses what it had. -/
theorem keeps_deleteChannel {s : ControlState} {name : Name}
    (hchange : change ≠ .channels) :
    Keeps named (Deleted s (s.deleteChannel name)) change s (s.deleteChannel name) := by
  unfold deleteChannel
  split
  next => exact .refl named _ change s
  next c hc =>
    have hgone : ∀ s' : ControlState,
        s'.logger.channels = (s.unregister name).logger.channels → Deleted s s' c := by
      intro s' h
      refine ⟨name, hc, ?_⟩
      rw [h]
      change (s.logger.channels.filter fun entry => entry.1 ≠ name).lookup name = none
      rw [List.lookup_eq_none_iff]
      intro entry hentry
      have hne : entry.1 ≠ name := by simpa using (List.mem_filter.mp hentry).2
      simpa using fun heq => hne heq.symm
    have hunregister : ∀ exempt, Keeps named exempt change s (s.unregister name) := by
      intro exempt
      refine keeps_of_heap (fun h => absurd h hchange) le_rfl rfl ?_
        fun d channel' hd _ => ⟨channel', .inl hd, .refl s channel'⟩
      cases change <;> simp [SettingsKeep, unregister, withLogger]
    refine (hunregister _).trans (.trans (keeps_modifyChannel _ fun h => ?_)
      (keeps_modifyChannel _ fun h => ?_))
    · exact absurd (hgone _ rfl) h
    · exact absurd (hgone _ rfl) h

end ControlState
end Logme
