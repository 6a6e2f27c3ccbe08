import Logme.RejectedConfiguration

/-!
# The home directory of configured files

The loader creates the channels with their backends before it sets the home
directory.  A `FileBackend` resolves its name when its configuration is applied.
-/

namespace Logme

/-- What is created from the configuration of a backend. -/
def createdBackend (env : ConfigEnvironment) (home : Name) (b : TypedBackend) :
    CreatedBackend :=
  match b.config with
  | .file config => ⟨b.config, resolveName home (env.template config.filename), home⟩
  | _ => ⟨b.config, [], []⟩

section Created

variable {env : ConfigEnvironment} {b : TypedBackend} (home : Name)

theorem createdBackend_file {config : FileBackendConfig} (h : b.config = .file config) :
    createdBackend env home b =
      ⟨b.config, resolveName home (env.template config.filename), home⟩ := by
  rw [createdBackend, h]

theorem createdBackend_other (h : ∀ config, b.config ≠ .file config) :
    createdBackend env home b = ⟨b.config, [], []⟩ := by
  unfold createdBackend
  split
  next config hconfig => exact absurd hconfig (h config)
  next => rfl

end Created

namespace ConfigState

variable {env : ConfigEnvironment} {s : ConfigState}

/-- A step of the loader that has succeeded: the home directory is the same, and
the backends of `arr` were added. -/
structure Adds (env : ConfigEnvironment) (s s' : ConfigState) (arr : List TypedBackend) :
    Prop where
  home : s'.home = s.home
  backends : s'.backends = s.backends ++ arr.map (createdBackend env s.home)

theorem Adds.trans {s₁ s₂ s₃ : ConfigState} {first second : List TypedBackend}
    (h₁ : Adds env s₁ s₂ first) (h₂ : Adds env s₂ s₃ second) :
    Adds env s₁ s₃ (first ++ second) where
  home := h₂.home.trans h₁.home
  backends := by
    rw [h₂.backends, h₁.backends, h₁.home, List.map_append, List.append_assoc]

theorem createBackend_adds {object : Nat} {b : TypedBackend}
    (h : (s.createBackend env object b).1 = true) :
    Adds env s (s.createBackend env object b).2 [b] := by
  have happly : ∀ backend s', s.applyConfig env b = (some backend, s') →
      s'.home = s.home ∧ s'.backends = s.backends ∧ backend = createdBackend env s.home b := by
    intro backend s' heq
    unfold applyConfig at heq
    split at heq
    next => simp at heq
    next =>
      split at heq
      next config hconfig =>
        obtain ⟨hbackend, rfl⟩ := Prod.mk.injEq .. ▸ heq
        split at hbackend
        next =>
          rw [createdBackend_file s.home hconfig]
          exact ⟨rfl, rfl, (Option.some.inj hbackend).symm⟩
        next => simp at hbackend
      next hother =>
        obtain ⟨hbackend, rfl⟩ := Prod.mk.injEq .. ▸ heq
        rw [createdBackend_other s.home hother]
        exact ⟨rfl, rfl, (Option.some.inj hbackend).symm⟩
  unfold createBackend at h ⊢
  split at h
  next => simp at h
  next backend s' heq =>
    obtain ⟨hhome, hbackends, hbackend⟩ := happly backend s' heq
    refine ⟨hhome, ?_⟩
    rw [addBackend, hbackends, hbackend]
    rfl

theorem createBackends_adds {object : Nat} {arr : List TypedBackend}
    (h : (createBackends env object s arr).1 = true) :
    Adds env s (createBackends env object s arr).2 arr := by
  induction arr generalizing s with
  | nil => exact ⟨rfl, (List.append_nil _).symm⟩
  | cons b rest ih =>
      rw [createBackends, Bool.and_eq_true] at h
      exact (createBackend_adds h.1).trans (ih h.2)

theorem createObjects_adds {arr : List ChannelConfig}
    (h : (s.createObjects env arr).1 = true) :
    Adds env s (s.createObjects env arr).2.1 (arr.flatMap ChannelConfig.backend) := by
  induction arr generalizing s with
  | nil => exact ⟨rfl, (List.append_nil _).symm⟩
  | cons c rest ih =>
      rw [createObjects, Bool.and_eq_true] at h
      have hcreated := createBackends_adds h.1
      have hfirst : Adds env s (s.createObject env c).2 c.backend :=
        ⟨hcreated.home, hcreated.backends⟩
      exact hfirst.trans (ih h.2)

/-- The backends of the default channel have no files. -/
theorem replaceChannels_backends (env : LoaderEnvironment) (s : ConfigState)
    (objects : List (ChannelConfig × Nat)) :
    ∃ added, (s.replaceChannels env objects).backends = s.backends ++ added ∧
      ∀ b ∈ added, ∀ config, b.config ≠ .file config := by
  unfold replaceChannels createDefaultChannelLayout
  split
  next =>
    exact ⟨[], (List.append_nil _).symm, fun b hb => absurd hb List.not_mem_nil⟩
  next =>
    dsimp only
    split
    next =>
      refine ⟨[_, _], List.append_assoc .., ?_⟩
      simp
    next =>
      refine ⟨[_], rfl, ?_⟩
      simp

end ConfigState

/-! ## Accepted configurations -/

/-- The parsers accept the configuration and collect `config`. -/
def ParsesTo (env : LoaderEnvironment) (s : LoadedState) (data path : Name)
    (config : ParsedConfig) : Prop :=
  ∃ root, env.parse data = .ok root ∧
    (parseConfiguration env s.logger.shutdownCalled root path).outcome = .value config

/-- The backends that have been created since `s`. -/
def LoadedState.createdSince (s' s : LoadedState) : List CreatedBackend :=
  s'.backends.drop s.backends.length

/-- Every new file backend with a relative name takes it from the home directory
of `s'`. -/
def LoadedState.Governs (env : LoaderEnvironment) (s s' : LoadedState) : Prop :=
  ∀ b ∈ s'.createdSince s, ∀ config, b.config = .file config →
    isAbsoluteName (env.template config.filename) = false →
      b.name = s'.home ++ env.template config.filename

namespace LoadedState

theorem collected_home (env : LoaderEnvironment) (s : LoadedState)
    (names : Option OutputFieldNameMap) (messages : List ConfigMessage) :
    ((s.withFieldNames names).writes env messages).home = s.home ∧
      ((s.withFieldNames names).writes env messages).backends = s.backends := by
  cases names <;> exact ⟨rfl, rfl⟩

theorem apply_loaded {env : LoaderEnvironment} {s : LoadedState} {config : ParsedConfig}
    (hloaded : (s.apply env config).1 = .loaded) :
    (s.apply env config).2.home = storedHome env.build config.home.homeDirectory ∧
      ∃ added, (s.apply env config).2.backends = s.backends ++
          (config.channels.flatMap ChannelConfig.backend).map
            (createdBackend env.toConfigEnvironment s.home) ++ added ∧
        ∀ b ∈ added, ∀ config, b.config ≠ .file config := by
  unfold apply at hloaded ⊢
  dsimp only at hloaded ⊢
  split at hloaded
  next hcreated =>
    rw [if_pos hcreated]
    rw [Bool.and_eq_true] at hcreated
    have hadds := ConfigState.createObjects_adds hcreated.2
    obtain ⟨added, hadded, hfiles⟩ := ConfigState.replaceChannels_backends env
      (createChannels env.toConfigEnvironment s.toConfigState config.channels).2.1
      (createChannels env.toConfigEnvironment s.toConfigState config.channels).2.2
    refine ⟨rfl, added, hadded.trans ?_, hfiles⟩
    rw [← hadds.backends]
    rfl
  next => contradiction

end LoadedState

/-- What a configuration that is loaded has created. -/
theorem LoadedState.createdSince_loaded {env : LoaderEnvironment} {s : LoadedState}
    {data path : Name} (hloaded : (s.loadConfiguration env data path).1 = .loaded) :
    ∃ config, ParsesTo env s data path config ∧
      (s.loadConfiguration env data path).2.home =
        storedHome env.build config.home.homeDirectory ∧
      ∃ added, (s.loadConfiguration env data path).2.createdSince s =
          (config.channels.flatMap ChannelConfig.backend).map
            (createdBackend env.toConfigEnvironment s.home) ++ added ∧
        ∀ b ∈ added, ∀ config, b.config ≠ .file config := by
  cases hroot : env.parse data with
  | error text =>
      rw [loadConfiguration, hroot] at hloaded
      contradiction
  | ok root =>
      have hloads := s.loadConfiguration_loads path hroot
      unfold Loads at hloads
      dsimp only at hloads
      split at hloads
      next config hconfig =>
        refine ⟨config, ⟨root, hroot, hconfig⟩, ?_⟩
        rw [hloads] at hloaded ⊢
        obtain ⟨hhome, added, hadded, hfiles⟩ := apply_loaded hloaded
        obtain ⟨hold, hbackends⟩ := s.collected_home env (givenFieldNames env root path)
          (parseConfiguration env s.logger.shutdownCalled root path).messages
        rw [hbackends, hold, List.append_assoc] at hadded
        refine ⟨hhome, added, ?_, hfiles⟩
        rw [createdSince, hadded, List.drop_left]
      next =>
        obtain ⟨text, hloads⟩ := hloads
        rw [hloads] at hloaded
        contradiction
      next =>
        rw [hloads] at hloaded
        contradiction

/-- The home directory is the configured one already, or every file backend of the
configuration has an absolute name. -/
def HomeKept (env : LoaderEnvironment) (s : LoadedState) (config : ParsedConfig) : Prop :=
  s.home = storedHome env.build config.home.homeDirectory ∨
    ∀ c ∈ config.channels, ∀ b ∈ c.backend, ∀ file, b.config = .file file →
      isAbsoluteName (env.template file.filename) = true

theorem resolveName_relative {home name : Name} (h : isAbsoluteName name = false) :
    resolveName home name = home ++ name := by
  rw [resolveName, if_neg (by simp [h])]

theorem governs_iff (env : LoaderEnvironment) (s : LoadedState) (data path : Name)
    (hloaded : (s.loadConfiguration env data path).1 = .loaded) :
    LoadedState.Governs env s (s.loadConfiguration env data path).2 ↔
      ∀ config, ParsesTo env s data path config → HomeKept env s config := by
  obtain ⟨config, hparses, hhome, added, hcreated, hfiles⟩ :=
    LoadedState.createdSince_loaded hloaded
  have hunique : ∀ other, ParsesTo env s data path other → other = config := by
    rintro other ⟨root, hroot, hother⟩
    obtain ⟨root', hroot', hconfig⟩ := hparses
    cases hroot.symm.trans hroot'
    cases hother.symm.trans hconfig
    rfl
  unfold LoadedState.Governs
  rw [hcreated, hhome]
  constructor
  · rintro hgoverns other hother
    rw [hunique other hother]
    rw [HomeKept, or_iff_not_imp_left]
    intro hne c hc b hb file hfile
    by_contra habsolute
    rw [Bool.not_eq_true] at habsolute
    have hb' : createdBackend env.toConfigEnvironment s.home b ∈
        (config.channels.flatMap ChannelConfig.backend).map
          (createdBackend env.toConfigEnvironment s.home) ++ added :=
      List.mem_append_left _ (List.mem_map_of_mem (List.mem_flatMap.mpr ⟨c, hc, hb⟩))
    have hname := hgoverns _ hb' file
    rw [createdBackend_file s.home hfile, resolveName_relative habsolute] at hname
    exact hne (List.append_cancel_right (hname hfile habsolute))
  · intro hkept b hb file hfile habsolute
    rcases List.mem_append.mp hb with hb | hb
    · obtain ⟨typed, htyped, rfl⟩ := List.mem_map.mp hb
      obtain ⟨c, hc, htyped⟩ := List.mem_flatMap.mp htyped
      have hconfig : typed.config = .file file := by
        unfold createdBackend at hfile
        split at hfile <;> exact hfile
      rw [createdBackend_file s.home hconfig, resolveName_relative habsolute]
      rcases hkept config hparses with heq | hall
      · rw [heq]
      · rw [hall c hc typed htyped file hconfig] at habsolute
        contradiction
    · exact absurd hfile (hfiles b hb file)

/-! ## A file in the home directory -/

/-- A channel with a file, and the home directory. -/
def homeConfiguration : JsonValue :=
  .object [
    (ascii "channels", .array [.object [
      (ascii "backends", .array [.object [
        (ascii "file", .string (ascii "net.log")),
        (ascii "type", .string (ascii "FileBackend"))]]),
      (ascii "name", .string (ascii "net"))]]),
    (ascii "home-directory", .object [(ascii "path", .string (ascii "/var/log"))])]

def stateWithHome (home : Name) : LoadedState := { reportingState with home := home }

/-- The home directory is loaded a second time. -/
theorem governs_same_home :
    LoadedState.Governs (readingEnvironment homeConfiguration) (stateWithHome (ascii "/var/log/"))
      ((stateWithHome (ascii "/var/log/")).loadConfiguration
        (readingEnvironment homeConfiguration) [] []).2 := by
  refine (governs_iff _ _ [] [] rfl).mpr fun config hparses => .inl ?_
  obtain ⟨root, hroot, hconfig⟩ := hparses
  cases hroot
  cases hconfig
  rfl

/-- The file is created in the home directory of the executable. -/
theorem file_in_previous_home :
    ((stateWithHome (ascii "/opt/bin/")).loadConfiguration
      (readingEnvironment homeConfiguration) [] []).1 = .loaded ∧
    ((stateWithHome (ascii "/opt/bin/")).loadConfiguration
      (readingEnvironment homeConfiguration) [] []).2.home = ascii "/var/log/" ∧
    ¬ LoadedState.Governs (readingEnvironment homeConfiguration)
      (stateWithHome (ascii "/opt/bin/"))
      ((stateWithHome (ascii "/opt/bin/")).loadConfiguration
        (readingEnvironment homeConfiguration) [] []).2 := by
  refine ⟨rfl, rfl, fun hgoverns => ?_⟩
  have hname := hgoverns ⟨.file { maxSize := 8 * 1024 * 1024, filename := ascii "net.log" },
    ascii "/opt/bin/net.log", ascii "/opt/bin/"⟩ (List.mem_of_getElem? (i := 0) rfl) _ rfl rfl
  exact absurd hname (by decide)

end Logme
