import Logme.ConfigSections
import Logme.CmdSubsystem

/-!
# Loading a configuration

`LoadConfiguration` lets the parsers collect the settings of all sections and
then applies them: it creates the channels, replaces the registered ones, and
sets the subsystem lists, the home directory and its watchdog.  Only the names of
the structured fields are set while the sections are still being parsed.
-/

namespace Logme

/-! ## Reports of the parsers -/

namespace ConfigMessage

def arguments (m : ConfigMessage) : LogArguments :=
  if m.internal then .id Logger.internalChannel else .none

def site (m : ConfigMessage) : CallSite where
  level := m.level
  channel := []
  subsystem := 0
  collapseCache := none

end ConfigMessage

namespace Logger

/-- A log statement of a parser. -/
def writeReport (env : LoaderEnvironment) (l : Logger) (m : ConfigMessage) : Logger :=
  if env.setting.condition then
    match (l.formatLog env.thread (m.site.context m.arguments) m.arguments m.text).bind
        (doLog env.setting.fuel env.setting.now l env.setting.guard) with
    | some logged => logged.displayed.logger
    | none => l
  else l

/-! ## Replacing the channels -/

/-- `DeleteAllChannels`; `DoAutodelete` is a step of its own. -/
def deleteAllChannels (l : Logger) : Logger :=
  let cleared := match l.default with
    | none => l
    | some c => l.modifyChannel c Channel.removeBackends
  let cleared := l.channels.foldl (fun l entry =>
    (l.modifyChannel entry.2 Channel.removeLink).modifyChannel entry.2
      Channel.removeBackends) cleared
  { cleared with channels := [], default := none }

/-- One round of the loop of `ReplaceChannels`. -/
def registerObject (l : Logger) (entry : ChannelConfig × Nat) : Logger :=
  let name := cString entry.1.name
  if name = [] then { l with default := some entry.2 }
  else if (l.channels.lookup name).isSome then l
  else { l with channels := l.channels.concat (name, entry.2) }

/-! ## Subsystems -/

/-- An operation on the subsystem that `SID::Build` makes of a name. -/
def withSid (env : LoaderEnvironment) (f : Logger → Nat → Logger) (l : Logger)
    (name : Name) : Logger :=
  let l := if 8 < (cString name).length then l.report env.setting (truncatedName name) else l
  f l (buildSid name)

def applySubsystems (env : LoaderEnvironment) (l : Logger) (config : SubsystemConfig) :
    Logger :=
  let cleared := l.clearSubsystemFilters.clearSubsystemLevels
  let l := { cleared with blockReportedSubsystems := config.blockListed }
  let l := config.blocked.foldl (withSid env addBlockedSubsystem) l
  let l := config.allowed.foldl (withSid env addAllowedSubsystem) l
  let l := config.levels.foldl (fun l entry =>
    withSid env (fun l sid => l.setSubsystemLevel sid entry.2) l entry.1) l
  config.subsystems.foldl (withSid env fun l sid =>
    if config.blockListed then l.addBlockedSubsystem sid else l.addAllowedSubsystem sid) l

end Logger

namespace ConfigState

/-- `CreateDefaultChannelLayout(false)` -/
def createDefaultChannelLayout (env : LoaderEnvironment) (s : ConfigState) :
    ConfigState :=
  if s.logger.shutdownCalled ∨ s.logger.default.isSome then s
  else
    let object := s.logger.heap.length
    let created := s.logger.withObject (.new [] .default .default)
    let s := ({ s with logger := { created with default := some object } }).addBackend object
      ⟨.console {}, [], []⟩
    if env.build.debug then s.addBackend object ⟨.debug false, [], []⟩ else s

def replaceChannels (env : LoaderEnvironment) (s : ConfigState)
    (arr : List (ChannelConfig × Nat)) : ConfigState :=
  createDefaultChannelLayout env
    { s with logger := arr.foldl Logger.registerObject s.logger.deleteAllChannels }

end ConfigState

/-! ## The home directory -/

structure HomeDirectoryWatchDog where
  maximalSize : Nat
  periodicity : Int
  extensions : List Name
  running : Bool

/-- The settings, and `Run` where it is asked for. -/
def HomeDirectoryWatchDog.configure (w : HomeDirectoryWatchDog) (hdc : HomeDirectoryConfig) :
    HomeDirectoryWatchDog where
  maximalSize := hdc.maximalSize
  periodicity := hdc.checkPeriodicity
  extensions := hdc.extensions
  running := w.running || hdc.enableWatchDog && !(hdc.extensions.isEmpty ||
    hdc.maximalSize = 0 || hdc.maximalSize = 2 ^ 64 - 1 ||
    hdc.checkPeriodicity = 0 || hdc.checkPeriodicity = -1)

/-- `SetHomeDirectory`: the path ends with a separator. -/
def storedHome (build : BuildTarget) (path : Name) : Name :=
  let separator : UInt8 := if build.windows then 0x5C else 0x2F
  if path = [] ∨ path.getLast? = some separator then path else path ++ [separator]

/-! ## The loader -/

/-- The state that a configuration sets. -/
structure LoadedState extends ConfigState where
  fieldNames : OutputFieldNames
  watchDog : HomeDirectoryWatchDog

/-- `rejected` with the text for the caller when a part fails to parse, `thrown`
when the reader raises an exception, `failed` when the settings could not all be
applied. -/
inductive LoadResult where
  | rejected (error : Name)
  | thrown
  | failed (error : Name)
  | loaded
  deriving DecidableEq

/-- What the parsers collect before anything is created. -/
structure ParsedConfig where
  control : ControlConfig
  channels : List ChannelConfig
  subsystems : SubsystemConfig
  home : HomeDirectoryConfig

namespace LoadedState

def writes (env : LoaderEnvironment) (s : LoadedState) (messages : List ConfigMessage) :
    LoadedState :=
  { s with logger := messages.foldl (Logger.writeReport env) s.logger }

/-- The call of `SetOutputFieldNames`, where there is one. -/
def withFieldNames (s : LoadedState) (names : Option OutputFieldNameMap) : LoadedState :=
  match names with
  | none => s
  | some names => { s with fieldNames := setOutputFieldNames names s.fieldNames }

/-- The call of one parser, and how the loader goes on. -/
def stage {α : Type} (env : LoaderEnvironment) (s : LoadedState) (p : Parsed α)
    (error : String) (next : LoadedState → α → LoadResult × LoadedState) :
    LoadResult × LoadedState :=
  match p.outcome with
  | .value a => next (s.writes env p.messages) a
  | .rejected => (.rejected (ascii error), s.writes env p.messages)
  | .thrown => (.thrown, s.writes env p.messages)

/-- The part of the loader after the last parser. -/
def apply (env : LoaderEnvironment) (s : LoadedState) (config : ParsedConfig) :
    LoadResult × LoadedState :=
  let created := createChannels env.toConfigEnvironment s.toConfigState config.channels
  let replaced := ConfigState.replaceChannels env created.2.1 created.2.2
  let s : LoadedState := { s with
    logger := replaced.logger.applySubsystems env config.subsystems
    backends := replaced.backends
    home := storedHome env.build config.home.homeDirectory
    watchDog := s.watchDog.configure config.home }
  let text := ascii "configuration was parsed but could not be applied"
  let started := !config.control.enable || env.startServer config.control
  if started && created.1 then (.loaded, s)
  else (.failed text, s.writes env [⟨.error, true, text⟩])

/-- `LoadConfiguration` after the section has been found. -/
def loadSection (env : LoaderEnvironment) (shutdown : Bool) (s : LoadedState)
    (config : JsonValue) : LoadResult × LoadedState :=
  s.stage env (parseControlConfig env config) "control configuration parsing failed"
    fun s control =>
  s.stage env (parseStructuredFieldNames config) "structured field name parsing failed"
    fun s names =>
  (s.withFieldNames names).stage env (parseFlags config) "output flags parsing failed"
    fun s flags =>
  s.stage env (parseChannels env shutdown flags config)
    "channel configuration parsing failed" fun s channels =>
  s.stage env (parseSubsystems config) "subsystem configuration parsing failed"
    fun s subsystems =>
  s.stage env (parseHomeDirectoryConfig env config)
    "home directory configuration parsing failed" fun s home =>
  s.apply env ⟨control, channels, subsystems, home⟩

/-- `LoadConfiguration` -/
def loadConfiguration (env : LoaderEnvironment) (s : LoadedState) (data path : Name) :
    LoadResult × LoadedState :=
  match env.parse data with
  | .error error => (.rejected error, s)
  | .ok root =>
      s.stage env (getConfigSection root path) "configuration section was not found"
        (loadSection env s.logger.shutdownCalled)

end LoadedState

/-! ## What the parsers collect -/

/-- All the parsers one after another. -/
def parseConfiguration (env : LoaderEnvironment) (shutdown : Bool) (root : JsonValue)
    (path : Name) : Parsed ParsedConfig := do
  let config ← getConfigSection root path
  let control ← parseControlConfig env config
  let _ ← parseStructuredFieldNames config
  let flags ← parseFlags config
  let channels ← parseChannels env shutdown flags config
  let subsystems ← parseSubsystems config
  let home ← parseHomeDirectoryConfig env config
  return ⟨control, channels, subsystems, home⟩

def ParseOutcome.value? {α : Type} : ParseOutcome α → Option α
  | .value a => some a
  | .rejected => none
  | .thrown => none

/-- The names of the structured fields, when the parsers come to them and accept
them. -/
def givenFieldNames (env : LoaderEnvironment) (root : JsonValue) (path : Name) :
    Option OutputFieldNameMap :=
  (getConfigSection root path).outcome.value?.bind fun config =>
    (parseControlConfig env config).outcome.value?.bind fun _ =>
      (parseStructuredFieldNames config).outcome.value?.bind id

end Logme
