import Mathlib.Data.List.Basic
import Logme.CmdLogs
import Logme.InternalMessages
import Logme.LogStatistics

/-!
# What control commands work on

The commands read and change the logger, the configurations of its backends,
the trace points and the log-site statistics.  A backend is the position of its
configuration, and the channels hold only backends that have one.  The
environment is what a command finds and does not change.
-/

namespace Logme

inductive BackendType where
  | buffer
  | callback
  | ringBuffer
  | console
  | debug
  | file
  | sharedFile
  | windowsEventLog
  deriving DecidableEq

/-- The backends that write files. -/
def BackendType.isFile : BackendType → Bool
  | .file | .sharedFile => true
  | _ => false

def BackendType.isAsyncSupported : BackendType → Bool
  | .console | .debug | .file | .windowsEventLog => true
  | _ => false

inductive BufferBackendPolicy where
  | stopAppending
  | deleteOldest
  deriving DecidableEq

/-- The fields of the configurations that commands can set; a configuration
uses those of its type. -/
structure BackendConfig where
  type : BackendType
  async : Bool
  filename : Name := []
  append : Bool := true
  maxSize : Nat
  dailyRotation : Bool := false
  maxParts : Int := 2
  timeout : Nat := 10
  policy : BufferBackendPolicy := .stopAppending
  maxItems : Nat := 1000
  deriving DecidableEq

structure TracePoint where
  module : Name
  method : Name
  line : Int
  counter : Nat
  enabled : Bool
  deriving DecidableEq

/-- The collector once there has been a session, and whether it is active. -/
structure StatisticsSession where
  collector : Option LogStatisticsCollector
  active : Bool
  nextGeneration : Nat

structure ControlState where
  logger : Logger
  backends : List BackendConfig
  tracePoints : List TracePoint
  statistics : StatisticsSession
  configured : ∀ channel ∈ logger.heap, ∀ backend ∈ channel.backends,
    backend.id < backends.length

/-- The part of a C string before its final 0. -/
def cString (s : Name) : Name := s.takeWhile (· ≠ 0)

theorem cString_eq_self {s : Name} (h : 0 ∉ s) : cString s = s := by
  refine List.takeWhile_eq_self_iff.mpr fun c hc => decide_eq_true ?_
  rintro rfl
  exact h hc

theorem mem_modify {β : Type*} {l : List β} {i : Nat} {f : β → β} {b : β}
    (h : b ∈ l.modify i f) : b ∈ l ∨ ∃ a ∈ l, b = f a := by
  induction l generalizing i with
  | nil => simp at h
  | cons a rest ih =>
      cases i with
      | zero =>
          rcases List.mem_cons.mp (by simpa using h) with rfl | hrest
          · exact .inr ⟨a, List.mem_cons_self, rfl⟩
          · exact .inl (List.mem_cons_of_mem _ hrest)
      | succ i =>
          rcases List.mem_cons.mp (by simpa using h) with rfl | hrest
          · exact .inl List.mem_cons_self
          · rcases ih hrest with hold | ⟨a', ha', rfl⟩
            · exact .inl (List.mem_cons_of_mem _ hold)
            · exact .inr ⟨a', List.mem_cons_of_mem _ ha', rfl⟩

theorem Channel.backends_addBackend (channel : Channel) (id : Nat) :
    (channel.addBackend id).backends =
      if id ∈ channel.backends.map ChannelBackend.id then channel.backends
      else channel.backends ++ [⟨id, false⟩] := by
  unfold Channel.addBackend
  split
  next => rfl
  next =>
    rw [← List.concat_eq_append]

theorem Channel.setEnabled_subset (channel : Channel) (enable : Bool) :
    (channel.setEnabled enable).backends ⊆ channel.backends := fun _ h => h

theorem Channel.removeLink_subset (channel : Channel) :
    (channel.removeLink).backends ⊆ channel.backends := fun _ h => h

theorem Channel.addLinkPtr_subset (channel : Channel) (target : Option Nat) :
    (channel.addLinkPtr target).backends ⊆ channel.backends := fun _ h => h

theorem Channel.setFilterLevel_subset (channel : Channel) (level : Level) :
    (channel.setFilterLevel level).backends ⊆ channel.backends := fun _ h => h

theorem Channel.setFlags_subset (channel : Channel) (flags : OutputFlags) :
    (channel.setFlags flags).backends ⊆ channel.backends := fun _ h => h

theorem Channel.removeBackends_subset (channel : Channel) :
    (channel.removeBackends).backends ⊆ channel.backends := by simp [removeBackends]

theorem Channel.removeBackend_subset (channel : Channel) (id : Nat) :
    (channel.removeBackend id).backends ⊆ channel.backends :=
  List.filter_subset_self _

namespace ControlState

/-- The logger changes, and no backend is added to its channels. -/
def withLogger (s : ControlState) (l : Logger)
    (h : ∀ channel ∈ l.heap, ∀ backend ∈ channel.backends,
      backend.id < s.backends.length) : ControlState :=
  { s with logger := l, configured := h }

/-- An operation of a channel that adds no backends. -/
def modifyChannel (s : ControlState) (c : Nat) (f : Channel → Channel)
    (h : ∀ channel, (f channel).backends ⊆ channel.backends) : ControlState :=
  s.withLogger (s.logger.modifyChannel c f) (by
    intro channel hmem backend hbackend
    rcases mem_modify hmem with hold | ⟨old, hold, rfl⟩
    · exact s.configured channel hold backend hbackend
    · exact s.configured old hold backend (h old hbackend))

/-- `AddBackend` of a new backend. -/
def addBackend (s : ControlState) (c : Nat) (config : BackendConfig) :
    ControlState where
  logger :=
    if s.logger.shutdownCalled then s.logger
    else s.logger.modifyChannel c fun channel =>
      channel.addBackend s.backends.length
  backends := s.backends ++ [config]
  tracePoints := s.tracePoints
  statistics := s.statistics
  configured := by
    have hold : ∀ channel ∈ s.logger.heap, ∀ backend ∈ channel.backends,
        backend.id < (s.backends ++ [config]).length := by
      intro channel hmem backend hbackend
      have hlt := s.configured channel hmem backend hbackend
      simp only [List.length_append, List.length_singleton]
      omega
    split
    next => exact hold
    next =>
      intro channel hmem backend hbackend
      rcases mem_modify hmem with hmem' | ⟨old, hmem', rfl⟩
      · exact hold channel hmem' backend hbackend
      · rw [Channel.backends_addBackend] at hbackend
        split at hbackend
        next => exact hold old hmem' backend hbackend
        next =>
          rcases List.mem_append.mp hbackend with hkept | hnew
          · exact hold old hmem' backend hkept
          · rw [List.mem_singleton.mp hnew]
            simp

/-- The library reports a message of its own. -/
def report (setting : Logger.MessageSetting) (s : ControlState)
    (message : Logger.InternalMessage) : ControlState :=
  s.withLogger (Logger.report setting s.logger message) (by
    intro channel hmem backend hbackend
    have hgrows := Logger.report_grows setting message
      (.inl rfl : s.logger.messageNames Logger.internalChannel)
      s.logger.linksNamed_messageNames
    obtain ⟨c, hc⟩ := List.mem_iff_getElem?.mp hmem
    rcases hgrows.extends'.created c channel hc with hold | ⟨hnone, _⟩
    · exact s.configured channel (List.mem_of_getElem? hold) backend hbackend
    · rw [hnone] at hbackend
      contradiction)

/-- `CreateChannel`. -/
def createChannel (s : ControlState) (name : Name) : ControlState :=
  s.withLogger (s.logger.createChannelInternal name .default .default).2 (by
    intro channel hmem backend hbackend
    have hextends := s.logger.createChannelInternal_extends name .default .default
    obtain ⟨c, hc⟩ := List.mem_iff_getElem?.mp hmem
    rcases hextends.created c channel hc with hold | ⟨hnone, _⟩
    · exact s.configured channel (List.mem_of_getElem? hold) backend hbackend
    · rw [hnone] at hbackend
      contradiction)

/-- The name is no longer registered. -/
def unregister (s : ControlState) (name : Name) : ControlState :=
  s.withLogger
    { s.logger with
      channels := s.logger.channels.filter fun entry => entry.1 ≠ name }
    s.configured

/-- `DeleteChannel`: the channel loses its backends and its link as well. -/
def deleteChannel (s : ControlState) (name : Name) : ControlState :=
  match s.logger.channels.lookup name with
  | none => s
  | some c =>
      ((s.unregister name).modifyChannel c Channel.removeBackends
          Channel.removeBackends_subset).modifyChannel c
        Channel.removeLink Channel.removeLink_subset

end ControlState

/-- What commands find: the file system, the home directory and its configured
extensions, how messages are written, whether the file of a new `FileBackend`
can be opened and what the library says about it, the default size limit, the
help text, which is sorted together with what stands in the response already,
and the texts of reports that only read the state. -/
structure ControlEnvironment where
  disk : CmdLogs.Disk
  home : CmdLogs.HomeDirectory
  extensions : List Name
  setting : Logger.MessageSetting
  openFile : BackendConfig → Bool × List Logger.InternalMessage
  maxSizeDefault : Nat
  help : Name → Name
  shows : ControlState → List Name → Name

end Logme
