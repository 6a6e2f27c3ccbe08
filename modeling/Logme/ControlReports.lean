import Logme.ControlPermissions
import Logme.LogStatisticsReports
import Logme.Obfuscate

/-!
# Answers with the texts of the reports

The commands `help`, `overview`, `channel` and `logstat` print texts that the
dispatch only passes on.  With these texts every command is answered, unless it
asks for the tail of a log file in which nothing follows.
-/

namespace Logme

/-! ## The help text -/

namespace CmdHelp

def helpLines : List String := [
  "backend [--channel name] --add type [options] Add backend to a channel",
  "backend [--channel name] --delete type        Delete backend from a channel",
  "backend option --async                       Enable async output when backend supports it",
  "backend option --file path                   FileBackend/SharedFileBackend: set output file",
  "backend option --append                      FileBackend only: append to output file",
  "backend option --overwrite                   FileBackend only: overwrite output file",
  "backend option --max-size size               " ++
    "FileBackend/SharedFileBackend/BufferBackend maximum size",
  "backend option --daily-rotation              FileBackend only: rotate by day",
  "backend option --no-daily-rotation           FileBackend only: disable daily rotation",
  "backend option --max-parts count             FileBackend only: keep rotated file parts",
  "backend option --timeout interval            SharedFileBackend only: lock timeout",
  "backend option --policy policy               " ++
    "BufferBackend only: stop-appending or delete-oldest",
  "backend option --max-items count             RingBufferBackend only: keep last record count",
  "channel [name]                                Display channel information",
  "channel --create name                         Create a channel",
  "channel --delete name                         Delete a channel (not default)",
  "channel --enable name                         Enable a channel",
  "channel --disable name                        Disable a channel",
  "channel --bind source target                  Link source channel to target channel",
  "channel --unbind name                         Remove channel link",
  "channel --error name                          Set error channel",
  "channel --clear-error                         Clear error channel",
  "flags [--channel name] [flag[=value] ...]      Set or display channel flags",
  "help                                           Print this help text",
  "level [--channel name] [level]                 Get or set channel level",
  "list                                           List channels",
  "logstat start|stop|status|reset                Control log-site statistics collection",
  "logstat top [--sort bytes|records] [--limit n] Display top log source locations",
  "logstat channels [--sort bytes|records]        Display source channel statistics",
  "logstat outputs [--backend type] [--sort ...]  Display source sites by backend output",
  "logstat backends [--backend type] [--sort ...] Display backend output totals",
  "logs [--info|--tree [path]|--tail path [bytes]] Browse log files under home directory",
  "overview                                       Display runtime logging summary",
  "subsystem                                      Display subsystem filters",
  "subsystem --block name                         Add blocked subsystem",
  "subsystem --unblock name                       Remove blocked subsystem",
  "subsystem --allow name                         Add allowed subsystem",
  "subsystem --disallow name                      Remove allowed subsystem",
  "subsystem --check name                         Query subsystem filters and level",
  "subsystem --set-level name level               Set subsystem level override",
  "subsystem --remove-level name                  Remove subsystem level override",
  "subsystem --clear                              Clear all subsystem filters and levels",
  "subsystem --clear-blocked                      Clear blocked subsystem list",
  "subsystem --clear-allowed                      Clear allowed subsystem list",
  "subsystem --clear-levels                       Clear subsystem level overrides",
  "trace [list|stat|stats] [pattern]              List trace points and counters",
  "trace enable pattern                           " ++
    "Enable trace points by module:function:line wildcard",
  "trace disable pattern                          " ++
    "Disable trace points by module:function:line wildcard",
  "trace reset [pattern]                          Reset trace point counters",
  "version                                        Display logme and control protocol version"]

def helpText : Name := List.intercalate CmdLogs.newline (helpLines.map ascii)

/-- `FindHelpSplit`: a tab, or blanks before something else. -/
def findHelpSplit : Name → Option Nat
  | [] => none
  | c :: rest =>
      if c = 0x09 then some 0
      else if c = 0x20 ∧ rest.head? = some 0x20 ∧
          rest.tail.dropWhile (· = 0x20) ≠ [] then some 0
      else (findHelpSplit rest).map (· + 1)

/-- The command and the description of a line that has both. -/
def helpColumns (line : Name) : Option (Name × Name) :=
  match findHelpSplit line with
  | none => none
  | some split =>
      let left := trimSpaces (line.take split)
      let right := trimSpaces (line.drop split)
      if left = [] ∨ right = [] then none else some (left, right)

/-- The lines that the loop of `AlignHelpColumns` reads; nothing follows a final
line end. -/
def textLines (s : Name) : List Name :=
  let pieces := splitBytes (· = 0x0A) s
  (if pieces.getLast? = some [] then pieces.dropLast else pieces).map fun line =>
    if line.getLast? = some 0x0D then line.dropLast else line

def maxLeft (lines : List Name) : Nat :=
  lines.foldl (fun widest line =>
    match helpColumns line with
    | none => widest
    | some (left, _) => max widest left.length) 0

def alignHelpColumns (s : Name) : Name :=
  let lines := textLines s
  let widest := maxLeft lines
  if widest = 0 then s
  else lines.flatMap fun line =>
    match helpColumns line with
    | none => line ++ CmdLogs.newline
    | some (left, right) =>
        left ++ List.replicate (widest - left.length + 2) 0x20 ++ right ++ CmdLogs.newline

/-- `Logger::CommandHelp`. -/
def commandHelp (response : Name) : Name := alignHelpColumns (sortLines (response ++ helpText))

theorem splitBytes_eq_singleton_nil {d : UInt8 → Bool} {s : Name}
    (h : splitBytes d s = [[]]) : s = [] := by
  cases s with
  | nil => rfl
  | cons c rest =>
      rw [splitBytes] at h
      split at h
      next => exact absurd (List.cons.inj h).2 (splitBytes_ne_nil d rest)
      next => split at h <;> exact absurd (List.cons.inj h).1 (List.cons_ne_nil _ _)

theorem textLines_ne_nil {s : Name} (h : s ≠ []) : textLines s ≠ [] := by
  unfold textLines
  dsimp only
  rw [Ne, List.map_eq_nil_iff]
  split
  next hlast =>
    intro hnone
    refine h (splitBytes_eq_singleton_nil (d := (· = 0x0A)) ?_)
    have hrebuilt := List.dropLast_append_getLast? [] hlast
    rw [hnone] at hrebuilt
    exact hrebuilt.symm
  next => exact splitBytes_ne_nil _ s

theorem alignHelpColumns_ne_nil {s : Name} (h : s ≠ []) : alignHelpColumns s ≠ [] := by
  unfold alignHelpColumns
  dsimp only
  split
  next => exact h
  next =>
    obtain ⟨line, hline⟩ := List.exists_mem_of_ne_nil _ (textLines_ne_nil h)
    intro hnil
    have hempty := List.flatMap_eq_nil_iff.mp hnil line hline
    split at hempty <;> simp [CmdLogs.newline] at hempty

theorem commandHelp_ne_nil (response : Name) : commandHelp response ≠ [] := by
  refine alignHelpColumns_ne_nil (sortLines_ne_nil
    (wordSplitBy_ne_nil (c := 0x62) ?_ (by decide) (by decide)))
  refine List.mem_append_right response ?_
  rw [helpText, helpLines, List.map_cons, List.map_cons, List.intercalate_cons_cons]
  exact List.mem_append_left _ (List.mem_append_left _ (by decide))

end CmdHelp

/-! ## The texts about the logger -/

/-- `TYPE_ID`. -/
def BackendType.typeId : BackendType → Name
  | .buffer => ascii "BufferBackend"
  | .callback => ascii "CallbackBackend"
  | .ringBuffer => ascii "RingBufferBackend"
  | .console => ascii "ConsoleBackend"
  | .debug => ascii "DebugBackend"
  | .file => ascii "FileBackend"
  | .sharedFile => ascii "SharedFileBackend"
  | .windowsEventLog => ascii "WindowsEventLogBackend"

/-- What reports print of a running logger beside its state: counters and the
memory of channels and backends, and the details of a backend. -/
structure RuntimeFigures where
  autoDelete : Nat
  enableVTMode : Bool
  obfuscationKey : Option ObfKey
  accessCount : Nat → Nat
  loggedBytes : Nat → Nat
  memoryUsage : Nat → Nat
  managerMemory : Nat
  details : Nat → Name
  numbers : FloatTexts
  fileBackends : List FileBackendSnapshot

def formatBool (value : Bool) : Name := if value then ascii "Enabled" else ascii "Disabled"

/-- `NormalizeChannelDisplayName`. -/
def channelDisplayName (name : Name) : Name := if name = [] then defaultName else name

def formatErrorChannel : Option Name → Name
  | none => ascii "<none>"
  | some name => channelDisplayName name

def formatObfuscationKey (key : ObfKey) : Name :=
  key.bytes.flatMap fun b => padZero 2 (hexUpper b.toNat)

def backendTypeId (s : ControlState) (backend : ChannelBackend) : Name :=
  ((s.backends[backend.id]?).map fun config => config.type.typeId).getD []

/-- `Logger::CommandOverview`. -/
def commandOverview (home : CmdLogs.HomeDirectory) (figures : RuntimeFigures)
    (s : ControlState) : Name :=
  let channels := s.logger.default.toList ++ s.logger.channels.map Prod.snd
  let backends := channels.flatMap fun c =>
    ((s.logger.heap[c]?).map Channel.backends).getD []
  let types := backends.map (backendTypeId s)
  let memory := (backends.map fun backend => figures.memoryUsage backend.id).sum +
    figures.managerMemory
  statusLine "Home directory" home.text ++
    statusLine "Channels" (decimalBytes (s.logger.channels.length + 1)) ++
    statusLine "Auto delete channels" (decimalBytes figures.autoDelete) ++
    statusLine "VT mode requested" (formatBool figures.enableVTMode) ++
    statusLine "Obfuscation" (formatBool figures.obfuscationKey.isSome) ++
    (match figures.obfuscationKey with
      | none => []
      | some key => statusLine "Obfuscation key" (formatObfuscationKey key)) ++
    statusLine "Error channel" (formatErrorChannel s.logger.errorChannel) ++
    statusLine "Log write calls" (decimalBytes (channels.map figures.accessCount).sum) ++
    statusLine "Logged bytes" (decimalBytes (channels.map figures.loggedBytes).sum) ++
    (if memory = 0 then [] else statusLine "Backend memory" (decimalBytes memory)) ++
    if types.isEmpty then statusLine "Backends" (ascii "none")
    else ascii "Backends:" ++ CmdLogs.newline ++
      (types.dedup.insertionSort (· ≤ ·)).flatMap fun type =>
        ascii "  " ++ type ++ ascii ": " ++ decimalBytes (types.count type) ++ CmdLogs.newline

/-- The text of `Logger::CommandChannel` about the channel `c`. -/
def channelText (figures : RuntimeFigures) (s : ControlState) (name : Name) (c : Nat)
    (channel : Channel) : Name :=
  statusLine "Channel" (channelDisplayName name) ++
    statusLine "Status" (formatBool channel.enabled) ++
    statusLine "Access count" (decimalBytes (figures.accessCount c)) ++
    statusLine "Logged bytes" (decimalBytes (figures.loggedBytes c)) ++
    statusLine "Flags" (ascii "0x" ++ hexUpper channel.flags.value.toNat ++ ascii " " ++
      channel.flags.bracketed) ++
    statusLine "Format" (formatType channel.flags.format) ++
    statusLine "Level" (levelName channel.levelFilter) ++
    statusLine "Error channel"
      (if s.logger.errorChannel = some channel.name then ascii "Yes" else ascii "No") ++
    statusLine "Linked to"
      (match channel.linkTo with
        | none => ascii "<none>"
        | some target =>
            channelDisplayName (((s.logger.heap[target]?).map Channel.name).getD [])) ++
    statusLine "Backends" (decimalBytes channel.backends.length) ++
    channel.backends.flatMap fun backend =>
      ascii "  " ++ backendTypeId s backend ++
        (if backend.freezed then ascii " [frozen]" else []) ++
        (if figures.details backend.id = [] then []
          else ascii " " ++ figures.details backend.id) ++ CmdLogs.newline

/-- The part of `Logger::CommandChannel` without options. -/
def channelInformation (figures : RuntimeFigures) (s : ControlState) (arr : List Name) :
    Name :=
  let name := (arr[1]?).getD defaultName
  match (getChannelByControlName s.logger name).bind fun c =>
      (s.logger.heap[c]?).map fun channel => (c, channel) with
  | none => noSuchChannel name
  | some (c, channel) => channelText figures s name c channel

/-- The text that a command prints without a change of the state. -/
def reportText (home : CmdLogs.HomeDirectory) (figures : RuntimeFigures) (s : ControlState)
    (items : List Name) : Name :=
  if items.head? = some (ascii "overview") then commandOverview home figures s
  else if items.head? = some (ascii "channel") then channelInformation figures s items
  else CmdLogStatistics.report s.statistics figures.numbers figures.fileBackends items

/-- The environment with the texts of the source. -/
def ControlEnvironment.reporting (env : ControlEnvironment) (figures : RuntimeFigures) :
    ControlEnvironment :=
  { env with
    help := CmdHelp.commandHelp
    shows := reportText env.home figures }

/-! ## Every command but one is answered -/

theorem statusLine_ne_nil {name : String} {value rest : Name} :
    statusLine name value ++ rest ≠ [] := by
  simp [statusLine]

theorem commandOverview_ne_nil (home : CmdLogs.HomeDirectory) (figures : RuntimeFigures)
    (s : ControlState) : commandOverview home figures s ≠ [] := by
  unfold commandOverview
  simp only [List.append_assoc]
  exact statusLine_ne_nil

theorem channelInformation_ne_nil (figures : RuntimeFigures) (s : ControlState)
    (arr : List Name) : channelInformation figures s arr ≠ [] := by
  unfold channelInformation
  dsimp only
  split
  next => exact errorReply_ne_nil _
  next =>
    unfold channelText
    simp only [List.append_assoc]
    exact statusLine_ne_nil

theorem ControlEnvironment.reporting_reports (env : ControlEnvironment)
    (figures : RuntimeFigures) : (env.reporting figures).Reports where
  help := CmdHelp.commandHelp_ne_nil
  shows s items := by
    change reportText env.home figures s items ≠ []
    unfold reportText
    split
    next => exact commandOverview_ne_nil env.home figures s
    split
    next => exact channelInformation_ne_nil figures s items
    next => exact CmdLogStatistics.report_ne_nil items

/-- The command is admitted and asks for the tail of a log file in which nothing
follows. -/
def AsksForEmptyTail (env : ControlEnvironment) (policy : ControlPolicy) (command : Name) :
    Prop :=
  ∃ plain, plainCommand policy command = some plain ∧
    checkControlPolicy (controlItems plain) policy = .ok () ∧
    (controlItems plain).head? = some (ascii "logs") ∧
    CmdLogs.EmptyTail env.disk env.home env.extensions (controlItems plain)

/-- Without an extension every command is answered, whatever the policy and the
state are, unless it asks for an empty tail. -/
theorem control_answers_iff (env : ControlEnvironment) (figures : RuntimeFigures)
    (policy : ControlPolicy) (s : ControlState) (command : Name) :
    (control (env.reporting figures) none policy s command).response ≠ [] ↔
      ¬ AsksForEmptyTail env policy command := by
  rw [Ne, not_iff_not, control_eq_nil_iff (env.reporting_reports figures)]
  refine exists_congr fun plain => and_congr_right fun _ => ?_
  constructor
  · intro h
    rcases h.handled with hextension | htail
    · exact absurd hextension.1 (by simp [extensionAnswer])
    · exact ⟨h.admitted, htail.1, htail.2⟩
  · rintro ⟨hadmitted, hlogs, htail⟩
    exact ⟨hadmitted, rfl, .inr ⟨hlogs, htail⟩⟩

/-- A home directory with a log file that has just been created. -/
def freshLogEnvironment : ControlEnvironment :=
  { plainEnvironment with
    disk := ⟨[(ascii "h", .directory [(ascii "a.log", .file [] 0 true)])], [ascii "h"],
      by decide⟩
    home := CmdLogs.setHomeDirectory (ascii "/h") }

def freshFigures : RuntimeFigures :=
  ⟨0, false, none, fun _ => 0, fun _ => 0, fun _ => 0, 0, fun _ => [],
    ⟨ascii "0.000", fun _ _ => ascii "0.00", fun _ => ascii "0.00", fun _ => ascii "0.00",
      fun _ _ => ascii "0.0"⟩, []⟩

/-- The tail of an empty log file is not answered. -/
theorem tail_of_empty_file_unanswered :
    (control (freshLogEnvironment.reporting freshFigures) none .full consoleState
      (ascii "logs --tail a.log")).response = [] := by
  refine (control_eq_nil_iff (freshLogEnvironment.reporting_reports freshFigures) _).mpr
    ⟨ascii "logs --tail a.log", by decide, by decide, rfl, .inr ⟨by decide, by decide, by decide,
      LinkedTree.ofReal [ascii "h", ascii "a.log"], [ascii "h", ascii "a.log"], [], ?_, ?_,
        .inl rfl⟩⟩
  · decide +kernel
  · decide +kernel

end Logme
