import Mathlib.Data.List.Sort
import Mathlib.Order.Lex
import Logme.CmdBackend

/-!
# The commands `channel`, `level` and `list`

The information that `channel` prints about a channel is one of the reports of
the environment; the operations are read as the source reads them.  A handler
that appends to the response is given what stands there already.
-/

namespace Logme

def levelName : Level → Name
  | .debug => ascii "DEBUG"
  | .info => ascii "INFO"
  | .warn => ascii "WARN"
  | .error => ascii "ERROR"
  | .critical => ascii "CRITICAL"

/-! ## The `channel` command -/

def defaultName : Name := ascii "<default>"

def getChannelByControlName (l : Logger) (name : Name) : Option Nat :=
  if name = defaultName then l.getExistingChannel []
  else l.getExistingChannel (cString name)

def noSuchChannel (name : Name) : Name :=
  errorReply (ascii "no such channel: " ++ name)

namespace ControlState

def setErrorChannel (s : ControlState) (name : Option Name) : ControlState :=
  s.withLogger { s.logger with errorChannel := name } s.configured

/-- `AddLink` of a channel pointer. -/
def addLink (s : ControlState) (source target : Nat) : ControlState :=
  if s.logger.shutdownCalled then s
  else
    s.modifyChannel source (Channel.addLinkPtr · (some target))
      (Channel.addLinkPtr_subset · _)

end ControlState

/-- `--delete`, where the default channel has the empty name. -/
def deleteChannelCommand (s : ControlState) (name : Name) : ControlState × Name :=
  if name = [] then (s, errorReply (ascii "invalid channel name"))
  else if name = defaultName then
    (s, errorReply (ascii "cannot delete default channel"))
  else
    match getChannelByControlName s.logger name with
    | none => (s, noSuchChannel name)
    | some c =>
        if (s.logger.heap[c]?).any fun channel => channel.name = [] then
          (s, errorReply (ascii "cannot delete default channel"))
        else (s.deleteChannel (cString name), okReply)

def bindChannelCommand (s : ControlState) (name : Name) (arguments : List Name) :
    ControlState × Name :=
  match arguments with
  | [] => (s, errorReply (ascii "missing target channel name"))
  | targetName :: _ =>
      match getChannelByControlName s.logger name with
      | none => (s, noSuchChannel name)
      | some source =>
          match getChannelByControlName s.logger targetName with
          | none => (s, noSuchChannel targetName)
          | some target => (s.addLink source target, okReply)

/-- The operations that name a channel, which has to exist. -/
def channelOperation (s : ControlState) (opt name : Name)
    (arguments : List Name) : ControlState × Name :=
  let existing (act : Nat → ControlState) : ControlState × Name :=
    match getChannelByControlName s.logger name with
    | none => (s, noSuchChannel name)
    | some c => (act c, okReply)
  if opt = ascii "--enable" ∨ opt = ascii "--disable" then
    existing fun c =>
      s.modifyChannel c (Channel.setEnabled · (opt = ascii "--enable"))
        (Channel.setEnabled_subset · _)
  else if opt = ascii "--create" then
    match getChannelByControlName s.logger name with
    | some _ => (s, errorReply (ascii "channel already exists: " ++ name))
    | none => (s.createChannel (cString name), okReply)
  else if opt = ascii "--delete" then deleteChannelCommand s name
  else if opt = ascii "--bind" then bindChannelCommand s name arguments
  else if opt = ascii "--unbind" then
    existing fun c =>
      s.modifyChannel c Channel.removeLink
        Channel.removeLink_subset
  else if opt = ascii "--error" then
    existing fun _ =>
      s.setErrorChannel (some (if name = defaultName then [] else cString name))
  else (s, errorReply (ascii "unknown option: " ++ opt))

/-- `Logger::CommandChannel`. -/
def commandChannel (env : ControlEnvironment) (s : ControlState)
    (arr : List Name) (response : Name) : ControlState × Name :=
  match arr.drop 1 with
  | [] => information (ascii "<default>") (s.logger.getExistingChannel [])
  | opt :: rest =>
      if startsWith (ascii "--") opt then
        if opt = ascii "--clear-error" then (s.setErrorChannel none, okReply)
        else
          match rest with
          | [] => (s, errorReply (ascii "missing channel name"))
          | name :: arguments => channelOperation s opt name arguments
      else information opt (getChannelByControlName s.logger opt)
where
  information (name : Name) (found : Option Nat) : ControlState × Name :=
    match found with
    | none => (s, noSuchChannel name)
    | some _ => (s, response ++ env.shows s arr)

/-! ## The `level` command -/

/-- `LevelValues`. -/
def levelValues : List (Name × Level) :=
  [([], .default), (ascii "info", .info), (ascii "information", .info),
    (ascii "debug", .debug), (ascii "warn", .warn), (ascii "warning", .warn),
    (ascii "err", .error), (ascii "error", .error), (ascii "crit", .critical),
    (ascii "ctitical", .critical)]

/-- `FindNamed`. -/
def findNamed {β : Type*} (values : List (Name × β)) (s : Name) : Option β :=
  (values.find? fun value => value.1 = toLowerAscii s).map Prod.snd

def levelReply (s : ControlState) (c : Nat) : Name :=
  ascii "Level: " ++
    ((s.logger.heap[c]?).map fun channel => levelName channel.levelFilter).getD []

/-- `Logger::CommandLevel`. -/
def commandLevel (s : ControlState) (arr : List Name) : ControlState × Name :=
  match getChannelFromArgs s arr 1 with
  | .error error => (s, errorReply error)
  | .ok (c, index) =>
      match arr.drop index with
      | [] => (s, levelReply s c)
      | word :: _ =>
          match findNamed levelValues word with
          | none => (s, errorReply (ascii "invalid level: " ++ word))
          | some level =>
              let s' := s.modifyChannel c (Channel.setFilterLevel · level)
                (Channel.setFilterLevel_subset · _)
              (s', levelReply s' c ++ CmdLogs.newline ++ okReply)

/-! ## The `list` command -/

/-- `SortLines`. -/
def sortLines (s : Name) : Name :=
  ((wordSplitBy (· = 0x0A) s).insertionSort (· ≤ ·)).flatMap
    (· ++ CmdLogs.newline)

/-- `Logger::CommandList`. -/
def commandList (s : ControlState) (response : Name) : ControlState × Name :=
  (s, sortLines (response ++ defaultName ++ CmdLogs.newline ++
    s.logger.channels.flatMap fun entry => entry.1 ++ CmdLogs.newline))

end Logme
