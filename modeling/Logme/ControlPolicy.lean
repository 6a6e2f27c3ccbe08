import Logme.ControlWords

/-!
# Control policies

A policy allows kinds of commands.  `checkControlPolicy` reads the words of a
command once more to tell what kind it is, before any handler sees them; a
rejected command is an error with the reason.
-/

namespace Logme

inductive ControlPolicyMode where
  | full
  | safe
  | diagnostic
  | custom
  deriving DecidableEq

structure ControlPolicy where
  mode : ControlPolicyMode := .full
  allowExtensions : Bool := true
  allowLogsCommand : Bool := true
  allowFormatCommand : Bool := true
  allowFileBackends : Bool := true
  allowChannelCreateDelete : Bool := true
  allowChannelRouting : Bool := true
  allowChannelError : Bool := true
  allowBackendChanges : Bool := true
  allowLevelChanges : Bool := true
  allowFlagChanges : Bool := true
  allowTraceChanges : Bool := true
  allowLogStatistics : Bool := true
  allowSubsystemChanges : Bool := true
  deriving DecidableEq

namespace ControlPolicy

def full : ControlPolicy := {}

def safe : ControlPolicy where
  mode := .safe
  allowExtensions := false
  allowLogsCommand := false
  allowFileBackends := false
  allowChannelCreateDelete := false
  allowChannelRouting := false
  allowChannelError := false
  allowBackendChanges := false

def diagnostic : ControlPolicy :=
  { safe with mode := .diagnostic, allowBackendChanges := true }

end ControlPolicy

/-- The classifier's reading of a backend type. -/
def normalizeControlBackendType (input : Name) : Name :=
  let lower := toLowerAscii input
  let s :=
    if (ascii "backend").isSuffixOf lower then lower.take (lower.length - 7)
    else lower
  if s = ascii "console" ∨ s = ascii "con" then ascii "console"
  else if s = ascii "debug" ∨ s = ascii "dbg" then ascii "debug"
  else if s = ascii "file" then ascii "file"
  else if s = ascii "sharedfile" ∨ s = ascii "shared" ∨ s = ascii "sfile" then
    ascii "sharedfile"
  else if s = ascii "buffer" ∨ s = ascii "buf" then ascii "buffer"
  else if s = ascii "ringbuffer" ∨ s = ascii "ring" ∨ s = ascii "rbuf" then
    ascii "ringbuffer"
  else s

def isDiagnosticBackendType (type : Name) : Bool :=
  type = ascii "console" || type = ascii "debug" || type = ascii "buffer" ||
    type = ascii "ringbuffer"

def isControlOption (s : Name) : Bool := startsWith (ascii "--") s

/-- A permission, and the reason to give without it. -/
def require (allowed : Bool) (reason : String) : Except Name Unit :=
  if allowed then .ok () else .error (ascii reason)

/-- Where the operation of a `backend` command is looked for. -/
def operationIndex (items : List Name) : Nat :=
  match items.drop 1 with
  | option :: _ :: _ => if option = ascii "--channel" then 3 else 1
  | _ => 1

def checkBackendControlPolicy (items : List Name) (policy : ControlPolicy) :
    Except Name Unit :=
  if policy.allowBackendChanges = false then
    .error (ascii "backend command is disabled")
  else if policy.allowFileBackends then .ok ()
  else
    match items.drop (operationIndex items) with
    | op :: type :: _ =>
        if op ≠ ascii "--add" ∧ op ≠ ascii "--delete" then .ok ()
        else if isDiagnosticBackendType (normalizeControlBackendType type) then
          .ok ()
        else
          .error (ascii "backend type is not allowed by control policy: " ++ type)
    | _ => .ok ()

def checkChannelControlPolicy (items : List Name) (policy : ControlPolicy) :
    Except Name Unit :=
  match items.drop 1 with
  | [] => .ok ()
  | opt :: _ =>
      if isControlOption opt = false then .ok ()
      else if opt = ascii "--enable" ∨ opt = ascii "--disable" then .ok ()
      else if opt = ascii "--create" ∨ opt = ascii "--delete" then
        require policy.allowChannelCreateDelete
          "channel create/delete commands are disabled"
      else if opt = ascii "--bind" ∨ opt = ascii "--unbind" then
        require policy.allowChannelRouting "channel routing commands are disabled"
      else if opt = ascii "--error" ∨ opt = ascii "--clear-error" then
        require policy.allowChannelError
          "channel error routing commands are disabled"
      else .ok ()

def checkControlPolicy (items : List Name) (policy : ControlPolicy) :
    Except Name Unit :=
  match items with
  | [] => .ok ()
  | c :: _ =>
      if c = ascii "help" ∨ c = ascii "version" ∨ c = ascii "overview" ∨
          c = ascii "list" then .ok ()
      else if c = ascii "level" then
        require policy.allowLevelChanges "level command is disabled"
      else if c = ascii "flags" then
        require policy.allowFlagChanges "flags command is disabled"
      else if c = ascii "trace" then
        require policy.allowTraceChanges "trace command is disabled"
      else if c = ascii "logstat" then
        require policy.allowLogStatistics "logstat command is disabled"
      else if c = ascii "subsystem" then
        require policy.allowSubsystemChanges "subsystem command is disabled"
      else if c = ascii "channel" then checkChannelControlPolicy items policy
      else if c = ascii "backend" then checkBackendControlPolicy items policy
      else if c = ascii "logs" then
        require policy.allowLogsCommand "logs command is disabled"
      else if c = ascii "format" then
        require policy.allowFormatCommand "format command is disabled"
      else require policy.allowExtensions "extension commands are disabled"

end Logme
