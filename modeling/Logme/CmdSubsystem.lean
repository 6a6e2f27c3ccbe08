import Logme.CmdFlags

/-!
# The commands `subsystem`, `trace` and `logstat`

A subsystem name is packed into 64 bits; the library reports a name that is
too long for it.  The reports of `logstat` are texts of the environment.
-/

namespace Logme

/-! ## The `subsystem` command -/

/-- The bytes of a name, the first one lowest. -/
def packName : Name → Nat
  | [] => 0
  | c :: rest => c.toNat + 256 * packName rest

/-- `SID::Build`: the first eight bytes of a C string. -/
def buildSid (name : Name) : Nat := packName ((cString name).take 8)

/-- The warning of `SID::Build`. -/
def truncatedName (name : Name) : Logger.InternalMessage where
  level := .warn
  subsystem := packName (ascii "sidint")
  text := ascii "subsystem name '" ++ cString name ++
    ascii "' is longer than 8 characters and will be truncated"

/-- `SidToString`. -/
def sidToString (sid : Nat) : Name :=
  cString ((List.range 8).map fun i => UInt8.ofNat (sid / 256 ^ i % 256))

/-- `ParseLevelName`. -/
def parseLevelName (name : Name) : Option Level :=
  let value := toLowerAscii name
  if value = ascii "debug" then some .debug
  else if value = ascii "info" ∨ value = ascii "information" then some .info
  else if value = ascii "warn" ∨ value = ascii "warning" then some .warn
  else if value = ascii "err" ∨ value = ascii "error" then some .error
  else if value = ascii "crit" ∨ value = ascii "critical" ∨
      value = ascii "ctitical" then some .critical
  else none

def printSubsystemList (title : Name) (sids : List Nat) : Name :=
  if sids = [] then title ++ ascii ": none" ++ CmdLogs.newline
  else
    title ++ ascii ":" ++ CmdLogs.newline ++ sids.flatMap fun sid =>
      ascii "  " ++ sidToString sid ++ CmdLogs.newline

def printSubsystemLevels (levels : SubsystemLevels) : Name :=
  if levels = [] then ascii "Subsystem levels: none" ++ CmdLogs.newline
  else
    ascii "Subsystem levels:" ++ CmdLogs.newline ++ levels.flatMap fun item =>
      ascii "  " ++ sidToString item.subsystem ++ ascii ": " ++
        levelName item.filterLevel ++ CmdLogs.newline

namespace ControlState

open LowerBound

/-- The subsystem settings change. -/
def withFilters (s : ControlState) (l : Logger) (h : l.heap = s.logger.heap) :
    ControlState :=
  s.withLogger l (by rw [h]; exact s.configured)

def setLevels (s : ControlState) (levels : SubsystemLevels)
    (h : levels.Sorted) : ControlState :=
  s.withFilters (s.logger.publishLevels levels h) rfl

def setBlocked (s : ControlState) (list : List Nat) (h : Sorted id list) :
    ControlState :=
  s.withFilters (s.logger.setBlocked list h) rfl

def setAllowed (s : ControlState) (list : List Nat) (h : Sorted id list) :
    ControlState :=
  s.withFilters (s.logger.setAllowed list h) rfl

def clearSubsystems (s : ControlState) : ControlState :=
  s.withFilters s.logger.clearSubsystemFilters.clearSubsystemLevels rfl

def removeLevel (s : ControlState) (sid : Nat) : Option ControlState :=
  match h : s.logger.subsystemLevels.remove sid with
  | some levels => some (s.setLevels levels (s.logger.levelsSorted.remove h))
  | none => none

end ControlState

/-- The options that name a subsystem, which is known by `sid`. -/
def subsystemOperation (s : ControlState) (opt name : Name) (sid : Nat)
    (response : Name) : ControlState × Name :=
  let l := s.logger
  if opt = ascii "--block" then
    if LowerBound.contains sid l.blockedSubsystems then
      (s, errorReply (ascii "already blocked: " ++ name))
    else
      (s.setBlocked _ (Logger.sorted_addSubsystemToList l.blockedSorted sid),
        okReply)
  else if opt = ascii "--unblock" then
    if LowerBound.contains sid l.blockedSubsystems then
      (s.setBlocked _ (Logger.sorted_removeSubsystemFromList l.blockedSorted sid),
        okReply)
    else (s, errorReply (ascii "no such blocked subsystem: " ++ name))
  else if opt = ascii "--allow" then
    if LowerBound.contains sid l.allowedSubsystems then
      (s, errorReply (ascii "already allowed: " ++ name))
    else
      (s.setAllowed _ (Logger.sorted_addSubsystemToList l.allowedSorted sid),
        okReply)
  else if opt = ascii "--disallow" then
    if LowerBound.contains sid l.allowedSubsystems then
      (s.setAllowed _ (Logger.sorted_removeSubsystemFromList l.allowedSorted sid),
        okReply)
    else (s, errorReply (ascii "no such allowed subsystem: " ++ name))
  else if opt = ascii "--check" then
    let answer (b : Bool) : Name :=
      (if b then ascii "true" else ascii "false") ++ CmdLogs.newline
    (s, response ++ ascii "Blocked: " ++
      answer (LowerBound.contains sid l.blockedSubsystems) ++
      ascii "Allowed: " ++
      answer (LowerBound.contains sid l.allowedSubsystems) ++
      match l.subsystemLevels.get sid with
      | none => ascii "Level: channel default"
      | some level => ascii "Level: " ++ levelName level)
  else (s, response ++ errorReply (ascii "invalid arguments"))

def setLevelCommand (s : ControlState) (sid : Nat) (levelText : Name) :
    ControlState × Name :=
  match parseLevelName levelText with
  | none => (s, errorReply (ascii "invalid level: " ++ levelText))
  | some level =>
      (s.setLevels _ (s.logger.levelsSorted.set sid level), okReply)

def removeLevelCommand (s : ControlState) (sid : Nat) (name : Name) :
    ControlState × Name :=
  match s.removeLevel sid with
  | none =>
      (s, errorReply (ascii "no level override for subsystem: " ++ name))
  | some s => (s, okReply)

/-- The options with a subsystem name; a name that is too long is reported when
it is packed. -/
def namedSubsystem (env : ControlEnvironment) (s : ControlState) (opt name : Name)
    (arguments : List Name) (response : Name) : ControlState × Name :=
  let sid := buildSid name
  let s :=
    if 8 < (cString name).length then s.report env.setting (truncatedName name)
    else s
  if sid = 0 then
    if (opt = ascii "--set-level" ∧ arguments.length = 1) ∨
        (opt = ascii "--remove-level" ∧ arguments = []) then
      (s, errorReply (ascii "invalid subsystem name"))
    else (s, response ++ errorReply (ascii "invalid subsystem name"))
  else
    match arguments with
    | [levelText] =>
        if opt = ascii "--set-level" then setLevelCommand s sid levelText
        else subsystemOperation s opt name sid response
    | [] =>
        if opt = ascii "--remove-level" then removeLevelCommand s sid name
        else subsystemOperation s opt name sid response
    | _ => subsystemOperation s opt name sid response

/-- `Logger::CommandSubsystem`. -/
def commandSubsystem (env : ControlEnvironment) (s : ControlState)
    (arr : List Name) (response : Name) : ControlState × Name :=
  let l := s.logger
  match arr.drop 1 with
  | [] =>
      (s, response ++
        printSubsystemList (ascii "Blocked subsystems") l.blockedSubsystems ++
        printSubsystemList (ascii "Allowed subsystems") l.allowedSubsystems ++
        printSubsystemLevels l.subsystemLevels)
  | [opt] =>
      if opt = ascii "--clear" then (s.clearSubsystems, okReply)
      else if opt = ascii "--clear-blocked" then
        (s.setBlocked [] Logger.sorted_nil, okReply)
      else if opt = ascii "--clear-allowed" then
        (s.setAllowed [] Logger.sorted_nil, okReply)
      else if opt = ascii "--clear-levels" then
        (s.setLevels [] SubsystemLevels.sorted_nil, okReply)
      else (s, response ++ errorReply (ascii "invalid arguments"))
  | opt :: name :: arguments => namedSubsystem env s opt name arguments response

/-! ## The `trace` command -/

/-- The loop of `WildcardMatchInternal`, with the pattern after the last star
and the text to retry from. -/
def wildcardLoop : Nat → Name → Name → Option (Name × Name) → Bool
  | 0, _, _, _ => false
  | _ + 1, [], pattern, _ => pattern.all (· = 0x2A)
  | fuel + 1, c :: text, pattern, star =>
      if pattern.head? = some 0x3F ∨ pattern.head? = some c then
        wildcardLoop fuel text pattern.tail star
      else if pattern.head? = some 0x2A then
        wildcardLoop fuel (c :: text) pattern.tail (some (pattern.tail, c :: text))
      else
        match star with
        | none => false
        | some (afterStar, retry) =>
            wildcardLoop fuel retry.tail afterStar (some (afterStar, retry.tail))

def wildcardMatch (text pattern : Name) : Bool :=
  wildcardLoop ((text.length + 1) * (text.length + pattern.length + 2)) text
    pattern none

def makeTracePointKey (point : TracePoint) : Name :=
  point.module ++ ascii ":" ++ point.method ++ ascii ":" ++
    signedBytes point.line

def tracePointMatch (point : TracePoint) (pattern : Name) : Bool :=
  pattern = [] ||
    wildcardMatch (cString (toLowerAscii (makeTracePointKey point)))
      (cString (toLowerAscii pattern))

namespace ControlState

/-- An operation on the trace points that match, and how many they are. -/
def onTracePoints (s : ControlState) (pattern : Name)
    (f : TracePoint → TracePoint) : Nat × ControlState :=
  ((s.tracePoints.filter fun point => tracePointMatch point pattern).length,
    { s with
      tracePoints := s.tracePoints.map fun point =>
        if tracePointMatch point pattern then f point else point })

end ControlState

def dumpTracePoints (s : ControlState) (pattern : Name) : Name :=
  let points := s.tracePoints.filter fun point => tracePointMatch point pattern
  if points = [] then ascii "none" ++ CmdLogs.newline
  else points.flatMap fun point =>
    (if point.enabled then ascii "on  " else ascii "off ") ++
      makeTracePointKey point ++ ascii " hits=" ++ decimalBytes point.counter ++
      CmdLogs.newline

/-- `Logger::CommandTrace`. -/
def commandTrace (s : ControlState) (arr : List Name) : ControlState × Name :=
  let pattern := (arr[2]?).getD []
  match arr[1]? with
  | none => (s, dumpTracePoints s pattern)
  | some operation =>
      if operation = ascii "list" ∨ operation = ascii "stat" ∨
          operation = ascii "stats" then
        (s, dumpTracePoints s pattern)
      else if operation = ascii "enable" ∨ operation = ascii "disable" then
        if arr.length < 3 then
          (s, errorReply (ascii "missing trace point pattern"))
        else
          let enabled : Bool := operation = ascii "enable"
          let changed := s.onTracePoints pattern fun point =>
            { point with enabled := enabled }
          (changed.2, ascii "ok: " ++ decimalBytes changed.1 ++
            if enabled then ascii " enabled" else ascii " disabled")
      else if operation = ascii "reset" then
        let changed := s.onTracePoints pattern fun point =>
          { point with counter := 0 }
        (changed.2, ascii "ok: " ++ decimalBytes changed.1 ++ ascii " reset")
      else (s, errorReply (ascii "unknown trace command: " ++ operation))

/-! ## The `logstat` command -/

namespace StatisticsSession

def start (session : StatisticsSession) : StatisticsSession :=
  match session.collector with
  | some collector => { session with collector := some collector.reset, active := true }
  | none =>
      { collector := some ⟨session.nextGeneration, fun _ => none, [], []⟩
        active := true
        nextGeneration := session.nextGeneration + 1 }

def stop (session : StatisticsSession) : StatisticsSession :=
  { session with active := false }

def reset (session : StatisticsSession) : StatisticsSession :=
  { session with collector := session.collector.map LogStatisticsCollector.reset }

end StatisticsSession

/-- `Logger::CommandLogStatistics`; the operations that print a report, and the
errors in their options, leave the statistics alone. -/
def commandLogStatistics (env : ControlEnvironment) (s : ControlState)
    (arr : List Name) : ControlState × Name :=
  let operation := (arr[1]?).getD (ascii "status")
  if operation = ascii "start" then
    ({ s with statistics := s.statistics.start },
      ascii "ok: log statistics started")
  else if operation = ascii "stop" then
    ({ s with statistics := s.statistics.stop },
      ascii "ok: log statistics stopped")
  else if operation = ascii "reset" then
    ({ s with statistics := s.statistics.reset },
      ascii "ok: log statistics reset")
  else (s, env.shows s arr)

end Logme
