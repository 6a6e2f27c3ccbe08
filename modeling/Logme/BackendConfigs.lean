import Logme.ConfigValue
import Logme.ConsoleManager
import Logme.RotatingLog

/-!
# Configurations of backends

Every type of backend has its own configuration, which reads its settings from
the members of a JSON object.
-/

namespace Logme

structure FileBackendConfig where
  async : Bool := true
  append : Bool := true
  maxSize : Nat
  onSizeLimit : SizeLimitPolicy := .truncate
  filename : Name := []
  archiveFilename : Name := []
  dailyRotation : Bool := false
  timeRotation : TimeRotationMode := .none
  maxParts : Int := 2
  retentionMaxAge : Nat := 0
  retentionMaxTotalSize : Nat := 0
  retentionCleanOnStart : Bool := true
  gzipCompression : Bool := false
  deriving DecidableEq

structure SharedFileBackendConfig where
  maxSize : Nat
  timeout : Nat := 10
  filename : Name := []
  deriving DecidableEq

structure ConsoleBackendConfig where
  async : Bool := false
  hasQueueLimits : Bool := false
  queueRecordLimit : Nat := 8192
  queueByteLimit : Nat := 4 * 1024 * 1024
  hasOverflowPolicy : Bool := false
  overflowPolicy : ConsoleOverflowPolicy := .block
  deriving DecidableEq

structure BufferBackendConfig where
  maxSize : Nat := 4 * 1024 * 1024
  policy : BufferBackendPolicy := .stopAppending
  deriving DecidableEq

structure WindowsEventLogBackendConfig where
  async : Bool := false
  source : Name := []
  eventId : Nat := 1000
  category : Nat := 0
  deriving DecidableEq

/-- The configuration of a backend, by its type; a debug backend and a callback
have that of the base class. -/
inductive LoadedBackend where
  | file (config : FileBackendConfig)
  | sharedFile (config : SharedFileBackendConfig)
  | console (config : ConsoleBackendConfig)
  | buffer (config : BufferBackendConfig)
  | ringBuffer (maxItems : Nat)
  | windowsEventLog (config : WindowsEventLogBackendConfig)
  | debug (async : Bool)
  | callback (async : Bool)
  deriving DecidableEq

/-- A configuration with the text that named its type. -/
structure TypedBackend where
  type : Name
  config : LoadedBackend
  deriving DecidableEq

namespace JsonValue

/-! ## Values of settings -/

/-- `SmartValue` of a member; a negative number wraps around. -/
def smartValue (parse : Name → Option Nat) (value : JsonValue) (default : Nat) : Nat :=
  match value.asInt? with
  | some n => (n % 2 ^ 64).toNat
  | none => (value.asString?.bind parse).getD default

/-- An integer or a text that `parse` may read; `none` when there is no member. -/
def sizeMember? (o : JsonValue) (parse : Name → Option Nat) (name : Name)
    (default : Nat) (text : Name) : Parsed (Option Nat) := do
  match ← o.member? name with
  | none => pure none
  | some value =>
      if value.asInt?.isSome ∨ value.asString?.isSome then
        pure (some (value.smartValue parse default))
      else Parsed.reject text

/-- The name of a setting in a message. -/
def quoted (name : Name) : Name := ascii "\"" ++ name ++ ascii "\""

def notBoolean (name : Name) : Name := quoted name ++ ascii " is not a boolean value"

def notString (name : Name) : Name := quoted name ++ ascii " is not a string value"

def notSize (name : Name) : Name :=
  quoted name ++ ascii " is not an integer or a string value"

def unsupported (name value : Name) : Name :=
  ascii "unsupported value of " ++ quoted name ++ ascii ": " ++ cString value

/-- A text without spaces around it and in lower case. -/
def keyword (value : Name) : Name := toLowerAscii (trimSpaces value)

/-- `BackendConfig::Parse` -/
def parseAsync (o : JsonValue) (async : Bool) : Parsed Bool := do
  return (← o.boolMember? (ascii "async") (notBoolean (ascii "async"))).getD async

/-- The member `file`, which must be there. -/
def parseFile (o : JsonValue) : Parsed Name := do
  match ← o.member? (ascii "file") with
  | none => Parsed.reject (ascii "\"file\" is not specified")
  | some value => Parsed.require value.asString? (ascii "\"file\" is not a string")

/-! ## FileBackendConfig -/

def parseRetentionInteger (value : JsonValue) (name : Name) : Parsed Int := do
  let n ← Parsed.require value.asInt? (quoted name ++ ascii " is not an integer")
  if n < 0 then Parsed.reject (quoted name ++ ascii " must not be negative") else pure n

/-- `ParseRetentionInterval` and `ParseRetentionByteSize`. -/
def parseRetentionValue (parse : Name → Option Nat) (value : JsonValue) (name : Name) :
    Parsed Nat := do
  match value.asInt? with
  | some n =>
      if n < 0 then Parsed.reject (quoted name ++ ascii " must not be negative")
      else pure n.toNat
  | none =>
      let s ← Parsed.require value.asString? (notSize name)
      Parsed.require (parse s) (unsupported name s)

def parseOnSizeLimit (o : JsonValue) (policy : SizeLimitPolicy) :
    Parsed SizeLimitPolicy := do
  let name := ascii "on-size-limit"
  match ← o.stringMember? name (notString name) with
  | none => pure policy
  | some value =>
      let v := keyword value
      if v = [] ∨ v = ascii "truncate" then pure .truncate
      else if v = ascii "rotate" then pure .rotate
      else Parsed.reject (unsupported name v)

/-- `DailyRotation` and `TimeRotation`. -/
def parseRotation (o : JsonValue) (rotation : Bool × TimeRotationMode) :
    Parsed (Bool × TimeRotationMode) := do
  let name := ascii "rotation"
  match ← o.stringMember? name (notString name) with
  | none => pure rotation
  | some value =>
      let v := keyword value
      if v = ascii "hourly" then pure (false, .hourly)
      else if v = ascii "daily" then pure (true, .daily)
      else if v = ascii "weekly" then pure (false, .weekly)
      else if v = ascii "monthly" then pure (false, .monthly)
      else if v = [] ∨ v = ascii "none" ∨ v = ascii "off" ∨ v = ascii "disabled" then
        pure (false, .none)
      else Parsed.reject (unsupported name v)

def parseMaxParts (o : JsonValue) : Parsed (Option Int) := do
  match ← o.member? (ascii "max-parts") with
  | none => pure none
  | some value => some <$> parseRetentionInteger value (ascii "max-parts")

/-- `retention.max-files`, which must agree with `max-parts`. -/
def parseMaxFiles (retention : JsonValue) (parts : Option Int) (maxParts : Int) :
    Parsed Int := do
  match ← retention.member? (ascii "max-files") with
  | none => pure (parts.getD maxParts)
  | some value =>
      let maxFiles ← parseRetentionInteger value (ascii "retention.max-files")
      if parts.any (· ≠ maxFiles) then
        Parsed.reject (ascii
          "\"max-parts\" and \"retention.max-files\" specify different values")
      else pure maxFiles

def parseRetention (o : JsonValue) (parts : Option Int) (config : FileBackendConfig) :
    Parsed FileBackendConfig := do
  match ← o.member? (ascii "retention") with
  | none => pure { config with maxParts := parts.getD config.maxParts }
  | some retention =>
      if retention.asObject?.isNone then
        Parsed.reject (ascii "\"retention\" is not an object")
      else
        let maxParts ← parseMaxFiles retention parts config.maxParts
        let maxAge ← match ← retention.member? (ascii "max-age") with
          | none => pure config.retentionMaxAge
          | some value => parseRetentionValue parseInterval value (ascii "retention.max-age")
        let maxTotalSize ← match ← retention.member? (ascii "max-total-size") with
          | none => pure config.retentionMaxTotalSize
          | some value =>
              parseRetentionValue parseByteSize value (ascii "retention.max-total-size")
        let cleanOnStart ← retention.boolMember? (ascii "clean-on-start")
          (notBoolean (ascii "retention.clean-on-start"))
        return { config with
          maxParts := maxParts
          retentionMaxAge := maxAge
          retentionMaxTotalSize := maxTotalSize
          retentionCleanOnStart := cleanOnStart.getD config.retentionCleanOnStart }

def parseCompression (o : JsonValue) (gzip : Bool) : Parsed Bool := do
  let name := ascii "compression"
  match ← o.stringMember? name (notString name) with
  | none => pure gzip
  | some value =>
      let v := keyword value
      if v = ascii "gz" ∨ v = ascii "gzip" then pure true
      else if v = [] ∨ v = ascii "none" ∨ v = ascii "off" ∨ v = ascii "disabled" then
        pure false
      else Parsed.reject (unsupported name v)

/-- `{index}` -/
def indexPlaceholder : Name := ascii "\x7bindex\x7d"

/-- What rotation at the size limit asks of the archive name. -/
def checkArchive (config : FileBackendConfig) : Parsed Unit :=
  if config.onSizeLimit = .truncate then pure ()
  else if config.archiveFilename = [] then
    Parsed.reject (ascii
      "\"archive\" is required when \"on-size-limit\" is \"rotate\"")
  else if ¬ indexPlaceholder <:+: config.archiveFilename then
    Parsed.reject (ascii "\"archive\" must contain " ++ indexPlaceholder ++
      ascii " when \"on-size-limit\" is \"rotate\"")
  else pure ()

def parseFileBackend (maxSizeDefault : Nat) (o : JsonValue) :
    Parsed FileBackendConfig := do
  let config : FileBackendConfig := { maxSize := maxSizeDefault }
  let async ← o.parseAsync config.async
  let append ← o.boolMember? (ascii "append") (notBoolean (ascii "append"))
  let maxSize ← o.sizeMember? parseByteSize (ascii "max-size") config.maxSize
    (notSize (ascii "max-size"))
  let onSizeLimit ← o.parseOnSizeLimit config.onSizeLimit
  let rotation ← o.parseRotation (config.dailyRotation, config.timeRotation)
  let parts ← o.parseMaxParts
  let config ← o.parseRetention parts { config with
    async := async
    append := append.getD config.append
    maxSize := maxSize.getD config.maxSize
    onSizeLimit := onSizeLimit
    dailyRotation := rotation.1
    timeRotation := rotation.2 }
  let gzip ← o.parseCompression config.gzipCompression
  let archive ← o.stringMember? (ascii "archive") (ascii "\"archive\" is not a string")
  let config := { config with
    gzipCompression := gzip
    archiveFilename := archive.getD config.archiveFilename }
  checkArchive config
  let filename ← o.parseFile
  return { config with filename := filename }

/-! ## The other types -/

/-- The default of the timeout is `MaxSize`, as in the source. -/
def parseSharedFileBackend (maxSizeDefault : Nat) (o : JsonValue) :
    Parsed SharedFileBackendConfig := do
  let config : SharedFileBackendConfig := { maxSize := maxSizeDefault }
  let maxSize ← o.sizeMember? parseByteSize (ascii "max-size") config.maxSize
    (notSize (ascii "max-size"))
  let maxSize := maxSize.getD config.maxSize
  let timeout ← o.sizeMember? parseInterval (ascii "timeout") maxSize
    (notSize (ascii "timeout"))
  let filename ← o.parseFile
  return { maxSize := maxSize, timeout := timeout.getD config.timeout, filename := filename }

def parseConsoleOverflowPolicy (text : Name) : Option ConsoleOverflowPolicy :=
  let v := keyword text
  if v = ascii "block" then some .block
  else if v = ascii "drop-new" ∨ v = ascii "drop_new" then some .dropNew
  else if v = ascii "drop-oldest" ∨ v = ascii "drop_oldest" then some .dropOldest
  else none

/-- A negative number passes the check and is then no unsigned one. -/
def parseQueueRecordLimit (o : JsonValue) : Parsed (Option Nat) := do
  match ← o.member? (ascii "queue-record-limit") with
  | none => pure none
  | some value =>
      match value.asUInt64?, value.asInt? with
      | some n, _ => pure (some n)
      | none, some _ => Parsed.throws
      | none, none => Parsed.reject (ascii "\"queue-record-limit\" is not an integer")

def parseQueueByteLimit (o : JsonValue) (default : Nat) : Parsed (Option Nat) := do
  match ← o.member? (ascii "queue-byte-limit") with
  | none => pure none
  | some value =>
      if value.asUInt64?.isSome ∨ value.asInt?.isSome ∨ value.asString?.isSome then
        pure (some (value.smartValue parseByteSize default))
      else Parsed.reject (notSize (ascii "queue-byte-limit"))

def parseConsoleBackend (o : JsonValue) : Parsed ConsoleBackendConfig := do
  let config : ConsoleBackendConfig := {}
  let async ← o.parseAsync config.async
  let records ← o.parseQueueRecordLimit
  let bytes ← o.parseQueueByteLimit config.queueByteLimit
  let policy ← o.stringMember? (ascii "overflow-policy")
    (ascii "\"overflow-policy\" is not a string")
  let overflowPolicy ← match policy with
    | none => pure config.overflowPolicy
    | some text =>
        Parsed.require (parseConsoleOverflowPolicy text)
          (ascii "\"overflow-policy\" has unsupported value")
  return {
    async := async
    hasQueueLimits := records.isSome || bytes.isSome
    queueRecordLimit := records.getD config.queueRecordLimit
    queueByteLimit := bytes.getD config.queueByteLimit
    hasOverflowPolicy := policy.isSome
    overflowPolicy := overflowPolicy }

def policyValues : List (String × BufferBackendPolicy) :=
  [("", .stopAppending), ("stop", .stopAppending), ("stop-appending", .stopAppending),
    ("stop_appending", .stopAppending), ("delete", .deleteOldest),
    ("delete-oldest", .deleteOldest), ("delete_oldest", .deleteOldest)]

/-- An unknown policy is ignored. -/
def parseBufferBackend (o : JsonValue) : Parsed BufferBackendConfig := do
  let config : BufferBackendConfig := {}
  let policy ← o.stringMember? (ascii "policy") (notString (ascii "policy"))
  let maxSize ← o.sizeMember? parseByteSize (ascii "max-size") config.maxSize
    (notSize (ascii "max-size"))
  return {
    maxSize := maxSize.getD config.maxSize
    policy := (policy.bind (name2Value policyValues)).getD config.policy }

def parseRingBufferBackend (o : JsonValue) : Parsed Nat := do
  match ← o.member? (ascii "max-items") with
  | none => pure 1000
  | some value =>
      let n ← Parsed.require value.asInt? (ascii "\"max-items\" is not an integer")
      if n < 1 then Parsed.reject (ascii "\"max-items\" must be greater than 0")
      else pure n.toNat

/-- An unsigned integer of 32 bits. -/
def unsignedMember? (o : JsonValue) (name : Name) : Parsed (Option Nat) := do
  match ← o.member? name with
  | none => pure none
  | some value =>
      some <$> Parsed.require value.asUInt? (quoted name ++ ascii " is not an unsigned integer")

def parseWindowsEventLogBackend (o : JsonValue) :
    Parsed WindowsEventLogBackendConfig := do
  let config : WindowsEventLogBackendConfig := {}
  let async ← o.parseAsync config.async
  let source ← o.stringMember? (ascii "source") (ascii "\"source\" is not a string")
  let eventId ← o.unsignedMember? (ascii "event-id")
  let category ← o.unsignedMember? (ascii "category")
  if category.any (2 ^ 16 ≤ ·) then
    Parsed.reject (ascii "\"category\" value is too large")
  else
    return {
      async := async
      source := source.getD config.source
      eventId := eventId.getD config.eventId
      category := category.getD config.category }

/-- `Create`, `CreateConfig` and `Parse` of a type; `none` for an unknown one. -/
def parseBackendConfig? (maxSizeDefault : Nat) (type : Name) (o : JsonValue) :
    Option (Parsed LoadedBackend) :=
  if type = ascii "BufferBackend" then some (.buffer <$> o.parseBufferBackend)
  else if type = ascii "CallbackBackend" then some (.callback <$> o.parseAsync false)
  else if type = ascii "RingBufferBackend" then
    some (.ringBuffer <$> o.parseRingBufferBackend)
  else if type = ascii "ConsoleBackend" then some (.console <$> o.parseConsoleBackend)
  else if type = ascii "DebugBackend" then some (.debug <$> o.parseAsync false)
  else if type = ascii "FileBackend" then
    some (.file <$> o.parseFileBackend maxSizeDefault)
  else if type = ascii "SharedFileBackend" then
    some (.sharedFile <$> o.parseSharedFileBackend maxSizeDefault)
  else if type = ascii "WindowsEventLogBackend" then
    some (.windowsEventLog <$> o.parseWindowsEventLogBackend)
  else none

end JsonValue
end Logme
