import Logme.ControlState

/-!
# The `backend` command

The command adds a backend of a named type to a channel or deletes the first
one of the type.  Only the type decides what the command may do, so the
spellings of a type and the options are read here as the source reads them.
-/

namespace Logme

/-! ## Numbers -/

/-- The sign, the digits and what follows them, after spaces; `none` without
digits. -/
def scanInteger (s : Name) : Option (Bool × Name × Name) :=
  let start := s.dropWhile isSpaceByte
  let unsigned : Bool × Name :=
    match start with
    | 0x2D :: rest => (true, rest)
    | 0x2B :: rest => (false, rest)
    | _ => (false, start)
  let isDigit : UInt8 → Bool := fun c => 0x30 ≤ c && c ≤ 0x39
  let digits := unsigned.2.takeWhile isDigit
  if digits = [] then none
  else some (unsigned.1, digits, unsigned.2.dropWhile isDigit)

def digitsValue (digits : Name) : Nat :=
  digits.foldl (fun n c => 10 * n + (c.toNat - 0x30)) 0

/-- `strtoull` of a text that it reads to its end; a value that does not fit
is the largest one. -/
def readUnsigned (s : Name) : Option Nat :=
  match scanInteger (cString s) with
  | none => if cString s = [] then some 0 else none
  | some (negative, digits, rest) =>
      if rest ≠ [] then none
      else if 2 ^ 64 ≤ digitsValue digits then some (2 ^ 64 - 1)
      else if negative then some ((2 ^ 64 - digitsValue digits) % 2 ^ 64)
      else some (digitsValue digits)

/-- `ParseSmartValue`, with suffixes and their factors. -/
def parseSmartValue (suffixes : List (Name × Nat)) (input : Name) : Option Nat :=
  let v := toLowerAscii (trimSpaces input)
  let split : Name × Nat :=
    match suffixes.find? fun suffix => suffix.1.isSuffixOf v with
    | some suffix =>
        (trimSpaces (v.take (v.length - suffix.1.length)), suffix.2)
    | none => (v, 1)
  if v = [] ∨ split.1 = [] then none
  else
    match readUnsigned split.1 with
    | none => none
    | some value =>
        if (2 ^ 64 - 1) / split.2 < value then none else some (value * split.2)

def byteSizeSuffixes : List (Name × Nat) :=
  [(ascii "gb", 1024 ^ 3), (ascii "gib", 1024 ^ 3), (ascii "g", 1024 ^ 3),
    (ascii "mb", 1024 ^ 2), (ascii "mib", 1024 ^ 2), (ascii "m", 1024 ^ 2),
    (ascii "kb", 1024), (ascii "kib", 1024), (ascii "k", 1024),
    (ascii "b", 1)]

def intervalSuffixes : List (Name × Nat) :=
  [(ascii "weeks", 604800000), (ascii "week", 604800000), (ascii "w", 604800000),
    (ascii "days", 86400000), (ascii "day", 86400000), (ascii "d", 86400000),
    (ascii "hours", 3600000), (ascii "hour", 3600000), (ascii "h", 3600000),
    (ascii "minutes", 60000), (ascii "minute", 60000), (ascii "min", 60000),
    (ascii "m", 60000),
    (ascii "seconds", 1000), (ascii "second", 1000), (ascii "sec", 1000),
    (ascii "s", 1000),
    (ascii "milliseconds", 1), (ascii "millisecond", 1), (ascii "ms", 1)]

def parseByteSize (input : Name) : Option Nat :=
  parseSmartValue byteSizeSuffixes input

def parseInterval (input : Name) : Option Nat :=
  parseSmartValue intervalSuffixes input

/-- `std::stoi` of a whole text. -/
def parseIntValue (input : Name) : Option Int :=
  match scanInteger input with
  | some (negative, digits, []) =>
      let value : Int :=
        if negative then -(digitsValue digits : Int) else digitsValue digits
      if -2 ^ 31 ≤ value ∧ value < 2 ^ 31 then some value else none
  | _ => none

def parseBufferPolicy (input : Name) : Option BufferBackendPolicy :=
  let s := toLowerAscii input
  if s = ascii "stop" ∨ s = ascii "stop-appending" ∨
      s = ascii "stop_appending" then some .stopAppending
  else if s = ascii "delete" ∨ s = ascii "delete-oldest" ∨
      s = ascii "delete_oldest" then some .deleteOldest
  else none

/-! ## Types -/

/-- The lowered text without a `backend` at its end. -/
def withoutBackend (input : Name) : Name :=
  let s := toLowerAscii input
  if (ascii "backend").isSuffixOf s then s.take (s.length - 7) else s

/-- The handler's reading of a type. -/
def normalizeBackendType (input : Name) : Option BackendType :=
  let s := withoutBackend input
  if s = ascii "console" ∨ s = ascii "con" then some .console
  else if s = ascii "debug" ∨ s = ascii "dbg" then some .debug
  else if s = ascii "file" then some .file
  else if s = ascii "sharedfile" ∨ s = ascii "shared" ∨ s = ascii "sfile" then
    some .sharedFile
  else if s = ascii "buffer" ∨ s = ascii "buf" then some .buffer
  else if s = ascii "ringbuffer" ∨ s = ascii "ring" ∨ s = ascii "rbuf" then
    some .ringBuffer
  else if s = ascii "consolebackend" then some .console
  else if s = ascii "debugbackend" then some .debug
  else if s = ascii "filebackend" then some .file
  else if s = ascii "sharedfilebackend" then some .sharedFile
  else if s = ascii "bufferbackend" then some .buffer
  else if s = ascii "ringbufferbackend" then some .ringBuffer
  else none

/-! ## Channels named by an option -/

/-- `GetChannelFromArgs` of the commands `backend`, `level` and `flags`: the
channel and the index of the next argument. -/
def getChannelFromArgs (s : ControlState) (arr : List Name) (index : Nat) :
    Except Name (Nat × Nat) :=
  match arr.drop index with
  | option :: name :: _ =>
      if option = ascii "--channel" then
        if name = [] then .error (ascii "invalid channel name")
        else
          match s.logger.getExistingChannel (cString name) with
          | none => .error (ascii "no such channel: " ++ name)
          | some c => .ok (c, index + 2)
      else byDefault
  | _ => byDefault
where
  byDefault : Except Name (Nat × Nat) :=
    match s.logger.getExistingChannel [] with
    | none => .error (ascii "no default channel")
    | some c => .ok (c, index)

def errorReply (error : Name) : Name := ascii "error: " ++ error

def okReply : Name := ascii "ok"

/-! ## The command -/

/-- `CreateConfig`. -/
def createConfig (env : ControlEnvironment) (type : BackendType) :
    BackendConfig where
  type := type
  async := type = .file
  maxSize := if type = .buffer then 4 * 1024 * 1024 else env.maxSizeDefault

/-- One round of the loop over the options, with the argument after the option:
the configuration and whether the option has taken that argument.  An option
that the type does not have is an error. -/
def parseBackendOption (config : BackendConfig) (arg : Name)
    (value : Option Name) : Except Name (BackendConfig × Bool) :=
  if arg = ascii "--async" then
    if config.type.isAsyncSupported then .ok ({ config with async := true }, false)
    else .error (ascii "--async is not supported by this backend")
  else if arg = ascii "--append" ∨ arg = ascii "--overwrite" then
    if config.type = .file then
      .ok ({ config with append := arg = ascii "--append" }, false)
    else .error (arg ++ ascii " is only supported by FileBackend")
  else if arg = ascii "--daily-rotation" ∨ arg = ascii "--no-daily-rotation" then
    if config.type = .file then
      .ok ({ config with dailyRotation := arg = ascii "--daily-rotation" }, false)
    else .error (arg ++ ascii " is only supported by FileBackend")
  else if arg = ascii "--file" then
    match value with
    | none => .error (ascii "missing file name")
    | some value =>
        if config.type.isFile then .ok ({ config with filename := value }, true)
        else .error (ascii "--file is only supported by file backends")
  else if arg = ascii "--max-size" then
    match value with
    | none => .error (ascii "missing max size")
    | some value =>
        match parseByteSize value with
        | none => .error (ascii "invalid max size")
        | some size =>
            if config.type.isFile ∨ config.type = .buffer then
              .ok ({ config with maxSize := size }, true)
            else
              .error (ascii
                "--max-size is only supported by file and buffer backends")
  else if arg = ascii "--max-parts" then
    match value with
    | none => .error (ascii "missing max parts")
    | some value =>
        match parseIntValue value with
        | none => .error (ascii "invalid max parts")
        | some parts =>
            if config.type = .file then .ok ({ config with maxParts := parts }, true)
            else .error (ascii "--max-parts is only supported by FileBackend")
  else if arg = ascii "--timeout" then
    match value with
    | none => .error (ascii "missing timeout")
    | some value =>
        match parseInterval value with
        | none => .error (ascii "invalid timeout")
        | some timeout =>
            if config.type = .sharedFile then
              .ok ({ config with timeout := timeout }, true)
            else .error (ascii "--timeout is only supported by SharedFileBackend")
  else if arg = ascii "--policy" then
    match value with
    | none => .error (ascii "missing buffer policy")
    | some value =>
        match parseBufferPolicy value with
        | none => .error (ascii "invalid buffer policy")
        | some policy =>
            if config.type = .buffer then
              .ok ({ config with policy := policy }, true)
            else .error (ascii "--policy is only supported by BufferBackend")
  else if arg = ascii "--max-items" then
    match value with
    | none => .error (ascii "missing max items")
    | some value =>
        match parseIntValue value with
        | none => .error (ascii "invalid max items")
        | some items =>
            if items ≤ 0 then .error (ascii "invalid max items")
            else if config.type = .ringBuffer then
              .ok ({ config with maxItems := items.toNat }, true)
            else .error (ascii "--max-items is only supported by RingBufferBackend")
  else .error (ascii "unknown backend option: " ++ arg)

/-- The loop over the options. -/
def parseBackendOptions : BackendConfig → List Name → Except Name BackendConfig
  | config, [] => .ok config
  | config, [arg] => (parseBackendOption config arg none).map Prod.fst
  | config, arg :: value :: rest =>
      match parseBackendOption config arg (some value) with
      | .error error => .error error
      | .ok (config, true) => parseBackendOptions config rest
      | .ok (config, false) => parseBackendOptions config (value :: rest)

namespace ControlState

/-- The type of a backend. -/
def backendType (s : ControlState) (backend : ChannelBackend) :
    Option BackendType :=
  (s.backends[backend.id]?).map BackendConfig.type

/-- `FindFirstBackend` of a channel. -/
def findFirstBackend (s : ControlState) (c : Nat) (type : BackendType) :
    Option ChannelBackend :=
  (s.logger.heap[c]?).bind fun channel =>
    channel.backends.find? fun backend => s.backendType backend = some type

/-- `ApplyConfig`: only a `FileBackend` opens its file, and may have something
to report about it. -/
def applyConfig (env : ControlEnvironment) (s : ControlState)
    (config : BackendConfig) : Bool × ControlState :=
  if config.type = .file then
    ((env.openFile config).1,
      (env.openFile config).2.foldl (report env.setting) s)
  else (true, s)

end ControlState

def addBackendCommand (env : ControlEnvironment) (s : ControlState) (c : Nat)
    (type : BackendType) (typeInput : Name) (options : List Name) :
    ControlState × Name :=
  if type.isFile = false ∧ (s.findFirstBackend c type).isSome then
    (s, errorReply (ascii "backend already exists: " ++ typeInput))
  else if s.logger.shutdownCalled then
    (s, errorReply (ascii "unknown backend type: " ++ typeInput))
  else
    match parseBackendOptions (createConfig env type) options with
    | .error error => (s, errorReply error)
    | .ok config =>
        let applied := s.applyConfig env config
        if applied.1 then (applied.2.addBackend c config, okReply)
        else
          (applied.2, errorReply (ascii "failed to apply backend configuration"))

def deleteBackendCommand (s : ControlState) (c : Nat) (type : BackendType)
    (typeInput : Name) : ControlState × Name :=
  match s.findFirstBackend c type with
  | none => (s, errorReply (ascii "no such backend: " ++ typeInput))
  | some backend =>
      (s.modifyChannel c (Channel.removeBackend · backend.id)
        (Channel.removeBackend_subset · _), okReply)

/-- `Logger::CommandBackend`. -/
def commandBackend (env : ControlEnvironment) (s : ControlState)
    (arr : List Name) : ControlState × Name :=
  match getChannelFromArgs s arr 1 with
  | .error error => (s, errorReply error)
  | .ok (c, index) =>
      match arr.drop index with
      | op :: typeInput :: options =>
          if op ≠ ascii "--add" ∧ op ≠ ascii "--delete" then
            (s, errorReply (ascii "unknown option: " ++ op))
          else if typeInput = [] then
            (s, errorReply (ascii "invalid backend type"))
          else
            match normalizeBackendType typeInput with
            | none =>
                (s, errorReply (ascii "unknown backend type: " ++ typeInput))
            | some type =>
                if op = ascii "--add" then
                  addBackendCommand env s c type typeInput options
                else deleteBackendCommand s c type typeInput
      | _ => (s, errorReply (ascii "missing operation"))

end Logme
