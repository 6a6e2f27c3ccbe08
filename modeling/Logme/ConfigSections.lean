import Logme.CreateChannels
import Logme.LogOverloads
import Logme.CmdFlags

/-!
# The sections of a configuration

One parser for each member of a configuration.  A parser collects settings and
reports what it does not accept; applying the settings is left to the caller.
-/

namespace Logme

namespace Parsed

/-- `LogmeE(CHINT, …)`, and the parser goes on. -/
def complain (text : Name) : Parsed Unit := ⟨[⟨.error, true, text⟩], .value ()⟩

end Parsed

namespace JsonValue

def intMember? (v : JsonValue) (name text : Name) : Parsed (Option Int) := do
  match ← v.member? name with
  | none => pure none
  | some value => some <$> Parsed.require value.asInt? text

/-- The members of a value that has to be an object. -/
def requireObject (v : JsonValue) (text : Name) : Parsed (List (Name × JsonValue)) :=
  Parsed.require v.asObject? text

end JsonValue

/-! ## The member `control` -/

structure ControlConfig where
  enable : Bool := false
  port : Int := 0
  interface : Nat := 0
  discoveryEnable : Bool := true
  discoveryNamePrefix : Option Name := none

/-- What loading a configuration depends on besides the text: the JSON reader, what
the library was built for, the result of `inet_addr`, the default of `MaxSize`,
whether a control server could be started, and the settings of the thread. -/
structure LoaderEnvironment extends ConfigEnvironment where
  parse : Name → Except Name JsonValue
  build : BuildTarget
  inetAddr : Name → Nat
  maxSizeDefault : Nat
  startServer : ControlConfig → Bool
  thread : ThreadSettings

/-- The address of an interface; a text that `inet_addr` does not read is
rejected without a report. -/
def parseInterface (env : LoaderEnvironment) (iface : Name) : Parsed Nat :=
  if iface = ascii "loopback" ∨ iface = ascii "127.0.0.1" then pure 0x7F000001
  else if iface = [] ∨ iface = ascii "any" ∨ iface = ascii "all" then pure 0
  else
    let address := env.inetAddr (cString iface)
    if address = 0xFFFFFFFF then Parsed.fail else pure address

def parseDiscovery (o : JsonValue) (cc : ControlConfig) : Parsed ControlConfig := do
  match ← o.member? (ascii "discovery") with
  | none => pure cc
  | some d =>
      let _ ← d.requireObject (ascii "\"control.discovery\" is not an object")
      let enable ← d.boolMember? (ascii "enable")
        (ascii "\"control.discovery.enable\" is not a boolean value")
      let namePrefix ← d.stringMember? (ascii "namePrefix")
        (ascii "\"control.discovery.namePrefix\" is not a string value")
      return { cc with
        discoveryEnable := enable.getD cc.discoveryEnable
        discoveryNamePrefix := (namePrefix.map cString).orElse fun _ => cc.discoveryNamePrefix }

def parseControlConfig (env : LoaderEnvironment) (root : JsonValue) :
    Parsed ControlConfig := do
  match ← root.member? (ascii "control") with
  | none => pure {}
  | some o =>
      let _ ← o.requireObject (ascii "\"control\" is not an object")
      let enable ← o.boolMember? (ascii "enable")
        (ascii "\"control.enable\" is not a boolean value")
      let port ← o.intMember? (ascii "port")
        (ascii "\"control.port\" is not an integer value")
      let iface ← o.stringMember? (ascii "interface")
        (ascii "\"control.interface\" is not a string value")
      let address ← match iface with
        | none => pure 0
        | some iface => parseInterface env iface
      let cc ← parseDiscovery o
        { enable := enable.getD false, port := port.getD 0, interface := address }
      if cc.enable ∧ cc.port = 0 then
        Parsed.warn (ascii "Disable control interface because of zero value of Port")
        return { cc with enable := false }
      else pure cc

/-! ## The member `structured_fields` -/

/-- The names that a configuration gives to the fields. -/
abbrev OutputFieldNameMap := OutputField → Option Name

def fieldConfig : List (String × OutputField) :=
  [("timestamp", .timestamp), ("level", .level), ("processid", .processId),
    ("process_id", .processId), ("threadid", .threadId), ("thread_id", .threadId),
    ("channel", .channel), ("subsystem", .subsystem), ("file", .file), ("line", .line),
    ("method", .method), ("message", .message), ("duration", .duration)]

def parseFieldName (names : OutputFieldNameMap) (member : Name × JsonValue) :
    Parsed OutputFieldNameMap := do
  match name2Value fieldConfig member.1 with
  | none =>
      Parsed.warn (ascii "structured_fields." ++ cString member.1 ++ ascii " is unsupported")
      pure names
  | some field =>
      let name ← Parsed.require member.2.asString?
        (ascii "structured_fields." ++ cString member.1 ++ ascii " is not a string value")
      pure (Function.update names field (some name))

/-- `ParseStructuredFieldNames` up to its call of `SetOutputFieldNames`; `none`
where it does not come to it. -/
def parseStructuredFieldNames (root : JsonValue) : Parsed (Option OutputFieldNameMap) := do
  match ← root.member? (ascii "structured_fields") with
  | none => pure none
  | some o =>
      let members ← o.requireObject (ascii "\"structured_fields\" is not an object")
      some <$> members.foldlM parseFieldName (fun _ => none)

/-- `SetOutputFieldNames`: an empty name changes nothing. -/
def setOutputFieldNames (names : OutputFieldNameMap) (current : OutputFieldNames) :
    OutputFieldNames := fun field =>
  match names field with
  | none => current field
  | some name => if name = [] then current field else name

/-! ## The member `flags` -/

abbrev OutputFlagsMap := List (Name × OutputFlags)

def flagConfig : List (String × Nat × Nat × FlagKind) :=
  [("timestamp", 0, 2, .value timeStampValues), ("signature", 2, 1, .switch),
    ("location", 3, 2, .value locationValues), ("method", 5, 1, .switch),
    ("eol", 6, 1, .switch), ("errorprefix", 7, 1, .switch), ("duration", 8, 1, .switch),
    ("threadid", 9, 1, .switch), ("processid", 10, 1, .switch), ("channel", 11, 1, .switch),
    ("highlight", 12, 1, .switch), ("console", 13, 3, .value consoleValues),
    ("disablelink", 16, 1, .switch), ("transition", 17, 1, .switch),
    ("subsystem", 18, 1, .switch), ("format", 19, 2, .value formatValues)]

/-- A report about a flag of a set of flags. -/
def flagText (flagsName name : Name) (text : String) : Name :=
  ascii "flags." ++ cString flagsName ++ ascii "." ++ cString name ++ ascii text

def processFlag (m : OutputFlagsMap) (flagsName : Name) (f : OutputFlags)
    (member : Name × JsonValue) : Parsed OutputFlags := do
  let text := flagText flagsName member.1
  let unsupported : Parsed OutputFlags := do
    Parsed.warn (text " contains unsupported value")
    pure f
  if toLowerAscii member.1 = ascii "inherit" then
    let parent ← Parsed.require member.2.asString? (text " is not a string value")
    Parsed.require (m.lookup parent) (text " is not a string value")
  else
    match flagConfig.find? fun flag => toLowerAscii member.1 = ascii flag.1 with
    | none => unsupported
    | some (_, start, width, .switch) =>
        let on ← Parsed.require member.2.asBool? (text " is not a boolean value")
        pure (f.setField start width (if on then 1 else 0))
    | some (_, start, width, .value values) =>
        let name ← Parsed.require member.2.asString? (text " is not a string value")
        match findNamed values name with
        | none => unsupported
        | some v => pure (f.setField start width v)

def parseFlagSet (m : OutputFlagsMap) (member : Name × JsonValue) :
    Parsed OutputFlagsMap := do
  let names ← member.2.requireObject
    (ascii "\"flags." ++ cString member.1 ++ ascii "\" is not an object")
  let f ← names.foldlM (processFlag m member.1) .zero
  pure ((member.1, f) :: m)

def parseFlags (root : JsonValue) : Parsed OutputFlagsMap := do
  match ← root.member? (ascii "flags") with
  | none => pure []
  | some a =>
      let names ← a.requireObject (ascii "\"flags\" is not an object")
      names.foldlM parseFlagSet []

/-! ## The member `channels` -/

def levelFromName (name : Name) : Option Level := findNamed levelValues name

/-- The path of a channel in a report, and that of a backend. -/
def channelPlace (i : Nat) : Name :=
  ascii "\"channels[" ++ decimalBytes i ++ ascii "]"

def backendPlace (i j : Nat) : Name :=
  channelPlace i ++ ascii ".backends[" ++ decimalBytes j ++ ascii "]"

def platformOK (build : BuildTarget) (o : JsonValue) (place : Name) : Parsed Bool := do
  match ← o.stringMember? (ascii "platform") (place ++ ascii ".platform\" is not a string") with
  | none => pure true
  | some platform => checkPlatform build platform

def buildOK (build : BuildTarget) (o : JsonValue) (place : Name) : Parsed Bool := do
  match ← o.stringMember? (ascii "build") (place ++ ascii ".build\" is not a string") with
  | none => pure true
  | some target => checkBuild build target

/-- Whether a channel or a backend is for this platform and this build. -/
def targetOK (build : BuildTarget) (o : JsonValue) (place : Name) : Parsed Bool := do
  if ← platformOK build o place then buildOK build o place else pure false

def getChannelName (o : JsonValue) (i : Nat) : Parsed Name := do
  match ← o.member? (ascii "name") with
  | none => Parsed.reject (channelPlace i ++ ascii "\" does not contain \"name\" member")
  | some name =>
      Parsed.require name.asString? (channelPlace i ++ ascii ".name\" is not a string")

def getFilterLevel (o : JsonValue) (i : Nat) (level : Level) : Parsed Level := do
  match ← o.stringMember? (ascii "level")
      (channelPlace i ++ ascii ".level\" is not a string") with
  | none => pure level
  | some name =>
      Parsed.require (levelFromName name)
        (channelPlace i ++ ascii ".level\" value is not supported")

def getEnabled (o : JsonValue) (i : Nat) (enable : Bool) : Parsed Bool := do
  return (← o.boolMember? (ascii "enable")
    (channelPlace i ++ ascii ".enable\" is not a bool")).getD enable

def getChannelFlags (m : OutputFlagsMap) (o : JsonValue) (i : Nat) (f : OutputFlags) :
    Parsed OutputFlags := do
  match ← o.stringMember? (ascii "flags")
      (channelPlace i ++ ascii ".flags\" is not a string") with
  | none => pure f
  | some name =>
      Parsed.require (m.lookup name) (channelPlace i ++ ascii ".flags\" is not defined")

/-- A link that is not a string is reported and left out. -/
def getLink (o : JsonValue) (i : Nat) : Parsed (Option Name) := do
  match ← o.member? (ascii "link") with
  | none => pure none
  | some (.string link) => pure (some link)
  | some _ =>
      Parsed.complain (channelPlace i ++ ascii ".link\" is not a string")
      pure none

/-- After a shutdown no type is supported. -/
def parseBackend (env : LoaderEnvironment) (shutdown : Bool) (o : JsonValue)
    (place : Name) : Parsed TypedBackend := do
  match ← o.member? (ascii "type") with
  | none => Parsed.reject (place ++ ascii ".type\" is not defined")
  | some value =>
      let type ← Parsed.require value.asString? (place ++ ascii ".type\" is not a string")
      match (o.parseBackendConfig? env.maxSizeDefault (cString type)).filter fun _ => !shutdown with
      | none => Parsed.reject (place ++ ascii ".type\" is not supported")
      | some config => TypedBackend.mk type <$> config

/-- One round of the loop of `GetBackends`. -/
def parseBackendItem (env : LoaderEnvironment) (shutdown : Bool) (i : Nat)
    (arr : List TypedBackend) (item : JsonValue × Nat) : Parsed (List TypedBackend) := do
  let place := backendPlace i item.2
  let _ ← item.1.requireObject (place ++ ascii "\" is not an objects")
  if ← targetOK env.build item.1 place then
    return arr ++ [← parseBackend env shutdown item.1 place]
  else pure arr

def getBackends (env : LoaderEnvironment) (shutdown : Bool) (o : JsonValue) (i : Nat) :
    Parsed (List TypedBackend) := do
  match ← o.member? (ascii "backends") with
  | none => pure []
  | some b =>
      let items ← Parsed.require b.asArray?
        (channelPlace i ++ ascii ".backends\" is not an array of objects")
      items.zipIdx.foldlM (parseBackendItem env shutdown i) []

def parseChannel (env : LoaderEnvironment) (shutdown : Bool) (m : OutputFlagsMap)
    (o : JsonValue) (i : Nat) : Parsed ChannelConfig := do
  let name ← getChannelName o i
  let config : ChannelConfig := { name := name }
  let flags ← getChannelFlags m o i config.flags
  let filter ← getFilterLevel o i config.filter
  let enabled ← getEnabled o i config.enabled
  let backend ← getBackends env shutdown o i
  let link ← getLink o i
  return { config with
    flags := flags
    filter := filter
    enabled := enabled
    backend := backend
    link := link }

/-- One round of the loop of `ParseChannels`. -/
def parseChannelItem (env : LoaderEnvironment) (shutdown : Bool) (m : OutputFlagsMap)
    (arr : List ChannelConfig) (item : JsonValue × Nat) : Parsed (List ChannelConfig) := do
  let _ ← item.1.requireObject (channelPlace item.2 ++ ascii "\" is not an objects")
  if ← targetOK env.build item.1 (channelPlace item.2) then
    return arr ++ [← parseChannel env shutdown m item.1 item.2]
  else pure arr

def parseChannels (env : LoaderEnvironment) (shutdown : Bool) (m : OutputFlagsMap)
    (root : JsonValue) : Parsed (List ChannelConfig) := do
  match ← root.member? (ascii "channels") with
  | none => pure []
  | some c =>
      let items ← Parsed.require c.asArray? (ascii "\"channels\" is not an array of objects")
      items.zipIdx.foldlM (parseChannelItem env shutdown m) []

/-! ## The member `subsystems` -/

structure SubsystemConfig where
  blockListed : Bool := true
  subsystems : List Name := []
  blocked : List Name := []
  allowed : List Name := []
  levels : List (Name × Level) := []

/-- The path of a member of `subsystems` in a report. -/
def subsystemPlace (name : Name) : Name :=
  ascii "\"subsystems[\"" ++ name ++ ascii "\"]"

def parseSubsystemItem (name : Name) (arr : List Name) (item : JsonValue × Nat) :
    Parsed (List Name) := do
  let subsystem ← Parsed.require item.1.asString?
    (subsystemPlace name ++ ascii "[" ++ decimalBytes item.2 ++ ascii "]\" is not a string")
  pure (arr ++ [subsystem])

def parseSubsystemList (root : JsonValue) (name : Name) : Parsed (List Name) := do
  match ← root.member? name with
  | none => pure []
  | some l =>
      let items ← Parsed.require l.asArray?
        (subsystemPlace name ++ ascii "\" is not an array")
      items.zipIdx.foldlM (parseSubsystemItem name) []

def parseSubsystemLevel (levels : List (Name × Level)) (member : Name × JsonValue) :
    Parsed (List (Name × Level)) := do
  let place := subsystemPlace (ascii "levels")
  if member.1 = [] then
    Parsed.reject (place ++ ascii "\" contains an empty subsystem name")
  else
    let named := place ++ ascii "[\"" ++ cString member.1 ++ ascii "\"]\""
    let value ← Parsed.require member.2.asString? (named ++ ascii " is not a string")
    let level ← Parsed.require (levelFromName value) (named ++ ascii " value is not supported")
    pure (levels ++ [(member.1, level)])

def parseSubsystemLevels (root : JsonValue) : Parsed (List (Name × Level)) := do
  match ← root.member? (ascii "levels") with
  | none => pure []
  | some levels =>
      let members ← levels.requireObject
        (subsystemPlace (ascii "levels") ++ ascii "\" is not an object")
      members.foldlM parseSubsystemLevel []

def parseSubsystems (root : JsonValue) : Parsed SubsystemConfig := do
  match ← root.member? (ascii "subsystems") with
  | none => pure {}
  | some c =>
      let _ ← c.requireObject (ascii "\"subsystems\" is not an object")
      let blockListed ← c.boolMember? (ascii "block-listed")
        (subsystemPlace (ascii "block-listed") ++ ascii "\" is not a boolean")
      let blocked ← parseSubsystemList c (ascii "blocked")
      let allowed ← parseSubsystemList c (ascii "allowed")
      let subsystems ← parseSubsystemList c (ascii "list")
      let levels ← parseSubsystemLevels c
      return {
        blockListed := blockListed.getD true
        subsystems := subsystems
        blocked := blocked
        allowed := allowed
        levels := levels }

/-! ## The member `home-directory` -/

structure HomeDirectoryConfig where
  homeDirectory : Name := []
  enableWatchDog : Bool := false
  maximalSize : Nat := 0
  checkPeriodicity : Int := 0
  extensions : List Name := []

/-- The path of a member of the watchdog's settings in a report. -/
def watchDogPlace (name : Name) : Name :=
  ascii "\"watch-dog[\"" ++ name ++ ascii "\"]"

def parseExtension (extensions : List Name) (item : JsonValue × Nat) :
    Parsed (List Name) := do
  let extension ← Parsed.require item.1.asString?
    (watchDogPlace (ascii "file-extension") ++ ascii "[" ++ decimalBytes item.2 ++
      ascii "]\" is not a string")
  pure (extensions ++ [extension])

def parseWatchDog (dog : JsonValue) (hdc : HomeDirectoryConfig) :
    Parsed HomeDirectoryConfig := do
  let notSize (name : Name) := watchDogPlace name ++ ascii "\" is not a string or integer"
  let _ ← dog.requireObject
    (ascii "\"home-directory[\"watch-dog\"]\" is not an object")
  let enable ← dog.boolMember? (ascii "enable")
    (watchDogPlace (ascii "enable") ++ ascii "\" is not a boolean")
  let maxSize ← dog.sizeMember? parseByteSize (ascii "max-size") 0
    (notSize (ascii "max-size"))
  let periodicity ← dog.sizeMember? parseInterval (ascii "check-periodicity") 0
    (notSize (ascii "check-periodicity"))
  let hdc := { hdc with
    enableWatchDog := enable.getD hdc.enableWatchDog
    maximalSize := maxSize.getD hdc.maximalSize
    checkPeriodicity :=
      (periodicity.map fun n => Int.bmod n (2 ^ 32)).getD hdc.checkPeriodicity }
  match ← dog.member? (ascii "file-extension") with
  | none => pure hdc
  | some e =>
      let items ← Parsed.require e.asArray?
        (watchDogPlace (ascii "file-extension") ++ ascii "\" is not an array")
      return { hdc with extensions := ← items.zipIdx.foldlM parseExtension hdc.extensions }

def parseHomeDirectoryConfig (env : LoaderEnvironment) (root : JsonValue) :
    Parsed HomeDirectoryConfig := do
  match ← root.member? (ascii "home-directory") with
  | none => pure {}
  | some c =>
      let _ ← c.requireObject (ascii "\"home-directory\" is not an object")
      let path ← c.stringMember? (ascii "path")
        (ascii "\"home-directory[\"path\"]\" is not a string")
      let hdc : HomeDirectoryConfig := { homeDirectory := (path.map env.template).getD [] }
      match ← c.member? (ascii "watch-dog") with
      | none => pure hdc
      | some dog => parseWatchDog dog hdc

end Logme
