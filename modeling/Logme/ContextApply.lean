import Logme.Library.BufferCursor
import Logme.StructuredOutput

/-!
# `Context::Apply`

A message is rendered once for each channel that displays it.  The context
keeps the time stamp, the process and thread prefix, the signature and the
shortened method of earlier renderings, the flags of the last one with its
bytes, and the buffers it was built in; a text without a prefix is completed
in place, behind the message.  Sizes are unbounded, so the conversions of
lengths to `int` are exact.
-/

namespace Logme

/-! ## What a message is made of -/

structure DateTime where
  year : Nat
  month : Nat
  day : Nat
  hour : Nat
  minute : Nat
  second : Nat
  millisecond : Nat
  deriving DecidableEq

/-- The time of a message, and the offset of local time in seconds. -/
structure MessageTime where
  localTime : DateTime
  utcTime : DateTime
  zoneOffset : Int
  deriving DecidableEq

namespace MessageTime

/-- `"%04i-%02i-%02i %02i:%02i:%02i:%03i "`, at most 30 bytes. -/
def stamp (d : DateTime) : Name :=
  (padZero 4 (decimalBytes d.year) ++ [0x2D] ++
    padZero 2 (decimalBytes d.month) ++ [0x2D] ++
    padZero 2 (decimalBytes d.day) ++ [0x20] ++
    padZero 2 (decimalBytes d.hour) ++ [0x3A] ++
    padZero 2 (decimalBytes d.minute) ++ [0x3A] ++
    padZero 2 (decimalBytes d.second) ++ [0x3A] ++
    padZero 3 (decimalBytes d.millisecond) ++ [0x20]).take 30

/-- `"%+.02i:%02i "`, at most 14 bytes. -/
def createTZD (offset : Int) : Name :=
  let h := (offset.tdiv 3600).tmod 60
  let m := offset.natAbs % 60
  ((if h < 0 then [0x2D] else [0x2B]) ++ padZero 2 (decimalBytes h.natAbs) ++
    [0x3A] ++ padZero 2 (decimalBytes m) ++ [0x20]).take 14

/-- `InitTimestamp`: local time, local time with its zone, or UTC. -/
def initTimestamp (time : MessageTime) : Nat → Name
  | 1 => stamp time.localTime
  | 2 =>
      ((stamp time.localTime).set 10 0x54).take 19 ++
        (createTZD time.zoneOffset).take 12
  | 3 => stamp time.utcTime
  | _ => []

end MessageTime

/-- The entry of the current thread in the thread names of a channel. -/
structure ThreadNameRecord where
  name : Option Name
  prev : Option Name
  deriving DecidableEq

/-- What `Apply` reads of a channel, as it is at the call: the shorteners in
the order of their tables, the entry of the current thread, and that entry in
the channel linked by pointer. -/
structure OutputChannel where
  shortenerList : List (Name × Name) := []
  shortenerMap : List (Name × Name) := []
  threadName : Option ThreadNameRecord := none
  link : Option (Option ThreadNameRecord) := none
  deriving DecidableEq

/-- What `Apply` reads of a context and does not change, and of the current
process and thread. -/
structure Message where
  level : Level
  channelName : Name
  subsystem : Nat
  method : Option Name
  fullName : Name
  line : Int
  procPrint : Bool
  procPrintIn : Bool
  appendProc : Option (List UInt8)
  ovr : Option Override
  repeatCount : Nat
  text : List UInt8
  capacity : Nat
  time : MessageTime
  process : Nat
  thread : Nat
  threadFields : List (Name × Name)
  fieldName : OutputFieldNames

namespace Message

/-- `InitSignature`. -/
def signature (m : Message) : UInt8 :=
  match m.level with
  | .debug => 0x44
  | .warn => 0x57
  | .error => 0x45
  | .critical => 0x43
  | .info => 0x20

/-- `Module::GetShortName`: what follows the last slash or backslash. -/
def shortName (m : Message) : Name :=
  m.fullName.rtakeWhile fun c => !(c == 0x2F || c == 0x5C)

/-- The file name for `DETALITY_SHORT` or the full one. -/
def fileName (m : Message) (flags : OutputFlags) : Name :=
  if flags.location = 1 then m.shortName else m.fullName

/-- The eight bytes of the subsystem up to the first 0. -/
def subsystemName (m : Message) : Name :=
  ((List.range 8).map fun i => UInt8.ofNat (m.subsystem / 256 ^ i)).takeWhile
    fun c => c != 0

/-- What `AppendProc` returns, where it is called. -/
def appendText (m : Message) (flags : OutputFlags) : Option (List UInt8) :=
  if flags.duration && !flags.procPrintIn then m.appendProc else none

/-- The message of the structured formats. -/
def messageText (m : Message) : List UInt8 :=
  if m.repeatCount = 0 then m.text else repeatPrefix m.repeatCount ++ m.text

end Message

/-! ## Method shorteners -/

/-- `Method`, and whether it points into the buffer of the shortener. -/
structure MethodName where
  text : Name
  inBuffer : Bool
  deriving DecidableEq

/-- `ShortenerPairRun`: the first prefix found is replaced; what stands in the
buffer is not shortened again. -/
def shortenerPairRun (value : MethodName) (pairs : List (Name × Name)) : MethodName :=
  if value.inBuffer then value
  else
    match pairs.find? fun pair => pair.1.isPrefixOf value.text with
    | none => value
    | some (searchFor, replaceOn) =>
        let rest := value.text.drop searchFor.length
        if replaceOn = [] then ⟨rest, false⟩ else ⟨replaceOn ++ rest, true⟩

namespace OutputChannel

/-- `ShortenerRun` with the tables of the channel. -/
def shortenerRun (ch : OutputChannel) (value : MethodName) : MethodName :=
  shortenerPairRun (shortenerPairRun value ch.shortenerList) ch.shortenerMap

/-- The tables of the channel and then the one of the override. -/
def shortenMethod (ch : OutputChannel) (ovr : Option Override)
    (value : MethodName) : MethodName :=
  match ovr with
  | none => ch.shortenerRun value
  | some ovr => shortenerPairRun (ch.shortenerRun value) ovr.shortener

/-! ## The process and thread prefix -/

/-- `GetThreadName`: the name of the thread and the one before it.  An entry
without either is erased; the previous name is cleared for later calls. -/
def getThreadName (entry : Option ThreadNameRecord) : Option Name × Option Name :=
  match entry with
  | none => (none, none)
  | some entry => (entry.name, entry.prev)

/-- The name and the transition to print; a channel without either asks the
channel it is linked to. -/
def threadLabel (ch : OutputChannel) (flags : OutputFlags) :
    Option Name × Option Name :=
  let own := getThreadName ch.threadName
  if flags.threadTransition then
    if own = (none, none) then
      match ch.link with
      | some entry => getThreadName entry
      | none => own
    else own
  else (own.1, none)

end OutputChannel

/-- The transition in `remaining` bytes, and the bytes left. -/
def transitionText (transition : Option Name) (remaining : Nat) : Name × Nat :=
  match transition with
  | none => ([], remaining)
  | some t =>
      let copied := t.take remaining
      let remaining := remaining - t.length
      if 4 ≤ remaining then (copied ++ ascii " -> ", remaining - 4)
      else (copied, remaining)

namespace Message

/-- What follows the colon, in `remaining` bytes. -/
def threadText (m : Message) (label : Option Name × Option Name)
    (remaining : Nat) : Name :=
  let (transition, remaining) := transitionText label.2 remaining
  match label.1 with
  | some name => transition ++ name.take remaining
  | none => transition ++ (hexUpper m.thread).take (remaining - 1)

/-- The text that `InitThreadProcessID` builds in 65 bytes. -/
def threadProcessText (m : Message) (ch : OutputChannel) (flags : OutputFlags) :
    Name :=
  let process := if flags.processID then hexUpper m.process else []
  let remaining := 61 - process.length
  let thread :=
    if flags.threadID then
      0x3A :: m.threadText (ch.threadLabel flags) (remaining - 1)
    else []
  [0x5B] ++ process ++ thread ++ [0x5D, 0x20]

end Message

/-! ## The state of a context -/

/-- `lastData` is `LastData` up to `LastLen`, or `none` for the null pointer.
`inPlace` is what stands in `TempBuffer` between the text and the next 0. -/
structure ApplyState where
  timestamp : Name
  threadProcessID : Name
  signature : UInt8
  method : Option MethodName
  applied : OutputFlags
  lastData : Option (List UInt8)
  buffer : List UInt8
  extBuffer : List UInt8
  inPlace : List UInt8
  deriving DecidableEq

/-- `Applied` of a new context, which the `None` bit marks as invalid. -/
def Message.initialApplied (m : Message) : OutputFlags :=
  ⟨OutputFlags.default.value ||| 0x80000000 |||
    (if m.procPrint then 0x20000000 else 0) |||
    (if m.procPrintIn then 0x40000000 else 0)⟩

/-- A context after `InitContext` and `SetBuffer`; `memory` is what `Buffer`
holds before it is initialized. -/
def Message.newContext (m : Message) (memory : List UInt8) : ApplyState where
  timestamp := []
  threadProcessID := []
  signature := 0
  method := m.method.map fun text => ⟨text, false⟩
  applied := m.initialApplied
  lastData := none
  buffer := memory.set 0 0
  extBuffer := []
  inPlace := []

/-- The method is printed unless a `Procedure` prints it as its text. -/
def OutputFlags.printsMethod (f : OutputFlags) : Bool := f.method && !f.procPrint

def OutputFlags.printsID (f : OutputFlags) : Bool := f.processID || f.threadID

/-- Neither JSON nor XML is selected. -/
def OutputFlags.isText (f : OutputFlags) : Bool := f.format != 1 && f.format != 2

namespace ApplyState

def withTimestamp (s : ApplyState) (m : Message) (flags : OutputFlags) : ApplyState :=
  if flags.timestamp ≠ 0 ∧ s.timestamp = [] then
    { s with timestamp := m.time.initTimestamp flags.timestamp }
  else s

def withSignature (s : ApplyState) (m : Message) (flags : OutputFlags) : ApplyState :=
  if flags.signature ∧ s.signature = 0 then { s with signature := m.signature }
  else s

def initThreadProcessID (s : ApplyState) (m : Message) (ch : OutputChannel)
    (flags : OutputFlags) : ApplyState :=
  if flags.printsID ∧ s.threadProcessID = [] then
    { s with threadProcessID := m.threadProcessText ch flags }
  else if !flags.printsID then { s with threadProcessID := [] }
  else s

def withThreadProcessID (s : ApplyState) (m : Message) (ch : OutputChannel)
    (flags : OutputFlags) : ApplyState :=
  if flags.printsID ∧ s.threadProcessID = [] then s.initThreadProcessID m ch flags
  else s

def withMethod (s : ApplyState) (m : Message) (ch : OutputChannel)
    (flags : OutputFlags) : ApplyState :=
  if flags.printsMethod then { s with method := s.method.map (ch.shortenMethod m.ovr) }
  else s

/-- The bytes are written to `Buffer`, or to `ExtBuffer` when `required` bytes
do not fit, and the flags and the written bytes are remembered. -/
def store (s : ApplyState) (required : Nat) (flags : OutputFlags)
    (write : List UInt8 → List UInt8) : ApplyState :=
  if 2048 < required then
    let block :=
      if s.extBuffer.length < required then List.replicate required 0 else s.extBuffer
    { s with
      extBuffer := write block
      applied := flags
      lastData := some ((write block).take (required - 1)) }
  else
    { s with
      buffer := write s.buffer
      applied := flags
      lastData := some ((write s.buffer).take (required - 1)) }

/-- A whole output and its final 0. -/
def storeOutput (s : ApplyState) (flags : OutputFlags) (output : List UInt8) :
    ApplyState :=
  s.store (output.length + 1) flags fun block =>
    ((BufferCursor.start block).store (output ++ [0])).bytes

end ApplyState

/-! ## The three formats -/

namespace Message

/-- The object that `ApplyJson` builds, without the end of line. -/
def jsonOutput (m : Message) (s : ApplyState) (flags : OutputFlags) : List UInt8 :=
  let name := m.fieldName
  let o : JsonOutput := ⟨[0x7B], true⟩
  let o := o.when (flags.timestamp != 0) fun o =>
    o.appendJsonStringField (name .timestamp) (trimRight s.timestamp)
  let o := o.when flags.signature fun o =>
    o.appendJsonStringField (name .level) m.level.structuredName
  let o := o.when flags.processID fun o =>
    o.appendJsonUInt64Field (name .processId) m.process
  let o := o.when flags.threadID fun o =>
    o.appendJsonUInt64Field (name .threadId) m.thread
  let o := o.when flags.channel fun o =>
    o.appendJsonStringField (name .channel) m.channelName
  let o := o.when (flags.subsystem && m.subsystem != 0) fun o =>
    o.appendJsonStringField (name .subsystem) (trimRight m.subsystemName)
  let o := o.when (flags.location != 0) fun o =>
    (o.appendJsonStringField (name .file) (m.fileName flags)).appendJsonUInt64Field
      (name .line) (m.line % 0x10000000000000000).toNat
  let o := o.when flags.printsMethod fun o =>
    o.appendOptional (name .method) (s.method.map MethodName.text)
  let o := m.threadFields.foldl
    (fun o field => o.appendJsonStringField field.1 field.2) o
  let o := o.appendJsonStringField (name .message) m.messageText
  let o := o.appendOptional (name .duration) (m.appendText flags)
  o.output ++ [0x7D]

/-- The element that `ApplyXml` builds, without the end of line. -/
def xmlOutput (m : Message) (s : ApplyState) (flags : OutputFlags) : List UInt8 :=
  let name := m.fieldName
  let output := ascii "<event>"
  let output :=
    if flags.timestamp ≠ 0 then
      appendXmlElement output (name .timestamp) (trimRight s.timestamp)
    else output
  let output :=
    if flags.signature then appendXmlElement output (name .level) m.level.structuredName
    else output
  let output :=
    if flags.processID then
      appendXmlElement output (name .processId) (decimalBytes m.process)
    else output
  let output :=
    if flags.threadID then
      appendXmlElement output (name .threadId) (decimalBytes m.thread)
    else output
  let output :=
    if flags.channel then appendXmlElement output (name .channel) m.channelName
    else output
  let output :=
    if flags.subsystem && m.subsystem != 0 then
      appendXmlElement output (name .subsystem) (trimRight m.subsystemName)
    else output
  let output :=
    if flags.location ≠ 0 then
      appendXmlElement (appendXmlElement output (name .file) (m.fileName flags))
        (name .line) (decimalBytes (m.line % 0x10000000000000000).toNat)
    else output
  let output :=
    if flags.printsMethod then
      appendOptionalElement output (name .method) (s.method.map MethodName.text)
    else output
  let output := m.threadFields.foldl
    (fun output field => appendXmlElement output field.1 field.2) output
  let output := appendXmlElement output (name .message) m.messageText
  let output := appendOptionalElement output (name .duration) (m.appendText flags)
  output ++ ascii "</event>"

/-- The parts of a text before the message. -/
def prefixPieces (m : Message) (s : ApplyState) (flags : OutputFlags) :
    List (List UInt8) :=
  [if flags.timestamp ≠ 0 then s.timestamp else [],
    if flags.signature then [s.signature, 0x20] else [],
    if flags.printsID then s.threadProcessID else [],
    if flags.channel then [0x7B] ++ m.channelName ++ [0x7D, 0x20] else [],
    if flags.subsystem ∧ m.subsystem ≠ 0 then [0x23] ++ m.subsystemName ++ [0x20] else [],
    if flags.location ≠ 0 then
      m.fileName flags ++ [0x28] ++ signedBytes m.line ++ ascii "): "
    else [],
    if flags.errorPrefix then
      match m.level with
      | .error => ascii "Error: "
      | .critical => ascii "Critical: "
      | _ => []
    else [],
    if flags.printsMethod then
      match s.method with
      | some method => method.text ++ ascii "(): "
      | none => []
    else [],
    if m.repeatCount ≠ 0 then repeatPrefix m.repeatCount else []]

def eolBytes (flags : OutputFlags) : List UInt8 := if flags.eol then [0x0A] else []

def applyJson (m : Message) (s : ApplyState) (ch : OutputChannel)
    (flags : OutputFlags) : ApplyState :=
  if s.applied = flags then s
  else
    let s := (s.withTimestamp m flags).withMethod m ch flags
    s.storeOutput flags (m.jsonOutput s flags ++ eolBytes flags)

def applyXml (m : Message) (s : ApplyState) (ch : OutputChannel)
    (flags : OutputFlags) : ApplyState :=
  if s.applied = flags then s
  else
    let s := (s.withTimestamp m flags).withMethod m ch flags
    s.storeOutput flags (m.xmlOutput s flags ++ eolBytes flags)

/-- `n` in the text branch: the length of the text and its final 0. -/
def textSize (m : Message) (pieces : List (List UInt8)) (append : List UInt8)
    (flags : OutputFlags) : Nat :=
  pieces.flatten.length + m.text.length + append.length + (eolBytes flags).length + 1

/-- The pieces, the C string at `TempBuffer`, what `AppendProc` returned and
the end of line are written one after the other; `behind` is what stands in
`TempBuffer` behind the text. -/
def writeText (m : Message) (pieces : List (List UInt8)) (behind append : List UInt8)
    (flags : OutputFlags) (block : List UInt8) : List UInt8 :=
  let size := m.textSize pieces append flags
  let c := pieces.foldl (BufferCursor.copyPiece size) (.start block)
  let c := c.copy size (BufferCursor.cString (m.text ++ behind)) m.text.length
  let c := c.copyPiece size append
  (if flags.eol then c.store [0x0A, 0] else c).bytes

/-- The text branch of `Apply`. -/
def applyText (m : Message) (s : ApplyState) (ch : OutputChannel)
    (flags : OutputFlags) : ApplyState :=
  if s.applied = flags then s
  else
    let s := { s with buffer := s.buffer.set 0 0 }
    let s := (((s.withTimestamp m flags).withSignature m flags).withThreadProcessID
      m ch flags).withMethod m ch flags
    let pieces := m.prefixPieces s flags
    let append := (m.appendText flags).getD []
    let required := m.textSize pieces append flags
    if pieces.flatten = [] ∧ required ≤ m.capacity then
      { s with
        inPlace := append ++ eolBytes flags
        applied := flags
        lastData := some (m.text ++ append ++ eolBytes flags) }
    else s.store required flags (m.writeText pieces s.inPlace append flags)

/-- The flags of a call: those of the channel with the override, and the
control flags of the context. -/
def flagsOf (m : Message) (s : ApplyState) (flags : OutputFlags) : OutputFlags :=
  (flags.override m.ovr).withControl s.applied

/-- `Apply`; the text of the call is `lastData` of the state it leaves. -/
def apply (m : Message) (s : ApplyState) (ch : OutputChannel) (flags : OutputFlags) :
    ApplyState :=
  let flags := m.flagsOf s flags
  if flags.format = 1 then m.applyJson s ch flags
  else if flags.format = 2 then m.applyXml s ch flags
  else m.applyText s ch flags

end Message

/-- One call of `Apply`. -/
structure ApplyCall where
  channel : OutputChannel
  flags : OutputFlags
  deriving DecidableEq

/-- The context after the calls. -/
def Message.applyAll (m : Message) (s : ApplyState) (calls : List ApplyCall) :
    ApplyState :=
  calls.foldl (fun s call => m.apply s call.channel call.flags) s

/-! ## What one call does -/

/-- The parts of the context that renderings print agree. -/
structure ApplyState.SameParts (s s' : ApplyState) : Prop where
  timestamp : s.timestamp = s'.timestamp
  threadProcessID : s.threadProcessID = s'.threadProcessID
  signature : s.signature = s'.signature
  method : s.method = s'.method

namespace ApplyState

theorem SameParts.trans {s₁ s₂ s₃ : ApplyState} (h : SameParts s₁ s₂)
    (h' : SameParts s₂ s₃) : SameParts s₁ s₃ :=
  ⟨h.timestamp.trans h'.timestamp, h.threadProcessID.trans h'.threadProcessID,
    h.signature.trans h'.signature, h.method.trans h'.method⟩

theorem store_sameParts (s : ApplyState) (required : Nat) (flags : OutputFlags)
    (write : List UInt8 → List UInt8) : SameParts (s.store required flags write) s := by
  unfold store
  split <;> exact ⟨rfl, rfl, rfl, rfl⟩

theorem store_applied (s : ApplyState) (required : Nat) (flags : OutputFlags)
    (write : List UInt8 → List UInt8) : (s.store required flags write).applied = flags := by
  unfold store
  split <;> rfl

/-- The bytes that are returned do not depend on the buffer when what is
written does not. -/
theorem store_lastData {s : ApplyState} {required : Nat} {flags : OutputFlags}
    {write : List UInt8 → List UInt8} {output : List UInt8}
    (h : ∀ block, (write block).take (required - 1) = output) :
    (s.store required flags write).lastData = some output := by
  unfold store
  split <;> simp [h]

theorem storeOutput_lastData (s : ApplyState) (flags : OutputFlags)
    (output : List UInt8) : (s.storeOutput flags output).lastData = some output := by
  apply store_lastData
  intro block
  simp [BufferCursor.start, BufferCursor.store, BufferCursor.bytes]

/-- The parts are filled before a rendering: all of them for a text, the time
stamp and the method for the structured formats. -/
def prepare (s : ApplyState) (m : Message) (ch : OutputChannel)
    (flags : OutputFlags) : ApplyState :=
  if flags.isText then
    (((s.withTimestamp m flags).withSignature m flags).withThreadProcessID
      m ch flags).withMethod m ch flags
  else (s.withTimestamp m flags).withMethod m ch flags

/-- Each part is filled by its own step. -/
theorem prepare_timestamp (s : ApplyState) (m : Message) (ch : OutputChannel)
    (flags : OutputFlags) : (s.prepare m ch flags).timestamp =
      if flags.timestamp ≠ 0 ∧ s.timestamp = [] then m.time.initTimestamp flags.timestamp
      else s.timestamp := by
  unfold prepare withMethod withThreadProcessID initThreadProcessID withSignature withTimestamp
  split_ifs <;> rfl

theorem prepare_method (s : ApplyState) (m : Message) (ch : OutputChannel)
    (flags : OutputFlags) : (s.prepare m ch flags).method =
      if flags.printsMethod then s.method.map (ch.shortenMethod m.ovr)
      else s.method := by
  unfold prepare withMethod withThreadProcessID initThreadProcessID withSignature withTimestamp
  split_ifs <;> rfl

theorem prepare_threadProcessID (s : ApplyState) (m : Message) (ch : OutputChannel)
    (flags : OutputFlags) : (s.prepare m ch flags).threadProcessID =
      if flags.isText ∧ flags.printsID ∧ s.threadProcessID = [] then
        m.threadProcessText ch flags
      else s.threadProcessID := by
  unfold prepare withThreadProcessID initThreadProcessID withSignature withTimestamp
  unfold withMethod
  split_ifs <;> simp_all

theorem prepare_signature (s : ApplyState) (m : Message) (ch : OutputChannel)
    (flags : OutputFlags) : (s.prepare m ch flags).signature =
      if flags.isText ∧ flags.signature ∧ s.signature = 0 then m.signature
      else s.signature := by
  unfold prepare withThreadProcessID initThreadProcessID withSignature withTimestamp
  unfold withMethod
  split_ifs <;> simp_all

theorem SameParts.withTimestamp {s s' : ApplyState} (h : SameParts s s') (m : Message)
    (flags : OutputFlags) : SameParts (s.withTimestamp m flags) (s'.withTimestamp m flags) := by
  unfold ApplyState.withTimestamp
  rw [h.timestamp]
  split
  next => exact { h with timestamp := rfl }
  next => exact h

theorem SameParts.withSignature {s s' : ApplyState} (h : SameParts s s') (m : Message)
    (flags : OutputFlags) : SameParts (s.withSignature m flags) (s'.withSignature m flags) := by
  unfold ApplyState.withSignature
  rw [h.signature]
  split
  next => exact { h with signature := rfl }
  next => exact h

theorem SameParts.withThreadProcessID {s s' : ApplyState} (h : SameParts s s')
    (m : Message) (ch : OutputChannel) (flags : OutputFlags) :
    SameParts (s.withThreadProcessID m ch flags) (s'.withThreadProcessID m ch flags) := by
  unfold ApplyState.withThreadProcessID initThreadProcessID
  rw [h.threadProcessID]
  split
  next => exact { h with threadProcessID := rfl }
  next => exact h

theorem SameParts.withMethod {s s' : ApplyState} (h : SameParts s s') (m : Message)
    (ch : OutputChannel) (flags : OutputFlags) :
    SameParts (s.withMethod m ch flags) (s'.withMethod m ch flags) := by
  unfold ApplyState.withMethod
  split
  next => exact { h with method := by rw [h.method] }
  next => exact h

theorem SameParts.prepare {s s' : ApplyState} (h : SameParts s s') (m : Message)
    (ch : OutputChannel) (flags : OutputFlags) :
    SameParts (s.prepare m ch flags) (s'.prepare m ch flags) := by
  unfold ApplyState.prepare
  split
  next =>
    exact (((h.withTimestamp m flags).withSignature m flags).withThreadProcessID
      m ch flags).withMethod m ch flags
  next => exact (h.withTimestamp m flags).withMethod m ch flags

end ApplyState

namespace Message

/-- The text of a call, from the parts that the context holds. -/
def rendering (m : Message) (s : ApplyState) (flags : OutputFlags) : List UInt8 :=
  if flags.format = 1 then m.jsonOutput s flags ++ eolBytes flags
  else if flags.format = 2 then m.xmlOutput s flags ++ eolBytes flags
  else
    (m.prefixPieces s flags).flatten ++ m.text ++ (m.appendText flags).getD [] ++
      eolBytes flags

theorem rendering_congr {m : Message} {s s' : ApplyState} (h : s.SameParts s')
    (flags : OutputFlags) : m.rendering s flags = m.rendering s' flags := by
  simp only [rendering, jsonOutput, xmlOutput, prefixPieces, h.timestamp,
    h.threadProcessID, h.signature, h.method]

/-- A text with bytes behind its first 0 is rendered exactly by the structured
formats only. -/
def Renders (m : Message) (flags : OutputFlags) : Prop :=
  flags.isText = true → BufferCursor.Terminated m.text

/-- What a call leaves that does not return the last rendering again. -/
structure Rendered (m : Message) (s : ApplyState) (ch : OutputChannel)
    (flags : OutputFlags) (s' : ApplyState) : Prop where
  parts : s'.SameParts (s.prepare m ch flags)
  applied : s'.applied = flags
  lastData : m.Renders flags → s'.lastData = some (m.rendering s' flags)

theorem writeText_eq {m : Message} (pieces : List (List UInt8))
    (behind append : List UInt8) (flags : OutputFlags)
    (htext : BufferCursor.Terminated m.text) (block : List UInt8) :
    (m.writeText pieces behind append flags block).take
        (m.textSize pieces append flags - 1) =
      pieces.flatten ++ m.text ++ append ++ eolBytes flags := by
  let size := m.textSize pieces append flags
  have hsize : size = pieces.flatten.length + m.text.length + append.length +
      (eolBytes flags).length + 1 := rfl
  let c₁ := pieces.foldl (BufferCursor.copyPiece size) (.start block)
  let c₂ := c₁.copy size (BufferCursor.cString (m.text ++ behind)) m.text.length
  let c₃ := c₂.copyPiece size append
  have h₁ : c₁.written = pieces.flatten := by
    apply BufferCursor.foldl_copyPiece_written
    change 0 + pieces.flatten.length < size
    omega
  have h₂ : c₂.written = pieces.flatten ++ m.text := by
    rw [← h₁]
    apply BufferCursor.copy_terminated _ htext
    rw [h₁]
    omega
  have h₃ : c₃.written = pieces.flatten ++ m.text ++ append := by
    rw [← h₂]
    apply BufferCursor.copyPiece_written
    rw [h₂, List.length_append]
    omega
  change (if flags.eol then c₃.store [0x0A, 0] else c₃).bytes.take (size - 1) = _
  have hlength : c₃.written.length + (eolBytes flags).length = size - 1 := by
    rw [h₃, List.length_append, List.length_append]
    omega
  rw [← hlength, ← h₃, eolBytes]
  cases flags.eol with
  | true => exact c₃.take_store [0x0A] [0]
  | false => simpa using c₃.take_bytes

theorem applyText_rendered (m : Message) {s : ApplyState} (ch : OutputChannel)
    {flags : OutputFlags} (hnew : s.applied ≠ flags) (hjson : flags.format ≠ 1)
    (hxml : flags.format ≠ 2) : m.Rendered s ch flags (m.applyText s ch flags) := by
  have htext : flags.isText = true := by simp [OutputFlags.isText, hjson, hxml]
  have hprepare : ∀ s : ApplyState, s.prepare m ch flags =
      (((s.withTimestamp m flags).withSignature m flags).withThreadProcessID
        m ch flags).withMethod m ch flags := by
    intro s
    rw [ApplyState.prepare, if_pos htext]
  have hrendering : ∀ s : ApplyState, m.rendering s flags =
      (m.prefixPieces s flags).flatten ++ m.text ++ (m.appendText flags).getD [] ++
        eolBytes flags := by
    intro s
    rw [rendering, if_neg hjson, if_neg hxml]
  unfold applyText
  rw [if_neg hnew]
  simp only [← hprepare]
  have hparts : ApplyState.SameParts
      ({ s with buffer := s.buffer.set 0 0 }.prepare m ch flags) (s.prepare m ch flags) := by
    have hsame : ApplyState.SameParts { s with buffer := s.buffer.set 0 0 } s :=
      ⟨rfl, rfl, rfl, rfl⟩
    exact hsame.prepare m ch flags
  generalize { s with buffer := s.buffer.set 0 0 }.prepare m ch flags = prepared at hparts ⊢
  split
  next hplain =>
    refine ⟨⟨hparts.timestamp, hparts.threadProcessID, hparts.signature, hparts.method⟩,
      rfl, ?_⟩
    intro _
    have hsame : ApplyState.SameParts { prepared with
        inPlace := (m.appendText flags).getD [] ++ eolBytes flags
        applied := flags
        lastData := some (m.text ++ (m.appendText flags).getD [] ++ eolBytes flags) }
        prepared := ⟨rfl, rfl, rfl, rfl⟩
    rw [rendering_congr hsame, hrendering, hplain.1, List.nil_append]
  next =>
    have hstored := ApplyState.store_sameParts prepared
      (m.textSize (m.prefixPieces prepared flags) ((m.appendText flags).getD []) flags)
      flags (m.writeText (m.prefixPieces prepared flags) prepared.inPlace
        ((m.appendText flags).getD []) flags)
    refine ⟨hstored.trans hparts, ApplyState.store_applied .., ?_⟩
    intro hrenders
    rw [rendering_congr hstored, hrendering]
    apply ApplyState.store_lastData
    exact writeText_eq _ _ _ flags (hrenders htext)

theorem storeOutput_rendered {m : Message} {s : ApplyState} {ch : OutputChannel}
    {flags : OutputFlags} (htext : flags.isText = false)
    {output : List UInt8}
    (houtput : m.rendering ((s.withTimestamp m flags).withMethod m ch flags) flags = output) :
    m.Rendered s ch flags
      (((s.withTimestamp m flags).withMethod m ch flags).storeOutput flags output) := by
  have hstored := ApplyState.store_sameParts
    ((s.withTimestamp m flags).withMethod m ch flags) (output.length + 1) flags
    fun block => ((BufferCursor.start block).store (output ++ [0])).bytes
  refine ⟨?_, ApplyState.store_applied .., ?_⟩
  · rw [ApplyState.prepare, if_neg (by simp [htext])]
    exact hstored
  · intro _
    rw [ApplyState.storeOutput_lastData]
    exact congrArg some (houtput.symm.trans (rendering_congr hstored flags).symm)

/-- A call returns the last rendering again, or it renders. -/
theorem apply_cases (m : Message) (s : ApplyState) (ch : OutputChannel)
    (flags : OutputFlags) :
    (s.applied = m.flagsOf s flags ∧ m.apply s ch flags = s) ∨
      (s.applied ≠ m.flagsOf s flags ∧
        m.Rendered s ch (m.flagsOf s flags) (m.apply s ch flags)) := by
  unfold apply
  generalize m.flagsOf s flags = shown
  by_cases hsame : s.applied = shown
  · left
    refine ⟨hsame, ?_⟩
    simp [applyJson, applyXml, applyText, hsame]
  · right
    refine ⟨hsame, ?_⟩
    by_cases hjson : shown.format = 1
    · rw [if_pos hjson, applyJson, if_neg hsame]
      exact storeOutput_rendered (by simp [OutputFlags.isText, hjson])
        (by rw [rendering, if_pos hjson])
    · by_cases hxml : shown.format = 2
      · rw [if_neg hjson, if_pos hxml, applyXml, if_neg hsame]
        exact storeOutput_rendered (by simp [OutputFlags.isText, hxml])
          (by rw [rendering, if_neg hjson, if_pos hxml])
      · rw [if_neg hjson, if_neg hxml]
        exact applyText_rendered m ch hsame hjson hxml

/-! ## Runs of calls -/

theorem applyAll_invariant {m : Message} {P : ApplyState → Prop}
    (hstep : ∀ s ch flags, P s → P (m.apply s ch flags)) {s : ApplyState} (hs : P s)
    (calls : List ApplyCall) : P (m.applyAll s calls) := by
  induction calls generalizing s with
  | nil => exact hs
  | cons call calls ih => exact ih (hstep s call.channel call.flags hs)

theorem initialApplied_format (m : Message) : m.initialApplied.format = 0 := by
  unfold initialApplied
  cases m.procPrint <;> cases m.procPrintIn <;> decide

/-! ### Structured formats -/

/-- What was rendered last in the format is still what the context would render. -/
def KeepsFormat (m : Message) (format : Nat) (s : ApplyState) : Prop :=
  s.applied.format = format → s.lastData = some (m.rendering s s.applied)

theorem keepsFormat_newContext (m : Message) (memory : List UInt8) {format : Nat}
    (hformat : format ≠ 0) : m.KeepsFormat format (m.newContext memory) := by
  intro happlied
  change m.initialApplied.format = format at happlied
  rw [initialApplied_format] at happlied
  exact absurd happlied.symm hformat

theorem keepsFormat_apply {m : Message} {format : Nat}
    (hformat : ∀ f : OutputFlags, f.format = format → f.isText = false) (s : ApplyState)
    (ch : OutputChannel) (flags : OutputFlags) (h : m.KeepsFormat format s) :
    m.KeepsFormat format (m.apply s ch flags) := by
  rcases m.apply_cases s ch flags with ⟨-, hagain⟩ | ⟨-, hrendered⟩
  · rw [hagain]
    exact h
  · intro happlied
    rw [hrendered.applied] at happlied ⊢
    exact hrendered.lastData (by simp [Renders, hformat _ happlied])

@[simp] theorem flagsOf_format (m : Message) (s : ApplyState) (flags : OutputFlags) :
    (m.flagsOf s flags).format = (flags.override m.ovr).format :=
  OutputFlags.withControl_format _ _

end Message

end Logme
