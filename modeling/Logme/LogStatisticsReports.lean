import Logme.ControlAnswers

/-!
# The reports of the log-site statistics

`logstat` parses the options of a report and prints the rows of a snapshot
under a header.  Rates, shares, averages and times are floating-point numbers,
which reports print and nothing reads again: their texts are given.
-/

namespace Logme

open SlotTable (Counters)

/-- The texts of floating-point numbers. -/
structure FloatTexts where
  duration : Name
  share : Nat → Nat → Name
  rate : Nat → Name
  kibRate : Nat → Name
  average : Nat → Nat → Name

/-- What the collector has counted of an asynchronous `FileBackend`. -/
structure FileBackendSnapshot where
  backendId : Nat
  channel : Name
  backendType : Name
  details : Name
  async : Bool
  acceptedRecords : Nat
  acceptedBytes : Nat
  queueDroppedRecords : Nat
  queueDroppedBytes : Nat
  writeBatches : Nat
  writeOperations : Nat
  batchBuffers : Nat
  batchBytes : Nat
  maxBatchBuffers : Nat
  maxBatchBytes : Nat
  writtenBuffers : Nat
  writtenBytes : Nat
  failedBatches : Nat
  failedWriteOperations : Nat
  failedBuffers : Nat
  failedBytes : Nat

inductive LogStatisticsSort where
  | messageBytes
  | records
  deriving DecidableEq

inductive LogFileStatisticsSort where
  | writtenBytes
  | writeBatches
  | writeErrors
  | droppedBytes
  deriving DecidableEq

/-! ## Options -/

namespace CmdLogStatistics

def defaultLimit : Nat := 20

def maxLimit : Nat := 1000

def parseLimit (text : Name) : Option Nat :=
  if text = [] ∨ ¬ text.all fun c => 0x30 ≤ c ∧ c ≤ 0x39 then none
  else
    let value := text.foldl (fun n c => 10 * n + (c.toNat - 0x30)) 0
    if value = 0 ∨ maxLimit < value then none else some value

structure ReportOptions where
  sort : LogStatisticsSort := .messageBytes
  limit : Nat := defaultLimit
  backendType : Name := []

def parseSort (value : Name) : Option LogStatisticsSort :=
  if value = ascii "records" then some .records
  else if value = ascii "bytes" ∨ value = ascii "message-bytes" then some .messageBytes
  else none

/-- `ParseReportOptions`; `backends` says whether the report has a backend
filter. -/
def parseReportOptions (backends : Bool) : ReportOptions → List Name → Except Name ReportOptions
  | o, [] => .ok o
  | o, option :: rest =>
      if option = ascii "--sort" then
        match rest with
        | [] => .error (ascii "missing logstat sort value")
        | value :: more =>
            match parseSort value with
            | none => .error (ascii "invalid logstat sort value: " ++ value)
            | some sort => parseReportOptions backends { o with sort } more
      else if option = ascii "--limit" then
        match rest with
        | [] => .error (ascii "missing logstat limit")
        | value :: more =>
            match parseLimit value with
            | none => .error (ascii "invalid logstat limit: " ++ value)
            | some limit => parseReportOptions backends { o with limit } more
      else if option = ascii "--backend" then
        if backends = false then
          .error (ascii "--backend is not supported for this report")
        else
          match rest with
          | [] => .error (ascii "missing logstat backend type")
          | value :: more =>
              if value = [] then .error (ascii "missing logstat backend type")
              else parseReportOptions backends { o with backendType := value } more
      else
        match parseSort option with
        | some sort => parseReportOptions backends { o with sort } rest
        | none =>
            match parseLimit option with
            | some limit => parseReportOptions backends { o with limit } rest
            | none => .error (ascii "unknown logstat option: " ++ option)

def parseFileSort (value : Name) : Option LogFileStatisticsSort :=
  if value = ascii "bytes" ∨ value = ascii "written-bytes" then some .writtenBytes
  else if value = ascii "records" ∨ value = ascii "batches" ∨ value = ascii "write-batches" then
    some .writeBatches
  else if value = ascii "errors" ∨ value = ascii "write-errors" then some .writeErrors
  else if value = ascii "dropped" ∨ value = ascii "dropped-bytes" then some .droppedBytes
  else none

structure FileReportOptions where
  sort : LogFileStatisticsSort := .writtenBytes
  limit : Nat := defaultLimit

def parseFileReportOptions : FileReportOptions → List Name → Except Name FileReportOptions
  | o, [] => .ok o
  | o, option :: rest =>
      if option = ascii "--sort" then
        match rest with
        | [] => .error (ascii "missing logstat file sort value")
        | value :: more =>
            match parseFileSort value with
            | none => .error (ascii "invalid logstat file sort value: " ++ value)
            | some sort => parseFileReportOptions { o with sort } more
      else if option = ascii "--limit" then
        match rest with
        | [] => .error (ascii "missing logstat limit")
        | value :: more =>
            match parseLimit value with
            | none => .error (ascii "invalid logstat limit: " ++ value)
            | some limit => parseFileReportOptions { o with limit } more
      else
        match parseFileSort option with
        | some sort => parseFileReportOptions { o with sort } rest
        | none =>
            match parseLimit option with
            | some limit => parseFileReportOptions { o with limit } rest
            | none => .error (ascii "unknown logstat file option: " ++ option)

end CmdLogStatistics

/-! ## Rows -/

/-- `snprintf` into a buffer of `size` bytes. -/
def snprintf (size : Nat) (text : Name) : Name := text.take (size - 1)

def runningText (active : Bool) : Name := if active then ascii "running" else ascii "stopped"

/-- `std::sort` with a comparison. -/
def sortedBy {β : Type} (before : β → β → Bool) (rows : List β) : List β :=
  rows.insertionSort fun a b => before b a = false

/-- Larger values come first; `tie` decides between equal ones. -/
def descending {β : Type} (value : β → Nat) (tie : β → β → Bool) (a b : β) : Bool :=
  if value a ≠ value b then decide (value b < value a) else tie a b

def LogStatisticsSort.value (sort : LogStatisticsSort) (c : Counters) : Nat :=
  match sort with
  | .records => c.records
  | .messageBytes => c.bytes

/-- The totals of a header; a total has no maximum. -/
def totalCounters (rows : List Counters) : Counters :=
  ⟨(rows.map Counters.records).sum, (rows.map Counters.bytes).sum, 0⟩

/-- The numbers of a row, the same in all reports but for the name of the bytes. -/
def rowNumbers (numbers : FloatTexts) (bytes : String) (sort : LogStatisticsSort)
    (total : Counters) (i : Nat) (c : Counters) : Name :=
  decimalBytes (i + 1) ++ ascii ". share=" ++
    numbers.share (sort.value c) (sort.value total) ++
    ascii "% records=" ++ decimalBytes c.records ++
    ascii " records/s=" ++ numbers.rate c.records ++
    ascii " " ++ ascii bytes ++ ascii "=" ++ decimalBytes c.bytes ++
    ascii " KiB/s=" ++ numbers.kibRate c.bytes ++
    ascii " avg=" ++ numbers.average c.bytes c.records ++
    ascii " max=" ++ decimalBytes c.maxBytes

/-- The lines about a call site. -/
def siteText (file method format : Name) (line : Int) : Name :=
  ascii "   " ++ file ++ ascii ":" ++ signedBytes line ++ ascii " " ++ method ++
    CmdLogs.newline ++ ascii "   format: " ++
    (if format = [] then ascii "<stream or empty>" else format) ++ CmdLogs.newline

/-- The header, and the rows up to the limit or a line that says there are none. -/
def listing (header none : Name) {β : Type} (limit : Nat) (rows : List β)
    (text : Nat → β → Name) : Name :=
  header ++
    if rows.isEmpty then none
    else (rows.take limit).zipIdx.flatMap fun row => text row.2 row.1

/-! ## Reports -/

def noRecords : Name := ascii "No log records collected." ++ CmdLogs.newline

def noOutput : Name := ascii "No backend output collected." ++ CmdLogs.newline

def noActivity : Name :=
  ascii "No asynchronous FileBackend activity collected." ++ CmdLogs.newline

/-- The first lines of a report about no session. -/
def stoppedHeader (title : String) : Name :=
  ascii title ++ ascii ": stopped" ++ CmdLogs.newline ++ ascii "Duration: 0.000 s" ++
    CmdLogs.newline

def sortName : LogStatisticsSort → Name
  | .records => ascii "records"
  | .messageBytes => ascii "message-bytes"

def outputSortName : LogStatisticsSort → Name
  | .records => ascii "records"
  | .messageBytes => ascii "output-bytes"

def fileSortName : LogFileStatisticsSort → Name
  | .writtenBytes => ascii "written-bytes"
  | .writeBatches => ascii "write-batches"
  | .writeErrors => ascii "write-errors"
  | .droppedBytes => ascii "dropped-bytes"

/-- `AppendEntryHeader`. -/
def entryHeader (active : Bool) (numbers : FloatTexts) (sort : LogStatisticsSort)
    (total : Counters) : Name :=
  snprintf 512 (ascii "Log statistics: " ++ runningText active ++ CmdLogs.newline ++
    ascii "Duration: " ++ numbers.duration ++ ascii " s" ++ CmdLogs.newline ++
    ascii "Sort: " ++ sortName sort ++ CmdLogs.newline ++
    ascii "Total: records=" ++ decimalBytes total.records ++
    ascii " message-bytes=" ++ decimalBytes total.bytes ++ CmdLogs.newline)

/-- `AppendOutputHeader`. -/
def outputHeader (active : Bool) (numbers : FloatTexts) (sort : LogStatisticsSort)
    (total : Counters) (backendType : Name) : Name :=
  snprintf 640 (ascii "Log backend statistics: " ++ runningText active ++ CmdLogs.newline ++
    ascii "Duration: " ++ numbers.duration ++ ascii " s" ++ CmdLogs.newline ++
    ascii "Sort: " ++ outputSortName sort ++ CmdLogs.newline ++
    ascii "Backend filter: " ++
    (if backendType = [] then ascii "<all>" else cString backendType) ++ CmdLogs.newline ++
    ascii "Total: records=" ++ decimalBytes total.records ++
    ascii " output-bytes=" ++ decimalBytes total.bytes ++ CmdLogs.newline)

namespace LogStatisticsCollector

section Reports

variable (c : LogStatisticsCollector) (active : Bool) (numbers : FloatTexts)

def formatTop (sort : LogStatisticsSort) (limit : Nat) : Name :=
  let entries := sortedBy
    (descending (sort.value ·.counters) fun a b => decide (a.file < b.file)) c.snapshotEntries
  let total := totalCounters (entries.map EntrySnapshot.counters)
  listing (entryHeader active numbers sort total) noRecords limit entries fun i entry =>
    snprintf 768 (CmdLogs.newline ++
      rowNumbers numbers "message-bytes" sort total i entry.counters ++
      ascii " level=" ++ levelName entry.errorLevel ++
      ascii " channel=" ++ cString entry.channel ++ CmdLogs.newline) ++
    siteText entry.file entry.method entry.format entry.line

def formatChannels (sort : LogStatisticsSort) (limit : Nat) : Name :=
  let channels := sortedBy
    (descending (sort.value ·.2) fun a b => decide (a.1 < b.1)) c.snapshotChannels
  let total := totalCounters (channels.map Prod.snd)
  listing (entryHeader active numbers sort total) noRecords limit channels fun i channel =>
    snprintf 512 (rowNumbers numbers "message-bytes" sort total i channel.2 ++
      ascii " channel=" ++ cString channel.1 ++ CmdLogs.newline)

def formatOutputs (sort : LogStatisticsSort) (limit : Nat) (backendType : Name) : Name :=
  let entries := sortedBy
    (descending (sort.value ·.counters) fun a b =>
      if a.file ≠ b.file then decide (a.file < b.file) else decide (a.line < b.line))
    (c.snapshotBackendEntries backendType)
  let total := totalCounters (entries.map BackendEntrySnapshot.counters)
  listing (outputHeader active numbers sort total backendType) noOutput limit entries
    fun i entry =>
      snprintf 896 (CmdLogs.newline ++
        rowNumbers numbers "output-bytes" sort total i entry.counters ++
        ascii " level=" ++ levelName entry.errorLevel ++
        ascii " channel=" ++ cString entry.destination.1 ++
        ascii " backend=" ++ cString entry.destination.2 ++ CmdLogs.newline) ++
      siteText entry.file entry.method entry.format entry.line

def formatBackends (sort : LogStatisticsSort) (limit : Nat) (backendType : Name) : Name :=
  let backends := sortedBy
    (descending (sort.value ·.2) fun a b =>
      if a.1.1 ≠ b.1.1 then decide (a.1.1 < b.1.1) else decide (a.1.2 < b.1.2))
    (c.snapshotBackends backendType)
  let total := totalCounters (backends.map Prod.snd)
  listing (outputHeader active numbers sort total backendType) noOutput limit backends
    fun i backend =>
      snprintf 640 (rowNumbers numbers "output-bytes" sort total i backend.2 ++
        ascii " channel=" ++ cString backend.1.1 ++
        ascii " backend=" ++ cString backend.1.2 ++ CmdLogs.newline)

end Reports

end LogStatisticsCollector

def LogFileStatisticsSort.value (sort : LogFileStatisticsSort) (b : FileBackendSnapshot) : Nat :=
  match sort with
  | .writtenBytes => b.writtenBytes
  | .writeBatches => b.writeBatches
  | .writeErrors => b.failedWriteOperations
  | .droppedBytes => b.queueDroppedBytes

/-- The line and the block of one `FileBackend`. -/
def fileBackendRow (numbers : FloatTexts) (sort : LogFileStatisticsSort) (total i : Nat)
    (b : FileBackendSnapshot) : Name :=
  let figure (name : String) (n : Nat) : Name := ascii name ++ ascii "=" ++ decimalBytes n
  snprintf 1024 (CmdLogs.newline ++ decimalBytes (i + 1) ++ ascii ". share=" ++
      numbers.share (sort.value b) total ++ ascii "% channel=" ++ cString b.channel ++
      ascii " backend=" ++ cString b.backendType ++ ascii " async=" ++
      (if b.async then ascii "true" else ascii "false") ++ CmdLogs.newline ++
    ascii "   accepted: " ++ figure "records" b.acceptedRecords ++
      figure " bytes" b.acceptedBytes ++
      ascii " records/s=" ++ numbers.rate b.acceptedRecords ++
      ascii " KiB/s=" ++ numbers.kibRate b.acceptedBytes ++ CmdLogs.newline ++
    ascii "   worker: " ++ figure "batches" b.writeBatches ++
      figure " operations" b.writeOperations ++ figure " buffers" b.batchBuffers ++
      figure " input-bytes" b.batchBytes ++
      ascii " avg-buffers=" ++ numbers.average b.batchBuffers b.writeBatches ++
      ascii " avg-bytes=" ++ numbers.average b.batchBytes b.writeBatches ++
      figure " max-buffers" b.maxBatchBuffers ++ figure " max-bytes" b.maxBatchBytes ++
      CmdLogs.newline ++
    ascii "   written: " ++ figure "buffers" b.writtenBuffers ++
      figure " bytes" b.writtenBytes ++
      ascii " KiB/s=" ++ numbers.kibRate b.writtenBytes ++ CmdLogs.newline ++
    ascii "   failures: " ++ figure "batches" b.failedBatches ++
      figure " operations" b.failedWriteOperations ++ figure " buffers" b.failedBuffers ++
      figure " input-bytes" b.failedBytes ++ CmdLogs.newline ++
    ascii "   queue-dropped: " ++ figure "records" b.queueDroppedRecords ++
      figure " bytes" b.queueDroppedBytes ++ CmdLogs.newline) ++
  if b.details = [] then []
  else ascii "   details: " ++ b.details ++ CmdLogs.newline

/-- The backends that `SnapshotFileBackends` does not leave out. -/
def FileBackendSnapshot.shown (b : FileBackendSnapshot) : Bool :=
  !(b.acceptedRecords == 0 && b.queueDroppedRecords == 0 && b.writeBatches == 0)

def formatFileBackends (active : Bool) (numbers : FloatTexts)
    (fileBackends : List FileBackendSnapshot) (sort : LogFileStatisticsSort) (limit : Nat) :
    Name :=
  let backends := sortedBy
    (descending sort.value fun a b =>
      if a.channel ≠ b.channel then decide (a.channel < b.channel)
      else decide (a.backendId < b.backendId))
    (fileBackends.filter FileBackendSnapshot.shown)
  let header := snprintf 512 (ascii "Async FileBackend statistics: " ++ runningText active ++
    CmdLogs.newline ++ ascii "Duration: " ++ numbers.duration ++ ascii " s" ++
    CmdLogs.newline ++ ascii "Sort: " ++ fileSortName sort ++ CmdLogs.newline ++
    ascii "Backends: " ++ decimalBytes backends.length ++ CmdLogs.newline)
  listing header noActivity limit backends
    (fileBackendRow numbers sort (backends.map sort.value).sum)

/-- A line of a status. -/
def statusLine (name : String) (value : Name) : Name :=
  ascii name ++ ascii ": " ++ value ++ CmdLogs.newline

/-- `FormatStatus`; a collector that has been started has a session. -/
def LogStatisticsCollector.formatStatus (c : LogStatisticsCollector) (active : Bool)
    (numbers : FloatTexts) (fileBackends : List FileBackendSnapshot) : Name :=
  let entries := c.snapshotEntries
  let backendEntries := c.snapshotBackendEntries []
  let files := fileBackends.filter FileBackendSnapshot.shown
  let records := totalCounters (entries.map EntrySnapshot.counters)
  let outputs := totalCounters (backendEntries.map BackendEntrySnapshot.counters)
  let sum (value : FileBackendSnapshot → Nat) : Name := decimalBytes (files.map value).sum
  snprintf 768 (statusLine "Log statistics" (runningText active) ++
    statusLine "Session" (ascii "available") ++
    statusLine "Duration" (numbers.duration ++ ascii " s") ++
    statusLine "Site/channel rows" (decimalBytes entries.length) ++
    statusLine "Backend rows" (decimalBytes backendEntries.length) ++
    statusLine "Async file backend rows" (decimalBytes files.length) ++
    statusLine "Records" (decimalBytes records.records) ++
    statusLine "Message bytes" (decimalBytes records.bytes) ++
    statusLine "Backend records" (decimalBytes outputs.records) ++
    statusLine "Backend output bytes" (decimalBytes outputs.bytes) ++
    statusLine "File write batches" (sum FileBackendSnapshot.writeBatches) ++
    statusLine "File written bytes" (sum FileBackendSnapshot.writtenBytes) ++
    statusLine "File failed batches" (sum FileBackendSnapshot.failedBatches) ++
    statusLine "File queue dropped bytes" (sum FileBackendSnapshot.queueDroppedBytes))

/-- The status before the first session. -/
def notStarted : Name :=
  stoppedStatus ++ ["Sites", "Records", "Message bytes", "Backend records",
    "Backend output bytes", "Async file backend rows", "File write batches",
    "File written bytes", "File failed batches", "File queue dropped bytes"].flatMap
      fun name => statusLine name (ascii "0")
where
  stoppedStatus : Name :=
    statusLine "Log statistics" (ascii "stopped") ++
      statusLine "Session" (ascii "not started") ++
      statusLine "Duration" (ascii "0.000 s")

namespace StatisticsSession

/-- The dumps have a fixed text before the first session. -/
def dump (session : StatisticsSession) (unused : Name)
    (format : LogStatisticsCollector → Name) : Name :=
  match session.collector with
  | none => unused
  | some c => format c

section Dumps

variable (session : StatisticsSession) (numbers : FloatTexts)

def dumpLogStatisticsStatus (fileBackends : List FileBackendSnapshot) : Name :=
  session.dump notStarted fun c =>
    c.formatStatus session.active numbers fileBackends

def dumpLogStatisticsTop (o : CmdLogStatistics.ReportOptions) : Name :=
  session.dump (stoppedHeader "Log statistics" ++ noRecords) fun c =>
    c.formatTop session.active numbers o.sort o.limit

def dumpLogStatisticsChannels (o : CmdLogStatistics.ReportOptions) : Name :=
  session.dump (stoppedHeader "Log statistics" ++ noRecords) fun c =>
    c.formatChannels session.active numbers o.sort o.limit

def dumpLogStatisticsOutputs (o : CmdLogStatistics.ReportOptions) : Name :=
  session.dump (stoppedHeader "Log backend statistics" ++ noOutput) fun c =>
    c.formatOutputs session.active numbers o.sort o.limit o.backendType

def dumpLogStatisticsBackends (o : CmdLogStatistics.ReportOptions) : Name :=
  session.dump (stoppedHeader "Log backend statistics" ++ noOutput) fun c =>
    c.formatBackends session.active numbers o.sort o.limit o.backendType

def dumpLogStatisticsFileBackends (fileBackends : List FileBackendSnapshot)
    (o : CmdLogStatistics.FileReportOptions) : Name :=
  session.dump (stoppedHeader "Async FileBackend statistics" ++ noActivity) fun _ =>
    formatFileBackends session.active numbers fileBackends o.sort o.limit

end Dumps

end StatisticsSession

namespace CmdLogStatistics

def helpLines : List String := [
  "logstat start                              Start a new statistics session",
  "logstat stop                               Stop collection and preserve results",
  "logstat status                             Display current session status",
  "logstat reset                              Reset counters without changing active state",
  "logstat top [--sort bytes|records] [--limit count]",
  "                                           Display top source locations",
  "logstat channels [--sort bytes|records] [--limit count]",
  "                                           Display source channel totals",
  "logstat outputs [--sort bytes|records] [--limit count] [--backend type]",
  "                                           Display source sites by destination backend",
  "logstat backends [--sort bytes|records] [--limit count] [--backend type]",
  "                                           Display destination backend totals",
  "logstat files [--sort written-bytes|batches|errors|dropped-bytes] [--limit count]",
  "                                           Display asynchronous FileBackend runtime statistics"]

def replyOf {ε : Type} (options : Except Name ε) (dump : ε → Name) : Name :=
  match options with
  | .error error => errorReply error
  | .ok o => dump o

/-- What `Logger::CommandLogStatistics` answers when it does not change the
statistics. -/
def report (session : StatisticsSession) (numbers : FloatTexts)
    (fileBackends : List FileBackendSnapshot) (arr : List Name) : Name :=
  let operation := (arr[1]?).getD (ascii "status")
  let arguments := arr.drop 2
  if operation = ascii "status" ∨ operation = ascii "stat" ∨ operation = ascii "stats" then
    session.dumpLogStatisticsStatus numbers fileBackends
  else if operation = ascii "top" ∨ operation = ascii "sites" then
    replyOf (parseReportOptions false {} arguments) (session.dumpLogStatisticsTop numbers)
  else if operation = ascii "channels" then
    replyOf (parseReportOptions false {} arguments) (session.dumpLogStatisticsChannels numbers)
  else if operation = ascii "outputs" ∨ operation = ascii "output" then
    replyOf (parseReportOptions true {} arguments) (session.dumpLogStatisticsOutputs numbers)
  else if operation = ascii "backends" then
    replyOf (parseReportOptions true {} arguments) (session.dumpLogStatisticsBackends numbers)
  else if operation = ascii "files" ∨ operation = ascii "file" ∨
      operation = ascii "file-backends" then
    replyOf (parseFileReportOptions {} arguments)
      (session.dumpLogStatisticsFileBackends numbers fileBackends)
  else if operation = ascii "help" then
    helpLines.flatMap fun line => ascii line ++ CmdLogs.newline
  else errorReply (ascii "unknown logstat command: " ++ operation)

/-! ## Every report has a text -/

theorem snprintf_ne_nil {size : Nat} {text : Name} (hsize : 1 < size) (h : text ≠ []) :
    snprintf size text ≠ [] := by
  unfold snprintf
  rw [Ne, List.take_eq_nil_iff, not_or]
  exact ⟨by omega, h⟩

theorem listing_ne_nil {header : Name} (h : header ≠ []) {none : Name} {β : Type}
    {limit : Nat} {rows : List β} {text : Nat → β → Name} :
    listing header none limit rows text ≠ [] :=
  List.append_ne_nil_of_left_ne_nil h _

theorem replyOf_ne_nil {ε : Type} {options : Except Name ε} {dump : ε → Name}
    (h : ∀ o, dump o ≠ []) : replyOf options dump ≠ [] := by
  cases options with
  | error error => exact errorReply_ne_nil error
  | ok o => exact h o

section Dumps

variable {session : StatisticsSession} {numbers : FloatTexts}
  {fileBackends : List FileBackendSnapshot}

theorem entryHeader_ne_nil {active : Bool} {sort : LogStatisticsSort} {total : Counters} :
    entryHeader active numbers sort total ≠ [] :=
  snprintf_ne_nil (by decide) (by simp)

theorem outputHeader_ne_nil {active : Bool} {sort : LogStatisticsSort} {total : Counters}
    {backendType : Name} : outputHeader active numbers sort total backendType ≠ [] :=
  snprintf_ne_nil (by decide) (by simp)

theorem stopped_ne_nil {title : String} {rest : Name} : stoppedHeader title ++ rest ≠ [] := by
  simp [stoppedHeader]

theorem dump_ne_nil {unused : Name} {format : LogStatisticsCollector → Name}
    (hunused : unused ≠ []) (h : ∀ c, format c ≠ []) : session.dump unused format ≠ [] := by
  unfold StatisticsSession.dump
  cases session.collector with
  | none => exact hunused
  | some c => exact h c

theorem dumpStatus_ne_nil : session.dumpLogStatisticsStatus numbers fileBackends ≠ [] := by
  refine dump_ne_nil ?_ fun c => snprintf_ne_nil (by decide) (by simp [statusLine])
  simp [notStarted, notStarted.stoppedStatus, statusLine]

/-- Every answer of `logstat` has a text. -/
theorem report_ne_nil (arr : List Name) : report session numbers fileBackends arr ≠ [] := by
  have hentries : ∀ o : ReportOptions,
      session.dumpLogStatisticsTop numbers o ≠ [] := by
    intro o
    refine dump_ne_nil stopped_ne_nil fun c => ?_
    unfold LogStatisticsCollector.formatTop
    exact listing_ne_nil entryHeader_ne_nil
  have hchannels : ∀ o : ReportOptions,
      session.dumpLogStatisticsChannels numbers o ≠ [] := by
    intro o
    refine dump_ne_nil stopped_ne_nil fun c => ?_
    unfold LogStatisticsCollector.formatChannels
    exact listing_ne_nil entryHeader_ne_nil
  have houtputs : ∀ o : ReportOptions,
      session.dumpLogStatisticsOutputs numbers o ≠ [] := by
    intro o
    refine dump_ne_nil stopped_ne_nil fun c => ?_
    unfold LogStatisticsCollector.formatOutputs
    exact listing_ne_nil outputHeader_ne_nil
  have hbackends : ∀ o : ReportOptions,
      session.dumpLogStatisticsBackends numbers o ≠ [] := by
    intro o
    refine dump_ne_nil stopped_ne_nil fun c => ?_
    unfold LogStatisticsCollector.formatBackends
    exact listing_ne_nil outputHeader_ne_nil
  have hfiles : ∀ o : FileReportOptions,
      session.dumpLogStatisticsFileBackends numbers fileBackends o ≠ [] := by
    intro o
    refine dump_ne_nil stopped_ne_nil fun c => ?_
    unfold formatFileBackends
    exact listing_ne_nil (snprintf_ne_nil (by decide) (by simp))
  unfold report
  dsimp only
  split
  next => exact dumpStatus_ne_nil
  split
  next => exact replyOf_ne_nil hentries
  split
  next => exact replyOf_ne_nil hchannels
  split
  next => exact replyOf_ne_nil houtputs
  split
  next => exact replyOf_ne_nil hbackends
  split
  next => exact replyOf_ne_nil hfiles
  split
  next =>
    rw [helpLines, List.flatMap_cons]
    exact List.append_ne_nil_of_left_ne_nil
      (List.append_ne_nil_of_right_ne_nil _ (List.cons_ne_nil _ _)) _
  next => exact errorReply_ne_nil _

end Dumps

end CmdLogStatistics

end Logme
