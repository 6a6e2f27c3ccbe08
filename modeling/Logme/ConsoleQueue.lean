import Mathlib.Data.List.Perm.Basic
import Logme.RemoveAnsi

/-!
# The queue of the console manager as bytes

The buffer of the manager is a run of bytes: every record stands in it behind
a header with its size.  The records can be told from the bytes alone, the
counters tell their number and size, and the oldest ones can be dropped by
their sizes.  The queue of bytes is the queue of the records that have been
accepted, and what is written for it are the texts of these records.
-/

namespace Logme

/-- What `Push` and `PushAndFlush` are called with; there is no text for a null
pointer, and `PushAndFlush` forces the policy `BLOCK`. -/
structure QueuedPush where
  target : ConsoleTarget
  level : Level
  highlight : Bool
  text : Option (List UInt8)
  forceBlock : Bool

/-- How the section under the lock ends: the function returns, or it waits for
space or drains the queue and tries again, or the buffer cannot grow. -/
inductive PushOutcome where
  | returned (accepted : Bool)
  | waits
  | throws
  deriving DecidableEq

/-- The members under the lock that the queue consists of. -/
structure ConsoleQueue where
  buffer : List UInt8
  queuedRecords : Nat
  queuedBytes : Nat
  maxRecords : Nat
  maxBytes : Nat
  overflowPolicy : ConsoleOverflowPolicy

/-- `std::vector<unsigned char>::max_size`. -/
def vectorMaxSize : Nat := 2 ^ 63 - 1

/-- A number of four bytes in memory. -/
def headerNumber (p : List UInt8) : Nat :=
  (p.getD 0 0).toNat + 256 * (p.getD 1 0).toNat + 256 ^ 2 * (p.getD 2 0).toNat +
    256 ^ 3 * (p.getD 3 0).toNat

/-- The same as an `int`. -/
def headerInt (p : List UInt8) : Int :=
  if headerNumber p < 2 ^ 31 then headerNumber p else headerNumber p - 2 ^ 32

namespace ConsoleQueue

variable (q : ConsoleQueue)

def hasSpace (recordSize : Nat) : Bool :=
  (q.maxRecords = 0 || q.queuedRecords < q.maxRecords) &&
    (q.maxBytes = 0 || q.queuedBytes = 0 ||
      (q.queuedBytes + recordSize) % 2 ^ 64 ≤ q.maxBytes)

/-- The loop of `DropOldest`, with the number of rounds it has at most. -/
def dropOldestLoop (recordSize : Nat) : Nat → ConsoleQueue → Bool × ConsoleQueue
  | 0, q => (q.hasSpace recordSize, q)
  | rounds + 1, q =>
      if q.buffer ≠ [] ∧ q.hasSpace recordSize = false then
        let size := headerNumber q.buffer
        if size = 0 ∨ q.buffer.length < size then (false, q)
        else
          dropOldestLoop recordSize rounds
            { q with
              buffer := q.buffer.drop size
              queuedRecords := (q.queuedRecords + (2 ^ 64 - 1)) % 2 ^ 64
              queuedBytes := (q.queuedBytes + (2 ^ 64 - size)) % 2 ^ 64 }
      else (q.hasSpace recordSize, q)

def dropOldest (recordSize : Nat) : Bool × ConsoleQueue :=
  dropOldestLoop recordSize q.buffer.length q

/-- The header and the text. -/
def recordBytes (push : QueuedPush) (text : List UInt8) : List UInt8 :=
  ConsoleRecord.littleEndian (16 + text.length) ++
    ConsoleRecord.littleEndian text.length ++
    [if push.target = .stderr then 1 else 0, if push.highlight then 1 else 0, 0, 0] ++
    ConsoleRecord.littleEndian push.level.value ++ text

/-- The end of the section, where the record is appended. -/
def append (push : QueuedPush) (text : List UInt8) : PushOutcome × ConsoleQueue :=
  if vectorMaxSize < q.buffer.length + (16 + text.length) then (.throws, q)
  else
    (.returned true,
      { q with
        buffer := q.buffer ++ recordBytes push text
        queuedRecords := (q.queuedRecords + 1) % 2 ^ 64
        queuedBytes := (q.queuedBytes + (16 + text.length)) % 2 ^ 64 })

/-- `PushRecord` up to the end of its section under the lock. -/
def pushRecord (push : QueuedPush) : PushOutcome × ConsoleQueue :=
  match push.text with
  | none => (.returned true, q)
  | some text =>
      let recordSize := 16 + text.length
      if text = [] then (.returned true, q)
      else if 2 ^ 32 - 1 < recordSize then (.returned false, q)
      else if q.hasSpace recordSize then q.append push text
      else
        match if push.forceBlock then ConsoleOverflowPolicy.block
          else q.overflowPolicy with
        | .block => (.waits, q)
        | .dropNew => (.returned true, q)
        | .dropOldest =>
            let dropped := q.dropOldest recordSize
            if dropped.1 then dropped.2.append push text
            else (.returned true, dropped.2)

end ConsoleQueue

/-! ## Writing a buffer -/

/-- A call of `WriteTextUnlocked`. -/
structure ConsoleWrite where
  stream : ConsoleTarget
  text : List UInt8
  color : Option (List UInt8)
  deriving DecidableEq

/-- The lambda `flushPlainBatch`. -/
def batchWrite (batchStream : Option ConsoleTarget) (batch : List UInt8) :
    List ConsoleWrite :=
  match batchStream with
  | none => []
  | some stream => if batch = [] then [] else [⟨stream, batch, none⟩]

/-- The loop of `ProcessBuffer` from `pos`, with the batch and its stream, and
with the number of rounds it has at most: the writes. -/
def processBytes : Nat → Option ConsoleTarget → List UInt8 → List UInt8 →
    List ConsoleWrite
  | 0, batchStream, batch, _ => batchWrite batchStream batch
  | rounds + 1, batchStream, batch, pos =>
      let size := headerNumber pos
      if pos.length < 16 ∨ size < 16 ∨ pos.length < size then
        batchWrite batchStream batch
      else
        let text := (pos.drop 16).take (headerNumber (pos.drop 4))
        let stream := if pos.getD 8 0 ≠ 0 then ConsoleTarget.stderr else .stdout
        let highlight : Bool := pos.getD 9 0 &&& 1 ≠ 0
        let level := headerInt (pos.drop 12)
        let color :=
          if highlight ∧ (Level.warn.value : Int) ≤ level then
            some (if level = Level.warn.value then ConsoleBackend.ansiYellow
              else ConsoleBackend.ansiLightRed)
          else none
        if highlight = false ∧ Colorizer.escByte ∉ text then
          if batchStream = some stream then
            processBytes rounds (some stream) (batch ++ text) (pos.drop size)
          else
            batchWrite batchStream batch ++
              processBytes rounds (some stream) text (pos.drop size)
        else
          batchWrite batchStream batch ++
            ⟨stream, text, color⟩ :: processBytes rounds none [] (pos.drop size)

/-- `ProcessBuffer`. -/
def processQueue (buffer : List UInt8) : List ConsoleWrite :=
  processBytes buffer.length none [] buffer

/-! ## The queue of records -/

/-- The records that go from the front until there is space, and the others. -/
def droppedUntil (space : List ConsoleRecord → Bool) :
    List ConsoleRecord → List ConsoleRecord × List ConsoleRecord
  | [] => ([], [])
  | r :: rest =>
      if space (r :: rest) then ([], r :: rest)
      else (r :: (droppedUntil space rest).1, (droppedUntil space rest).2)

/-- What the queue is for: the records that wait, the buffers that have been
taken out, the records that were dropped as the oldest ones, and all that were
accepted. -/
structure RecordQueue where
  pending : List ConsoleRecord
  taken : List (List ConsoleRecord)
  dropped : List ConsoleRecord
  accepted : List ConsoleRecord
  maxRecords : Nat
  maxBytes : Nat
  overflowPolicy : ConsoleOverflowPolicy

/-- There is space for a record of this size behind the records. -/
def spaceFor (maxRecords maxBytes recordSize : Nat) (pending : List ConsoleRecord) :
    Bool :=
  (maxRecords = 0 || pending.length < maxRecords) &&
    (maxBytes = 0 || ConsoleSystem.queuedBytes pending = 0 ||
      ConsoleSystem.queuedBytes pending + recordSize ≤ maxBytes)

namespace RecordQueue

variable (a : RecordQueue)

def recordOf (push : QueuedPush) (text : List UInt8) : ConsoleRecord :=
  ⟨a.accepted.length, push.target, push.level, push.highlight, text⟩

def drop (recordSize : Nat) : RecordQueue :=
  let split := droppedUntil (spaceFor a.maxRecords a.maxBytes recordSize) a.pending
  { a with pending := split.2, dropped := a.dropped ++ split.1 }

/-- The record is accepted unless the buffer cannot grow by it. -/
def accept (push : QueuedPush) (text : List UInt8) : RecordQueue :=
  if vectorMaxSize < ConsoleSystem.queuedBytes a.pending + (16 + text.length) then a
  else
    { a with
      pending := a.pending ++ [a.recordOf push text]
      accepted := a.accepted ++ [a.recordOf push text] }

def push (push : QueuedPush) : RecordQueue :=
  match push.text with
  | none => a
  | some text =>
      if text = [] ∨ 2 ^ 32 - 1 < 16 + text.length then a
      else if spaceFor a.maxRecords a.maxBytes (16 + text.length) a.pending then
        a.accept push text
      else if push.forceBlock = false ∧ a.overflowPolicy = .dropOldest then
        (a.drop (16 + text.length)).accept push text
      else a

end RecordQueue

/-! ## Runs -/

/-- The consumer takes the buffer when it swaps. -/
inductive QueueStep where
  | push (push : QueuedPush)
  | settings (maxRecords maxBytes : Nat) (policy : ConsoleOverflowPolicy)
  | swap

/-- The queue and the buffers that have been taken out of it. -/
structure QueueRun where
  queue : ConsoleQueue
  taken : List (List UInt8)

def QueueRun.initial : QueueRun := ⟨⟨[], 0, 0, 0, 0, .block⟩, []⟩

def QueueRun.step (run : QueueRun) : QueueStep → QueueRun
  | .push push => { run with queue := (run.queue.pushRecord push).2 }
  | .settings maxRecords maxBytes policy =>
      { run with queue :=
          { run.queue with
            maxRecords := maxRecords, maxBytes := maxBytes, overflowPolicy := policy } }
  | .swap =>
      ⟨{ run.queue with buffer := [], queuedRecords := 0, queuedBytes := 0 },
        run.taken ++ [run.queue.buffer]⟩

def QueueRun.after (steps : List QueueStep) : QueueRun :=
  steps.foldl QueueRun.step .initial

def RecordQueue.initial : RecordQueue := ⟨[], [], [], [], 0, 0, .block⟩

def RecordQueue.step (a : RecordQueue) : QueueStep → RecordQueue
  | .push push => a.push push
  | .settings maxRecords maxBytes policy =>
      { a with maxRecords := maxRecords, maxBytes := maxBytes, overflowPolicy := policy }
  | .swap => { a with pending := [], taken := a.taken ++ [a.pending] }

def RecordQueue.after (steps : List QueueStep) : RecordQueue :=
  steps.foldl RecordQueue.step .initial

/-! ## Frames -/

open ConsoleManager

namespace ConsoleRecord

/-- A record that a push accepts. -/
structure Sendable (r : ConsoleRecord) : Prop where
  text : r.text ≠ []
  size : r.size < 2 ^ 32

@[simp] theorem length_littleEndian (n : Nat) : (littleEndian n).length = 4 := rfl

theorem length_bytes (r : ConsoleRecord) : r.bytes.length = r.size := by
  simp only [bytes, size, List.length_append, length_littleEndian, List.length_cons,
    List.length_nil]

theorem littleEndian_eq (n : Nat) :
    littleEndian n = [UInt8.ofNat n, UInt8.ofNat (n / 256), UInt8.ofNat (n / 256 ^ 2),
      UInt8.ofNat (n / 256 ^ 3)] := by
  simp [littleEndian, List.range_succ]

theorem headerNumber_littleEndian {n : Nat} (hn : n < 2 ^ 32) (rest : List UInt8) :
    headerNumber (littleEndian n ++ rest) = n := by
  have hread : headerNumber (littleEndian n ++ rest) =
      n % 256 + 256 * (n / 256 % 256) + 256 ^ 2 * (n / 256 ^ 2 % 256) +
        256 ^ 3 * (n / 256 ^ 3 % 256) := by
    simp [headerNumber, littleEndian_eq]
  rw [hread]
  omega

/-- The header, the text, and what follows the record. -/
theorem bytes_append (r : ConsoleRecord) (rest : List UInt8) :
    r.bytes ++ rest = littleEndian r.size ++ (littleEndian r.text.length ++
      ([if r.target = .stderr then 1 else 0, if r.highlight then 1 else 0, 0, 0] ++
        (littleEndian r.level.value ++ (r.text ++ rest)))) := by
  simp only [bytes, List.append_assoc]

section Header

variable {r : ConsoleRecord} (h : r.Sendable) (rest : List UInt8)

theorem Sendable.length_text_lt {r : ConsoleRecord} (h : r.Sendable) :
    r.text.length < 2 ^ 32 := by
  have hsize := h.size
  rw [ConsoleRecord.size] at hsize
  omega

include h

theorem Sendable.headerNumber_size : headerNumber (r.bytes ++ rest) = r.size := by
  rw [bytes_append, headerNumber_littleEndian h.size]

theorem Sendable.headerNumber_length :
    headerNumber ((r.bytes ++ rest).drop 4) = r.text.length := by
  rw [bytes_append, List.drop_left' (length_littleEndian _),
    headerNumber_littleEndian h.length_text_lt]

omit h

theorem drop_eight (r : ConsoleRecord) (rest : List UInt8) :
    (r.bytes ++ rest).drop 8 =
      [if r.target = .stderr then 1 else 0, if r.highlight then 1 else 0, 0, 0] ++
        (littleEndian r.level.value ++ (r.text ++ rest)) := by
  rw [bytes_append, ← List.append_assoc, List.drop_left' (by simp)]

theorem drop_twelve (r : ConsoleRecord) (rest : List UInt8) :
    (r.bytes ++ rest).drop 12 = littleEndian r.level.value ++ (r.text ++ rest) := by
  rw [show 12 = 8 + 4 from rfl, ← List.drop_drop, drop_eight]
  rfl

theorem drop_header (r : ConsoleRecord) (rest : List UInt8) :
    (r.bytes ++ rest).drop 16 = r.text ++ rest := by
  rw [show 16 = 12 + 4 from rfl, ← List.drop_drop, drop_twelve,
    List.drop_left' (length_littleEndian _)]

theorem headerInt_level (r : ConsoleRecord) (rest : List UInt8) :
    headerInt ((r.bytes ++ rest).drop 12) = r.level.value := by
  have hlevel : r.level.value < 2 ^ 31 := by
    cases r.level <;> decide
  rw [drop_twelve, headerInt, headerNumber_littleEndian (hlevel.trans (by decide)),
    if_pos hlevel]

theorem getD_target (r : ConsoleRecord) (rest : List UInt8) :
    (r.bytes ++ rest).getD 8 0 = if r.target = .stderr then 1 else 0 := by
  have hdrop : ((r.bytes ++ rest).drop 8)[0]? =
      some (if r.target = .stderr then 1 else 0) := by
    rw [drop_eight]
    rfl
  rw [List.getElem?_drop] at hdrop
  rw [List.getD_eq_getElem?_getD, hdrop, Option.getD_some]

theorem getD_flags (r : ConsoleRecord) (rest : List UInt8) :
    (r.bytes ++ rest).getD 9 0 = if r.highlight then 1 else 0 := by
  have hdrop : ((r.bytes ++ rest).drop 8)[1]? =
      some (if r.highlight then 1 else 0) := by
    rw [drop_eight]
    rfl
  rw [List.getElem?_drop] at hdrop
  rw [List.getD_eq_getElem?_getD, hdrop, Option.getD_some]

theorem drop_size (r : ConsoleRecord) (rest : List UInt8) :
    (r.bytes ++ rest).drop r.size = rest :=
  List.drop_left' r.length_bytes

end Header

end ConsoleRecord

/-! ## What is written -/

/-- One write for these records: the texts one after the other, in the colour
of a single record that is not plain. -/
def writeOf (records : List ConsoleRecord) : ConsoleWrite where
  stream := (records.head?.map ConsoleRecord.target).getD .stdout
  text := records.flatMap ConsoleRecord.text
  color := records.head?.bind ConsoleRecord.escapeSequence

/-- Records that are written together. -/
def WrittenTogether (records : List ConsoleRecord) : Prop :=
  (∃ r, records = [r]) ∨
    ∃ target, ∀ r ∈ records, r.plain = true ∧ r.target = target

/-- The texts of the records are handed to the writer in order, each once and
with its own stream and colour. -/
def HandsOver (writes : List ConsoleWrite) (records : List ConsoleRecord) : Prop :=
  ∃ groups : List (List ConsoleRecord), groups.flatten = records ∧
    (∀ group ∈ groups, group ≠ [] ∧ WrittenTogether group) ∧
    writes = groups.map writeOf

theorem writeOf_singleton (r : ConsoleRecord) :
    writeOf [r] = ⟨r.target, r.text, r.escapeSequence⟩ := by
  simp [writeOf]

/-- The first record of the bytes is written, or joined with the batch. -/
theorem processBytes_frame {r : ConsoleRecord} (h : r.Sendable) (rounds : Nat)
    (batchStream : Option ConsoleTarget) (batch rest : List UInt8) :
    processBytes (rounds + 1) batchStream batch (r.bytes ++ rest) =
      if r.plain then
        if batchStream = some r.target then
          processBytes rounds (some r.target) (batch ++ r.text) rest
        else
          batchWrite batchStream batch ++
            processBytes rounds (some r.target) r.text rest
      else
        batchWrite batchStream batch ++
          writeOf [r] :: processBytes rounds none [] rest := by
  have hlength : (r.bytes ++ rest).length = 16 + r.text.length + rest.length := by
    rw [List.length_append, r.length_bytes, ConsoleRecord.size]
  have hsize : r.size = 16 + r.text.length := rfl
  have htext : ((r.bytes ++ rest).drop 16).take r.text.length = r.text := by
    rw [ConsoleRecord.drop_header, List.take_left' rfl]
  have hstream : (if (r.bytes ++ rest).getD 8 0 ≠ 0 then ConsoleTarget.stderr
      else .stdout) = r.target := by
    rw [ConsoleRecord.getD_target]
    cases r.target <;> rfl
  have hhighlight : decide ((r.bytes ++ rest).getD 9 0 &&& 1 ≠ 0) = r.highlight := by
    rw [ConsoleRecord.getD_flags]
    cases r.highlight <;> rfl
  have hcolor : (if r.highlight = true ∧ (Level.warn.value : Int) ≤ r.level.value then
      some (if (r.level.value : Int) = Level.warn.value then ConsoleBackend.ansiYellow
        else ConsoleBackend.ansiLightRed)
      else none) = r.escapeSequence := by
    have hwarn : ((r.level.value : Int) = Level.warn.value) ↔ r.level = .warn := by
      cases r.level <;> decide
    rw [ConsoleRecord.escapeSequence]
    simp only [hwarn, Int.ofNat_le]
  have hplain : (r.highlight = false ∧ Colorizer.escByte ∉ r.text) ↔ r.plain = true := by
    simp [ConsoleRecord.plain, ConsoleRecord.hasAnsi, Colorizer.escByte]
  rw [processBytes, if_neg (by
    rw [h.headerNumber_size, hlength, hsize]
    omega)]
  simp only [h.headerNumber_size, h.headerNumber_length, htext, hstream, hhighlight,
    ConsoleRecord.headerInt_level, hcolor, hplain, ConsoleRecord.drop_size]
  rw [writeOf_singleton]

/-- A batch with its stream: plain records for this stream, or nothing. -/
def Batched : Option ConsoleTarget → List ConsoleRecord → Prop
  | none, batch => batch = []
  | some target, batch =>
      batch ≠ [] ∧ ∀ r ∈ batch, r.Sendable ∧ r.plain = true ∧ r.target = target

theorem Batched.add {target : ConsoleTarget} {batch : List ConsoleRecord}
    (hbatch : Batched (some target) batch) {r : ConsoleRecord} (hr : r.Sendable)
    (hplain : r.plain = true) (htarget : r.target = target) :
    Batched (some target) (batch ++ [r]) := by
  refine ⟨by simp, ?_⟩
  intro r' hr'
  rcases List.mem_append.mp hr' with hold | hnew
  · exact hbatch.2 r' hold
  · rw [List.mem_singleton.mp hnew]
    exact ⟨hr, hplain, htarget⟩

theorem batched_singleton {r : ConsoleRecord} (hr : r.Sendable)
    (hplain : r.plain = true) : Batched (some r.target) [r] := by
  refine ⟨by simp, ?_⟩
  intro r' hr'
  rw [List.mem_singleton.mp hr']
  exact ⟨hr, hplain, rfl⟩

theorem Batched.batchWrite_eq {stream : Option ConsoleTarget}
    {batch : List ConsoleRecord} (h : Batched stream batch) :
    batchWrite stream (batch.flatMap ConsoleRecord.text) =
      (flushPlainBatch batch).map writeOf := by
  cases stream with
  | none =>
      obtain rfl : batch = [] := h
      rfl
  | some target =>
      obtain ⟨hne, hall⟩ := h
      obtain ⟨r, rest, rfl⟩ := List.exists_cons_of_ne_nil hne
      obtain ⟨hsend, hplain, htarget⟩ := hall r (List.mem_cons_self ..)
      have htext : (r :: rest).flatMap ConsoleRecord.text ≠ [] := by
        rw [List.flatMap_cons]
        exact fun h => hsend.text (List.append_eq_nil_iff.mp h).1
      have hcolor : r.escapeSequence = none := by
        have hlight : r.highlight = false := by
          rw [ConsoleRecord.plain, Bool.and_eq_true, Bool.not_eq_true'] at hplain
          exact hplain.1
        rw [ConsoleRecord.escapeSequence, hlight, if_neg (by simp)]
      rw [batchWrite, if_neg htext, flushPlainBatch, if_neg hne, List.map_singleton,
        writeOf, List.head?_cons, Option.map_some, Option.getD_some, Option.bind_some,
        hcolor, htarget]

theorem processBytes_queueBytes {records : List ConsoleRecord}
    (hrecords : ∀ r ∈ records, r.Sendable) {rounds : Nat}
    (hrounds : records.length ≤ rounds) {stream : Option ConsoleTarget}
    {batch : List ConsoleRecord} (hbatch : Batched stream batch) :
    processBytes rounds stream (batch.flatMap ConsoleRecord.text)
        (queueBytes records) =
      (processRecords stream batch records).map writeOf := by
  induction records generalizing rounds stream batch with
  | nil =>
      rw [processRecords, ← hbatch.batchWrite_eq]
      cases rounds with
      | zero => rfl
      | succ rounds =>
          rw [processBytes, if_pos (.inl (by decide))]
  | cons r rest ih =>
      obtain ⟨hr, hrest⟩ := List.forall_mem_cons.mp hrecords
      obtain ⟨rounds, rfl⟩ := Nat.exists_eq_add_one_of_ne_zero
        (by rw [List.length_cons] at hrounds; omega : rounds ≠ 0)
      have hrounds' : rest.length ≤ rounds := Nat.le_of_succ_le_succ hrounds
      have hone : [r].flatMap ConsoleRecord.text = r.text := by simp
      rw [queueBytes, List.flatMap_cons, ← queueBytes, processBytes_frame hr,
        processRecords]
      split
      next hplain =>
        split
        next hstream =>
          have hadd : Batched stream (batch ++ [r]) := by
            rw [hstream] at hbatch ⊢
            exact hbatch.add hr hplain rfl
          rw [← ih hrest hrounds' hadd, List.flatMap_append, hone, hstream]
        next =>
          rw [List.map_append, ← hbatch.batchWrite_eq,
            ← ih hrest hrounds' (batched_singleton hr hplain), hone]
      next =>
        have hnone : Batched none [] := rfl
        rw [List.map_append, List.map_cons, ← hbatch.batchWrite_eq,
          ← ih hrest hrounds' hnone]
        rfl

theorem mem_flushPlainBatch {batch write : List ConsoleRecord} :
    write ∈ flushPlainBatch batch ↔ write = batch ∧ batch ≠ [] := by
  unfold flushPlainBatch
  split
  next h => simp [h]
  next h => simp [h]

theorem Batched.together {stream : Option ConsoleTarget}
    {batch : List ConsoleRecord} (h : Batched stream batch) (hne : batch ≠ []) :
    WrittenTogether batch := by
  cases stream with
  | none => exact absurd h hne
  | some target => exact .inr ⟨target, fun r hr => (h.2 r hr).2⟩

theorem processRecords_together {records : List ConsoleRecord}
    (hrecords : ∀ r ∈ records, r.Sendable) {stream : Option ConsoleTarget}
    {batch : List ConsoleRecord} (hbatch : Batched stream batch)
    {write : List ConsoleRecord} (h : write ∈ processRecords stream batch records) :
    write ≠ [] ∧ WrittenTogether write := by
  have hflush {stream : Option ConsoleTarget} {batch : List ConsoleRecord}
      (hbatch : Batched stream batch) (h : write ∈ flushPlainBatch batch) :
      write ≠ [] ∧ WrittenTogether write := by
    obtain ⟨rfl, hne⟩ := mem_flushPlainBatch.mp h
    exact ⟨hne, hbatch.together hne⟩
  induction records generalizing stream batch with
  | nil => exact hflush hbatch h
  | cons r rest ih =>
      obtain ⟨hr, hrest⟩ := List.forall_mem_cons.mp hrecords
      rw [processRecords] at h
      split at h
      next hplain =>
        split at h
        next hstream =>
          rw [hstream] at hbatch h
          exact ih hrest (hbatch.add hr hplain rfl) h
        next =>
          rcases List.mem_append.mp h with hbefore | hafter
          · exact hflush hbatch hbefore
          · exact ih hrest (batched_singleton hr hplain) hafter
      next =>
        rcases List.mem_append.mp h with hbefore | hafter
        · exact hflush hbatch hbefore
        · rcases List.mem_cons.mp hafter with rfl | hlater
          · exact ⟨by simp, .inl ⟨r, rfl⟩⟩
          · have hempty : Batched none [] := rfl
            exact ih hrest hempty hlater

theorem length_queueBytes (records : List ConsoleRecord) :
    (queueBytes records).length = ConsoleSystem.queuedBytes records := by
  rw [queueBytes, List.length_flatMap, ConsoleSystem.queuedBytes]
  simp only [ConsoleRecord.length_bytes]

theorem length_le_queueBytes (records : List ConsoleRecord) :
    records.length ≤ (queueBytes records).length := by
  induction records with
  | nil => exact Nat.le_refl _
  | cons r rest ih =>
      have hsize : r.bytes.length = 16 + r.text.length := r.length_bytes
      rw [queueBytes, List.flatMap_cons, ← queueBytes, List.length_append,
        List.length_cons]
      omega

/-- The bytes of a queue are written as the records that they consist of. -/
theorem handsOver_processQueue {records : List ConsoleRecord}
    (hrecords : ∀ r ∈ records, r.Sendable) :
    HandsOver (processQueue (queueBytes records)) records := by
  have hbatch : Batched none [] := rfl
  refine ⟨processBuffer records, flatten_processBuffer records, ?_, ?_⟩
  · intro group hgroup
    exact processRecords_together hrecords hbatch hgroup
  · exact processBytes_queueBytes hrecords (length_le_queueBytes records) hbatch

/-! ## The queue of bytes holds the records -/

structure ConsoleQueue.Holds (q : ConsoleQueue) (pending : List ConsoleRecord) :
    Prop where
  buffer : q.buffer = queueBytes pending
  queuedRecords : q.queuedRecords = pending.length
  queuedBytes : q.queuedBytes = ConsoleSystem.queuedBytes pending
  sendable : ∀ r ∈ pending, r.Sendable
  bounded : ConsoleSystem.queuedBytes pending ≤ vectorMaxSize

/-- The limits are those of the other queue. -/
def ConsoleQueue.SameLimits (q q' : ConsoleQueue) : Prop :=
  q'.maxRecords = q.maxRecords ∧ q'.maxBytes = q.maxBytes ∧
    q'.overflowPolicy = q.overflowPolicy

namespace ConsoleQueue

theorem Holds.hasSpace_eq {q : ConsoleQueue} {pending : List ConsoleRecord}
    (h : q.Holds pending) {recordSize : Nat} (hsize : recordSize < 2 ^ 32) :
    q.hasSpace recordSize = spaceFor q.maxRecords q.maxBytes recordSize pending := by
  have hbound := h.bounded
  rw [vectorMaxSize] at hbound
  rw [hasSpace, spaceFor, h.queuedRecords, h.queuedBytes, Nat.mod_eq_of_lt (by omega)]

theorem spaceFor_nil (maxRecords maxBytes recordSize : Nat) :
    spaceFor maxRecords maxBytes recordSize [] = true := by
  rw [spaceFor, ConsoleSystem.queuedBytes]
  simp only [List.length_nil, List.map_nil, List.sum_nil, decide_true, Bool.or_true,
    Bool.true_or, Bool.and_true, Bool.or_eq_true, decide_eq_true_eq]
  omega

theorem queuedBytes_cons (r : ConsoleRecord) (rest : List ConsoleRecord) :
    ConsoleSystem.queuedBytes (r :: rest) = r.size + ConsoleSystem.queuedBytes rest := by
  rw [ConsoleSystem.queuedBytes, List.map_cons, List.sum_cons, ConsoleSystem.queuedBytes]

/-- The oldest record goes as a whole. -/
theorem Holds.tail {q : ConsoleQueue} {r : ConsoleRecord} {rest : List ConsoleRecord}
    (h : q.Holds (r :: rest)) :
    { q with
      buffer := q.buffer.drop (headerNumber q.buffer)
      queuedRecords := (q.queuedRecords + (2 ^ 64 - 1)) % 2 ^ 64
      queuedBytes := (q.queuedBytes + (2 ^ 64 - headerNumber q.buffer)) % 2 ^ 64 :
      ConsoleQueue }.Holds rest := by
  obtain ⟨hr, hrest⟩ := List.forall_mem_cons.mp h.sendable
  have hbuffer : q.buffer = r.bytes ++ queueBytes rest := h.buffer
  have hsize : headerNumber q.buffer = r.size := by
    rw [hbuffer, hr.headerNumber_size]
  have hbytes := queuedBytes_cons r rest
  have hbound := h.bounded
  have hlength : (r :: rest).length ≤ ConsoleSystem.queuedBytes (r :: rest) :=
    (length_le_queueBytes _).trans_eq (length_queueBytes _)
  have hcons : (r :: rest).length = rest.length + 1 := List.length_cons
  rw [vectorMaxSize] at hbound
  constructor
  · dsimp only
    rw [hsize, hbuffer, ConsoleRecord.drop_size]
  · dsimp only
    rw [h.queuedRecords]
    omega
  · dsimp only
    rw [h.queuedBytes, hsize]
    omega
  · exact hrest
  · rw [vectorMaxSize]
    omega

theorem Holds.dropOldestLoop {rounds : Nat} {q : ConsoleQueue}
    {pending : List ConsoleRecord} (h : q.Holds pending) {recordSize : Nat}
    (hsize : recordSize < 2 ^ 32) (hrounds : pending.length ≤ rounds) :
    (dropOldestLoop recordSize rounds q).1 = true ∧
      (dropOldestLoop recordSize rounds q).2.Holds
        (droppedUntil (spaceFor q.maxRecords q.maxBytes recordSize) pending).2 ∧
      q.SameLimits (dropOldestLoop recordSize rounds q).2 := by
  induction rounds generalizing q pending with
  | zero =>
      obtain rfl := List.eq_nil_of_length_eq_zero (Nat.le_zero.mp hrounds)
      refine ⟨?_, h, rfl, rfl, rfl⟩
      rw [ConsoleQueue.dropOldestLoop, h.hasSpace_eq hsize, spaceFor_nil]
  | succ rounds ih =>
      rw [ConsoleQueue.dropOldestLoop]
      cases pending with
      | nil =>
          rw [if_neg fun hc => hc.1 h.buffer]
          refine ⟨?_, h, rfl, rfl, rfl⟩
          rw [h.hasSpace_eq hsize, spaceFor_nil]
      | cons r rest =>
          have hspace := h.hasSpace_eq hsize
          rw [droppedUntil]
          cases hfree : spaceFor q.maxRecords q.maxBytes recordSize (r :: rest) with
          | true =>
              rw [hfree] at hspace
              rw [if_neg fun hc => absurd (hc.2.symm.trans hspace) (by decide)]
              exact ⟨hspace, h, rfl, rfl, rfl⟩
          | false =>
              rw [hfree] at hspace
              obtain ⟨hr, -⟩ := List.forall_mem_cons.mp h.sendable
              have hbuffer : q.buffer = r.bytes ++ queueBytes rest := h.buffer
              have hnumber : headerNumber q.buffer = r.size := by
                rw [hbuffer, hr.headerNumber_size]
              have hlength : q.buffer.length = r.size + (queueBytes rest).length := by
                rw [hbuffer, List.length_append, r.length_bytes]
              have hpos : r.size = 16 + r.text.length := rfl
              have hne : q.buffer ≠ [] := by
                intro hnil
                rw [hnil, List.length_nil] at hlength
                omega
              rw [if_pos ⟨hne, hspace⟩]
              dsimp only
              rw [if_neg (by rw [hnumber]; omega)]
              obtain ⟨htrue, hholds, hlimits⟩ := ih h.tail
                (Nat.le_of_succ_le_succ hrounds)
              exact ⟨htrue, hholds, hlimits⟩

theorem recordBytes_eq (push : QueuedPush) (text : List UInt8) (id : Nat) :
    recordBytes push text =
      (⟨id, push.target, push.level, push.highlight, text⟩ : ConsoleRecord).bytes := rfl

theorem queuedBytes_concat (pending : List ConsoleRecord) (r : ConsoleRecord) :
    ConsoleSystem.queuedBytes (pending ++ [r]) =
      ConsoleSystem.queuedBytes pending + r.size := by
  rw [ConsoleSystem.queuedBytes, List.map_append, List.sum_append, List.map_singleton,
    List.sum_singleton, ConsoleSystem.queuedBytes]

end ConsoleQueue

/-- The queue of bytes holds what waits in the queue of records, under the same
limits. -/
structure Represents (q : ConsoleQueue) (a : RecordQueue) : Prop where
  holds : q.Holds a.pending
  maxRecords : q.maxRecords = a.maxRecords
  maxBytes : q.maxBytes = a.maxBytes
  overflowPolicy : q.overflowPolicy = a.overflowPolicy

namespace Represents

variable {q : ConsoleQueue} {a : RecordQueue}

theorem append (h : Represents q a) {push : QueuedPush} {text : List UInt8}
    (hne : text ≠ []) (hsize : 16 + text.length < 2 ^ 32) :
    Represents (q.append push text).2 (a.accept push text) := by
  have hlength : q.buffer.length = ConsoleSystem.queuedBytes a.pending := by
    rw [h.holds.buffer, length_queueBytes]
  have hsend : (a.recordOf push text).Sendable := ⟨hne, hsize⟩
  rw [ConsoleQueue.append, RecordQueue.accept, hlength]
  split
  next => exact h
  next hroom =>
    have hrecord : (a.recordOf push text).size = 16 + text.length := rfl
    have hbytes := ConsoleQueue.queuedBytes_concat a.pending (a.recordOf push text)
    have hrecords : a.pending.length ≤ ConsoleSystem.queuedBytes a.pending :=
      (length_le_queueBytes _).trans_eq (length_queueBytes _)
    refine ⟨?_, h.maxRecords, h.maxBytes, h.overflowPolicy⟩
    rw [vectorMaxSize] at hroom
    constructor
    · dsimp only
      rw [h.holds.buffer, ConsoleQueue.recordBytes_eq push text a.accepted.length,
        queueBytes, queueBytes, List.flatMap_append, List.flatMap_singleton]
      rfl
    · dsimp only
      rw [h.holds.queuedRecords, List.length_append, List.length_singleton]
      omega
    · dsimp only
      rw [h.holds.queuedBytes, hbytes, hrecord]
      omega
    · intro r hr
      rcases List.mem_append.mp hr with hold | hnew
      · exact h.holds.sendable r hold
      · rwa [List.mem_singleton.mp hnew]
    · dsimp only
      rw [vectorMaxSize, hbytes, hrecord]
      omega

theorem dropOldest (h : Represents q a) {recordSize : Nat}
    (hsize : recordSize < 2 ^ 32) :
    (q.dropOldest recordSize).1 = true ∧
      Represents (q.dropOldest recordSize).2 (a.drop recordSize) := by
  have hrounds : a.pending.length ≤ q.buffer.length := by
    rw [h.holds.buffer]
    exact length_le_queueBytes _
  obtain ⟨htrue, hholds, hrecords, hbytes, hpolicy⟩ :=
    h.holds.dropOldestLoop hsize hrounds
  refine ⟨htrue, ?_, hrecords.trans h.maxRecords, hbytes.trans h.maxBytes,
    hpolicy.trans h.overflowPolicy⟩
  rw [RecordQueue.drop]
  rwa [h.maxRecords, h.maxBytes] at hholds

theorem push (h : Represents q a) (push : QueuedPush) :
    Represents (q.pushRecord push).2 (a.push push) := by
  rw [ConsoleQueue.pushRecord, RecordQueue.push]
  cases push.text with
  | none => exact h
  | some text =>
      dsimp only
      by_cases hnil : text = []
      · rw [if_pos hnil, if_pos (.inl hnil)]
        exact h
      · by_cases hlong : 2 ^ 32 - 1 < 16 + text.length
        · rw [if_neg hnil, if_pos hlong, if_pos (.inr hlong)]
          exact h
        · have hsize : 16 + text.length < 2 ^ 32 := by omega
          rw [if_neg hnil, if_neg hlong, if_neg (not_or.mpr ⟨hnil, hlong⟩),
            h.holds.hasSpace_eq hsize, h.maxRecords, h.maxBytes, h.overflowPolicy]
          split
          next => exact h.append hnil hsize
          next =>
            obtain ⟨htrue, hdrop⟩ := h.dropOldest hsize
            cases push.forceBlock with
            | true => exact h
            | false =>
                cases a.overflowPolicy with
                | block => exact h
                | dropNew => exact h
                | dropOldest =>
                    rw [if_neg (by decide), if_pos htrue, if_pos ⟨rfl, rfl⟩]
                    exact hdrop.append hnil hsize

end Represents

/-! ## The buffer of the threads -/

namespace ConsoleSystem

variable {τ : Type} [DecidableEq τ]

/-- The buffer of the system as a queue of records. -/
def queueOf (s : ConsoleSystem τ) : RecordQueue where
  pending := s.buffer
  taken := []
  dropped := []
  accepted := s.pushed
  maxRecords := s.maxRecords
  maxBytes := s.maxBytes
  overflowPolicy := s.overflowPolicy

def pushOf (call : PushCall) : QueuedPush :=
  ⟨call.target, call.level, call.highlight, some call.text, call.flush⟩

omit [DecidableEq τ] in
theorem dropOldest_eq (s : ConsoleSystem τ) (recordSize : Nat)
    (pending : List ConsoleRecord) :
    s.dropOldest recordSize pending =
      droppedUntil (spaceFor s.maxRecords s.maxBytes recordSize) pending := by
  induction pending with
  | nil => rfl
  | cons r rest ih =>
      rw [dropOldest, droppedUntil, ih]
      rfl

theorem spaceFor_droppedUntil (maxRecords maxBytes recordSize : Nat)
    (pending : List ConsoleRecord) :
    spaceFor maxRecords maxBytes recordSize
      (droppedUntil (spaceFor maxRecords maxBytes recordSize) pending).2 = true := by
  induction pending with
  | nil => exact ConsoleQueue.spaceFor_nil _ _ _
  | cons r rest ih =>
      rw [droppedUntil]
      split
      next h => exact h
      next => exact ih

theorem queuedBytes_droppedUntil_le (space : List ConsoleRecord → Bool)
    (pending : List ConsoleRecord) :
    queuedBytes (droppedUntil space pending).2 ≤ queuedBytes pending := by
  induction pending with
  | nil => exact Nat.le_refl _
  | cons r rest ih =>
      rw [droppedUntil, ConsoleQueue.queuedBytes_cons]
      split
      next => exact (ConsoleQueue.queuedBytes_cons r rest).le
      next => exact ih.trans (Nat.le_add_left _ _)

theorem accept_pending {a : RecordQueue} {push : QueuedPush} {text : List UInt8}
    (hroom : queuedBytes a.pending + (16 + text.length) ≤ vectorMaxSize) :
    (a.accept push text).pending = a.pending ++ [a.recordOf push text] := by
  rw [RecordQueue.accept, if_neg (Nat.not_lt.mpr hroom)]

theorem block_buffer (s : ConsoleSystem τ) (t : τ) (call : PushCall)
    (hspace : s.hasSpace s.buffer (s.recordOf call).size = false) :
    (s.block t call).buffer = s.buffer := by
  rw [block, hspace, if_neg (by decide)]
  split <;> rfl

/-- A push by a thread does to the buffer what it does to the queue. -/
theorem pushRecord_buffer (s : ConsoleSystem τ) (t : τ) {call : PushCall}
    (hne : call.text ≠ []) (hsize : 16 + call.text.length < 2 ^ 32)
    (hroom : queuedBytes s.buffer + (16 + call.text.length) ≤ vectorMaxSize) :
    (s.pushRecord t call).buffer = (s.queueOf.push (pushOf call)).pending := by
  have hlong : ¬ (call.text = [] ∨ 2 ^ 32 - 1 < 16 + call.text.length) :=
    not_or.mpr ⟨hne, by omega⟩
  have hrecord : (s.recordOf call).size = 16 + call.text.length := rfl
  rw [RecordQueue.push, pushOf]
  dsimp only
  rw [if_neg hlong, pushRecord, hrecord]
  cases hspace : s.hasSpace s.buffer (16 + call.text.length) with
  | true =>
      have hfree : spaceFor s.queueOf.maxRecords s.queueOf.maxBytes
          (16 + call.text.length) s.queueOf.pending = true := hspace
      rw [if_pos rfl, if_pos hfree, accept_pending hroom]
      rfl
  | false =>
      have hfull : ¬ spaceFor s.queueOf.maxRecords s.queueOf.maxBytes
          (16 + call.text.length) s.queueOf.pending = true :=
        fun h => absurd (hspace.symm.trans h) (by decide)
      rw [if_neg (by decide), if_neg hfull]
      cases hflush : call.flush with
      | true =>
          rw [if_pos rfl, if_neg (by simp)]
          exact s.block_buffer t call hspace
      | false =>
          rw [if_neg (by decide)]
          cases hpolicy : s.overflowPolicy with
          | block =>
              have hother : ¬ (false = false ∧
                  s.queueOf.overflowPolicy = .dropOldest) := by
                simp [queueOf, hpolicy]
              rw [if_neg hother]
              exact s.block_buffer t call hspace
          | dropNew =>
              have hother : ¬ (false = false ∧
                  s.queueOf.overflowPolicy = .dropOldest) := by
                simp [queueOf, hpolicy]
              rw [if_neg hother]
              rfl
          | dropOldest =>
              dsimp only
              have hfree : s.hasSpace (droppedUntil (spaceFor s.maxRecords s.maxBytes
                  (16 + call.text.length)) s.buffer).2 (16 + call.text.length) = true :=
                spaceFor_droppedUntil _ _ _ _
              have hkept := queuedBytes_droppedUntil_le (spaceFor s.maxRecords s.maxBytes
                (16 + call.text.length)) s.buffer
              rw [dropOldest_eq, hfree, if_pos rfl, if_pos ⟨rfl, hpolicy⟩,
                accept_pending ((Nat.add_le_add_right hkept _).trans hroom)]
              rfl

/-- The bytes of the manager are those of the system's buffer, before and after
a push. -/
theorem pushRecord_holds {s : ConsoleSystem τ} {q : ConsoleQueue}
    (hq : Represents q s.queueOf) (t : τ) {call : PushCall}
    (hne : call.text ≠ []) (hsize : 16 + call.text.length < 2 ^ 32)
    (hroom : queuedBytes s.buffer + (16 + call.text.length) ≤ vectorMaxSize) :
    (q.pushRecord (pushOf call)).2.Holds (s.pushRecord t call).buffer := by
  rw [s.pushRecord_buffer t hne hsize hroom]
  exact (hq.push (pushOf call)).holds

end ConsoleSystem

/-! ## What becomes of the records -/

theorem droppedUntil_append (space : List ConsoleRecord → Bool)
    (pending : List ConsoleRecord) :
    (droppedUntil space pending).1 ++ (droppedUntil space pending).2 = pending := by
  induction pending with
  | nil => rfl
  | cons r rest ih =>
      rw [droppedUntil]
      split
      next => rfl
      next => rw [List.cons_append, ih]

namespace RecordQueue

/-- A push drops some of the oldest records and adds at most its own. -/
structure PushChange (a a' : RecordQueue) (gone kept added : List ConsoleRecord) :
    Prop where
  pending : a.pending = gone ++ kept
  pending' : a'.pending = kept ++ added
  dropped : a'.dropped = a.dropped ++ gone
  accepted : a'.accepted = a.accepted ++ added
  taken : a'.taken = a.taken
  added : added.length ≤ 1

theorem pushChange_refl (a : RecordQueue) : PushChange a a [] a.pending [] where
  pending := rfl
  pending' := (List.append_nil _).symm
  dropped := (List.append_nil _).symm
  accepted := (List.append_nil _).symm
  taken := rfl
  added := Nat.zero_le 1

theorem PushChange.accept {a a' : RecordQueue} {gone kept : List ConsoleRecord}
    (h : PushChange a a' gone kept []) (push : QueuedPush) (text : List UInt8) :
    ∃ added, PushChange a (a'.accept push text) gone kept added := by
  have hpending : a'.pending = kept := h.pending'.trans (List.append_nil _)
  have haccepted : a'.accepted = a.accepted := h.accepted.trans (List.append_nil _)
  rw [RecordQueue.accept]
  split
  next => exact ⟨[], h⟩
  next =>
    refine ⟨[a'.recordOf push text], h.pending, ?_, h.dropped, ?_, h.taken, le_rfl⟩
    · rw [hpending]
    · rw [haccepted]

theorem pushChange_drop (a : RecordQueue) (recordSize : Nat) :
    ∃ gone kept, PushChange a (a.drop recordSize) gone kept [] := by
  refine ⟨_, _, (droppedUntil_append _ a.pending).symm, ?_, rfl, ?_, rfl,
    Nat.zero_le 1⟩
  · exact (List.append_nil _).symm
  · exact (List.append_nil _).symm

theorem pushChange_push (a : RecordQueue) (push : QueuedPush) :
    ∃ gone kept added, PushChange a (a.push push) gone kept added := by
  have hrefl : ∃ gone kept added, PushChange a a gone kept added :=
    ⟨_, _, _, pushChange_refl a⟩
  rw [RecordQueue.push]
  cases push.text with
  | none => exact hrefl
  | some text =>
      dsimp only
      split
      next => exact hrefl
      next =>
        split
        next => exact ⟨_, _, (pushChange_refl a).accept push text⟩
        next =>
          split
          next =>
            obtain ⟨gone, kept, hdrop⟩ := pushChange_drop a (16 + text.length)
            exact ⟨gone, kept, hdrop.accept push text⟩
          next => exact hrefl

/-- Every accepted record has been dropped, has been taken out or waits, and
those that were not dropped have kept their order. -/
structure Conserves (a : RecordQueue) : Prop where
  perm : a.accepted.Perm (a.dropped ++ (a.taken.flatten ++ a.pending))
  ordered : (a.taken.flatten ++ a.pending).Sublist a.accepted

theorem Conserves.pushChange {a a' : RecordQueue} {gone kept added : List ConsoleRecord}
    (h : a.Conserves) (hchange : PushChange a a' gone kept added) : a'.Conserves := by
  have hperm := h.perm
  have hordered := h.ordered
  rw [hchange.pending] at hperm hordered
  constructor
  · rw [hchange.accepted, hchange.dropped, hchange.taken, hchange.pending']
    refine (hperm.append_right added).trans ?_
    have hswap : (a.taken.flatten ++ (gone ++ kept)).Perm
        (gone ++ (a.taken.flatten ++ kept)) := by
      rw [← List.append_assoc, ← List.append_assoc]
      exact List.perm_append_comm.append_right kept
    have hrest := (hswap.append_left a.dropped).append_right added
    simpa only [List.append_assoc] using hrest
  · rw [hchange.accepted, hchange.taken, hchange.pending', ← List.append_assoc]
    refine List.Sublist.append_right ?_ added
    refine List.Sublist.trans ?_ hordered
    exact List.Sublist.append_left (List.sublist_append_right gone kept) _

theorem Conserves.step {a : RecordQueue} (h : a.Conserves) (step : QueueStep) :
    (a.step step).Conserves := by
  cases step with
  | push push =>
      obtain ⟨gone, kept, added, hchange⟩ := pushChange_push a push
      exact h.pushChange hchange
  | settings maxRecords maxBytes policy => exact ⟨h.perm, h.ordered⟩
  | swap =>
      have hflatten : (a.taken ++ [a.pending]).flatten ++ [] =
          a.taken.flatten ++ a.pending := by simp
      constructor
      · rw [RecordQueue.step, hflatten]
        exact h.perm
      · rw [RecordQueue.step, hflatten]
        exact h.ordered

end RecordQueue

/-! ## Every run -/

/-- The run of the bytes is that of the records. -/
structure RunRepresents (run : QueueRun) (a : RecordQueue) : Prop where
  queue : Represents run.queue a
  taken : run.taken = a.taken.map queueBytes
  sendable : ∀ batch ∈ a.taken, ∀ r ∈ batch, r.Sendable

theorem RunRepresents.step {run : QueueRun} {a : RecordQueue}
    (h : RunRepresents run a) (step : QueueStep) :
    RunRepresents (run.step step) (a.step step) := by
  cases step with
  | push push =>
      obtain ⟨gone, kept, added, hchange⟩ := RecordQueue.pushChange_push a push
      refine ⟨h.queue.push push, ?_, ?_⟩
      · rw [RecordQueue.step, hchange.taken]
        exact h.taken
      · rw [RecordQueue.step, hchange.taken]
        exact h.sendable
  | settings maxRecords maxBytes policy =>
      have hholds := h.queue.holds
      refine ⟨⟨?_, rfl, rfl, rfl⟩, h.taken, h.sendable⟩
      exact ⟨hholds.buffer, hholds.queuedRecords, hholds.queuedBytes,
        hholds.sendable, hholds.bounded⟩
  | swap =>
      refine ⟨⟨⟨rfl, rfl, rfl, by simp [RecordQueue.step], ?_⟩, h.queue.maxRecords,
        h.queue.maxBytes, h.queue.overflowPolicy⟩, ?_, ?_⟩
      · exact Nat.zero_le _
      · rw [QueueRun.step, RecordQueue.step, List.map_append, List.map_singleton,
          h.taken, h.queue.holds.buffer]
      · intro batch hbatch
        rcases List.mem_append.mp hbatch with hold | hnew
        · exact h.sendable batch hold
        · rw [List.mem_singleton.mp hnew]
          exact h.queue.holds.sendable

theorem after_represents (steps : List QueueStep) :
    RunRepresents (QueueRun.after steps) (RecordQueue.after steps) ∧
      (RecordQueue.after steps).Conserves := by
  induction steps using List.reverseRecOn with
  | nil =>
      refine ⟨⟨⟨⟨rfl, rfl, rfl, ?_, Nat.zero_le _⟩, rfl, rfl, rfl⟩, rfl, ?_⟩, ?_⟩
      · exact fun r hr => absurd hr List.not_mem_nil
      · exact fun batch hbatch => absurd hbatch List.not_mem_nil
      · exact ⟨.refl _, List.Sublist.refl _⟩
  | append_singleton steps step ih =>
      rw [QueueRun.after, RecordQueue.after, List.foldl_append, List.foldl_append]
      exact ⟨ih.1.step step, ih.2.step step⟩

/-- The buffer consists of the frames of whole records and the counters are
right; what has been taken out are frames too, and their texts are handed to the
writer. -/
structure QueueConsistent (run : QueueRun) (a : RecordQueue) : Prop where
  framed : run.queue.buffer = a.pending.flatMap ConsoleRecord.bytes
  queuedRecords : run.queue.queuedRecords = a.pending.length
  queuedBytes : run.queue.queuedBytes = (a.pending.map ConsoleRecord.size).sum
  size : run.queue.queuedBytes = run.queue.buffer.length
  taken : run.taken = a.taken.map fun batch => batch.flatMap ConsoleRecord.bytes
  written : ∀ batch, batch = a.pending ∨ batch ∈ a.taken →
    HandsOver (processQueue (batch.flatMap ConsoleRecord.bytes)) batch
  conserved : a.Conserves

/-- In every run, with limits that may change at any time. -/
theorem queue_consistent (steps : List QueueStep) :
    QueueConsistent (QueueRun.after steps) (RecordQueue.after steps) ∧
      ∀ push, ∃ gone kept added, RecordQueue.PushChange (RecordQueue.after steps)
        (RecordQueue.after (steps ++ [.push push])) gone kept added := by
  obtain ⟨hrun, hconserves⟩ := after_represents steps
  have hholds := hrun.queue.holds
  constructor
  · constructor
    · exact hholds.buffer
    · exact hholds.queuedRecords
    · exact hholds.queuedBytes
    · rw [hholds.queuedBytes, hholds.buffer, length_queueBytes]
    · exact hrun.taken
    · rintro batch (rfl | hbatch)
      · exact handsOver_processQueue hholds.sendable
      · exact handsOver_processQueue (hrun.sendable batch hbatch)
    · exact hconserves
  · intro push
    have hafter : RecordQueue.after (steps ++ [.push push]) =
        (RecordQueue.after steps).push push := by
      rw [RecordQueue.after, List.foldl_append]
      rfl
    rw [hafter]
    exact RecordQueue.pushChange_push _ push

end Logme
