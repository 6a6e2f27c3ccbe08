import Logme.FileArchivePolicy
import Logme.FileBackendTransfer
import Logme.FileTimeRotationPolicy
import Logme.Library.SegmentedStream
import Logme.LogFile

/-!
# Rotation of the log file

The file below a backend with an archive template.  A file that is complete
is renamed to a name that `TakeName` finds, and a new one is created under
the active name.  The directory and the clock belong to the state, and so do
the answers that the system gives to the calls that can fail; writing to an
open file succeeds.  Retention and compression are left out.
-/

namespace Logme

inductive SizeLimitPolicy where
  | truncate
  | rotate
  deriving DecidableEq

inductive FileCompletionReason where
  | timeLimit
  | sizeLimit
  deriving DecidableEq

/-- The active name is what `NameTemplate` expands to at a time. -/
structure RotationConfig where
  fileName : Int → String
  named : ∀ now, fileName now ≠ ""
  onSizeLimit : SizeLimitPolicy
  maxSize : Nat
  append : Bool
  zone : TimeZone

/-- The clock, and which of the calls that `CompleteCurrentFile` makes fail. -/
structure Surroundings where
  now : Int
  createFails : Bool
  renameFails : Bool
  openFails : Bool

/-- A completed file, and how many bytes were in it when it was opened. -/
structure Archive where
  time : Int
  name : String
  inherited : Nat

/-- The last four fields are a history: the completed files, the number of
bytes that were in the active file when it was opened, the largest record or
batch so far, and whether anything irregular has happened.  That is a call
that failed or a write too long for the `int` result, a search for an archive
name without end, a truncation, or an archive opened as the active file. -/
structure RotatingLog where
  fs : FileSystem String UInt8
  file : Option Descriptor
  name : String
  currentSize : Nat
  archive : FileArchivePolicy
  time : FileTimeRotationPolicy
  system : Surroundings
  archives : List Archive
  inherited : Nat
  largest : Nat
  disturbed : Bool

namespace RotatingLog

def closeLog (l : RotatingLog) : RotatingLog := { l with file := none }

/-- `Open`, on a closed file. -/
def openLog (l : RotatingLog) (append : Bool) : Bool × RotatingLog :=
  if l.system.openFails then (false, { l with disturbed := true })
  else
    match l.fs.openFile l.name (!append) with
    | (d, fs) =>
        (true,
          { l with
            fs := fs
            file := some d
            inherited := (fs.content d.file).length })

/-- `Seek(0, SEEK_END)` -/
def seek (l : RotatingLog) : Option (Nat × RotatingLog) :=
  match l.file with
  | none => none
  | some d =>
      let size := (l.fs.content d.file).length
      some (size, { l with file := some ⟨d.file, size⟩ })

def seekEnd (l : RotatingLog) : Bool × RotatingLog :=
  match l.seek with
  | none => (false, { l with disturbed := true })
  | some (size, l) => (true, { l with currentSize := size })

def createLog (cfg : RotationConfig) (l : RotatingLog) (append : Bool) :
    Bool × RotatingLog :=
  let l := { l.closeLog with name := cfg.fileName l.system.now }
  match l.openLog append with
  | (false, l) => (false, l)
  | (true, l) =>
      if append then l.seekEnd else (true, { l with currentSize := 0 })

def reopenCurrentLog (cfg : RotationConfig) (l : RotatingLog) : RotatingLog :=
  (createLog cfg { l with disturbed := true } true).2

/-- The time under which `CompleteCurrentFile` archives the file. -/
def completionTime (l : RotatingLog) (completedArchiveTime : Int) : Int :=
  if completedArchiveTime ≠ 0 then completedArchiveTime
  else if l.archive.archiveTime ≠ 0 then l.archive.archiveTime
  else l.time.getArchiveTime l.system.now

/-- `create_directories` and `rename`. -/
def moveToArchive (l : RotatingLog) (oldName completedName : String) :
    Option (FileSystem String UInt8) :=
  if l.system.createFails then none
  else if l.system.renameFails then none
  else l.fs.rename oldName completedName

/-- The first part of `CompleteCurrentFile`: the file becomes an archive. -/
def archiveFile (cfg : RotationConfig) (l : RotatingLog)
    (names : ArchiveTemplate) (archiveTime : Int) : Bool × RotatingLog :=
  match l.archive.takeName names l.fs l.system.now archiveTime with
  | none => (false, { l with disturbed := true })
  | some (i, archive) =>
      let completedName := names.buildName i archive.archiveTime
      let l := { l.closeLog with archive := archive }
      match l.moveToArchive l.name completedName with
      | none => (false, reopenCurrentLog cfg l)
      | some fs =>
          (true,
            { l with
              fs := fs
              archives :=
                l.archives ++ [⟨archive.archiveTime, completedName, l.inherited⟩] })

def isArchive (l : RotatingLog) (name : String) : Bool :=
  (l.archives.map Archive.name).contains name

/-- `Append`; `ApplyConfig` sets it for a time rotation. -/
def appends (cfg : RotationConfig) (l : RotatingLog) : Bool :=
  decide (l.time.mode ≠ .none) || cfg.append

/-- The second part: a new file, and the time of its archives. -/
def startNewFile (cfg : RotationConfig) (l : RotatingLog) :
    Bool × RotatingLog :=
  let reused := l.isArchive (cfg.fileName l.system.now)
  match createLog cfg { l with disturbed := l.disturbed || reused }
      (l.appends cfg) with
  | (false, l) => (false, l)
  | (true, l) =>
      (true,
        { l with
          archive := l.archive.setTime l.fs l.system.now
            (l.time.getArchiveTime l.system.now) })

def completeCurrentFile (cfg : RotationConfig) (l : RotatingLog)
    (reason : FileCompletionReason) (completedArchiveTime : Int) :
    Bool × RotatingLog :=
  let archiveTime := l.completionTime completedArchiveTime
  match l.archive.template with
  | some names =>
      if l.name ≠ "" then
        match archiveFile cfg l names archiveTime with
        | (false, l) => (false, l)
        | (true, l) => startNewFile cfg l
      else if reason = .sizeLimit then (false, { l with disturbed := true })
      else startNewFile cfg l
  | none =>
      if reason = .sizeLimit then (false, { l with disturbed := true })
      else startNewFile cfg l

/-- `Truncate`, by the search for the end of a line in `LogFile`. -/
def truncate (cfg : RotationConfig) (l : RotatingLog) : RotatingLog :=
  if cfg.maxSize = 0 ∨ l.currentSize < cfg.maxSize then l
  else
    match l.file with
    | none => { l with disturbed := true }
    | some d =>
        let f : LogFile :=
          { LogFile.new cfg.maxSize with content := l.fs.content d.file }
        let f := f.truncateToMaxSize
        { l with
          fs :=
            { l.fs with
              content := Function.update l.fs.content d.file f.content }
          file := some ⟨d.file, f.content.length⟩
          currentSize := f.content.length
          disturbed := l.disturbed || f.rewritten }

def applySizeLimit (cfg : RotationConfig) (l : RotatingLog) (add : Nat) :
    Bool × RotatingLog :=
  let l := { l with largest := max l.largest add }
  if cfg.maxSize = 0 then (true, l)
  else if cfg.onSizeLimit = .rotate then
    if l.currentSize + add ≤ cfg.maxSize then (true, l)
    else completeCurrentFile cfg l .sizeLimit 0
  else (true, l.truncate cfg)

/-- As in `LogFile`; without a descriptor only an empty write succeeds. -/
def writeAll (l : RotatingLog) (bytes : List UInt8) :
    Option Nat × RotatingLog :=
  match l.file with
  | none => if bytes = [] then (some 0, l) else (none, { l with disturbed := true })
  | some d =>
      let rc := bytes.length % 2 ^ 32
      match l.fs.write d bytes with
      | (d, fs) =>
          let l :=
            { l with
              fs := fs
              file := some d
              disturbed := l.disturbed || decide (2 ^ 31 ≤ bytes.length) }
          if rc < 2 ^ 31 then
            (some rc, { l with currentSize := l.currentSize + rc })
          else (none, l)

/-- What `Display` does before it appends. -/
def rotateIfDue (cfg : RotationConfig) (l : RotatingLog) :
    Bool × RotatingLog :=
  match l.time.shouldRotate cfg.zone l.system.now with
  | (none, time) => (true, { l with time := time })
  | (some completedArchiveTime, time) =>
      completeCurrentFile cfg { l with time := time } .timeLimit
        completedArchiveTime

end RotatingLog

def rotatingDevice (cfg : RotationConfig) : FileDevice RotatingLog where
  isOpen := fun l => l.file.isSome
  rotateIfDue := RotatingLog.rotateIfDue cfg
  applySizeLimit := RotatingLog.applySizeLimit cfg
  writeAll := RotatingLog.writeAll

namespace RotatingLog

def contentOf (l : RotatingLog) (name : String) : List UInt8 :=
  (l.fs.read name).getD []

/-- The archives in the order of completion, and the active file, each
without what was in it when it was opened. -/
def view (l : RotatingLog) : SegmentedStream Int UInt8 where
  segments :=
    l.archives.map fun a => (a.time, (l.contentOf a.name).drop a.inherited)
  active := (l.contentOf l.name).drop l.inherited

/-- What holds at any time, also between the two parts of a rotation. -/
structure Shelved (l : RotatingLog) : Prop where
  wellFormed : l.fs.WellFormed
  enabled : l.archive.template ≠ none
  stored : ∀ a ∈ l.archives, l.fs.dir a.name ≠ none
  distinct : (l.archives.map Archive.name).Nodup

/-- The descriptor is at the end of the file of the active name, which is no
archive. -/
structure Intact (l : RotatingLog) : Prop extends Shelved l where
  opened : ∃ d, l.file = some d ∧ l.fs.dir l.name = some d.file ∧
    d.pos = l.currentSize ∧ l.currentSize = (l.fs.content d.file).length
  named : l.name ≠ ""
  apart : ∀ a ∈ l.archives, a.name ≠ l.name
  opening : l.inherited ≤ l.currentSize

theorem Intact.currentSize_eq {l : RotatingLog} (hintact : l.Intact) :
    l.currentSize = (l.contentOf l.name).length := by
  rcases hintact.opened with ⟨d, -, hdir, -, hsize⟩
  rw [hsize, contentOf, FileSystem.read, hdir]
  rfl

/-! ## Writing -/

theorem writeAll_kept {l : RotatingLog} {bytes : List UInt8}
    (hkept : (l.writeAll bytes).2.disturbed = false) :
    l.disturbed = false := by
  revert hkept
  unfold writeAll
  split
  next => split <;> simp
  next =>
    dsimp only
    split <;> simp +contextual

/-- What a write that succeeds changes. -/
theorem writeAll_intact {l : RotatingLog} (hintact : l.Intact)
    {bytes : List UInt8} (hkept : (l.writeAll bytes).2.disturbed = false) :
    (l.writeAll bytes).2.Intact ∧
      (l.writeAll bytes).2.view = l.view.write bytes ∧
      (l.writeAll bytes).2.archives = l.archives ∧
      (l.writeAll bytes).2.archive = l.archive ∧
      (l.writeAll bytes).2.time = l.time ∧
      (l.writeAll bytes).2.largest = l.largest := by
  rcases hintact.opened with ⟨d, hfile, hdir, hpos, hsize⟩
  have hend : d.pos = (l.fs.content d.file).length := by rw [hpos, hsize]
  have hresult : ∃ flag, l.writeAll bytes =
      (some bytes.length,
        { l with
          fs := (l.fs.write d bytes).2
          file := some ⟨d.file, d.pos + bytes.length⟩
          disturbed := flag
          currentSize := l.currentSize + bytes.length }) := by
    revert hkept
    unfold writeAll
    rw [hfile]
    dsimp only
    intro hkept
    have hshort : bytes.length < 2 ^ 31 := by
      by_contra hlong
      have htrue : decide (2 ^ 31 ≤ bytes.length) = true :=
        decide_eq_true (by omega)
      rw [htrue, Bool.or_true] at hkept
      split at hkept <;> simp at hkept
    have hmod : bytes.length % 2 ^ 32 = bytes.length :=
      Nat.mod_eq_of_lt (by omega)
    rw [hmod, if_pos hshort]
    exact ⟨_, rfl⟩
  rcases hresult with ⟨flag, hresult⟩
  rw [hresult]
  have hother : ∀ a ∈ l.archives,
      (l.fs.write d bytes).2.read a.name = l.fs.read a.name := fun a ha =>
    FileSystem.write_read_of_ne hintact.wellFormed hdir bytes
      (hintact.apart a ha)
  have hcontent := FileSystem.write_content bytes hend
  refine ⟨?_, ?_, rfl, rfl, rfl, rfl⟩
  · refine ⟨⟨hintact.wellFormed.write d bytes, hintact.enabled,
      hintact.stored, hintact.distinct⟩, ?_, hintact.named, hintact.apart,
      hintact.opening.trans (Nat.le_add_right _ _)⟩
    refine ⟨_, rfl, hdir, ?_, ?_⟩
    · dsimp only
      rw [hpos]
    · dsimp only
      rw [hcontent, List.length_append, hsize]
  · have hopening : l.inherited ≤ (l.fs.content d.file).length := by
      rw [← hsize]
      exact hintact.opening
    simp only [view, contentOf, SegmentedStream.write, SegmentedStream.mk.injEq]
    constructor
    · refine List.map_congr_left fun a ha => ?_
      rw [hother a ha]
    · have hread : (l.fs.write d bytes).2.read l.name =
          some ((l.fs.write d bytes).2.content d.file) := by
        rw [FileSystem.read, show (l.fs.write d bytes).2.dir = l.fs.dir from rfl,
          hdir]
        rfl
      rw [hread, hcontent, FileSystem.read, hdir]
      exact List.drop_append_of_le_length hopening

/-! ## Completing a file -/

/-- A file that is opened is written at its end. -/
theorem createLog_eq (cfg : RotationConfig) {l : RotatingLog}
    (hopen : l.system.openFails = false) (append : Bool) :
    let name := cfg.fileName l.system.now
    let opened := l.fs.openFile name (!append)
    let size := (opened.2.content opened.1.file).length
    createLog cfg l append =
      (true,
        { l with
          fs := opened.2
          file := some ⟨opened.1.file, size⟩
          name := name
          currentSize := size
          inherited := size }) := by
  intro name opened size
  unfold createLog openLog closeLog
  dsimp only
  rw [if_neg (by simp [hopen])]
  dsimp only
  cases append with
  | true => rfl
  | false =>
      have hempty : size = 0 := by
        have hcontent := l.fs.openFile_trunc_content name
        simp only [size, opened, Bool.not_false, hcontent, List.length_nil]
      have hpos := l.fs.openFile_pos name true
      have hfile : (⟨opened.1.file, size⟩ : Descriptor) = opened.1 := by
        rw [hempty, ← hpos]
        rfl
      rw [hfile, if_neg (by simp)]
      simp only [Prod.mk.injEq, RotatingLog.mk.injEq, true_and, and_true]
      exact ⟨rfl, rfl, rfl, hempty.symm, rfl⟩

theorem createLog_opened {cfg : RotationConfig} {l : RotatingLog}
    {append : Bool} (hkept : (createLog cfg l append).2.disturbed = false) :
    l.system.openFails = false ∧ l.disturbed = false := by
  cases hopen : l.system.openFails with
  | true => simp [createLog, openLog, closeLog, hopen] at hkept
  | false =>
      have hcreate := createLog_eq cfg hopen append
      dsimp only at hcreate
      rw [hcreate] at hkept
      exact ⟨rfl, hkept⟩

theorem reopenCurrentLog_disturbed (cfg : RotationConfig) (l : RotatingLog) :
    (reopenCurrentLog cfg l).disturbed = true := by
  unfold reopenCurrentLog
  by_contra hkept
  have hbefore := (createLog_opened (Bool.eq_false_of_not_eq_true hkept)).2
  simp at hbefore

theorem moveToArchive_eq_some {l : RotatingLog}
    {oldName completedName : String} {fs : FileSystem String UInt8}
    (hmove : l.moveToArchive oldName completedName = some fs) :
    l.fs.rename oldName completedName = some fs := by
  unfold moveToArchive at hmove
  split at hmove
  next => simp at hmove
  next =>
    split at hmove
    next => simp at hmove
    next => exact hmove

/-- A file under a free name added to the archives. -/
theorem Shelved.rename {l : RotatingLog} (hshelved : l.Shelved)
    {archive : String} (hfree : l.fs.dir archive = none)
    {fs : FileSystem String UInt8}
    (hrename : l.fs.rename l.name archive = some fs)
    (hapart : ∀ a ∈ l.archives, a.name ≠ l.name) :
    fs.WellFormed ∧ fs.dir archive ≠ none ∧
      fs.read archive = l.fs.read l.name ∧
      ∀ a ∈ l.archives, a.name ≠ archive ∧ fs.dir a.name ≠ none ∧
        fs.read a.name = l.fs.read a.name := by
  have hread := FileSystem.rename_read hrename
  refine ⟨hshelved.wellFormed.rename hrename, ?_, hread, fun a ha => ?_⟩
  · rcases FileSystem.rename_eq_some hrename with ⟨i, hi, rfl⟩
    simp
  · have hne : a.name ≠ archive := by
      intro hsame
      exact hshelved.stored a ha (by rw [hsame, hfree])
    have hsame := FileSystem.rename_read_of_ne hrename (hapart a ha) hne
    refine ⟨hne, ?_, hsame⟩
    rw [Ne, ← FileSystem.read_eq_none_iff, hsame,
      FileSystem.read_eq_none_iff]
    exact hshelved.stored a ha

/-- The file that is completed keeps its content under its new name, and so
do the archives. -/
theorem archiveFile_shelved {cfg : RotationConfig} {l : RotatingLog}
    (hintact : l.Intact) {names : ArchiveTemplate} {archiveTime : Int}
    (hkept : (archiveFile cfg l names archiveTime).2.disturbed = false) :
    ∃ l', archiveFile cfg l names archiveTime = (true, l') ∧ l'.Shelved ∧
      l'.view.segments = l.view.segments ++
        [(if archiveTime = 0 then l.system.now else archiveTime,
          l.view.active)] ∧
      l'.time = l.time ∧ l'.system = l.system ∧ l'.largest = l.largest ∧
      l'.disturbed = l.disturbed := by
  revert hkept
  unfold archiveFile
  cases htake : l.archive.takeName names l.fs l.system.now archiveTime with
  | none => simp
  | some taken =>
      rcases taken with ⟨i, archive⟩
      rcases takeName_eq_some htake with ⟨hfree, htime, htemplate⟩
      dsimp only
      cases hmove : ({ l.closeLog with archive := archive } :
          RotatingLog).moveToArchive l.closeLog.name
            (names.buildName i archive.archiveTime) with
      | none =>
          intro hkept
          rw [reopenCurrentLog_disturbed] at hkept
          simp at hkept
      | some fs =>
          intro hkept
          have hrename := moveToArchive_eq_some hmove
          rcases hintact.toShelved.rename hfree hrename hintact.apart with
            ⟨hfs, hstored, hread, hothers⟩
          refine ⟨_, rfl, ?_, ?_, rfl, rfl, rfl, rfl⟩
          · refine ⟨hfs, by rw [htemplate]; exact hintact.enabled, ?_, ?_⟩
            · intro a ha
              rw [List.mem_append, List.mem_singleton] at ha
              rcases ha with ha | rfl
              · exact (hothers a ha).2.1
              · exact hstored
            · rw [List.map_append, List.nodup_append]
              refine ⟨hintact.distinct, by simp, ?_⟩
              intro name hname name' hname'
              rw [List.mem_map] at hname
              rcases hname with ⟨a, ha, rfl⟩
              simp only [List.map_cons, List.map_nil,
                List.mem_singleton] at hname'
              rw [hname']
              exact (hothers a ha).1
          · have hsame : ∀ a ∈ l.archives,
                (a.time, ((fs.read a.name).getD []).drop a.inherited) =
                  (a.time, ((l.fs.read a.name).getD []).drop a.inherited) :=
              fun a ha => by rw [(hothers a ha).2.2]
            simp only [view, contentOf, List.map_append, List.map_cons,
              List.map_nil, hread, closeLog]
            rw [List.map_congr_left hsame, htime]

theorem startNewFile_opened {cfg : RotationConfig} {l : RotatingLog}
    (hkept : (startNewFile cfg l).2.disturbed = false) :
    l.system.openFails = false ∧ l.disturbed = false ∧
      l.isArchive (cfg.fileName l.system.now) = false := by
  have hcreated : ∀ l',
      createLog cfg
          { l with
            disturbed :=
              l.disturbed || l.isArchive (cfg.fileName l.system.now) }
          (l.appends cfg) = l' →
        l'.2.disturbed = false →
          l.system.openFails = false ∧ l.disturbed = false ∧
            l.isArchive (cfg.fileName l.system.now) = false := by
    rintro _ rfl hundisturbed
    rcases createLog_opened hundisturbed with ⟨hopen, hflags⟩
    rw [Bool.or_eq_false_iff] at hflags
    exact ⟨hopen, hflags⟩
  revert hkept
  unfold startNewFile
  dsimp only
  split
  next hcreate => exact hcreated _ hcreate
  next l' hcreate => exact hcreated (true, l') hcreate

/-- The new file is no archive, and nothing has been written to it yet. -/
theorem startNewFile_intact {cfg : RotationConfig} {l : RotatingLog}
    (hshelved : l.Shelved)
    (hkept : (startNewFile cfg l).2.disturbed = false) :
    ∃ l', startNewFile cfg l = (true, l') ∧ l'.Intact ∧
      l'.view = ⟨l.view.segments, []⟩ ∧ l'.time = l.time ∧
      l'.system = l.system ∧ l'.largest = l.largest ∧
      l'.disturbed = l.disturbed ∧
      l'.archive.archiveTime =
        if l.time.getArchiveTime l.system.now = 0 then l.system.now
        else l.time.getArchiveTime l.system.now := by
  let name := cfg.fileName l.system.now
  let opened := l.fs.openFile name (!l.appends cfg)
  rcases startNewFile_opened hkept with ⟨hopen, -, hnew⟩
  have hcreate := createLog_eq cfg
    (l := { l with disturbed := l.disturbed || l.isArchive name }) hopen
    (l.appends cfg)
  dsimp only at hcreate
  unfold startNewFile
  dsimp only
  rw [hcreate]
  have hother : ∀ a ∈ l.archives, a.name ≠ name ∧
      opened.2.read a.name = l.fs.read a.name := by
    intro a ha
    have hne : a.name ≠ name := by
      intro hsame
      have hmember : l.isArchive name = true := by
        rw [isArchive, List.contains_iff_mem, ← hsame]
        exact List.mem_map_of_mem ha
      rw [hnew] at hmember
      simp at hmember
    exact ⟨hne, FileSystem.openFile_read_of_ne hshelved.wellFormed _ hne⟩
  have hread : opened.2.read name =
      some (opened.2.content opened.1.file) := by
    rw [FileSystem.read, l.fs.openFile_dir name]
    rfl
  refine ⟨_, rfl, ⟨⟨?_, ?_, ?_, hshelved.distinct⟩, ?_, cfg.named _, ?_,
    Nat.le_refl _⟩, ?_, rfl, rfl, rfl, ?_, ?_⟩
  · exact hshelved.wellFormed.openFile _ _
  · dsimp only
    rw [FileArchivePolicy.setTime_template]
    exact hshelved.enabled
  · intro a ha
    dsimp only
    rw [Ne, ← FileSystem.read_eq_none_iff, (hother a ha).2,
      FileSystem.read_eq_none_iff]
    exact hshelved.stored a ha
  · exact ⟨_, rfl, l.fs.openFile_dir name _, rfl, rfl⟩
  · exact fun a ha => (hother a ha).1
  · simp only [view, contentOf, SegmentedStream.mk.injEq]
    constructor
    · refine List.map_congr_left fun a ha => ?_
      rw [(hother a ha).2]
    · rw [hread]
      exact List.drop_length
  · dsimp only
    rw [hnew, Bool.or_false]
  · exact FileArchivePolicy.setTime_archiveTime _ _ _ _

theorem archiveFile_kept (cfg : RotationConfig) (l : RotatingLog)
    (names : ArchiveTemplate) (archiveTime : Int)
    (hkept : (archiveFile cfg l names archiveTime).2.disturbed = false) :
    (archiveFile cfg l names archiveTime).1 = true ∧ l.disturbed = false := by
  revert hkept
  unfold archiveFile
  split
  next => simp
  next =>
    dsimp only
    split
    next =>
      intro hkept
      rw [reopenCurrentLog_disturbed] at hkept
      simp at hkept
    next => exact fun hkept => ⟨rfl, hkept⟩

theorem startNewFile_kept {cfg : RotationConfig} {l : RotatingLog}
    (hkept : (startNewFile cfg l).2.disturbed = false) :
    (startNewFile cfg l).1 = true ∧ l.disturbed = false := by
  rcases startNewFile_opened hkept with ⟨hopen, hdisturbed, -⟩
  refine ⟨?_, hdisturbed⟩
  have hcreate := createLog_eq cfg
    (l := { l with
      disturbed :=
        l.disturbed || l.isArchive (cfg.fileName l.system.now) })
    hopen (l.appends cfg)
  unfold startNewFile
  dsimp only at hcreate ⊢
  rw [hcreate]

/-- A completion that fails leaves a trace. -/
theorem completeCurrentFile_kept {cfg : RotationConfig} {l : RotatingLog}
    {reason : FileCompletionReason} {completedArchiveTime : Int}
    (hkept :
      (completeCurrentFile cfg l reason completedArchiveTime).2.disturbed =
        false) :
    (completeCurrentFile cfg l reason completedArchiveTime).1 = true ∧
      l.disturbed = false := by
  revert hkept
  unfold completeCurrentFile
  dsimp only
  split
  next names _ =>
    split
    next =>
      have harchive := archiveFile_kept cfg l names
        (l.completionTime completedArchiveTime)
      split
      next hresult =>
        intro hkept
        rw [hresult] at harchive
        exact absurd (harchive hkept).1 (by simp)
      next hresult =>
        intro hkept
        rw [hresult] at harchive
        have hstart := startNewFile_kept hkept
        exact ⟨hstart.1, (harchive hstart.2).2⟩
    next =>
      split
      next => simp
      next => exact startNewFile_kept
  next =>
    split
    next => simp
    next => exact startNewFile_kept

/-- What a completion that succeeds does, with the time of the archive. -/
structure Completed (l l' : RotatingLog) (archiveTime : Int) : Prop where
  intact : l'.Intact
  view : l'.view = l.view.cut archiveTime
  time : l'.time = l.time
  system : l'.system = l.system
  largest : l'.largest = l.largest
  archiveTime : l'.archive.archiveTime =
    if l.time.getArchiveTime l.system.now = 0 then l.system.now
    else l.time.getArchiveTime l.system.now

theorem completeCurrentFile_completed {cfg : RotationConfig}
    {l : RotatingLog} (hintact : l.Intact) {reason : FileCompletionReason}
    {completedArchiveTime : Int}
    (hkept :
      (completeCurrentFile cfg l reason completedArchiveTime).2.disturbed =
        false) :
    ∃ l', completeCurrentFile cfg l reason completedArchiveTime = (true, l') ∧
      l.disturbed = false ∧
      Completed l l'
        (if l.completionTime completedArchiveTime = 0 then l.system.now
        else l.completionTime completedArchiveTime) := by
  revert hkept
  unfold completeCurrentFile
  cases htemplate : l.archive.template with
  | none => exact absurd htemplate hintact.enabled
  | some names =>
      dsimp only
      rw [if_pos hintact.named]
      intro hkept
      -- the first part has succeeded, since nothing is repaired afterwards
      have hfirst : (archiveFile cfg l names
          (l.completionTime completedArchiveTime)).2.disturbed = false := by
        split at hkept
        next harchive =>
          rw [harchive]
          exact hkept
        next l₁ harchive =>
          rw [harchive]
          exact (startNewFile_kept hkept).2
      rcases archiveFile_shelved hintact hfirst with
        ⟨l₁, harchive, hshelved, hsegments, htime, hsystem, hlargest,
          hdisturbed⟩
      rw [harchive] at hkept
      rcases startNewFile_intact hshelved hkept with
        ⟨l₂, hstart, hintact', hview, htime', hsystem', hlargest',
          hdisturbed', harchiveTime⟩
      rw [harchive]
      dsimp only
      dsimp only at hkept
      rw [hstart] at hkept ⊢
      refine ⟨l₂, rfl, ?_, hintact', ?_, htime'.trans htime,
        hsystem'.trans hsystem, hlargest'.trans hlargest, ?_⟩
      · rw [← hdisturbed, ← hdisturbed']
        exact hkept
      · rw [hview, hsegments]
        rfl
      · rw [harchiveTime, htime, hsystem]

/-! ## A record or a batch -/

/-- Under the rotate policy the files keep to the limit, or to the largest
record or batch. -/
def Bounded (cfg : RotationConfig) (l : RotatingLog) : Prop :=
  cfg.onSizeLimit = .rotate → 0 < cfg.maxSize →
    (∀ segment ∈ l.view.segments,
      segment.2.length ≤ max cfg.maxSize l.largest) ∧
    l.view.active.length ≤ max cfg.maxSize l.largest

/-- The next archive belongs to the current period. -/
structure InPeriod (l : RotatingLog) : Prop where
  mode : l.time.mode ≠ .none
  started : l.time.periodStart ≠ 0
  archiveTime : l.archive.archiveTime = l.time.periodStart

/-- Bytes were written, with completions for the size before, between and
after them. -/
structure Advances (cfg : RotationConfig) (l l' : RotatingLog)
    (bytes : List UInt8) : Prop where
  intact : l'.Intact
  time : l'.time = l.time
  inPeriod : l.InPeriod → l'.InPeriod
  writes : SegmentedStream.Writes
    (fun t => l.InPeriod → t = l.time.periodStart) l.view l'.view bytes

theorem Advances.refl (cfg : RotationConfig) {l : RotatingLog}
    (hintact : l.Intact) : Advances cfg l l [] :=
  ⟨hintact, rfl, id, .refl _⟩

theorem Advances.trans {cfg : RotationConfig} {l l' l'' : RotatingLog}
    {bytes bytes' : List UInt8} (hfirst : Advances cfg l l' bytes)
    (hsecond : Advances cfg l' l'' bytes') :
    Advances cfg l l'' (bytes ++ bytes') where
  intact := hsecond.intact
  time := hsecond.time.trans hfirst.time
  inPeriod := fun h => hsecond.inPeriod (hfirst.inPeriod h)
  writes := by
    refine hfirst.writes.trans (hsecond.writes.mono fun t hlabel hperiod => ?_)
    rw [hlabel (hfirst.inPeriod hperiod), hfirst.time]

/-- A field that the invariant does not speak of. -/
theorem Intact.setLargest {l : RotatingLog} (hintact : l.Intact) (n : Nat) :
    Intact { l with largest := n } :=
  ⟨⟨hintact.wellFormed, hintact.enabled, hintact.stored, hintact.distinct⟩,
    hintact.opened, hintact.named, hintact.apart, hintact.opening⟩

theorem truncate_kept (cfg : RotationConfig) (l : RotatingLog)
    (hkept : (l.truncate cfg).disturbed = false) : l.disturbed = false := by
  revert hkept
  unfold truncate
  split
  next => exact id
  next =>
    split
    next => simp
    next => simp +contextual

/-- The search that finds no end of a line changes nothing. -/
theorem truncate_eq {cfg : RotationConfig} {l : RotatingLog}
    (hintact : l.Intact) (hkept : (l.truncate cfg).disturbed = false) :
    l.truncate cfg = l := by
  rcases hintact.opened with ⟨d, hfile, hdir, hpos, hsize⟩
  revert hkept
  unfold truncate
  split
  next => exact fun _ => rfl
  next =>
    rw [hfile]
    dsimp only
    intro hkept
    rw [Bool.or_eq_false_iff] at hkept
    have hsame := LogFile.truncateToMaxSize_kept hkept.2
    rw [hsame]
    dsimp only [LogFile.new]
    rw [Function.update_eq_self, ← hsize, Bool.or_false]
    have hdescriptor : (⟨d.file, l.currentSize⟩ : Descriptor) = d := by
      rw [← hpos]
    rw [hdescriptor, ← hfile]

theorem applySizeLimit_kept {cfg : RotationConfig} {l : RotatingLog}
    {add : Nat} (hkept : (applySizeLimit cfg l add).2.disturbed = false) :
    (applySizeLimit cfg l add).1 = true ∧ l.disturbed = false := by
  revert hkept
  unfold applySizeLimit
  dsimp only
  split
  next => exact fun hkept => ⟨rfl, hkept⟩
  next =>
    split
    next =>
      split
      next => exact fun hkept => ⟨rfl, hkept⟩
      next => exact completeCurrentFile_kept
    next =>
      intro hkept
      have hbefore := truncate_kept cfg
        { l with largest := max l.largest add } hkept
      exact ⟨rfl, hbefore⟩

/-- The files are in bounds, with room for some bytes more. -/
def HasRoom (cfg : RotationConfig) (l : RotatingLog) (add : Nat) : Prop :=
  cfg.onSizeLimit = .rotate → 0 < cfg.maxSize →
    (∀ segment ∈ l.view.segments,
      segment.2.length ≤ max cfg.maxSize l.largest) ∧
    l.view.active.length + add ≤ max cfg.maxSize l.largest

theorem Bounded.mono {cfg : RotationConfig} {l : RotatingLog}
    (hbounded : l.Bounded cfg) {n : Nat} (hle : l.largest ≤ n) :
    Bounded cfg { l with largest := n } := by
  intro hrotate hlimit
  have hmax : max cfg.maxSize l.largest ≤ max cfg.maxSize n :=
    max_le_max_left _ hle
  rcases hbounded hrotate hlimit with ⟨hsegments, hactive⟩
  exact ⟨fun segment h => (hsegments segment h).trans hmax,
    hactive.trans hmax⟩

theorem Completed.advances {cfg : RotationConfig} {l l' : RotatingLog}
    (hcompleted : Completed l l'
      (if l.completionTime 0 = 0 then l.system.now
      else l.completionTime 0)) : Advances cfg l l' [] where
  intact := hcompleted.intact
  time := hcompleted.time
  inPeriod := fun hperiod => by
    refine ⟨by rw [hcompleted.time]; exact hperiod.mode,
      by rw [hcompleted.time]; exact hperiod.started, ?_⟩
    rw [hcompleted.archiveTime, hcompleted.time,
      FileTimeRotationPolicy.getArchiveTime_eq hperiod.mode hperiod.started,
      if_neg hperiod.started]
  writes := by
    rw [hcompleted.view]
    refine (SegmentedStream.Writes.refl _).cut fun hperiod => ?_
    have htime : l.completionTime 0 = l.time.periodStart := by
      rw [completionTime, if_neg (by simp),
        if_pos (by rw [hperiod.archiveTime]; exact hperiod.started),
        hperiod.archiveTime]
    rw [htime, if_neg hperiod.started]

theorem applySizeLimit_advances {cfg : RotationConfig} {l : RotatingLog}
    {add : Nat} (hintact : l.Intact)
    (hkept : (applySizeLimit cfg l add).2.disturbed = false) :
    Advances cfg l (applySizeLimit cfg l add).2 [] ∧
      (l.Bounded cfg → HasRoom cfg (applySizeLimit cfg l add).2 add) := by
  have hlargest : add ≤ max l.largest add := le_max_right _ _
  have hnote : Advances cfg l { l with largest := max l.largest add } [] :=
    ⟨hintact.setLargest _, rfl, fun h => ⟨h.mode, h.started, h.archiveTime⟩,
      .refl _⟩
  revert hkept
  unfold applySizeLimit
  dsimp only
  by_cases hunlimited : cfg.maxSize = 0
  · rw [if_pos hunlimited]
    exact fun _ => ⟨hnote, fun _ _ hlimit => by omega⟩
  · rw [if_neg hunlimited]
    by_cases hrotate : cfg.onSizeLimit = .rotate
    · rw [if_pos hrotate]
      by_cases hfits : l.currentSize + add ≤ cfg.maxSize
      · rw [if_pos hfits]
        refine fun _ => ⟨hnote, fun hbounded _ hlimit => ?_⟩
        rcases hbounded.mono (le_max_left l.largest add) hrotate hlimit with
          ⟨hsegments, -⟩
        refine ⟨hsegments, ?_⟩
        have hactive : l.view.active.length ≤ l.currentSize := by
          rw [hintact.currentSize_eq, view, List.length_drop]
          exact Nat.sub_le _ _
        have hlimit' : l.view.active.length + add ≤ cfg.maxSize := by
          omega
        exact hlimit'.trans (le_max_left _ _)
      · rw [if_neg hfits]
        intro hkept
        rcases completeCurrentFile_completed (hintact.setLargest _) hkept with
          ⟨l', hresult, -, hcompleted⟩
        rw [hresult]
        refine ⟨hnote.trans hcompleted.advances, fun hbounded _ hlimit => ?_⟩
        rcases hbounded.mono (le_max_left l.largest add) hrotate hlimit with
          ⟨hsegments, hactive⟩
        dsimp only
        rw [hcompleted.view, hcompleted.largest]
        constructor
        · intro segment hsegment
          simp only [SegmentedStream.cut, List.mem_append,
            List.mem_singleton] at hsegment
          rcases hsegment with hsegment | rfl
          · exact hsegments segment hsegment
          · exact hactive
        · simp only [SegmentedStream.cut, List.length_nil, Nat.zero_add]
          exact hlargest.trans (le_max_right _ _)
    · rw [if_neg hrotate]
      intro hkept
      dsimp only at hkept ⊢
      rw [truncate_eq (hintact.setLargest _) hkept]
      exact ⟨hnote, fun _ h => absurd h hrotate⟩

open FileBackend in
theorem writesAll_kept {cfg : RotationConfig} {l l' : RotatingLog}
    {bytes : List UInt8} (hwrites : WritesAll (rotatingDevice cfg) l l' bytes)
    (hkept : l'.disturbed = false) : l.disturbed = false := by
  induction hwrites with
  | done => exact hkept
  | write _ more ih => exact ih (writeAll_kept hkept)

open FileBackend in
/-- Writing leaves the archives alone. -/
theorem writesAll_advances {cfg : RotationConfig} {l l' : RotatingLog}
    {bytes : List UInt8} (hwrites : WritesAll (rotatingDevice cfg) l l' bytes)
    (hintact : l.Intact) (hkept : l'.disturbed = false) :
    Advances cfg l l' bytes ∧ l'.view = l.view.write bytes ∧
      l'.largest = l.largest := by
  induction hwrites with
  | done =>
      refine ⟨.refl cfg hintact, ?_, rfl⟩
      simp [SegmentedStream.write]
  | @write l₁ bytes _ more ih =>
      rcases ih (writeAll_kept hkept) with ⟨hadvances, hview, hlargest⟩
      rcases writeAll_intact hadvances.intact hkept with
        ⟨hintact', hview', -, harchive, htime, hlargest'⟩
      have hlast : Advances cfg l₁ (l₁.writeAll more).2 more := by
        refine ⟨hintact', htime, fun hperiod => ?_, ?_⟩
        · exact ⟨by rw [htime]; exact hperiod.mode,
            by rw [htime]; exact hperiod.started,
            by rw [htime, harchive]; exact hperiod.archiveTime⟩
        · rw [hview']
          exact (SegmentedStream.Writes.refl _).write more
      refine ⟨hadvances.trans hlast, ?_, hlargest'.trans hlargest⟩
      simp only [rotatingDevice]
      rw [hview', hview]
      simp [SegmentedStream.write]

/-- What a batch or a record does to the files, if nothing irregular
happens. -/
structure Carries (cfg : RotationConfig) (l l' : RotatingLog)
    (bytes : List UInt8) : Prop where
  kept : l'.disturbed = false → l.disturbed = false
  advances : l'.disturbed = false → l.Intact →
    Advances cfg l l' bytes ∧ (l.Bounded cfg → l'.Bounded cfg)

theorem movesBytes (cfg : RotationConfig) :
    FileBackend.MovesBytes (rotatingDevice cfg) (Carries cfg) where
  refl := fun l => ⟨id, fun _ hintact => ⟨.refl cfg hintact, id⟩⟩
  trans := fun l l' l'' bytes bytes' hfirst hsecond =>
    ⟨fun hkept => hfirst.kept (hsecond.kept hkept), fun hkept hintact => by
      rcases hfirst.advances (hsecond.kept hkept) hintact with
        ⟨hadvances, hbounded⟩
      rcases hsecond.advances hkept hadvances.intact with
        ⟨hadvances', hbounded'⟩
      exact ⟨hadvances.trans hadvances', fun h => hbounded' (hbounded h)⟩⟩
  refused := fun l bytes hrefused => by
    have hdisturbed :
        (applySizeLimit cfg l bytes.length).2.disturbed ≠ false := by
      intro hkept
      have htrue := (applySizeLimit_kept hkept).1
      simp only [rotatingDevice] at hrefused
      rw [htrue] at hrefused
      simp at hrefused
    exact ⟨fun h => absurd h hdisturbed, fun h => absurd h hdisturbed⟩
  written := fun l l' bytes _ hwrites => by
    refine ⟨fun hkept => (applySizeLimit_kept (writesAll_kept hwrites hkept)).2,
      fun hkept hintact => ?_⟩
    rcases applySizeLimit_advances hintact (writesAll_kept hwrites hkept) with
      ⟨hlimit, hroom⟩
    rcases writesAll_advances hwrites hlimit.intact hkept with
      ⟨hwritten, hview, hlargest⟩
    refine ⟨hlimit.trans hwritten, fun hbounded hrotate hpositive => ?_⟩
    rcases hroom hbounded hrotate hpositive with ⟨hsegments, hactive⟩
    rw [hview, hlargest]
    refine ⟨hsegments, ?_⟩
    simp only [SegmentedStream.write, List.length_append]
    exact hactive

/-! ## The time rotation of `Display` -/

theorem rotateIfDue_kept {cfg : RotationConfig} {l : RotatingLog}
    (hkept : (rotateIfDue cfg l).2.disturbed = false) :
    (rotateIfDue cfg l).1 = true ∧ l.disturbed = false := by
  revert hkept
  unfold rotateIfDue
  split
  next => exact fun hkept => ⟨rfl, hkept⟩
  next => exact completeCurrentFile_kept

theorem Intact.setTime {l : RotatingLog} (hintact : l.Intact)
    (time : FileTimeRotationPolicy) : Intact { l with time := time } :=
  ⟨⟨hintact.wellFormed, hintact.enabled, hintact.stored, hintact.distinct⟩,
    hintact.opened, hintact.named, hintact.apart, hintact.opening⟩

theorem Intact.setSystem {l : RotatingLog} (hintact : l.Intact)
    (system : Surroundings) : Intact { l with system := system } :=
  ⟨⟨hintact.wellFormed, hintact.enabled, hintact.stored, hintact.distinct⟩,
    hintact.opened, hintact.named, hintact.apart, hintact.opening⟩

theorem rotateIfDue_of_none {cfg : RotationConfig} {l : RotatingLog}
    {time : FileTimeRotationPolicy}
    (hdue : l.time.shouldRotate cfg.zone l.system.now = (none, time)) :
    rotateIfDue cfg l = (true, { l with time := time }) := by
  rw [rotateIfDue, hdue]

/-- The file of a period that has ended is completed under its time. -/
theorem rotateIfDue_of_some {cfg : RotationConfig} {l : RotatingLog}
    (hintact : l.Intact) {period : Int} {time : FileTimeRotationPolicy}
    (hdue : l.time.shouldRotate cfg.zone l.system.now = (some period, time))
    (hkept : (rotateIfDue cfg l).2.disturbed = false) :
    ∃ l', rotateIfDue cfg l = (true, l') ∧
      Completed { l with time := time } l'
        (if completionTime { l with time := time } period = 0
          then l.system.now
          else completionTime { l with time := time } period) := by
  revert hkept
  rw [rotateIfDue, hdue]
  intro hkept
  rcases completeCurrentFile_completed (hintact.setTime time) hkept with
    ⟨l', hresult, -, hcompleted⟩
  exact ⟨l', hresult, hcompleted⟩

theorem Completed.bounded {cfg : RotationConfig} {l l' : RotatingLog}
    {archiveTime : Int} (hcompleted : Completed l l' archiveTime)
    (hbounded : l.Bounded cfg) : l'.Bounded cfg := by
  intro hrotate hlimit
  rcases hbounded hrotate hlimit with ⟨hsegments, hactive⟩
  rw [hcompleted.view, hcompleted.largest]
  refine ⟨fun segment hsegment => ?_, Nat.zero_le _⟩
  simp only [SegmentedStream.cut, List.mem_append,
    List.mem_singleton] at hsegment
  rcases hsegment with hsegment | rfl
  · exact hsegments segment hsegment
  · exact hactive

/-- The stream stays what it is. -/
theorem rotateIfDue_stream {cfg : RotationConfig} {l : RotatingLog}
    (hintact : l.Intact)
    (hkept : (rotateIfDue cfg l).2.disturbed = false) :
    (rotateIfDue cfg l).2.Intact ∧
      (rotateIfDue cfg l).2.view.whole = l.view.whole ∧
      (l.Bounded cfg → (rotateIfDue cfg l).2.Bounded cfg) := by
  cases hdue : l.time.shouldRotate cfg.zone l.system.now with
  | mk due time =>
      cases due with
      | none =>
          rw [rotateIfDue_of_none hdue]
          exact ⟨hintact.setTime time, rfl, id⟩
      | some period =>
          rcases rotateIfDue_of_some hintact hdue hkept with
            ⟨l', hresult, hcompleted⟩
          rw [hresult]
          refine ⟨hcompleted.intact, ?_, fun h => hcompleted.bounded h⟩
          rw [hcompleted.view, SegmentedStream.whole_cut]
          rfl

end RotatingLog

end Logme
