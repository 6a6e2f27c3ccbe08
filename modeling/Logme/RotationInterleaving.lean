import Logme.FailedRotation

/-!
# A rotation beside the worker

The time rotation of `Display` takes `IoLock` for each `Close`, `Open` and
`Seek` alone, and renames the file between them.  The worker writes a batch,
with the rotation for the size before it, in one section under `IoLock`.  A
section that falls between the `Close` and the `Open` finds no descriptor and
drops its batch; one between the `Open` and the `Seek` writes at the start of
a file that may have a content.
-/

namespace Logme

open FileBackend StepSystem

/-- Where the logging thread is in its rotation; `archived` says whether the
file has been renamed or has to be reopened. -/
inductive RotationPc where
  | idle
  | taking (oldName : String) (archiveTime : Int)
  | closing (oldName completedName : String)
  | moving (oldName completedName : String)
  | reclosing (archived : Bool)
  | naming (archived : Bool)
  | opening (archived : Bool)
  | seeking (archived : Bool)
  | sizing (archived : Bool) (size : Nat)
  | timing
  deriving DecidableEq

/-- The places at which the file has been closed and its name is about to
change. -/
def RotationPc.Closed : RotationPc → Prop
  | .moving _ _ => True
  | .naming _ => True
  | _ => False

/-- The name that has been taken for the archive is still free. -/
def RotationPc.TargetFree (fs : FileSystem String UInt8) : RotationPc → Prop
  | .moving _ completedName => fs.dir completedName = none
  | _ => True

instance (fs : FileSystem String UInt8) :
    ∀ pc : RotationPc, Decidable (pc.TargetFree fs)
  | .moving _ completedName =>
      inferInstanceAs (Decidable (fs.dir completedName = none))
  | .idle => inferInstanceAs (Decidable True)
  | .taking _ _ => inferInstanceAs (Decidable True)
  | .closing _ _ => inferInstanceAs (Decidable True)
  | .reclosing _ => inferInstanceAs (Decidable True)
  | .naming _ => inferInstanceAs (Decidable True)
  | .opening _ => inferInstanceAs (Decidable True)
  | .seeking _ => inferInstanceAs (Decidable True)
  | .sizing _ _ => inferInstanceAs (Decidable True)
  | .timing => inferInstanceAs (Decidable True)

/-- `held` are the buffers that the worker has taken, and `written` the
batches whose sections it has executed. -/
structure SharedRotation where
  io : RotatingLog
  queue : BufferQueue UInt8
  logger : RotationPc
  held : List (DataBuffer UInt8)
  written : List (List UInt8)

inductive SharedRotationAction where
  | surroundings (system : Surroundings)
  | append (text : List UInt8) (time : Nat) (a : Allocation)
  | publish (a : Allocation)
  | logger
  | takeReady
  | writeBatch

namespace RotatingLog

/-- `Display` up to the beginning of `CompleteCurrentFile`. -/
def beginRotation (cfg : RotationConfig) (l : RotatingLog) :
    RotatingLog × RotationPc :=
  if l.file.isNone then (l, .idle)
  else
    match l.time.shouldRotate cfg.zone l.system.now with
    | (none, time) => ({ l with time := time }, .idle)
    | (some completedArchiveTime, time) =>
        let l := { l with time := time }
        if l.archive.template.isNone ∨ l.name = "" then (l, .reclosing true)
        else (l, .taking l.name (l.completionTime completedArchiveTime))

/-- The next step of `Display`; there is none in a search without end. -/
def rotationStep (cfg : RotationConfig) (l : RotatingLog) :
    RotationPc → Option (RotatingLog × RotationPc)
  | .idle => some (l.beginRotation cfg)
  | .taking oldName archiveTime =>
      match l.archive.template with
      | none => none
      | some names =>
          match l.archive.takeName names l.fs l.system.now archiveTime with
          | none => none
          | some (i, archive) =>
              some ({ l with archive := archive },
                .closing oldName (names.buildName i archive.archiveTime))
  | .closing oldName completedName =>
      some (l.closeLog, .moving oldName completedName)
  | .moving oldName completedName =>
      match l.moveToArchive oldName completedName with
      | none => some ({ l with disturbed := true }, .reclosing false)
      | some fs => some ({ l with fs := fs }, .reclosing true)
  | .reclosing archived => some (l.closeLog, .naming archived)
  | .naming archived =>
      some ({ l with name := cfg.fileName l.system.now }, .opening archived)
  | .opening archived =>
      let append := !archived || l.appends cfg
      match l.openLog append with
      | (false, l) => some (l, .idle)
      | (true, l) =>
          if append then some (l, .seeking archived)
          else some (l, .sizing archived 0)
  | .seeking archived =>
      match l.seek with
      | none => some ({ l with disturbed := true }, .idle)
      | some (size, l) => some (l, .sizing archived size)
  | .sizing archived size =>
      some ({ l with currentSize := size },
        if archived then .timing else .idle)
  | .timing =>
      some
        ({ l with
          archive := l.archive.setTime l.fs l.system.now
            (l.time.getArchiveTime l.system.now) }, .idle)

end RotatingLog

namespace SharedRotation

/-- The section of the worker, and the end of `WriteReadyData`. -/
def writeHeld (cfg : RotationConfig) (s : SharedRotation) : SharedRotation :=
  let bytes := s.held.flatMap DataBuffer.data
  let (_, io) := writeBatch (rotatingDevice cfg) s.io s.held bytes.length
  let queue := s.queue.recycle s.held
  { s with
    io := io
    queue :=
      if queue.hasCurrentDataFlagged = false ∧ queue.hasReady = false then
        queue.trimFreeBuffersIfIdle
      else queue
    held := []
    written := s.written ++ [bytes] }

/-- `Display` holds `DataLock` during its rotation. -/
def step (cfg : RotationConfig) (s : SharedRotation) :
    SharedRotationAction → Option SharedRotation
  | .surroundings system => some { s with io.system := system }
  | .append text time a =>
      if s.logger = .idle then
        some { s with queue := (s.queue.append text time a).2 }
      else none
  | .publish a => some { s with queue := (s.queue.publishCurrent a).2 }
  | .logger =>
      match s.io.rotationStep cfg s.logger with
      | none => none
      | some (io, logger) => some { s with io := io, logger := logger }
  | .takeReady =>
      if s.held = [] then
        match s.queue.takeReady with
        | (data, queue) => some { s with queue := queue, held := data }
      else none
  | .writeBatch => if s.held = [] then none else some (s.writeHeld cfg)

end SharedRotation

/-! ## When the worker may write -/

namespace RotatingLog

/-- The descriptor is open, and at the end of its file. -/
def AtEnd (l : RotatingLog) : Prop :=
  l.file.any (fun d => d.pos == (l.fs.content d.file).length) = true

/-- The file as the truncate policy sees it. -/
def truncatedFile (cfg : RotationConfig) (l : RotatingLog) : LogFile where
  maxSize := cfg.maxSize
  content := l.file.elim [] fun d => l.fs.content d.file
  currentSize := l.currentSize
  rewritten := false

/-- The descriptor is at the end of its file, the calls of a rotation for the
size succeed, and the truncate policy has nothing to cut. -/
structure Writable (cfg : RotationConfig) (l : RotatingLog) (add : Nat) :
    Prop where
  atEnd : l.AtEnd
  healthy : l.ExceedsLimit cfg add → l.system.createFails = false ∧
    l.system.renameFails = false ∧ l.system.openFails = false
  keeps : cfg.onSizeLimit = .truncate → (l.truncatedFile cfg).Keeps

instance (cfg : RotationConfig) (l : RotatingLog) (add : Nat) :
    Decidable (l.ExceedsLimit cfg add) :=
  inferInstanceAs (Decidable (_ ∧ _ ∧ _))

instance (f : LogFile) : Decidable f.Keeps :=
  inferInstanceAs (Decidable (_ ∨ _ ∨ _ ∨ _))

instance (l : RotatingLog) : Decidable l.AtEnd :=
  inferInstanceAs (Decidable (_ = true))

instance (cfg : RotationConfig) (l : RotatingLog) (add : Nat) :
    Decidable (l.Writable cfg add) :=
  decidable_of_iff
    (l.AtEnd ∧
      (l.ExceedsLimit cfg add → l.system.createFails = false ∧
        l.system.renameFails = false ∧ l.system.openFails = false) ∧
      (cfg.onSizeLimit = .truncate → (l.truncatedFile cfg).Keeps))
    ⟨fun h => ⟨h.1, h.2.1, h.2.2⟩, fun h => ⟨h.atEnd, h.healthy, h.keeps⟩⟩

end RotatingLog

namespace SharedRotation

/-- What the steps have to meet: the worker writes to a file that is open and
at its end, and `Display` renames to a name that is still free. -/
def Undisturbed (cfg : RotationConfig) (s : SharedRotation) :
    SharedRotationAction → Prop
  | .writeBatch =>
      s.io.Writable cfg (s.held.flatMap DataBuffer.data).length
  | .logger => s.logger.TargetFree s.io.fs
  | _ => True

instance (cfg : RotationConfig) (s : SharedRotation) :
    ∀ act, Decidable (s.Undisturbed cfg act)
  | .writeBatch => inferInstanceAs (Decidable
      (s.io.Writable cfg (s.held.flatMap DataBuffer.data).length))
  | .logger => inferInstanceAs (Decidable (s.logger.TargetFree s.io.fs))
  | .surroundings _ => inferInstanceAs (Decidable True)
  | .append _ _ _ => inferInstanceAs (Decidable True)
  | .publish _ => inferInstanceAs (Decidable True)
  | .takeReady => inferInstanceAs (Decidable True)

end SharedRotation

/-! ## What one section of the worker does -/

namespace RotatingLog

theorem AtEnd.exists {l : RotatingLog} (hend : l.AtEnd) :
    ∃ d, l.file = some d ∧ d.pos = (l.fs.content d.file).length := by
  unfold AtEnd at hend
  cases hfile : l.file with
  | none => simp [hfile] at hend
  | some d =>
      rw [hfile] at hend
      exact ⟨d, rfl, by simpa using hend⟩

/-- The part of the state that is sound in every such run. -/
structure Sound (cfg : RotationConfig) (l : RotatingLog) : Prop where
  wellFormed : l.fs.WellFormed
  opened : ∀ d, l.file = some d → l.fs.dir l.name = some d.file
  mode : l.time.mode ≠ .none
  named : l.name ≠ ""
  enabled : ∃ names, l.archive.template = some names ∧
    (cfg.onSizeLimit = .rotate →
      ∀ t, Function.Injective fun i => names.buildName i t)

/-- The descriptor goes to another file or stays, and no file is lost. -/
structure Moved (cfg : RotationConfig) (l l' : RotatingLog) : Prop where
  sound : l'.Sound cfg
  preserves : FileSystem.Preserves l.fs l'.fs
  atEnd : l'.AtEnd

theorem createLog_moved (cfg : RotationConfig) (l : RotatingLog)
    (hfs : l.fs.WellFormed) (hopen : l.system.openFails = false) :
    ∃ l', createLog cfg l true = (true, l') ∧ l'.fs.WellFormed ∧
      FileSystem.Preserves l.fs l'.fs ∧ l'.AtEnd ∧
      (∀ d, l'.file = some d → l'.fs.dir l'.name = some d.file) ∧
      l'.name ≠ "" ∧ l'.time = l.time ∧ l'.archive = l.archive := by
  have hcreate := createLog_eq cfg hopen true
  dsimp only at hcreate
  rw [hcreate]
  refine ⟨_, rfl, hfs.openFile _ _, .openFile _ _, ?_, ?_, cfg.named _, rfl,
    rfl⟩
  · simp [AtEnd]
  · intro d hd
    simp only [Option.some.injEq] at hd
    subst d
    exact l.fs.openFile_dir _ _

theorem appends_of_mode {cfg : RotationConfig} {l : RotatingLog}
    (hmode : l.time.mode ≠ .none) : l.appends cfg = true := by
  simp [appends, hmode]

theorem startNewFile_moved (cfg : RotationConfig) (l : RotatingLog)
    (hfs : l.fs.WellFormed) (hmode : l.time.mode ≠ .none)
    (hopen : l.system.openFails = false) {names : ArchiveTemplate}
    (htemplate : l.archive.template = some names)
    (hnumbered : cfg.onSizeLimit = .rotate →
      ∀ t, Function.Injective fun i => names.buildName i t) :
    ∃ l', startNewFile cfg l = (true, l') ∧ Moved cfg l l' := by
  rcases createLog_moved cfg
      { l with
        disturbed :=
          l.disturbed || l.isArchive (cfg.fileName l.system.now) }
      hfs hopen with
    ⟨l₁, hcreate, hfs₁, hpreserves, hend, hopened, hname, htime, harchive⟩
  unfold startNewFile
  dsimp only
  rw [appends_of_mode hmode, hcreate]
  refine ⟨_, rfl, ⟨hfs₁, hopened, by rw [htime]; exact hmode, hname, names, ?_,
    hnumbered⟩, hpreserves, hend⟩
  dsimp only
  rw [FileArchivePolicy.setTime_template, harchive]
  exact htemplate

/-- The rotation of the worker, in its section. -/
theorem completeCurrentFile_moved {cfg : RotationConfig} {l : RotatingLog}
    (hsound : l.Sound cfg) (hrotate : cfg.onSizeLimit = .rotate)
    {d : Descriptor} (hfile : l.file = some d)
    (hcreate : l.system.createFails = false)
    (hrename : l.system.renameFails = false)
    (hopen : l.system.openFails = false) (reason : FileCompletionReason)
    (completedArchiveTime : Int) :
    ∃ l', completeCurrentFile cfg l reason completedArchiveTime = (true, l') ∧
      Moved cfg l l' := by
  rcases hsound.enabled with ⟨names, htemplate, hnumbered⟩
  rcases takeName_isSome l.archive names hsound.wellFormed
      l.system.now (l.completionTime completedArchiveTime)
      (hnumbered hrotate) with ⟨⟨i, archive⟩, htake⟩
  rcases takeName_eq_some htake with ⟨hfree, -, hsame⟩
  have hdir := hsound.opened d hfile
  let completedName := names.buildName i archive.archiveTime
  cases hrenamed : l.fs.rename l.name completedName with
  | none => simp [FileSystem.rename, hdir] at hrenamed
  | some fs =>
      have hmove : ({ l.closeLog with archive := archive } :
          RotatingLog).moveToArchive l.closeLog.name completedName =
            some fs := by
        simp [moveToArchive, closeLog, hcreate, hrename, hrenamed]
      have harchive : archiveFile cfg l names
          (l.completionTime completedArchiveTime) =
            (true,
              { l.closeLog with
                archive := archive
                fs := fs
                archives := l.archives ++
                  [⟨archive.archiveTime, completedName, l.inherited⟩] }) := by
        unfold archiveFile
        rw [htake]
        dsimp only
        rw [hmove]
        rfl
      rcases startNewFile_moved cfg
          { l.closeLog with
            archive := archive
            fs := fs
            archives := l.archives ++
              [⟨archive.archiveTime, completedName, l.inherited⟩] }
          (hsound.wellFormed.rename hrenamed) hsound.mode hopen
          (hsame.trans htemplate) hnumbered with ⟨l', hstart, hmoved⟩
      refine ⟨l', ?_, hmoved.sound,
        (FileSystem.Preserves.rename hfree hrenamed).trans hmoved.preserves,
        hmoved.atEnd⟩
      unfold completeCurrentFile
      rw [htemplate]
      dsimp only
      rw [if_pos hsound.named, harchive]
      exact hstart

theorem Sound.setLargest {cfg : RotationConfig} {l : RotatingLog}
    (hsound : l.Sound cfg) (n : Nat) : Sound cfg { l with largest := n } :=
  ⟨hsound.wellFormed, hsound.opened, hsound.mode, hsound.named,
    hsound.enabled⟩

/-- A file that the truncate policy keeps. -/
theorem truncate_moved {cfg : RotationConfig} {l : RotatingLog}
    (hsound : l.Sound cfg) (hend : l.AtEnd)
    (hkeeps : (l.truncatedFile cfg).Keeps) :
    Moved cfg l (l.truncate cfg) := by
  rcases hend.exists with ⟨d, hfile, hpos⟩
  unfold truncate
  split
  next => exact ⟨hsound, .refl _, hend⟩
  next hlimit =>
    rw [hfile]
    dsimp only
    have hkept : LogFile.truncateToMaxSize
        { LogFile.new cfg.maxSize with
          content := l.fs.content d.file } =
        { LogFile.new cfg.maxSize with content := l.fs.content d.file } := by
      apply LogFile.truncateToMaxSize_eq
      unfold LogFile.Keeps truncatedFile at hkeeps
      rw [hfile] at hkeeps
      rw [not_or] at hlimit
      exact (hkeeps.resolve_left hlimit.1).resolve_left hlimit.2
    rw [hkept]
    dsimp only
    rw [Function.update_eq_self]
    refine ⟨⟨hsound.wellFormed, ?_, hsound.mode, hsound.named,
      hsound.enabled⟩, .refl _, by simp [AtEnd]⟩
    intro d' hd'
    simp only [Option.some.injEq] at hd'
    subst d'
    exact hsound.opened d hfile

theorem applySizeLimit_moved {cfg : RotationConfig} {l : RotatingLog}
    (hsound : l.Sound cfg) {add : Nat} (hwritable : l.Writable cfg add) :
    ∃ l', applySizeLimit cfg l add = (true, l') ∧ Moved cfg l l' := by
  rcases hwritable.atEnd.exists with ⟨d, hfile, hpos⟩
  have hsound' := hsound.setLargest (max l.largest add)
  have hstays : Moved cfg l { l with largest := max l.largest add } :=
    ⟨hsound', .refl _, hwritable.atEnd⟩
  unfold applySizeLimit
  dsimp only
  by_cases hunlimited : cfg.maxSize = 0
  · rw [if_pos hunlimited]
    exact ⟨_, rfl, hstays⟩
  · rw [if_neg hunlimited]
    cases hpolicy : cfg.onSizeLimit with
    | rotate =>
        rw [if_pos rfl]
        by_cases hfits : l.currentSize + add ≤ cfg.maxSize
        · rw [if_pos hfits]
          exact ⟨_, rfl, hstays⟩
        · rw [if_neg hfits]
          rcases hwritable.healthy
              ⟨hunlimited, hpolicy, not_le.mp hfits⟩ with
            ⟨hcreate, hrename, hopen⟩
          rcases completeCurrentFile_moved hsound' hpolicy hfile hcreate
              hrename hopen .sizeLimit 0 with ⟨l', hresult, hmoved⟩
          exact ⟨l', hresult, hmoved.sound, hmoved.preserves, hmoved.atEnd⟩
    | truncate =>
        rw [if_neg (by simp)]
        have hmoved := truncate_moved hsound' hwritable.atEnd
          (hwritable.keeps hpolicy)
        exact ⟨_, rfl, hmoved.sound, hmoved.preserves, hmoved.atEnd⟩

/-- Writing appends to the file of the descriptor. -/
theorem writeAll_appended {cfg : RotationConfig} {l : RotatingLog}
    (hsound : l.Sound cfg) {d : Descriptor} (hfile : l.file = some d)
    (hpos : d.pos = (l.fs.content d.file).length) (bytes : List UInt8) :
    ∃ d', (l.writeAll bytes).2.file = some d' ∧ d'.file = d.file ∧
      d'.pos = ((l.writeAll bytes).2.fs.content d.file).length ∧
      (l.writeAll bytes).2.Sound cfg ∧
      FileSystem.Appended l.fs (l.writeAll bytes).2.fs d.file bytes := by
  have happended := FileSystem.Appended.of_write bytes hpos
  have hlength : d.pos + bytes.length =
      ((l.fs.write d bytes).2.content d.file).length := by
    rw [happended.content, List.length_append, hpos]
  have hopened : ∀ d', some (⟨d.file, d.pos + bytes.length⟩ : Descriptor) =
      some d' → l.fs.dir l.name = some d'.file := by
    intro d' hd'
    simp only [Option.some.injEq] at hd'
    subst d'
    exact hsound.opened d hfile
  unfold writeAll
  rw [hfile]
  dsimp only
  split
  next =>
    exact ⟨_, rfl, rfl, hlength, ⟨hsound.wellFormed.write d bytes, hopened,
      hsound.mode, hsound.named, hsound.enabled⟩, happended⟩
  next =>
    exact ⟨_, rfl, rfl, hlength, ⟨hsound.wellFormed.write d bytes, hopened,
      hsound.mode, hsound.named, hsound.enabled⟩, happended⟩

theorem writesAll_appended {cfg : RotationConfig} {l l' : RotatingLog}
    {bytes : List UInt8} (hwrites : WritesAll (rotatingDevice cfg) l l' bytes)
    (hsound : l.Sound cfg) {d : Descriptor} (hfile : l.file = some d)
    (hpos : d.pos = (l.fs.content d.file).length) :
    ∃ d', l'.file = some d' ∧ d'.file = d.file ∧
      d'.pos = (l'.fs.content d.file).length ∧ l'.Sound cfg ∧
      FileSystem.Appended l.fs l'.fs d.file bytes := by
  induction hwrites with
  | done => exact ⟨d, hfile, rfl, hpos, hsound, .refl _ _⟩
  | write _ more ih =>
      rcases ih with ⟨d₁, hfile₁, hsame₁, hpos₁, hsound₁, happended₁⟩
      rw [← hsame₁] at hpos₁
      rcases writeAll_appended hsound₁ hfile₁ hpos₁ more with
        ⟨d₂, hfile₂, hsame₂, hpos₂, hsound₂, happended₂⟩
      rw [hsame₁] at hsame₂ hpos₂ happended₂
      exact ⟨d₂, hfile₂, hsame₂, hpos₂, hsound₂,
        happended₁.trans happended₂⟩

/-- The whole batch goes to one file that is in the directory. -/
theorem writeBatch_appended {cfg : RotationConfig} {l : RotatingLog}
    (hsound : l.Sound cfg) (data : List (DataBuffer UInt8))
    (hwritable :
      l.Writable cfg (data.flatMap DataBuffer.data).length) :
    let bytes := data.flatMap DataBuffer.data
    let l' := (writeBatch (rotatingDevice cfg) l data bytes.length).2
    ∃ fs i, FileSystem.Preserves l.fs fs ∧ i < fs.next ∧
      (∃ name, fs.dir name = some i) ∧
      FileSystem.Appended fs l'.fs i bytes ∧ l'.Sound cfg ∧
      l'.file.isSome = true := by
  intro bytes l'
  rcases applySizeLimit_moved hsound hwritable with ⟨l₁, hlimit, hmoved⟩
  rcases hmoved.atEnd.exists with ⟨d, hfile, hpos⟩
  have hdir := hmoved.sound.opened d hfile
  have hwrites := writeBuffers_writes (rotatingDevice cfg) data [] true l₁
  rcases writesAll_appended hwrites hmoved.sound hfile hpos with
    ⟨d', hfile', -, -, hsound', happended⟩
  have hresult : l' =
      (writeBuffers (rotatingDevice cfg) data [] true l₁).2 := by
    simp only [l', bytes, writeBatch, rotatingDevice]
    rw [hlimit]
  rw [hresult]
  exact ⟨l₁.fs, d.file, hmoved.preserves,
    hmoved.sound.wellFormed.bounded _ _ hdir, ⟨_, hdir⟩,
    by simpa using happended, hsound', by rw [hfile']; rfl⟩

/-! ## What the steps of the rotation do -/

theorem beginRotation_moved {cfg : RotationConfig} {l : RotatingLog}
    (hsound : l.Sound cfg) :
    (l.beginRotation cfg).1.Sound cfg ∧
      (l.beginRotation cfg).1.fs = l.fs ∧
      ¬ (l.beginRotation cfg).2.Closed := by
  have hmode :=
    l.time.shouldRotate_mode cfg.zone l.system.now
  unfold beginRotation
  split
  next => exact ⟨hsound, rfl, id⟩
  next =>
    split
    next time hdue =>
      rw [hdue] at hmode
      exact ⟨⟨hsound.wellFormed, hsound.opened,
        by rw [hmode]; exact hsound.mode, hsound.named, hsound.enabled⟩, rfl,
        id⟩
    next time hdue =>
      rw [hdue] at hmode
      have hsound' : Sound cfg { l with time := time } :=
        ⟨hsound.wellFormed, hsound.opened,
          by rw [hmode]; exact hsound.mode, hsound.named, hsound.enabled⟩
      dsimp only
      split
      next => exact ⟨hsound', rfl, id⟩
      next => exact ⟨hsound', rfl, id⟩

theorem openLog_moved {cfg : RotationConfig} {l : RotatingLog}
    (hsound : l.Sound cfg) :
    (l.openLog true).2.Sound cfg ∧
      FileSystem.Preserves l.fs (l.openLog true).2.fs := by
  unfold openLog
  split
  next =>
    exact ⟨⟨hsound.wellFormed, hsound.opened, hsound.mode, hsound.named,
      hsound.enabled⟩, .refl _⟩
  next =>
    dsimp only
    refine ⟨⟨hsound.wellFormed.openFile _ _, ?_, hsound.mode, hsound.named,
      hsound.enabled⟩, .openFile _ _⟩
    intro d hd
    simp only [Option.some.injEq] at hd
    subst d
    exact l.fs.openFile_dir _ _

theorem closeLog_sound {cfg : RotationConfig} {l : RotatingLog}
    (hsound : l.Sound cfg) : l.closeLog.Sound cfg :=
  ⟨hsound.wellFormed, by simp [closeLog], hsound.mode, hsound.named,
    hsound.enabled⟩

theorem rotationStep_moved {cfg : RotationConfig} {l l' : RotatingLog}
    {pc pc' : RotationPc} (hsound : l.Sound cfg)
    (hclosed : pc.Closed → l.file = none)
    (hfree : pc.TargetFree l.fs)
    (hstep : l.rotationStep cfg pc = some (l', pc')) :
    l'.Sound cfg ∧ FileSystem.Preserves l.fs l'.fs ∧
      (pc'.Closed → l'.file = none) := by
  cases pc with
  | idle =>
      simp only [rotationStep, Option.some.injEq] at hstep
      rcases beginRotation_moved hsound with ⟨hsound', hfs, hopen⟩
      rw [hstep] at hsound' hfs hopen
      refine ⟨hsound', ?_, fun h => absurd h hopen⟩
      rw [hfs]
      exact .refl _
  | taking oldName archiveTime =>
      rcases hsound.enabled with ⟨names, htemplate, hnumbered⟩
      simp only [rotationStep, htemplate] at hstep
      split at hstep
      next => simp at hstep
      next i archive htake =>
        simp only [Option.some.injEq, Prod.mk.injEq] at hstep
        rcases hstep with ⟨rfl, rfl⟩
        rcases takeName_eq_some htake with ⟨-, -, hsame⟩
        exact ⟨⟨hsound.wellFormed, hsound.opened, hsound.mode, hsound.named,
          names, hsame.trans htemplate, hnumbered⟩, .refl _, False.elim⟩
  | closing oldName completedName =>
      simp only [rotationStep, Option.some.injEq, Prod.mk.injEq] at hstep
      rcases hstep with ⟨rfl, rfl⟩
      exact ⟨closeLog_sound hsound, .refl _, fun _ => rfl⟩
  | moving oldName completedName =>
      have hnone := hclosed trivial
      simp only [rotationStep] at hstep
      split at hstep
      next =>
        simp only [Option.some.injEq, Prod.mk.injEq] at hstep
        rcases hstep with ⟨rfl, rfl⟩
        exact ⟨⟨hsound.wellFormed, hsound.opened, hsound.mode, hsound.named,
          hsound.enabled⟩, .refl _, False.elim⟩
      next fs hmove =>
        simp only [Option.some.injEq, Prod.mk.injEq] at hstep
        rcases hstep with ⟨rfl, rfl⟩
        have hrename := moveToArchive_eq_some hmove
        refine ⟨⟨hsound.wellFormed.rename hrename, ?_, hsound.mode,
          hsound.named, hsound.enabled⟩,
          .rename hfree hrename, False.elim⟩
        intro d hd
        rw [hnone] at hd
        simp at hd
  | reclosing archived =>
      simp only [rotationStep, Option.some.injEq, Prod.mk.injEq] at hstep
      rcases hstep with ⟨rfl, rfl⟩
      exact ⟨closeLog_sound hsound, .refl _, fun _ => rfl⟩
  | naming archived =>
      have hnone := hclosed trivial
      simp only [rotationStep, Option.some.injEq, Prod.mk.injEq] at hstep
      rcases hstep with ⟨rfl, rfl⟩
      refine ⟨⟨hsound.wellFormed, ?_, hsound.mode, cfg.named _,
        hsound.enabled⟩, .refl _, False.elim⟩
      intro d hd
      rw [hnone] at hd
      simp at hd
  | opening archived =>
      have happend : (!archived || l.appends cfg) = true := by
        simp [appends_of_mode hsound.mode]
      rcases openLog_moved hsound with ⟨hsound', hpreserves⟩
      simp only [rotationStep, happend] at hstep
      split at hstep
      next hopen =>
        rw [hopen] at hsound' hpreserves
        simp only [Option.some.injEq, Prod.mk.injEq] at hstep
        rcases hstep with ⟨rfl, rfl⟩
        exact ⟨hsound', hpreserves, False.elim⟩
      next hopen =>
        rw [hopen] at hsound' hpreserves
        simp only [if_true, Option.some.injEq, Prod.mk.injEq] at hstep
        rcases hstep with ⟨rfl, rfl⟩
        exact ⟨hsound', hpreserves, False.elim⟩
  | seeking archived =>
      simp only [rotationStep, seek] at hstep
      cases hfile : l.file with
      | none =>
          simp only [hfile, Option.some.injEq, Prod.mk.injEq] at hstep
          rcases hstep with ⟨rfl, rfl⟩
          exact ⟨⟨hsound.wellFormed, by simp, hsound.mode, hsound.named,
            hsound.enabled⟩, .refl _, False.elim⟩
      | some d =>
          simp only [hfile, Option.some.injEq, Prod.mk.injEq] at hstep
          rcases hstep with ⟨rfl, rfl⟩
          refine ⟨⟨hsound.wellFormed, ?_, hsound.mode, hsound.named,
            hsound.enabled⟩, .refl _, False.elim⟩
          intro d' hd'
          simp only [Option.some.injEq] at hd'
          subst d'
          exact hsound.opened d hfile
  | sizing archived size =>
      simp only [rotationStep, Option.some.injEq, Prod.mk.injEq] at hstep
      rcases hstep with ⟨rfl, rfl⟩
      refine ⟨⟨hsound.wellFormed, hsound.opened, hsound.mode, hsound.named,
        hsound.enabled⟩, .refl _, ?_⟩
      split <;> exact False.elim
  | timing =>
      rcases hsound.enabled with ⟨names, htemplate, hnumbered⟩
      simp only [rotationStep, Option.some.injEq, Prod.mk.injEq] at hstep
      rcases hstep with ⟨rfl, rfl⟩
      refine ⟨⟨hsound.wellFormed, hsound.opened, hsound.mode, hsound.named,
        names, ?_, hnumbered⟩, .refl _, False.elim⟩
      dsimp only
      rw [FileArchivePolicy.setTime_template]
      exact htemplate

end RotatingLog

namespace SharedRotation

/-! ## The runs -/

structure Inv (cfg : RotationConfig) (base : FileSystem String UInt8)
    (s : SharedRotation) : Prop where
  sound : s.io.Sound cfg
  closed : s.logger.Closed → s.io.file = none
  each : ∃ files, FileSystem.EachInOneFile base s.io.fs files s.written

theorem step_inv {cfg : RotationConfig} {base : FileSystem String UInt8}
    {s next : SharedRotation} {act : SharedRotationAction}
    (hinv : s.Inv cfg base) (hok : s.Undisturbed cfg act)
    (hstep : step cfg s act = some next) : next.Inv cfg base := by
  rcases hinv.each with ⟨files, heach⟩
  cases act with
  | surroundings system =>
      simp only [step, Option.some.injEq] at hstep
      subst next
      exact ⟨⟨hinv.sound.wellFormed, hinv.sound.opened, hinv.sound.mode,
        hinv.sound.named, hinv.sound.enabled⟩, hinv.closed, files, heach⟩
  | append text time a =>
      simp only [step] at hstep
      split at hstep
      next =>
        simp only [Option.some.injEq] at hstep
        subst next
        exact ⟨hinv.sound, hinv.closed, files, heach⟩
      next => simp at hstep
  | publish a =>
      simp only [step, Option.some.injEq] at hstep
      subst next
      exact ⟨hinv.sound, hinv.closed, files, heach⟩
  | logger =>
      simp only [step] at hstep
      split at hstep
      next => simp at hstep
      next io logger hrotation =>
        simp only [Option.some.injEq] at hstep
        subst next
        rcases RotatingLog.rotationStep_moved hinv.sound hinv.closed hok
            hrotation with ⟨hsound, hpreserves, hclosed⟩
        exact ⟨hsound, hclosed, files, heach.preserves hpreserves⟩
  | takeReady =>
      simp only [step] at hstep
      split at hstep
      next =>
        simp only [BufferQueue.takeReady, Option.some.injEq] at hstep
        subst next
        exact ⟨hinv.sound, hinv.closed, files, heach⟩
      next => simp at hstep
  | writeBatch =>
      simp only [step] at hstep
      split at hstep
      next => simp at hstep
      next =>
        simp only [Option.some.injEq] at hstep
        subst next
        rcases RotatingLog.writeBatch_appended hinv.sound s.held hok with
          ⟨fs, i, hpreserves, hlt, hlinked, happended, hsound, -⟩
        refine ⟨hsound, fun hclosed => ?_, files ++ [i],
          (heach.preserves hpreserves).appended happended hlt hlinked⟩
        -- the descriptor was open, so the rotation is not in this place
        have hnone := hinv.closed hclosed
        rcases hok.atEnd.exists with ⟨d, hfile, -⟩
        rw [hnone] at hfile
        simp at hfile

/-- A configured asynchronous backend. -/
def start (cfg : RotationConfig) (mode : TimeRotationMode)
    (names : ArchiveTemplate) (fs : FileSystem String UInt8)
    (system : Surroundings) (options : Options) (a : Allocation) :
    SharedRotation where
  io := (RotatingLog.applyConfig cfg mode (some names) fs system).2
  queue := .new options a
  logger := .idle
  held := []
  written := []

theorem start_inv {cfg : RotationConfig} {mode : TimeRotationMode}
    {names : ArchiveTemplate} {fs : FileSystem String UInt8}
    (hfs : fs.WellFormed) {system : Surroundings} (hmode : mode ≠ .none)
    (hopen : system.openFails = false)
    (hnumbered : cfg.onSizeLimit = .rotate →
      ∀ t, Function.Injective fun i => names.buildName i t)
    (options : Options) (a : Allocation) :
    (start cfg mode names fs system options a).Inv cfg
      (start cfg mode names fs system options a).io.fs := by
  have hmode' :
      (FileTimeRotationPolicy.configure cfg.zone mode system.now).mode ≠
        .none := by
    rw [FileTimeRotationPolicy.configure_mode]
    exact hmode
  have hsound : (start cfg mode names fs system options a).io.Sound cfg := by
    simp only [start, RotatingLog.applyConfig]
    rw [RotatingLog.completeCurrentFile_unnamed rfl]
    rcases RotatingLog.startNewFile_moved cfg
        { fs := fs
          file := none
          name := ""
          currentSize := 0
          archive := FileArchivePolicy.setTime
            { template := some names, archiveIndex := 0, archiveTime := 0 }
            fs system.now
            ((FileTimeRotationPolicy.configure cfg.zone mode
              system.now).getArchiveTime system.now)
          time := .configure cfg.zone mode system.now
          system := system
          archives := []
          inherited := 0
          largest := 0
          disturbed := false }
        hfs hmode' hopen (FileArchivePolicy.setTime_template _ _ _ _)
        hnumbered with ⟨l', hstart, hmoved⟩
    rw [hstart]
    exact hmoved.sound
  exact ⟨hsound, False.elim, [], .refl _⟩

/-- In every interleaving in which the worker's sections find the descriptor
open and at the end of its file, each batch is in exactly one file. -/
theorem rotation_never_drops_batch (cfg : RotationConfig)
    (mode : TimeRotationMode) (names : ArchiveTemplate)
    (fs : FileSystem String UInt8) (hfs : fs.WellFormed)
    (system : Surroundings) (options : Options) (a : Allocation)
    (hmode : mode ≠ .none) (hopen : system.openFails = false)
    (hnumbered : cfg.onSizeLimit = .rotate →
      ∀ t, Function.Injective fun i => names.buildName i t)
    {s : SharedRotation}
    (hrun : Run (step cfg) (Undisturbed cfg)
      (start cfg mode names fs system options a) s) :
    ∃ files, FileSystem.EachInOneFile
      (start cfg mode names fs system options a).io.fs s.io.fs files
      s.written := by
  have hinv : s.Inv cfg (start cfg mode names fs system options a).io.fs :=
    hrun.invariant (fun _ _ _ => step_inv)
      (start_inv hfs hmode hopen hnumbered options a)
  exact hinv.each

/-! ## A batch between `Close` and `Open` -/

private def everyDay : RotationConfig where
  fileName := fun _ => "log"
  named := RotationSession.log_named
  onSizeLimit := .truncate
  maxSize := 0
  append := true
  zone := RotationSession.january

private def startEveryDay : SharedRotation :=
  start everyDay .daily RotationSession.oneADay
    (RotationSession.directoryWith "" none) (RotationSession.healthy 86400) {}
    ⟨0, none⟩

private def takeRecord : List SharedRotationAction :=
  [.append [97] 0 ⟨1, none⟩, .publish ⟨2, none⟩, .takeReady]

/-- The worker takes a record of the first day and executes its section after
`Display` has closed the file and before it has opened the next one.  Both
files are empty in the end. -/
theorem batch_is_dropped :
    ∃ s, Reachable (step everyDay) startEveryDay s ∧ s.logger = .idle ∧
      s.written = [[97]] ∧
      ¬ ∃ files, FileSystem.EachInOneFile startEveryDay.io.fs s.io.fs files
        s.written := by
  rcases exists_reachable_of_exec (step everyDay) startEveryDay
      (takeRecord ++ [.surroundings (RotationSession.healthy 172800)] ++
        List.replicate 3 .logger ++ [.writeBatch] ++
        List.replicate 7 .logger)
      (fun s => decide (s.logger = .idle ∧ s.written = [[97]] ∧
        ∀ i < s.io.fs.next, s.io.fs.content i = []))
      (by decide +kernel) with ⟨s, hrun, hs⟩
  rw [decide_eq_true_eq] at hs
  rcases hs with ⟨hidle, hwritten, hempty⟩
  refine ⟨s, hrun, hidle, hwritten, ?_⟩
  rintro ⟨files, heach⟩
  rw [hwritten] at heach
  rcases List.length_eq_one_iff.mp heach.paired with ⟨i, rfl⟩
  have hlt := (heach.linked i (List.mem_singleton_self i)).1
  have hcontent := heach.content i hlt
  rw [hempty i hlt] at hcontent
  simp at hcontent

/-- The section comes before the rotation. -/
theorem rotation_never_drops_batch_one_record :
    ∃ s : SharedRotation, s.written = [[97]] ∧
      ∃ files, FileSystem.EachInOneFile startEveryDay.io.fs s.io.fs files
        s.written := by
  rcases exists_run_of_exec (step everyDay) (Undisturbed everyDay)
      startEveryDay
      (takeRecord ++ [.writeBatch,
        .surroundings (RotationSession.healthy 172800)] ++
        List.replicate 10 .logger)
      (fun s => decide (s.written = [[97]])) (by decide +kernel) with
    ⟨s, hrun, hs⟩
  exact ⟨s, of_decide_eq_true hs,
    rotation_never_drops_batch everyDay .daily _ _
      (RotationSession.directoryWith_wellFormed "" none) _ _ _ (by decide) rfl
      (by simp [everyDay]) hrun⟩

end SharedRotation

end Logme
