import Logme.RotationRuns

/-!
# When a file cannot be archived

`CompleteCurrentFile` reopens the active file when the directory of the
archive cannot be created or the file cannot be renamed.  It returns false
all the same, and its callers take that for a reason to give up: `Display`
and `AppendOutputData` leave without the record, and `WriteReadyData` recycles
the buffers of the batch.
-/

namespace Logme

open FileBackend StepSystem

namespace RotatingLog

/-- Creating the directory of an archive, or renaming to one, fails. -/
def ArchivingFails (l : RotatingLog) : Prop :=
  l.system.createFails = true ∨ l.system.renameFails = true

/-- There is a file that would be archived. -/
def CanArchive (l : RotatingLog) : Prop :=
  l.archive.template ≠ none ∧ l.name ≠ ""

theorem createLog_contentOf (cfg : RotationConfig) {l : RotatingLog}
    (hfs : l.fs.WellFormed) (name : String) :
    (createLog cfg l true).2.contentOf name = l.contentOf name := by
  cases hopen : l.system.openFails with
  | true =>
      unfold createLog openLog closeLog contentOf
      simp [hopen]
  | false =>
      have hcreate := createLog_eq cfg hopen true
      dsimp only at hcreate
      rw [hcreate]
      unfold contentOf
      dsimp only
      by_cases hname : name = cfg.fileName l.system.now
      · rw [hname, Bool.not_true, FileSystem.openFile_read]
        rfl
      · rw [FileSystem.openFile_read_of_ne hfs _ hname]

theorem archiveFile_fails (cfg : RotationConfig) {l : RotatingLog}
    (hfs : l.fs.WellFormed) (hfails : l.ArchivingFails)
    (names : ArchiveTemplate) (archiveTime : Int) :
    (archiveFile cfg l names archiveTime).1 = false ∧
      ∀ name, (archiveFile cfg l names archiveTime).2.contentOf name =
        l.contentOf name := by
  unfold archiveFile
  split
  next => exact ⟨rfl, fun _ => rfl⟩
  next i archive _ =>
    have hmove : ({ l.closeLog with archive := archive } :
        RotatingLog).moveToArchive l.closeLog.name
          (names.buildName i archive.archiveTime) = none := by
      unfold moveToArchive
      rcases hfails with hcreate | hrename
      · exact if_pos hcreate
      · rw [if_pos (show l.closeLog.system.renameFails = true from hrename)]
        exact ite_self _
    dsimp only
    rw [hmove]
    refine ⟨rfl, fun name => ?_⟩
    exact createLog_contentOf cfg
      (l := { l.closeLog with archive := archive, disturbed := true }) hfs name

/-- Nothing is written, and the caller is told so. -/
theorem completeCurrentFile_fails (cfg : RotationConfig) {l : RotatingLog}
    (hfs : l.fs.WellFormed) (hfile : l.CanArchive)
    (hfails : l.ArchivingFails) (reason : FileCompletionReason)
    (completedArchiveTime : Int) :
    (completeCurrentFile cfg l reason completedArchiveTime).1 = false ∧
      ∀ name,
        (completeCurrentFile cfg l reason completedArchiveTime).2.contentOf
          name = l.contentOf name := by
  unfold completeCurrentFile
  cases htemplate : l.archive.template with
  | none => exact absurd htemplate hfile.1
  | some names =>
      have harchive := archiveFile_fails cfg hfs hfails names
        (l.completionTime completedArchiveTime)
      dsimp only
      rw [if_pos hfile.2]
      split
      next hresult =>
        rw [hresult] at harchive
        exact harchive
      next hresult =>
        rw [hresult] at harchive
        exact absurd harchive.1 (by simp)

/-- The rotate policy completes the file before `add` more bytes. -/
def ExceedsLimit (cfg : RotationConfig) (l : RotatingLog) (add : Nat) :
    Prop :=
  cfg.maxSize ≠ 0 ∧ cfg.onSizeLimit = .rotate ∧
    cfg.maxSize < l.currentSize + add

theorem applySizeLimit_fails {cfg : RotationConfig} {l : RotatingLog}
    (hfs : l.fs.WellFormed) (hfile : l.CanArchive)
    (hfails : l.ArchivingFails) {add : Nat}
    (hexceeds : l.ExceedsLimit cfg add) :
    (applySizeLimit cfg l add).1 = false ∧
      ∀ name, (applySizeLimit cfg l add).2.contentOf name =
        l.contentOf name := by
  unfold applySizeLimit
  dsimp only
  rw [if_neg hexceeds.1, if_pos hexceeds.2.1,
    if_neg (not_le.mpr hexceeds.2.2)]
  exact completeCurrentFile_fails cfg
    (l := { l with largest := max l.largest add }) hfs hfile hfails _ _

theorem rotateIfDue_fails {cfg : RotationConfig} {l : RotatingLog}
    (hfs : l.fs.WellFormed) (hfile : l.CanArchive)
    (hfails : l.ArchivingFails)
    (hdue : (l.time.shouldRotate cfg.zone l.system.now).1 ≠ none) :
    (rotateIfDue cfg l).1 = false ∧
      ∀ name, (rotateIfDue cfg l).2.contentOf name = l.contentOf name := by
  unfold rotateIfDue
  split
  next hnone =>
    rw [hnone] at hdue
    exact absurd rfl hdue
  next time _ =>
    exact completeCurrentFile_fails cfg (l := { l with time := time }) hfs
      hfile hfails _ _

end RotatingLog

/-- A record or a batch that is about to be written: a record that `Display`
has been given, one that a synchronous backend appends, and the buffers that
the worker takes from the queue. -/
inductive PendingWrite where
  | displayed (key : Option ObfKey) (text : List UInt8) (clock : Clock)
      (a : Allocation)
  | appended (key : Option ObfKey) (text : List UInt8) (clock : Clock)
      (a : Allocation)
  | batch

namespace PendingWrite

def bytes (b : FileBackend RotatingLog) : PendingWrite → List UInt8
  | .displayed key text _ _ => b.output key text
  | .appended key text _ _ => b.output key text
  | .batch => b.queue.readyList.flatMap DataBuffer.data

def perform (cfg : RotationConfig) (b : FileBackend RotatingLog) :
    PendingWrite → FileBackend RotatingLog
  | .displayed key text clock a =>
      (RotationSession.display cfg ⟨b, [], 0⟩ key text clock a).backend
  | .appended key text clock a =>
      (b.appendObfuscated (rotatingDevice cfg) key text clock a).backend
  | .batch => (b.writeReadyData (rotatingDevice cfg)).2

/-- The write begins with a rotation. -/
def Triggers (cfg : RotationConfig) (b : FileBackend RotatingLog) :
    PendingWrite → Prop
  | .displayed _ _ _ _ =>
      Process.refuses (rotatingDevice cfg) b = false ∧
        (b.io.time.shouldRotate cfg.zone b.io.system.now).1 ≠ none
  | .appended key text _ _ =>
      b.async = false ∧ b.shutdownFlag = false ∧
        b.io.ExceedsLimit cfg (b.output key text).length
  | .batch =>
      b.io.ExceedsLimit cfg
        (b.queue.readyList.flatMap DataBuffer.data).length

/-- No file gets anything. -/
theorem perform_contentOf {cfg : RotationConfig}
    {b : FileBackend RotatingLog} {write : PendingWrite}
    (hfs : b.io.fs.WellFormed) (hfile : b.io.CanArchive)
    (hfails : b.io.ArchivingFails) (htriggers : write.Triggers cfg b)
    (hpending : write.bytes b ≠ []) (name : String) :
    (write.perform cfg b).io.contentOf name = b.io.contentOf name := by
  cases write with
  | displayed key text clock a =>
      have hrotate :=
        RotatingLog.rotateIfDue_fails hfs hfile hfails htriggers.2
      simp only [perform, RotationSession.display]
      rw [if_neg (by simp [htriggers.1])]
      split
      next hresult =>
        rw [hresult] at hrotate
        exact hrotate.2 name
      next hresult =>
        rw [hresult] at hrotate
        exact absurd hrotate.1 (by simp)
  | appended key text clock a =>
      have hlimit :=
        RotatingLog.applySizeLimit_fails hfs hfile hfails htriggers.2.2
      rcases appendObfuscated_eq (rotatingDevice cfg) b key text clock a with
        ⟨nonce, happend⟩
      have hlength := List.length_pos_iff.mpr hpending
      simp only [bytes] at hlength
      simp only [perform]
      rw [happend]
      unfold appendOutputData appendSync
      rw [if_neg (by simp [htriggers.2.1]), if_neg (by omega),
        if_pos htriggers.1]
      split
      next hresult =>
        simp only [rotatingDevice] at hresult
        rw [hresult] at hlimit
        exact hlimit.2 name
      next hresult =>
        simp only [rotatingDevice] at hresult
        rw [hresult] at hlimit
        exact absurd hlimit.1 (by simp)
  | batch =>
      have hlimit :=
        RotatingLog.applySizeLimit_fails hfs hfile hfails htriggers
      simp only [perform, writeReadyData, BufferQueue.takeReady]
      split
      next htake =>
        rfl
      next htake =>
        simp only [Prod.mk.injEq] at htake
        rcases htake with ⟨rfl, rfl⟩
        simp only [writeBatch, rotatingDevice]
        split
        next hresult =>
          rw [hresult] at hlimit
          exact hlimit.2 name
        next hresult =>
          rw [hresult] at hlimit
          exact absurd hlimit.1 (by simp)

/-- Nor does the queue. -/
theorem perform_queue {cfg : RotationConfig} {b : FileBackend RotatingLog}
    {write : PendingWrite} (hfs : b.io.fs.WellFormed)
    (hfile : b.io.CanArchive) (hfails : b.io.ArchivingFails)
    (htriggers : write.Triggers cfg b) :
    (write.perform cfg b).queue.bytes <:+ b.queue.bytes := by
  cases write with
  | displayed key text clock a =>
      have hrotate :=
        RotatingLog.rotateIfDue_fails hfs hfile hfails htriggers.2
      simp only [perform, RotationSession.display]
      rw [if_neg (by simp [htriggers.1])]
      split
      next => exact List.suffix_refl _
      next hresult =>
        rw [hresult] at hrotate
        exact absurd hrotate.1 (by simp)
  | appended key text clock a =>
      rcases appendObfuscated_eq (rotatingDevice cfg) b key text clock a with
        ⟨nonce, happend⟩
      simp only [perform]
      rw [happend]
      unfold appendOutputData appendSync
      rw [if_pos htriggers.1]
      split_ifs
      · exact List.suffix_refl _
      · exact List.suffix_refl _
      · split
        next => exact List.suffix_refl _
        next => split <;> exact List.suffix_refl _
  | batch =>
      simp only [perform, writeReadyData, BufferQueue.takeReady]
      split
      next htake =>
        simp only [Prod.mk.injEq] at htake
        rcases htake with ⟨hready, rfl⟩
        simp [BufferQueue.bytes, hready]
      next htake =>
        simp only [Prod.mk.injEq] at htake
        rcases htake with ⟨rfl, rfl⟩
        dsimp only
        split_ifs <;> simp [BufferQueue.bytes]

/-- A record or a batch that triggers a rotation which fails is appended to
no file, and the queue does not keep it. -/
theorem never_appended_after_failed_rotation (cfg : RotationConfig)
    (b : FileBackend RotatingLog) (write : PendingWrite)
    (hfs : b.io.fs.WellFormed) (hfile : b.io.CanArchive)
    (hfails : b.io.ArchivingFails) (htriggers : write.Triggers cfg b)
    (hpending : write.bytes b ≠ []) :
    (∀ name, (write.perform cfg b).io.contentOf name ≠
        b.io.contentOf name ++ write.bytes b) ∧
      (write.perform cfg b).queue.bytes <:+ b.queue.bytes := by
  refine ⟨fun name hsame => ?_, perform_queue hfs hfile hfails htriggers⟩
  rw [perform_contentOf hfs hfile hfails htriggers hpending] at hsame
  exact hpending (List.append_right_eq_self.mp hsame.symm)

/-! ## A directory that cannot be created -/

private def numberedNames : ArchiveTemplate where
  buildName := fun i _ => "old." ++ String.ofList (List.replicate i 'i')
  findLastIndex := fun _ _ => 0
  numbered := fun _ => by
    left
    intro i j hsame
    have hlist := String.ofList_injective (String.append_right_inj _ |>.mp hsame)
    simpa using congrArg List.length hlist

private def rotating : RotationConfig where
  fileName := fun _ => "log"
  named := RotationSession.log_named
  onSizeLimit := .rotate
  maxSize := 1040
  append := true
  zone := RotationSession.january

private def noDirectory (now : Int) : Surroundings := ⟨now, true, false, false⟩

private def startRotating (async : Bool) : RotationSession :=
  .start rotating .daily numberedNames (RotationSession.directoryWith "" none)
    (RotationSession.healthy 86400) async 0 0 ⟨0, 0⟩ {} ⟨0, none⟩

/-- The active file is open again after the failure, without the record of
`Display`, and without the batch of the worker. -/
theorem failed_rotation_loses_record_and_batch :
    ((exec (RotationSession.step rotating) (startRotating false)
          [RotationSession.logAt 86401 [97],
            .display (noDirectory 172800) none [98] ⟨0, 0⟩ ⟨1, none⟩]).any
        fun s => decide (s.backend.io.file.isSome ∧
          s.backend.io.contentOf "log" = [97])) = true ∧
      ((exec (RotationSession.step rotating) (startRotating true)
          [RotationSession.logAt 86401 (List.replicate 1040 97),
            .flush fun _ => ⟨2, none⟩,
            .worker (RotationSession.healthy 86402) 0 0 ⟨3, none⟩,
            RotationSession.logAt 86403 [98],
            .flush fun _ => ⟨4, none⟩,
            .worker (noDirectory 86404) 0 0 ⟨5, none⟩]).any
        fun s => decide (s.backend.io.file.isSome ∧
          s.displayed.flatMap Prod.snd = List.replicate 1040 97 ++ [98] ∧
          s.backend.io.contentOf "log" = List.replicate 1040 97 ∧
          s.backend.queue.bytes = [])) = true := by
  constructor
  · decide +kernel
  · decide +kernel

/-- `Display` on the second day. -/
theorem never_appended_after_failed_rotation_display :
    ∃ b : FileBackend RotatingLog, b.io.ArchivingFails ∧
      ∀ name,
        ((displayed none [98] ⟨0, 0⟩ ⟨1, none⟩).perform rotating b).io.contentOf
            name ≠
          b.io.contentOf name ++ [98] := by
  let s := (startRotating false).meet (noDirectory 172800)
  have hstreams : s.Streams rotating :=
    (RotationSession.start_streams rotating .daily numberedNames
      (RotationSession.directoryWith_wellFormed "" none) _ false _ _ _ _
      _).meet _
  have hintact := hstreams.intact (by decide +kernel)
  refine ⟨s.backend, .inl rfl, ?_⟩
  exact (never_appended_after_failed_rotation rotating s.backend
    (.displayed none [98] ⟨0, 0⟩ ⟨1, none⟩) hintact.wellFormed
    ⟨hintact.enabled, hintact.named⟩ (.inl rfl)
    ⟨by decide +kernel, by decide +kernel⟩
    (List.cons_ne_nil 98 [])).1

end PendingWrite

end Logme
