import Mathlib.Algebra.Group.Int.Defs
import Mathlib.Algebra.Group.Nat.Defs
import Mathlib.Data.Char
import Mathlib.Data.List.Lex
import Mathlib.Data.List.Sort

/-!
# The retention cleaner

`CleanFiles` collects the regular files of one directory whose path the
pattern accepts and deletes the oldest ones beyond the limits.  The file to
keep is counted and never deleted.

Directories are identified by the components of their path.  Times of the
file clock are nanoseconds in 64 bits, and a conversion that does not fit
wraps around.
-/

namespace Logme
namespace RetentionCleaner

/-! ## Paths and directories -/

/-- `parent_path` -/
def parentPath (path : List Char) : List Char :=
  let dir := ((path.reverse.dropWhile fun c => c != '/').dropWhile
    fun c => c == '/').reverse
  if dir = [] ∧ path.head? = some '/' then ['/'] else dir

/-- The path of an entry that a directory iterator yields. -/
def entryPath (dir name : List Char) : List Char :=
  if dir.getLast? = some '/' then dir ++ name else dir ++ '/' :: name

/-- What the comparison of paths compares. -/
def pathComponents (path : List Char) : Bool × List (List Char) :=
  (path.head? == some '/',
    (path.splitOn '/').filter fun part => !part.isEmpty)

/-- A directory entry; a time or size that cannot be read is `none`. -/
structure Entry where
  name : List Char
  isRegularFile : Bool
  lastWriteTime : Option Int
  fileSize : Option Nat
  removable : Bool
  deriving DecidableEq

structure Volume where
  entries : Bool × List (List Char) → List Entry
  distinct : ∀ dir, ((entries dir).map Entry.name).Nodup

/-- `remove` for the given paths of one directory. -/
def Volume.remove (v : Volume) (dir : List Char) (paths : List (List Char)) :
    Volume where
  entries d :=
    if d = pathComponents dir then
      (v.entries d).filter fun e => decide (entryPath dir e.name ∉ paths)
    else v.entries d
  distinct d := by
    split
    · exact (v.distinct d).sublist (List.filter_sublist.map _)
    · exact v.distinct d

/-! ## The cleaner -/

structure FileInfo where
  pathName : List Char
  lastWrite : Int
  size : Nat
  removable : Bool
  deleted : Bool
  deriving DecidableEq

structure RetentionOptions where
  maxFiles : Nat
  maxAgeMs : Nat
  maxTotalSize : Nat
  deriving DecidableEq

def RetentionOptions.isEmpty (options : RetentionOptions) : Bool :=
  options.maxFiles == 0 && options.maxAgeMs == 0 && options.maxTotalSize == 0

def findMatchingFile (pattern : List Char → Bool) (dir : List Char)
    (e : Entry) : Option FileInfo :=
  if e.isRegularFile then
    if pattern (entryPath dir e.name) then
      e.lastWriteTime.map fun lastWrite =>
        ⟨entryPath dir e.name, lastWrite, e.fileSize.getD 0, e.removable, false⟩
    else none
  else none

def findMatchingFiles (pattern : List Char → Bool) (dir : List Char)
    (v : Volume) : List FileInfo :=
  if dir = [] then []
  else (v.entries (pathComponents dir)).filterMap (findMatchingFile pattern dir)

def NewestFirst (a b : FileInfo) : Prop :=
  if a.lastWrite ≠ b.lastWrite then b.lastWrite < a.lastWrite
  else a.pathName ≤ b.pathName

instance : DecidableRel NewestFirst := fun _ _ =>
  inferInstanceAs (Decidable (ite _ _ _))

def OldestFirst (a b : FileInfo) : Prop :=
  if a.lastWrite ≠ b.lastWrite then a.lastWrite < b.lastWrite
  else a.pathName ≤ b.pathName

instance : DecidableRel OldestFirst := fun _ _ =>
  inferInstanceAs (Decidable (ite _ _ _))

def sortNewestFirst (files : List FileInfo) : List FileInfo :=
  files.insertionSort NewestFirst

def sortOldestFirst (files : List FileInfo) : List FileInfo :=
  files.insertionSort OldestFirst

/-- Whether `DeleteFile` succeeds. -/
def FileInfo.deletable (keep : List Char) (f : FileInfo) : Bool :=
  f.pathName != keep && f.removable

def deleteFile (f : FileInfo) (keep : List Char) : Bool × FileInfo :=
  if f.deleted then (true, f)
  else if f.pathName = keep then (false, f)
  else if f.removable then (true, { f with deleted := true })
  else (false, f)

def countExisting (files : List FileInfo) : Nat :=
  files.countP fun f => !f.deleted

def calculateTotalSize (files : List FileInfo) : Nat :=
  (files.filter fun f => !f.deleted).foldl
    (fun total f => (total + f.size) % 2 ^ 64) 0

def getOldestExistingFiles (files : List FileInfo) : List FileInfo :=
  sortOldestFirst (files.filter fun f => !f.deleted)

/-- The marks that the loop over pointers leaves in the array. -/
def markDeleted (paths : List (List Char)) (files : List FileInfo) :
    List FileInfo :=
  files.map fun f => if f.pathName ∈ paths then { f with deleted := true } else f

/-- The paths that the loop of `ApplyMaxFiles` deletes. -/
def deleteBeyond (keep : List Char) (limit : Nat) :
    Nat → List FileInfo → List (List Char)
  | _, [] => []
  | remaining, f :: oldest =>
      if remaining ≤ limit then []
      else if (deleteFile f keep).1 then
        f.pathName :: deleteBeyond keep limit (remaining - 1) oldest
      else deleteBeyond keep limit remaining oldest

def applyMaxFiles (files : List FileInfo) (keep : List Char) (limit : Nat) :
    List FileInfo :=
  if limit = 0 then files
  else if countExisting files ≤ limit then files
  else
    markDeleted
      (deleteBeyond keep limit (countExisting files)
        (getOldestExistingFiles files)) files

def toInt64 (n : Int) : Int := n.bmod (2 ^ 64)

/-- `now - file.LastWrite <= maxAge` -/
def isYoung (now : Int) (maxAgeMs : Nat) (f : FileInfo) : Bool :=
  decide (toInt64 (now - f.lastWrite) ≤ toInt64 (toInt64 maxAgeMs * 1000000))

def applyMaxAge (now : Int) (files : List FileInfo) (keep : List Char)
    (maxAgeMs : Nat) : List FileInfo :=
  if maxAgeMs = 0 then files
  else files.map fun f =>
    if f.deleted then f
    else if f.pathName = keep then f
    else if isYoung now maxAgeMs f then f
    else (deleteFile f keep).2

/-- The paths that the loop of `ApplyMaxTotalSize` deletes. -/
def deleteOversize (keep : List Char) (limit : Nat) :
    Nat → List FileInfo → List (List Char)
  | _, [] => []
  | total, f :: oldest =>
      if total ≤ limit then []
      else if (deleteFile f keep).1 then
        f.pathName :: deleteOversize keep limit
          (if f.size > total then 0 else total - f.size) oldest
      else deleteOversize keep limit total oldest

def applyMaxTotalSize (files : List FileInfo) (keep : List Char)
    (limit : Nat) : List FileInfo :=
  if limit = 0 then files
  else if calculateTotalSize files ≤ limit then files
  else
    markDeleted
      (deleteOversize keep limit (calculateTotalSize files)
        (getOldestExistingFiles files)) files

/-- The three rules in turn; `now` is the file clock of the age rule. -/
def applyLimits (now : Int) (files : List FileInfo) (keep : List Char)
    (options : RetentionOptions) : List FileInfo :=
  let files := applyMaxFiles files keep options.maxFiles
  let files := applyMaxAge now files keep options.maxAgeMs
  applyMaxTotalSize files keep options.maxTotalSize

def deletedPaths (files : List FileInfo) : List (List Char) :=
  (files.filter FileInfo.deleted).map FileInfo.pathName

/-- `CleanFiles`, with the paths that were deleted. -/
def cleanFiles (pattern : List Char → Bool) (keep : List Char)
    (options : RetentionOptions) (now : Int) (v : Volume) :
    List (List Char) × Volume :=
  if keep = [] ∨ options.isEmpty then ([], v)
  else
    let matchedFiles := findMatchingFiles pattern (parentPath keep) v
    if matchedFiles = [] then ([], v)
    else
      let files :=
        applyLimits now (sortNewestFirst matchedFiles) keep options
      (deletedPaths files, v.remove (parentPath keep) (deletedPaths files))

/-! ## Sorting -/

instance : Std.Total OldestFirst where
  total a b := by
    unfold OldestFirst
    rcases lt_trichotomy a.lastWrite b.lastWrite with hlt | heq | hlt
    · exact .inl (by rw [if_pos hlt.ne]; exact hlt)
    · rw [if_neg (not_not.mpr heq), if_neg (not_not.mpr heq.symm)]
      exact le_total a.pathName b.pathName
    · exact .inr (by rw [if_pos hlt.ne]; exact hlt)

instance : IsTrans FileInfo OldestFirst where
  trans a b c := by
    unfold OldestFirst
    intro hab hbc
    split_ifs at * <;> first | omega | exact le_trans hab hbc

theorem OldestFirst.le {a b : FileInfo} (h : OldestFirst a b) :
    a.lastWrite ≤ b.lastWrite := by
  unfold OldestFirst at h
  split at h
  next => exact h.le
  next heq => exact (not_not.mp heq).le

theorem sortOldestFirst_pairwise (files : List FileInfo) :
    (sortOldestFirst files).Pairwise fun a b => a.lastWrite ≤ b.lastWrite :=
  (List.pairwise_insertionSort OldestFirst files).imp OldestFirst.le

theorem sortOldestFirst_perm (files : List FileInfo) :
    (sortOldestFirst files).Perm files :=
  List.perm_insertionSort OldestFirst files

theorem sortNewestFirst_perm (files : List FileInfo) :
    (sortNewestFirst files).Perm files :=
  List.perm_insertionSort NewestFirst files

/-! ## What the rules delete -/

theorem deleteFile_eq {f : FileInfo} {keep : List Char}
    (hexists : f.deleted = false) :
    deleteFile f keep =
      (f.deletable keep,
        if f.deletable keep then { f with deleted := true } else f) := by
  unfold deleteFile FileInfo.deletable
  rw [hexists]
  by_cases hkeep : f.pathName = keep
  · simp [hkeep]
  · cases hremovable : f.removable <;> simp [hkeep]

/-- The loop deletes the oldest files that can be deleted. -/
theorem deleteBeyond_eq (keep : List Char) (limit remaining : Nat)
    {oldest : List FileInfo} (hexist : ∀ f ∈ oldest, f.deleted = false) :
    deleteBeyond keep limit remaining oldest =
      ((oldest.filter (FileInfo.deletable keep)).take
        (remaining - limit)).map FileInfo.pathName := by
  induction oldest generalizing remaining with
  | nil => simp [deleteBeyond]
  | cons f oldest ih =>
      have hrest := fun remaining =>
        ih remaining fun g hg => hexist g (List.mem_cons_of_mem f hg)
      rw [deleteBeyond, deleteFile_eq (hexist f List.mem_cons_self)]
      split
      next hfew =>
        have hzero : remaining - limit = 0 := by omega
        rw [hzero, List.take_zero, List.map_nil]
      next hmany =>
        split
        next hdeletable =>
          have hsucc : remaining - limit = (remaining - 1 - limit) + 1 := by
            omega
          rw [hrest, hsucc, List.filter_cons_of_pos hdeletable,
            List.take_succ_cons, List.map_cons]
        next hkept => rw [hrest, List.filter_cons_of_neg hkept]

theorem deleteOversize_subset (keep : List Char) (limit total : Nat)
    {oldest : List FileInfo} (hexist : ∀ f ∈ oldest, f.deleted = false) :
    ∀ path ∈ deleteOversize keep limit total oldest,
      ∃ f ∈ oldest, f.pathName = path ∧ f.deletable keep = true := by
  induction oldest generalizing total with
  | nil => simp [deleteOversize]
  | cons f oldest ih =>
      have hrest : ∀ total, ∀ path ∈ deleteOversize keep limit total oldest,
          ∃ g ∈ f :: oldest, g.pathName = path ∧ g.deletable keep = true := by
        intro total path hpath
        rcases ih total (fun g hg => hexist g (List.mem_cons_of_mem f hg)) path
          hpath with ⟨g, hg, hname⟩
        exact ⟨g, List.mem_cons_of_mem f hg, hname⟩
      rw [deleteOversize, deleteFile_eq (hexist f List.mem_cons_self)]
      split
      next => simp
      next =>
        split
        next hdeletable =>
          intro path hpath
          rcases List.mem_cons.mp hpath with rfl | hpath
          · exact ⟨f, List.mem_cons_self, rfl, hdeletable⟩
          · exact hrest _ path hpath
        next => exact hrest _

/-- `after` is `before` with marks on files that can be deleted. -/
def Marks (keep : List Char) (before after : List FileInfo) : Prop :=
  List.Forall₂
    (fun f g => g = f ∨
      (f.deletable keep = true ∧ g = { f with deleted := true }))
    before after

theorem Marks.refl (keep : List Char) (files : List FileInfo) :
    Marks keep files files :=
  List.forall₂_same.mpr fun _ _ => .inl rfl

theorem Marks.trans {keep : List Char} {a b c : List FileInfo}
    (hab : Marks keep a b) (hbc : Marks keep b c) : Marks keep a c := by
  unfold Marks at *
  induction hab generalizing c with
  | nil => exact hbc
  | @cons f g a b hfirst _ ih =>
      cases hbc with
      | @cons _ h _ c hnext hrest =>
          refine .cons ?_ (ih hrest)
          rcases hfirst with rfl | ⟨hdeletable, rfl⟩
          · exact hnext
          · rcases hnext with rfl | ⟨-, rfl⟩
            · exact .inr ⟨hdeletable, rfl⟩
            · exact .inr ⟨hdeletable, rfl⟩

theorem Marks.pathNames {keep : List Char} {before after : List FileInfo}
    (h : Marks keep before after) :
    after.map FileInfo.pathName = before.map FileInfo.pathName := by
  unfold Marks at h
  induction h with
  | nil => rfl
  | cons hfirst _ ih =>
      rw [List.map_cons, List.map_cons, ih]
      rcases hfirst with rfl | ⟨-, rfl⟩ <;> rfl

/-- A marked file can be deleted or was marked before. -/
theorem Marks.of_deleted {keep : List Char} {before after : List FileInfo}
    (h : Marks keep before after) {g : FileInfo} (hg : g ∈ after)
    (hdeleted : g.deleted = true) :
    ∃ f ∈ before, f.pathName = g.pathName ∧
      (f.deletable keep = true ∨ f.deleted = true) := by
  unfold Marks at h
  induction h with
  | nil => simp at hg
  | @cons f g' before after hfirst _ ih =>
      rcases List.mem_cons.mp hg with rfl | hg
      · rcases hfirst with rfl | ⟨hdeletable, rfl⟩
        · exact ⟨_, List.mem_cons_self, rfl, .inr hdeleted⟩
        · exact ⟨f, List.mem_cons_self, rfl, .inl hdeletable⟩
      · rcases ih hg with ⟨f', hf', hname⟩
        exact ⟨f', List.mem_cons_of_mem f hf', hname⟩

theorem eq_of_pathName {files : List FileInfo}
    (hnodup : (files.map FileInfo.pathName).Nodup) {f g : FileInfo}
    (hf : f ∈ files) (hg : g ∈ files) (hname : f.pathName = g.pathName) :
    f = g :=
  List.inj_on_of_nodup_map hnodup hf hg hname

theorem markDeleted_marks {keep : List Char} {paths : List (List Char)}
    {files : List FileInfo} (hnodup : (files.map FileInfo.pathName).Nodup)
    (hpaths : ∀ path ∈ paths,
      ∃ f ∈ files, f.pathName = path ∧ f.deletable keep = true) :
    Marks keep files (markDeleted paths files) := by
  rw [Marks, markDeleted, List.forall₂_map_right_iff, List.forall₂_same]
  intro f hf
  split
  next hmem =>
    rcases hpaths _ hmem with ⟨g, hg, hname, hdeletable⟩
    rw [eq_of_pathName hnodup hg hf hname] at hdeletable
    exact .inr ⟨hdeletable, rfl⟩
  next => exact .inl rfl

theorem mem_oldest {files : List FileInfo} {f : FileInfo} :
    f ∈ getOldestExistingFiles files ↔ f ∈ files ∧ f.deleted = false := by
  rw [getOldestExistingFiles, (sortOldestFirst_perm _).mem_iff,
    List.mem_filter]
  simp

theorem applyMaxFiles_marks (keep : List Char) {files : List FileInfo}
    (hnodup : (files.map FileInfo.pathName).Nodup) (limit : Nat) :
    Marks keep files (applyMaxFiles files keep limit) := by
  unfold applyMaxFiles
  split
  next => exact .refl keep files
  next =>
    split
    next => exact .refl keep files
    next =>
      apply markDeleted_marks hnodup
      rw [deleteBeyond_eq keep _ _ fun f hf => (mem_oldest.mp hf).2]
      intro path hpath
      rcases List.mem_map.mp hpath with ⟨f, hf, rfl⟩
      rcases List.mem_filter.mp (List.mem_of_mem_take hf) with ⟨hold, hdel⟩
      exact ⟨f, (mem_oldest.mp hold).1, rfl, hdel⟩

theorem applyMaxAge_marks (now : Int) (keep : List Char)
    (files : List FileInfo) (maxAgeMs : Nat) :
    Marks keep files (applyMaxAge now files keep maxAgeMs) := by
  unfold applyMaxAge
  split
  next => exact .refl keep files
  next =>
    rw [Marks, List.forall₂_map_right_iff, List.forall₂_same]
    intro f _
    split_ifs with hdeleted hkeep hyoung
    · exact .inl rfl
    · exact .inl rfl
    · exact .inl rfl
    · rw [deleteFile_eq (by simpa using hdeleted)]
      dsimp only
      split
      next hdeletable => exact .inr ⟨hdeletable, rfl⟩
      next => exact .inl rfl

theorem applyMaxTotalSize_marks {keep : List Char} {files : List FileInfo}
    (hnodup : (files.map FileInfo.pathName).Nodup) (limit : Nat) :
    Marks keep files (applyMaxTotalSize files keep limit) := by
  unfold applyMaxTotalSize
  split
  next => exact .refl keep files
  next =>
    split
    next => exact .refl keep files
    next =>
      apply markDeleted_marks hnodup
      intro path hpath
      rcases deleteOversize_subset keep limit _
          (fun f hf => (mem_oldest.mp hf).2) path hpath with ⟨f, hf, hname⟩
      exact ⟨f, (mem_oldest.mp hf).1, hname⟩

/-- Whatever the limits are, the rules only mark files that can be
deleted. -/
theorem applyLimits_marks (now : Int) {keep : List Char}
    {files : List FileInfo} (hnodup : (files.map FileInfo.pathName).Nodup)
    (options : RetentionOptions) :
    Marks keep files (applyLimits now files keep options) := by
  have hcount := applyMaxFiles_marks keep hnodup options.maxFiles
  have hage := applyMaxAge_marks now keep
    (applyMaxFiles files keep options.maxFiles) options.maxAgeMs
  have hboth := hcount.trans hage
  refine hboth.trans (applyMaxTotalSize_marks ?_ options.maxTotalSize)
  rwa [hboth.pathNames]

/-! ## One run of the cleaner -/

theorem entryPath_injective (dir : List Char) :
    Function.Injective (entryPath dir) := by
  intro name name' h
  unfold entryPath at h
  split at h
  · exact List.append_cancel_left h
  · simpa using h

/-- The description of an entry that the pattern accepts. -/
def Entry.info (e : Entry) (dir : List Char) (lastWrite : Int) : FileInfo :=
  ⟨entryPath dir e.name, lastWrite, e.fileSize.getD 0, e.removable, false⟩

theorem findMatchingFile_eq_some {pattern : List Char → Bool}
    {dir : List Char} {e : Entry} {f : FileInfo} :
    findMatchingFile pattern dir e = some f ↔
      e.isRegularFile = true ∧ pattern (entryPath dir e.name) = true ∧
        ∃ lastWrite, e.lastWriteTime = some lastWrite ∧
          f = e.info dir lastWrite := by
  unfold findMatchingFile
  split
  next hregular =>
    split
    next hmatch =>
      simp only [Option.map_eq_some_iff, hregular, hmatch, true_and]
      exact exists_congr fun lastWrite => and_congr_right fun _ => eq_comm
    next hmatch => simp [hmatch]
  next hregular => simp [hregular]

theorem mem_findMatchingFiles {pattern : List Char → Bool}
    {dir : List Char} {v : Volume} {f : FileInfo} :
    f ∈ findMatchingFiles pattern dir v ↔
      dir ≠ [] ∧ ∃ e ∈ v.entries (pathComponents dir),
        findMatchingFile pattern dir e = some f := by
  unfold findMatchingFiles
  split
  next hempty => simp [hempty]
  next hdir => simp [List.mem_filterMap, hdir]

theorem findMatchingFiles_nodup (pattern : List Char → Bool)
    (dir : List Char) (v : Volume) :
    ((findMatchingFiles pattern dir v).map FileInfo.pathName).Nodup := by
  unfold findMatchingFiles
  split
  next => exact List.nodup_nil
  next =>
    have hnames : ∀ entries : List Entry,
        ((entries.filterMap (findMatchingFile pattern dir)).map
          FileInfo.pathName).Sublist
            ((entries.map Entry.name).map (entryPath dir)) := by
      intro entries
      induction entries with
      | nil => exact .refl _
      | cons e entries ih =>
          cases hfound : findMatchingFile pattern dir e with
          | none =>
              rw [List.filterMap_cons_none hfound]
              exact ih.cons _
          | some f =>
              rw [List.filterMap_cons_some hfound]
              rcases findMatchingFile_eq_some.mp hfound with
                ⟨-, -, lastWrite, -, rfl⟩
              exact ih.cons_cons _
    have hdistinct := v.distinct (pathComponents dir)
    exact ((List.nodup_map_iff (entryPath_injective dir)).mpr
      hdistinct).sublist (hnames _)

theorem Volume.remove_nil (v : Volume) (dir : List Char) :
    v.remove dir [] = v := by
  unfold Volume.remove
  congr 1
  funext d
  simp

/-- What a run that does something leaves of the matching files. -/
theorem cleanFiles_eq {pattern : List Char → Bool} {keep : List Char}
    {options : RetentionOptions} (hkeep : keep ≠ [])
    (hoptions : options.isEmpty = false) (now : Int) (v : Volume) :
    cleanFiles pattern keep options now v =
      let deleted := deletedPaths (applyLimits now
        (sortNewestFirst (findMatchingFiles pattern (parentPath keep) v)) keep
          options)
      (deleted, v.remove (parentPath keep) deleted) := by
  have hrun : ¬ (keep = [] ∨ options.isEmpty = true) := by
    rw [not_or]
    exact ⟨hkeep, by simp [hoptions]⟩
  unfold cleanFiles
  rw [if_neg hrun]
  dsimp only
  split
  next hnone =>
    have hdeleted : deletedPaths
        (applyLimits now (sortNewestFirst []) keep options) = [] := by
      simp [sortNewestFirst, applyLimits, applyMaxFiles, applyMaxAge,
        applyMaxTotalSize, countExisting, calculateTotalSize, deletedPaths]
    rw [hnone, hdeleted]
    rw [Volume.remove_nil]
  next => rfl

theorem mem_deletedPaths {files : List FileInfo} {path : List Char} :
    path ∈ deletedPaths files ↔
      ∃ f ∈ files, f.deleted = true ∧ f.pathName = path := by
  simp [deletedPaths, and_assoc]

/-- Only matching files that can be deleted are deleted. -/
theorem cleanFiles_subset {pattern : List Char → Bool} {keep : List Char}
    {options : RetentionOptions} {now : Int} {v : Volume} {path : List Char}
    (hpath : path ∈ (cleanFiles pattern keep options now v).1) :
    keep ≠ [] ∧ ∃ f ∈ findMatchingFiles pattern (parentPath keep) v,
      f.pathName = path ∧ f.deletable keep = true := by
  by_cases hrun : keep = [] ∨ options.isEmpty = true
  · rw [cleanFiles, if_pos hrun] at hpath
    simp at hpath
  · rw [not_or, Bool.not_eq_true] at hrun
    rw [cleanFiles_eq hrun.1 hrun.2, mem_deletedPaths] at hpath
    rcases hpath with ⟨g, hg, hdeleted, hname⟩
    have hperm := sortNewestFirst_perm
      (findMatchingFiles pattern (parentPath keep) v)
    have hnodup := (hperm.map FileInfo.pathName).nodup_iff.mpr
      (findMatchingFiles_nodup pattern (parentPath keep) v)
    rcases (applyLimits_marks now hnodup options).of_deleted hg hdeleted with
      ⟨f, hf, hsame, hdel | hdel⟩
    · exact ⟨hrun.1, f, hperm.mem_iff.mp hf, hsame.trans hname, hdel⟩
    · rcases mem_findMatchingFiles.mp (hperm.mem_iff.mp hf) with
        ⟨-, e, -, hfound⟩
      rcases findMatchingFile_eq_some.mp hfound with ⟨-, -, t, -, rfl⟩
      simp [Entry.info] at hdel

/-- The limit of one millisecond. -/
def oneMillisecond : RetentionOptions := ⟨0, 1, 0⟩

/-- Under some limit and at some time, a file that can be deleted is. -/
theorem mem_cleanFiles_oneMillisecond {pattern : List Char → Bool}
    {keep : List Char} (hkeep : keep ≠ []) {v : Volume} {f : FileInfo}
    (hf : f ∈ findMatchingFiles pattern (parentPath keep) v)
    (hdeletable : f.deletable keep = true) :
    f.pathName ∈ (cleanFiles pattern keep oneMillisecond
      (f.lastWrite + 1000001) v).1 := by
  have hexists : f.deleted = false := by
    rcases mem_findMatchingFiles.mp hf with ⟨-, e, -, hfound⟩
    rcases findMatchingFile_eq_some.mp hfound with ⟨-, -, t, -, rfl⟩
    rfl
  have hold : isYoung (f.lastWrite + 1000001) 1 f = false := by
    have hage : f.lastWrite + 1000001 - f.lastWrite = 1000001 := by omega
    rw [isYoung, hage]
    decide
  have hne : f.pathName ≠ keep := by
    intro heq
    simp [FileInfo.deletable, heq] at hdeletable
  rw [cleanFiles_eq hkeep rfl, mem_deletedPaths]
  refine ⟨{ f with deleted := true }, ?_, rfl, rfl⟩
  have hsorted := (sortNewestFirst_perm
    (findMatchingFiles pattern (parentPath keep) v)).mem_iff.mpr hf
  have hage : ∀ now files, applyLimits now files keep oneMillisecond =
      applyMaxAge now files keep 1 := fun _ _ => rfl
  rw [hage, applyMaxAge, if_neg Nat.one_ne_zero]
  refine List.mem_map.mpr ⟨f, hsorted, ?_⟩
  rw [if_neg (by simp [hexists]), if_neg hne, if_neg (by simp [hold]),
    deleteFile_eq hexists, if_pos hdeletable]

/-- With a limit on the number of files only, the oldest files that can be
deleted are, as many as there are files too many. -/
theorem mem_cleanFiles_maxFiles (pattern : List Char → Bool)
    {keep : List Char} (hkeep : keep ≠ []) {n : Nat} (hn : 0 < n)
    (now : Int) (v : Volume) :
    ∃ oldest : List FileInfo,
      oldest.Perm (findMatchingFiles pattern (parentPath keep) v) ∧
      oldest.Pairwise (fun f g => f.lastWrite ≤ g.lastWrite) ∧
      ∀ path, path ∈ (cleanFiles pattern keep ⟨n, 0, 0⟩ now v).1 ↔
        ∃ f ∈ (oldest.filter (FileInfo.deletable keep)).take
          (oldest.length - n), f.pathName = path := by
  let files := sortNewestFirst
    (findMatchingFiles pattern (parentPath keep) v)
  have hperm : files.Perm (findMatchingFiles pattern (parentPath keep) v) :=
    sortNewestFirst_perm _
  have hexist : ∀ f ∈ files, f.deleted = false := by
    intro f hf
    rcases mem_findMatchingFiles.mp (hperm.mem_iff.mp hf) with
      ⟨-, e, -, hfound⟩
    rcases findMatchingFile_eq_some.mp hfound with ⟨-, -, t, -, rfl⟩
    rfl
  have hall : files.filter (fun f => !f.deleted) = files :=
    List.filter_eq_self.mpr fun f hf => by simp [hexist f hf]
  have hcount : countExisting files = files.length := by
    rw [countExisting, List.countP_eq_length_filter, hall]
  have holdest : (getOldestExistingFiles files).Perm files := by
    rw [getOldestExistingFiles, hall]
    exact sortOldestFirst_perm files
  refine ⟨getOldestExistingFiles files, holdest.trans hperm,
    sortOldestFirst_pairwise _, fun path => ?_⟩
  have hoptions : RetentionOptions.isEmpty ⟨n, 0, 0⟩ = false := by
    simp [RetentionOptions.isEmpty, hn.ne']
  rw [cleanFiles_eq hkeep hoptions, mem_deletedPaths, holdest.length_eq]
  simp only [applyLimits, applyMaxAge, applyMaxTotalSize, if_true,
    applyMaxFiles, if_neg hn.ne']
  change (∃ f ∈ if countExisting files ≤ n then files
    else markDeleted _ files, _) ↔ _
  rw [hcount]
  split
  next hfew =>
    have hzero : files.length - n = 0 := by omega
    rw [hzero]
    constructor
    · rintro ⟨f, hf, hdeleted, -⟩
      rw [hexist f hf] at hdeleted
      exact absurd hdeleted (by simp)
    · simp
  next =>
    rw [deleteBeyond_eq keep _ _ fun f hf => (mem_oldest.mp hf).2]
    constructor
    · rintro ⟨f, hf, hdeleted, rfl⟩
      rcases List.mem_map.mp hf with ⟨g, hg, rfl⟩
      split at hdeleted
      next hmem =>
        rcases List.mem_map.mp hmem with ⟨h, hh, hname⟩
        exact ⟨h, hh, by rw [hname, if_pos hmem]⟩
      next =>
        rw [hexist g hg] at hdeleted
        exact absurd hdeleted (by simp)
    · rintro ⟨f, hf, rfl⟩
      have hmem := (mem_oldest.mp
        (List.mem_filter.mp (List.mem_of_mem_take hf)).1).1
      exact ⟨{ f with deleted := true },
        List.mem_map.mpr ⟨f, hmem, if_pos (List.mem_map_of_mem hf)⟩, rfl, rfl⟩

theorem cleanFiles_volume (pattern : List Char → Bool) (keep : List Char)
    (options : RetentionOptions) (now : Int) (v : Volume) :
    (cleanFiles pattern keep options now v).2 =
      v.remove (parentPath keep) (cleanFiles pattern keep options now v).1 := by
  unfold cleanFiles
  split
  next => exact (v.remove_nil _).symm
  next =>
    dsimp only
    split
    next => exact (v.remove_nil _).symm
    next => rfl

theorem mem_remove_of_ne {v : Volume} {dir : List Char}
    {paths : List (List Char)} {d : Bool × List (List Char)}
    (hne : d ≠ pathComponents dir) :
    (v.remove dir paths).entries d = v.entries d :=
  if_neg hne

theorem mem_remove {v : Volume} {dir : List Char}
    {paths : List (List Char)} {e : Entry} :
    e ∈ (v.remove dir paths).entries (pathComponents dir) ↔
      e ∈ v.entries (pathComponents dir) ∧ entryPath dir e.name ∉ paths := by
  simp [Volume.remove]

end RetentionCleaner
end Logme
