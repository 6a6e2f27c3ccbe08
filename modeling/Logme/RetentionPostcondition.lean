import Logme.RetentionCleaner
import Mathlib.Algebra.BigOperators.Group.List.Basic
import Mathlib.Algebra.GroupWithZero.Nat

/-!
# What the retention cleaner leaves

The rules for the number of files and for the total size delete the oldest
files first, the rule for the age those that it finds too old.  Each marks some
of the files that exist and leaves the file to keep; together they leave what
the limits permit, provided that the age rule finds the right files.  It
computes with nanoseconds in 64 bits, and a limit of some centuries or a time
as far away does not fit.
-/

namespace Logme
namespace RetentionCleaner

/-! ## The property -/

def existing (files : List FileInfo) : List FileInfo :=
  files.filter fun f => !f.deleted

/-- The files that `CleanFiles` has found, when every delete succeeds. -/
structure Candidates (files : List FileInfo) : Prop where
  distinct : (files.map FileInfo.pathName).Nodup
  present : ∀ f ∈ files, f.deleted = false
  removable : ∀ f ∈ files, f.removable = true
  size : (files.map FileInfo.size).sum < 2 ^ 64

/-- The age of a file last written at `t` is within the limit. -/
def InAge (now : Int) (maxAgeMs : Nat) (t : Int) : Prop :=
  now - t ≤ maxAgeMs * 1000000

/-- The comparison in 64 bits has the right result. -/
def JudgedRight (now : Int) (maxAgeMs : Nat) (t : Int) : Prop :=
  toInt64 (now - t) ≤ toInt64 (toInt64 maxAgeMs * 1000000) ↔ InAge now maxAgeMs t

/-- The files are within all limits; a limit of 0 is none. -/
structure Satisfied (now : Int) (keep : List Char) (options : RetentionOptions)
    (files : List FileInfo) : Prop where
  maxFiles : options.maxFiles ≠ 0 → files.length ≤ options.maxFiles
  maxAge : options.maxAgeMs ≠ 0 → ∀ f ∈ files, f.pathName ≠ keep →
    InAge now options.maxAgeMs f.lastWrite
  maxTotalSize : options.maxTotalSize ≠ 0 →
    (files.map FileInfo.size).sum ≤ options.maxTotalSize

def OnlyKeep (keep : List Char) (files : List FileInfo) : Prop :=
  ∀ f ∈ files, f.pathName = keep

/-- What the limits promise of `before` when the rules have made it `after`. -/
structure Postcondition (now : Int) (keep : List Char) (options : RetentionOptions)
    (before after : List FileInfo) : Prop where
  spared : ∀ f ∈ after, f.pathName = keep → f.deleted = false
  maxFiles : options.maxFiles ≠ 0 →
    (existing after).length ≤ options.maxFiles ∨ OnlyKeep keep (existing after)
  maxAge : options.maxAgeMs ≠ 0 → ∀ f ∈ existing after, f.pathName ≠ keep →
    InAge now options.maxAgeMs f.lastWrite
  maxTotalSize : options.maxTotalSize ≠ 0 →
    ((existing after).map FileInfo.size).sum ≤ options.maxTotalSize ∨
      OnlyKeep keep (existing after)
  oldest : ∀ f ∈ after, f.deleted = true → ∀ g ∈ existing after, g.pathName ≠ keep →
    f.lastWrite ≤ g.lastWrite
  idle : Satisfied now keep options before → after = before

/-! ## Marking -/

/-- Every rule marks the files of some kind. -/
def markWhere (p : FileInfo → Bool) (files : List FileInfo) : List FileInfo :=
  files.map fun f => if p f then { f with deleted := true } else f

theorem existing_markWhere (p : FileInfo → Bool) (files : List FileInfo) :
    existing (markWhere p files) = (existing files).filter fun f => !p f := by
  induction files with
  | nil => rfl
  | cons f files ih =>
      unfold existing markWhere at ih ⊢
      rw [List.map_cons]
      cases hp : p f <;> cases hdeleted : f.deleted <;> simp [hp, hdeleted, ih]

theorem mem_markWhere_deleted {p : FileInfo → Bool} {files : List FileInfo} {f : FileInfo}
    (h : f ∈ markWhere p files) (hdeleted : f.deleted = true) :
    ∃ g ∈ files, (g.deleted = true ∨ p g = true) ∧ g.lastWrite = f.lastWrite ∧
      g.pathName = f.pathName := by
  obtain ⟨g, hg, rfl⟩ := List.mem_map.mp h
  cases hp : p g with
  | true => exact ⟨g, hg, .inr hp, by simp, by simp⟩
  | false =>
      rw [hp] at hdeleted
      exact ⟨g, hg, .inl (by simpa using hdeleted), by simp, by simp⟩

/-- The rule spares the file to keep and deletes older files than it leaves. -/
structure Deletes (keep : List Char) (p : FileInfo → Bool) (files : List FileInfo) :
    Prop where
  spares : ∀ f ∈ files, p f = true → f.pathName ≠ keep
  oldest : ∀ f ∈ files, p f = true → ∀ g ∈ existing files, p g = false →
    g.pathName ≠ keep → f.lastWrite ≤ g.lastWrite

/-- What the rules keep among the files that they have been given. -/
structure Kept (keep : List Char) (files : List FileInfo) : Prop where
  distinct : (files.map FileInfo.pathName).Nodup
  removable : ∀ f ∈ files, f.removable = true
  spared : ∀ f ∈ files, f.deleted = true → f.pathName ≠ keep
  oldest : ∀ f ∈ files, f.deleted = true → ∀ g ∈ existing files, g.pathName ≠ keep →
    f.lastWrite ≤ g.lastWrite

theorem Candidates.kept {files : List FileInfo} (h : Candidates files) (keep : List Char) :
    Kept keep files where
  distinct := h.distinct
  removable := h.removable
  spared := fun f hf hdeleted => by
    rw [h.present f hf] at hdeleted
    cases hdeleted
  oldest := fun f hf hdeleted => by
    rw [h.present f hf] at hdeleted
    cases hdeleted

theorem Candidates.existing {files : List FileInfo} (h : Candidates files) :
    existing files = files :=
  List.filter_eq_self.mpr fun f hf => by simp [h.present f hf]

theorem Kept.markWhere {keep : List Char} {files : List FileInfo} (h : Kept keep files)
    {p : FileInfo → Bool} (hp : Deletes keep p files) : Kept keep (markWhere p files) where
  distinct := by
    have hnames : (RetentionCleaner.markWhere p files).map FileInfo.pathName =
        files.map FileInfo.pathName := by
      unfold RetentionCleaner.markWhere
      rw [List.map_map]
      refine List.map_congr_left fun f _ => ?_
      cases hmarked : p f <;> simp [hmarked]
    rw [hnames]
    exact h.distinct
  removable := fun f hf => by
    obtain ⟨g, hg, rfl⟩ := List.mem_map.mp hf
    have hremovable := h.removable g hg
    split <;> exact hremovable
  spared := fun f hf hdeleted => by
    obtain ⟨g, hg, hcase, -, hname⟩ := mem_markWhere_deleted hf hdeleted
    rw [← hname]
    exact hcase.elim (h.spared g hg) (hp.spares g hg)
  oldest := fun f hf hdeleted g hg hkeep => by
    rw [existing_markWhere, List.mem_filter] at hg
    obtain ⟨f', hf', hcase, htime, -⟩ := mem_markWhere_deleted hf hdeleted
    rw [← htime]
    rcases hcase with hbefore | hmarked
    · exact h.oldest f' hf' hbefore g hg.1 hkeep
    · exact hp.oldest f' hf' hmarked g hg.1 (by simpa using hg.2) hkeep

/-- A rule leaves no more than there was. -/
theorem existing_markWhere_sublist (p : FileInfo → Bool) (files : List FileInfo) :
    (existing (markWhere p files)).Sublist (existing files) := by
  rw [existing_markWhere]
  exact List.filter_sublist

theorem Kept.existing_nodup {keep : List Char} {files : List FileInfo} (h : Kept keep files) :
    (existing files).Nodup :=
  (List.Nodup.of_map FileInfo.pathName h.distinct).sublist List.filter_sublist

theorem Kept.deletable_iff {keep : List Char} {files : List FileInfo} (h : Kept keep files)
    {f : FileInfo} (hf : f ∈ files) : f.deletable keep = true ↔ f.pathName ≠ keep := by
  simp [FileInfo.deletable, h.removable f hf]

/-! ## Deleting the oldest -/

/-- The existing files that can be deleted, the oldest first. -/
def deletableOldest (keep : List Char) (files : List FileInfo) : List FileInfo :=
  (getOldestExistingFiles files).filter (FileInfo.deletable keep)

/-- The kind of the `m` oldest of them. -/
def amongOldest (keep : List Char) (files : List FileInfo) (m : Nat) (f : FileInfo) : Bool :=
  (((deletableOldest keep files).take m).map FileInfo.pathName).contains f.pathName

theorem mem_deletableOldest {keep : List Char} {files : List FileInfo} {f : FileInfo} :
    f ∈ deletableOldest keep files ↔ f ∈ existing files ∧ f.deletable keep = true := by
  rw [deletableOldest, List.mem_filter, mem_oldest, existing, List.mem_filter]
  simp

theorem amongOldest_iff {keep : List Char} {files : List FileInfo} (h : Kept keep files)
    (m : Nat) {f : FileInfo} (hf : f ∈ files) :
    amongOldest keep files m f = true ↔ f ∈ (deletableOldest keep files).take m := by
  rw [amongOldest, List.contains_iff_mem, List.mem_map]
  constructor
  · rintro ⟨g, hg, hname⟩
    have hmem := (List.mem_filter.mp (mem_deletableOldest.mp (List.mem_of_mem_take hg)).1).1
    rwa [← eq_of_pathName h.distinct hmem hf hname]
  · intro hmem
    exact ⟨f, hmem, rfl⟩

theorem deletableOldest_pairwise (keep : List Char) (files : List FileInfo) :
    (deletableOldest keep files).Pairwise fun f g => f.lastWrite ≤ g.lastWrite :=
  (sortOldestFirst_pairwise _).sublist List.filter_sublist

theorem amongOldest_deletes {keep : List Char} {files : List FileInfo} (h : Kept keep files)
    (m : Nat) : Deletes keep (amongOldest keep files m) files where
  spares := fun f hf hmarked => by
    have hmem := List.mem_of_mem_take ((amongOldest_iff h m hf).mp hmarked)
    exact (h.deletable_iff hf).mp (mem_deletableOldest.mp hmem).2
  oldest := fun f hf hmarked g hg hleft hkeep => by
    have hgf := (List.mem_filter.mp hg).1
    have htaken := (amongOldest_iff h m hf).mp hmarked
    have hmem : g ∈ deletableOldest keep files :=
      mem_deletableOldest.mpr ⟨hg, (h.deletable_iff hgf).mpr hkeep⟩
    have hnot : g ∉ (deletableOldest keep files).take m := by
      intro hin
      rw [(amongOldest_iff h m hgf).mpr hin] at hleft
      cases hleft
    rw [← List.take_append_drop m (deletableOldest keep files)] at hmem
    have hdropped := (List.mem_append.mp hmem).resolve_left hnot
    have hsorted := deletableOldest_pairwise keep files
    rw [← List.take_append_drop m (deletableOldest keep files)] at hsorted
    exact (List.pairwise_append.mp hsorted).2.2 f htaken g hdropped

/-- What is left and what is deleted make up what there was. -/
theorem amongOldest_sum {keep : List Char} {files : List FileInfo} (h : Kept keep files)
    (m : Nat) (weight : FileInfo → Nat) :
    ((existing (markWhere (amongOldest keep files m) files)).map weight).sum +
        (((deletableOldest keep files).take m).map weight).sum =
      ((existing files).map weight).sum := by
  have hnodup := h.existing_nodup
  have htaken : ((deletableOldest keep files).take m).Perm
      ((existing files).filter (amongOldest keep files m)) := by
    refine (List.perm_ext_iff_of_nodup ?_ (hnodup.filter _)).mpr ?_
    · have hperm : (getOldestExistingFiles files).Perm (existing files) :=
        sortOldestFirst_perm _
      exact ((hperm.nodup_iff.mpr hnodup).filter _).sublist (List.take_sublist _ _)
    · intro f
      rw [List.mem_filter]
      constructor
      · intro hmem
        have hexists := (mem_deletableOldest.mp (List.mem_of_mem_take hmem)).1
        exact ⟨hexists, (amongOldest_iff h m (List.mem_filter.mp hexists).1).mpr hmem⟩
      · rintro ⟨hexists, hmarked⟩
        exact (amongOldest_iff h m (List.mem_filter.mp hexists).1).mp hmarked
  have hsplit := List.filter_append_perm (amongOldest keep files m) (existing files)
  rw [existing_markWhere, (htaken.map weight).sum_eq, ← (hsplit.map weight).sum_eq,
    List.map_append, List.sum_append, Nat.add_comm]

theorem amongOldest_all {keep : List Char} {files : List FileInfo} (h : Kept keep files)
    {m : Nat} (hm : (deletableOldest keep files).length ≤ m) :
    OnlyKeep keep (existing (markWhere (amongOldest keep files m) files)) := by
  intro g hg
  rw [existing_markWhere, List.mem_filter] at hg
  have hgf := (List.mem_filter.mp hg.1).1
  by_contra hkeep
  have hmem : g ∈ deletableOldest keep files :=
    mem_deletableOldest.mpr ⟨hg.1, (h.deletable_iff hgf).mpr hkeep⟩
  rw [← List.take_of_length_le hm] at hmem
  rw [(amongOldest_iff h m hgf).mpr hmem] at hg
  simp at hg

theorem markDeleted_taken (keep : List Char) (files : List FileInfo) (m : Nat) :
    markDeleted (((deletableOldest keep files).take m).map FileInfo.pathName) files =
      markWhere (amongOldest keep files m) files := by
  unfold markDeleted markWhere amongOldest
  simp only [List.contains_iff_mem]

/-! ## The rules -/

/-- What a rule does with the files that it finds. -/
structure RuleSpec (keep : List Char) (files after : List FileInfo) : Prop where
  kept : Kept keep after
  left : (existing after).Sublist (existing files)

theorem Deletes.spec {keep : List Char} {files : List FileInfo} (h : Kept keep files)
    {p : FileInfo → Bool} (hp : Deletes keep p files) :
    RuleSpec keep files (markWhere p files) :=
  ⟨h.markWhere hp, existing_markWhere_sublist p files⟩

theorem RuleSpec.refl {keep : List Char} {files : List FileInfo} (h : Kept keep files) :
    RuleSpec keep files files := ⟨h, .refl _⟩

theorem sum_map_one (files : List FileInfo) : (files.map fun _ => 1).sum = files.length := by
  induction files with
  | nil => rfl
  | cons f files ih => rw [List.map_cons, List.sum_cons, ih, List.length_cons, Nat.add_comm]

theorem sum_size_le {files others : List FileInfo} (h : files.Sublist others) :
    (files.map FileInfo.size).sum ≤ (others.map FileInfo.size).sum := by
  induction h with
  | slnil => exact Nat.le_refl 0
  | cons f _ ih =>
      rw [List.map_cons, List.sum_cons]
      omega
  | cons_cons f _ ih =>
      rw [List.map_cons, List.map_cons, List.sum_cons, List.sum_cons]
      omega

theorem countExisting_eq (files : List FileInfo) :
    countExisting files = (existing files).length :=
  List.countP_eq_length_filter

/-- The rule for the number of files. -/
theorem applyMaxFiles_spec {keep : List Char} {files : List FileInfo} (h : Kept keep files)
    (limit : Nat) :
    RuleSpec keep files (applyMaxFiles files keep limit) ∧
      (limit ≠ 0 → (existing (applyMaxFiles files keep limit)).length ≤ limit ∨
        OnlyKeep keep (existing (applyMaxFiles files keep limit))) := by
  unfold applyMaxFiles
  rw [countExisting_eq]
  split
  next hnone => exact ⟨.refl h, fun hlimit => absurd hnone hlimit⟩
  next hlimit =>
    split
    next hfew => exact ⟨.refl h, fun _ => .inl hfew⟩
    next hmany =>
      rw [deleteBeyond_eq keep _ _ fun f hf => (mem_oldest.mp hf).2, ← deletableOldest,
        markDeleted_taken]
      generalize hm : (existing files).length - limit = m
      refine ⟨(amongOldest_deletes h m).spec h, fun _ => ?_⟩
      by_cases hall : (deletableOldest keep files).length ≤ m
      · exact .inr (amongOldest_all h hall)
      · left
        have hsum := amongOldest_sum h m fun _ => 1
        simp only [sum_map_one, List.length_take] at hsum
        omega

/-- The age rule. -/
theorem applyMaxAge_spec (now : Int) {keep : List Char} {files : List FileInfo}
    (h : Kept keep files) (maxAgeMs : Nat)
    (hjudged : maxAgeMs ≠ 0 → ∀ f ∈ existing files, f.pathName ≠ keep →
      JudgedRight now maxAgeMs f.lastWrite) :
    RuleSpec keep files (applyMaxAge now files keep maxAgeMs) ∧
      (maxAgeMs ≠ 0 → ∀ f ∈ existing (applyMaxAge now files keep maxAgeMs),
        f.pathName ≠ keep → InAge now maxAgeMs f.lastWrite) := by
  unfold applyMaxAge
  split
  next hnone => exact ⟨.refl h, fun hlimit => absurd hnone hlimit⟩
  next hlimit =>
    have hyoung : ∀ f ∈ existing files, f.pathName ≠ keep →
        (isYoung now maxAgeMs f = true ↔ InAge now maxAgeMs f.lastWrite) := by
      intro f hf hkeep
      rw [isYoung, decide_eq_true_iff]
      exact hjudged hlimit f hf hkeep
    have hmark : (files.map fun f =>
        if f.deleted then f
        else if f.pathName = keep then f
        else if isYoung now maxAgeMs f then f
        else (deleteFile f keep).2) =
        markWhere (fun f => !f.deleted && f.deletable keep && !isYoung now maxAgeMs f)
          files := by
      refine List.map_congr_left fun f hf => ?_
      cases hdeleted : f.deleted with
      | true => simp [hdeleted]
      | false =>
          rw [deleteFile_eq hdeleted]
          by_cases hkeep : f.pathName = keep
          · simp [hkeep, FileInfo.deletable]
          · have hdeletable := (h.deletable_iff hf).mpr hkeep
            cases hold : isYoung now maxAgeMs f <;> simp [hkeep, hdeletable, hdeleted, hold]
    rw [hmark]
    have hdeletes : Deletes keep
        (fun f => !f.deleted && f.deletable keep && !isYoung now maxAgeMs f) files := by
      constructor
      · intro f hf hmarked
        simp only [Bool.and_eq_true] at hmarked
        exact (h.deletable_iff hf).mp hmarked.1.2
      · intro f hf hmarked g hg hleft hkeep
        simp only [Bool.and_eq_true, Bool.not_eq_true'] at hmarked
        have hgf := List.mem_filter.mp hg
        have hfe : f ∈ existing files := List.mem_filter.mpr ⟨hf, by simp [hmarked.1.1]⟩
        have hold : ¬ InAge now maxAgeMs f.lastWrite := by
          rw [← hyoung f hfe ((h.deletable_iff hf).mp hmarked.1.2), hmarked.2]
          decide
        have hnew : InAge now maxAgeMs g.lastWrite := by
          rw [← hyoung g hg hkeep]
          have hpresent : g.deleted = false := by simpa using hgf.2
          simpa [hpresent, (h.deletable_iff hgf.1).mpr hkeep] using hleft
        unfold InAge at hold hnew
        omega
    refine ⟨hdeletes.spec h, fun _ f hf hkeep => ?_⟩
    rw [existing_markWhere, List.mem_filter] at hf
    have hff := List.mem_filter.mp hf.1
    have hpresent : f.deleted = false := by simpa using hff.2
    rw [← hyoung f hf.1 hkeep]
    simpa [hpresent, (h.deletable_iff hff.1).mpr hkeep] using hf.2

/-- The loop deletes the oldest files until the rest is small enough. -/
theorem deleteOversize_eq (keep : List Char) (limit total : Nat) {oldest : List FileInfo}
    (hexist : ∀ f ∈ oldest, f.deleted = false)
    (hsum : ((oldest.filter (FileInfo.deletable keep)).map FileInfo.size).sum ≤ total) :
    ∃ m, deleteOversize keep limit total oldest =
        ((oldest.filter (FileInfo.deletable keep)).take m).map FileInfo.pathName ∧
      ((oldest.filter (FileInfo.deletable keep)).length ≤ m ∨
        total ≤ limit +
          (((oldest.filter (FileInfo.deletable keep)).take m).map FileInfo.size).sum) := by
  induction oldest generalizing total with
  | nil => exact ⟨0, rfl, .inl (Nat.le_refl 0)⟩
  | cons f oldest ih =>
      have hrest := fun total => ih total fun g hg => hexist g (List.mem_cons_of_mem f hg)
      rw [deleteOversize, deleteFile_eq (hexist f List.mem_cons_self)]
      split
      next hsmall => exact ⟨0, by simp, .inr (by simpa using hsmall)⟩
      next =>
        split
        next hdeletable =>
          rw [List.filter_cons_of_pos hdeletable] at hsum ⊢
          rw [List.map_cons, List.sum_cons] at hsum
          rw [if_neg (by omega)]
          obtain ⟨m, htaken, henough⟩ := hrest (total - f.size) (by omega)
          refine ⟨m + 1, by rw [htaken]; rfl, ?_⟩
          rcases henough with hall | hsmall
          · exact .inl (Nat.succ_le_succ hall)
          · right
            rw [List.take_succ_cons, List.map_cons, List.sum_cons]
            omega
        next hkept =>
          rw [List.filter_cons_of_neg hkept] at hsum ⊢
          exact hrest total hsum

theorem calculateTotalSize_eq {files : List FileInfo}
    (h : ((existing files).map FileInfo.size).sum < 2 ^ 64) :
    calculateTotalSize files = ((existing files).map FileInfo.size).sum := by
  have hfold : ∀ (l : List FileInfo) (start : Nat),
      start + (l.map FileInfo.size).sum < 2 ^ 64 →
      l.foldl (fun total f => (total + f.size) % 2 ^ 64) start =
        start + (l.map FileInfo.size).sum := by
    intro l
    induction l with
    | nil => intro start _; rfl
    | cons f l ih =>
        intro start hstart
        rw [List.map_cons, List.sum_cons] at hstart ⊢
        rw [List.foldl_cons, Nat.mod_eq_of_lt (by omega), ih _ (by omega), Nat.add_assoc]
  rw [calculateTotalSize, ← existing, hfold _ 0 (by omega), Nat.zero_add]

/-- The rule for the total size. -/
theorem applyMaxTotalSize_spec {keep : List Char} {files : List FileInfo}
    (h : Kept keep files) (hsize : ((existing files).map FileInfo.size).sum < 2 ^ 64)
    (limit : Nat) :
    RuleSpec keep files (applyMaxTotalSize files keep limit) ∧
      (limit ≠ 0 →
        ((existing (applyMaxTotalSize files keep limit)).map FileInfo.size).sum ≤ limit ∨
          OnlyKeep keep (existing (applyMaxTotalSize files keep limit))) := by
  unfold applyMaxTotalSize
  rw [calculateTotalSize_eq hsize]
  split
  next hnone => exact ⟨.refl h, fun hlimit => absurd hnone hlimit⟩
  next hlimit =>
    split
    next hsmall => exact ⟨.refl h, fun _ => .inl hsmall⟩
    next =>
      have hpart : (((getOldestExistingFiles files).filter
          (FileInfo.deletable keep)).map FileInfo.size).sum ≤
            ((existing files).map FileInfo.size).sum := by
        rw [← ((sortOldestFirst_perm (existing files)).map FileInfo.size).sum_eq]
        exact sum_size_le List.filter_sublist
      obtain ⟨m, htaken, henough⟩ := deleteOversize_eq keep limit
        ((existing files).map FileInfo.size).sum
        (fun f hf => (mem_oldest.mp hf).2) hpart
      rw [htaken, ← deletableOldest, markDeleted_taken]
      refine ⟨(amongOldest_deletes h m).spec h, fun _ => ?_⟩
      rcases henough with hall | henough
      · exact .inr (amongOldest_all h hall)
      · left
        have hsum := amongOldest_sum h m FileInfo.size
        rw [← deletableOldest] at henough
        omega

/-! ## The three rules in turn -/

theorem applyMaxFiles_idle {keep : List Char} {files : List FileInfo} {limit : Nat}
    (h : limit ≠ 0 → (existing files).length ≤ limit) :
    applyMaxFiles files keep limit = files := by
  unfold applyMaxFiles
  rw [countExisting_eq]
  split
  next => rfl
  next hlimit => rw [if_pos (h hlimit)]

theorem applyMaxAge_idle {now : Int} {keep : List Char} {files : List FileInfo}
    {maxAgeMs : Nat}
    (h : maxAgeMs ≠ 0 → ∀ f ∈ files, f.pathName ≠ keep → isYoung now maxAgeMs f = true) :
    applyMaxAge now files keep maxAgeMs = files := by
  unfold applyMaxAge
  split
  next => rfl
  next hlimit =>
    refine (List.map_congr_left fun f hf => ?_).trans (List.map_id files)
    by_cases hkeep : f.pathName = keep
    · simp [hkeep]
    · simp [h hlimit f hf hkeep]

theorem applyMaxTotalSize_idle {keep : List Char} {files : List FileInfo} {limit : Nat}
    (h : limit ≠ 0 → calculateTotalSize files ≤ limit) :
    applyMaxTotalSize files keep limit = files := by
  unfold applyMaxTotalSize
  split
  next => rfl
  next hlimit => rw [if_pos (h hlimit)]

theorem OnlyKeep.sublist {keep : List Char} {files others : List FileInfo}
    (h : OnlyKeep keep others) (hsub : files.Sublist others) : OnlyKeep keep files :=
  fun f hf => h f (hsub.subset hf)

theorem applyLimits_idle {now : Int} {keep : List Char} {options : RetentionOptions}
    {files : List FileInfo} (h : Candidates files)
    (hjudged : options.maxAgeMs ≠ 0 → ∀ f ∈ files, f.pathName ≠ keep →
      JudgedRight now options.maxAgeMs f.lastWrite)
    (hsatisfied : Satisfied now keep options files) :
    applyLimits now files keep options = files := by
  have hsize : ((existing files).map FileInfo.size).sum < 2 ^ 64 := by
    rw [h.existing]
    exact h.size
  simp only [applyLimits]
  rw [applyMaxFiles_idle, applyMaxAge_idle, applyMaxTotalSize_idle]
  · intro hlimit
    rw [calculateTotalSize_eq hsize, h.existing]
    exact hsatisfied.maxTotalSize hlimit
  · intro hlimit f hf hkeep
    rw [isYoung, decide_eq_true_iff]
    exact (hjudged hlimit f hf hkeep).mpr (hsatisfied.maxAge hlimit f hf hkeep)
  · intro hlimit
    rw [h.existing]
    exact hsatisfied.maxFiles hlimit

/-- Where the age rule finds the right files, the limits keep their promise. -/
theorem applyLimits_postcondition {now : Int} {keep : List Char}
    {options : RetentionOptions} {files : List FileInfo} (h : Candidates files)
    (hjudged : options.maxAgeMs ≠ 0 → ∀ f ∈ files, f.pathName ≠ keep →
      JudgedRight now options.maxAgeMs f.lastWrite) :
    Postcondition now keep options files (applyLimits now files keep options) := by
  have hidle := @applyLimits_idle now keep options files h hjudged
  simp only [applyLimits] at hidle ⊢
  obtain ⟨hcount, hfew⟩ := applyMaxFiles_spec (h.kept keep) options.maxFiles
  have hcounted : ∀ f ∈ existing (applyMaxFiles files keep options.maxFiles), f ∈ files :=
    fun f hf => (List.mem_filter.mp (hcount.left.subset hf)).1
  obtain ⟨hage, hyoung⟩ := applyMaxAge_spec now hcount.kept options.maxAgeMs
    fun hlimit f hf => hjudged hlimit f (hcounted f hf)
  have hsize : ((existing (applyMaxAge now (applyMaxFiles files keep options.maxFiles) keep
      options.maxAgeMs)).map FileInfo.size).sum < 2 ^ 64 := by
    have hle := sum_size_le (hage.left.trans hcount.left)
    rw [h.existing] at hle
    exact Nat.lt_of_le_of_lt hle h.size
  obtain ⟨htotal, hsmall⟩ := applyMaxTotalSize_spec hage.kept hsize options.maxTotalSize
  constructor
  · intro f hf hkeep
    cases hdeleted : f.deleted with
    | false => rfl
    | true => exact absurd hkeep (htotal.kept.spared f hf hdeleted)
  · intro hlimit
    have hsub := htotal.left.trans hage.left
    exact (hfew hlimit).imp (Nat.le_trans hsub.length_le) fun honly => honly.sublist hsub
  · intro hlimit f hf hkeep
    exact hyoung hlimit f (htotal.left.subset hf) hkeep
  · exact hsmall
  · exact htotal.kept.oldest
  · exact hidle

/-- One file, last written at `t`, that is not the file to keep. -/
def singleFile (t : Int) : FileInfo := ⟨['a'], t, 0, true, false⟩

theorem candidates_singleFile (t : Int) : Candidates [singleFile t] where
  distinct := List.nodup_singleton _
  present := by simp [singleFile]
  removable := by simp [singleFile]
  size := by simp [singleFile]

theorem applyLimits_singleFile (now : Int) {maxAgeMs : Nat} (hlimit : maxAgeMs ≠ 0)
    (t : Int) :
    applyLimits now [singleFile t] ['b'] ⟨0, maxAgeMs, 0⟩ =
      [if isYoung now maxAgeMs (singleFile t) then singleFile t
        else { singleFile t with deleted := true }] := by
  have hname : (singleFile t).pathName ≠ ['b'] := by simp [singleFile]
  have hdelete : deleteFile (singleFile t) ['b'] =
      (true, { singleFile t with deleted := true }) := by
    simp [deleteFile, singleFile]
  simp only [applyLimits, applyMaxFiles, applyMaxAge, applyMaxTotalSize, hlimit, hname, hdelete,
    List.map_cons, List.map_nil, if_true, if_false]
  rw [show (singleFile t).deleted = false from rfl]
  cases isYoung now maxAgeMs (singleFile t) <;> simp

theorem judgedRight_of_singleFile {now : Int} {maxAgeMs : Nat} (hlimit : maxAgeMs ≠ 0)
    {t : Int}
    (h : Postcondition now ['b'] ⟨0, maxAgeMs, 0⟩ [singleFile t]
      (applyLimits now [singleFile t] ['b'] ⟨0, maxAgeMs, 0⟩)) :
    JudgedRight now maxAgeMs t := by
  rw [applyLimits_singleFile now hlimit] at h
  have hjudge : isYoung now maxAgeMs (singleFile t) = true ↔
      toInt64 (now - t) ≤ toInt64 (toInt64 maxAgeMs * 1000000) := by
    rw [isYoung, decide_eq_true_iff]
    exact Iff.rfl
  rw [JudgedRight, ← hjudge]
  constructor
  · intro hyoung
    rw [if_pos hyoung] at h
    exact h.maxAge hlimit (singleFile t) (by simp [existing, singleFile])
      (by simp [singleFile])
  · intro hage
    by_contra hold
    have hsatisfied : Satisfied now ['b'] ⟨0, maxAgeMs, 0⟩ [singleFile t] := by
      constructor
      · intro hnone
        exact absurd rfl hnone
      · intro _ f hf _
        rw [List.mem_singleton.mp hf]
        exact hage
      · intro hnone
        exact absurd rfl hnone
    have hidle := h.idle hsatisfied
    rw [if_neg hold] at hidle
    simp [singleFile] at hidle

/-- The limits keep their promise of all files written at these times exactly
if the comparison of the ages in 64 bits is right for each time. -/
theorem applyLimits_postcondition_iff (now : Int) (maxAgeMs : Nat) (times : Int → Prop) :
    (∀ (files : List FileInfo) (keep : List Char) (maxFiles maxTotalSize : Nat),
      Candidates files → (∀ f ∈ files, f.pathName ≠ keep → times f.lastWrite) →
      Postcondition now keep ⟨maxFiles, maxAgeMs, maxTotalSize⟩ files
        (applyLimits now files keep ⟨maxFiles, maxAgeMs, maxTotalSize⟩)) ↔
      (maxAgeMs ≠ 0 → ∀ t, times t → JudgedRight now maxAgeMs t) := by
  constructor
  · intro h hlimit t ht
    refine judgedRight_of_singleFile hlimit
      (h _ _ 0 0 (candidates_singleFile t) fun f hf _ => ?_)
    rw [List.mem_singleton.mp hf]
    exact ht
  · intro h files keep maxFiles maxTotalSize hfiles htimes
    exact applyLimits_postcondition hfiles fun hlimit f hf hkeep =>
      h hlimit f.lastWrite (htimes f hf hkeep)

/-- With the largest limit every file is too old, also one just written. -/
theorem applyLimits_deletes_fresh :
    ¬ ∀ (now : Int) (keep : List Char) (options : RetentionOptions) (files : List FileInfo),
      Candidates files → options.maxAgeMs < 2 ^ 64 →
        Postcondition now keep options files (applyLimits now files keep options) := by
  intro h
  have hright := judgedRight_of_singleFile (by decide)
    (h 0 ['b'] ⟨0, 2 ^ 64 - 1, 0⟩ [singleFile 0] (candidates_singleFile 0) (by decide))
  exact absurd hright (by unfold JudgedRight InAge; decide)

end RetentionCleaner
end Logme
