import Logme.Library.BudgetWindow
import Mathlib.Data.Int.Order.Basic
import Mathlib.Data.List.Nodup

/-!
# The directory size watchdog

One pass of `Monitor` over a directory that nobody changes meanwhile.  The
directory is enumerated twice, each time in an order of the system's choice.
When the total size exceeds the limit, the candidates for deletion are kept
in a list sorted by time, which is cut to a batch size after each insertion.
The cut takes files off the old end of the list, so what is deleted in the
end are the newest files that fit the batch.

`recursive_directory_iterator` is the list of entries, with what the system
reports of each.  The clocks of the file system and of the system are taken
to differ by a constant during the pass.
-/

namespace Logme

open BudgetWindow

/-- `none` is an error of `file_size` or `last_write_time`; `inUse` is the
answer of `TestInUse`. -/
structure DirEntry where
  path : String
  regular : Bool
  extension : String
  size : Option Nat
  lastWrite : Option Int
  inUse : Bool

/-- No two entries of a directory have the same path. -/
structure Directory where
  entries : List DirEntry
  distinct : (entries.map DirEntry.path).Nodup

structure FileInfo where
  size : Nat
  path : String
  lastWrite : Int
  deriving DecidableEq

structure DirectorySizeWatchdog where
  extensions : List String
  maximalSize : UInt64

namespace DirectorySizeWatchdog

/-- The body of the loop of `LimitExeeded`. -/
def addSize (w : DirectorySizeWatchdog) (totalSize : Nat) (e : DirEntry) :
    Nat :=
  if e.regular = false then totalSize
  else if e.extension ∉ w.extensions then totalSize
  else
    match e.size with
    | none => totalSize
    | some fsize => (totalSize + fsize) % 2 ^ 64

def limitExeeded (w : DirectorySizeWatchdog) (entries : List DirEntry) :
    Bool × Nat :=
  if w.extensions = [] ∨ w.maximalSize.toNat = 0 ∨
      w.maximalSize.toNat = 2 ^ 64 - 1 then
    (false, 0)
  else
    let totalSize := entries.foldl w.addSize 0
    (decide (totalSize > w.maximalSize.toNat), totalSize)

/-- The backward loop of `InsertSorted`, on the reversed list: where the sum
exceeds the batch size, this file and the older ones are erased. -/
def eraseFront (maxBatchSize : Nat) : Nat → List FileInfo → List FileInfo
  | _, [] => []
  | currentSize, file :: older =>
      let currentSize := (currentSize + file.size) % 2 ^ 64
      if currentSize > maxBatchSize then []
      else file :: eraseFront maxBatchSize currentSize older

def insertSorted (files : List FileInfo) (newFile : FileInfo)
    (maxBatchSize : Nat) : List FileInfo :=
  (eraseFront maxBatchSize 0
    (insertLast FileInfo.lastWrite newFile files).reverse).reverse

def maxBatch : Nat := 32 * 1024 * 1024

/-- The part of the batch size that does not depend on the excess. -/
def batchSlack (w : DirectorySizeWatchdog) : Nat :=
  min (w.maximalSize.toNat / 20) maxBatch

def maxBatchSize (w : DirectorySizeWatchdog) (totalSize : Nat) : Nat :=
  if totalSize > w.maximalSize.toNat then
    w.batchSlack + (totalSize - w.maximalSize.toNat)
  else w.batchSlack

/-- What `Collect` makes of one entry; `none` where it continues. -/
def candidate (w : DirectorySizeWatchdog) (e : DirEntry) : Option FileInfo :=
  if e.regular = false then none
  else if e.extension ∉ w.extensions then none
  else if e.inUse then none
  else
    match e.size, e.lastWrite with
    | some fsize, some ftime => some ⟨fsize, e.path, ftime⟩
    | _, _ => none

def collect (w : DirectorySizeWatchdog) (entries : List DirEntry)
    (totalSize : Nat) : List FileInfo :=
  entries.foldl
    (fun files e =>
      match w.candidate e with
      | none => files
      | some file => insertSorted files file (w.maxBatchSize totalSize))
    []

/-- The files that one pass of `Monitor` deletes. -/
def monitor (w : DirectorySizeWatchdog) (first second : List DirEntry) :
    List FileInfo :=
  match w.limitExeeded first with
  | (false, _) => []
  | (true, totalSize) => w.collect second totalSize

/-- `DeleteFiles` when every deletion succeeds. -/
def deleteFiles (files : List FileInfo) (entries : List DirEntry) :
    List DirEntry :=
  entries.filter fun e => decide (e.path ∉ files.map FileInfo.path)

/-! ## Sizes of a directory -/

/-- What an entry counts for. -/
def entrySize (w : DirectorySizeWatchdog) (e : DirEntry) : Nat :=
  if e.regular = true ∧ e.extension ∈ w.extensions then e.size.getD 0 else 0

def monitoredSize (w : DirectorySizeWatchdog) (entries : List DirEntry) : Nat :=
  total w.entrySize entries

/-- The files that `Collect` may choose from. -/
def eligible (w : DirectorySizeWatchdog) (d : Directory) : List FileInfo :=
  d.entries.filterMap w.candidate

/-- The limit is exceeded in a directory of less than `2 ^ 64` bytes. -/
structure Exceeds (w : DirectorySizeWatchdog) (d : Directory) : Prop where
  watched : w.extensions ≠ []
  limited : w.maximalSize.toNat ≠ 0 ∧ w.maximalSize.toNat ≠ 2 ^ 64 - 1
  exceeded : w.maximalSize.toNat < w.monitoredSize d.entries

theorem addSize_eq (w : DirectorySizeWatchdog) (totalSize : Nat)
    (e : DirEntry) (hfits : totalSize + w.entrySize e < 2 ^ 64) :
    w.addSize totalSize e = totalSize + w.entrySize e := by
  unfold addSize entrySize at *
  cases hregular : e.regular with
  | false => simp
  | true =>
      by_cases hext : e.extension ∈ w.extensions
      · cases hsize : e.size with
        | none => simp [hext]
        | some fsize =>
            simp only [hregular, hext, hsize, Option.getD_some, and_self,
              if_true] at hfits
            simp only [Bool.true_eq_false, if_false, hext, not_true_eq_false,
              Option.getD_some, and_self, if_true]
            exact Nat.mod_eq_of_lt hfits
      · simp [hext]

theorem foldl_addSize (w : DirectorySizeWatchdog) (entries : List DirEntry)
    (totalSize : Nat)
    (hfits : totalSize + w.monitoredSize entries < 2 ^ 64) :
    entries.foldl w.addSize totalSize =
      totalSize + w.monitoredSize entries := by
  induction entries generalizing totalSize with
  | nil => rfl
  | cons e entries ih =>
      simp only [monitoredSize, total_cons] at hfits ih ⊢
      rw [List.foldl_cons, w.addSize_eq totalSize e (by omega),
        ih _ (by omega)]
      omega

/-- The limit is tested on the total of any enumeration. -/
theorem limitExeeded_eq {w : DirectorySizeWatchdog} {d : Directory}
    (hexceeds : w.Exceeds d) (hfits : w.monitoredSize d.entries < 2 ^ 64)
    {entries : List DirEntry} (hperm : entries.Perm d.entries) :
    w.limitExeeded entries = (true, w.monitoredSize d.entries) := by
  have hsame : w.monitoredSize entries = w.monitoredSize d.entries :=
    total_perm hperm
  have hfold := w.foldl_addSize entries 0 (by rw [hsame]; omega)
  rw [hsame, Nat.zero_add] at hfold
  unfold limitExeeded
  rw [if_neg]
  · simp [hfold, hexceeds.exceeded]
  · rintro (hnone | hzero | hmax)
    · exact hexceeds.watched hnone
    · exact hexceeds.limited.1 hzero
    · exact hexceeds.limited.2 hmax

theorem candidate_eq_some {w : DirectorySizeWatchdog} {e : DirEntry}
    {file : FileInfo} (h : w.candidate e = some file) :
    file.path = e.path ∧ file.size = w.entrySize e := by
  unfold candidate at h
  split_ifs at h with hregular hext hinUse
  split at h
  next fsize ftime hsize htime =>
    simp only [Option.some.injEq] at h
    subst file
    simp at hregular hext
    simp [entrySize, hregular, hext, hsize]
  next => simp at h

theorem eligible_nodup (w : DirectorySizeWatchdog) (d : Directory) :
    ((w.eligible d).map FileInfo.path).Nodup := by
  have hsub : ∀ entries : List DirEntry,
      ((entries.filterMap w.candidate).map FileInfo.path).Sublist
        (entries.map DirEntry.path) := by
    intro entries
    induction entries with
    | nil => exact .refl _
    | cons e entries ih =>
        cases hcandidate : w.candidate e with
        | none =>
            rw [List.filterMap_cons_none hcandidate]
            exact ih.cons _
        | some file =>
            rw [List.filterMap_cons_some hcandidate, List.map_cons,
              List.map_cons, (candidate_eq_some hcandidate).1]
            exact ih.cons_cons _
  exact d.distinct.sublist (hsub d.entries)

theorem total_eligible_le (w : DirectorySizeWatchdog)
    (entries : List DirEntry) :
    total FileInfo.size (entries.filterMap w.candidate) ≤
      w.monitoredSize entries := by
  induction entries with
  | nil => exact Nat.le_refl _
  | cons e entries ih =>
      simp only [monitoredSize, total_cons] at ih ⊢
      cases hcandidate : w.candidate e with
      | none =>
          rw [List.filterMap_cons_none hcandidate]
          omega
      | some file =>
          rw [List.filterMap_cons_some hcandidate, total_cons,
            (candidate_eq_some hcandidate).2]
          omega

/-! ## The list of candidates is a window -/

theorem eraseFront_eq (maxBatchSize currentSize : Nat)
    (files : List FileInfo) (hcurrent : currentSize ≤ maxBatchSize)
    (hfits : currentSize + total FileInfo.size files < 2 ^ 64) :
    (eraseFront maxBatchSize currentSize files.reverse).reverse =
      fit FileInfo.size (maxBatchSize - currentSize) files := by
  induction files using List.reverseRecOn generalizing currentSize with
  | nil => rfl
  | append_singleton files file ih =>
      rw [total_append] at hfits
      simp only [total_cons, total_nil] at hfits
      rw [List.reverse_append, List.reverse_singleton, List.singleton_append,
        eraseFront]
      have hmod : (currentSize + file.size) % 2 ^ 64 =
          currentSize + file.size := Nat.mod_eq_of_lt (by omega)
      rw [hmod]
      by_cases hlarge : currentSize + file.size > maxBatchSize
      · rw [if_pos hlarge, List.reverse_nil,
          fit_append_of_lt files (l := [file]) (by simp; omega), fit,
          if_neg (by simp; omega)]
        rfl
      · have hbudget : maxBatchSize - (currentSize + file.size) =
            maxBatchSize - currentSize - file.size := by omega
        rw [if_neg hlarge, List.reverse_cons,
          ih (currentSize + file.size) (by omega) (by omega), hbudget,
          fit_append_singleton files (by omega)]

theorem insertSorted_eq (files : List FileInfo) (newFile : FileInfo)
    (maxBatchSize : Nat)
    (hfits : newFile.size + total FileInfo.size files < 2 ^ 64) :
    insertSorted files newFile maxBatchSize =
      fit FileInfo.size maxBatchSize
        (insertLast FileInfo.lastWrite newFile files) := by
  have hperm := insertLast_perm FileInfo.lastWrite newFile files
  have htotal : total FileInfo.size
        (insertLast FileInfo.lastWrite newFile files) =
      total FileInfo.size (newFile :: files) :=
    total_perm hperm
  rw [total_cons] at htotal
  exact eraseFront_eq maxBatchSize 0 _ (Nat.zero_le _) (by omega)

theorem collect_eq (w : DirectorySizeWatchdog) (entries : List DirEntry)
    (totalSize : Nat) (hfits : w.monitoredSize entries < 2 ^ 64) :
    w.collect entries totalSize =
      window FileInfo.lastWrite FileInfo.size (w.maxBatchSize totalSize)
        (entries.filterMap w.candidate) := by
  induction entries using List.reverseRecOn with
  | nil => rfl
  | append_singleton entries e ih =>
      have hbefore : w.monitoredSize entries + w.entrySize e < 2 ^ 64 := by
        simpa [monitoredSize] using hfits
      have hcollect := ih (by omega)
      unfold collect at hcollect ⊢
      rw [List.foldl_append, hcollect]
      cases hcandidate : w.candidate e with
      | none => simp [hcandidate]
      | some file =>
          have htotal : total FileInfo.size
                (window FileInfo.lastWrite FileInfo.size
                  (w.maxBatchSize totalSize) (entries.filterMap w.candidate)) ≤
              total FileInfo.size (entries.filterMap w.candidate) :=
            total_le_of_subperm (window_subperm _ _)
          have heligible := w.total_eligible_le entries
          have hsize := (candidate_eq_some hcandidate).2
          simp only [List.foldl_cons, List.foldl_nil, hcandidate,
            List.filterMap_append, List.filterMap_cons_some hcandidate,
            List.filterMap_nil]
          rw [window_snoc, insertSorted_eq _ _ _ (by omega)]

/-- What a pass deletes when the limit is exceeded. -/
theorem monitor_eq {w : DirectorySizeWatchdog} {d : Directory}
    (hexceeds : w.Exceeds d) (hfits : w.monitoredSize d.entries < 2 ^ 64)
    {first second : List DirEntry} (hfirst : first.Perm d.entries)
    (hsecond : second.Perm d.entries) :
    w.monitor first second =
      window FileInfo.lastWrite FileInfo.size
        (w.maxBatchSize (w.monitoredSize d.entries))
        (second.filterMap w.candidate) := by
  have hsame : w.monitoredSize second = w.monitoredSize d.entries :=
    total_perm hsecond
  unfold monitor
  rw [limitExeeded_eq hexceeds hfits hfirst]
  exact w.collect_eq second _ (by omega)

theorem monitor_eq_nil {w : DirectorySizeWatchdog} {d : Directory}
    (hwithin : ¬ w.Exceeds d) (hfits : w.monitoredSize d.entries < 2 ^ 64)
    {first : List DirEntry} (second : List DirEntry)
    (hfirst : first.Perm d.entries) : w.monitor first second = [] := by
  have hsame : w.monitoredSize first = w.monitoredSize d.entries :=
    total_perm hfirst
  have hfold := w.foldl_addSize first 0 (by rw [hsame]; omega)
  rw [hsame, Nat.zero_add] at hfold
  unfold monitor limitExeeded
  by_cases hoff : w.extensions = [] ∨ w.maximalSize.toNat = 0 ∨
      w.maximalSize.toNat = 2 ^ 64 - 1
  · rw [if_pos hoff]
  · rw [if_neg hoff]
    push Not at hoff
    have hbelow : ¬ w.monitoredSize d.entries > w.maximalSize.toNat :=
      fun h => hwithin ⟨hoff.1, hoff.2, h⟩
    simp [hfold, hbelow]

/-- Every order of the eligible files comes from an order of the entries. -/
theorem exists_perm_filterMap_eq {α β : Type} {f : α → Option β}
    {xs : List α} {ys : List β} (h : ys.Perm (xs.filterMap f)) :
    ∃ xs' : List α, xs'.Perm xs ∧ xs'.filterMap f = ys := by
  induction ys generalizing xs with
  | nil => exact ⟨xs, .refl _, List.nil_perm.mp h⟩
  | cons y ys ih =>
      rcases List.mem_filterMap.mp (h.mem_iff.mp List.mem_cons_self) with ⟨x, hx, hfx⟩
      rcases List.append_of_mem hx with ⟨before, after, rfl⟩
      have hfront : (before ++ x :: after).Perm (x :: (before ++ after)) :=
        List.perm_middle
      have hothers := (h.trans (hfront.filterMap f))
      rw [List.filterMap_cons_some hfx] at hothers
      rcases ih hothers.cons_inv with ⟨others, hperm, heq⟩
      exact ⟨x :: others, (hperm.cons x).trans hfront.symm,
        by rw [List.filterMap_cons_some hfx, heq]⟩

/-- In every order of enumeration the deleted files have a property, if and
only if the window of every order of the eligible files has it. -/
theorem forall_monitor_iff {w : DirectorySizeWatchdog} {d : Directory}
    (hexceeds : w.Exceeds d) (hfits : w.monitoredSize d.entries < 2 ^ 64)
    (P : List FileInfo → Prop) :
    (∀ first second, first.Perm d.entries → second.Perm d.entries →
        P (w.monitor first second)) ↔
      ∀ files, files.Perm (w.eligible d) →
        P (window FileInfo.lastWrite FileInfo.size
          (w.maxBatchSize (w.monitoredSize d.entries)) files) := by
  constructor
  · intro hall files hfiles
    rcases exists_perm_filterMap_eq hfiles with ⟨second, hsecond, rfl⟩
    rw [← monitor_eq hexceeds hfits (.refl _) hsecond]
    exact hall _ _ (.refl _) hsecond
  · intro hall first second hfirst hsecond
    rw [monitor_eq hexceeds hfits hfirst hsecond]
    exact hall _ (hsecond.filterMap w.candidate)

/-! ## Oldest files first -/

/-- No file is deleted while an older eligible one is left. -/
def OldestFirst (w : DirectorySizeWatchdog) (d : Directory)
    (deleted : List FileInfo) : Prop :=
  ∀ f ∈ deleted, ∀ g ∈ w.eligible d, g.lastWrite < f.lastWrite → g ∈ deleted

theorem nodup_eligible (w : DirectorySizeWatchdog) (d : Directory) :
    (w.eligible d).Nodup :=
  List.Nodup.of_map _ (w.eligible_nodup d)

/-- The pass deletes the oldest files first, in whatever order the directory
is enumerated, if and only if there is nothing to delete, or all eligible
files fit the batch, or all but the oldest are too large for it. -/
theorem oldest_first_iff (w : DirectorySizeWatchdog) (d : Directory)
    (hfits : w.monitoredSize d.entries < 2 ^ 64) :
    (∀ first second, first.Perm d.entries → second.Perm d.entries →
        w.OldestFirst d (w.monitor first second)) ↔
      ¬ w.Exceeds d ∨
        total FileInfo.size (w.eligible d) ≤
          w.maxBatchSize (w.monitoredSize d.entries) ∨
        ∀ f ∈ w.eligible d, ∀ g ∈ w.eligible d, g.lastWrite < f.lastWrite →
          w.maxBatchSize (w.monitoredSize d.entries) < f.size := by
  by_cases hexceeds : w.Exceeds d
  · rw [forall_monitor_iff hexceeds hfits (w.OldestFirst d)]
    simp only [hexceeds, not_true_eq_false, false_or]
    exact window_lower_iff (w.nodup_eligible d)
  · simp only [hexceeds, not_false_eq_true, true_or, iff_true]
    intro first second hfirst _
    rw [monitor_eq_nil hexceeds hfits second hfirst]
    exact fun f hf => absurd hf (by simp)

private def logFile (path : String) (size : Nat) (time : Int)
    (inUse : Bool) : DirEntry :=
  ⟨path, true, ".log", some size, some time, inUse⟩

private def hundredBytes : DirectorySizeWatchdog := ⟨[".log"], 100⟩

/-- 160 bytes, of which 60 are to be deleted. -/
private def oldAndNew : Directory where
  entries := [logFile "old.log" 100 1 false, logFile "new.log" 60 2 false]
  distinct := by decide

/-- The newer file is deleted and the older one stays. -/
theorem newer_file_deleted_first :
    ¬ ∀ (w : DirectorySizeWatchdog) (d : Directory)
        (first second : List DirEntry), first.Perm d.entries →
      second.Perm d.entries → w.OldestFirst d (w.monitor first second) := by
  intro hall
  have hdeleted : hundredBytes.monitor oldAndNew.entries oldAndNew.entries =
      [⟨60, "new.log", 2⟩] := by decide
  have hmem := hall hundredBytes oldAndNew _ _ (.refl _) (.refl _)
    ⟨60, "new.log", 2⟩ (by rw [hdeleted]; simp) ⟨100, "old.log", 1⟩
    (by decide) (by decide)
  rw [hdeleted] at hmem
  exact absurd hmem (by decide)

/-- A large file in use, and two small ones that may be deleted. -/
private def busyDirectory : Directory where
  entries := [logFile "busy.log" 104 3 true, logFile "new.log" 2 2 false,
    logFile "old.log" 2 1 false]
  distinct := by decide

theorem oldest_first_iff_busy :
    hundredBytes.OldestFirst busyDirectory
      (hundredBytes.monitor busyDirectory.entries
        busyDirectory.entries.reverse) :=
  (oldest_first_iff hundredBytes busyDirectory (by decide)).mpr
    (.inr (.inl (by decide))) _ _ (.refl _) (List.reverse_perm _)

/-! ## Restoring the limit -/

/-- The directory is within the limit, or nothing more could be deleted. -/
def Restored (w : DirectorySizeWatchdog) (d : Directory)
    (deleted : List FileInfo) : Prop :=
  w.monitoredSize (deleteFiles deleted d.entries) ≤ w.maximalSize.toNat ∨
    ∀ g ∈ w.eligible d, g ∈ deleted

theorem eq_of_path_eq {d : Directory} {e e' : DirEntry}
    (he : e ∈ d.entries) (he' : e' ∈ d.entries) (hpath : e.path = e'.path) :
    e = e' :=
  List.inj_on_of_nodup_map d.distinct he he' hpath

/-- What is deleted is taken off the total. -/
theorem monitoredSize_deleteFiles (w : DirectorySizeWatchdog) (d : Directory)
    {deleted : List FileInfo} (hsub : deleted.Subperm (w.eligible d)) :
    w.monitoredSize (deleteFiles deleted d.entries) +
      total FileInfo.size deleted = w.monitoredSize d.entries := by
  -- an entry is deleted when the file made of it is
  have hentry : ∀ e ∈ d.entries, e.path ∈ deleted.map FileInfo.path ↔
      ∃ file ∈ deleted, w.candidate e = some file := by
    intro e he
    constructor
    · intro hpath
      rcases List.mem_map.mp hpath with ⟨file, hfile, hpath⟩
      rcases List.mem_filterMap.mp (hsub.subset hfile) with ⟨e', he', hfe'⟩
      have hsame := eq_of_path_eq he' he
        ((candidate_eq_some hfe').1.symm.trans hpath)
      exact ⟨file, hfile, hsame ▸ hfe'⟩
    · rintro ⟨file, hfile, hcandidate⟩
      exact List.mem_map.mpr ⟨file, hfile, (candidate_eq_some hcandidate).1⟩
  have hsum : ∀ entries : List DirEntry, (∀ e ∈ entries, e ∈ d.entries) →
      w.monitoredSize (deleteFiles deleted entries) +
          total FileInfo.size
            ((entries.filterMap w.candidate).filter (· ∈ deleted)) =
        w.monitoredSize entries := by
    intro entries hentries
    induction entries with
    | nil => rfl
    | cons e entries ih =>
        have hothers := ih fun e he => hentries e (List.mem_cons_of_mem _ he)
        have hhead := hentry e (hentries e (by simp))
        simp only [monitoredSize, deleteFiles] at hothers ⊢
        by_cases hpath : e.path ∈ deleted.map FileInfo.path
        · rcases hhead.mp hpath with ⟨file, hfile, hcandidate⟩
          have hsize := (candidate_eq_some hcandidate).2
          rw [List.filter_cons_of_neg (by simpa using hpath),
            List.filterMap_cons_some hcandidate,
            List.filter_cons_of_pos (by simpa using hfile), total_cons,
            total_cons]
          omega
        · have hnone : (List.filterMap w.candidate (e :: entries)).filter
                (· ∈ deleted) =
              (List.filterMap w.candidate entries).filter (· ∈ deleted) := by
            cases hcandidate : w.candidate e with
            | none => rw [List.filterMap_cons_none hcandidate]
            | some file =>
                have hout : file ∉ deleted := fun hfile =>
                  hpath (hhead.mpr ⟨file, hfile, hcandidate⟩)
                rw [List.filterMap_cons_some hcandidate,
                  List.filter_cons_of_neg (by simpa using hout)]
          rw [List.filter_cons_of_pos (by simpa using hpath), total_cons,
            total_cons, hnone]
          omega
  have hkept : ((w.eligible d).filter (· ∈ deleted)).Perm deleted := by
    have hdistinct : deleted.Nodup := by
      rcases hsub with ⟨l, hl, hsub⟩
      exact hl.nodup_iff.mp ((w.nodup_eligible d).sublist hsub)
    refine (List.perm_ext_iff_of_nodup
      ((w.nodup_eligible d).filter _) hdistinct).mpr fun file => ?_
    simp only [List.mem_filter, decide_eq_true_eq, and_iff_right_iff_imp]
    exact fun hfile => hsub.subset hfile
  rw [← total_perm hkept]
  exact hsum d.entries fun e he => he

/-- 130 bytes, of which 30 are to be deleted. -/
private def largeAndSmall : Directory where
  entries := [logFile "old.log" 120 1 false, logFile "new.log" 10 2 false]
  distinct := by decide

end DirectorySizeWatchdog

end Logme
