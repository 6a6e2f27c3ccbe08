import Logme.Library.NewestKept
import Logme.FileRetention

/-!
# Which archives retention leaves

With a limit on the number of files only, a run of the cleaner counts every
file that matches, the one to keep among them, and deletes the oldest ones it
can until the limit is met.  The newest archives are what is left only if the
count is that of the archives, or if the limit is not exceeded, or if nothing
else can be deleted.
-/

namespace Logme
namespace RetentionCleaner

/-! ## The limit on the number of files -/

/-- The time by which an entry is sorted. -/
def Entry.modified (e : Entry) : Int := e.lastWriteTime.getD 0

/-- Whether a run with `keep` can delete the entry. -/
def Entry.deletable (pattern : List Char → Bool) (keep : List Char)
    (e : Entry) : Bool :=
  (findMatchingFile pattern (parentPath keep) e).any (FileInfo.deletable keep)

def countMatching (pattern : List Char → Bool) (keep : List Char)
    (v : Volume) : Nat :=
  (findMatchingFiles pattern (parentPath keep) v).length

theorem Entry.deletable_iff {pattern : List Char → Bool} {keep : List Char}
    {e : Entry} :
    e.deletable pattern keep = true ↔
      findMatchingFile pattern (parentPath keep) e =
          some (e.info (parentPath keep) e.modified) ∧
        (e.info (parentPath keep) e.modified).deletable keep = true := by
  unfold Entry.deletable
  cases hfound : findMatchingFile pattern (parentPath keep) e with
  | none => simp
  | some f =>
      rcases findMatchingFile_eq_some.mp hfound with ⟨-, -, t, ht, rfl⟩
      have hmodified : e.modified = t := by rw [modified, ht, Option.getD_some]
      simp [hmodified]

section OneRun

variable {pattern : List Char → Bool} {keep : List Char} {v : Volume}
  {archives : List Entry}

/-- Of the matching files those that can be deleted are the archives that can
be deleted. -/
theorem filter_deletable_eq
    (hdir : parentPath keep ≠ [])
    (hsorted : NewestKept.Ascending Entry.modified archives)
    (hpresent : ∀ a ∈ archives,
      a ∈ v.entries (pathComponents (parentPath keep)))
    (hothers : ∀ e ∈ v.entries (pathComponents (parentPath keep)),
      e.deletable pattern keep = true → e ∈ archives)
    {oldest : List FileInfo}
    (hperm : oldest.Perm (findMatchingFiles pattern (parentPath keep) v))
    (holdest : oldest.Pairwise fun f g => f.lastWrite ≤ g.lastWrite) :
    oldest.filter (FileInfo.deletable keep) =
      (archives.filter (Entry.deletable pattern keep)).map
        fun e => e.info (parentPath keep) e.modified := by
  have hascending : ((archives.filter (Entry.deletable pattern keep)).map
      fun e => e.info (parentPath keep) e.modified).Pairwise
        fun f g => f.lastWrite < g.lastWrite := by
    rw [List.pairwise_map]
    exact hsorted.filter _
  have hmem : ∀ f, f ∈ oldest.filter (FileInfo.deletable keep) ↔
      f ∈ (archives.filter (Entry.deletable pattern keep)).map
        fun e => e.info (parentPath keep) e.modified := by
    intro f
    rw [List.mem_filter, hperm.mem_iff, mem_findMatchingFiles, List.mem_map]
    constructor
    · rintro ⟨⟨-, e, he, hfound⟩, hdeletable⟩
      have hcan : e.deletable pattern keep = true := by
        rw [Entry.deletable, hfound, Option.any_some]
        exact hdeletable
      have hinfo := (Entry.deletable_iff.mp hcan).1
      rw [hfound, Option.some.injEq] at hinfo
      exact ⟨e, List.mem_filter.mpr ⟨hothers e he hcan, hcan⟩, hinfo.symm⟩
    · rintro ⟨e, he, rfl⟩
      rcases List.mem_filter.mp he with ⟨harchive, hcan⟩
      rcases Entry.deletable_iff.mp hcan with ⟨hfound, hdeletable⟩
      exact ⟨⟨hdir, e, hpresent e harchive, hfound⟩, hdeletable⟩
  have hnodup : oldest.Nodup := hperm.nodup_iff.mpr
    (findMatchingFiles_nodup pattern (parentPath keep) v).of_map
  have hnodup' : ((archives.filter (Entry.deletable pattern keep)).map
      fun e => e.info (parentPath keep) e.modified).Nodup := by
    refine hascending.imp ?_
    rintro f g hlt rfl
    exact lt_irrefl _ hlt
  have hsame := (List.perm_ext_iff_of_nodup (hnodup.filter _) hnodup').mpr hmem
  refine hsame.eq_of_pairwise ?_ (holdest.filter _)
    (hascending.imp fun hlt => le_of_lt hlt)
  intro f g hf hg hle hge
  rcases List.mem_map.mp ((hmem f).mp hf) with ⟨a, ha, rfl⟩
  rcases List.mem_map.mp hg with ⟨c, hc, rfl⟩
  rw [hsorted.injOn (List.mem_filter.mp ha).1 (List.mem_filter.mp hc).1
    (le_antisymm hle hge)]

/-- The archives that a run deletes. -/
theorem archive_mem_cleanFiles (hdir : parentPath keep ≠ [])
    (hsorted : NewestKept.Ascending Entry.modified archives)
    (hpresent : ∀ a ∈ archives,
      a ∈ v.entries (pathComponents (parentPath keep)))
    (hothers : ∀ e ∈ v.entries (pathComponents (parentPath keep)),
      e.deletable pattern keep = true → e ∈ archives)
    {limit : Nat} (hlimit : 0 < limit) (now : Int) {a : Entry}
    (ha : a ∈ archives) :
    entryPath (parentPath keep) a.name ∈
        (cleanFiles pattern keep ⟨limit, 0, 0⟩ now v).1 ↔
      a ∈ (archives.filter (Entry.deletable pattern keep)).take
        (countMatching pattern keep v - limit) := by
  have hkeep : keep ≠ [] := by
    rintro rfl
    exact hdir rfl
  rcases mem_cleanFiles_maxFiles pattern hkeep hlimit now v with
    ⟨oldest, hperm, holdest, hremoved⟩
  rw [hremoved, filter_deletable_eq hdir hsorted hpresent hothers hperm
    holdest, hperm.length_eq, ← List.map_take]
  constructor
  · rintro ⟨f, hf, hname⟩
    rcases List.mem_map.mp hf with ⟨e, he, rfl⟩
    have hentry : e ∈ archives :=
      (List.mem_filter.mp (List.mem_of_mem_take he)).1
    have hsame : e.name = a.name := entryPath_injective _ hname
    rw [← List.inj_on_of_nodup_map (v.distinct _) (hpresent e hentry)
      (hpresent a ha) hsame]
    exact he
  · intro hmem
    exact ⟨_, List.mem_map_of_mem hmem, rfl⟩

end OneRun

/-- What is deleted depends on the files that match. -/
theorem cleanFiles_paths_congr {pattern : List Char → Bool}
    {keep : List Char} {options : RetentionOptions} {now : Int}
    {v v' : Volume}
    (hsame : findMatchingFiles pattern (parentPath keep) v =
      findMatchingFiles pattern (parentPath keep) v') :
    (cleanFiles pattern keep options now v).1 =
      (cleanFiles pattern keep options now v').1 := by
  unfold cleanFiles
  rw [hsame]
  split
  next => rfl
  next =>
    dsimp only
    split
    next => rfl
    next => rfl

/-- What a run leaves of a directory. -/
theorem mem_cleanFiles_entries {pattern : List Char → Bool}
    {keep : List Char} {options : RetentionOptions} {now : Int} {v : Volume}
    {e : Entry} :
    e ∈ (cleanFiles pattern keep options now v).2.entries
        (pathComponents (parentPath keep)) ↔
      e ∈ v.entries (pathComponents (parentPath keep)) ∧
        entryPath (parentPath keep) e.name ∉
          (cleanFiles pattern keep options now v).1 := by
  rw [cleanFiles_volume, mem_remove]

theorem cleanFiles_entries_of_ne {pattern : List Char → Bool}
    {keep : List Char} {options : RetentionOptions} {now : Int} {v : Volume}
    {dir : Bool × List (List Char)}
    (hne : parentPath keep = [] ∨ dir ≠ pathComponents (parentPath keep)) :
    (cleanFiles pattern keep options now v).2.entries dir = v.entries dir := by
  rcases hne with hempty | hne
  · have hnone : (cleanFiles pattern keep options now v).1 = [] := by
      rw [List.eq_nil_iff_forall_not_mem]
      intro path hpath
      rcases cleanFiles_subset hpath with ⟨-, f, hf, -⟩
      exact (mem_findMatchingFiles.mp hf).1 hempty
    rw [cleanFiles_volume, hnone, Volume.remove_nil]
  · rw [cleanFiles_volume, mem_remove_of_ne hne]

end RetentionCleaner

namespace RetainingBackend

open RetentionCleaner

/-! ## The run of the cleaner in one directory -/

/-- The file that is kept in the run that cleans the directory. -/
structure Cleans (m : TemplateValues) (b : RetainingBackend)
    (dir : Bool × List (List Char)) (keep : List Char) : Prop where
  directory : parentPath keep ≠ []
  cleaned : dir = pathComponents (parentPath keep)
  kept : keep = b.name ∨ b.CleansArchives m keep

theorem Cleans.unique {m : TemplateValues} {b : RetainingBackend}
    {dir : Bool × List (List Char)} {keep keep' : List Char}
    (h : b.Cleans m dir keep) (h' : b.Cleans m dir keep') : keep = keep' := by
  have hdir := h.cleaned.symm.trans h'.cleaned
  rcases h.kept with rfl | hprobe
  · rcases h'.kept with rfl | hprobe'
    · rfl
    · exact absurd hdir.symm hprobe'.elsewhere
  · rcases h'.kept with rfl | hprobe'
    · exact absurd hdir hprobe.elsewhere
    · exact Option.some.inj (hprobe.built.symm.trans hprobe'.built)

/-- Each directory is left as its run of the cleaner alone leaves it, or as it
was. -/
theorem applyRetention_entries {m : TemplateValues} {b : RetainingBackend}
    {pattern : Regex Char} (hpattern : b.buildCleanPattern m = some pattern)
    (hoptions : b.retention.isEmpty = false) (now later : Int) (v : Volume) :
    ∃ removed after,
      b.applyRetention m now later v = some (removed, after) ∧
      (∀ dir keep, b.Cleans m dir keep → ∃ time, ∀ e,
        e ∈ after.entries dir ↔ e ∈ v.entries dir ∧
          entryPath (parentPath keep) e.name ∉
            (cleanFiles pattern.accepts keep b.retention time v).1) ∧
      ∀ dir, (¬ ∃ keep, b.Cleans m dir keep) →
        after.entries dir = v.entries dir := by
  have hactive : ∀ dir, (¬ ∃ keep, b.Cleans m dir keep) →
      parentPath b.name = [] ∨ dir ≠ pathComponents (parentPath b.name) := by
    intro dir hnone
    by_contra hcleaned
    rw [not_or, not_not] at hcleaned
    exact hnone ⟨b.name, hcleaned.1, hcleaned.2, .inl rfl⟩
  let first := cleanFiles pattern.accepts b.name b.retention now v
  rcases applyRetention_cases hpattern hoptions now later v with
    ⟨probe, hprobe, hresult⟩ | ⟨hnone, hresult⟩
  · refine ⟨_, (cleanFiles pattern.accepts probe b.retention later first.2).2,
      hresult, fun dir keep hcleans => ?_, fun dir hdir => ?_⟩
    · rcases hcleans.kept with rfl | hkeep
      · refine ⟨now, fun e => ?_⟩
        have hother : dir ≠ pathComponents (parentPath probe) :=
          fun hsame => hprobe.elsewhere (hsame.symm.trans hcleans.cleaned)
        rw [cleanFiles_entries_of_ne (.inr hother), hcleans.cleaned,
          mem_cleanFiles_entries]
      · have hsame : keep = probe :=
          Option.some.inj (hkeep.built.symm.trans hprobe.built)
        subst keep
        refine ⟨later, fun e => ?_⟩
        rw [hcleans.cleaned, mem_cleanFiles_entries,
          cleanFiles_entries_of_ne (.inr hprobe.elsewhere)]
        rw [cleanFiles_paths_congr (hprobe.findMatchingFiles_eq
          pattern.accepts b.retention now v)]
    · have hprobeDir : dir ≠ pathComponents (parentPath probe) :=
        fun hsame => hdir ⟨probe, hprobe.directory, hsame, .inr hprobe⟩
      rw [cleanFiles_entries_of_ne (.inr hprobeDir),
        cleanFiles_entries_of_ne (hactive dir hdir)]
  · refine ⟨first.1, first.2, hresult, fun dir keep hcleans => ?_,
      fun dir hdir => ?_⟩
    · rcases hcleans.kept with rfl | hkeep
      · refine ⟨now, fun e => ?_⟩
        rw [hcleans.cleaned, mem_cleanFiles_entries]
      · exact absurd ⟨keep, hkeep⟩ hnone
    · rw [cleanFiles_entries_of_ne (hactive dir hdir)]

/-! ## Archives and the active file -/

/-- The file's path as an iterator over its directory yields it. -/
def IsEntry (path : List Char) (e : Entry) : Prop :=
  path = if parentPath path = [] then e.name
    else entryPath (parentPath path) e.name

instance (path : List Char) (e : Entry) : Decidable (IsEntry path e) :=
  inferInstanceAs (Decidable (path = _))

/-- The entry is a file to which `TakeName` gave a name that `BuildName` made,
or the compressed file that replaced it. -/
def Completed (m : TemplateValues) (b : RetainingBackend)
    (dir : Bool × List (List Char)) (e : Entry) : Prop :=
  ∃ index archiveTime plain path, 0 < index ∧
    b.buildName m index archiveTime = some plain ∧
      (path = plain ∨
        (b.gzipCompression = true ∧ path = plain ++ ".gz".toList)) ∧
      IsEntry path e ∧ pathComponents (parentPath path) = dir

/-- The archives, oldest first, are in one directory, and nothing else there
but the active file can be taken for one. -/
structure Layout (m : TemplateValues) (b : RetainingBackend) (limit : Nat)
    (dir : Bool × List (List Char)) (archives : List Entry) (active : Entry)
    (v : Volume) : Prop where
  enabled : b.archiveTemplate ≠ []
  limited : b.retention = ⟨limit, 0, 0⟩
  positive : 0 < limit
  oldestFirst : NewestKept.Ascending Entry.modified archives
  present : ∀ a ∈ archives, a ∈ v.entries dir
  opened : active ∈ v.entries (pathComponents (parentPath b.name))
  named : IsEntry b.name active
  others : ∀ pattern keep, b.buildCleanPattern m = some pattern →
    b.Cleans m dir keep → ∀ e ∈ v.entries dir,
      e.deletable pattern.accepts keep = true → e ∈ archives

/-- The cleaning ends, of the archives the newest are left, and the active
file is. -/
def KeepsNewest (m : TemplateValues) (b : RetainingBackend) (limit : Nat)
    (dir : Bool × List (List Char)) (archives : List Entry) (active : Entry)
    (now later : Int) (v : Volume) : Prop :=
  ∃ removed after, b.applyRetention m now later v = some (removed, after) ∧
    (∀ a ∈ archives, a ∈ after.entries dir ↔
      NewestKept.newer Entry.modified archives a < limit) ∧
    active ∈ after.entries (pathComponents (parentPath b.name))

/-- In the run that cleans the directory every archive that is to go can be
deleted, and either the files that match are as many as the archives, or they
are more and no other archive can be deleted. -/
def CountsArchives (pattern : Regex Char) (keep : List Char) (limit : Nat)
    (archives : List Entry) (v : Volume) : Prop :=
  let excess := countMatching pattern.accepts keep v - limit
  (∀ a ∈ archives, limit ≤ NewestKept.newer Entry.modified archives a →
    a.deletable pattern.accepts keep = true) ∧
  (excess = archives.length - limit ∨
    (archives.length - limit ≤ excess ∧
      ∀ a ∈ archives, a.deletable pattern.accepts keep = true →
        limit ≤ NewestKept.newer Entry.modified archives a))

/-- The active file is never deleted. -/
theorem active_kept {m : TemplateValues} {b : RetainingBackend}
    {active : Entry} {v : Volume}
    (hopened : active ∈ v.entries (pathComponents (parentPath b.name)))
    (hnamed : IsEntry b.name active)
    {pattern : Regex Char} (hpattern : b.buildCleanPattern m = some pattern)
    (hoptions : b.retention.isEmpty = false) {now later : Int}
    {removed : List (List Char)} {after : Volume}
    (hrun : b.applyRetention m now later v = some (removed, after)) :
    active ∈ after.entries (pathComponents (parentPath b.name)) := by
  rcases applyRetention_entries hpattern hoptions now later v with
    ⟨removed', after', hrun', hcleaned, hother⟩
  rw [hrun, Option.some.injEq, Prod.mk.injEq] at hrun'
  rcases hrun' with ⟨-, rfl⟩
  by_cases hempty : parentPath b.name = []
  · rw [hother]
    · exact hopened
    · rintro ⟨keep, hcleans⟩
      rcases hcleans.kept with rfl | hprobe
      · exact hcleans.directory hempty
      · exact hprobe.elsewhere hcleans.cleaned.symm
  · rcases hcleaned _ b.name ⟨hempty, rfl, .inl rfl⟩ with ⟨time, hentries⟩
    rw [hentries]
    refine ⟨hopened, fun hmem => ?_⟩
    rw [IsEntry, if_neg hempty] at hnamed
    rcases cleanFiles_subset hmem with ⟨-, f, -, hname, hdeletable⟩
    rw [← hnamed] at hname
    simp [FileInfo.deletable, hname] at hdeletable

theorem Layout.options {m : TemplateValues} {b : RetainingBackend}
    {limit : Nat} {dir : Bool × List (List Char)} {archives : List Entry}
    {active : Entry} {v : Volume}
    (h : b.Layout m limit dir archives active v) :
    b.retention.isEmpty = false := by
  rw [h.limited]
  simp [RetentionOptions.isEmpty, h.positive.ne']

/-- In terms of the archives that are removed. -/
theorem left_iff_leavesNewest {archives removed : List Entry} {limit : Nat}
    {left : Entry → Prop} (hleft : ∀ a ∈ archives, left a ↔ a ∉ removed) :
    (∀ a ∈ archives, left a ↔
      NewestKept.newer Entry.modified archives a < limit) ↔
      NewestKept.LeavesNewest Entry.modified limit archives removed := by
  refine forall_congr' fun a => forall_congr' fun ha => ?_
  rw [hleft a ha, ← not_le, not_iff_not]

theorem archives_left_iff {m : TemplateValues} {b : RetainingBackend}
    {limit : Nat} {dir : Bool × List (List Char)} {archives : List Entry}
    {active : Entry} {v : Volume}
    (h : b.Layout m limit dir archives active v)
    {pattern : Regex Char} (hpattern : b.buildCleanPattern m = some pattern)
    {now later : Int} {removed : List (List Char)} {after : Volume}
    (hrun : b.applyRetention m now later v = some (removed, after)) :
    (∀ a ∈ archives, a ∈ after.entries dir ↔
      NewestKept.newer Entry.modified archives a < limit) ↔
      (∀ keep, b.Cleans m dir keep →
        CountsArchives pattern keep limit archives v) ∧
      ((¬ ∃ keep, b.Cleans m dir keep) → archives.length ≤ limit) := by
  rcases applyRetention_entries hpattern h.options now later v with
    ⟨removed', after', hrun', hcleaned, hother⟩
  rw [hrun, Option.some.injEq, Prod.mk.injEq] at hrun'
  rcases hrun' with ⟨-, rfl⟩
  by_cases hclean : ∃ keep, b.Cleans m dir keep
  · rcases hclean with ⟨keep, hkeep⟩
    rcases hcleaned dir keep hkeep with ⟨time, hentries⟩
    have hdir := hkeep.cleaned
    have hleft : ∀ a ∈ archives, a ∈ after.entries dir ↔
        a ∉ (archives.filter (Entry.deletable pattern.accepts keep)).take
          (countMatching pattern.accepts keep v - limit) := by
      intro a ha
      rw [hentries, h.limited, archive_mem_cleanFiles hkeep.directory
        h.oldestFirst (hdir ▸ h.present)
        (hdir ▸ h.others pattern keep hpattern hkeep) h.positive time ha]
      exact and_iff_right (h.present a ha)
    rw [left_iff_leavesNewest hleft,
      NewestKept.leavesNewest_iff h.oldestFirst]
    constructor
    · intro hcounts
      refine ⟨fun keep' hkeep' => ?_, fun hnone => absurd ⟨keep, hkeep⟩ hnone⟩
      rw [← hkeep.unique hkeep']
      exact hcounts
    · intro hcounts
      exact hcounts.1 keep hkeep
  · have hleft : ∀ a ∈ archives, a ∈ after.entries dir ↔
        a ∉ ([] : List Entry) := by
      intro a ha
      simp [hother dir hclean, h.present a ha]
    rw [left_iff_leavesNewest hleft,
      NewestKept.leavesNewest_nil_iff h.oldestFirst]
    constructor
    · intro hle
      exact ⟨fun keep hkeep => absurd ⟨keep, hkeep⟩ hclean, fun _ => hle⟩
    · intro hboth
      exact hboth.2 hclean

theorem keepsNewest_iff_counts {m : TemplateValues} {b : RetainingBackend}
    {limit : Nat} {dir : Bool × List (List Char)} {archives : List Entry}
    {active : Entry} {v : Volume}
    (h : b.Layout m limit dir archives active v)
    {pattern : Regex Char} (hpattern : b.buildCleanPattern m = some pattern)
    (now later : Int) :
    b.KeepsNewest m limit dir archives active now later v ↔
      (∀ keep, b.Cleans m dir keep →
        CountsArchives pattern keep limit archives v) ∧
      ((¬ ∃ keep, b.Cleans m dir keep) → archives.length ≤ limit) := by
  rcases applyRetention_entries hpattern h.options now later v with
    ⟨removed, after, hrun, -, -⟩
  have hactive := active_kept h.opened h.named hpattern h.options hrun
  rw [← archives_left_iff h hpattern hrun]
  constructor
  · rintro ⟨removed', after', hrun', harchives, -⟩
    rw [hrun, Option.some.injEq, Prod.mk.injEq] at hrun'
    rcases hrun' with ⟨-, rfl⟩
    exact harchives
  · intro harchives
    exact ⟨removed, after, hrun, harchives, hactive⟩

/-! ## Every layout -/

/-- The newest archives are what is left, if and only if the pattern can be
built and the run that cleans the directory of the archives counts them, or,
if no run does, their number is within the limit. -/
theorem keeps_newest_iff {m : TemplateValues} {b : RetainingBackend}
    {limit : Nat} {dir : Bool × List (List Char)} {archives : List Entry}
    {active : Entry} {v : Volume}
    (h : b.Layout m limit dir archives active v) (now later : Int) :
    b.KeepsNewest m limit dir archives active now later v ↔
      ∃ pattern, b.buildCleanPattern m = some pattern ∧
        (∀ keep, b.Cleans m dir keep →
          CountsArchives pattern keep limit archives v) ∧
        ((¬ ∃ keep, b.Cleans m dir keep) → archives.length ≤ limit) := by
  cases hpattern : b.buildCleanPattern m with
  | none =>
      constructor
      · rintro ⟨removed, after, hrun, -⟩
        rw [applyRetention_eq_none hpattern h.options] at hrun
        simp at hrun
      · rintro ⟨pattern, hnone, -⟩
        simp at hnone
  | some pattern =>
      rw [keepsNewest_iff_counts h hpattern]
      constructor
      · intro hcounts
        exact ⟨pattern, rfl, hcounts⟩
      · rintro ⟨pattern', hsame, hcounts⟩
        rw [Option.some.injEq] at hsame
        subst pattern'
        exact hcounts

private def numberedBackend : RetainingBackend where
  nameTemplate := "app.log".toList
  archiveTemplate := "app-{index}.log".toList
  homeDirectory := "/log/".toList
  gzipCompression := false
  name := "/log/app.log".toList
  archiveTime := 0
  retention := ⟨2, 0, 0⟩

private def writtenAt (name : String) (time : Int) : Entry :=
  ⟨name.toList, true, some time, some 10, true⟩

private def threeArchives : List Entry :=
  [writtenAt "app-1.log" 1, writtenAt "app-2.log" 2, writtenAt "app-3.log" 3]

private def activeEntry : Entry := writtenAt "app.log" 4

private def inLog : Bool × List (List Char) := (true, ["log".toList])

private def archivesBesideActive : Volume where
  entries dir := if dir = inLog then threeArchives ++ [activeEntry] else []
  distinct dir := by
    split
    · decide
    · exact List.nodup_nil

private theorem archivesBesideActive_entries :
    archivesBesideActive.entries inLog = threeArchives ++ [activeEntry] := by
  decide

private theorem threeArchives_layout :
    numberedBackend.Layout processValues 2 inLog threeArchives activeEntry
      archivesBesideActive where
  enabled := by decide
  limited := rfl
  positive := by decide
  oldestFirst := by
    unfold NewestKept.Ascending
    decide
  present a ha := by
    rw [archivesBesideActive_entries]
    exact List.mem_append_left _ ha
  opened := by decide
  named := by decide
  others := by
    intro pattern keep hpattern hkeep e he hdeletable
    rcases hkeep.kept with rfl | hprobe
    · rw [archivesBesideActive_entries, List.mem_append,
        List.mem_singleton] at he
      rcases he with he | rfl
      · exact he
      · exact absurd (Entry.deletable_iff.mp hdeletable).2 (by decide)
    · exact absurd hkeep.cleaned.symm hprobe.elsewhere

private theorem threeArchives_completed :
    ∀ a ∈ threeArchives, numberedBackend.Completed processValues inLog a := by
  intro a ha
  rw [threeArchives, List.mem_cons, List.mem_pair] at ha
  rcases ha with rfl | rfl | rfl
  · exact ⟨1, 0, "/log/app-1.log".toList, _, by decide, by decide +kernel,
      .inl rfl, by decide, by decide⟩
  · exact ⟨2, 0, "/log/app-2.log".toList, _, by decide, by decide +kernel,
      .inl rfl, by decide, by decide⟩
  · exact ⟨3, 0, "/log/app-3.log".toList, _, by decide, by decide +kernel,
      .inl rfl, by decide, by decide⟩

theorem threeArchives_keepsNewest_iff :
    numberedBackend.KeepsNewest processValues 2 inLog threeArchives activeEntry
        5 5 archivesBesideActive ↔
      ∃ pattern, numberedBackend.buildCleanPattern processValues =
          some pattern ∧
        (∀ keep, numberedBackend.Cleans processValues inLog keep →
          CountsArchives pattern keep 2 threeArchives archivesBesideActive) ∧
        ((¬ ∃ keep, numberedBackend.Cleans processValues inLog keep) →
          threeArchives.length ≤ 2) :=
  keeps_newest_iff threeArchives_layout 5 5

/-- The active file takes the place of an archive. -/
theorem not_keeps_newest :
    ¬ ∀ (m : TemplateValues) (b : RetainingBackend) (limit : Nat)
      (dir : Bool × List (List Char)) (archives : List Entry)
      (active : Entry) (v : Volume) (now later : Int),
      b.Opened m → (∀ a ∈ archives, b.Completed m dir a) →
      b.Layout m limit dir archives active v →
        b.KeepsNewest m limit dir archives active now later v := by
  intro h
  rcases h processValues numberedBackend 2 inLog threeArchives activeEntry
      archivesBesideActive 5 5 ⟨0, by decide +kernel⟩ threeArchives_completed
      threeArchives_layout with ⟨removed, after, hrun, harchives, -⟩
  have hleft : (applyRetention processValues numberedBackend 5 5
      archivesBesideActive).map (fun result => result.2.entries inLog) =
        some [writtenAt "app-3.log" 3, activeEntry] := by decide +kernel
  rw [hrun, Option.map_some, Option.some.injEq] at hleft
  have hmissing := (harchives (writtenAt "app-2.log" 2) (by decide)).mpr
    (by decide)
  rw [hleft] at hmissing
  exact absurd hmissing (by decide)

end RetainingBackend
end Logme
