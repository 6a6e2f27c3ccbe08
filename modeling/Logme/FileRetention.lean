import Logme.RetentionCleaner
import Logme.RotationRuns
import Logme.TemplatePattern

/-!
# Retention of a file backend

`ApplyRetention` makes one pattern of the templates of the active file and of
the archives, and cleans the directory of the active file and then, if it is
another one, the directory of the archives.  What it deletes is compared with
the names that `CreateLog` and `BuildName` give.
-/

namespace Logme

open RetentionCleaner EcmaScriptPattern

/-- What retention reads of a file backend and its archive policy; an empty
archive template means that there are no archives. -/
structure RetainingBackend where
  nameTemplate : List Char
  archiveTemplate : List Char
  homeDirectory : List Char
  gzipCompression : Bool
  name : List Char
  archiveTime : Int
  retention : RetentionOptions

namespace RetainingBackend

def fullPath (b : RetainingBackend) (path : List Char) : List Char :=
  if isAbsolutePath path then path else b.homeDirectory ++ path

/-- The name in `CreateLog`. -/
def createLogName (m : TemplateValues) (b : RetainingBackend) :
    Option (List Char) :=
  (processTemplate m templateAll none b.nameTemplate).map b.fullPath

def formatArchiveTime (zone : TimeZone) (value : Int)
    (format : Tm → List Char) : List Char :=
  match zone.localtime value with
  | none => []
  | some tm => format tm

def applyArchiveTime (zone : TimeZone) (text : List Char)
    (archiveTime : Int) : List Char :=
  let result := replaceAll text TDATETIME
    (formatArchiveTime zone archiveTime formatDatetime)
  replaceAll result TDATE (formatArchiveTime zone archiveTime formatDate)

def buildName (m : TemplateValues) (b : RetainingBackend) (index : Nat)
    (archiveTime : Int) : Option (List Char) :=
  (processTemplate m templateConst none b.archiveTemplate).map fun archive =>
    let archive := applyArchiveTime m.zone archive archiveTime
    let archive := replaceAll archive TINDEX (decimal index)
    b.fullPath archive

/-- `buildPattern` in the backend's `BuildCleanPattern`. -/
def buildPattern (m : TemplateValues) (b : RetainingBackend)
    (source : List Char) : Option (List Char) :=
  (processTemplate m templateConst none source).map
    (cleanPatternText b.homeDirectory)

/-- The archive policy's `BuildCleanPattern`. -/
def archiveCleanPattern (m : TemplateValues) (b : RetainingBackend) :
    Option (List Char) :=
  b.buildPattern m b.archiveTemplate

def inParentheses (re : List Char) : List Char := '(' :: (re ++ [')'])

def gzipSuffix : List Char := "\\.gz".toList

def cleanPatternSource (m : TemplateValues) (b : RetainingBackend) :
    Option (List Char) :=
  match b.buildPattern m b.nameTemplate with
  | none => none
  | some re =>
      let re :=
        if b.archiveTemplate = [] then some re
        else (b.archiveCleanPattern m).map fun archive =>
          inParentheses re ++ '|' :: inParentheses archive
      re.map fun re =>
        if b.gzipCompression then
          inParentheses re ++ '(' :: (gzipSuffix ++ [')', '?'])
        else re

/-- `none` when the construction of the pattern fails. -/
def buildCleanPattern (m : TemplateValues) (b : RetainingBackend) :
    Option (Regex Char) :=
  (b.cleanPatternSource m).bind compile

/-- The paths that are deleted and the volume; `none` when an exception ends
the call.  The age rule reads the clock in each run of the cleaner. -/
def applyRetention (m : TemplateValues) (b : RetainingBackend)
    (now later : Int) (v : Volume) : Option (List (List Char) × Volume) :=
  if b.retention.isEmpty then some ([], v)
  else
    match b.buildCleanPattern m with
    | none => none
    | some pattern =>
        let active := cleanFiles pattern.accepts b.name b.retention now v
        if b.archiveTemplate = [] then some active
        else
          match b.buildName m 0 b.archiveTime with
          | none => none
          | some archiveProbe =>
              let activeDir := parentPath b.name
              let archiveDir := parentPath archiveProbe
              if archiveDir = [] ∨
                  pathComponents archiveDir = pathComponents activeDir then
                some active
              else
                let archives := cleanFiles pattern.accepts archiveProbe
                  b.retention later active.2
                some (active.1 ++ archives.1, archives.2)

/-! ## The two runs of the cleaner -/

/-- The probe of the second run. -/
structure CleansArchives (m : TemplateValues) (b : RetainingBackend)
    (probe : List Char) : Prop where
  enabled : b.archiveTemplate ≠ []
  built : b.buildName m 0 b.archiveTime = some probe
  directory : parentPath probe ≠ []
  elsewhere : pathComponents (parentPath probe) ≠
    pathComponents (parentPath b.name)

theorem CleansArchives.probe_ne_nil {m : TemplateValues}
    {b : RetainingBackend} {probe : List Char}
    (h : b.CleansArchives m probe) : probe ≠ [] := by
  rintro rfl
  exact h.directory rfl

/-- The archive name can be built whenever the pattern can. -/
theorem buildName_isSome {m : TemplateValues} {b : RetainingBackend}
    {pattern : Regex Char} (hpattern : b.buildCleanPattern m = some pattern)
    (henabled : b.archiveTemplate ≠ []) (index : Nat) (archiveTime : Int) :
    ∃ name, b.buildName m index archiveTime = some name := by
  unfold buildName
  cases harchive : processTemplate m templateConst none b.archiveTemplate with
  | some archive => exact ⟨_, rfl⟩
  | none =>
      simp only [buildCleanPattern, cleanPatternSource, archiveCleanPattern,
        buildPattern, harchive, if_neg henabled, Option.map_none] at hpattern
      split at hpattern <;> simp at hpattern

/-- What the two runs delete. -/
theorem applyRetention_cases {m : TemplateValues} {b : RetainingBackend}
    {pattern : Regex Char} (hpattern : b.buildCleanPattern m = some pattern)
    (hoptions : b.retention.isEmpty = false) (now later : Int) (v : Volume) :
    let active := cleanFiles pattern.accepts b.name b.retention now v
    (∃ probe, b.CleansArchives m probe ∧
      let archives :=
        cleanFiles pattern.accepts probe b.retention later active.2
      b.applyRetention m now later v =
        some (active.1 ++ archives.1, archives.2)) ∨
    (¬ ∃ probe, b.CleansArchives m probe) ∧
      b.applyRetention m now later v = some active := by
  intro active
  unfold applyRetention
  rw [if_neg (by simp [hoptions]), hpattern]
  dsimp only
  split
  next hnone =>
    exact .inr ⟨fun ⟨_, hprobe⟩ => hprobe.enabled hnone, rfl⟩
  next henabled =>
    rcases buildName_isSome hpattern henabled 0 b.archiveTime with
      ⟨probe, hprobe⟩
    rw [hprobe]
    dsimp only
    split
    next hsame =>
      refine .inr ⟨?_, rfl⟩
      rintro ⟨probe', hcleans⟩
      have hbuilt := hcleans.built
      rw [hprobe, Option.some.injEq] at hbuilt
      subst probe'
      exact hsame.elim hcleans.directory hcleans.elsewhere
    next hother =>
      rw [not_or] at hother
      exact .inl ⟨probe, ⟨henabled, hprobe, hother.1, hother.2⟩, rfl⟩

/-! ## A backend's own files -/

/-- The paths that the library gives to the files of the backend, whenever it
does. -/
def Expands (m : TemplateValues) (b : RetainingBackend) (path : List Char) :
    Prop :=
  (∃ now, b.createLogName { m with now := now } = some path) ∨
    (b.archiveTemplate ≠ [] ∧ ∃ index archiveTime, index < 2 ^ 64 ∧
      b.buildName m index archiveTime = some path)

/-- With compression the compressed file replaces the completed one. -/
def Owns (m : TemplateValues) (b : RetainingBackend) (path : List Char) :
    Prop :=
  b.Expands m path ∨
    (b.gzipCompression = true ∧
      ∃ plain, b.Expands m plain ∧ path = plain ++ ".gz".toList)

/-- The active file has the name that `CreateLog` gave it at some time. -/
def Opened (m : TemplateValues) (b : RetainingBackend) : Prop :=
  ∃ now, b.createLogName { m with now := now } = some b.name

/-- Whatever the limits are and whenever the cleaning runs, it ends, deletes
only files of the backend and spares the active files of the others that are
not its own by name. -/
def DeletesOnlyOwn (m : TemplateValues) (b : RetainingBackend)
    (others : List RetainingBackend) (v : Volume) : Prop :=
  ∀ options now later, ∃ removed after,
    applyRetention m { b with retention := options } now later v =
        some (removed, after) ∧
      (∀ path ∈ removed, b.Owns m path) ∧
      ∀ other ∈ others, ¬ b.Owns m other.name → other.name ∉ removed

/-- The files that one run of the cleaner can delete belong to the
backend. -/
def OwnsDeletable (m : TemplateValues) (b : RetainingBackend)
    (pattern : Regex Char) (keep : List Char) (v : Volume) : Prop :=
  ∀ f ∈ findMatchingFiles pattern.accepts (parentPath keep) v,
    f.deletable keep = true → b.Owns m f.pathName

theorem cleanFiles_owns {m : TemplateValues} {b : RetainingBackend}
    {pattern : Regex Char} {keep : List Char} {v : Volume}
    (howns : keep ≠ [] → b.OwnsDeletable m pattern keep v)
    (options : RetentionOptions) (now : Int) :
    ∀ path ∈ (cleanFiles pattern.accepts keep options now v).1,
      b.Owns m path := by
  intro path hpath
  rcases cleanFiles_subset hpath with ⟨hkeep, f, hf, rfl, hdeletable⟩
  exact howns hkeep f hf hdeletable

/-- The first run leaves the directory of the archives as it is. -/
theorem CleansArchives.findMatchingFiles_eq {m : TemplateValues}
    {b : RetainingBackend} {probe : List Char}
    (hcleans : b.CleansArchives m probe) (pattern : List Char → Bool)
    (options : RetentionOptions) (now : Int) (v : Volume) :
    findMatchingFiles pattern (parentPath probe)
        (cleanFiles pattern b.name options now v).2 =
      findMatchingFiles pattern (parentPath probe) v := by
  unfold findMatchingFiles
  rw [cleanFiles_volume, mem_remove_of_ne hcleans.elsewhere]

theorem applyRetention_eq_none {m : TemplateValues} {b : RetainingBackend}
    (hpattern : b.buildCleanPattern m = none)
    (hoptions : b.retention.isEmpty = false) (now later : Int) (v : Volume) :
    b.applyRetention m now later v = none := by
  unfold applyRetention
  rw [if_neg (by simp [hoptions]), hpattern]

theorem CleansArchives.withRetention {m : TemplateValues}
    {b : RetainingBackend} {probe : List Char}
    {options options' : RetentionOptions}
    (h : CleansArchives m { b with retention := options } probe) :
    CleansArchives m { b with retention := options' } probe :=
  ⟨h.enabled, h.built, h.directory, h.elsewhere⟩

section Deletes

variable {m : TemplateValues} {b : RetainingBackend} {pattern : Regex Char}
  (hpattern : b.buildCleanPattern m = some pattern)
include hpattern

/-- Under some limit and at some time the first run deletes a file that it
can delete. -/
theorem active_deleted (hname : b.name ≠ []) {v : Volume}
    {f : RetentionCleaner.FileInfo}
    (hf : f ∈ findMatchingFiles pattern.accepts (parentPath b.name) v)
    (hdeletable : f.deletable b.name = true) :
    ∃ now later, ∀ removed after,
      applyRetention m { b with retention := oneMillisecond } now later v =
        some (removed, after) → f.pathName ∈ removed := by
  refine ⟨f.lastWrite + 1000001, 0, fun removed after hrun => ?_⟩
  have hdeleted := mem_cleanFiles_oneMillisecond hname hf hdeletable
  rcases applyRetention_cases (b := { b with retention := oneMillisecond })
      hpattern rfl (f.lastWrite + 1000001) 0 v with
    ⟨probe, -, hresult⟩ | ⟨-, hresult⟩
  · rw [hresult] at hrun
    simp only [Option.some.injEq, Prod.mk.injEq] at hrun
    rw [← hrun.1]
    exact List.mem_append_left _ hdeleted
  · rw [hresult, Option.some.injEq] at hrun
    rw [hrun] at hdeleted
    exact hdeleted

theorem archive_deleted {probe : List Char}
    (hcleans : b.CleansArchives m probe) {v : Volume}
    {f : RetentionCleaner.FileInfo}
    (hf : f ∈ findMatchingFiles pattern.accepts (parentPath probe) v)
    (hdeletable : f.deletable probe = true) :
    ∃ now later, ∀ removed after,
      applyRetention m { b with retention := oneMillisecond } now later v =
        some (removed, after) → f.pathName ∈ removed := by
  refine ⟨0, f.lastWrite + 1000001, fun removed after hrun => ?_⟩
  rw [← hcleans.findMatchingFiles_eq pattern.accepts oneMillisecond 0 v] at hf
  have hdeleted := mem_cleanFiles_oneMillisecond hcleans.probe_ne_nil hf
    hdeletable
  rcases applyRetention_cases (b := { b with retention := oneMillisecond })
      hpattern rfl 0 (f.lastWrite + 1000001) v with
    ⟨probe', hcleans', hresult⟩ | ⟨hnone, -⟩
  · have hbuilt := hcleans'.built
    change b.buildName m 0 b.archiveTime = some probe' at hbuilt
    rw [hcleans.built, Option.some.injEq] at hbuilt
    subst probe'
    rw [hresult] at hrun
    simp only [Option.some.injEq, Prod.mk.injEq] at hrun
    rw [← hrun.1]
    exact List.mem_append_right _ hdeleted
  · exact absurd ⟨probe, hcleans.withRetention⟩ hnone

/-- If the files that can be deleted are the backend's own, every cleaning
ends and deletes only such files. -/
theorem applyRetention_owns {v : Volume}
    (hactive : b.name ≠ [] → b.OwnsDeletable m pattern b.name v)
    (harchives : ∀ probe, b.CleansArchives m probe →
      b.OwnsDeletable m pattern probe v)
    (options : RetentionOptions) (now later : Int) :
    ∃ removed after,
      applyRetention m { b with retention := options } now later v =
        some (removed, after) ∧ ∀ path ∈ removed, b.Owns m path := by
  by_cases hoptions : options.isEmpty = true
  · exact ⟨[], v, if_pos hoptions, by simp⟩
  · rcases applyRetention_cases (b := { b with retention := options })
        hpattern (by simpa using hoptions) now later v with
      ⟨probe, hcleans, hresult⟩ | ⟨-, hresult⟩
    · refine ⟨_, _, hresult, fun path hpath => ?_⟩
      rcases List.mem_append.mp hpath with hpath | hpath
      · exact cleanFiles_owns hactive options now path hpath
      · apply cleanFiles_owns _ options later path hpath
        intro _ f hf
        rw [hcleans.findMatchingFiles_eq] at hf
        exact harchives probe hcleans.withRetention f hf
    · exact ⟨_, _, hresult, cleanFiles_owns hactive options now⟩

end Deletes

/-- Only files of the backend are deleted under every limit, if and only if
the pattern can be built and, of the files in the directories that are
cleaned, all that it accepts and that can be deleted are files of the
backend. -/
theorem deletes_only_own_iff (m : TemplateValues) (b : RetainingBackend)
    (others : List RetainingBackend) (v : Volume) :
    b.DeletesOnlyOwn m others v ↔
      ∃ pattern, b.buildCleanPattern m = some pattern ∧
        (b.name ≠ [] → b.OwnsDeletable m pattern b.name v) ∧
        ∀ probe, b.CleansArchives m probe →
          b.OwnsDeletable m pattern probe v := by
  constructor
  · intro hown
    cases hpattern : b.buildCleanPattern m with
    | none =>
        rcases hown oneMillisecond 0 0 with ⟨removed, after, hrun, -⟩
        rw [applyRetention_eq_none
          (b := { b with retention := oneMillisecond }) hpattern rfl] at hrun
        simp at hrun
    | some pattern =>
        refine ⟨pattern, rfl, fun hname f hf hdeletable => ?_,
          fun probe hcleans f hf hdeletable => ?_⟩
        · rcases active_deleted hpattern hname hf hdeletable with
            ⟨now, later, hdeleted⟩
          rcases hown oneMillisecond now later with
            ⟨removed, after, hrun, howns, -⟩
          exact howns _ (hdeleted removed after hrun)
        · rcases archive_deleted hpattern hcleans hf hdeletable with
            ⟨now, later, hdeleted⟩
          rcases hown oneMillisecond now later with
            ⟨removed, after, hrun, howns, -⟩
          exact howns _ (hdeleted removed after hrun)
  · rintro ⟨pattern, hpattern, hactive, harchives⟩ options now later
    rcases applyRetention_owns hpattern hactive harchives options now later
      with ⟨removed, after, hrun, howns⟩
    exact ⟨removed, after, hrun, howns, fun other _ hother hmem =>
      hother (howns _ hmem)⟩

/-! ## Two backends in one directory -/

/-- A process that runs in January 1970. -/
def processValues : TemplateValues where
  pid := 1
  exeName := "app".toList
  executablePath := "/bin/".toList
  envGetVar := fun _ => []
  zone := RotationSession.january
  now := 86400
  stack := 1

private def plainBackend (template name : List Char) : RetainingBackend where
  nameTemplate := template
  archiveTemplate := []
  homeDirectory := "/log/".toList
  gzipCompression := false
  name := name
  archiveTime := 0
  retention := ⟨0, 0, 0⟩

private def everyDayLog : RetainingBackend :=
  plainBackend "app-{date}.log".toList "/log/app-1970-01-02.log".toList

private def errorLog : RetainingBackend :=
  plainBackend "app-errors.log".toList "/log/app-errors.log".toList

private def bothLogs : Volume where
  entries dir :=
    if dir = (true, ["log".toList]) then
      [⟨"app-1970-01-02.log".toList, true, some 2, some 10, true⟩,
        ⟨"app-errors.log".toList, true, some 1, some 10, true⟩]
    else []
  distinct dir := by
    split
    · decide
    · exact List.nodup_nil

private theorem everyDayLog_expands {path : List Char}
    (h : everyDayLog.Expands processValues path) : 3 ≤ path.count '-' := by
  rcases h with ⟨now, hname⟩ | ⟨harchive, -⟩
  · have hpath : everyDayLog.createLogName { processValues with now := now } =
        some ("/log/app-".toList ++
          (formatDate ⟨now % 60, now / 60 % 60, now / 3600 % 24,
            now / 86400 + 1, 0, (now / 86400 + 4) % 7, 70⟩ ++
              ".log".toList)) := rfl
    rw [hpath, Option.some.injEq] at hname
    subst path
    simp only [formatDate, List.count_append, List.count_cons]
    have hfirst : "/log/app-".toList.count '-' = 1 := by decide
    simp
    omega
  · exact absurd rfl harchive

/-- The wildcard of `{date}` accepts the name of another backend. -/
theorem not_deletes_only_own :
    ¬ ∀ (m : TemplateValues) (b : RetainingBackend)
      (others : List RetainingBackend) (v : Volume),
      (∀ c ∈ b :: others, c.Opened m) → b.DeletesOnlyOwn m others v := by
  intro h
  have hopened : ∀ c ∈ [everyDayLog, errorLog], c.Opened processValues := by
    intro c hc
    rw [List.mem_pair] at hc
    rcases hc with rfl | rfl
    · exact ⟨86400, by decide +kernel⟩
    · exact ⟨86400, by decide +kernel⟩
  have hdeleted : (applyRetention processValues
      { everyDayLog with retention := ⟨1, 0, 0⟩ } 0 0 bothLogs).map Prod.fst =
        some ["/log/app-errors.log".toList] := by decide +kernel
  rcases h processValues everyDayLog [errorLog] bothLogs hopened ⟨1, 0, 0⟩ 0 0
    with ⟨removed, after, hrun, howns, -⟩
  rw [hrun, Option.map_some, Option.some.injEq] at hdeleted
  dsimp only at hdeleted
  have hmem : "/log/app-errors.log".toList ∈ removed := by
    rw [hdeleted]
    exact List.mem_singleton_self _
  rcases howns _ hmem with hown | ⟨hgzip, -⟩
  · exact absurd (everyDayLog_expands hown) (by decide)
  · exact absurd hgzip (by decide)

end RetainingBackend
end Logme
