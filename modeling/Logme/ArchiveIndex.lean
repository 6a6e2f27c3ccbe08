import Logme.FileRetention
import Logme.Library.SubmatchPattern

/-!
# The index of an archive policy

`SetTime`, the recovery of the last index from a directory and the search of
`TakeName`, with the names that the template really gives.  The file system
answers `exists` with yes, no or an error, and a directory iterator may fail
at its beginning or at any entry.
-/

namespace Logme

open RetentionCleaner SubmatchPattern

/-! ## The file system -/

/-- The answer of `exists`. -/
inductive Existence where
  | present
  | absent
  | failed
  deriving DecidableEq

/-- The entries that a directory iterator yields before it ends or fails. -/
structure Listing where
  entries : List Entry
  complete : Bool
  named : ∀ e ∈ entries, '/' ∉ e.name

structure Disk where
  status : List Char → Existence
  list : List Char → Option Listing

def gzSuffix : List Char := ".gz".toList

namespace Disk

def nameExists (disk : Disk) (archive : List Char) : Bool :=
  match disk.status archive with
  | .present => true
  | .failed => true
  | .absent =>
      match disk.status (archive ++ gzSuffix) with
      | .present => true
      | .failed => true
      | .absent => false

/-- Neither the plain file nor its compressed form exists. -/
def Fresh (disk : Disk) (archive : List Char) : Prop :=
  disk.status archive = .absent ∧ disk.status (archive ++ gzSuffix) = .absent

theorem nameExists_eq_false {disk : Disk} {archive : List Char} :
    disk.nameExists archive = false ↔ disk.Fresh archive := by
  unfold nameExists Fresh
  cases disk.status archive with
  | present => simp
  | failed => simp
  | absent => cases disk.status (archive ++ gzSuffix) <;> simp

/-- The iterator of an existing directory. -/
def listing (disk : Disk) (dir : List Char) : Option Listing :=
  if dir = [] then none
  else if disk.status dir ≠ .present then none
  else disk.list dir

end Disk

/-! ## The archive policy -/

/-- A file backend whose archive policy has used an index, a `uint64_t`. -/
structure IndexedBackend extends RetainingBackend where
  archiveIndex : Nat

def indexMarker : List Char := '\x01' :: ("INDEX".toList ++ ['\x02'])

def indexGroup : List Char := "([0-9]+)".toList

def optionalGzip : List Char := "(\\.gz)?".toList

namespace RetainingBackend

/-- The template with everything but the index. -/
def archiveText (m : TemplateValues) (b : RetainingBackend)
    (archiveTime : Int) : Option (List Char) :=
  (processTemplate m templateConst none b.archiveTemplate).map fun archive =>
    applyArchiveTime m.zone archive archiveTime

/-- The text in `BuildIndexPattern`. -/
def indexPatternText (m : TemplateValues) (b : RetainingBackend)
    (archiveTime : Int) : Option (List Char) :=
  (b.archiveText m archiveTime).map fun re =>
    let re := b.fullPath (replaceAll re TINDEX indexMarker)
    let re := replaceDatetimePlaceholders re
    replaceAll re indexMarker indexGroup ++ optionalGzip

def buildIndexPattern (m : TemplateValues) (b : RetainingBackend)
    (archiveTime : Int) : Option (List Term) :=
  (b.indexPatternText m archiveTime).bind compile

theorem buildName_eq_map (m : TemplateValues) (b : RetainingBackend)
    (index : Nat) (archiveTime : Int) :
    b.buildName m index archiveTime =
      (b.archiveText m archiveTime).map fun archive =>
        b.fullPath (replaceAll archive TINDEX (decimal index)) := by
  rw [buildName, archiveText, Option.map_map]
  rfl

theorem archiveText_isSome_iff (m : TemplateValues) (b : RetainingBackend)
    (archiveTime : Int) :
    (b.archiveText m archiveTime).isSome =
      (processTemplate m templateConst none b.archiveTemplate).isSome := by
  rw [archiveText, Option.isSome_map]

end RetainingBackend

def tryParseUInt64 (text : List Char) : Option Nat :=
  if text ≠ [] ∧ text.all Char.isDigit = true ∧
      Nat.ofDigitChars 10 text 0 < 2 ^ 64 then
    some (Nat.ofDigitChars 10 text 0)
  else none

/-- The index in the path of an entry. -/
def entryIndex (pattern : List Term) (dir : List Char) (e : Entry) : Option Nat :=
  if e.isRegularFile then
    match regexMatch pattern (entryPath dir e.name) with
    | some (index :: _) => tryParseUInt64 index
    | _ => none
  else none

/-- The loop of `FindLastIndex`. -/
def lastIndex (pattern : List Term) (dir : List Char) :
    Nat → List Entry → Nat
  | maxIndex, [] => maxIndex
  | maxIndex, e :: rest =>
      match entryIndex pattern dir e with
      | none => lastIndex pattern dir maxIndex rest
      | some index =>
          lastIndex pattern dir (if index > maxIndex then index else maxIndex) rest

namespace IndexedBackend

/-- `none` when an exception ends the call. -/
def findLastIndex (m : TemplateValues) (b : IndexedBackend) (disk : Disk)
    (archiveTime : Int) : Option Nat :=
  if b.archiveTemplate = [] then some 0
  else
    match b.buildName m 0 archiveTime with
    | none => none
    | some archiveSample =>
        let dir := parentPath archiveSample
        match disk.listing dir with
        | none => some 0
        | some listing =>
            match b.buildIndexPattern m archiveTime with
            | none => none
            | some pattern =>
                if listing.complete then
                  some (lastIndex pattern dir 0 listing.entries)
                else none

def oldProbe (m : TemplateValues) (b : IndexedBackend) : Option (List Char) :=
  if b.archiveTime ≠ 0 then b.buildName m 0 b.archiveTime else some []

def setTime (m : TemplateValues) (b : IndexedBackend) (disk : Disk)
    (now archiveTime : Int) : Option IndexedBackend :=
  let archiveTime := if archiveTime = 0 then now else archiveTime
  if b.archiveTemplate = [] then
    some { b with archiveTime := archiveTime, archiveIndex := 0 }
  else
    match b.oldProbe m, b.buildName m 0 archiveTime with
    | some oldProbe, some newProbe =>
        if oldProbe ≠ newProbe then
          (b.findLastIndex m disk archiveTime).map fun index =>
            { b with archiveTime := archiveTime, archiveIndex := index }
        else some { b with archiveTime := archiveTime }
    | _, _ => none

/-- The loop of `TakeName`; `none` while it has not ended, and when an
exception ends it. -/
def firstFree (m : TemplateValues) (b : IndexedBackend) (disk : Disk) :
    Nat → Nat → Option (Nat × List Char)
  | 0, _ => none
  | fuel + 1, i =>
      match b.buildName m i b.archiveTime with
      | none => none
      | some archive =>
          if disk.nameExists archive then b.firstFree m disk fuel ((i + 1) % 2 ^ 64)
          else some (i, archive)

def takeName (m : TemplateValues) (b : IndexedBackend) (disk : Disk)
    (now archiveTime : Int) (fuel : Nat) : Option (List Char × IndexedBackend) :=
  match b.setTime m disk now archiveTime with
  | none => none
  | some b =>
      (b.firstFree m disk fuel ((b.archiveIndex + 1) % 2 ^ 64)).map fun taken =>
        (taken.2, { b with archiveIndex := taken.1 })

/-- The time that `SetTime` stores. -/
def timeOf (now archiveTime : Int) : Int :=
  if archiveTime = 0 then now else archiveTime

/-- Another name than before: `SetTime` recovers the index. -/
def Switches (m : TemplateValues) (b : IndexedBackend) (archiveTime : Int) : Prop :=
  b.archiveTemplate ≠ [] ∧ b.oldProbe m ≠ b.buildName m 0 archiveTime

/-! ## What `SetTime` leaves -/

/-- The template is the same, the time is the one given, and the index is
recovered or kept. -/
theorem setTime_eq_some {m : TemplateValues} {b q : IndexedBackend}
    {disk : Disk} {now archiveTime : Int}
    (hset : b.setTime m disk now archiveTime = some q) :
    q = { b with archiveTime := timeOf now archiveTime, archiveIndex := q.archiveIndex } := by
  unfold setTime at hset
  dsimp only at hset
  split at hset
  next =>
    rw [Option.some.injEq] at hset
    rw [← hset]
    rfl
  next =>
    split at hset
    next =>
      split at hset
      next =>
        rw [Option.map_eq_some_iff] at hset
        rcases hset with ⟨index, _, rfl⟩
        rfl
      next =>
        rw [Option.some.injEq] at hset
        rw [← hset]
        rfl
    next => simp at hset

section SetTime

variable {m : TemplateValues} {b q : IndexedBackend} {disk : Disk} {now archiveTime : Int}

theorem buildName_after (hset : b.setTime m disk now archiveTime = some q) (i : Nat) :
    q.buildName m i q.archiveTime = b.buildName m i (timeOf now archiveTime) := by
  rw [setTime_eq_some hset]
  rfl

theorem takeName_eq (hset : b.setTime m disk now archiveTime = some q) (fuel : Nat) :
    b.takeName m disk now archiveTime fuel =
      (q.firstFree m disk fuel ((q.archiveIndex + 1) % 2 ^ 64)).map fun taken =>
        (taken.2, { q with archiveIndex := taken.1 }) := by
  rw [takeName, hset]

end SetTime

end IndexedBackend
end Logme
