import Logme.StructuredOutput
import Logme.ControlState

/-!
# Compression of a file

`CompressFile` writes the compressed file under a temporary name, renames it and
deletes the source last.  Every step can fail, and a failed one ends the function
after what it has made is removed again.  The format of the compressed file is
that of the zlib library, which is a parameter.
-/

namespace Logme

/-- The files of the disk by their names. -/
abbrev Files := Name → Option Name

/-- The file that zlib has written when it is closed, from what was given to
`gzwrite`; decompressing it gives the whole again. -/
structure Gzip where
  compress : List Name → Name
  decompress : Name → Option Name
  decompress_compress : ∀ chunks, decompress (compress chunks) = some chunks.flatten

/-- The steps of a call: which of them succeed, and what is unknown about them.
`probes` is about the test whether the target exists, and `unfinished` is what is
in a temporary file that was not written or closed properly. -/
structure CompressSteps where
  inUse : Name → Bool
  isRegularFile : Bool
  probes : Bool
  clock : Int
  counter : Nat
  opensSource : Bool
  opensTarget : Bool
  reads : Nat → Bool
  writes : Nat → Bool
  closes : Bool
  renames : Bool
  removesTarget : Bool
  removesSource : Bool
  unfinished : Name

namespace CompressionManager

def gzipExtension : Name := ascii ".gz"

def makeTemporaryGzipName (now : Int) (counter : Nat) (finalName : Name) : Name :=
  finalName ++ ascii ".tmp." ++ signedBytes now ++ ascii "." ++ decimalBytes counter

def bufferSize : Nat := 64 * 1024

/-- The loop that copies `rest`, from its round `k` on: what was given to
`gzwrite`, and whether all went well.  A failed read makes the stream bad. -/
def copyChunks (steps : CompressSteps) (k : Nat) (rest : Name) (chunks : List Name) :
    List Name × Bool :=
  if steps.reads k = false then (chunks, false)
  else if bufferSize ≤ rest.length then
    if steps.writes k then
      copyChunks steps (k + 1) (rest.drop bufferSize) (chunks ++ [rest.take bufferSize])
    else (chunks, false)
  -- The stream is at its end after this read.
  else if rest = [] then (chunks, true)
  else if steps.writes k then (chunks ++ [rest], true)
  else (chunks, false)
termination_by rest.length
decreasing_by
  rw [List.length_drop]
  unfold bufferSize at *
  omega

/-- `std::filesystem::remove` -/
def removeFile (succeeds : Bool) (name : Name) (files : Files) : Files :=
  if succeeds then Function.update files name none else files

def renameFile (old new : Name) (files : Files) : Files :=
  Function.update (Function.update files old none) new (files old)

/-- The files after the call, and the report if there is one. -/
def compressFile (zlib : Gzip) (steps : CompressSteps) (files : Files) (file : Name) :
    Files × Option (Level × Name) :=
  let finalName := file ++ gzipExtension
  let tmpName := makeTemporaryGzipName steps.clock steps.counter finalName
  let warning (text : String) (name : Name) : Option (Level × Name) :=
    some (.warn, ascii text ++ cString name)
  let error (text : String) (name : Name) : Option (Level × Name) :=
    some (.error, ascii text ++ cString name)
  if gzipExtension.isSuffixOf file then (files, none)
  else if steps.inUse file then
    (files, warning "compression skipped because file is in use: " file)
  else if steps.isRegularFile = false then (files, none)
  else if (files finalName).isSome ∧ steps.probes then
    (files, warning "compression skipped because target already exists: " finalName)
  else
    match if steps.opensSource then files file else none with
    | none => (files, error "failed to open compression source: " file)
    | some content =>
        if steps.opensTarget = false then
          (files, error "failed to open compression target: " tmpName)
        else
          let copied := copyChunks steps 0 content []
          if copied.2 = false ∨ steps.closes = false then
            (removeFile steps.removesTarget tmpName
                (Function.update files tmpName (some steps.unfinished)),
              error "failed to compress file: " file)
          else
            let files := Function.update files tmpName (some (zlib.compress copied.1))
            if steps.renames = false then
              (removeFile steps.removesTarget tmpName files,
                error "failed to rename compressed file: " finalName)
            else
              (removeFile steps.removesSource file (renameFile tmpName finalName files),
                if steps.removesSource then none
                else error "failed to delete compressed source: " file)

/-! ## What is kept -/

/-- All of the source has been compressed when the loop went well. -/
theorem copyChunks_flatten (steps : CompressSteps) (k : Nat) (rest : Name)
    (chunks : List Name) (hok : (copyChunks steps k rest chunks).2 = true) :
    (copyChunks steps k rest chunks).1.flatten = chunks.flatten ++ rest := by
  fun_induction copyChunks steps k rest chunks with
  | case1 => cases hok
  | case2 k rest chunks _ _ _ ih =>
      rw [ih hok, List.flatten_append, List.append_assoc, List.flatten_singleton,
        List.take_append_drop]
  | case3 => cases hok
  | case4 => simp
  | case5 => simp
  | case6 => cases hok

variable {steps : CompressSteps} {files : Files} {name : Name}

theorem removeFile_of_ne {other : Name} (h : other ≠ name) (succeeds : Bool) :
    removeFile succeeds name files other = files other := by
  unfold removeFile
  split
  next => exact Function.update_of_ne h _ _
  next => rfl

theorem ne_append {s rest : Name} (h : rest ≠ []) : s ≠ s ++ rest := by
  intro heq
  have hlength := congrArg List.length heq
  rw [List.length_append] at hlength
  exact h (List.length_eq_zero_iff.mp (by omega))

theorem ne_finalName (file : Name) : file ≠ file ++ gzipExtension :=
  ne_append (by decide)

theorem exists_tmpSuffix (now : Int) (counter : Nat) (finalName : Name) :
    ∃ suffix, makeTemporaryGzipName now counter finalName = finalName ++ suffix ∧
      suffix ≠ [] := by
  refine ⟨ascii ".tmp." ++ (signedBytes now ++ (ascii "." ++ decimalBytes counter)), ?_, ?_⟩
  · simp [makeTemporaryGzipName]
  · simp [ascii]

theorem file_ne_tmpName (now : Int) (counter : Nat) (file : Name) :
    file ≠ makeTemporaryGzipName now counter (file ++ gzipExtension) := by
  obtain ⟨suffix, hname, -⟩ := exists_tmpSuffix now counter (file ++ gzipExtension)
  rw [hname, List.append_assoc]
  exact ne_append (by simp [gzipExtension, ascii])

/-- The source is there as it was, or its compressed form is complete. -/
def Kept (zlib : Gzip) (file content : Name) (files : Files) : Prop :=
  files file = some content ∨
    ∃ gz, files (file ++ gzipExtension) = some gz ∧ zlib.decompress gz = some content

/-- A target that was there is not touched. -/
theorem compressFile_target (zlib : Gzip) {file old : Name} (hprobe : steps.probes = true)
    (hold : files (file ++ gzipExtension) = some old) :
    (compressFile zlib steps files file).1 = files := by
  have htarget : (files (file ++ gzipExtension)).isSome ∧ steps.probes = true := by
    rw [hold]
    exact ⟨rfl, hprobe⟩
  unfold compressFile
  dsimp only
  rw [if_pos htarget]
  split
  next => rfl
  next =>
    split
    next => rfl
    next => split <;> rfl

theorem compressFile_kept (zlib : Gzip) {file content : Name}
    (hfile : files file = some content) :
    Kept zlib file content (compressFile zlib steps files file).1 := by
  have htmp := file_ne_tmpName steps.clock steps.counter file
  have hfinal := ne_finalName file
  unfold compressFile
  dsimp only
  split
  next => exact .inl hfile
  split
  next => exact .inl hfile
  split
  next => exact .inl hfile
  split
  next => exact .inl hfile
  split
  next => exact .inl hfile
  next opened hopened =>
    have hcontent : opened = content := by
      split at hopened
      next => exact Option.some.inj (hopened.symm.trans hfile)
      next => cases hopened
    rw [hcontent]
    split
    next => exact .inl hfile
    split
    next =>
      left
      dsimp only
      rw [removeFile_of_ne htmp, Function.update_of_ne htmp]
      exact hfile
    next hcopied =>
      rw [not_or, Bool.not_eq_false] at hcopied
      split
      next =>
        left
        dsimp only
        rw [removeFile_of_ne htmp, Function.update_of_ne htmp]
        exact hfile
      next =>
        right
        dsimp only
        refine ⟨zlib.compress (copyChunks steps 0 content []).1, ?_, ?_⟩
        · rw [removeFile_of_ne hfinal.symm, renameFile, Function.update_self,
            Function.update_self]
        · rw [zlib.decompress_compress, copyChunks_flatten steps 0 content [] hcopied.1]
          rfl

/-- Compression never loses the content of a file, and it replaces no file. -/
theorem compressFile_loses_nothing (zlib : Gzip) (steps : CompressSteps) (files : Files)
    (file content : Name) (hfile : files file = some content) (hprobe : steps.probes = true) :
    Kept zlib file content (compressFile zlib steps files file).1 ∧
      ∀ old, files (file ++ gzipExtension) = some old →
        (compressFile zlib steps files file).1 (file ++ gzipExtension) = some old := by
  refine ⟨compressFile_kept zlib hfile, fun old hold => ?_⟩
  rw [compressFile_target zlib hprobe hold]
  exact hold

/-- What zlib writes for the text `a`; other texts are not compressed here. -/
def sampleGzip : Gzip where
  compress chunks :=
    if chunks.flatten = [0x61] then
      [0x1F, 0x8B, 0x08, 0, 0, 0, 0, 0, 0, 0x03, 0x4B, 0x04, 0, 0x43, 0xBE, 0xB7, 0xE8,
        0x01, 0, 0, 0]
    else 0 :: chunks.flatten
  decompress
    | 0x1F :: _ => some [0x61]
    | _ :: text => some text
    | [] => none
  decompress_compress chunks := by
    by_cases h : chunks.flatten = [0x61]
    · rw [if_pos h, h]
      rfl
    · rw [if_neg h]
      rfl

/-- Nothing fails, and the file `app.log` has the text `a`. -/
def allSteps : CompressSteps where
  inUse := fun _ => false
  isRegularFile := true
  probes := true
  clock := 7
  counter := 0
  opensSource := true
  opensTarget := true
  reads := fun _ => true
  writes := fun _ => true
  closes := true
  renames := true
  removesTarget := true
  removesSource := true
  unfinished := []

theorem compressFile_loses_nothing_sample :
    Kept sampleGzip (ascii "app.log") [0x61]
        (compressFile sampleGzip allSteps
          (Function.update (fun _ => none) (ascii "app.log") (some [0x61]))
          (ascii "app.log")).1 ∧
      ∀ old, Function.update (fun _ => none) (ascii "app.log") (some [0x61])
          (ascii "app.log" ++ gzipExtension) = some old →
        (compressFile sampleGzip allSteps
          (Function.update (fun _ => none) (ascii "app.log") (some [0x61]))
          (ascii "app.log")).1 (ascii "app.log" ++ gzipExtension) = some old :=
  compressFile_loses_nothing sampleGzip allSteps _ _ _ (Function.update_self ..) rfl

end CompressionManager
end Logme
