import Logme.FileBackendTransfer

/-!
# What reaches the log file

The file below a backend whose size policy is truncation, with operations
that succeed.  A backend with the other policy behaves like one without a
limit until it rotates.  The part of the file that a truncation keeps is
found by a search for the end of a line in the raw bytes, and a notice is
written in front of it.

As long as no truncation has rewritten the file, the file and the queue
together hold the appended bytes in order: every function of the backend
only moves bytes from the queue to the end of the file.
-/

namespace Logme

/-- `rewritten` says that `TruncateToMaxSize` has written to the file, or has
searched beyond the bytes that it has read, with whatever result. -/
structure LogFile where
  maxSize : Nat
  content : List UInt8
  currentSize : Nat
  rewritten : Bool

namespace LogFile

/-- A file that `CreateLog` has created. -/
def new (maxSize : Nat) : LogFile where
  maxSize := maxSize
  content := []
  currentSize := 0
  rewritten := false

inductive LineSearch where
  | nul
  | newline (after : List UInt8)
  | beyond
  deriving DecidableEq

/-- The loop `while (*p && *p != '\n')` over the data that was read. -/
def findNewline : List UInt8 → LineSearch
  | [] => .beyond
  | c :: rest =>
      if c = 0 then .nul
      else if c = 10 then .newline rest
      else findNewline rest

def bytesOf (text : List Char) : List UInt8 :=
  text.map fun c => UInt8.ofNat c.toNat

/-- `"--- dropped %u characters\n"` -/
def droppedNotice (n : Nat) : List UInt8 :=
  bytesOf (['-', '-', '-', ' ', 'd', 'r', 'o', 'p', 'p', 'e', 'd', ' '] ++
    Nat.toDigits 10 n ++
    [' ', 'c', 'h', 'a', 'r', 'a', 'c', 't', 'e', 'r', 's', '\n'])

/-- `FileIo::TruncateToMaxSize`; positions and sizes are `uint32_t`. -/
def truncateToMaxSize (f : LogFile) : LogFile :=
  if f.maxSize = 0 then f
  else if f.content.length < f.maxSize then f
  else
    let readPos := f.maxSize / 2 % 2 ^ 32
    let readSize := (f.content.length - readPos) % 2 ^ 32
    let data := (f.content.drop readPos).take readSize
    match findNewline data with
    | .nul => f
    | .newline after =>
        let n := readSize - after.length
        { f with
          content := droppedNotice ((readPos + n) % 2 ^ 32) ++ after
          rewritten := true }
    | .beyond => { f with rewritten := true }

/-- `FileBackend::Truncate` -/
def truncate (f : LogFile) : LogFile :=
  if f.maxSize = 0 ∨ f.currentSize < f.maxSize then f
  else
    let f := f.truncateToMaxSize
    { f with currentSize := f.content.length }

/-- `ApplySizeLimit` does not look at the number of bytes to be added. -/
def applySizeLimit (f : LogFile) : Bool × LogFile :=
  if f.maxSize = 0 then (true, f) else (true, f.truncate)

/-- `WriteAll` returns the size as an `int`; a negative one is taken for a
failure by the callers, which else add it to `CurrentSize`. -/
def writeAll (f : LogFile) (bytes : List UInt8) : Option Nat × LogFile :=
  let rc := bytes.length % 2 ^ 32
  let f := { f with content := f.content ++ bytes }
  if rc < 2 ^ 31 then (some rc, { f with currentSize := f.currentSize + rc })
  else (none, f)

theorem writeAll_of_short (f : LogFile) {bytes : List UInt8}
    (h : bytes.length < 2 ^ 31) :
    (f.writeAll bytes).1 = some bytes.length := by
  have hmod : bytes.length % 2 ^ 32 = bytes.length :=
    Nat.mod_eq_of_lt (by omega)
  unfold writeAll
  dsimp only
  rw [hmod, if_pos h]

/-- Nothing has happened to the file but that `bytes` were written. -/
def Extends (f f' : LogFile) (bytes : List UInt8) : Prop :=
  f'.rewritten = false →
    f.rewritten = false ∧ f'.content = f.content ++ bytes

theorem Extends.refl (f : LogFile) : Extends f f [] :=
  fun h => ⟨h, (List.append_nil _).symm⟩

theorem Extends.trans {f f' f'' : LogFile} {bytes bytes' : List UInt8}
    (hfirst : Extends f f' bytes) (hsecond : Extends f' f'' bytes') :
    Extends f f'' (bytes ++ bytes') := by
  intro hkept
  rcases hsecond hkept with ⟨hkept', hcontent'⟩
  rcases hfirst hkept' with ⟨hkept'', hcontent⟩
  exact ⟨hkept'', by rw [hcontent', hcontent, List.append_assoc]⟩

theorem truncateToMaxSize_kept {f : LogFile}
    (hkept : f.truncateToMaxSize.rewritten = false) :
    f.truncateToMaxSize = f := by
  revert hkept
  unfold truncateToMaxSize
  split
  next => simp
  next =>
    split
    next => simp
    next =>
      dsimp only
      split
      next => simp
      next => simp
      next => simp

/-- The bytes that `TruncateToMaxSize` reads. -/
def searched (f : LogFile) : List UInt8 :=
  (f.content.drop (f.maxSize / 2 % 2 ^ 32)).take
    ((f.content.length - f.maxSize / 2 % 2 ^ 32) % 2 ^ 32)

/-- A short file is not cut, nor one in which the search ends at a NUL. -/
theorem truncateToMaxSize_eq {f : LogFile}
    (hkeeps : f.content.length < f.maxSize ∨
      findNewline f.searched = .nul) : f.truncateToMaxSize = f := by
  unfold truncateToMaxSize
  split
  next => rfl
  next =>
    split
    next => rfl
    next hlong =>
      have hnul := hkeeps.resolve_left hlong
      dsimp only
      rw [← searched, hnul]

/-- The size limit has not been reached, or a NUL ends the search for a place
to cut. -/
def Keeps (f : LogFile) : Prop :=
  f.maxSize = 0 ∨ f.currentSize < f.maxSize ∨
    f.content.length < f.maxSize ∨ findNewline f.searched = .nul

theorem applySizeLimit_extends (f : LogFile) :
    Extends f f.applySizeLimit.2 [] := by
  unfold applySizeLimit truncate
  split
  next => exact .refl f
  next =>
    split
    next => exact .refl f
    next =>
      intro hkept
      have hsame := truncateToMaxSize_kept (f := f) hkept
      dsimp only at hkept ⊢
      rw [hsame] at hkept ⊢
      exact Extends.refl f hkept

theorem applySizeLimit_fst (f : LogFile) : f.applySizeLimit.1 = true := by
  unfold applySizeLimit
  split <;> rfl

theorem writeAll_frame (f : LogFile) (bytes : List UInt8) :
    (f.writeAll bytes).2.content = f.content ++ bytes ∧
      (f.writeAll bytes).2.rewritten = f.rewritten := by
  unfold writeAll
  dsimp only
  split <;> exact ⟨rfl, rfl⟩

theorem writeAll_extends (f : LogFile) (bytes : List UInt8) :
    Extends f (f.writeAll bytes).2 bytes := by
  intro hkept
  rw [(f.writeAll_frame bytes).2] at hkept
  exact ⟨hkept, (f.writeAll_frame bytes).1⟩

end LogFile

def logDevice : FileDevice LogFile where
  isOpen := fun _ => true
  rotateIfDue := fun f => (true, f)
  applySizeLimit := fun f _ => f.applySizeLimit
  writeAll := LogFile.writeAll

namespace FileBackend

open LogFile

/-- The bytes in the file, followed by the queued ones. -/
def stored (b : FileBackend LogFile) : List UInt8 :=
  b.io.content ++ b.queue.bytes

/-- The backend has taken in `bytes`, and has lost nothing as long as the
file is not rewritten. -/
structure Stores (b b' : FileBackend LogFile) (bytes : List UInt8) : Prop where
  kept : b'.io.rewritten = false → b.io.rewritten = false
  stored : b'.io.rewritten = false → b'.stored = b.stored ++ bytes
  unused : b.QueueUnused → b'.QueueUnused

theorem WritesAll.extends {f f' : LogFile} {bytes : List UInt8}
    (hwrites : WritesAll logDevice f f' bytes) : Extends f f' bytes := by
  induction hwrites with
  | done => exact .refl f
  | write _ more ih => exact ih.trans (writeAll_extends _ more)

theorem movesBytes : MovesBytes logDevice Extends where
  refl := Extends.refl
  trans := fun _ _ _ _ _ => Extends.trans
  refused := fun io bytes h => by
    have htrue := io.applySizeLimit_fst
    simp only [logDevice] at h
    rw [h] at htrue
    simp at htrue
  written := fun io _ _ _ hwrites =>
    (applySizeLimit_extends io).trans hwrites.extends

theorem Moves.stores {b b' : FileBackend LogFile} {bytes : List UInt8}
    (hmoves : Moves Extends b b' bytes) : Stores b b' bytes := by
  rcases hmoves.output with ⟨out, hextends, hbytes⟩
  refine ⟨fun hkept => (hextends hkept).1, fun hkept => ?_, hmoves.unused⟩
  rw [stored, (hextends hkept).2, List.append_assoc, hbytes, stored,
    List.append_assoc]

/-- The file and the bytes in the queue stay as they are. -/
theorem Stores.of_same {b b' : FileBackend LogFile} (hio : b'.io = b.io)
    (hbytes : b'.queue.bytes = b.queue.bytes) (hasync : b'.async = b.async) :
    Stores b b' [] :=
  (Moves.of_same movesBytes hio hbytes hasync).stores

theorem freeze_stores (b : FileBackend LogFile) : Stores b b.freeze.1 [] :=
  (freeze_moves movesBytes b).stores

/-! ## Appending -/

theorem appendSync_backend (b : FileBackend LogFile) (text : List UInt8) :
    (appendSync logDevice b text).backend =
      { b with io := (b.io.applySizeLimit.2.writeAll text).2 } := by
  have htrue := b.io.applySizeLimit_fst
  unfold appendSync
  split
  next io hresult =>
    simp only [logDevice] at hresult
    rw [hresult] at htrue
    simp at htrue
  next io hresult =>
    simp only [logDevice] at hresult
    rw [hresult]
    split
    next io' hwritten =>
      simp only [logDevice] at hwritten
      rw [hwritten]
    next rc io' hwritten =>
      simp only [logDevice] at hwritten
      rw [hwritten]

/-- A synchronous backend writes what it is given at once. -/
theorem appendOutputData_written_at_once {b : FileBackend LogFile}
    {text : List UInt8} (clock : Clock) (a : Allocation)
    (hsync : b.async = false) (hopen : b.shutdownFlag = false)
    (hne : text ≠ []) :
    (appendOutputData logDevice b text clock a).backend =
      { b with io := (b.io.applySizeLimit.2.writeAll text).2 } := by
  have hlength := List.length_pos_iff.mpr hne
  unfold appendOutputData
  rw [if_neg (by simp [hopen]), if_neg (by omega), if_pos hsync]
  exact appendSync_backend b text

theorem appendOutputData_stores (b : FileBackend LogFile)
    (text : List UInt8) (clock : Clock) (a : Allocation)
    (hunused : b.QueueUnused) :
    Stores b (appendOutputData logDevice b text clock a).backend
      (if b.takes text.length a then text else []) :=
  (appendOutputData_moves movesBytes b text clock a hunused).stores

/-- The result of the call says whether the bytes were taken. -/
theorem appendOutputData_written (b : FileBackend LogFile)
    {text : List UInt8} (clock : Clock) (a : Allocation)
    (hlength : text.length < 2 ^ 31) :
    (appendOutputData logDevice b text clock a).written =
      if b.takes text.length a then text.length else 0 := by
  unfold appendOutputData takes
  by_cases hshutdown : b.shutdownFlag = true
  · rw [if_pos hshutdown]
    simp [hshutdown]
  · rw [if_neg hshutdown]
    rw [Bool.not_eq_true] at hshutdown
    by_cases hempty : text.length = 0
    · rw [if_pos hempty]
      simp [hempty]
    · rw [if_neg hempty]
      cases hasync : b.async with
      | false =>
          rw [if_pos rfl]
          have htrue := b.io.applySizeLimit_fst
          unfold appendSync
          split
          next io hresult =>
            simp only [logDevice] at hresult
            rw [hresult] at htrue
            simp at htrue
          next io hresult =>
            have hwrite := io.writeAll_of_short hlength
            cases hwritten : io.writeAll text with
            | mk rc io' =>
                rw [hwritten] at hwrite
                dsimp only at hwrite
                subst rc
                simp only [logDevice, hwritten]
                simp [hshutdown]
      | true =>
          rw [if_neg (by simp)]
          have hok := b.queue.append_ok text
            (b.writeTime b.flushTime clock.first) a
          rw [← hok]
          unfold appendAsync
          dsimp only
          split
          next hrefused => simp [hrefused]
          next htaken =>
            rw [Bool.not_eq_false] at htaken
            simp [htaken, hshutdown]

/-! ## What happens between two appends -/

inductive Maintenance where
  | flush (alloc : Nat → Allocation)
  | worker (now later : Nat) (a : Allocation)
  | onShutdown (a : Allocation)

def maintain (b : FileBackend LogFile) : Maintenance → FileBackend LogFile
  | .flush alloc => (b.flush alloc).1
  | .worker now later a => (b.workerFunc logDevice now later a).2
  | .onShutdown a => b.onShutdown logDevice a

theorem maintain_stores (b : FileBackend LogFile) (m : Maintenance) :
    Stores b (b.maintain m) [] := by
  cases m with
  | flush alloc => exact (flush_moves movesBytes b alloc).stores
  | worker now later a =>
      exact (workerFunc_moves movesBytes b now later a).stores
  | onShutdown a => exact (onShutdown_moves movesBytes b a).stores

end FileBackend

end Logme
