import Mathlib.Algebra.Group.Nat.Defs
import Mathlib.Logic.Basic
import Mathlib.Logic.Function.Basic
import Logme.Library.StepSystem

/-!
# Opening and locking a log file

`FileIo::Open` opens the file, truncating it unless it is to be appended to,
and then takes a `flock` on the new descriptor; both calls stand in a loop that
is repeated until the timeout.  The system below interleaves the system calls
of any number of `FileIo` objects on one path, in one process or several: a
lock belongs to an open file description, and every `open` makes a new one.

A byte of the file carries the object that wrote it.  `expected` is a history
variable: what the calls of the lock holder have made of the content it found.
-/

namespace Logme

open StepSystem

structure FileByte (ι : Type) where
  writer : Option ι
  value : UInt8
  deriving DecidableEq

/-- An open file description of an object. -/
structure FileDescription (ι : Type) where
  owner : ι
  fd : Nat
  deriving DecidableEq

/-- The arguments of `Open` and the time it has noted as `start`. -/
structure OpenCall where
  append : Bool
  timeout : Nat
  start : Nat
  deriving DecidableEq

/-- `t < start || t - start >= timeout`. -/
def OpenCall.expired (call : OpenCall) (t : Nat) : Bool :=
  decide (t < call.start ∨ call.timeout ≤ t - call.start)

/-- The system call that an object makes next. -/
inductive FileIoPc where
  | closed
  | opening (call : OpenCall)
  | marking (call : OpenCall) (fd : Nat)
  | locking (call : OpenCall) (fd : Nat)
  | abandoning (fd : Nat)
  | opened (fd : Nat)
  | closing (fd : Nat)
  deriving DecidableEq

structure SharedFile (ι : Type) where
  content : List (FileByte ι)
  lock : Option (FileDescription ι)
  nextFd : Nat
  pc : ι → FileIoPc
  expected : List (FileByte ι)

/-- The results of the system calls and the clock are part of the labels. -/
inductive FileCall (ι : Type) where
  | start (i : ι) (append : Bool) (timeout now : Nat)
  | sysOpen (i : ι) (succeeds : Bool) (now : Nat)
  | sysFcntl (i : ι) (succeeds : Bool)
  | sysFlock (i : ι) (interrupted : Bool) (now : Nat)
  | sysWrite (i : ι) (offset : Nat) (bytes : List UInt8)
  | sysFtruncate (i : ι) (size : Nat)
  | sysUnlock (i : ι)
  | sysClose (i : ι)

namespace SharedFile

variable {ι : Type}

def zeroByte : FileByte ι := ⟨none, 0⟩

/-- The effect of `ftruncate`: cut the content or fill it up with zeros. -/
def resize (content : List (FileByte ι)) (size : Nat) : List (FileByte ι) :=
  content.take size ++ List.replicate (size - content.length) zeroByte

/-- The effect of a write at an offset, which may lie behind the end. -/
def overlay (content : List (FileByte ι)) (offset : Nat)
    (bytes : List (FileByte ι)) : List (FileByte ι) :=
  resize content offset ++ bytes ++ content.drop (offset + bytes.length)

/-- The file before any of the objects is opened. -/
def initial (before : List UInt8) : SharedFile ι where
  content := before.map fun value => ⟨none, value⟩
  lock := none
  nextFd := 0
  pc := fun _ => .closed
  expected := []

variable [DecidableEq ι]

def setPc (s : SharedFile ι) (i : ι) (pc : FileIoPc) : SharedFile ι :=
  { s with pc := Function.update s.pc i pc }

/-- `open`: with `O_TRUNC` the content is gone as soon as the call returns. -/
def openFile (s : SharedFile ι) (i : ι) (call : OpenCall) : SharedFile ι :=
  ({ s with
      content := if call.append then s.content else []
      nextFd := s.nextFd + 1 }).setPc i (.marking call s.nextFd)

def step (s : SharedFile ι) : FileCall ι → Option (SharedFile ι)
  | .start i append timeout now =>
      if s.pc i = .closed then some (s.setPc i (.opening ⟨append, timeout, now⟩))
      else none
  | .sysOpen i succeeds now =>
      match s.pc i with
      | .opening call =>
          if succeeds then some (s.openFile i call)
          else if call.expired now then some (s.setPc i .closed)
          else some s
      | _ => none
  | .sysFcntl i succeeds =>
      match s.pc i with
      | .marking call fd =>
          if succeeds then some (s.setPc i (.locking call fd))
          else some (s.setPc i (.abandoning fd))
      | _ => none
  | .sysFlock i interrupted now =>
      match s.pc i with
      | .locking call fd =>
          if s.lock = none ∧ interrupted = false then
            some (({ s with
                lock := some ⟨i, fd⟩
                expected := s.content }).setPc i (.opened fd))
          else if call.expired now then some (s.setPc i (.abandoning fd))
          -- the next round overwrites `File`, this descriptor stays open
          else some (s.setPc i (.opening call))
      | _ => none
  | .sysWrite i offset bytes =>
      match s.pc i with
      | .opened _ =>
          let written : List (FileByte ι) := bytes.map fun value => ⟨some i, value⟩
          some { s with
            content := overlay s.content offset written
            expected := overlay s.expected offset written }
      | _ => none
  | .sysFtruncate i size =>
      match s.pc i with
      | .opened _ =>
          some { s with
            content := resize s.content size
            expected := resize s.expected size }
      | _ => none
  | .sysUnlock i =>
      match s.pc i with
      | .opened fd => some (({ s with lock := none }).setPc i (.closing fd))
      | _ => none
  | .sysClose i =>
      match s.pc i with
      | .abandoning _ | .closing _ => some (s.setPc i .closed)
      | _ => none

/-! ## What the holder of the lock relies on -/

/-- The object is open, which is when it holds the lock. -/
def Holds (s : SharedFile ι) (i : ι) : Prop := ∃ fd, s.lock = some ⟨i, fd⟩

/-- Every byte that the lock holder has written and not changed itself is
still in the file. -/
def HolderContentKept (s : SharedFile ι) : Prop :=
  ∀ i, s.Holds i → ∀ (offset : Nat) (value : UInt8),
    s.expected[offset]? = some ⟨some i, value⟩ →
      s.content[offset]? = some ⟨some i, value⟩

/-- The content holds a byte that the lock holder has written. -/
def holderHasWritten (s : SharedFile ι) : Bool :=
  match s.lock with
  | some description =>
      s.content.any fun byte => decide (byte.writer = some description.owner)
  | none => false

/-- The call is not the `open` of an `Open` without append under such a
holder. -/
def SparesHolder (s : SharedFile ι) : FileCall ι → Prop
  | .sysOpen i succeeds _ =>
      match s.pc i with
      | .opening call =>
          succeeds = true → call.append = false → s.holderHasWritten = false
      | _ => True
  | _ => True

instance (s : SharedFile ι) (call : FileCall ι) : Decidable (s.SparesHolder call) := by
  unfold SparesHolder
  split
  · split <;> infer_instance
  · infer_instance

/-- The bytes of an object are the same in two contents. -/
def AgreeOn (i : ι) (a b : List (FileByte ι)) : Prop :=
  ∀ (offset : Nat) (value : UInt8),
    a[offset]? = some ⟨some i, value⟩ ↔ b[offset]? = some ⟨some i, value⟩

omit [DecidableEq ι] in
theorem resize_getElem? (content : List (FileByte ι)) (size offset : Nat) :
    (resize content size)[offset]? =
      if offset < size then some (content[offset]?.getD zeroByte) else none := by
  unfold resize
  by_cases hoffset : offset < size
  · rw [if_pos hoffset]
    by_cases hinside : offset < content.length
    · rw [List.getElem?_append_left (by simp; omega), List.getElem?_take_of_lt hoffset,
        List.getElem?_eq_getElem hinside, Option.getD_some]
    · have hshort : (content.take size).length = content.length := by simp; omega
      rw [List.getElem?_append_right (by omega), hshort,
        List.getElem?_replicate_of_lt (by omega),
        List.getElem?_eq_none (by omega), Option.getD_none]
  · rw [if_neg hoffset]
    exact List.getElem?_eq_none (by simp; omega)

omit [DecidableEq ι] in
theorem length_resize (content : List (FileByte ι)) (size : Nat) :
    (resize content size).length = size := by
  simp only [resize, List.length_append, List.length_take, List.length_replicate]
  omega

omit [DecidableEq ι] in
theorem overlay_getElem? (content : List (FileByte ι)) (start : Nat)
    (bytes : List (FileByte ι)) (offset : Nat) :
    (overlay content start bytes)[offset]? =
      if offset < start then some (content[offset]?.getD zeroByte)
      else if offset < start + bytes.length then bytes[offset - start]?
      else content[offset]? := by
  unfold overlay
  have hfront := length_resize content start
  by_cases hbefore : offset < start
  · rw [if_pos hbefore, List.append_assoc,
      List.getElem?_append_left (by omega), resize_getElem?, if_pos hbefore]
  · rw [if_neg hbefore]
    by_cases hinside : offset < start + bytes.length
    · rw [if_pos hinside,
        List.getElem?_append_left (by rw [List.length_append]; omega),
        List.getElem?_append_right (by omega), hfront]
    · rw [if_neg hinside,
        List.getElem?_append_right (by rw [List.length_append]; omega),
        List.length_append, hfront, List.getElem?_drop]
      congr 1
      omega

omit [DecidableEq ι] in
/-- A filled hole is nobody's byte. -/
theorem getD_zeroByte_iff {i : ι} {value : UInt8} (found : Option (FileByte ι)) :
    found.getD zeroByte = ⟨some i, value⟩ ↔ found = some ⟨some i, value⟩ := by
  cases found <;> simp [zeroByte]

omit [DecidableEq ι] in
theorem AgreeOn.resize {i : ι} {a b : List (FileByte ι)} (h : AgreeOn i a b)
    (size : Nat) : AgreeOn i (resize a size) (resize b size) := by
  intro offset value
  rw [resize_getElem?, resize_getElem?]
  split
  next =>
    rw [Option.some.injEq, Option.some.injEq, getD_zeroByte_iff,
      getD_zeroByte_iff, h offset value]
  next => rfl

omit [DecidableEq ι] in
theorem AgreeOn.overlay {i : ι} {a b : List (FileByte ι)} (h : AgreeOn i a b)
    (start : Nat) (bytes : List (FileByte ι)) :
    AgreeOn i (overlay a start bytes) (overlay b start bytes) := by
  intro offset value
  rw [overlay_getElem?, overlay_getElem?]
  split
  next =>
    rw [Option.some.injEq, Option.some.injEq, getD_zeroByte_iff,
      getD_zeroByte_iff, h offset value]
  next =>
    split
    next => rfl
    next => exact h offset value

/-- The invariant of runs that spare the holder. -/
structure Inv (s : SharedFile ι) : Prop where
  locked : ∀ i fd, s.pc i = .opened fd ↔ s.lock = some ⟨i, fd⟩
  agrees : ∀ i, s.Holds i → AgreeOn i s.expected s.content

omit [DecidableEq ι] in
theorem initial_inv (before : List UInt8) : (initial before : SharedFile ι).Inv where
  locked := by simp [initial]
  agrees := by simp [initial, Holds]

/-- Moving an object between places where it does not hold the lock. -/
theorem Inv.setPc {s : SharedFile ι} (hinv : s.Inv) {i : ι} {pc : FileIoPc}
    (hbefore : ∀ fd, s.pc i ≠ .opened fd) (hafter : ∀ fd, pc ≠ .opened fd) :
    (s.setPc i pc).Inv := by
  refine ⟨?_, hinv.agrees⟩
  intro j fd
  by_cases hj : j = i
  · subst hj
    have hnot := (hinv.locked j fd).not.mp (hbefore fd)
    simp only [SharedFile.setPc, Function.update_self]
    exact iff_of_false (hafter fd) hnot
  · simp only [SharedFile.setPc, Function.update_of_ne hj]
    exact hinv.locked j fd

omit [DecidableEq ι] in
/-- Truncation leaves the bytes of a holder alone that has none. -/
theorem agreeOn_nil {i : ι} {a b : List (FileByte ι)} (h : AgreeOn i a b)
    (hnone : ∀ byte ∈ b, byte.writer ≠ some i) : AgreeOn i a [] := by
  intro offset value
  refine iff_of_false ?_ (by simp)
  rw [h offset value]
  intro hbyte
  exact hnone _ (List.mem_of_getElem? hbyte) rfl

theorem openFile_inv {s : SharedFile ι} {i : ι} {call : OpenCall} (hinv : s.Inv)
    (hpc : s.pc i = .opening call)
    (hspares : call.append = false → s.holderHasWritten = false) :
    (s.openFile i call).Inv := by
  have hmoved : (s.setPc i (.marking call s.nextFd)).Inv :=
    hinv.setPc (by simp [hpc]) (by simp)
  refine ⟨hmoved.locked, ?_⟩
  intro j hholds
  have hagree := hinv.agrees j hholds
  simp only [openFile, SharedFile.setPc]
  split
  next => exact hagree
  next happend =>
    apply agreeOn_nil hagree
    have hspared := hspares (by simpa using happend)
    obtain ⟨fd, hlock⟩ := hholds
    simp only [openFile, SharedFile.setPc] at hlock
    simpa [holderHasWritten, hlock] using hspared

theorem step_inv {s next : SharedFile ι} {call : FileCall ι} (hinv : s.Inv)
    (hspares : s.SparesHolder call) (hstep : s.step call = some next) :
    next.Inv := by
  cases call with
  | start i append timeout now =>
      simp only [step] at hstep
      split at hstep
      next hpc =>
        simp only [Option.some.injEq] at hstep
        subst hstep
        exact hinv.setPc (by simp [hpc]) (by simp)
      next => simp at hstep
  | sysOpen i succeeds now =>
      cases hpc : s.pc i with
      | opening call =>
          simp only [SparesHolder, hpc] at hspares
          simp only [step, hpc] at hstep
          split at hstep
          next hsucceeds =>
            simp only [Option.some.injEq] at hstep
            subst hstep
            exact openFile_inv hinv hpc (hspares hsucceeds)
          next =>
            split at hstep <;> simp only [Option.some.injEq] at hstep <;>
              subst hstep
            · exact hinv.setPc (by simp [hpc]) (by simp)
            · exact hinv
      | _ => simp [step, hpc] at hstep
  | sysFcntl i succeeds =>
      cases hpc : s.pc i with
      | marking call fd =>
          simp only [step, hpc] at hstep
          split at hstep <;> simp only [Option.some.injEq] at hstep <;> subst hstep
          · exact hinv.setPc (by simp [hpc]) (by simp)
          · exact hinv.setPc (by simp [hpc]) (by simp)
      | _ => simp [step, hpc] at hstep
  | sysFlock i interrupted now =>
      cases hpc : s.pc i with
      | locking call fd =>
          simp only [step, hpc] at hstep
          split at hstep
          next hfree =>
            simp only [Option.some.injEq] at hstep
            subst hstep
            refine ⟨?_, fun j _ => fun _ _ => Iff.rfl⟩
            intro j fd'
            simp only [SharedFile.setPc, Option.some.injEq,
              FileDescription.mk.injEq]
            by_cases hj : j = i
            · subst hj
              simp
            · have hout := (hinv.locked j fd').not.mpr (by simp [hfree.1])
              simp [Function.update_of_ne hj, hout, Ne.symm hj]
          next =>
            split at hstep <;> simp only [Option.some.injEq] at hstep <;>
              subst hstep
            · exact hinv.setPc (by simp [hpc]) (by simp)
            · exact hinv.setPc (by simp [hpc]) (by simp)
      | _ => simp [step, hpc] at hstep
  | sysWrite i offset bytes =>
      cases hpc : s.pc i with
      | opened fd =>
          simp only [step, hpc, Option.some.injEq] at hstep
          subst hstep
          refine ⟨hinv.locked, ?_⟩
          intro j hholds
          exact (hinv.agrees j hholds).overlay offset _
      | _ => simp [step, hpc] at hstep
  | sysFtruncate i size =>
      cases hpc : s.pc i with
      | opened fd =>
          simp only [step, hpc, Option.some.injEq] at hstep
          subst hstep
          refine ⟨hinv.locked, ?_⟩
          intro j hholds
          exact (hinv.agrees j hholds).resize size
      | _ => simp [step, hpc] at hstep
  | sysUnlock i =>
      cases hpc : s.pc i with
      | opened fd =>
          simp only [step, hpc, Option.some.injEq] at hstep
          subst hstep
          refine ⟨?_, by simp [Holds, SharedFile.setPc]⟩
          intro j fd'
          refine iff_of_false ?_ (by simp [SharedFile.setPc])
          by_cases hj : j = i
          · simp [SharedFile.setPc, hj]
          · simp only [SharedFile.setPc, Function.update_of_ne hj]
            rw [hinv.locked, (hinv.locked i fd).mp hpc]
            simp [Ne.symm hj]
      | _ => simp [step, hpc] at hstep
  | sysClose i =>
      cases hpc : s.pc i with
      | abandoning fd =>
          simp only [step, hpc, Option.some.injEq] at hstep
          subst hstep
          exact hinv.setPc (by simp [hpc]) (by simp)
      | closing fd =>
          simp only [step, hpc, Option.some.injEq] at hstep
          subst hstep
          exact hinv.setPc (by simp [hpc]) (by simp)
      | _ => simp [step, hpc] at hstep

/-- In every run in which no truncating `open` meets a holder that has written,
what the holder has written is in the file in every state. -/
theorem holder_content_kept (before : List UInt8) {s : SharedFile ι}
    (hrun : Run step SparesHolder (initial before) s) : s.HolderContentKept := by
  have hinv : s.Inv := by
    apply hrun.invariant _ (initial_inv before)
    intro s call next hinv hspares hstep
    exact step_inv hinv hspares hstep
  intro i hholds offset value hexpected
  exact (hinv.agrees i hholds offset value).mp hexpected

/-- One object opens the file and writes one byte. -/
private def writtenByFirst {ι : Type} (first : ι) : List (FileCall ι) :=
  [.start first true 0 10, .sysOpen first true 10, .sysFcntl first true,
    .sysFlock first false 10, .sysWrite first 0 [0x61]]

/-- The second object opens the file for appending and fails to lock it. -/
theorem holder_content_kept_second_appends :
    ∃ s : SharedFile (Fin 2),
      s.content = [⟨some 0, 0x61⟩] ∧ s.HolderContentKept := by
  rcases exists_run_of_exec step SparesHolder (initial [] : SharedFile (Fin 2))
      (writtenByFirst 0 ++ [.start 1 true 0 11, .sysOpen 1 true 11,
        .sysFcntl 1 true, .sysFlock 1 false 12, .sysClose 1])
      (fun s => decide (s.content = [⟨some 0, 0x61⟩])) (by decide)
    with ⟨s, hrun, hcheck⟩
  exact ⟨s, of_decide_eq_true hcheck, holder_content_kept [] hrun⟩

/-- The second object opens the file without append: the byte is gone before
the lock is refused. -/
theorem truncated_before_locked :
    ¬ ∀ (before : List UInt8) (s : SharedFile (Fin 2)),
      Reachable step (initial before) s → s.HolderContentKept := by
  intro hall
  rcases exists_reachable_of_exec step (initial [] : SharedFile (Fin 2))
      (writtenByFirst 0 ++ [.start 1 false 0 11, .sysOpen 1 true 11,
        .sysFcntl 1 true, .sysFlock 1 false 12, .sysClose 1])
      (fun s => decide (s.lock = some ⟨0, 0⟩) &&
        decide (s.expected = [⟨some 0, 0x61⟩]) && decide (s.content = []))
      (by decide) with ⟨s, hreach, hcheck⟩
  rw [Bool.and_eq_true, Bool.and_eq_true, decide_eq_true_eq, decide_eq_true_eq,
    decide_eq_true_eq] at hcheck
  rcases hcheck with ⟨⟨hlock, hwritten⟩, hgone⟩
  have hkept := hall [] s hreach 0 ⟨0, hlock⟩ 0 0x61 (by rw [hwritten]; rfl)
  rw [hgone] at hkept
  exact absurd hkept (by simp)

end SharedFile
end Logme
