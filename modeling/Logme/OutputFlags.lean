import Mathlib.Algebra.Group.Nat.Defs
import Mathlib.Logic.Basic

/-!
# Output flags and overrides

`OutputFlags` is a union of a 32-bit word and its bit fields; channels combine
the words of their own flags and of an override.
-/

namespace Logme

structure OutputFlags where
  value : BitVec 32
  deriving DecidableEq

namespace OutputFlags

/-- The bit fields, from the lowest bit up. -/
def timestamp (f : OutputFlags) : Nat := (f.value.extractLsb' 0 2).toNat
def signature (f : OutputFlags) : Bool := f.value.getLsbD 2
def location (f : OutputFlags) : Nat := (f.value.extractLsb' 3 2).toNat
def method (f : OutputFlags) : Bool := f.value.getLsbD 5
def eol (f : OutputFlags) : Bool := f.value.getLsbD 6
def errorPrefix (f : OutputFlags) : Bool := f.value.getLsbD 7
def duration (f : OutputFlags) : Bool := f.value.getLsbD 8
def threadID (f : OutputFlags) : Bool := f.value.getLsbD 9
def processID (f : OutputFlags) : Bool := f.value.getLsbD 10
def channel (f : OutputFlags) : Bool := f.value.getLsbD 11
def disableLink (f : OutputFlags) : Bool := f.value.getLsbD 16
def threadTransition (f : OutputFlags) : Bool := f.value.getLsbD 17
def subsystem (f : OutputFlags) : Bool := f.value.getLsbD 18
def format (f : OutputFlags) : Nat := (f.value.extractLsb' 19 2).toNat
def procPrint (f : OutputFlags) : Bool := f.value.getLsbD 29
def procPrintIn (f : OutputFlags) : Bool := f.value.getLsbD 30

def zero : OutputFlags := ⟨0⟩

/-- The constructor: a time stamp, the signature, the method, the end of line,
the error prefix, highlighting and thread transitions. -/
def default : OutputFlags := ⟨0x000210E5⟩

/-- `ProcPrint` and `ProcPrintIn` are copied from other flags. -/
def withControl (f control : OutputFlags) : OutputFlags :=
  ⟨f.value &&& 0x9FFFFFFF ||| control.value &&& 0x60000000⟩

/-- `DisableLink = true`. -/
def withDisableLink (f : OutputFlags) : OutputFlags := ⟨f.value ||| 0x10000⟩

/-- `Value |= add.Value; Value &= ~remove.Value`. -/
def combine (f add remove : OutputFlags) : OutputFlags :=
  ⟨(f.value ||| add.value) &&& ~~~remove.value⟩

@[simp] theorem withControl_format (f control : OutputFlags) :
    (f.withControl control).format = f.format := by
  unfold format withControl
  congr 1
  apply BitVec.eq_of_getLsbD_eq
  intro i hi
  have hcases : i = 0 ∨ i = 1 := by omega
  rcases hcases with rfl | rfl <;> simp

/-- The control flags are those that were copied. -/
theorem withControl_congr (f : OutputFlags) {control control' : OutputFlags}
    (h : control.value &&& 0x60000000 = control'.value &&& 0x60000000) :
    f.withControl control = f.withControl control' := by
  unfold withControl
  rw [h]

theorem withControl_control (f control : OutputFlags) :
    (f.withControl control).value &&& 0x60000000 = control.value &&& 0x60000000 := by
  unfold withControl
  apply BitVec.eq_of_getLsbD_eq
  intro i hi
  simp only [BitVec.getLsbD_and, BitVec.getLsbD_or]
  have hmask : ∀ i < 32, ((0x9FFFFFFF : BitVec 32).getLsbD i &&
      (0x60000000 : BitVec 32).getLsbD i) = false := by
    decide
  have hdisjoint := hmask i hi
  revert hdisjoint
  cases (0x9FFFFFFF : BitVec 32).getLsbD i <;>
    cases (0x60000000 : BitVec 32).getLsbD i <;> simp

example : default.timestamp = 1 ∧ default.signature ∧ default.method ∧
    default.errorPrefix ∧ default.eol ∧ default.threadTransition := by
  decide

end OutputFlags

/-- `Override`.  The shortener table pairs a prefix with its replacement. -/
structure Override where
  add : OutputFlags := .zero
  remove : OutputFlags := .zero
  shortener : List (List UInt8 × List UInt8) := []
  maxRepetitions : Int := -1
  repetitions : Int := 0
  maxFrequency : Nat := 0
  lastTime : Nat := 0
  deriving DecidableEq

/-- The flags of a channel for a record with the given override. -/
def OutputFlags.override (f : OutputFlags) : Option Override → OutputFlags
  | none => f
  | some ovr => f.combine ovr.add ovr.remove

end Logme
