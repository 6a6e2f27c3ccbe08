import Mathlib.Algebra.Group.Nat.Defs
import Mathlib.Logic.Basic
import Mathlib.Tactic.SplitIfs

/-!
# Data buffers

A `DataBuffer` is a fixed-capacity byte area with a fill level.  The queue
never looks at the bytes, so they have an arbitrary type.  The bound of the
fill level by the capacity is part of the type: the `memcpy` of `Append` is
only available where `CanAppend` has been tested.
-/

namespace Logme

/-- `address` stands for the address of the allocation, which is what
`PublishCurrentIfMatches` compares. -/
structure DataBuffer (β : Type) where
  address : Nat
  capacity : Nat
  data : List β
  firstWriteTime : Nat
  seenOnSoftFlush : Bool
  fits : data.length ≤ capacity

namespace DataBuffer

variable {β : Type}

/-- The constructor: an empty buffer of the given capacity. -/
def new (address capacity : Nat) : DataBuffer β where
  address := address
  capacity := capacity
  data := []
  firstWriteTime := 0
  seenOnSoftFlush := false
  fits := Nat.zero_le _

def size (b : DataBuffer β) : Nat := b.data.length

def reset (b : DataBuffer β) : DataBuffer β :=
  { b with
    data := []
    firstWriteTime := 0
    seenOnSoftFlush := false
    fits := Nat.zero_le _ }

def canAppend (b : DataBuffer β) (cb : Nat) : Prop := cb ≤ b.capacity - b.size

instance (b : DataBuffer β) (cb : Nat) : Decidable (b.canAppend cb) :=
  inferInstanceAs (Decidable (cb ≤ b.capacity - b.size))

def append (b : DataBuffer β) (p : List β) (h : b.canAppend p.length) :
    DataBuffer β :=
  { b with
    data := b.data ++ p
    fits := by
      have hfits := b.fits
      simp only [canAppend, size] at h
      simp only [List.length_append]
      omega }

def setFirstWriteTime (b : DataBuffer β) (value : Nat) : DataBuffer β :=
  { b with firstWriteTime := value }

def setSeenOnSoftFlush (b : DataBuffer β) (value : Bool) : DataBuffer β :=
  { b with seenOnSoftFlush := value }

@[simp] theorem new_data (address capacity : Nat) :
    (new address capacity : DataBuffer β).data = [] := rfl

@[simp] theorem reset_data (b : DataBuffer β) : b.reset.data = [] := rfl

@[simp] theorem append_data (b : DataBuffer β) (p : List β)
    (h : b.canAppend p.length) : (b.append p h).data = b.data ++ p := rfl

@[simp] theorem setFirstWriteTime_data (b : DataBuffer β) (value : Nat) :
    (b.setFirstWriteTime value).data = b.data := rfl

@[simp] theorem setSeenOnSoftFlush_data (b : DataBuffer β) (value : Bool) :
    (b.setSeenOnSoftFlush value).data = b.data := rfl

@[simp] theorem size_eq_zero (b : DataBuffer β) : b.size = 0 ↔ b.data = [] :=
  List.length_eq_zero_iff

end DataBuffer

end Logme
