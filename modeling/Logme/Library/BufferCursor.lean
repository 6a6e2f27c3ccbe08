import Mathlib.Data.List.Basic
import Mathlib.Data.List.TakeWhile

/-!
# Writing strings into a buffer

A cursor splits a buffer into the bytes before a position and those from the
position on, which earlier uses of the buffer left there.  Strings are copied
to the position and the position is moved, as two steps: a copied string that
is shorter than the move leaves old bytes in the text.
-/

structure BufferCursor where
  written : List UInt8
  ahead : List UInt8

namespace BufferCursor

/-- The bytes of a text before its first 0. -/
def cString (text : List UInt8) : List UInt8 := text.takeWhile fun c => c != 0

/-- What a bounded copy of a C string writes into `room` bytes. -/
def bounded (room : Nat) (src : List UInt8) : List UInt8 :=
  if room = 0 then [] else src.take (room - 1) ++ [0]

def start (buffer : List UInt8) : BufferCursor := ⟨[], buffer⟩

/-- The bytes of the whole buffer. -/
def bytes (c : BufferCursor) : List UInt8 := c.written ++ c.ahead

/-- Bytes are stored from the position on. -/
def store (c : BufferCursor) (src : List UInt8) : BufferCursor :=
  { c with ahead := src ++ c.ahead.drop src.length }

def advance (c : BufferCursor) (n : Nat) : BufferCursor :=
  ⟨c.written ++ c.ahead.take n, c.ahead.drop n⟩

/-- A C string is copied into a buffer of `size` bytes and the position moves
by `n`. -/
def copy (size : Nat) (c : BufferCursor) (src : List UInt8) (n : Nat) :
    BufferCursor :=
  (c.store (bounded (size - c.written.length) src)).advance n

/-- A piece of a text; nothing is stored for an empty one. -/
def copyPiece (size : Nat) (c : BufferCursor) (piece : List UInt8) : BufferCursor :=
  if piece = [] then c else c.copy size piece piece.length

/-- Nothing stands after the first 0. -/
def Terminated (text : List UInt8) : Prop :=
  text = cString text ∨ text = cString text ++ [0]

theorem advance_store (c : BufferCursor) (a b : List UInt8) :
    ((c.store (a ++ b)).advance a.length).written = c.written ++ a := by
  simp [store, advance]

/-- A text without a 0 is kept. -/
theorem cString_append_of_notMem {text : List UInt8} (hzero : 0 ∉ text) (behind : List UInt8) :
    cString (text ++ behind) = text ++ cString behind := by
  apply List.takeWhile_append_of_pos
  intro c hc
  rw [bne_iff_ne]
  exact fun h => hzero (h ▸ hc)

theorem cString_append (text behind : List UInt8) :
    cString (cString text ++ behind) = cString text ++ cString behind := by
  apply List.takeWhile_append_of_pos
  intro c hc
  exact List.mem_takeWhile_imp (p := fun c => c != 0) hc

theorem cString_append_zero (text behind : List UInt8) :
    cString (cString text ++ 0 :: behind) = cString text := by
  rw [cString_append]
  simp [cString]

theorem copy_written {size : Nat} {c : BufferCursor} {src text : List UInt8}
    (hroom : c.written.length + text.length < size) (hsrc : text <+: src) :
    (c.copy size src text.length).written = c.written ++ text := by
  rcases hsrc with ⟨tail, rfl⟩
  have hbounded : bounded (size - c.written.length) (text ++ tail) =
      text ++ (tail.take (size - c.written.length - 1 - text.length) ++ [0]) := by
    rw [bounded, if_neg (by omega), List.take_append, List.take_of_length_le (by omega),
      List.append_assoc]
  rw [copy, hbounded, advance_store]

/-- A terminated text is copied whole, whatever C string follows it. -/
theorem copy_terminated {size : Nat} {c : BufferCursor} {text : List UInt8}
    (hroom : c.written.length + text.length < size) (htext : Terminated text)
    (behind : List UInt8) :
    (c.copy size (cString (text ++ behind)) text.length).written =
      c.written ++ text := by
  have happend := cString_append text behind
  have hzero := cString_append_zero text behind
  unfold Terminated at htext
  generalize cString text = string at htext happend hzero
  rcases htext with htext | htext
  · subst htext
    apply copy_written hroom
    rw [happend]
    exact List.prefix_append _ _
  · subst htext
    have hbounded : bounded (size - c.written.length) string = (string ++ [0]) ++ [] := by
      rw [List.length_append] at hroom
      rw [bounded, if_neg (by omega), List.take_of_length_le (by omega), List.append_nil]
    rw [List.append_assoc, List.singleton_append, hzero, copy, hbounded, advance_store]

theorem copyPiece_written {size : Nat} {c : BufferCursor} {piece : List UInt8}
    (hroom : c.written.length + piece.length < size) :
    (c.copyPiece size piece).written = c.written ++ piece := by
  unfold copyPiece
  split
  next h => simp [h]
  next h => exact copy_written hroom List.prefix_rfl

/-- The pieces of a text are copied one after the other. -/
theorem foldl_copyPiece_written {size : Nat} (pieces : List (List UInt8))
    (c : BufferCursor) (hroom : c.written.length + pieces.flatten.length < size) :
    (pieces.foldl (copyPiece size) c).written = c.written ++ pieces.flatten := by
  induction pieces generalizing c with
  | nil => simp
  | cons piece pieces ih =>
      simp only [List.flatten_cons, List.length_append] at hroom
      have hpiece : (c.copyPiece size piece).written = c.written ++ piece :=
        copyPiece_written (by omega)
      rw [List.foldl_cons, ih, hpiece, List.flatten_cons, List.append_assoc]
      rw [hpiece, List.length_append]
      omega

theorem take_bytes (c : BufferCursor) : c.bytes.take c.written.length = c.written :=
  List.take_left

theorem take_store (c : BufferCursor) (a b : List UInt8) :
    (c.store (a ++ b)).bytes.take (c.written.length + a.length) = c.written ++ a := by
  have hbytes : (c.store (a ++ b)).bytes =
      (c.written ++ a) ++ (b ++ c.ahead.drop (a ++ b).length) := by
    simp [store, bytes]
  rw [hbytes, ← List.length_append, List.take_left]

/-! ## Staying inside the buffer -/

theorem length_advance (c : BufferCursor) (n : Nat) :
    (c.advance n).bytes.length = c.bytes.length := by
  rw [advance, bytes, bytes, List.append_assoc, List.take_append_drop]

theorem length_written_advance_le (c : BufferCursor) (n : Nat) :
    (c.advance n).written.length ≤ c.written.length + n := by
  rw [advance, List.length_append, List.length_take]
  omega

/-- What fits behind the position does not lengthen the buffer. -/
theorem length_store {c : BufferCursor} {src : List UInt8}
    (h : c.written.length + src.length ≤ c.bytes.length) :
    (c.store src).bytes.length = c.bytes.length := by
  simp only [store, bytes, List.length_append, List.length_drop] at h ⊢
  omega

theorem length_bounded_le (room : Nat) (src : List UInt8) : (bounded room src).length ≤ room := by
  unfold bounded
  split
  next => exact Nat.zero_le _
  next =>
    rw [List.length_append, List.length_take, List.length_singleton]
    omega

/-- A bounded copy stays inside a buffer that has the given size. -/
theorem length_copy {size : Nat} {c : BufferCursor} (h : size ≤ c.bytes.length)
    (src : List UInt8) (n : Nat) : (c.copy size src n).bytes.length = c.bytes.length := by
  rw [copy, length_advance]
  have hbounded := length_bounded_le (size - c.written.length) src
  have hwritten : c.written.length ≤ c.bytes.length := by
    rw [bytes, List.length_append]
    omega
  exact length_store (by omega)

theorem length_written_copy_le (size : Nat) (c : BufferCursor) (src : List UInt8) (n : Nat) :
    (c.copy size src n).written.length ≤ c.written.length + n :=
  length_written_advance_le _ n

theorem length_copyPiece {size : Nat} {c : BufferCursor} (h : size ≤ c.bytes.length)
    (piece : List UInt8) : (c.copyPiece size piece).bytes.length = c.bytes.length := by
  unfold copyPiece
  split
  next => rfl
  next => exact length_copy h piece _

theorem length_written_copyPiece_le (size : Nat) (c : BufferCursor) (piece : List UInt8) :
    (c.copyPiece size piece).written.length ≤ c.written.length + piece.length := by
  unfold copyPiece
  split
  next => omega
  next => exact length_written_copy_le size c piece _

theorem length_foldl_copyPiece {size : Nat} (pieces : List (List UInt8)) {c : BufferCursor}
    (h : size ≤ c.bytes.length) :
    (pieces.foldl (copyPiece size) c).bytes.length = c.bytes.length ∧
      (pieces.foldl (copyPiece size) c).written.length ≤
        c.written.length + pieces.flatten.length := by
  induction pieces generalizing c with
  | nil => simp
  | cons piece pieces ih =>
      have hlength := length_copyPiece h piece
      have hwritten := length_written_copyPiece_le size c piece
      obtain ⟨hrest, hrestWritten⟩ := ih (c := c.copyPiece size piece) (by omega)
      rw [List.foldl_cons, List.flatten_cons, List.length_append]
      exact ⟨hrest.trans hlength, by omega⟩

end BufferCursor
