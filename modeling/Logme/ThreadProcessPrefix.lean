import Logme.ContextApply
import Logme.Library.BoundedStores
import Logme.Library.BufferCursor
import Logme.XmlOutput

/-!
# The buffer of the process and thread prefix

`InitThreadProcessID` prints the parts of the prefix one behind the other
into the 65 bytes of `ThreadProcessID` and counts what remains for them.  The
place and the count always add up to the place of the `]`, so that nothing is
stored behind the array, and without zeros in the names the array holds the
text of `threadProcessText`.
-/

namespace Logme

open BoundedStores

/-- `TID_BUFFER_SIZE + PID_BUFFER_SIZE + 1`. -/
def threadProcessIDSize : Nat := 32 + 32 + 1

/-- `ThreadProcessID` with `p` and `remaining`. -/
structure PrefixCursor where
  cells : List UInt8
  p : Nat
  remaining : Nat

namespace PrefixCursor

/-- The bytes are stored at `p`, which moves by `n`; `spent` fewer remain. -/
def put (c : PrefixCursor) (bytes : List UInt8) (n spent : Nat) : Option PrefixCursor := do
  let cells ← store threadProcessIDSize c.cells c.p bytes
  let remaining ← back c.remaining spent
  some ⟨cells, c.p + n, remaining⟩

/-- `sprintf` with the process. -/
def putProcess (c : PrefixCursor) (flags : OutputFlags) (process : UInt64) :
    Option PrefixCursor :=
  if flags.processID then
    let digits := hexUpper process.toNat
    c.put (digits ++ [0]) digits.length digits.length
  else some c

/-- The previous name of the thread.  `strcpy` stops at a zero inside the
name, `p` does not. -/
def putPrevious (c : PrefixCursor) (t : Name) : Option PrefixCursor :=
  if c.remaining ≤ t.length then c.put (t.take c.remaining ++ [0]) c.remaining c.remaining
  else c.put (BufferCursor.cString t ++ [0]) t.length t.length

def putArrow (c : PrefixCursor) : Option PrefixCursor :=
  if 4 ≤ c.remaining then c.put (ascii " -> " ++ [0]) 4 4 else some c

def putTransition (c : PrefixCursor) (trans : Option Name) : Option PrefixCursor :=
  match trans with
  | none => some c
  | some t => do
      let c ← c.putPrevious t
      c.putArrow

/-- The name of the thread or, without one, `snprintf` with its number. -/
def putName (c : PrefixCursor) (name : Option Name) (thread : UInt64) :
    Option PrefixCursor :=
  match name with
  | some name =>
      let name := BufferCursor.cString name
      if c.remaining < name.length then
        c.put (name.take c.remaining ++ [0]) c.remaining 0
      else c.put (name ++ [0]) name.length 0
  | none =>
      let digits := hexUpper thread.toNat
      if 0 < c.remaining then
        c.put (BufferCursor.bounded c.remaining digits)
          (if c.remaining ≤ digits.length then c.remaining - 1 else digits.length) 0
      else some c

def putThread (c : PrefixCursor) (ch : OutputChannel) (flags : OutputFlags)
    (thread : UInt64) : Option PrefixCursor :=
  if flags.threadID then do
    let c ← c.put [0x3A] 1 1
    let label := ch.threadLabel flags
    let c ← c.putTransition label.2
    c.putName label.1 thread
  else some c

/-- `]`, a space and the terminating zero. -/
def close (c : PrefixCursor) : Option PrefixCursor := do
  let c ← c.put [0x5D] 1 0
  let c ← c.put [0x20] 1 0
  c.put [0] 0 0

end PrefixCursor

/-- `ThreadProcessID` after `InitThreadProcessID`; `none` if it stored
anything elsewhere. -/
def InitThreadProcessID (cells : List UInt8) (process thread : UInt64) (ch : OutputChannel)
    (flags : OutputFlags) : Option (List UInt8) :=
  if flags.printsID ∧ cells.head? = some 0 then do
    let c : PrefixCursor := ⟨cells, 0, threadProcessIDSize - 4⟩
    let c ← c.put [0x5B] 1 0
    let c ← c.putProcess flags process
    let c ← c.putThread ch flags thread
    let c ← c.close
    some c.cells
  else if !flags.printsID then store threadProcessIDSize cells 0 [0]
  else some cells

/-! ## One part behind the other -/

namespace PrefixCursor

/-- The text stands in front of `p`. -/
structure Holds (c : PrefixCursor) (text : List UInt8) : Prop where
  length_cells : c.cells.length = threadProcessIDSize
  p_eq : c.p = text.length
  text_prefix : text <+: c.cells

/-- What remains ends three bytes before the array. -/
def Room (c : PrefixCursor) : Prop := c.p + c.remaining + 3 = threadProcessIDSize

theorem put_eq {c : PrefixCursor} {text bytes : List UInt8} (hholds : c.Holds text)
    (hbytes : c.p + bytes.length ≤ threadProcessIDSize) {spent : Nat}
    (hspent : spent ≤ c.remaining) (n : Nat) :
    c.put bytes n spent =
      some ⟨text ++ bytes ++ c.cells.drop (c.p + bytes.length), c.p + n,
        c.remaining - spent⟩ := by
  have htake : c.cells.take c.p = text := by
    rw [hholds.p_eq]
    exact (List.prefix_iff_eq_take.mp hholds.text_prefix).symm
  simp only [put, store, if_pos hbytes, htake, back, if_pos hspent, Option.bind_eq_bind,
    Option.bind_some]

theorem holds_put {c : PrefixCursor} {text bytes : List UInt8} (hholds : c.Holds text)
    (hbytes : c.p + bytes.length ≤ threadProcessIDSize) {n : Nat}
    (hn : c.p + n ≤ threadProcessIDSize) (remaining : Nat) :
    ∃ piece, piece.length = n ∧ (n ≤ bytes.length → piece = bytes.take n) ∧
      Holds ⟨text ++ bytes ++ c.cells.drop (c.p + bytes.length), c.p + n, remaining⟩
        (text ++ piece) := by
  have hcells := hholds.length_cells
  have hp := hholds.p_eq
  have hlength : (c.cells.drop (c.p + bytes.length)).length =
      threadProcessIDSize - (c.p + bytes.length) := by
    rw [List.length_drop, hcells]
  refine ⟨(bytes ++ c.cells.drop (c.p + bytes.length)).take n, ?_, ?_, ?_, ?_, ?_⟩
  · rw [List.length_take, List.length_append]
    omega
  · exact fun hle => List.take_append_of_le_length hle
  · simp only [List.length_append]
    omega
  · simp only [List.length_append, List.length_take]
    omega
  · rw [List.append_assoc]
    exact (List.prefix_append_right_inj text).mpr (List.take_prefix n _)

/-- A part that fits what remains: the text and the room behind it. -/
theorem exists_put {c : PrefixCursor} {text bytes : List UInt8} (hholds : c.Holds text)
    (hroom : c.Room) {n : Nat} (hbytes : bytes.length ≤ c.remaining + 1) (hn : n ≤ c.remaining) :
    ∃ c' piece, c.put bytes n n = some c' ∧ c'.Holds (text ++ piece) ∧ c'.Room ∧
      c'.remaining = c.remaining - n ∧ piece.length = n ∧
        (n ≤ bytes.length → piece = bytes.take n) := by
  unfold Room at hroom
  obtain ⟨piece, hlength, hpiece, hholds'⟩ :=
    holds_put hholds (by omega : c.p + bytes.length ≤ threadProcessIDSize)
      (by omega : c.p + n ≤ threadProcessIDSize) (c.remaining - n)
  refine ⟨_, piece, put_eq hholds (by omega) hn n, hholds', ?_, rfl, hlength, hpiece⟩
  unfold Room
  simp only
  omega

/-- A terminated text behind which the count is not used any more. -/
theorem exists_put_text {c : PrefixCursor} {text piece : List UInt8} (hholds : c.Holds text)
    (hroom : c.Room) (hpiece : piece.length ≤ c.remaining) :
    ∃ c', c.put (piece ++ [0]) piece.length 0 = some c' ∧ c'.Holds (text ++ piece) ∧
      c'.p + 3 ≤ threadProcessIDSize := by
  unfold Room at hroom
  have hbytes : c.p + (piece ++ [0]).length ≤ threadProcessIDSize := by
    rw [List.length_append, List.length_singleton]
    omega
  obtain ⟨kept, -, hkept, hholds'⟩ :=
    holds_put hholds hbytes (by omega : c.p + piece.length ≤ threadProcessIDSize)
      (c.remaining - 0)
  rw [hkept (by rw [List.length_append]; omega), List.take_left] at hholds'
  refine ⟨_, put_eq hholds hbytes (Nat.zero_le _) piece.length, hholds', ?_⟩
  simp only
  omega

/-! ## The parts of the prefix -/

theorem length_hexUpper_le (n : UInt64) : (hexUpper n.toNat).length ≤ 16 := by
  rw [hexUpper, List.length_map]
  exact (Nat.length_toDigits_le_iff (by decide) (by decide)).mpr n.toNat_lt

theorem zero_notMem_hexUpper (n : Nat) : 0 ∉ hexUpper n := by
  have hdigit : ∀ d < 16, UInt8.ofNat d.digitChar.toUpper.toNat ≠ 0 := by decide
  induction n using Nat.strongRecOn with
  | _ n ih =>
      by_cases hn : n < 16
      · rw [hexUpper, Nat.toDigits_of_lt_base hn, List.map_singleton, List.mem_singleton]
        exact fun h => hdigit n hn h.symm
      · rw [hexUpper, Nat.toDigits_of_base_le (by decide) (by omega), List.map_append,
          List.mem_append, not_or, List.map_singleton, List.mem_singleton]
        exact ⟨ih (n / 16) (by omega), fun h => hdigit (n % 16) (Nat.mod_lt n (by decide)) h.symm⟩

theorem exists_putProcess {c : PrefixCursor} {text : List UInt8} (hholds : c.Holds text)
    (hroom : c.Room) (hremaining : 16 ≤ c.remaining) (flags : OutputFlags)
    (process : UInt64) :
    ∃ c', c.putProcess flags process = some c' ∧ c'.Room ∧
      c'.Holds (text ++ if flags.processID then hexUpper process.toNat else []) ∧
      c'.remaining =
        c.remaining - (if flags.processID then hexUpper process.toNat else []).length := by
  unfold putProcess
  by_cases hprint : flags.processID = true
  · have hlength := length_hexUpper_le process
    have hbytes : (hexUpper process.toNat ++ [0]).length ≤ c.remaining + 1 := by
      rw [List.length_append, List.length_singleton]
      omega
    obtain ⟨c', piece, hput, hholds', hroom', hremaining', -, hpiece⟩ :=
      exists_put hholds hroom hbytes
        (by omega : (hexUpper process.toNat).length ≤ c.remaining)
    rw [hpiece (by simp), List.take_left] at hholds'
    simp only [if_pos hprint]
    exact ⟨c', hput, hroom', hholds', hremaining'⟩
  · simp only [if_neg hprint, List.append_nil, List.length_nil, Nat.sub_zero]
    exact ⟨c, rfl, hroom, hholds, rfl⟩

theorem exists_putPrevious {c : PrefixCursor} {text : List UInt8} (hholds : c.Holds text)
    (hroom : c.Room) (t : Name) :
    ∃ c' piece, c.putPrevious t = some c' ∧ c'.Holds (text ++ piece) ∧ c'.Room ∧
      c'.remaining = c.remaining - t.length ∧ (0 ∉ t → piece = t.take c.remaining) := by
  unfold putPrevious
  by_cases hlong : c.remaining ≤ t.length
  · have hlength : (t.take c.remaining).length = c.remaining := by
      rw [List.length_take]
      omega
    have hbytes : (t.take c.remaining ++ [0]).length ≤ c.remaining + 1 := by
      rw [List.length_append, hlength, List.length_singleton]
    obtain ⟨c', piece, hput, hholds', hroom', hremaining', -, hpiece⟩ :=
      exists_put hholds hroom hbytes le_rfl
    refine ⟨c', piece, by rw [if_pos hlong, hput], hholds', hroom', by omega, fun _ => ?_⟩
    rw [hpiece (by rw [List.length_append, hlength]; omega)]
    exact List.take_left' hlength
  · have hlength : (BufferCursor.cString t).length ≤ t.length :=
      (List.takeWhile_prefix _).length_le
    have hbytes : (BufferCursor.cString t ++ [0]).length ≤ c.remaining + 1 := by
      rw [List.length_append, List.length_singleton]
      omega
    obtain ⟨c', piece, hput, hholds', hroom', hremaining', -, hpiece⟩ :=
      exists_put hholds hroom hbytes (by omega : t.length ≤ c.remaining)
    refine ⟨c', piece, by rw [if_neg hlong, hput], hholds', hroom', hremaining',
      fun hzero => ?_⟩
    have hwhole : BufferCursor.cString t = t := cString_of_notMem hzero
    rw [hpiece (by rw [hwhole, List.length_append]; omega), hwhole, List.take_left,
      List.take_of_length_le (by omega)]

theorem exists_putArrow {c : PrefixCursor} {text : List UInt8} (hholds : c.Holds text)
    (hroom : c.Room) :
    ∃ c', c.putArrow = some c' ∧
      c'.Holds (text ++ if 4 ≤ c.remaining then ascii " -> " else []) ∧ c'.Room ∧
        c'.remaining = if 4 ≤ c.remaining then c.remaining - 4 else c.remaining := by
  unfold putArrow
  by_cases harrow : 4 ≤ c.remaining
  · have hbytes : (ascii " -> " ++ [0]).length ≤ c.remaining + 1 := Nat.succ_le_succ harrow
    obtain ⟨c', piece, hput, hholds', hroom', hremaining', -, hpiece⟩ :=
      exists_put hholds hroom hbytes harrow
    rw [hpiece (by decide)] at hholds'
    simp only [if_pos harrow]
    exact ⟨c', hput, hholds', hroom', hremaining'⟩
  · simp only [if_neg harrow, List.append_nil]
    exact ⟨c, rfl, hholds, hroom, rfl⟩

/-- The transition is the one of the text where its name has no zero. -/
theorem exists_putTransition {c : PrefixCursor} {text : List UInt8} (hholds : c.Holds text)
    (hroom : c.Room) (trans : Option Name) :
    ∃ c' piece, c.putTransition trans = some c' ∧ c'.Holds (text ++ piece) ∧ c'.Room ∧
      c'.remaining = (transitionText trans c.remaining).2 ∧
        ((∀ t ∈ trans, 0 ∉ t) → piece = (transitionText trans c.remaining).1) := by
  cases trans with
  | none => exact ⟨c, [], rfl, by simpa using hholds, hroom, rfl, fun _ => rfl⟩
  | some t =>
      obtain ⟨c₁, piece, hput₁, hholds₁, hroom₁, hremaining₁, hpiece⟩ :=
        exists_putPrevious hholds hroom t
      obtain ⟨c₂, hput₂, hholds₂, hroom₂, hremaining₂⟩ := exists_putArrow hholds₁ hroom₁
      rw [List.append_assoc] at hholds₂
      refine ⟨c₂, _, ?_, hholds₂, hroom₂, ?_, fun hzero => ?_⟩
      · simp only [putTransition, Option.bind_eq_bind, hput₁, Option.bind_some, hput₂]
      · rw [hremaining₂, transitionText, ← hremaining₁]
        split <;> rfl
      · rw [hpiece (hzero t rfl), transitionText, ← hremaining₁]
        split
        · rfl
        · rw [List.append_nil]

/-- The name that is printed, or the number of the thread. -/
def nameText (name : Option Name) (thread : UInt64) (remaining : Nat) : Name :=
  match name with
  | some name => (BufferCursor.cString name).take remaining
  | none => (hexUpper thread.toNat).take (remaining - 1)

theorem exists_putName {c : PrefixCursor} {text : List UInt8} (hholds : c.Holds text)
    (hroom : c.Room) (name : Option Name) (thread : UInt64) :
    ∃ c', c.putName name thread = some c' ∧ c'.p + 3 ≤ threadProcessIDSize ∧
      c'.Holds (text ++ nameText name thread c.remaining) := by
  unfold putName nameText
  cases name with
  | some name =>
      simp only
      by_cases hlong : c.remaining < (BufferCursor.cString name).length
      · have hlength : ((BufferCursor.cString name).take c.remaining).length = c.remaining := by
          rw [List.length_take]
          omega
        obtain ⟨c', hput, hholds', hp⟩ := exists_put_text hholds hroom (le_of_eq hlength)
        rw [hlength] at hput
        exact ⟨c', by rw [if_pos hlong, hput], hp, hholds'⟩
      · obtain ⟨c', hput, hholds', hp⟩ := exists_put_text hholds hroom (not_lt.mp hlong)
        rw [List.take_of_length_le (not_lt.mp hlong)]
        exact ⟨c', by rw [if_neg hlong, hput], hp, hholds'⟩
  | none =>
      simp only
      by_cases hremaining : 0 < c.remaining
      · have hlength : ((hexUpper thread.toNat).take (c.remaining - 1)).length =
            if c.remaining ≤ (hexUpper thread.toNat).length then c.remaining - 1
            else (hexUpper thread.toNat).length := by
          rw [List.length_take]
          split <;> omega
        have hle : ((hexUpper thread.toNat).take (c.remaining - 1)).length ≤ c.remaining := by
          rw [List.length_take]
          omega
        obtain ⟨c', hput, hholds', hp⟩ := exists_put_text hholds hroom hle
        rw [if_pos hremaining, BufferCursor.bounded, if_neg (by omega), ← hlength]
        exact ⟨c', hput, hp, hholds'⟩
      · unfold Room at hroom
        have hzero : c.remaining = 0 := by omega
        rw [if_neg hremaining, hzero, List.take_zero, List.append_nil]
        exact ⟨c, rfl, by omega, hholds⟩

theorem exists_putThread {c : PrefixCursor} {text : List UInt8} (hholds : c.Holds text)
    (hroom : c.Room) (hremaining : 0 < c.remaining) (ch : OutputChannel)
    (flags : OutputFlags) (thread : UInt64) :
    ∃ c' piece, c.putThread ch flags thread = some c' ∧ c'.p + 3 ≤ threadProcessIDSize ∧
      c'.Holds (text ++ if flags.threadID then 0x3A :: piece else []) ∧
        ((∀ t ∈ (ch.threadLabel flags).2, 0 ∉ t) →
          piece = (transitionText (ch.threadLabel flags).2 (c.remaining - 1)).1 ++
            nameText (ch.threadLabel flags).1 thread
              (transitionText (ch.threadLabel flags).2 (c.remaining - 1)).2) := by
  unfold putThread
  by_cases hprint : flags.threadID = true
  · have hbytes : [(0x3A : UInt8)].length ≤ c.remaining + 1 := by
      rw [List.length_singleton]
      omega
    obtain ⟨c₁, colon, hput₁, hholds₁, hroom₁, hremaining₁, -, hcolon⟩ :=
      exists_put hholds hroom hbytes (by omega : 1 ≤ c.remaining)
    obtain ⟨c₂, moved, hput₂, hholds₂, hroom₂, hremaining₂, hmoved⟩ :=
      exists_putTransition hholds₁ hroom₁ (ch.threadLabel flags).2
    obtain ⟨c₃, hput₃, hp, hholds₃⟩ :=
      exists_putName hholds₂ hroom₂ (ch.threadLabel flags).1 thread
    rw [hcolon le_rfl, List.append_assoc, List.append_assoc] at hholds₃
    simp only [if_pos hprint, Option.bind_eq_bind, hput₁, Option.bind_some, hput₂]
    refine ⟨c₃, _, hput₃, hp, hholds₃, fun hzero => ?_⟩
    rw [hmoved hzero, hremaining₂, hremaining₁]
    rfl
  · simp only [if_neg hprint, List.append_nil]
    unfold Room at hroom
    exact ⟨c, _, rfl, by omega, hholds, fun _ => rfl⟩

theorem exists_put_byte {c : PrefixCursor} {text : List UInt8} (hholds : c.Holds text)
    (hp : c.p + 1 ≤ threadProcessIDSize) (b : UInt8) :
    ∃ c', c.put [b] 1 0 = some c' ∧ c'.Holds (text ++ [b]) ∧ c'.p = c.p + 1 ∧
      c'.remaining = c.remaining := by
  have hbytes : c.p + [b].length ≤ threadProcessIDSize := by
    rw [List.length_singleton]
    exact hp
  obtain ⟨piece, -, hpiece, hholds'⟩ := holds_put hholds hbytes hp (c.remaining - 0)
  rw [hpiece le_rfl] at hholds'
  exact ⟨_, put_eq hholds hbytes (Nat.zero_le _) 1, hholds', rfl, rfl⟩

/-- The bracket, the space and the zero have the three last places. -/
theorem exists_close {c : PrefixCursor} {text : List UInt8} (hholds : c.Holds text)
    (hp : c.p + 3 ≤ threadProcessIDSize) :
    ∃ c' rest, c.close = some c' ∧ c'.cells = text ++ [0x5D, 0x20] ++ 0 :: rest ∧
      c'.cells.length = threadProcessIDSize := by
  obtain ⟨c₁, hput₁, hholds₁, hp₁, -⟩ := exists_put_byte hholds (by omega) 0x5D
  obtain ⟨c₂, hput₂, hholds₂, hp₂, -⟩ := exists_put_byte hholds₁ (by omega) 0x20
  have hbytes : c₂.p + [(0 : UInt8)].length ≤ threadProcessIDSize := by
    rw [List.length_singleton]
    omega
  have hput₃ := put_eq hholds₂ hbytes (Nat.zero_le _) 0
  obtain ⟨piece, -, -, hholds₃⟩ :=
    holds_put hholds₂ hbytes (by omega : c₂.p + 0 ≤ threadProcessIDSize) (c₂.remaining - 0)
  refine ⟨_, c₂.cells.drop (c₂.p + [(0 : UInt8)].length), ?_, ?_, hholds₃.length_cells⟩
  · simp only [close, Option.bind_eq_bind, hput₁, Option.bind_some, hput₂, hput₃]
  · simp

end PrefixCursor

/-! ## The whole prefix -/

open PrefixCursor

theorem exists_prefix {cells : List UInt8} (hcells : cells.length = threadProcessIDSize)
    (process thread : UInt64) (ch : OutputChannel) {flags : OutputFlags}
    (hprints : flags.printsID) (hempty : cells.head? = some 0) :
    let digits := if flags.processID then hexUpper process.toNat else []
    let label := ch.threadLabel flags
    ∃ cells' piece rest, InitThreadProcessID cells process thread ch flags = some cells' ∧
      cells'.length = threadProcessIDSize ∧
      cells' = [0x5B] ++ digits ++ (if flags.threadID then 0x3A :: piece else []) ++
        [0x5D, 0x20] ++ 0 :: rest ∧
      ((∀ t ∈ label.2, 0 ∉ t) →
        piece = (transitionText label.2 (61 - digits.length - 1)).1 ++
          nameText label.1 thread (transitionText label.2 (61 - digits.length - 1)).2) := by
  intro digits label
  have hstart : Holds ⟨cells, 0, threadProcessIDSize - 4⟩ [] :=
    ⟨hcells, rfl, List.nil_prefix⟩
  have hsize : 0 + 1 ≤ threadProcessIDSize := by decide
  have hprocess : 16 ≤ threadProcessIDSize - 4 := by decide
  obtain ⟨c₁, hput₁, hholds₁, hp₁, hremaining₁⟩ := exists_put_byte hstart hsize 0x5B
  have hroom₁ : c₁.Room := by
    unfold Room
    rw [hp₁, hremaining₁]
    rfl
  obtain ⟨c₂, hput₂, hroom₂, hholds₂, hremaining₂⟩ :=
    exists_putProcess hholds₁ hroom₁ (hremaining₁ ▸ hprocess) flags process
  change c₂.Holds ([] ++ [0x5B] ++ digits) at hholds₂
  change c₂.remaining = c₁.remaining - digits.length at hremaining₂
  have hdigits : digits.length ≤ 16 := by
    dsimp only [digits]
    split
    · exact length_hexUpper_le process
    · exact Nat.zero_le 16
  have hleft : c₂.remaining = 61 - digits.length := by rw [hremaining₂, hremaining₁]; rfl
  obtain ⟨c₃, piece, hput₃, hp₃, hholds₃, hpiece⟩ :=
    exists_putThread hholds₂ hroom₂ (by omega) ch flags thread
  obtain ⟨c₄, rest, hclose, hcells₄, hlength₄⟩ := exists_close hholds₃ hp₃
  refine ⟨c₄.cells, piece, rest, ?_, hlength₄, hcells₄, ?_⟩
  · rw [InitThreadProcessID, if_pos ⟨hprints, hempty⟩]
    simp only [Option.bind_eq_bind, hput₁, Option.bind_some, hput₂, hput₃, hclose]
  · rw [← hleft]
    exact hpiece

/-- The prefix stays in its array, which is terminated if it was. -/
theorem initThreadProcessID_fits {cells : List UInt8} (hcells : cells.length = 65)
    (process thread : UInt64) (ch : OutputChannel) (flags : OutputFlags) :
    ∃ cells', InitThreadProcessID cells process thread ch flags = some cells' ∧
      cells'.length = 65 ∧ (0 ∈ cells → 0 ∈ cells') := by
  by_cases hprints : flags.printsID ∧ cells.head? = some 0
  · obtain ⟨cells', piece, rest, hinit, hlength, htext, -⟩ :=
      exists_prefix hcells process thread ch hprints.1 hprints.2
    refine ⟨cells', hinit, hlength, fun _ => ?_⟩
    rw [htext]
    simp
  · rw [InitThreadProcessID, if_neg hprints]
    by_cases hnone : flags.printsID = true
    · rw [hnone]
      exact ⟨cells, rfl, hcells, id⟩
    · have hstore : store threadProcessIDSize cells 0 [0] = some (0 :: cells.drop 1) :=
        if_pos (by decide)
      rw [if_pos (by simpa using hnone), hstore]
      refine ⟨_, rfl, ?_, fun _ => List.mem_cons_self⟩
      rw [List.length_cons, List.length_drop, hcells]

theorem initThreadProcessID_fits_long_name :
    (List.replicate 65 (0 : UInt8)).length = 65 ∧
      ∃ cells', InitThreadProcessID (List.replicate 65 0) 0xFFFFFFFFFFFFFFFF 7
          { threadName := some ⟨some (List.replicate 100 0x61), some (List.replicate 70 0x62)⟩ }
          ⟨0xFFFFFFFF⟩ = some cells' ∧
        cells'.length = 65 ∧ (0 ∈ List.replicate 65 (0 : UInt8) → 0 ∈ cells') :=
  ⟨List.length_replicate, initThreadProcessID_fits List.length_replicate _ _ _ _⟩

/-! ## The text in the array -/

theorem zero_notMem_transitionText {trans : Option Name} (htrans : ∀ t ∈ trans, 0 ∉ t)
    (remaining : Nat) : 0 ∉ (transitionText trans remaining).1 := by
  cases trans with
  | none => exact List.not_mem_nil
  | some t =>
      have htake : 0 ∉ t.take remaining := fun h => htrans t rfl (List.mem_of_mem_take h)
      have harrow : 0 ∉ ascii " -> " := by decide
      rw [transitionText]
      split
      · rw [List.mem_append, not_or]
        exact ⟨htake, harrow⟩
      · exact htake

theorem zero_notMem_nameText (name : Option Name) (thread : UInt64) (remaining : Nat) :
    0 ∉ nameText name thread remaining := by
  cases name with
  | some name =>
      intro hzero
      have hmem := List.mem_of_mem_take hzero
      have hne := List.mem_takeWhile_imp (p := fun c => c != (0 : UInt8)) hmem
      simp at hne
  | none => exact fun h => zero_notMem_hexUpper _ (List.mem_of_mem_take h)

theorem threadText_eq {m : Message} {label : Option Name × Option Name} {thread : UInt64}
    (hthread : m.thread = thread.toNat) (hname : ∀ n ∈ label.1, 0 ∉ n) (remaining : Nat) :
    m.threadText label remaining =
      (transitionText label.2 remaining).1 ++
        nameText label.1 thread (transitionText label.2 remaining).2 := by
  obtain ⟨name, trans⟩ := label
  cases name with
  | some name =>
      rw [Message.threadText, nameText, cString_of_notMem (hname name rfl)]
  | none =>
      rw [Message.threadText, nameText, hthread]

theorem zero_notMem_threadProcessText {m : Message} {thread : UInt64}
    (hthread : m.thread = thread.toNat)
    {ch : OutputChannel} {flags : OutputFlags}
    (hname : ∀ n ∈ (ch.threadLabel flags).1, 0 ∉ n)
    (htrans : ∀ t ∈ (ch.threadLabel flags).2, 0 ∉ t) :
    0 ∉ m.threadProcessText ch flags := by
  have hdigits : 0 ∉ if flags.processID then hexUpper m.process else [] := by
    split
    · exact zero_notMem_hexUpper _
    · exact List.not_mem_nil
  have hthreadText : ∀ remaining, 0 ∉ m.threadText (ch.threadLabel flags) remaining := by
    intro remaining
    rw [threadText_eq hthread hname, List.mem_append, not_or]
    exact ⟨zero_notMem_transitionText htrans _, zero_notMem_nameText _ _ _⟩
  rw [Message.threadProcessText]
  simp only [List.mem_append, not_or]
  refine ⟨⟨⟨by decide, hdigits⟩, ?_⟩, by decide⟩
  split
  · rw [List.mem_cons, not_or]
    exact ⟨by decide, hthreadText _⟩
  · exact List.not_mem_nil

/-- Without zeros in the names the array holds the text of the prefix. -/
theorem initThreadProcessID_text {cells : List UInt8} (hcells : cells.length = 65)
    {m : Message} {process thread : UInt64} (hprocess : m.process = process.toNat)
    (hthread : m.thread = thread.toNat) {ch : OutputChannel} {flags : OutputFlags}
    (hprints : flags.printsID) (hempty : cells.head? = some 0)
    (hname : ∀ n ∈ (ch.threadLabel flags).1, 0 ∉ n)
    (htrans : ∀ t ∈ (ch.threadLabel flags).2, 0 ∉ t) :
    ∃ cells', InitThreadProcessID cells process thread ch flags = some cells' ∧
      BufferCursor.cString cells' = m.threadProcessText ch flags := by
  obtain ⟨cells', piece, rest, hinit, -, htext, hpiece⟩ :=
    exists_prefix hcells process thread ch hprints hempty
  have hshape : cells' = m.threadProcessText ch flags ++ 0 :: rest := by
    rw [htext, hpiece htrans, Message.threadProcessText, threadText_eq hthread hname, hprocess]
  refine ⟨cells', hinit, ?_⟩
  rw [hshape, BufferCursor.cString_append_of_notMem]
  · simp [BufferCursor.cString]
  · exact zero_notMem_threadProcessText hthread hname htrans

theorem initThreadProcessID_text_renamed :
    let ch : OutputChannel := { threadName := some ⟨some (ascii "old"), some (ascii "new")⟩ }
    ∃ cells', InitThreadProcessID (List.replicate 65 0) 1 2 ch ⟨0xFFFFFFFF⟩ = some cells' ∧
      BufferCursor.cString cells' = shortMessage.threadProcessText ch ⟨0xFFFFFFFF⟩ :=
  initThreadProcessID_text (by decide) rfl rfl (by decide) rfl (by decide) (by decide)

end Logme
