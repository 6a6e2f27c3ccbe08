import Mathlib.Data.List.Basic

/-!
# Fast formatting of simple formats

`BuildFastFormat` scans a format once and keeps where its one or two
conversions stand; `ExecuteFastFormat` puts the text together from the format
in memory and the arguments.  `vsnprintf` is modelled for the conversions
that the fast path knows, with everything from another conversion on as a
parameter, and truncates the text to the buffer.

Bytes are characters.  The positions in a format are below the scan limit,
so the casts to `uint16_t` change nothing.
-/

namespace Logme

def nul : Char := '\x00'

/-- The text in front of a terminating zero byte. -/
structure CString where
  chars : List Char
  noNul : nul ∉ chars

/-- A format in memory; `beyond` are the bytes that an access behind the
terminating zero byte would read. -/
structure FormatString extends CString where
  address : Nat
  beyond : Nat → Char

/-- What `va_arg` yields for one argument in each of the types. -/
structure VaArg where
  string : Option CString
  word : BitVec 32
  pointer : Nat

inductive FastFormatKind where
  | none
  | literal
  | formatS
  | formatD
  | formatI
  | formatU
  | formatP
  deriving DecidableEq

structure FastFormatEntry where
  format : Nat
  kind1 : FastFormatKind
  kind2 : FastFormatKind
  part0Len : Nat
  part1Pos : Nat
  part1Len : Nat
  part2Pos : Nat
  part2Len : Nat
  bufferSizeHint : Nat
  specCount : Nat
  deriving DecidableEq

def fastFormatScanLimit : Nat := 48

namespace FormatString

def read (format : FormatString) (i : Nat) : Char :=
  ((format.chars ++ [nul])[i]?).getD (format.beyond i)

/-- The bytes at a position of the format. -/
def bytes (format : FormatString) (pos len : Nat) : List Char :=
  (List.range len).map fun i => format.read (pos + i)

end FormatString

/-! ## Building an entry -/

namespace FastFormatEntry

/-- A value-initialised entry. -/
def zero : FastFormatEntry := ⟨0, .none, .none, 0, 0, 0, 0, 0, 0, 0⟩

def reject (entry : FastFormatEntry) : FastFormatEntry :=
  { entry with specCount := 0, kind1 := .none, kind2 := .none }

end FastFormatEntry

def specKind (spec : Char) : Option FastFormatKind :=
  if spec = 's' then some .formatS
  else if spec = 'd' then some .formatD
  else if spec = 'i' then some .formatI
  else if spec = 'u' then some .formatU
  else if spec = 'p' then some .formatP
  else none

/-- The loop of `BuildFastFormat` from position `i` on; an error is an entry
that is returned at once. -/
def scanFormat : List Char → Nat → FastFormatEntry →
    Except FastFormatEntry FastFormatEntry
  | [], _, entry => .ok entry
  | ch :: rest, i, entry =>
      if ch ≠ '%' then scanFormat rest (i + 1) entry
      else
        match rest with
        | [] => .error entry.reject
        | spec :: rest =>
            match specKind spec with
            | none => .error entry.reject
            | some kind =>
                if entry.specCount = 0 then
                  scanFormat rest (i + 2)
                    { entry with
                      kind1 := kind
                      part0Len := i
                      part1Pos := i + 2
                      specCount := 1 }
                else if entry.specCount = 1 then
                  scanFormat rest (i + 2)
                    { entry with
                      kind2 := kind
                      part1Len := i - entry.part1Pos
                      part2Pos := i + 2
                      specCount := 2 }
                else .error entry.reject

def alignBufferSizeHint (size : Nat) : Nat :=
  min ((size + 31) / 32 * 32) 0xFFFF

def getMaxArgTextSize : FastFormatKind → Nat
  | .formatD => 11
  | .formatI => 11
  | .formatU => 10
  | .formatP => 18
  | _ => 0

/-- What `BuildFastFormat` does after its loop. -/
def finishFormat (formatLen : Nat) (entry : FastFormatEntry) :
    FastFormatEntry :=
  if entry.specCount = 0 then
    { entry with
      kind1 := .literal
      part0Len := formatLen
      bufferSizeHint := alignBufferSizeHint (formatLen + 2) }
  else
    let entry :=
      if entry.specCount = 1 then
        { entry with part1Len := formatLen - entry.part1Pos }
      else { entry with part2Len := formatLen - entry.part2Pos }
    let maxArg1 := getMaxArgTextSize entry.kind1
    let maxArg2 :=
      if entry.specCount = 2 then getMaxArgTextSize entry.kind2 else 0
    if maxArg1 > 0 ∧ (entry.specCount < 2 ∨ maxArg2 > 0) then
      { entry with
        bufferSizeHint := alignBufferSizeHint
          (entry.part0Len + entry.part1Len + entry.part2Len + maxArg1 +
            maxArg2 + 2) }
    else entry

def buildFastFormat (format : Nat) (text : List Char) : FastFormatEntry :=
  let entry := { FastFormatEntry.zero with format := format }
  if format = 0 then entry
  else if text.length ≥ fastFormatScanLimit then entry
  else
    match scanFormat text 0 entry with
    | .error entry => entry
    | .ok entry => finishFormat text.length entry

/-! ## Executing an entry -/

/-- The bytes written in front of `dst`, and `left`. -/
structure FormatOutput where
  dst : List Char
  left : Nat

def copyBounded (o : FormatOutput) (src : List Char) : FormatOutput :=
  if o.left ≤ 1 ∨ src.length = 0 then o
  else
    let n := if src.length ≥ o.left then o.left - 1 else src.length
    ⟨o.dst ++ src.take n, o.left - n⟩

def decimal (value : Int) : List Char :=
  if value < 0 then '-' :: Nat.toDigits 10 value.natAbs
  else Nat.toDigits 10 value.natAbs

/-- `text` or, for a null pointer, what the C library prints. -/
def stringArg (arg : VaArg) : List Char :=
  match arg.string with
  | some text => text.chars
  | none => ['(', 'n', 'u', 'l', 'l', ')']

def appendInt (o : FormatOutput) (value : Int) : FormatOutput :=
  if o.left ≤ 1 then o else copyBounded o (decimal value)

def appendArg (kind : FastFormatKind) (o : FormatOutput) (arg : VaArg) :
    Option FormatOutput :=
  match kind with
  | .formatS => some (copyBounded o ((stringArg arg).take (o.left - 1)))
  | .formatD => some (appendInt o arg.word.toInt)
  | .formatI => some (appendInt o arg.word.toInt)
  | .formatU => some (copyBounded o (decimal arg.word.toNat))
  | .formatP =>
      some (copyBounded o ('0' :: 'x' :: Nat.toDigits 16 arg.pointer))
  | .none => none
  | .literal => none

/-- The buffer with its terminating zero byte, and `outLen`. -/
structure Formatted where
  buffer : List Char
  outLen : Nat
  deriving DecidableEq

/-- The text in a buffer, up to the first zero byte. -/
def textOf (buffer : List Char) : List Char := buffer.takeWhile (· ≠ nul)

def FormatOutput.finish (o : FormatOutput) : Formatted :=
  ⟨o.dst ++ [nul], o.dst.length⟩

/-- `format` is what is in memory at `entry.Format`. -/
def executeFastFormat (entry : FastFormatEntry) (format : FormatString)
    (bufferSize : Nat) (args : Nat → VaArg) : Option Formatted :=
  let o : FormatOutput := ⟨[], bufferSize⟩
  if entry.kind1 = .none then none
  else if entry.kind1 = .literal then
    some (copyBounded o (format.bytes 0 entry.part0Len)).finish
  else
    match appendArg entry.kind1
        (copyBounded o (format.bytes 0 entry.part0Len)) (args 0) with
    | none => none
    | some o =>
        let o := copyBounded o (format.bytes entry.part1Pos entry.part1Len)
        if entry.specCount = 1 then some o.finish
        else if entry.specCount ≠ 2 then none
        else
          match appendArg entry.kind2 o (args 1) with
          | none => none
          | some o =>
              some (copyBounded o
                (format.bytes entry.part2Pos entry.part2Len)).finish

/-! ## `vsnprintf` -/

/-- What a conversion makes of its argument. -/
def conversion (spec : Char) (arg : VaArg) : Option (List Char) :=
  if spec = 's' then some (stringArg arg)
  else if spec = 'd' ∨ spec = 'i' then some (decimal arg.word.toInt)
  else if spec = 'u' then some (decimal arg.word.toNat)
  else none

/-- The text of a format; `other` stands for what comes from a different
conversion on. -/
def printf (other : List Char → (Nat → VaArg) → List Char) :
    List Char → (Nat → VaArg) → List Char
  | [], _ => []
  | ch :: rest, args =>
      if ch ≠ '%' then ch :: printf other rest args
      else
        match rest with
        | [] => other [] args
        | spec :: rest =>
            match conversion spec (args 0) with
            | some text => text ++ printf other rest fun k => args (k + 1)
            | none => other (spec :: rest) args

/-- The text that `vsnprintf` leaves in a buffer of the given size. -/
def vsnprintf (other : List Char → (Nat → VaArg) → List Char)
    (bufferSize : Nat) (format : List Char) (args : Nat → VaArg) : List Char :=
  (printf other format args).take (bufferSize - 1)

/-- The format has a conversion `%p`. -/
def usesPointer : List Char → Bool
  | [] => false
  | ch :: rest =>
      if ch ≠ '%' then usesPointer rest
      else
        match rest with
        | [] => false
        | spec :: rest => decide (spec = 'p') || usesPointer rest

/-! ## What an entry says about its format -/

theorem exists_first_percent (text : List Char) :
    '%' ∉ text ∨ ∃ a rest, text = a ++ '%' :: rest ∧ '%' ∉ a := by
  by_cases hmem : '%' ∈ text
  · exact .inr (List.eq_append_cons_of_mem hmem)
  · exact .inl hmem

theorem scanFormat_cons {ch : Char} (hch : ch ≠ '%') (rest : List Char)
    (i : Nat) (entry : FastFormatEntry) :
    scanFormat (ch :: rest) i entry = scanFormat rest (i + 1) entry := by
  rw [scanFormat.eq_def]
  simp only [if_pos hch]

theorem scanFormat_append {a : List Char} (ha : '%' ∉ a) (rest : List Char)
    (i : Nat) (entry : FastFormatEntry) :
    scanFormat (a ++ rest) i entry = scanFormat rest (i + a.length) entry := by
  induction a generalizing i with
  | nil => rfl
  | cons ch a ih =>
      simp only [List.mem_cons, not_or] at ha
      rw [List.cons_append, scanFormat_cons (Ne.symm ha.1), ih ha.2,
        List.length_cons, Nat.add_assoc, Nat.add_comm 1]

theorem scanFormat_literal {a : List Char} (ha : '%' ∉ a) (i : Nat)
    (entry : FastFormatEntry) : scanFormat a i entry = .ok entry := by
  have happend := scanFormat_append ha [] i entry
  rwa [List.append_nil] at happend

/-- The entry that the scan goes on with after a conversion. -/
def FastFormatEntry.addSpec (entry : FastFormatEntry) (kind : FastFormatKind)
    (i : Nat) : FastFormatEntry :=
  if entry.specCount = 0 then
    { entry with
      kind1 := kind
      part0Len := i
      part1Pos := i + 2
      specCount := 1 }
  else
    { entry with
      kind2 := kind
      part1Len := i - entry.part1Pos
      part2Pos := i + 2
      specCount := 2 }

theorem scanFormat_percent {rest : List Char} {i : Nat}
    {entry result : FastFormatEntry}
    (hscan : scanFormat ('%' :: rest) i entry = .ok result) :
    entry.specCount < 2 ∧ ∃ spec kind text, rest = spec :: text ∧
      specKind spec = some kind ∧
      scanFormat text (i + 2) (entry.addSpec kind i) = .ok result := by
  rw [scanFormat.eq_def] at hscan
  simp only [ne_eq, not_true_eq_false, if_false] at hscan
  cases rest with
  | nil => simp at hscan
  | cons spec text =>
      simp only at hscan
      cases hkind : specKind spec with
      | none => simp [hkind] at hscan
      | some kind =>
          simp only [hkind] at hscan
          split_ifs at hscan with hzero hone
          · exact ⟨by omega, spec, kind, text, rfl, hkind,
              by rwa [FastFormatEntry.addSpec, if_pos hzero]⟩
          · exact ⟨by omega, spec, kind, text, rfl, hkind,
              by rwa [FastFormatEntry.addSpec, if_neg hzero]⟩

theorem scanFormat_error {text : List Char} {i : Nat}
    {entry result : FastFormatEntry}
    (hscan : scanFormat text i entry = .error result) :
    result.kind1 = .none := by
  fun_induction scanFormat text i entry with
  | case1 => simp at hscan
  | case2 _ _ _ _ _ ih => exact ih hscan
  | case3 | case4 | case7 =>
      simp only [Except.error.injEq] at hscan
      exact hscan ▸ rfl
  | case5 _ _ _ _ _ _ _ _ _ ih => exact ih hscan
  | case6 _ _ _ _ _ _ _ _ _ _ ih => exact ih hscan

/-- Where the conversions of a format stand. -/
inductive Layout : List Char → FastFormatEntry → Prop
  | literal {a : List Char} {entry : FastFormatEntry} (ha : '%' ∉ a)
      (hkind : entry.kind1 = .literal) (hlen : entry.part0Len = a.length) :
      Layout a entry
  | one {a b : List Char} {spec : Char} {entry : FastFormatEntry}
      (ha : '%' ∉ a) (hb : '%' ∉ b) (hkind : specKind spec = some entry.kind1)
      (hcount : entry.specCount = 1) (h0 : entry.part0Len = a.length)
      (h1 : entry.part1Pos = a.length + 2) (hl1 : entry.part1Len = b.length) :
      Layout (a ++ '%' :: spec :: b) entry
  | two {a b c : List Char} {spec spec' : Char} {entry : FastFormatEntry}
      (ha : '%' ∉ a) (hb : '%' ∉ b) (hc : '%' ∉ c)
      (hkind : specKind spec = some entry.kind1)
      (hkind' : specKind spec' = some entry.kind2)
      (hcount : entry.specCount = 2) (h0 : entry.part0Len = a.length)
      (h1 : entry.part1Pos = a.length + 2) (hl1 : entry.part1Len = b.length)
      (h2 : entry.part2Pos = a.length + 2 + b.length + 2)
      (hl2 : entry.part2Len = c.length) :
      Layout (a ++ '%' :: spec :: (b ++ '%' :: spec' :: c)) entry

theorem finishFormat_one (entry : FastFormatEntry) (formatLen : Nat)
    (hcount : entry.specCount = 1) :
    ∃ hint, finishFormat formatLen entry =
      { entry with
        part1Len := formatLen - entry.part1Pos
        bufferSizeHint := hint } := by
  unfold finishFormat
  rw [if_neg (by omega), if_pos hcount]
  dsimp only
  split_ifs <;> exact ⟨_, rfl⟩

theorem finishFormat_two (entry : FastFormatEntry) (formatLen : Nat)
    (hcount : entry.specCount = 2) :
    ∃ hint, finishFormat formatLen entry =
      { entry with
        part2Len := formatLen - entry.part2Pos
        bufferSizeHint := hint } := by
  have hone : ¬ entry.specCount = 1 := by omega
  unfold finishFormat
  rw [if_neg (by omega)]
  simp only [if_neg hone]
  split_ifs <;> exact ⟨_, rfl⟩

theorem layout_finish {text : List Char} {entry result : FastFormatEntry}
    (hzero : entry.specCount = 0)
    (hscan : scanFormat text 0 entry = .ok result) :
    Layout text (finishFormat text.length result) := by
  rcases exists_first_percent text with ha | ⟨a, rest, rfl, ha⟩
  · rw [scanFormat_literal ha, Except.ok.injEq] at hscan
    subst result
    rw [finishFormat, if_pos hzero]
    exact .literal ha rfl rfl
  · rw [scanFormat_append ha, Nat.zero_add] at hscan
    rcases scanFormat_percent hscan with
      ⟨_, spec, kind, rest, rfl, hkind, hscan⟩
    rw [FastFormatEntry.addSpec, if_pos hzero] at hscan
    rcases exists_first_percent rest with hb | ⟨b, rest, rfl, hb⟩
    · rw [scanFormat_literal hb, Except.ok.injEq] at hscan
      subst result
      obtain ⟨hint, hfinish⟩ := finishFormat_one
        { entry with
          kind1 := kind
          part0Len := a.length
          part1Pos := a.length + 2
          specCount := 1 } (a ++ '%' :: spec :: rest).length rfl
      rw [hfinish]
      exact .one ha hb hkind rfl rfl rfl
        (by simp only [List.length_append, List.length_cons]; omega)
    · rw [scanFormat_append hb] at hscan
      rcases scanFormat_percent hscan with
        ⟨_, spec', kind', c, rfl, hkind', hscan⟩
      simp only [FastFormatEntry.addSpec, Nat.one_ne_zero, if_false] at hscan
      -- a third conversion is rejected
      rcases exists_first_percent c with hc | ⟨c, rest, rfl, hc⟩
      · rw [scanFormat_literal hc, Except.ok.injEq] at hscan
        subst result
        obtain ⟨hint, hfinish⟩ := finishFormat_two
          { entry with
            kind1 := kind
            kind2 := kind'
            part0Len := a.length
            part1Pos := a.length + 2
            part1Len := a.length + 2 + b.length - (a.length + 2)
            part2Pos := a.length + 2 + b.length + 2
            specCount := 2 }
          (a ++ '%' :: spec :: (b ++ '%' :: spec' :: c)).length rfl
        rw [hfinish]
        exact .two ha hb hc hkind hkind' rfl rfl rfl
          (by simp only []; omega) rfl
          (by simp only [List.length_append, List.length_cons]; omega)
      · rw [scanFormat_append hc] at hscan
        exact absurd (scanFormat_percent hscan).1 (by simp)

/-- An entry rejects the format or describes it. -/
theorem buildFastFormat_cases (format : Nat) (text : List Char) :
    (buildFastFormat format text).kind1 = .none ∨
      Layout text (buildFastFormat format text) := by
  unfold buildFastFormat
  split_ifs
  · exact .inl rfl
  · exact .inl rfl
  · dsimp only
    split
    next entry hscan => exact .inl (scanFormat_error hscan)
    next entry hscan => exact .inr (layout_finish rfl hscan)

/-- The scan leaves alone what it is not there to fill in. -/
theorem scanFormat_kept (text : List Char) (i : Nat)
    (entry : FastFormatEntry) :
    (∀ result, scanFormat text i entry = .ok result →
      result.format = entry.format ∧
        result.bufferSizeHint = entry.bufferSizeHint) ∧
    ∀ result, scanFormat text i entry = .error result →
      result.format = entry.format ∧
        result.bufferSizeHint = entry.bufferSizeHint := by
  fun_induction scanFormat text i entry with
  | case1 => simp
  | case2 _ _ _ _ _ ih => exact ih
  | case3 | case4 | case7 => simp [FastFormatEntry.reject]
  | case5 _ _ _ _ _ _ _ _ _ ih => exact ih
  | case6 _ _ _ _ _ _ _ _ _ _ ih => exact ih

theorem finishFormat_format (formatLen : Nat) (entry : FastFormatEntry) :
    (finishFormat formatLen entry).format = entry.format := by
  simp only [finishFormat]
  split_ifs <;> rfl

theorem buildFastFormat_format (format : Nat) (text : List Char) :
    (buildFastFormat format text).format = format := by
  unfold buildFastFormat
  split_ifs
  · rfl
  · rfl
  · dsimp only
    split
    next entry hscan => exact ((scanFormat_kept _ _ _).2 _ hscan).1
    next entry hscan =>
      rw [finishFormat_format]
      exact ((scanFormat_kept _ _ _).1 _ hscan).1

/-! ## The text that an entry produces -/

/-- The output is the text, truncated to the buffer. -/
structure Wrote (bufferSize : Nat) (text : List Char) (o : FormatOutput) :
    Prop where
  dst : o.dst = text.take (bufferSize - 1)
  left : o.left = bufferSize - o.dst.length

theorem wrote_nil (bufferSize : Nat) : Wrote bufferSize [] ⟨[], bufferSize⟩ :=
  ⟨by simp, by simp⟩

theorem copyBounded_of_room {o : FormatOutput} {src : List Char}
    (hroom : ¬ (o.left ≤ 1 ∨ src.length = 0)) :
    copyBounded o src =
      ⟨o.dst ++ src.take (o.left - 1),
        o.left - min (o.left - 1) src.length⟩ := by
  unfold copyBounded
  rw [if_neg hroom]
  split_ifs with hlong
  · rw [Nat.min_eq_left (by omega)]
  · dsimp only
    rw [Nat.min_eq_right (by omega), List.take_length,
      List.take_of_length_le (by omega)]

theorem copyBounded_of_full {o : FormatOutput} {src : List Char}
    (hfull : o.left ≤ 1 ∨ src.length = 0) : copyBounded o src = o :=
  if_pos hfull

theorem Wrote.copyBounded {bufferSize : Nat} {text : List Char}
    {o : FormatOutput} (hwrote : Wrote bufferSize text o)
    (hsize : 0 < bufferSize) (src : List Char) :
    Wrote bufferSize (text ++ src) (copyBounded o src) := by
  have hdst := hwrote.dst
  have hleft := hwrote.left
  have hlength : o.dst.length = min (bufferSize - 1) text.length := by
    rw [hdst, List.length_take]
  by_cases hfull : o.left ≤ 1 ∨ src.length = 0
  · rw [copyBounded_of_full hfull]
    refine ⟨?_, hleft⟩
    rcases hfull with hfull | hempty
    · rw [hdst, List.take_append_of_le_length (by omega)]
    · rw [List.length_eq_zero_iff.mp hempty, List.append_nil, hdst]
  · rw [copyBounded_of_room hfull]
    have hshort : text.length < bufferSize - 1 := by omega
    have hwhole : o.dst = text := by
      rw [hdst, List.take_of_length_le (by omega)]
    have hroom : o.left - 1 = bufferSize - 1 - text.length := by
      rw [hleft, hwhole]
      omega
    constructor
    · rw [hwhole, hroom, List.take_append,
        List.take_of_length_le (Nat.le_of_lt hshort)]
    · dsimp only
      rw [List.length_append, List.length_take]
      omega

/-- `BoundedStringLen` reads no more of a string than fits. -/
theorem copyBounded_take (o : FormatOutput) (src : List Char) :
    copyBounded o (src.take (o.left - 1)) = copyBounded o src := by
  by_cases hfull : o.left ≤ 1 ∨ src.length = 0
  · rw [copyBounded_of_full hfull, copyBounded_of_full]
    rw [List.length_take]
    omega
  · rw [copyBounded_of_room hfull, copyBounded_of_room, List.take_take,
      Nat.min_self, List.length_take]
    · congr 1
      omega
    · rw [List.length_take]
      omega

theorem Wrote.appendInt {bufferSize : Nat} {text : List Char}
    {o : FormatOutput} (hwrote : Wrote bufferSize text o)
    (hsize : 0 < bufferSize) (value : Int) :
    Wrote bufferSize (text ++ decimal value) (appendInt o value) := by
  have hcopy := hwrote.copyBounded hsize (decimal value)
  unfold Logme.appendInt
  split_ifs with hfull
  · rwa [copyBounded_of_full (.inl hfull)] at hcopy
  · exact hcopy

theorem nul_notMem_toDigits (n : Nat) : nul ∉ Nat.toDigits 10 n := by
  intro hmem
  have hdigit := Nat.isDigit_of_mem_toDigits (by decide) (by decide) hmem
  exact absurd hdigit (by decide)

theorem nul_notMem_decimal (value : Int) : nul ∉ decimal value := by
  unfold decimal
  split_ifs
  · rw [List.mem_cons, not_or]
    exact ⟨by decide, nul_notMem_toDigits _⟩
  · exact nul_notMem_toDigits _

theorem nul_notMem_stringArg (arg : VaArg) : nul ∉ stringArg arg := by
  unfold stringArg
  split
  next text _ => exact text.noNul
  next => decide

/-- A conversion of the fast path appends what `vsnprintf` makes of it. -/
theorem appendArg_conversion {spec : Char} {kind : FastFormatKind}
    (hkind : specKind spec = some kind) (hpointer : spec ≠ 'p')
    (arg : VaArg) :
    ∃ t, conversion spec arg = some t ∧ nul ∉ t ∧
      ∀ bufferSize text o, 0 < bufferSize → Wrote bufferSize text o →
        ∃ o', appendArg kind o arg = some o' ∧
          Wrote bufferSize (text ++ t) o' := by
  unfold specKind at hkind
  split_ifs at hkind with hs hd hi hu <;>
    simp only [Option.some.injEq] at hkind <;> subst kind
  · refine ⟨stringArg arg, by simp [conversion, hs],
      nul_notMem_stringArg arg, fun bufferSize text o hsize hwrote => ?_⟩
    refine ⟨_, rfl, ?_⟩
    rw [copyBounded_take]
    exact hwrote.copyBounded hsize _
  · exact ⟨decimal arg.word.toInt, by simp [conversion, hd],
      nul_notMem_decimal _, fun bufferSize text o hsize hwrote =>
        ⟨_, rfl, hwrote.appendInt hsize _⟩⟩
  · exact ⟨decimal arg.word.toInt, by simp [conversion, hi],
      nul_notMem_decimal _, fun bufferSize text o hsize hwrote =>
        ⟨_, rfl, hwrote.appendInt hsize _⟩⟩
  · exact ⟨decimal arg.word.toNat, by simp [conversion, hu],
      nul_notMem_decimal _, fun bufferSize text o hsize hwrote =>
        ⟨_, rfl, hwrote.copyBounded hsize _⟩⟩

/-! ## The fast path agrees with `vsnprintf` -/

section Printf

variable (other : List Char → (Nat → VaArg) → List Char)

theorem printf_append {a : List Char} (ha : '%' ∉ a) (rest : List Char)
    (args : Nat → VaArg) :
    printf other (a ++ rest) args = a ++ printf other rest args := by
  induction a with
  | nil => rfl
  | cons ch a ih =>
      simp only [List.mem_cons, not_or] at ha
      rw [List.cons_append, printf.eq_def]
      simp only [if_pos (Ne.symm ha.1), ih ha.2, List.cons_append]

theorem printf_literal {a : List Char} (ha : '%' ∉ a) (args : Nat → VaArg) :
    printf other a args = a := by
  have happend := printf_append other ha [] args
  rwa [List.append_nil, printf, List.append_nil] at happend

theorem printf_percent {spec : Char} {t : List Char} (args : Nat → VaArg)
    (hconversion : conversion spec (args 0) = some t) (rest : List Char) :
    printf other ('%' :: spec :: rest) args =
      t ++ printf other rest fun k => args (k + 1) := by
  rw [printf.eq_def]
  simp only [ne_eq, not_true_eq_false, if_false, hconversion]

end Printf

theorem usesPointer_append {a : List Char} (ha : '%' ∉ a)
    (rest : List Char) : usesPointer (a ++ rest) = usesPointer rest := by
  induction a with
  | nil => rfl
  | cons ch a ih =>
      simp only [List.mem_cons, not_or] at ha
      rw [List.cons_append, usesPointer.eq_def]
      simp only [if_pos (Ne.symm ha.1), ih ha.2]

theorem usesPointer_percent {spec : Char} {rest : List Char}
    (hpointer : usesPointer ('%' :: spec :: rest) = false) :
    spec ≠ 'p' ∧ usesPointer rest = false := by
  rw [usesPointer.eq_def] at hpointer
  simpa using hpointer

/-- A part of the format is read from where it stands. -/
theorem FormatString.bytes_eq {format : FormatString}
    (before : List Char) {part : List Char} (after : List Char)
    {pos len : Nat} (hchars : format.chars = before ++ (part ++ after))
    (hpos : pos = before.length) (hlen : len = part.length) :
    format.bytes pos len = part := by
  subst pos len
  apply List.ext_getElem
  · simp [FormatString.bytes]
  · intro i hi hpart
    have hread : (format.chars ++ [nul])[before.length + i]? =
        some part[i] := by
      rw [hchars, List.append_assoc, List.getElem?_append_right (by omega),
        Nat.add_sub_cancel_left, List.append_assoc,
        List.getElem?_append_left hpart, List.getElem?_eq_getElem hpart]
    simp only [FormatString.bytes, FormatString.read, List.getElem_map,
      List.getElem_range, hread, Option.getD_some]

theorem FormatString.bytes_one {format : FormatString} {a b : List Char}
    {spec : Char} {entry : FastFormatEntry}
    (htext : format.chars = a ++ '%' :: spec :: b)
    (h0 : entry.part0Len = a.length) (h1 : entry.part1Pos = a.length + 2)
    (hl1 : entry.part1Len = b.length) :
    format.bytes 0 entry.part0Len = a ∧
      format.bytes entry.part1Pos entry.part1Len = b :=
  ⟨bytes_eq [] _ htext rfl h0,
    bytes_eq (a ++ ['%', spec]) [] (htext.trans (by simp)) (by simp [h1]) hl1⟩

theorem FormatString.bytes_two {format : FormatString} {a b c : List Char}
    {spec spec' : Char} {entry : FastFormatEntry}
    (htext : format.chars = a ++ '%' :: spec :: (b ++ '%' :: spec' :: c))
    (h0 : entry.part0Len = a.length) (h1 : entry.part1Pos = a.length + 2)
    (hl1 : entry.part1Len = b.length)
    (h2 : entry.part2Pos = a.length + 2 + b.length + 2)
    (hl2 : entry.part2Len = c.length) :
    format.bytes 0 entry.part0Len = a ∧
      format.bytes entry.part1Pos entry.part1Len = b ∧
      format.bytes entry.part2Pos entry.part2Len = c := by
  refine ⟨bytes_eq [] _ htext rfl h0, ?_, ?_⟩
  · exact bytes_eq (a ++ ['%', spec]) ('%' :: spec' :: c)
      (htext.trans (by simp)) (by simp [h1]) hl1
  · exact bytes_eq (a ++ ['%', spec] ++ b ++ ['%', spec']) []
      (htext.trans (by simp)) (by simp [h2]; omega) hl2

theorem Wrote.finish {bufferSize : Nat} {text : List Char}
    {o : FormatOutput} (hwrote : Wrote bufferSize text o)
    (hnul : nul ∉ text) :
    textOf o.finish.buffer = text.take (bufferSize - 1) ∧
      o.finish.outLen = (textOf o.finish.buffer).length := by
  have hdst : nul ∉ o.dst := by
    rw [hwrote.dst]
    exact fun hmem => hnul (List.mem_of_mem_take hmem)
  have htext : textOf o.finish.buffer = o.dst := by
    have hall : ∀ ch ∈ o.dst, decide (ch ≠ nul) = true := by
      intro ch hch
      simp only [ne_eq, decide_eq_true_eq]
      exact fun heq => hdst (heq ▸ hch)
    rw [textOf, FormatOutput.finish, List.takeWhile_append_of_pos hall]
    simp
  rw [htext]
  exact ⟨hwrote.dst, rfl⟩

theorem specKind_ne {spec : Char} {kind : FastFormatKind}
    (hkind : specKind spec = some kind) : kind ≠ .none ∧ kind ≠ .literal := by
  unfold specKind at hkind
  split_ifs at hkind <;> simp only [Option.some.injEq] at hkind <;>
    subst kind <;> decide

section Execute

variable {entry : FastFormatEntry} {format : FormatString}
  {bufferSize : Nat} {args : Nat → VaArg}

theorem executeFastFormat_none (hkind : entry.kind1 = .none) :
    executeFastFormat entry format bufferSize args = none :=
  if_pos hkind

theorem executeFastFormat_literal (hkind : entry.kind1 = .literal) :
    executeFastFormat entry format bufferSize args =
      some (copyBounded ⟨[], bufferSize⟩
        (format.bytes 0 entry.part0Len)).finish := by
  simp only [executeFastFormat, hkind, reduceCtorEq, if_false, if_true]

theorem executeFastFormat_one {o : FormatOutput}
    (hkind : entry.kind1 ≠ .none ∧ entry.kind1 ≠ .literal)
    (hcount : entry.specCount = 1)
    (happend : appendArg entry.kind1 (copyBounded ⟨[], bufferSize⟩
      (format.bytes 0 entry.part0Len)) (args 0) = some o) :
    executeFastFormat entry format bufferSize args =
      some (copyBounded o
        (format.bytes entry.part1Pos entry.part1Len)).finish := by
  simp only [executeFastFormat, if_neg hkind.1, if_neg hkind.2, happend,
    hcount, if_true]

theorem executeFastFormat_two {o o' : FormatOutput}
    (hkind : entry.kind1 ≠ .none ∧ entry.kind1 ≠ .literal)
    (hcount : entry.specCount = 2)
    (happend : appendArg entry.kind1 (copyBounded ⟨[], bufferSize⟩
      (format.bytes 0 entry.part0Len)) (args 0) = some o)
    (happend' : appendArg entry.kind2 (copyBounded o
      (format.bytes entry.part1Pos entry.part1Len)) (args 1) = some o') :
    executeFastFormat entry format bufferSize args =
      some (copyBounded o'
        (format.bytes entry.part2Pos entry.part2Len)).finish := by
  have hone : ¬ entry.specCount = 1 := by omega
  have htwo : ¬ entry.specCount ≠ 2 := by omega
  simp only [executeFastFormat, if_neg hkind.1, if_neg hkind.2, happend,
    happend', if_neg hone, if_neg htwo]

/-- An entry that describes the format in memory produces what `vsnprintf`
does. -/
theorem executeFastFormat_agrees
    (other : List Char → (Nat → VaArg) → List Char) {text : List Char}
    (htext : format.chars = text) (hlayout : Layout text entry)
    (hpointer : usesPointer text = false) (hsize : 0 < bufferSize) :
    ∃ r, executeFastFormat entry format bufferSize args = some r ∧
      textOf r.buffer = vsnprintf other bufferSize text args ∧
      r.outLen = (textOf r.buffer).length := by
  have hnul := format.noNul
  rw [htext] at hnul
  have hstart := wrote_nil bufferSize
  cases hlayout with
  | literal ha hkind hlen =>
      have h0 : format.bytes 0 entry.part0Len = text :=
        FormatString.bytes_eq [] []
          (htext.trans (by simp)) rfl hlen
      have hwrote := hstart.copyBounded hsize text
      rw [List.nil_append] at hwrote
      refine ⟨_, executeFastFormat_literal hkind, ?_⟩
      rw [h0, vsnprintf, printf_literal other ha]
      exact hwrote.finish hnul
  | @one a b spec _ ha hb hkind hcount hl0 hp1 hl1 =>
      rw [usesPointer_append ha] at hpointer
      simp only [List.mem_append, List.mem_cons, not_or] at hnul
      rcases hnul with ⟨hnul0, -, -, hnul1⟩
      obtain ⟨h0, h1⟩ := FormatString.bytes_one htext hl0 hp1 hl1
      have hwrote0 := hstart.copyBounded hsize a
      rcases appendArg_conversion hkind (usesPointer_percent hpointer).1
        (args 0) with ⟨t, hconversion, hnult, happend⟩
      rcases happend _ _ _ hsize hwrote0 with ⟨o, happend, hwrote⟩
      have hwrote1 := hwrote.copyBounded hsize b
      refine ⟨_, executeFastFormat_one (specKind_ne hkind) hcount
        (by rw [h0]; exact happend), ?_⟩
      rw [h1, vsnprintf, printf_append other ha,
        printf_percent other args hconversion, printf_literal other hb]
      rw [List.nil_append, List.append_assoc] at hwrote1
      refine hwrote1.finish ?_
      simp only [List.mem_append, not_or]
      exact ⟨hnul0, hnult, hnul1⟩
  | @two a b c spec spec' _ ha hb hc hkind hkind' hcount hl0 hp1 hl1 hp2 hl2 =>
      rw [usesPointer_append ha] at hpointer
      have hpointer' := (usesPointer_percent hpointer).2
      rw [usesPointer_append hb] at hpointer'
      simp only [List.mem_append, List.mem_cons, not_or] at hnul
      rcases hnul with ⟨hnul0, -, -, hnul1, -, -, hnul2⟩
      obtain ⟨h0, h1, h2⟩ :=
        FormatString.bytes_two htext hl0 hp1 hl1 hp2 hl2
      have hwrote0 := hstart.copyBounded hsize a
      rcases appendArg_conversion hkind (usesPointer_percent hpointer).1
        (args 0) with ⟨t, hconversion, hnult, happend⟩
      rcases happend _ _ _ hsize hwrote0 with ⟨o, happend, hwrote⟩
      have hwrote1 := hwrote.copyBounded hsize b
      rcases appendArg_conversion hkind' (usesPointer_percent hpointer').1
        (args 1) with ⟨t', hconversion', hnult', happend'⟩
      rcases happend' _ _ _ hsize hwrote1 with ⟨o', happend', hwrote'⟩
      have hwrote2 := hwrote'.copyBounded hsize c
      refine ⟨_, executeFastFormat_two (specKind_ne hkind) hcount
        (by rw [h0]; exact happend) (by rw [h1]; exact happend'), ?_⟩
      rw [h2, vsnprintf, printf_append other ha,
        printf_percent other args hconversion, printf_append other hb,
        printf_percent other (fun k => args (k + 1)) hconversion',
        printf_literal other hc]
      simp only [List.nil_append, List.append_assoc] at hwrote2
      refine hwrote2.finish ?_
      simp only [List.mem_append, not_or]
      exact ⟨hnul0, hnult, hnul1, hnult', hnul2⟩

end Execute

end Logme
