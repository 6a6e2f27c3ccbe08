import Mathlib.Data.List.Basic
import Logme.ConsoleManager
import Logme.SmartValues

/-!
# ANSI sequences of console records

`ParseSequence` was written for a C string.  `RemoveAnsi` calls it on a text
with a length, where it may read what stands behind the text.  The memory from
a pointer on is the list of its bytes here; behind the list there are zero
bytes.
-/

namespace Logme

namespace Colorizer

/-- The byte that begins a sequence. -/
def escByte : UInt8 := 0x1B

/-- `strtol` in base 10, whose result is converted to an `int`: the value and
what follows the number. -/
def strtol (p : List UInt8) : Int × List UInt8 :=
  match scanInteger p with
  | none => (0, p)
  | some (negative, digits, e) =>
      let value : Int :=
        if negative then max (-(digitsValue digits : Int)) (-2 ^ 63)
        else min (digitsValue digits : Int) (2 ^ 63 - 1)
      (Int.bmod value (2 ^ 32), e)

structure Colours where
  attr : Int := 0
  fg : Int := -1
  bg : Int := -1
  deriving DecidableEq

/-- One code of a sequence. -/
def Colours.set (c : Colours) (v : Int) : Option Colours :=
  if 0 ≤ v ∧ v ≤ 8 then some { c with attr := v }
  else if 30 ≤ v ∧ v ≤ 37 then some { c with fg := v }
  else if 40 ≤ v ∧ v ≤ 47 then some { c with bg := v }
  else none

/-! ## Numbers -/

/-- The text of a number with the sign that was read. -/
structure NumberText (number : List UInt8) (negative : Bool) (digits : List UInt8) : Prop where
  parts : ∃ spaces sign, number = spaces ++ (sign ++ digits) ∧
    (∀ c ∈ spaces, isSpaceByte c = true) ∧
    (sign = [] ∧ negative = false ∨ sign = [0x2D] ∧ negative = true ∨
      sign = [0x2B] ∧ negative = false)
  digits_ne_nil : digits ≠ []
  digits_all : ∀ c ∈ digits, Json.isDigit c = true

/-- A byte that no number continues with. -/
def Stops (e : List UInt8) : Prop := ∀ c ∈ e.head?, Json.isDigit c = false

theorem scanInteger_spec {p digits e : List UInt8} {negative : Bool}
    (h : scanInteger p = some (negative, digits, e)) :
    ∃ number, NumberText number negative digits ∧ p = number ++ e ∧ Stops e := by
  have hspaces : p = p.takeWhile isSpaceByte ++ p.dropWhile isSpaceByte :=
    List.takeWhile_append_dropWhile.symm
  have hall : ∀ c ∈ p.takeWhile isSpaceByte, isSpaceByte c = true := fun c hc =>
    List.mem_takeWhile_imp hc
  generalize p.takeWhile isSpaceByte = spaces at hspaces hall
  have hread : ∀ sign unsigned signed, p.dropWhile isSpaceByte = sign ++ unsigned →
      (sign = [] ∧ signed = false ∨ sign = [0x2D] ∧ signed = true ∨
        sign = [0x2B] ∧ signed = false) →
      (if unsigned.takeWhile Json.isDigit = [] then none
        else some (signed, unsigned.takeWhile Json.isDigit, unsigned.dropWhile Json.isDigit)) =
          some (negative, digits, e) →
      ∃ number, NumberText number negative digits ∧ p = number ++ e ∧ Stops e := by
    intro sign unsigned signed hstart hsigned hresult
    split at hresult
    case isTrue => exact absurd hresult (by simp)
    case isFalse hdigits =>
      simp only [Option.some.injEq, Prod.mk.injEq] at hresult
      obtain ⟨rfl, rfl, rfl⟩ := hresult
      refine ⟨spaces ++ (sign ++ unsigned.takeWhile Json.isDigit),
        ⟨⟨spaces, sign, rfl, hall, hsigned⟩, hdigits, fun c hc => List.mem_takeWhile_imp hc⟩,
        ?_, ?_⟩
      · rw [List.append_assoc, List.append_assoc, List.takeWhile_append_dropWhile, ← hstart]
        exact hspaces
      · intro c hc
        have hstop := List.head?_dropWhile_not Json.isDigit unsigned
        rw [Option.mem_def.mp hc] at hstop
        exact hstop
  unfold scanInteger at h
  dsimp only at h
  split at h
  case h_1 start rest hstart => exact hread [0x2D] rest true hstart (by simp) h
  case h_2 start rest hstart => exact hread [0x2B] rest false hstart (by simp) h
  case h_3 => exact hread [] _ false rfl (by simp) h

theorem scanInteger_number {number digits e : List UInt8} {negative : Bool}
    (hnumber : NumberText number negative digits) (he : Stops e) :
    scanInteger (number ++ e) = some (negative, digits, e) := by
  obtain ⟨⟨spaces, sign, rfl, hspaces, hsign⟩, hne, hall⟩ := hnumber
  have htake : (digits ++ e).takeWhile Json.isDigit = digits := by
    rw [List.takeWhile_append_of_pos hall]
    cases e with
    | nil => simp
    | cons c e => rw [List.takeWhile_cons_of_neg (by simp [he c rfl]), List.append_nil]
  have hdrop : (digits ++ e).dropWhile Json.isDigit = e := by
    rw [List.dropWhile_append_of_pos hall]
    cases e with
    | nil => rfl
    | cons c e => rw [List.dropWhile_cons_of_neg (by simp [he c rfl])]
  have hstart : (spaces ++ (sign ++ digits) ++ e).dropWhile isSpaceByte =
      sign ++ (digits ++ e) := by
    rw [List.append_assoc, List.append_assoc, List.dropWhile_append_of_pos hspaces]
    obtain ⟨rfl, -⟩ | ⟨rfl, -⟩ | ⟨rfl, -⟩ := hsign
    · cases digits with
      | nil => exact absurd rfl hne
      | cons digit digits =>
          exact List.dropWhile_cons_of_neg
            (by simp [isSpaceByte_of_isDigit (hall digit List.mem_cons_self)])
    · rfl
    · rfl
  have hread : ∀ signed : Bool, (if (digits ++ e).takeWhile Json.isDigit = [] then none
      else some (signed, (digits ++ e).takeWhile Json.isDigit,
        (digits ++ e).dropWhile Json.isDigit)) = some (signed, digits, e) := by
    intro signed
    rw [htake, hdrop, if_neg hne]
  unfold scanInteger
  rw [hstart]
  obtain ⟨rfl, rfl⟩ | ⟨rfl, rfl⟩ | ⟨rfl, rfl⟩ := hsign
  · cases digits with
    | nil => exact absurd rfl hne
    | cons digit digits =>
        have hdigit := hall digit List.mem_cons_self
        dsimp only [List.nil_append, List.cons_append]
        split
        case h_1 hstart => exact absurd (List.cons.inj hstart).1 (ne_of_isDigit hdigit rfl)
        case h_2 hstart => exact absurd (List.cons.inj hstart).1 (ne_of_isDigit hdigit rfl)
        case h_3 => exact hread false
  · exact hread true
  · exact hread false

theorem NumberText.escape_notMem {number digits : List UInt8} {negative : Bool}
    (h : NumberText number negative digits) : escByte ∉ number := by
  obtain ⟨⟨spaces, sign, rfl, hspaces, hsign⟩, -, hall⟩ := h
  have hspace : isSpaceByte escByte = false := rfl
  have hdigit : Json.isDigit escByte = false := rfl
  rw [List.mem_append, List.mem_append, not_or, not_or]
  refine ⟨fun hmem => ?_, ?_, fun hmem => ?_⟩
  · exact absurd (hspaces _ hmem) (by simp [hspace])
  · obtain ⟨rfl, -⟩ | ⟨rfl, -⟩ | ⟨rfl, -⟩ := hsign <;> decide
  · exact absurd (hall _ hmem) (by simp [hdigit])

/-- A number that is read up to a byte is read so before any memory behind the
byte. -/
theorem strtol_stop {p q : List UInt8} {v : Int} {stop : UInt8}
    (hstop : stop = 0x3B ∨ stop = 0x6D) (h : strtol p = (v, stop :: q)) :
    ∃ number, p = number ++ stop :: q ∧ escByte ∉ number ∧
      ∀ rest, strtol (number ++ stop :: rest) = (v, stop :: rest) := by
  have hspace : isSpaceByte stop = false ∧ Json.isDigit stop = false := by
    obtain rfl | rfl := hstop <;> decide
  unfold strtol at h
  split at h
  case h_1 hscan =>
    obtain ⟨rfl, rfl⟩ := Prod.mk.inj h
    refine ⟨[], rfl, List.not_mem_nil, fun rest => ?_⟩
    have hnone : scanInteger (stop :: rest) = none := by
      obtain rfl | rfl := hstop <;> rfl
    rw [List.nil_append, strtol, hnone]
  case h_2 negative digits e hscan =>
    obtain ⟨rfl, rfl⟩ := Prod.mk.inj h
    obtain ⟨number, hnumber, hp, -⟩ := scanInteger_spec hscan
    refine ⟨number, hp, hnumber.escape_notMem, fun rest => ?_⟩
    have hstops : Stops (stop :: rest) := by
      intro c hc
      rw [← Option.some.inj hc]
      exact hspace.2
    rw [strtol, scanInteger_number hnumber hstops]

theorem strtol_length_le (p : List UInt8) : (strtol p).2.length ≤ p.length := by
  unfold strtol
  split
  case h_1 => exact le_rfl
  case h_2 negative digits e hscan =>
    obtain ⟨number, -, rfl, -⟩ := scanInteger_spec hscan
    rw [List.length_append]
    exact Nat.le_add_left _ _

/-! ## Sequences -/

/-- The loop of `ParseSequence`: the colours and, when it met the end of the
sequence, what follows the end. -/
def parseCodes (c : Colours) (p : List UInt8) : Option (Colours × Option (List UInt8)) :=
  if p.headD 0 = 0 then some (c, none)
  else
    match c.set (strtol p).1 with
    | none => none
    | some c =>
        match _ : (strtol p).2 with
        | 0x3B :: next => parseCodes c next
        | 0x6D :: next => some (c, some next)
        | _ => none
termination_by p.length
decreasing_by
  next hnext =>
  have hlength := strtol_length_le p
  rw [hnext] at hlength
  exact hlength

section

variable {c c₁ : Colours} {p next : List UInt8}

theorem parseCodes_nul (hnul : p.headD 0 = 0) : parseCodes c p = some (c, none) := by
  rw [parseCodes, if_pos hnul]

theorem parseCodes_next (hnul : ¬ p.headD 0 = 0) (hset : c.set (strtol p).1 = some c₁)
    (hnext : (strtol p).2 = 0x3B :: next) : parseCodes c p = parseCodes c₁ next := by
  rw [parseCodes, if_neg hnul, hset]
  dsimp only
  split
  case h_1 next' hnext' =>
    rw [hnext] at hnext'
    rw [(List.cons.inj hnext').2]
  case h_2 next' hnext' =>
    rw [hnext] at hnext'
    exact absurd (List.cons.inj hnext').1 (by decide)
  case h_3 hother _ => exact absurd hnext (hother next)

theorem parseCodes_end (hnul : ¬ p.headD 0 = 0) (hset : c.set (strtol p).1 = some c₁)
    (hnext : (strtol p).2 = 0x6D :: next) : parseCodes c p = some (c₁, some next) := by
  rw [parseCodes, if_neg hnul, hset]
  dsimp only
  split
  case h_1 next' hnext' =>
    rw [hnext] at hnext'
    exact absurd (List.cons.inj hnext').1 (by decide)
  case h_2 next' hnext' =>
    rw [hnext] at hnext'
    rw [(List.cons.inj hnext').2]
  case h_3 hother => exact absurd hnext (hother next)

theorem parseCodes_other (hnul : ¬ p.headD 0 = 0) (hset : c.set (strtol p).1 = some c₁)
    (hsemicolon : ∀ next, (strtol p).2 ≠ 0x3B :: next)
    (hend : ∀ next, (strtol p).2 ≠ 0x6D :: next) : parseCodes c p = none := by
  rw [parseCodes, if_neg hnul, hset]
  dsimp only
  split
  case h_1 next hnext => exact absurd hnext (hsemicolon next)
  case h_2 next hnext => exact absurd hnext (hend next)
  case h_3 => rfl

end

/-- A code that ends within the bytes is the same whatever follows it. -/
theorem strtol_code {c c₁ : Colours} {p next : List UInt8} {stop : UInt8}
    (hstop : stop = 0x3B ∨ stop = 0x6D) (hnul : ¬ p.headD 0 = 0)
    (hset : c.set (strtol p).1 = some c₁) (hnext : (strtol p).2 = stop :: next) :
    ∃ number, p = number ++ stop :: next ∧ escByte ∉ number ∧ ∀ rest,
      (number ++ stop :: rest).headD 0 ≠ 0 ∧
      c.set (strtol (number ++ stop :: rest)).1 = some c₁ ∧
      (strtol (number ++ stop :: rest)).2 = stop :: rest := by
  obtain ⟨number, rfl, hescape, hread⟩ := strtol_stop hstop (Prod.ext rfl hnext)
  refine ⟨number, rfl, hescape, fun rest => ⟨?_, ?_, ?_⟩⟩
  · cases number with
    | nil => exact hnul
    | cons first number => exact hnul
  · rw [hread rest]
    exact hset
  · rw [hread rest]

/-- What was read up to the end of a sequence is read so whatever follows. -/
theorem parseCodes_stop {c c' : Colours} {p e : List UInt8}
    (h : parseCodes c p = some (c', some e)) :
    ∃ codes, p = codes ++ e ∧ codes ≠ [] ∧ escByte ∉ codes ∧
      ∀ rest, parseCodes c (codes ++ rest) = some (c', some rest) := by
  induction c, p using parseCodes.induct with
  | case1 c p hnul =>
      rw [parseCodes_nul hnul] at h
      exact absurd (Prod.mk.inj (Option.some.inj h)).2 (by simp)
  | case2 c p hnul hset =>
      rw [parseCodes, if_neg hnul, hset] at h
      exact absurd h (by simp)
  | case3 c p hnul c₁ hset next hnext ih =>
      obtain ⟨number, rfl, hescape, hread⟩ := strtol_code (.inl rfl) hnul hset hnext
      have hstep : ∀ rest, parseCodes c (number ++ 0x3B :: rest) = parseCodes c₁ rest := by
        intro rest
        obtain ⟨hrest, hset, hnext⟩ := hread rest
        exact parseCodes_next hrest hset hnext
      rw [hstep] at h
      obtain ⟨codes, rfl, -, hcodes, hrest⟩ := ih h
      refine ⟨number ++ 0x3B :: codes, by simp, by simp, ?_, fun rest => ?_⟩
      · rw [List.mem_append, List.mem_cons, not_or, not_or]
        exact ⟨hescape, by decide, hcodes⟩
      · rw [List.append_assoc, List.cons_append, hstep, hrest]
  | case4 c p hnul c₁ hset next hnext =>
      obtain ⟨number, rfl, hescape, hread⟩ := strtol_code (.inr rfl) hnul hset hnext
      have hstep : ∀ rest, parseCodes c (number ++ 0x6D :: rest) = some (c₁, some rest) := by
        intro rest
        obtain ⟨hrest, hset, hnext⟩ := hread rest
        exact parseCodes_end hrest hset hnext
      rw [hstep] at h
      obtain ⟨rfl, hnext⟩ := Prod.mk.inj (Option.some.inj h)
      obtain rfl := Option.some.inj hnext
      refine ⟨number ++ [0x6D], by simp, by simp, ?_, fun rest => ?_⟩
      · rw [List.mem_append, List.mem_singleton, not_or]
        exact ⟨hescape, by decide⟩
      · rw [List.append_assoc, List.singleton_append, hstep]
  | case5 c p hnul c₁ hset hsemicolon hend =>
      rw [parseCodes_other hnul hset hsemicolon hend] at h
      exact absurd h (by simp)

/-- `ParseSequence`: the colours and where the pointer stands after it.  The
pointer stays where it was when no byte ends the sequence. -/
def parseSequence (memory : List UInt8) : Option (Colours × List UInt8) :=
  match memory with
  | 0x1B :: 0x5B :: p => (parseCodes {} p).map fun result => (result.1, result.2.getD memory)
  | _ => none

theorem parseSequence_unended {p : List UInt8} (hnul : p.headD 0 = 0) :
    parseSequence (escByte :: 0x5B :: p) = some ({}, escByte :: 0x5B :: p) := by
  change (parseCodes {} p).map _ = _
  rw [parseCodes_nul hnul]
  rfl

/-- What follows a sequence that ends within the bytes. -/
def complete (s : List UInt8) : Option (List UInt8) :=
  match parseSequence s with
  | some (_, rest) => if rest.length < s.length then some rest else none
  | none => none

/-- A parse moves the pointer over a sequence or leaves it where it is. -/
theorem parseSequence_cases {memory e : List UInt8} {c : Colours}
    (h : parseSequence memory = some (c, e)) :
    e = memory ∨ ∃ codes, memory = escByte :: codes ++ e ∧ codes ≠ [] ∧ escByte ∉ codes ∧
      ∀ rest, parseSequence (escByte :: codes ++ rest) = some (c, rest) := by
  unfold parseSequence at h
  split at h
  case h_1 p =>
    obtain ⟨⟨c', stop⟩, hcodes, hresult⟩ := Option.map_eq_some_iff.mp h
    obtain ⟨rfl, he⟩ := Prod.mk.inj hresult
    cases stop with
    | none => exact .inl he.symm
    | some stop =>
        obtain rfl : stop = e := he
        obtain ⟨codes, rfl, -, hescape, hread⟩ := parseCodes_stop hcodes
        refine .inr ⟨0x5B :: codes, rfl, by simp, ?_, fun rest => ?_⟩
        · rw [List.mem_cons, not_or]
          exact ⟨by decide, hescape⟩
        · have hparse : parseSequence (escByte :: 0x5B :: codes ++ rest) =
              (parseCodes {} (codes ++ rest)).map fun result =>
                (result.1, result.2.getD (escByte :: 0x5B :: codes ++ rest)) := rfl
          rw [hparse, hread]
          rfl
  case h_2 => exact absurd h (by simp)

theorem complete_eq_some {s rest : List UInt8} (h : complete s = some rest) :
    ∃ codes, s = escByte :: codes ++ rest ∧ escByte ∉ codes ∧
      ∃ c, ∀ behind, parseSequence (escByte :: codes ++ behind) = some (c, behind) := by
  unfold complete at h
  split at h
  case h_1 c e hparse =>
    split at h
    case isTrue hshorter =>
      obtain rfl := Option.some.inj h
      obtain rfl | ⟨codes, hs, -, hescape, hread⟩ := parseSequence_cases hparse
      · exact absurd hshorter (lt_irrefl _)
      · exact ⟨codes, hs, hescape, c, hread⟩
    case isFalse => exact absurd h (by simp)
  case h_2 => exact absurd h (by simp)

theorem begins_of_parseSequence {memory : List UInt8} (h : parseSequence memory ≠ none) :
    ∃ p, memory = escByte :: 0x5B :: p := by
  unfold parseSequence at h
  split at h
  case h_1 p => exact ⟨p, rfl⟩
  case h_2 => exact absurd rfl h

/-- Whatever stands behind the bytes, the same is read of a sequence at their
front: a sequence, or none. -/
def Determined (s : List UInt8) : Prop :=
  (complete s).isSome ∨ ∀ behind, parseSequence (s ++ behind) = none

end Colorizer

namespace ConsoleBackend

open Colorizer

/-! ## Removing the sequences -/

/-- The loop of `RemoveAnsi`, with the bytes of the text that are left. -/
def removeAnsiLoop : Nat → List UInt8 → Nat → List UInt8 → Option (List UInt8)
  | 0, _, _, _ => none
  | fuel + 1, memory, left, out =>
      let text := memory.take left
      let plain := text.takeWhile fun c => c != escByte
      if plain = text then some (out ++ text)
      else
        let escPos := memory.drop plain.length
        match parseSequence escPos with
        | some (_, seq) =>
            removeAnsiLoop fuel seq (left - plain.length - (escPos.length - seq.length))
              (out ++ plain)
        | none => removeAnsiLoop fuel escPos.tail (left - plain.length - 1) (out ++ plain)

/-- `RemoveAnsi` of the first `len` bytes of the memory. -/
def removeAnsi (fuel : Nat) (memory : List UInt8) (len : Nat) : Option (List UInt8) :=
  if len = 0 then some [] else removeAnsiLoop fuel memory len []

/-- The text without its complete sequences and without the other bytes that
begin one. -/
def withoutAnsi (t : List UInt8) : List UInt8 :=
  match t with
  | [] => []
  | c :: t =>
      if c = escByte then
        match _ : complete (c :: t) with
        | some rest => withoutAnsi rest
        | none => withoutAnsi t
      else c :: withoutAnsi t
termination_by t.length
decreasing_by
  · next hcomplete =>
    obtain ⟨codes, hs, -⟩ := complete_eq_some hcomplete
    rw [hs, List.cons_append, List.length_cons, List.length_append]
    omega
  · exact Nat.lt_succ_self _
  · exact Nat.lt_succ_self _

/-- Whatever stands behind the text, each byte that may begin a sequence is
read in the same way. -/
def Clean (t : List UInt8) : Prop :=
  ∀ s, s <:+ t → s.head? = some escByte → Determined s

section

variable {plain s t behind out : List UInt8}

theorem withoutAnsi_append (hplain : escByte ∉ plain) :
    withoutAnsi (plain ++ s) = plain ++ withoutAnsi s := by
  induction plain with
  | nil => rfl
  | cons c plain ih =>
      rw [List.mem_cons, not_or] at hplain
      rw [List.cons_append, withoutAnsi, if_neg (Ne.symm hplain.1), ih hplain.2, List.cons_append]

theorem withoutAnsi_self (ht : escByte ∉ t) : withoutAnsi t = t := by
  have happend := withoutAnsi_append (s := []) ht
  rw [List.append_nil, withoutAnsi, List.append_nil] at happend
  exact happend

theorem withoutAnsi_complete (h : complete (escByte :: t) = some s) :
    withoutAnsi (escByte :: t) = withoutAnsi s := by
  rw [withoutAnsi, if_pos rfl]
  split
  case h_1 rest hrest =>
    rw [h] at hrest
    rw [Option.some.inj hrest]
  case h_2 hnone => exact absurd (h.symm.trans hnone) (by simp)

theorem withoutAnsi_escape (h : complete (escByte :: t) = none) :
    withoutAnsi (escByte :: t) = withoutAnsi t := by
  rw [withoutAnsi, if_pos rfl]
  split
  case h_1 rest hrest => exact absurd (h.symm.trans hrest) (by simp)
  case h_2 => rfl

theorem clean_of_escape_notMem (ht : escByte ∉ t) : Clean t := by
  intro s hs hhead
  exact absurd (hs.mem (List.mem_of_head? hhead)) ht

theorem clean_escape_iff : Clean (escByte :: t) ↔ Determined (escByte :: t) ∧ Clean t := by
  constructor
  · intro h
    exact ⟨h _ List.suffix_rfl rfl, fun s hs => h s (hs.trans (List.suffix_cons _ _))⟩
  · intro h s hs hhead
    obtain rfl | hs := List.suffix_cons_iff.mp hs
    · exact h.1
    · exact h.2 s hs hhead

theorem clean_append_iff (hplain : escByte ∉ plain) : Clean (plain ++ s) ↔ Clean s := by
  induction plain with
  | nil => rfl
  | cons c plain ih =>
      rw [List.mem_cons, not_or] at hplain
      rw [← ih hplain.2]
      constructor
      · intro h s' hs'
        exact h s' (hs'.trans (List.suffix_cons _ _))
      · intro h s' hs' hhead
        obtain rfl | hs' := List.suffix_cons_iff.mp hs'
        · exact absurd (Option.some.inj hhead).symm hplain.1
        · exact h s' hs' hhead

theorem removeAnsiLoop_plain (ht : escByte ∉ t) (fuel : Nat) :
    removeAnsiLoop (fuel + 1) (t ++ behind) t.length out = some (out ++ t) := by
  have hself : t.takeWhile (fun c => c != escByte) = t := by
    rw [List.takeWhile_eq_self_iff]
    intro c hc
    rw [bne_iff_ne]
    exact fun hescape => ht (hescape ▸ hc)
  rw [removeAnsiLoop]
  dsimp only
  rw [List.take_left, hself, if_pos rfl]

/-- One round of the loop. -/
theorem removeAnsiLoop_escape (hplain : escByte ∉ plain) (fuel : Nat) :
    removeAnsiLoop (fuel + 1) (plain ++ escByte :: t ++ behind)
        (plain ++ escByte :: t).length out =
      match parseSequence (escByte :: t ++ behind) with
      | some (_, seq) =>
          removeAnsiLoop fuel seq
            (t.length + 1 - ((escByte :: t ++ behind).length - seq.length)) (out ++ plain)
      | none => removeAnsiLoop fuel (t ++ behind) t.length (out ++ plain) := by
  have htake : (plain ++ escByte :: t).takeWhile (fun c => c != escByte) = plain := by
    rw [List.takeWhile_append_of_pos, List.takeWhile_cons_of_neg (by simp), List.append_nil]
    intro c hc
    rw [bne_iff_ne]
    exact fun hescape => hplain (hescape ▸ hc)
  have hshorter : plain ≠ plain ++ escByte :: t := by simp
  have hleft : (plain ++ escByte :: t).length - plain.length = t.length + 1 := by simp
  rw [removeAnsiLoop]
  dsimp only
  rw [List.take_left, htake, if_neg hshorter, hleft, List.append_assoc, List.drop_left]
  rfl

/-- A sequence that is never ended holds the loop for ever. -/
theorem removeAnsiLoop_endless {c : Colours}
    (h : parseSequence (escByte :: t ++ behind) = some (c, escByte :: t ++ behind)) (fuel : Nat) :
    removeAnsiLoop fuel (escByte :: t ++ behind) (escByte :: t).length out = none := by
  induction fuel generalizing out with
  | zero => rfl
  | succ fuel ih =>
      have hround : removeAnsiLoop (fuel + 1) ([] ++ escByte :: t ++ behind)
          ([] ++ escByte :: t).length out = _ := removeAnsiLoop_escape List.not_mem_nil fuel
      rw [List.nil_append, h] at hround
      rw [hround]
      dsimp only
      rw [Nat.sub_self, Nat.sub_zero]
      exact ih

/-- The loop ends with the text without its sequences, whatever stands behind
the text. -/
def Removes (t out : List UInt8) : Prop :=
  ∀ behind, ∃ fuel,
    removeAnsiLoop fuel (t ++ behind) t.length out = some (out ++ withoutAnsi t)

theorem Removes.round (h : Removes t out) (behind : List UInt8) :
    ∃ fuel, removeAnsiLoop (fuel + 1) (t ++ behind) t.length out =
      some (out ++ withoutAnsi t) := by
  obtain ⟨fuel, hfuel⟩ := h behind
  cases fuel with
  | zero => exact absurd hfuel (by simp [removeAnsiLoop])
  | succ fuel => exact ⟨fuel, hfuel⟩

theorem removes_plain (ht : escByte ∉ t) : Removes t out := by
  intro behind
  exact ⟨1, by rw [removeAnsiLoop_plain ht, withoutAnsi_self ht]⟩

/-- When a round always leads to the same rest of the text, the rest decides. -/
theorem removes_of_round (hplain : escByte ∉ plain)
    (hround : ∀ fuel behind,
      removeAnsiLoop (fuel + 1) (plain ++ escByte :: t ++ behind)
          (plain ++ escByte :: t).length out =
        removeAnsiLoop fuel (s ++ behind) s.length (out ++ plain))
    (hwithout : withoutAnsi (escByte :: t) = withoutAnsi s) :
    Removes (plain ++ escByte :: t) out ↔ Removes s (out ++ plain) := by
  have hresult : out ++ withoutAnsi (plain ++ escByte :: t) = out ++ plain ++ withoutAnsi s := by
    rw [withoutAnsi_append hplain, hwithout, List.append_assoc]
  constructor
  · intro h behind
    obtain ⟨fuel, hfuel⟩ := h.round behind
    rw [hround, hresult] at hfuel
    exact ⟨fuel, hfuel⟩
  · intro h behind
    obtain ⟨fuel, hfuel⟩ := h behind
    refine ⟨fuel + 1, ?_⟩
    rw [hround, hresult]
    exact hfuel

theorem not_removes_of_endless (hplain : escByte ∉ plain) {c : Colours}
    (h : parseSequence (escByte :: t ++ behind) = some (c, escByte :: t ++ behind)) :
    ¬ Removes (plain ++ escByte :: t) out := by
  intro hremoves
  obtain ⟨fuel, hfuel⟩ := hremoves.round behind
  rw [removeAnsiLoop_escape hplain, h] at hfuel
  dsimp only at hfuel
  rw [Nat.sub_self, Nat.sub_zero] at hfuel
  exact absurd ((removeAnsiLoop_endless h fuel).symm.trans hfuel) (by simp)

/-- A sequence that reads on behind the text takes the rest of the text with
it. -/
theorem not_removes_of_overrun (hplain : escByte ∉ plain) {c : Colours} {e : List UInt8}
    (hnone : complete (escByte :: t) = none) (ht : t.head? = some 0x5B)
    (h : parseSequence (escByte :: t ++ behind) = some (c, e)) (he : e.length < behind.length) :
    ¬ Removes (plain ++ escByte :: t) out := by
  intro hremoves
  obtain ⟨fuel, hfuel⟩ := hremoves.round behind
  have hleft : t.length + 1 - ((escByte :: t ++ behind).length - e.length) = 0 := by
    rw [List.length_append, List.length_cons]
    omega
  rw [removeAnsiLoop_escape hplain, h, withoutAnsi_append hplain,
    withoutAnsi_escape hnone] at hfuel
  dsimp only at hfuel
  rw [hleft] at hfuel
  cases fuel with
  | zero => exact absurd hfuel (by simp [removeAnsiLoop])
  | succ fuel =>
      have hend : removeAnsiLoop (fuel + 1) ([] ++ e) 0 (out ++ plain) = _ :=
        removeAnsiLoop_plain List.not_mem_nil fuel
      rw [List.nil_append, hfuel, List.append_nil, Option.some.injEq,
        ← List.append_assoc, List.append_right_eq_self] at hend
      cases t with
      | nil => exact absurd ht (by simp)
      | cons b t =>
          obtain rfl := Option.some.inj ht
          rw [withoutAnsi, if_neg (by decide)] at hend
          exact absurd hend (by simp)

/-- A byte that is read in different ways spoils the result. -/
theorem not_removes_of_undetermined (hplain : escByte ∉ plain) (ht : ¬ Determined (escByte :: t)) :
    ¬ Removes (plain ++ escByte :: t) out := by
  obtain ⟨hincomplete, behind, hsome⟩ := not_or.mp ht |>.imp_right not_forall.mp
  have hnone : complete (escByte :: t) = none := by simpa using hincomplete
  obtain ⟨⟨c, e⟩, hparse⟩ := Option.ne_none_iff_exists'.mp hsome
  cases t with
  | nil =>
      have hendless : parseSequence (escByte :: [] ++ [0x5B, 0]) =
          some ({}, escByte :: [] ++ [0x5B, 0]) := parseSequence_unended rfl
      exact not_removes_of_endless hplain hendless
  | cons b t =>
      obtain ⟨p, hbegins⟩ := begins_of_parseSequence hsome
      have hhead : (b :: t).head? = some 0x5B :=
        congrArg some (List.cons.inj (List.cons.inj hbegins).2).1
      obtain rfl | ⟨codes, hmemory, -, -, hread⟩ := parseSequence_cases hparse
      · exact not_removes_of_endless hplain hparse
      · by_cases hover : e.length < behind.length
        · exact not_removes_of_overrun hplain hnone hhead hparse hover
        · -- the sequence ends within the text
          have hsuffix : behind <:+ e :=
            List.suffix_of_suffix_length_le (List.suffix_append (escByte :: b :: t) _)
              ⟨escByte :: codes, hmemory.symm⟩ (Nat.le_of_not_lt hover)
          obtain ⟨rest, rfl⟩ := hsuffix
          rw [← List.append_assoc] at hmemory
          rw [List.append_cancel_right hmemory, complete, hread rest] at hnone
          dsimp only at hnone
          have hshorter : rest.length < (escByte :: codes ++ rest).length := by
            rw [List.length_append, List.length_cons]
            omega
          rw [if_pos hshorter] at hnone
          exact absurd hnone (by simp)

theorem removes_iff (t out : List UInt8) : Removes t out ↔ Clean t := by
  induction hlength : t.length using Nat.strong_induction_on generalizing t out with
  | _ n ih =>
      by_cases hescape : escByte ∈ t
      · obtain ⟨plain, s, rfl, hplain⟩ := List.eq_append_cons_of_mem hescape
        rw [clean_append_iff hplain, clean_escape_iff]
        by_cases hdetermined : Determined (escByte :: s)
        · rw [and_iff_right hdetermined]
          -- the round goes on behind the sequence, or behind the byte that begins none
          cases hcomplete : complete (escByte :: s) with
          | some rest =>
              obtain ⟨codes, hs, hcodes, c, hread⟩ := complete_eq_some hcomplete
              obtain rfl : s = codes ++ rest := (List.cons.inj hs).2
              rw [clean_append_iff hcodes, ← ih rest.length (by simp at hlength; omega) rest _ rfl]
              refine removes_of_round hplain (fun fuel behind => ?_)
                (withoutAnsi_complete hcomplete)
              have hmemory : escByte :: (codes ++ rest) ++ behind =
                  escByte :: codes ++ (rest ++ behind) := by simp
              have hleft : (codes ++ rest).length + 1 -
                  ((escByte :: codes ++ (rest ++ behind)).length - (rest ++ behind).length) =
                    rest.length := by
                simp only [List.length_append, List.length_cons]
                omega
              rw [removeAnsiLoop_escape hplain, hmemory, hread]
              dsimp only
              rw [hleft]
          | none =>
              rw [← ih s.length (by simp at hlength; omega) s _ rfl]
              refine removes_of_round hplain (fun fuel behind => ?_)
                (withoutAnsi_escape hcomplete)
              have hnever := hdetermined.resolve_left (by simp [hcomplete]) behind
              rw [removeAnsiLoop_escape hplain, hnever]
        · apply iff_of_false (not_removes_of_undetermined hplain hdetermined)
          exact fun h => hdetermined h.1
      · exact iff_of_true (removes_plain hescape) (clean_of_escape_notMem hescape)

theorem removeAnsi_iff (t : List UInt8) :
    (∀ behind, ∃ fuel, removeAnsi fuel (t ++ behind) t.length = some (withoutAnsi t)) ↔
      Clean t := by
  by_cases hlength : t.length = 0
  · obtain rfl := List.eq_nil_of_length_eq_zero hlength
    apply iff_of_true _ (clean_of_escape_notMem List.not_mem_nil)
    intro behind
    exact ⟨0, by rw [removeAnsi, if_pos List.length_nil, withoutAnsi]⟩
  · unfold removeAnsi
    simp only [if_neg hlength]
    exact removes_iff t []

end

/-! ## Writing texts -/

def ansiReset : List UInt8 := escByte :: ascii "[0m"

def ansiYellow : List UInt8 := escByte :: ascii "[1;33m"

def ansiLightRed : List UInt8 := escByte :: ascii "[1;31m"

/-- `PrintWithAnsiSegments` on a terminal, which takes the sequences itself;
the destructor of the `Colorizer` goes back to the default colours. -/
def printWithAnsiSegments (text : List UInt8) (defaultEscape : Option (List UInt8)) :
    List UInt8 :=
  if cString text = [] then []
  else defaultEscape.getD [] ++ cString text ++ ansiReset

/-- `WriteTextUnlocked` of the first `len` bytes of the memory: what a stream
gets. -/
def writeTextUnlocked (isTty : Bool) (fuel : Nat) (memory : List UInt8) (len : Nat)
    (esc : Option (List UInt8)) : Option (List UInt8) :=
  let text := memory.take len
  let hasAnsi : Bool := escByte ∈ text
  if len = 0 then some []
  else if isTty && (esc.isSome || hasAnsi) then
    if hasAnsi then some (printWithAnsiSegments text esc)
    else some (esc.getD [] ++ text ++ ansiReset)
  else if hasAnsi then removeAnsi fuel memory len
  else some text

end ConsoleBackend

namespace ConsoleManager

open Colorizer ConsoleBackend

/-- What `AppendRedirected` appends to the file: the first `len` bytes of the
memory without their sequences. -/
def appendRedirected (fuel : Nat) (memory : List UInt8) (len : Nat) : Option (List UInt8) :=
  if len = 0 then some []
  else if escByte ∈ memory.take len then removeAnsi fuel memory len
  else some (memory.take len)

end ConsoleManager

namespace ConsoleRecord

open Colorizer ConsoleBackend

/-- A number of four bytes. -/
def littleEndian (n : Nat) : List UInt8 :=
  (List.range 4).map fun k => UInt8.ofNat (n / 256 ^ k)

/-- The record as it stands in the buffer, with its header. -/
def bytes (r : ConsoleRecord) : List UInt8 :=
  littleEndian r.size ++ littleEndian r.text.length ++
    [if r.target = .stderr then 1 else 0, if r.highlight then 1 else 0, 0, 0] ++
    littleEndian r.level.value ++ r.text

/-- The colour of the record. -/
def escapeSequence (r : ConsoleRecord) : Option (List UInt8) :=
  if r.highlight ∧ Level.warn.value ≤ r.level.value then
    some (if r.level = .warn then ansiYellow else ansiLightRed)
  else none

/-- The text of a record as its stream should get it. -/
def printed (isTty : Bool) (r : ConsoleRecord) : List UInt8 :=
  if r.plain ∨ r.text = [] then r.text
  else if isTty && (r.escapeSequence.isSome || r.hasAnsi) then
    if r.hasAnsi then printWithAnsiSegments r.text r.escapeSequence
    else r.escapeSequence.getD [] ++ r.text ++ ansiReset
  else withoutAnsi r.text

end ConsoleRecord

namespace ConsoleManager

open Colorizer ConsoleBackend

/-- One write of `ProcessBuffer`, with the memory behind its text: a batch of
plain records or a single record. -/
def printWrite (isTty : Bool) (fuel : Nat) (write : List ConsoleRecord)
    (behind : List UInt8) : Option (List UInt8) :=
  let text := write.flatMap ConsoleRecord.text
  writeTextUnlocked isTty fuel (text ++ behind) text.length
    (if write.all ConsoleRecord.plain then none
      else write.head?.bind ConsoleRecord.escapeSequence)

/-- The records of a buffer. -/
def queueBytes (records : List ConsoleRecord) : List UInt8 :=
  records.flatMap ConsoleRecord.bytes

theorem mem_processRecords {stream : Option ConsoleTarget}
    {batch records write : List ConsoleRecord} (hbatch : ∀ r ∈ batch, r.plain = true)
    (h : write ∈ processRecords stream batch records) :
    (∀ r ∈ write, r.plain = true) ∨ ∃ r, write = [r] ∧ r.plain = false := by
  have hflush : ∀ {batch : List ConsoleRecord}, (∀ r ∈ batch, r.plain = true) →
      write ∈ flushPlainBatch batch → ∀ r ∈ write, r.plain = true := by
    intro batch hbatch hwrite
    unfold flushPlainBatch at hwrite
    split at hwrite
    case isTrue => exact absurd hwrite List.not_mem_nil
    case isFalse => exact List.mem_singleton.mp hwrite ▸ hbatch
  induction records generalizing stream batch with
  | nil => exact .inl (hflush hbatch h)
  | cons r rest ih =>
      rw [processRecords] at h
      by_cases hplain : r.plain = true
      · rw [if_pos hplain] at h
        split at h
        case isTrue =>
          refine ih (fun r' hr' => ?_) h
          obtain hr' | hr' := List.mem_append.mp hr'
          · exact hbatch r' hr'
          · exact List.mem_singleton.mp hr' ▸ hplain
        case isFalse =>
          obtain h | h := List.mem_append.mp h
          · exact .inl (hflush hbatch h)
          · exact ih (fun r' hr' => List.mem_singleton.mp hr' ▸ hplain) h
      · rw [if_neg hplain] at h
        obtain h | h := List.mem_append.mp h
        · exact .inl (hflush hbatch h)
        · obtain rfl | h := List.mem_cons.mp h
          · exact .inr ⟨r, rfl, Bool.eq_false_iff.mpr hplain⟩
          · exact ih (fun r' hr' => absurd hr' List.not_mem_nil) h

theorem writeTextUnlocked_plain {text : List UInt8} (htext : escByte ∉ text) (isTty : Bool)
    (fuel : Nat) (behind : List UInt8) :
    writeTextUnlocked isTty fuel (text ++ behind) text.length none = some text := by
  unfold writeTextUnlocked
  dsimp only
  rw [List.take_left]
  split
  case isTrue hlength => rw [List.eq_nil_of_length_eq_zero hlength]
  case isFalse => simp [htext]

theorem hasAnsi_eq (r : ConsoleRecord) : r.hasAnsi = decide (escByte ∈ r.text) := by
  rw [ConsoleRecord.hasAnsi, List.contains_eq_mem]
  rfl

theorem escape_notMem_of_plain {r : ConsoleRecord} (h : r.plain = true) : escByte ∉ r.text := by
  rw [ConsoleRecord.plain, hasAnsi_eq, Bool.and_eq_true, Bool.not_eq_true',
    Bool.not_eq_true', decide_eq_false_iff_not] at h
  exact h.2

/-- A write of plain records is their texts. -/
theorem printWrite_plain {write : List ConsoleRecord} (h : ∀ r ∈ write, r.plain = true)
    (isTty : Bool) (fuel : Nat) (behind : List UInt8) :
    printWrite isTty fuel write behind = some (write.flatMap ConsoleRecord.text) := by
  have hescape : escByte ∉ write.flatMap ConsoleRecord.text := by
    intro hmem
    obtain ⟨r, hr, hmem⟩ := List.mem_flatMap.mp hmem
    exact escape_notMem_of_plain (h r hr) hmem
  have hall : write.all ConsoleRecord.plain = true := List.all_eq_true.mpr h
  rw [printWrite, hall, if_pos rfl]
  exact writeTextUnlocked_plain hescape isTty fuel behind

/-- A record with a clean text is written the same whatever stands behind it. -/
theorem printWrite_of_clean {r : ConsoleRecord} (hclean : Clean r.text) (isTty : Bool)
    (behind : List UInt8) :
    ∃ fuel, printWrite isTty fuel [r] behind = some (r.printed isTty) := by
  unfold ConsoleRecord.printed
  by_cases hplain : r.plain = true
  · have htext := printWrite_plain (List.forall_mem_singleton.mpr hplain) isTty 0 behind
    exact ⟨0, by rw [htext, if_pos (.inl hplain), List.flatMap_singleton]⟩
  · obtain ⟨fuel, hfuel⟩ := (removeAnsi_iff r.text).mpr hclean behind
    refine ⟨fuel, ?_⟩
    have hall : [r].all ConsoleRecord.plain = false := by simpa using hplain
    rw [printWrite, hall, List.flatMap_singleton, if_neg (by simp)]
    unfold writeTextUnlocked
    dsimp only
    rw [List.take_left]
    by_cases hempty : r.text = []
    · rw [if_pos (by rw [hempty]; rfl), if_pos (.inr hempty), hempty]
    · rw [if_neg (fun h => hempty (List.eq_nil_of_length_eq_zero h)),
        if_neg (not_or.mpr ⟨hplain, hempty⟩), hasAnsi_eq]
      by_cases htty : (isTty && (r.escapeSequence.isSome || decide (escByte ∈ r.text))) = true
      · rw [if_pos htty, if_pos (by simpa using htty)]
        by_cases hansi : decide (escByte ∈ r.text) = true
        · rw [if_pos hansi, if_pos hansi]
          rfl
        · rw [if_neg hansi, if_neg hansi]
          rfl
      · rw [if_neg htty, if_neg (by simpa using htty)]
        by_cases hansi : escByte ∈ r.text
        · rw [if_pos (decide_eq_true hansi), hfuel]
        · rw [if_neg (by simpa using hansi), withoutAnsi_self hansi]

/-- The texts of a buffer are written as if each record stood alone. -/
theorem printWrite_processBuffer {buffer write : List ConsoleRecord}
    (hclean : ∀ r ∈ buffer, Clean r.text) (hwrite : write ∈ processBuffer buffer)
    (isTty : Bool) (behind : List UInt8) :
    ∃ fuel, printWrite isTty fuel write behind =
      some (write.flatMap (ConsoleRecord.printed isTty)) := by
  obtain hplain | ⟨r, rfl, -⟩ := mem_processRecords (fun r hr => absurd hr List.not_mem_nil) hwrite
  · refine ⟨0, ?_⟩
    rw [printWrite_plain hplain, Option.some.injEq]
    exact List.flatMap_congr fun r hr => by
      rw [ConsoleRecord.printed, if_pos (.inl (hplain r hr))]
  · have hmem : r ∈ buffer := by
      rw [← flatten_processBuffer buffer]
      exact List.mem_flatten.mpr ⟨[r], hwrite, List.mem_singleton_self r⟩
    obtain ⟨fuel, hfuel⟩ := printWrite_of_clean (hclean r hmem) isTty behind
    exact ⟨fuel, by rw [hfuel, List.flatMap_singleton]⟩

theorem printWrite_processBuffer_warning :
    let warning : ConsoleRecord := ⟨1, .stdout, .warn, true, [0x62]⟩
    ∃ fuel, printWrite true fuel [warning] [] =
      some ([warning].flatMap (ConsoleRecord.printed true)) := by
  intro warning
  let buffer : List ConsoleRecord := [⟨0, .stdout, .info, false, [0x61]⟩, warning]
  have htexts : ∀ r ∈ buffer, escByte ∉ r.text := by decide
  exact printWrite_processBuffer (fun r hr => clean_of_escape_notMem (htexts r hr))
    (by decide : [warning] ∈ processBuffer buffer) true []

end ConsoleManager

open Colorizer ConsoleBackend ConsoleManager

/-- The sequences of the text are removed, and only the text decides what is
left of it, what is appended to a file and what is printed of a record. -/
structure RemovesAnsi (t : List UInt8) : Prop where
  removed : ∀ behind, ∃ fuel,
    removeAnsi fuel (t ++ behind) t.length = some (withoutAnsi t)
  redirected : ∀ behind, ∃ fuel,
    appendRedirected fuel (t ++ behind) t.length = some (withoutAnsi t)
  printed : ∀ r : ConsoleRecord, r.text = t → ∀ isTty after beyond, ∃ fuel,
    printWrite isTty fuel [r] (queueBytes after ++ beyond) = some (r.printed isTty)

theorem appendRedirected_of_clean {t : List UInt8} (h : Clean t) (behind : List UInt8) :
    ∃ fuel, appendRedirected fuel (t ++ behind) t.length = some (withoutAnsi t) := by
  obtain ⟨fuel, hfuel⟩ := (removeAnsi_iff t).mpr h behind
  refine ⟨fuel, ?_⟩
  rw [appendRedirected, List.take_left, hfuel]
  by_cases hlength : t.length = 0
  · rw [if_pos hlength, List.eq_nil_of_length_eq_zero hlength, withoutAnsi]
  · rw [if_neg hlength]
    by_cases hescape : escByte ∈ t
    · rw [if_pos hescape]
    · rw [if_neg hescape, withoutAnsi_self hescape]

/-- The sequences are removed exactly from the texts that no bytes behind them
can change. -/
theorem removesAnsi_iff (t : List UInt8) : RemovesAnsi t ↔ Clean t := by
  constructor
  · intro h
    exact (removeAnsi_iff t).mp h.removed
  · intro h
    constructor
    · exact (removeAnsi_iff t).mpr h
    · exact appendRedirected_of_clean h
    · intro r htext isTty after beyond
      exact printWrite_of_clean (htext.symm ▸ h) isTty _

/-- The beginning of a sequence at the end of a C string. -/
theorem not_removesAnsi_unfinished : ¬ RemovesAnsi (escByte :: ascii "[") := by
  intro h
  obtain ⟨fuel, hfuel⟩ := h.removed [0]
  have hparse : parseSequence (escByte :: ascii "[" ++ [0]) =
      some ({}, escByte :: ascii "[" ++ [0]) := parseSequence_unended rfl
  have hendless : removeAnsiLoop fuel _ _ [] = none := removeAnsiLoop_endless hparse fuel
  rw [removeAnsi, if_neg (by decide), hendless] at hfuel
  exact absurd hfuel (by simp)

end Logme
