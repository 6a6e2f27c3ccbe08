import Mathlib.Algebra.GroupWithZero.Nat
import Logme.FastFormatCache

/-!
# Buffer size hints

An entry that keeps where the conversions of a format stand also keeps how
large a buffer has to be for them, when none of them takes a string: the parts
of the format, the longest text of each conversion, the terminating zero byte
and the byte that `DoLog` keeps back, rounded up.
-/

namespace Logme

/-! ## The text that an entry spells -/

/-- `%p` as `AppendArg` spells it. -/
def fastPointer (value : Nat) : List Char := '0' :: 'x' :: Nat.toDigits 16 value

def argText (kind : FastFormatKind) (arg : VaArg) : List Char :=
  match kind with
  | .formatS => stringArg arg
  | .formatD => decimal arg.word.toInt
  | .formatI => decimal arg.word.toInt
  | .formatU => decimal arg.word.toNat
  | .formatP => fastPointer arg.pointer
  | .none => []
  | .literal => []

/-- What `ExecuteFastFormat` would write without a bound, with `format` in
memory at `entry.Format`. -/
def FastFormatEntry.spell (entry : FastFormatEntry) (format : FormatString)
    (args : Nat → VaArg) : List Char :=
  if entry.kind1 = .literal then format.bytes 0 entry.part0Len
  else
    format.bytes 0 entry.part0Len ++ argText entry.kind1 (args 0) ++
      format.bytes entry.part1Pos entry.part1Len ++
        if entry.specCount = 1 then []
        else argText entry.kind2 (args 1) ++ format.bytes entry.part2Pos entry.part2Len

theorem appendArg_spec {spec : Char} {kind : FastFormatKind}
    (hkind : specKind spec = some kind) (arg : VaArg) {bufferSize : Nat} {text : List Char}
    {o : FormatOutput} (hsize : 0 < bufferSize) (hwrote : Wrote bufferSize text o) :
    ∃ o', appendArg kind o arg = some o' ∧
      Wrote bufferSize (text ++ argText kind arg) o' := by
  unfold specKind at hkind
  split_ifs at hkind <;> obtain rfl := Option.some.inj hkind
  · refine ⟨_, rfl, ?_⟩
    rw [copyBounded_take]
    exact hwrote.copyBounded hsize _
  · exact ⟨_, rfl, hwrote.appendInt hsize _⟩
  · exact ⟨_, rfl, hwrote.appendInt hsize _⟩
  · exact ⟨_, rfl, hwrote.copyBounded hsize _⟩
  · exact ⟨_, rfl, hwrote.copyBounded hsize _⟩

theorem Wrote.finish_eq {bufferSize : Nat} {text : List Char} {o : FormatOutput}
    (hwrote : Wrote bufferSize text o) :
    o.finish = ⟨text.take (bufferSize - 1) ++ [nul], (text.take (bufferSize - 1)).length⟩ := by
  rw [FormatOutput.finish, hwrote.dst]

/-- An entry with a layout writes what it spells, as far as there is room,
whatever stands in memory now. -/
theorem executeFastFormat_spell {built : List Char} {entry : FastFormatEntry}
    (hlayout : Layout built entry) (format : FormatString) (args : Nat → VaArg)
    {bufferSize : Nat} (hsize : 0 < bufferSize) :
    executeFastFormat entry format bufferSize args =
      some ⟨(entry.spell format args).take (bufferSize - 1) ++ [nul],
        ((entry.spell format args).take (bufferSize - 1)).length⟩ := by
  have hstart := (wrote_nil bufferSize).copyBounded hsize (format.bytes 0 entry.part0Len)
  rw [List.nil_append] at hstart
  unfold FastFormatEntry.spell
  cases hlayout with
  | literal _ hkind _ =>
      rw [executeFastFormat_literal hkind, if_pos hkind, hstart.finish_eq]
  | one _ _ hkind hcount _ _ _ =>
      obtain ⟨o, happend, hwrote⟩ := appendArg_spec hkind (args 0) hsize hstart
      have hwrote := hwrote.copyBounded hsize (format.bytes entry.part1Pos entry.part1Len)
      rw [executeFastFormat_one (specKind_ne hkind) hcount happend,
        if_neg (specKind_ne hkind).2, if_pos hcount, List.append_nil, hwrote.finish_eq]
  | two _ _ _ hkind hkind' hcount _ _ _ _ _ =>
      obtain ⟨o, happend, hwrote⟩ := appendArg_spec hkind (args 0) hsize hstart
      have hwrote := hwrote.copyBounded hsize (format.bytes entry.part1Pos entry.part1Len)
      obtain ⟨o', happend', hwrote'⟩ := appendArg_spec hkind' (args 1) hsize hwrote
      have hwrote' := hwrote'.copyBounded hsize (format.bytes entry.part2Pos entry.part2Len)
      rw [executeFastFormat_two (specKind_ne hkind) hcount happend happend',
        if_neg (specKind_ne hkind).2, if_neg (by omega), hwrote'.finish_eq, List.append_assoc]

/-! ## The formatted message -/

/-- The text of a format, for a spelling of pointers; `other` stands for what
comes from any other conversion on. -/
def message (pointer : Nat → List Char) (other : List Char → (Nat → VaArg) → List Char) :
    List Char → (Nat → VaArg) → List Char
  | [], _ => []
  | ch :: rest, args =>
      if ch ≠ '%' then ch :: message pointer other rest args
      else
        match rest with
        | [] => other [] args
        | spec :: rest =>
            if spec = 'p' then
              pointer (args 0).pointer ++ message pointer other rest fun k => args (k + 1)
            else
              match conversion spec (args 0) with
              | some text => text ++ message pointer other rest fun k => args (k + 1)
              | none => other (spec :: rest) args

section Message

variable (pointer : Nat → List Char) (other : List Char → (Nat → VaArg) → List Char)

theorem message_append {a : List Char} (ha : '%' ∉ a) (rest : List Char)
    (args : Nat → VaArg) :
    message pointer other (a ++ rest) args = a ++ message pointer other rest args := by
  induction a with
  | nil => rfl
  | cons ch a ih =>
      rw [List.mem_cons, not_or] at ha
      rw [List.cons_append, message.eq_def]
      dsimp only
      rw [if_pos (Ne.symm ha.1), ih ha.2, List.cons_append]

theorem message_literal {a : List Char} (ha : '%' ∉ a) (args : Nat → VaArg) :
    message pointer other a args = a := by
  have happend := message_append pointer other ha [] args
  rwa [List.append_nil, message, List.append_nil] at happend

/-- The text of one conversion of the fast path. -/
def specText (spec : Char) (arg : VaArg) : List Char :=
  if spec = 'p' then pointer arg.pointer else (conversion spec arg).getD []

theorem message_percent {spec : Char} {kind : FastFormatKind}
    (hkind : specKind spec = some kind) (rest : List Char) (args : Nat → VaArg) :
    message pointer other ('%' :: spec :: rest) args =
      specText pointer spec (args 0) ++
        message pointer other rest fun k => args (k + 1) := by
  rw [message.eq_def]
  unfold specText
  dsimp only
  rw [if_neg (by simp)]
  split
  case isTrue => rfl
  case isFalse hpointer =>
    obtain ⟨text, htext, -⟩ := appendArg_conversion hkind hpointer (args 0)
    rw [htext]
    rfl

theorem specText_fast {spec : Char} {kind : FastFormatKind} (hkind : specKind spec = some kind)
    (arg : VaArg) : specText fastPointer spec arg = argText kind arg := by
  unfold specKind at hkind
  split_ifs at hkind with hs hd hi hu hp <;> obtain rfl := Option.some.inj hkind <;>
    simp [specText, conversion, argText, *]

end Message

/-- An entry spells what its format denotes. -/
theorem Layout.spell_eq {entry : FastFormatEntry} {format : FormatString}
    (hlayout : Layout format.chars entry) (other : List Char → (Nat → VaArg) → List Char)
    (args : Nat → VaArg) :
    entry.spell format args = message fastPointer other format.chars args := by
  generalize htext : format.chars = text at hlayout
  unfold FastFormatEntry.spell
  cases hlayout with
  | literal ha hkind hlen =>
      rw [if_pos hkind, message_literal fastPointer other ha]
      exact FormatString.bytes_eq [] [] (htext.trans (by simp)) rfl hlen
  | @one a b spec _ ha hb hkind hcount hl0 hp1 hl1 =>
      obtain ⟨h0, h1⟩ := FormatString.bytes_one htext hl0 hp1 hl1
      rw [if_neg (specKind_ne hkind).2, if_pos hcount, h0, h1, List.append_nil,
        message_append fastPointer other ha, message_percent fastPointer other hkind,
        message_literal fastPointer other hb, specText_fast hkind, List.append_assoc]
  | @two a b c spec spec' _ ha hb hc hkind hkind' hcount hl0 hp1 hl1 hp2 hl2 =>
      obtain ⟨h0, h1, h2⟩ := FormatString.bytes_two htext hl0 hp1 hl1 hp2 hl2
      rw [if_neg (specKind_ne hkind).2, if_neg (by omega), h0, h1, h2,
        message_append fastPointer other ha, message_percent fastPointer other hkind,
        message_append fastPointer other hb, message_percent fastPointer other hkind',
        message_literal fastPointer other hc, specText_fast hkind, specText_fast hkind']
      simp only [List.append_assoc]

/-! ## Lengths of conversions -/

theorem length_toDigits_le {b n k : Nat} (hb : 1 < b) (hk : 0 < k) (hn : n < b ^ k) :
    (Nat.toDigits b n).length ≤ k :=
  (Nat.length_toDigits_le_iff hb hk).mpr hn

theorem length_argText_le {kind : FastFormatKind} {arg : VaArg} (hpointer : arg.pointer < 2 ^ 64)
    (hstring : kind ≠ .formatS) : (argText kind arg).length ≤ getMaxArgTextSize kind := by
  have hsigned : (decimal arg.word.toInt).length ≤ 11 := by
    have hlow := arg.word.le_toInt
    have hhigh := arg.word.toInt_lt
    have hdigits := length_toDigits_le (b := 10) (by decide) (k := 10) (by decide)
      (show arg.word.toInt.natAbs < 10 ^ 10 by omega)
    unfold decimal
    split
    · rw [List.length_cons]
      omega
    · omega
  have hunsigned : (decimal arg.word.toNat).length ≤ 10 := by
    have hhigh := arg.word.isLt
    have hdigits := length_toDigits_le (b := 10) (by decide) (k := 10) (by decide)
      (show (arg.word.toNat : Int).natAbs < 10 ^ 10 by omega)
    rw [decimal, if_neg (by omega)]
    exact hdigits
  have hhex : (fastPointer arg.pointer).length ≤ 18 := by
    have hdigits := length_toDigits_le (b := 16) (by decide) (k := 16) (by decide)
      (show arg.pointer < 16 ^ 16 by omega)
    rw [fastPointer, List.length_cons, List.length_cons]
    omega
  cases kind with
  | none => exact Nat.zero_le 0
  | literal => exact Nat.zero_le 0
  | formatS => exact absurd rfl hstring
  | formatD => exact hsigned
  | formatI => exact hsigned
  | formatU => exact hunsigned
  | formatP => exact hhex

/-! ## The hint of an entry -/

theorem le_alignBufferSizeHint {needed size : Nat} (hle : needed ≤ size)
    (hcap : needed ≤ 0xFFFF) : needed ≤ alignBufferSizeHint size := by
  unfold alignBufferSizeHint
  omega

/-- The scan never makes an entry literal. -/
theorem scanFormat_not_literal {text : List Char} {i : Nat} {entry result : FastFormatEntry}
    (hscan : scanFormat text i entry = .ok result)
    (hentry : entry.specCount = 0 ∨ entry.kind1 ≠ .literal) :
    result.specCount = 0 ∨ result.kind1 ≠ .literal := by
  fun_induction scanFormat text i entry with
  | case1 =>
      obtain rfl := Except.ok.inj hscan
      exact hentry
  | case2 _ _ _ _ _ ih => exact ih hscan hentry
  | case3 | case4 | case7 => exact absurd hscan (by simp)
  | case5 _ _ _ _ _ _ _ hkind _ ih => exact ih hscan (.inr (specKind_ne hkind).2)
  | case6 _ _ _ _ _ _ _ _ hzero _ ih => exact ih hscan (.inr (hentry.resolve_left hzero))

theorem finishFormat_literal_hint {entry : FastFormatEntry} (n : Nat)
    (hcount : entry.specCount = 0) :
    (finishFormat n entry).bufferSizeHint = alignBufferSizeHint (n + 2) := by
  rw [finishFormat, if_pos hcount]

/-- The longest text of an entry without string conversions. -/
def FastFormatEntry.needs (entry : FastFormatEntry) : Nat :=
  entry.part0Len + getMaxArgTextSize entry.kind1 + entry.part1Len +
    if entry.specCount = 1 then 0
    else getMaxArgTextSize entry.kind2 + entry.part2Len

theorem finishFormat_hint {entry : FastFormatEntry} (n : Nat) (hcount : entry.specCount ≠ 0)
    (hlimit : entry.specCount ≤ 2) (hmax : 0 < getMaxArgTextSize entry.kind1)
    (hmax' : entry.specCount = 2 → 0 < getMaxArgTextSize entry.kind2)
    (hcap : (finishFormat n entry).needs + 2 ≤ 0xFFFF) :
    (finishFormat n entry).needs + 2 ≤ (finishFormat n entry).bufferSizeHint := by
  have hlengths : ∀ e : FastFormatEntry, e.needs + 2 ≤ 0xFFFF → 0 < e.specCount →
      e.specCount ≤ 2 → e.needs + 2 ≤ alignBufferSizeHint (e.part0Len + e.part1Len +
        e.part2Len + getMaxArgTextSize e.kind1 +
          (if e.specCount = 2 then getMaxArgTextSize e.kind2 else 0) + 2) := by
    intro e hcap hpos hle
    apply le_alignBufferSizeHint _ hcap
    unfold FastFormatEntry.needs
    split_ifs <;> omega
  unfold finishFormat at hcap ⊢
  rw [if_neg hcount] at hcap ⊢
  dsimp only at hcap ⊢
  by_cases hone : entry.specCount = 1
  · rw [if_pos hone] at hcap ⊢
    rw [if_pos ⟨hmax, .inl (by dsimp only; omega)⟩] at hcap ⊢
    exact hlengths _ hcap (by dsimp only; omega) (by dsimp only; omega)
  · rw [if_neg hone] at hcap ⊢
    have htwo : entry.specCount = 2 := by omega
    rw [if_pos ⟨hmax, .inr (by rw [if_pos htwo]; exact hmax' htwo)⟩] at hcap ⊢
    exact hlengths _ hcap (by dsimp only; omega) (by dsimp only; omega)

theorem finishFormat_kept {entry : FastFormatEntry} (n : Nat) (hcount : entry.specCount ≠ 0) :
    (finishFormat n entry).specCount = entry.specCount ∧
      (finishFormat n entry).kind1 = entry.kind1 ∧
      (finishFormat n entry).kind2 = entry.kind2 := by
  unfold finishFormat
  rw [if_neg hcount]
  dsimp only
  split_ifs <;> exact ⟨rfl, rfl, rfl⟩

theorem buildFastFormat_fast {format : Nat} {text : List Char}
    (hfast : (buildFastFormat format text).kind1 ≠ .none) :
    text.length < fastFormatScanLimit ∧ Layout text (buildFastFormat format text) ∧
      ∃ result, scanFormat text 0 { FastFormatEntry.zero with format := format } = .ok result ∧
        buildFastFormat format text = finishFormat text.length result := by
  have hlayout := (buildFastFormat_cases format text).resolve_left hfast
  unfold buildFastFormat at hfast hlayout ⊢
  split at hfast
  case isTrue => exact absurd rfl hfast
  case isFalse hformat =>
    split at hfast
    case isTrue => exact absurd rfl hfast
    case isFalse hshort =>
      rw [if_neg hformat, if_neg hshort] at hlayout ⊢
      refine ⟨by omega, hlayout, ?_⟩
      dsimp only at hfast ⊢
      split at hfast
      next entry hscan => exact absurd (scanFormat_error hscan) hfast
      next result hscan => exact ⟨result, hscan, rfl⟩

@[simp] theorem FormatString.length_bytes (format : FormatString) (pos len : Nat) :
    (format.bytes pos len).length = len := by
  rw [FormatString.bytes, List.length_map, List.length_range]

/-- What the conversions leave of the longest texts is what they spell. -/
theorem FastFormatEntry.length_spell_le {entry : FastFormatEntry} (format : FormatString)
    {args : Nat → VaArg} (hpointers : ∀ k, (args k).pointer < 2 ^ 64)
    (hkind : entry.kind1 ≠ .literal) (hstring : entry.kind1 ≠ .formatS ∧ entry.kind2 ≠ .formatS) :
    (entry.spell format args).length ≤ entry.needs := by
  have h1 := length_argText_le (hpointers 0) hstring.1
  have h2 := length_argText_le (hpointers 1) hstring.2
  unfold FastFormatEntry.spell FastFormatEntry.needs
  rw [if_neg hkind]
  simp only [List.length_append, FormatString.length_bytes]
  split_ifs
  · rw [List.length_nil]
    omega
  · rw [List.length_append, FormatString.length_bytes]
    omega

theorem getMaxArgTextSize_pos {spec : Char} {kind : FastFormatKind}
    (hkind : specKind spec = some kind) (hstring : kind ≠ .formatS) :
    0 < getMaxArgTextSize kind := by
  unfold specKind at hkind
  split_ifs at hkind <;> obtain rfl := Option.some.inj hkind
  · exact absurd rfl hstring
  all_goals decide

/-- The parts of the format are shorter than the format. -/
theorem Layout.needs_le {text : List Char} {entry : FastFormatEntry} (h : Layout text entry)
    (hliteral : entry.kind1 ≠ .literal)
    (hstring : entry.kind1 ≠ .formatS ∧ entry.kind2 ≠ .formatS) :
    entry.specCount ≤ 2 ∧ 0 < getMaxArgTextSize entry.kind1 ∧
      (entry.specCount = 2 → 0 < getMaxArgTextSize entry.kind2) ∧
      entry.needs ≤ text.length + 36 := by
  have hmax : ∀ kind, getMaxArgTextSize kind ≤ 18 := by
    intro kind
    cases kind <;> decide
  have hmax1 := hmax entry.kind1
  have hmax2 := hmax entry.kind2
  unfold FastFormatEntry.needs
  cases h with
  | literal _ hkind _ => exact absurd hkind hliteral
  | one _ _ hkind hone h0 _ hl1 =>
      refine ⟨by omega, getMaxArgTextSize_pos hkind hstring.1, by omega, ?_⟩
      rw [if_pos hone, List.length_append, List.length_cons, List.length_cons]
      omega
  | two _ _ _ hkind hkind' htwo h0 _ hl1 _ hl2 =>
      refine ⟨by omega, getMaxArgTextSize_pos hkind hstring.1,
        fun _ => getMaxArgTextSize_pos hkind' hstring.2, ?_⟩
      rw [if_neg (by omega), List.length_append, List.length_cons, List.length_cons,
        List.length_append, List.length_cons, List.length_cons]
      omega

/-- The hint leaves room for the text, its terminating zero byte and one byte
more. -/
theorem spell_le_hint (format : FormatString) {args : Nat → VaArg}
    (hpointers : ∀ k, (args k).pointer < 2 ^ 64) {entry : FastFormatEntry}
    (hentry : entry = buildFastFormat format.address format.chars)
    (hfast : entry.kind1 ≠ .none)
    (hstring : entry.kind1 ≠ .formatS ∧ entry.kind2 ≠ .formatS) :
    (entry.spell format args).length + 2 ≤ entry.bufferSizeHint := by
  rw [hentry] at hfast
  obtain ⟨hshort, hlayout, result, hscan, hfinish⟩ := buildFastFormat_fast hfast
  rw [← hentry] at hlayout hfinish
  have hlimit : fastFormatScanLimit = 48 := rfl
  by_cases hcount : result.specCount = 0
  · have hliteral : entry.kind1 = .literal ∧ entry.part0Len = format.chars.length := by
      rw [hfinish, finishFormat, if_pos hcount]
      exact ⟨rfl, rfl⟩
    rw [FastFormatEntry.spell, if_pos hliteral.1, FormatString.length_bytes, hliteral.2, hfinish,
      finishFormat_literal_hint _ hcount]
    exact le_alignBufferSizeHint (Nat.le_refl _) (by omega)
  · obtain ⟨hcount', hkind1, hkind2⟩ := finishFormat_kept format.chars.length hcount
    rw [← hfinish] at hcount' hkind1 hkind2
    have hliteral : entry.kind1 ≠ .literal := by
      rw [hkind1]
      exact (scanFormat_not_literal hscan (.inl rfl)).resolve_left hcount
    obtain ⟨hle, hmax1, hmax2, hneeds⟩ := hlayout.needs_le hliteral hstring
    rw [hcount'] at hle hmax2
    have hlength := entry.length_spell_le format hpointers hliteral hstring
    have hhint := finishFormat_hint format.chars.length hcount hle (by rwa [← hkind1])
      (fun htwo => by rw [← hkind2]; exact hmax2 htwo) (by rw [← hfinish]; omega)
    rw [← hfinish] at hhint
    omega

/-- A format on the fast path without string conversions is never truncated in
a buffer of the hinted size, of which `DoLog` keeps back one byte. -/
theorem hint_sufficient (other : List Char → (Nat → VaArg) → List Char)
    (format : FormatString) (args : Nat → VaArg) (hpointers : ∀ k, (args k).pointer < 2 ^ 64)
    {entry : FastFormatEntry} (hentry : entry = buildFastFormat format.address format.chars)
    (hfast : entry.kind1 ≠ .none)
    (hstring : entry.kind1 ≠ .formatS ∧ entry.kind2 ≠ .formatS) :
    (message fastPointer other format.chars args).length + 1 + 1 ≤ entry.bufferSizeHint ∧
      executeFastFormat entry format (entry.bufferSizeHint - 1) args =
        some ⟨message fastPointer other format.chars args ++ [nul],
          (message fastPointer other format.chars args).length⟩ := by
  have hlayout : Layout format.chars entry := by
    rw [hentry] at hfast ⊢
    exact (buildFastFormat_fast hfast).2.1
  have hroom := spell_le_hint format hpointers hentry hfast hstring
  rw [executeFastFormat_spell hlayout format args (by omega), List.take_of_length_le (by omega),
    hlayout.spell_eq other args] at *
  exact ⟨hroom, rfl⟩

/-- The longest texts of `%p` and `%d`. -/
theorem hint_sufficient_longest :
    ∃ format : FormatString, ∃ args : Nat → VaArg,
      (message fastPointer (fun _ _ => []) format.chars args).length = 30 ∧
        (message fastPointer (fun _ _ => []) format.chars args).length + 1 + 1 ≤
          (buildFastFormat format.address format.chars).bufferSizeHint ∧
        executeFastFormat (buildFastFormat format.address format.chars) format
            ((buildFastFormat format.address format.chars).bufferSizeHint - 1) args =
          some ⟨message fastPointer (fun _ _ => []) format.chars args ++ [nul],
            (message fastPointer (fun _ _ => []) format.chars args).length⟩ :=
  ⟨⟨⟨['%', 'p', ' ', '%', 'd'], by decide⟩, 1, fun _ => nul⟩,
    fun _ => ⟨none, 0x80000000, 2 ^ 64 - 1⟩, by decide +kernel,
    hint_sufficient _ _ _ (fun _ => by decide) rfl (by decide) (by decide)⟩

end Logme
