import Logme.ControlWords
import Logme.Library.Unicode

/-!
# The words of the rest of a command

`WordSplit` and the scan for the rest of a command do not agree on what a word
is: a line end inside a word separates for the scan only, and a form feed on its
own is a word for the scan only.  Yet words without a blank inside are seen by
both, so that the rest of a command never starts behind more of them than were
to be skipped.
-/

namespace Logme

/-! ## Pieces -/

theorem splitBytes_ne_nil (d : UInt8 → Bool) (s : Name) : splitBytes d s ≠ [] := by
  cases s with
  | nil => exact List.cons_ne_nil _ _
  | cons c rest =>
      rw [splitBytes]
      split
      next => exact List.cons_ne_nil _ _
      next => split <;> exact List.cons_ne_nil _ _

theorem splitBytes_delimiter {d : UInt8 → Bool} {c : UInt8} (hc : d c = true) (rest : Name) :
    splitBytes d (c :: rest) = [] :: splitBytes d rest := by
  rw [splitBytes, if_pos hc]

/-- What stands before the next delimiter belongs to the first piece. -/
theorem splitBytes_append {d : UInt8 → Bool} {run rest piece : Name} {pieces : List Name}
    (hrun : ∀ c ∈ run, d c = false) (hrest : splitBytes d rest = piece :: pieces) :
    splitBytes d (run ++ rest) = (run ++ piece) :: pieces := by
  induction run with
  | nil => exact hrest
  | cons c run ih =>
      have hc : ¬ d c = true := by simp [hrun c List.mem_cons_self]
      rw [List.cons_append, splitBytes, if_neg hc,
        ih fun c hmem => hrun c (List.mem_cons_of_mem _ hmem)]
      rfl

theorem splitBytes_terminated {d : UInt8 → Bool} {c : UInt8} (hc : d c = true)
    (line rest : Name) :
    splitBytes d (line ++ c :: rest) = splitBytes d line ++ splitBytes d rest := by
  induction line with
  | nil => exact splitBytes_delimiter hc rest
  | cons b line ih =>
      rw [List.cons_append, splitBytes, splitBytes, ih]
      split
      next => rfl
      next =>
        obtain ⟨piece, pieces, hline⟩ := List.exists_cons_of_ne_nil (splitBytes_ne_nil d line)
        rw [hline]
        rfl

theorem splitBytes_of_notMem {d : UInt8 → Bool} {s : Name} (h : ∀ c ∈ s, d c = false) :
    splitBytes d s = [s] := by
  have hsplit : splitBytes d (s ++ []) = [s ++ []] := splitBytes_append h rfl
  rwa [List.append_nil] at hsplit

/-! ## Trimming -/

theorem trimmed_cons {space : UInt8 → Bool} {c : UInt8} (hc : space c = true) (s : Name) :
    trimmed space (c :: s) = trimmed space s := by
  rw [trimmed, List.dropWhile_cons_of_pos hc, trimmed]

theorem trimmed_eq_nil_iff {space : UInt8 → Bool} {s : Name} :
    trimmed space s = [] ↔ ∀ c ∈ s, space c = true := by
  rw [trimmed, List.reverse_eq_nil_iff, List.dropWhile_eq_nil_iff]
  simp only [List.mem_reverse]
  constructor
  · intro hall
    have hnil : s.dropWhile space = [] := by
      by_contra hne
      have hhead := List.head_dropWhile_not space hne
      rw [hall _ (List.head_mem hne)] at hhead
      contradiction
    exact List.dropWhile_eq_nil_iff.mp hnil
  · intro hall c hc
    exact hall c (List.dropWhile_subset _ hc)

/-- A byte between two that are no spaces is not trimmed. -/
theorem mem_trimmed {space : UInt8 → Bool} {before after : Name} {b : UInt8}
    (hbefore : ∃ c ∈ before, space c = false) (hafter : ∃ c ∈ after, space c = false) :
    b ∈ trimmed space (before ++ b :: after) := by
  have hdropped : ∀ s t : Name, (∃ c ∈ s, space c = false) →
      (s ++ t).dropWhile space = s.dropWhile space ++ t := by
    rintro s t ⟨c, hc, hspace⟩
    rw [List.dropWhile_append, if_neg]
    rw [List.isEmpty_iff, List.dropWhile_eq_nil_iff]
    intro hall
    rw [hall c hc] at hspace
    contradiction
  rw [trimmed, hdropped before _ hbefore, List.reverse_append, List.reverse_cons,
    List.append_assoc, hdropped]
  · simp
  · obtain ⟨c, hc, hspace⟩ := hafter
    exact ⟨c, List.mem_reverse.mpr hc, hspace⟩

/-! ## Words -/

theorem isSpaceByte_of_isBlankByte {c : UInt8} (h : isBlankByte c = true) :
    isSpaceByte c = true := by
  unfold isBlankByte at h
  unfold isSpaceByte
  simp only [Bool.or_eq_true] at h ⊢
  tauto

theorem isBlankByte_of_isDelimiterByte {c : UInt8} (h : isDelimiterByte c = true) :
    isBlankByte c = true := by
  unfold isDelimiterByte at h
  unfold isBlankByte
  simp only [Bool.or_eq_true] at h ⊢
  tauto

theorem wordSplit_of_splitBytes {s piece : Name} {pieces : List Name}
    (h : splitBytes isDelimiterByte s = piece :: pieces) :
    wordSplit s =
      (if trimSpaces piece = [] then [] else [trimSpaces piece]) ++
        (pieces.map trimSpaces).filter (· ≠ []) := by
  rw [wordSplit, wordSplitBy, h, List.map_cons, List.filter_cons]
  by_cases hpiece : trimSpaces piece = [] <;> simp [hpiece]

theorem wordSplit_space {c : UInt8} (hc : isSpaceByte c = true) (s : Name) :
    wordSplit (c :: s) = wordSplit s := by
  obtain ⟨piece, pieces, hs⟩ := List.exists_cons_of_ne_nil (splitBytes_ne_nil isDelimiterByte s)
  by_cases hdelimiter : isDelimiterByte c = true
  · rw [wordSplit, wordSplitBy, splitBytes_delimiter hdelimiter, List.map_cons,
      List.filter_cons_of_neg (by simp [trimSpaces, trimmed]), wordSplit, wordSplitBy]
  · have hsplit : splitBytes isDelimiterByte (c :: s) = (c :: piece) :: pieces :=
      splitBytes_append (List.forall_mem_singleton.mpr (by simpa using hdelimiter)) hs
    rw [wordSplit_of_splitBytes hsplit, wordSplit_of_splitBytes hs, trimSpaces,
      trimmed_cons hc]
    rfl

theorem wordSplit_spaces {run : Name} (hrun : ∀ c ∈ run, isSpaceByte c = true) (s : Name) :
    wordSplit (run ++ s) = wordSplit s := by
  induction run with
  | nil => rfl
  | cons c run ih =>
      rw [List.cons_append, wordSplit_space (hrun c List.mem_cons_self),
        ih fun c hmem => hrun c (List.mem_cons_of_mem _ hmem)]

/-- A word without a blank inside is one run of bytes between blanks. -/
theorem wordSplit_run {run rest word : Name} {words : List Name}
    (hrun : ∀ c ∈ run, isBlankByte c = false) (hvisible : ∃ c ∈ run, isSpaceByte c = false)
    (hrest : ∀ c, rest.head? = some c → isBlankByte c = true)
    (hword : ∀ c ∈ word, isBlankByte c = false)
    (hsplit : wordSplit (run ++ rest) = word :: words) : wordSplit rest = words := by
  obtain ⟨piece, pieces, hpieces⟩ :=
    List.exists_cons_of_ne_nil (splitBytes_ne_nil isDelimiterByte rest)
  have hfree : ∀ c ∈ run, isDelimiterByte c = false := by
    intro c hc
    refine Bool.eq_false_iff.mpr fun hdelimiter => ?_
    have hblank := hrun c hc
    rw [isBlankByte_of_isDelimiterByte hdelimiter] at hblank
    contradiction
  have hne : trimSpaces (run ++ piece) ≠ [] := by
    obtain ⟨c, hc, hspace⟩ := hvisible
    intro hnil
    rw [trimmed_eq_nil_iff.mp hnil c (List.mem_append_left _ hc)] at hspace
    contradiction
  rw [wordSplit_of_splitBytes (splitBytes_append hfree hpieces), if_neg hne,
    List.singleton_append, List.cons.injEq] at hsplit
  have hpiece : trimSpaces piece = [] := by
    by_contra hpiece
    rw [trimSpaces, trimmed_eq_nil_iff] at hpiece
    push Not at hpiece
    obtain ⟨c, hc, hspace⟩ := hpiece
    have hblank : ∃ b after, piece = b :: after ∧ isBlankByte b = true := by
      cases rest with
      | nil =>
          cases hpieces
          exact absurd hc List.not_mem_nil
      | cons b rest =>
          have hb := hrest b rfl
          by_cases hdelimiter : isDelimiterByte b = true
          · rw [splitBytes_delimiter hdelimiter, List.cons.injEq] at hpieces
            rw [← hpieces.1] at hc
            contradiction
          · obtain ⟨first, others, hothers⟩ :=
              List.exists_cons_of_ne_nil (splitBytes_ne_nil isDelimiterByte rest)
            have hcons : splitBytes isDelimiterByte (b :: rest) = (b :: first) :: others :=
              splitBytes_append (List.forall_mem_singleton.mpr (by simpa using hdelimiter)) hothers
            rw [hcons, List.cons.injEq] at hpieces
            exact ⟨b, first, hpieces.1.symm, hb⟩
    obtain ⟨b, after, rfl, hb⟩ := hblank
    have hafter : c ∈ after := by
      refine (List.mem_cons.mp hc).resolve_left ?_
      rintro rfl
      exact hspace (isSpaceByte_of_isBlankByte hb)
    have hmem : b ∈ word :=
      hsplit.1 ▸ mem_trimmed hvisible ⟨c, hafter, Bool.eq_false_iff.mpr hspace⟩
    rw [hword b hmem] at hb
    contradiction
  rw [wordSplit_of_splitBytes hpieces, if_pos hpiece]
  exact hsplit.2

/-! ## The rest of a command -/

section Remainder

variable {c : UInt8} (words : Nat) (rest : Name)

theorem remainderFrom_blank (inWord : Bool) (hc : isBlankByte c = true) :
    remainderFrom inWord words (c :: rest) = remainderFrom false words rest := by
  rw [remainderFrom.eq_def]
  exact if_pos hc

theorem remainderFrom_inWord (hc : isBlankByte c = false) :
    remainderFrom true words (c :: rest) = remainderFrom true words rest := by
  rw [remainderFrom.eq_def]
  simp [hc]

theorem remainderFrom_zero (hc : isBlankByte c = false) :
    remainderFrom false 0 (c :: rest) = c :: rest := by
  simp [remainderFrom, hc]

theorem remainderFrom_succ (hc : isBlankByte c = false) :
    remainderFrom false (words + 1) (c :: rest) = remainderFrom true words rest := by
  simp [remainderFrom, hc]

end Remainder

theorem remainderFrom_true (words : Nat) (s : Name) :
    remainderFrom true words s =
      remainderFrom false words (s.dropWhile fun c => !isBlankByte c) := by
  induction s with
  | nil => rfl
  | cons c rest ih =>
      cases hc : isBlankByte c with
      | true =>
          rw [List.dropWhile_cons_of_neg (by simp [hc]), remainderFrom_blank _ _ _ hc,
            remainderFrom_blank _ _ _ hc]
      | false =>
          rw [List.dropWhile_cons_of_pos (by simp [hc]), remainderFrom_inWord _ _ hc, ih]

/-- Skipping runs skips at most as many words without a blank inside. -/
theorem wordSplit_remainder {s : Name} {words : Nat} {first more : List Name}
    (hfirst : ∀ word ∈ first, ∀ c ∈ word, isBlankByte c = false)
    (hsplit : wordSplit s = first ++ more) (hwords : words < first.length) :
    ∃ skipped ≤ words,
      wordSplit (splitRemainderAfterWords s words) = first.drop skipped ++ more := by
  unfold splitRemainderAfterWords
  induction hlength : s.length using Nat.strong_induction_on generalizing s words first with
  | _ length ih =>
  subst hlength
  cases s with
  | nil =>
      rw [show wordSplit [] = [] from rfl, eq_comm, List.append_eq_nil_iff] at hsplit
      rw [hsplit.1] at hwords
      contradiction
  | cons c rest =>
      cases hc : isBlankByte c with
      | true =>
          rw [wordSplit_space (isSpaceByte_of_isBlankByte hc)] at hsplit
          rw [remainderFrom_blank _ _ _ hc]
          exact ih rest.length (Nat.lt_succ_self _) hfirst hsplit hwords rfl
      | false =>
        cases words with
        | zero =>
            rw [remainderFrom_zero _ hc]
            exact ⟨0, Nat.le_refl _, hsplit⟩
        | succ words =>
            rw [remainderFrom_succ _ _ hc, remainderFrom_true]
            have hlt : (rest.dropWhile fun c => !isBlankByte c).length < (c :: rest).length :=
              Nat.lt_succ_of_le (List.length_dropWhile_le _ rest)
            have hrun : c :: rest = (c :: rest.takeWhile fun c => !isBlankByte c) ++
                rest.dropWhile fun c => !isBlankByte c := by
              rw [List.cons_append, List.takeWhile_append_dropWhile]
            have hblanks : ∀ b ∈ c :: rest.takeWhile fun c => !isBlankByte c,
                isBlankByte b = false := by
              intro b hb
              rcases List.mem_cons.mp hb with rfl | hb
              · exact hc
              · simpa using List.mem_takeWhile_imp hb
            rw [hrun] at hsplit
            by_cases hvisible : ∃ b ∈ c :: rest.takeWhile fun c => !isBlankByte c,
                isSpaceByte b = false
            · cases first with
              | nil => contradiction
              | cons word first =>
                  have hrest := wordSplit_run hblanks hvisible ?_
                    (hfirst word List.mem_cons_self) hsplit
                  · obtain ⟨skipped, hskipped, hremainder⟩ := ih _ hlt
                      (fun w hw => hfirst w (List.mem_cons_of_mem _ hw)) hrest
                      (Nat.lt_of_succ_lt_succ hwords) rfl
                    exact ⟨skipped + 1, Nat.succ_le_succ hskipped, hremainder⟩
                  · intro b hb
                    have hnot := List.head?_dropWhile_not (fun c => !isBlankByte c) rest
                    rw [hb] at hnot
                    simpa using hnot
            · push Not at hvisible
              rw [wordSplit_spaces fun b hb => by simpa using hvisible b hb] at hsplit
              obtain ⟨skipped, hskipped, hremainder⟩ := ih _ hlt hfirst hsplit
                (Nat.lt_of_succ_lt hwords) rfl
              exact ⟨skipped, Nat.le_succ_of_le hskipped, hremainder⟩

/-! ## Lower case -/

theorem isSpaceByte_toLowerByte : isSpaceByte ∘ toLowerByte = isSpaceByte :=
  funext <| Unicode.forall_byte <| by decide +kernel

theorem isDelimiterByte_toLowerByte : isDelimiterByte ∘ toLowerByte = isDelimiterByte :=
  funext <| Unicode.forall_byte <| by decide +kernel

theorem isBlankByte_toLowerByte : isBlankByte ∘ toLowerByte = isBlankByte :=
  funext <| Unicode.forall_byte <| by decide +kernel

theorem splitBytes_map {d : UInt8 → Bool} {f : UInt8 → UInt8} (hd : d ∘ f = d) (s : Name) :
    splitBytes d (s.map f) = (splitBytes d s).map (List.map f) := by
  induction s with
  | nil => rfl
  | cons c rest ih =>
      have hc : d (f c) = d c := congrFun hd c
      rw [List.map_cons, splitBytes, splitBytes, hc, ih]
      split
      next => rfl
      next => cases splitBytes d rest <;> rfl

theorem trimmed_map {space : UInt8 → Bool} {f : UInt8 → UInt8} (hspace : space ∘ f = space)
    (s : Name) : trimmed space (s.map f) = (trimmed space s).map f := by
  simp only [trimmed, List.dropWhile_map, hspace, ← List.map_reverse]

theorem wordSplit_toLowerAscii (s : Name) :
    wordSplit (toLowerAscii s) = (wordSplit s).map toLowerAscii := by
  unfold wordSplit wordSplitBy toLowerAscii
  rw [splitBytes_map isDelimiterByte_toLowerByte, List.map_map, List.filter_map,
    List.filter_map, List.map_map]
  have hword : trimSpaces ∘ List.map toLowerByte = List.map toLowerByte ∘ trimSpaces :=
    funext fun word => trimmed_map isSpaceByte_toLowerByte word
  rw [hword]
  congr 2
  funext word
  simp

theorem remainderFrom_toLowerAscii (inWord : Bool) (words : Nat) (s : Name) :
    remainderFrom inWord words (toLowerAscii s) =
      toLowerAscii (remainderFrom inWord words s) := by
  unfold toLowerAscii
  induction s generalizing inWord words with
  | nil => rfl
  | cons c rest ih =>
      have hlower : isBlankByte (toLowerByte c) = isBlankByte c :=
        congrFun isBlankByte_toLowerByte c
      rw [List.map_cons]
      cases hc : isBlankByte c with
      | true =>
          rw [hc] at hlower
          rw [remainderFrom_blank _ _ _ hlower, remainderFrom_blank _ _ _ hc, ih]
      | false =>
          rw [hc] at hlower
          cases inWord with
          | true => rw [remainderFrom_inWord _ _ hlower, remainderFrom_inWord _ _ hc, ih]
          | false =>
              cases words with
              | zero => rw [remainderFrom_zero _ hlower, remainderFrom_zero _ hc]; rfl
              | succ words =>
                  rw [remainderFrom_succ _ _ hlower, remainderFrom_succ _ _ hc, ih]

end Logme
