import Logme.Library.EcmaScriptPattern
import Logme.Template

/-!
# The pattern of a template

The patterns that recognize the files of a template are made by textual
replacement: special characters are escaped, and every placeholder becomes a
wildcard.  For a template whose braces all belong to placeholders the result
is the template piece by piece, with one wildcard for each run of adjacent
placeholders.
-/

namespace Logme

open EcmaScriptPattern

def TINDEX : List Char := "{index}".toList

/-- From a template whose other placeholders have been processed to the text
of the pattern. -/
def cleanPatternText (homeDirectory re : List Char) : List Char :=
  let re := replaceAll re TINDEX TDATETIME
  let re := if isAbsolutePath re then re else homeDirectory ++ re
  replaceDatetimePlaceholders re

inductive Placeholder where
  | date
  | datetime
  | index
  deriving DecidableEq

inductive TemplatePiece where
  | letter (c : Char)
  | placeholder (k : Placeholder)

/-- Every brace belongs to a placeholder. -/
def BracesPaired (pieces : List TemplatePiece) : Prop :=
  ∀ c, .letter c ∈ pieces → c ≠ '{' ∧ c ≠ '}'

/-! ## Replacement piece by piece -/

/-- No occurrence of `what` begins in `s`, whatever follows. -/
def Inert (what s : List Char) : Prop :=
  ∀ v rest, v ≠ [] → v <:+ s → ¬ what <+: v ++ rest

theorem inert_nil (what : List Char) : Inert what [] := by
  intro v rest hne hsuffix
  exact absurd (List.suffix_nil.mp hsuffix) hne

theorem Inert.cons {what s : List Char} {c : Char} (h : Inert what s)
    (hfirst : ∀ rest, ¬ what <+: c :: s ++ rest) : Inert what (c :: s) := by
  intro v rest hne hsuffix
  rcases List.suffix_cons_iff.mp hsuffix with rfl | hsuffix
  · exact hfirst rest
  · exact h v rest hne hsuffix

theorem inert_of_not_mem {what s : List Char} {a : Char}
    (hwhat : what.head? = some a) (ha : a ∉ s) : Inert what s := by
  induction s with
  | nil => exact inert_nil what
  | cons c s ih =>
      rw [List.mem_cons, not_or] at ha
      refine (ih ha.2).cons fun rest hlabel => ha.1 ?_
      cases what with
      | nil => simp at hwhat
      | cons b what =>
          rw [List.head?_cons, Option.some.injEq] at hwhat
          rw [List.cons_append, List.cons_prefix_cons] at hlabel
          exact hwhat.symm.trans hlabel.1

theorem Inert.append {what s t : List Char} (hs : Inert what s)
    (ht : Inert what t) : Inert what (s ++ t) := by
  induction s with
  | nil => exact ht
  | cons c s ih =>
      have htail : Inert what s := fun v rest hne hsuffix =>
        hs v rest hne (hsuffix.trans (List.suffix_cons c s))
      refine (ih htail).cons fun rest => ?_
      rw [← List.cons_append, List.append_assoc]
      exact hs (c :: s) (t ++ rest) (by simp) List.suffix_rfl

theorem replaceFirst_cons {what on rest : List Char} {c : Char}
    (h : ¬ what <+: c :: rest) :
    replaceFirst what on (c :: rest) =
      (replaceFirst what on rest).map (c :: ·) := by
  rw [replaceFirst, if_neg (by rwa [List.isPrefixOf_iff_prefix])]

theorem replaceFirst_append {what on : List Char} {s : List Char}
    (h : Inert what s) (t : List Char) :
    replaceFirst what on (s ++ t) =
      (replaceFirst what on t).map (s ++ ·) := by
  induction s with
  | nil => simp
  | cons c s ih =>
      have htail : Inert what s := fun v rest hne hsuffix =>
        h v rest hne (hsuffix.trans (List.suffix_cons c s))
      have hfirst : ¬ what <+: c :: (s ++ t) :=
        h (c :: s) t (by simp) List.suffix_rfl
      rw [List.cons_append, replaceFirst_cons hfirst, ih htail, Option.map_map]
      rfl

theorem replaceFirst_self {what on : List Char} (hwhat : what ≠ [])
    (t : List Char) : replaceFirst what on (what ++ t) = some (on ++ t) := by
  cases what with
  | nil => exact absurd rfl hwhat
  | cons a what =>
      rw [List.cons_append, replaceFirst, if_pos, ← List.cons_append,
        List.drop_left]
      rw [List.isPrefixOf_iff_prefix, ← List.cons_append]
      exact List.prefix_append _ _

theorem replaceFirst_nil {what on : List Char} (hwhat : what ≠ []) :
    replaceFirst what on [] = none :=
  if_neg hwhat

section Pieces

variable {ι : Type} {what on : List Char} {f g : ι → List Char}

/-- The occurrences are the pieces that are the text to be replaced. -/
theorem replaceLoop_flatMap (hwhat : what ≠ []) (hon : Inert what on)
    {pieces : List ι}
    (hpieces : ∀ p ∈ pieces,
      (f p = what ∧ g p = on) ∨ (g p = f p ∧ Inert what (f p)))
    (before : List Char) (hbefore : Inert what before) (fuel : Nat)
    (hfuel : (pieces.flatMap f).length < fuel) :
    replaceLoop what on fuel (before ++ pieces.flatMap f) =
      before ++ pieces.flatMap g := by
  induction pieces generalizing before fuel with
  | nil =>
      cases fuel with
      | zero => omega
      | succ fuel =>
          rw [replaceLoop, replaceFirst_append hbefore, List.flatMap_nil,
            replaceFirst_nil hwhat]
          rfl
  | cons p pieces ih =>
      have hrest := ih fun q hq => hpieces q (List.mem_cons_of_mem p hq)
      rw [List.flatMap_cons, List.length_append] at hfuel
      rw [List.flatMap_cons, List.flatMap_cons]
      rcases hpieces p List.mem_cons_self with ⟨hp, hgp⟩ | ⟨hgp, hinert⟩
      · have hpos := List.length_pos_iff.mpr hwhat
        cases fuel with
        | zero => omega
        | succ fuel =>
            rw [hp, hgp, replaceLoop, replaceFirst_append hbefore,
              replaceFirst_self hwhat]
            rw [hp] at hfuel
            have hnext := hrest _ (hbefore.append hon) fuel (by omega)
            simpa using hnext
      · rw [hgp, ← List.append_assoc, ← List.append_assoc]
        exact hrest _ (hbefore.append hinert) fuel (by omega)

theorem replaceAll_flatMap (hne : what ≠ on) (hwhat : what ≠ [])
    (hon : Inert what on) {pieces : List ι}
    (hpieces : ∀ p ∈ pieces,
      (f p = what ∧ g p = on) ∨ (g p = f p ∧ Inert what (f p))) :
    replaceAll (pieces.flatMap f) what on = pieces.flatMap g := by
  rw [replaceAll, if_neg hne]
  exact replaceLoop_flatMap hwhat hon hpieces [] (inert_nil what) _
    (Nat.lt_succ_self _)

end Pieces

/-! ## Adjacent wildcards -/

/-- Of adjacent placeholders the last one is left. -/
def collapse : List TemplatePiece → List TemplatePiece
  | [] => []
  | .letter c :: pieces => .letter c :: collapse pieces
  | [.placeholder k] => [.placeholder k]
  | .placeholder k :: .letter c :: pieces =>
      .placeholder k :: .letter c :: collapse pieces
  | .placeholder _ :: .placeholder k :: pieces =>
      collapse (.placeholder k :: pieces)

/-- The text of a piece in the pattern. -/
def TemplatePiece.pattern : TemplatePiece → List Char
  | .letter c => escapeChar c
  | .placeholder _ => anyTextPattern

def twoWildcards : List Char := anyTextPattern ++ anyTextPattern

/-- No occurrence begins in `s` unless the rest continues a wildcard that
ends `s`. -/
def Passed (s : List Char) : Prop :=
  ∀ rest, rest.head? ≠ some '+' →
    replaceFirst twoWildcards anyTextPattern (s ++ rest) =
      (replaceFirst twoWildcards anyTextPattern rest).map (s ++ ·)

theorem Passed.append {s t : List Char} (hs : Passed s) (ht : Passed t)
    (hhead : t.head? ≠ some '+') : Passed (s ++ t) := by
  intro rest hrest
  have hnext : (t ++ rest).head? ≠ some '+' := by
    cases t with
    | nil => exact hrest
    | cons c t => exact hhead
  rw [List.append_assoc, hs _ hnext, ht rest hrest, Option.map_map]
  simp [Function.comp_def]

theorem replaceFirst_skip {c : Char} {rest : List Char}
    (h : c = '.' → rest.head? ≠ some '+') :
    replaceFirst twoWildcards anyTextPattern (c :: rest) =
      (replaceFirst twoWildcards anyTextPattern rest).map (c :: ·) := by
  apply replaceFirst_cons
  intro hlabel
  have hwild : twoWildcards = '.' :: '+' :: '.' :: ['+'] := rfl
  rw [hwild, List.cons_prefix_cons] at hlabel
  rcases hlabel with ⟨rfl, hlabel⟩
  cases rest with
  | nil => simp at hlabel
  | cons d rest =>
      rw [List.cons_prefix_cons] at hlabel
      exact h rfl (by rw [List.head?_cons, ← hlabel.1])

theorem escapeChar_cases (c : Char) :
    (isSpecialChar c = true ∧ escapeChar c = ['\\', c]) ∨
      (isSpecialChar c = false ∧ escapeChar c = [c]) := by
  unfold escapeChar
  cases isSpecialChar c with
  | true => exact .inl ⟨rfl, rfl⟩
  | false => exact .inr ⟨rfl, rfl⟩

theorem ne_of_not_special {c d : Char} (hc : isSpecialChar c = false)
    (hd : isSpecialChar d = true) : c ≠ d := by
  rintro rfl
  rw [hc] at hd
  exact absurd hd (by simp)

theorem passed_nil : Passed [] := by
  intro rest _
  simp

theorem passed_escapeChar (c : Char) : Passed (escapeChar c) := by
  intro rest hrest
  rcases escapeChar_cases c with ⟨-, hescape⟩ | ⟨hplain, hescape⟩
  · rw [hescape, List.cons_append, List.cons_append, List.nil_append,
      replaceFirst_skip (by simp), replaceFirst_skip fun _ => hrest,
      Option.map_map]
    rfl
  · rw [hescape, List.cons_append, List.nil_append,
      replaceFirst_skip fun hdot =>
        absurd hdot (ne_of_not_special hplain rfl)]
    rfl

theorem head_escapeChar (c : Char) (rest : List Char) :
    (escapeChar c ++ rest).head? ≠ some '+' ∧
      (escapeChar c ++ rest).head? ≠ some '.' := by
  rcases escapeChar_cases c with ⟨-, hescape⟩ | ⟨hplain, hescape⟩
  · rw [hescape]
    exact ⟨by simp, by simp⟩
  · rw [hescape]
    refine ⟨fun hplus => ?_, fun hdot => ?_⟩
    · exact ne_of_not_special hplain rfl (Option.some.inj hplus)
    · exact ne_of_not_special hplain rfl (Option.some.inj hdot)

/-- A wildcard with something else behind it. -/
theorem replaceFirst_wildcard (rest : List Char)
    (hrest : rest.head? ≠ some '.' ∧ rest.head? ≠ some '+') :
    replaceFirst twoWildcards anyTextPattern (anyTextPattern ++ rest) =
      (replaceFirst twoWildcards anyTextPattern rest).map
        (anyTextPattern ++ ·) := by
  have hfirst : ¬ twoWildcards <+: '.' :: '+' :: rest := by
    intro hlabel
    have hwild : twoWildcards = '.' :: '+' :: '.' :: ['+'] := rfl
    rw [hwild, List.cons_prefix_cons, List.cons_prefix_cons] at hlabel
    cases rest with
    | nil => simp at hlabel
    | cons c rest =>
        have hc := (List.cons_prefix_cons.mp hlabel.2.2).1
        exact hrest.1 (by rw [List.head?_cons, ← hc])
  have hsplit : anyTextPattern ++ rest = '.' :: '+' :: rest := rfl
  rw [hsplit, replaceFirst_cons hfirst,
    replaceFirst_skip fun hplus => absurd hplus (by decide), Option.map_map]
  rfl

theorem replaceLoop_collapse (pieces : List TemplatePiece)
    (before : List Char) (hbefore : Passed before) (fuel : Nat)
    (hfuel : (pieces.flatMap TemplatePiece.pattern).length < fuel) :
    replaceLoop twoWildcards anyTextPattern fuel
        (before ++ pieces.flatMap TemplatePiece.pattern) =
      before ++ (collapse pieces).flatMap TemplatePiece.pattern := by
  have hempty : replaceFirst twoWildcards anyTextPattern [] = none := rfl
  induction pieces using collapse.induct generalizing before fuel with
  | case1 =>
      cases fuel with
      | zero => omega
      | succ fuel =>
          have hnone := hbefore [] (by simp)
          rw [hempty] at hnone
          rw [List.flatMap_nil, replaceLoop, hnone]
          rfl
  | case2 c pieces ih =>
      have hpassed := hbefore.append (passed_escapeChar c) (by
        have hhead := (head_escapeChar c []).1
        rwa [List.append_nil] at hhead)
      simp only [List.flatMap_cons, List.length_append, collapse,
        TemplatePiece.pattern, ← List.append_assoc] at hfuel ⊢
      exact ih _ hpassed fuel (by omega)
  | case3 k =>
      cases fuel with
      | zero => omega
      | succ fuel =>
          have hend := replaceFirst_wildcard [] ⟨by simp, by simp⟩
          have hnone := hbefore anyTextPattern (by decide)
          rw [List.append_nil, hempty] at hend
          rw [hend] at hnone
          simp only [List.flatMap_cons, List.flatMap_nil, List.append_nil,
            TemplatePiece.pattern, collapse]
          rw [replaceLoop, hnone]
          rfl
  | case4 k c pieces ih =>
      have hpassed : Passed (before ++ (anyTextPattern ++ escapeChar c)) := by
        refine hbefore.append ?_ (by simp [anyTextPattern])
        intro rest hrest
        rw [List.append_assoc, replaceFirst_wildcard _
          ⟨(head_escapeChar c rest).2, (head_escapeChar c rest).1⟩,
          passed_escapeChar c rest hrest, Option.map_map]
        rfl
      simp only [List.flatMap_cons, List.length_append, collapse,
        TemplatePiece.pattern] at hfuel ⊢
      have hnext := ih _ hpassed fuel (by omega)
      simpa using hnext
  | case5 k k' pieces ih =>
      cases fuel with
      | zero => omega
      | succ fuel =>
          have hpair := hbefore
            (twoWildcards ++ pieces.flatMap TemplatePiece.pattern)
            (by simp [twoWildcards, anyTextPattern])
          rw [replaceFirst_self (by decide)] at hpair
          have hnext := ih _ hbefore fuel (by
            simp only [List.flatMap_cons, List.length_append,
              TemplatePiece.pattern, anyTextPattern] at hfuel ⊢
            have hlength : ".+".toList.length = 2 := rfl
            omega)
          simp only [List.flatMap_cons, collapse, TemplatePiece.pattern,
            ← List.append_assoc] at hnext ⊢
          rw [List.append_assoc before, ← twoWildcards, List.append_assoc,
            replaceLoop, hpair]
          dsimp only [Option.map_some]
          rw [← List.append_assoc]
          exact hnext

/-- Of the syntax characters only the braces are not escaped. -/
theorem isSyntaxCharacter_eq {c : Char} (hc : c ≠ '{' ∧ c ≠ '}') :
    isSyntaxCharacter c = isSpecialChar c := by
  unfold isSyntaxCharacter isSpecialChar
  simp only [List.mem_cons, List.not_mem_nil, or_false, decide_eq_decide]
  tauto

/-! ## The pattern of a template -/

/-- The text behind the replacement of `{index}`. -/
def TemplatePiece.dated : TemplatePiece → List Char
  | .letter c => [c]
  | .placeholder .date => TDATE
  | .placeholder _ => TDATETIME

/-- The text behind the escape of special characters and the replacement of
`{date}`. -/
def TemplatePiece.undated : TemplatePiece → List Char
  | .letter c => escapeChar c
  | .placeholder .date => anyTextPattern
  | .placeholder _ => TDATETIME

theorem inert_brace {what s : List Char} (hwhat : what.head? = some '{')
    (hs : '{' ∉ s) : Inert what s :=
  inert_of_not_mem hwhat hs

/-- A placeholder that differs within its first `n` characters. -/
theorem inert_placeholder (n : Nat) {what s : List Char}
    (hwhat : what.head? = some '{') (hs : '{' ∉ s.drop 1)
    (hlength : n ≤ what.length ∧ n ≤ s.length)
    (hdiffer : what.take n ≠ s.take n) : Inert what s := by
  cases s with
  | nil => exact inert_nil what
  | cons c s =>
      refine (inert_brace hwhat hs).cons fun rest hlabel => hdiffer ?_
      rcases hlabel with ⟨tail, htail⟩
      have hwhole : (what ++ tail).take n = what.take n :=
        List.take_append_of_le_length hlength.1
      rw [← hwhole, htail]
      exact List.take_append_of_le_length hlength.2

theorem not_mem_escapeChar {c : Char} (hc : c ≠ '{') :
    '{' ∉ escapeChar c := by
  rcases escapeChar_cases c with ⟨-, hescape⟩ | ⟨-, hescape⟩ <;> rw [hescape]
  · simp [hc.symm]
  · simp [hc.symm]

theorem replaceAll_date {pieces : List TemplatePiece}
    (hpaired : BracesPaired pieces) :
    replaceAll ((pieces.flatMap TemplatePiece.dated).flatMap escapeChar) TDATE
        anyTextPattern =
      pieces.flatMap TemplatePiece.undated := by
  rw [List.flatMap_assoc]
  refine replaceAll_flatMap (by decide) (by decide)
    (inert_brace rfl (by decide)) fun p hp => ?_
  cases p with
  | letter c =>
      have hc := (hpaired c hp).1
      refine .inr ⟨by simp [TemplatePiece.dated, TemplatePiece.undated], ?_⟩
      apply inert_brace rfl
      simpa [TemplatePiece.dated] using not_mem_escapeChar hc
  | placeholder k =>
      cases k with
      | date => exact .inl ⟨by decide, rfl⟩
      | datetime =>
          exact .inr ⟨by decide,
            inert_placeholder 6 rfl (by decide) (by decide) (by decide)⟩
      | index =>
          exact .inr ⟨by decide,
            inert_placeholder 6 rfl (by decide) (by decide) (by decide)⟩

theorem replaceAll_datetime {pieces : List TemplatePiece}
    (hpaired : BracesPaired pieces) :
    replaceAll (pieces.flatMap TemplatePiece.undated) TDATETIME
        anyTextPattern =
      pieces.flatMap TemplatePiece.pattern := by
  refine replaceAll_flatMap (by decide) (by decide)
    (inert_brace rfl (by decide)) fun p hp => ?_
  cases p with
  | letter c =>
      have hc := (hpaired c hp).1
      exact .inr ⟨rfl, inert_brace rfl (not_mem_escapeChar hc)⟩
  | placeholder k =>
      cases k with
      | date => exact .inr ⟨rfl, inert_brace rfl (by decide)⟩
      | datetime => exact .inl ⟨rfl, rfl⟩
      | index => exact .inl ⟨rfl, rfl⟩

theorem replaceDatetimePlaceholders_eq {pieces : List TemplatePiece}
    (hpaired : BracesPaired pieces) :
    replaceDatetimePlaceholders (pieces.flatMap TemplatePiece.dated) =
      (collapse pieces).flatMap TemplatePiece.pattern := by
  have htwo : twoWildcards ≠ anyTextPattern := by decide
  unfold replaceDatetimePlaceholders
  dsimp only
  rw [replaceAll_date hpaired, replaceAll_datetime hpaired, ← twoWildcards,
    replaceAll, if_neg htwo]
  exact replaceLoop_collapse pieces [] passed_nil _ (Nat.lt_succ_self _)

theorem flatMap_letters (f : TemplatePiece → List Char)
    (text : List Char) (hf : ∀ c, f (.letter c) = [c]) :
    (text.map TemplatePiece.letter).flatMap f = text := by
  induction text with
  | nil => rfl
  | cons c text ih =>
      rw [List.map_cons, List.flatMap_cons, hf, ih]
      rfl

/-- A brace that belongs to no placeholder is not escaped. -/
example : (compile (cleanPatternText "/srv/{app}/".toList
    "app.log".toList)).isNone = true := by
  decide +kernel

end Logme
