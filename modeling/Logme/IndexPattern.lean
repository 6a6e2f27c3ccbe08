import Logme.ArchiveNames

/-!
# The index pattern

`BuildIndexPattern` escapes what is special in an expression, except the
braces.  In texts without braces the pattern matches the names that
`BuildName` gives, with any digits for the index, and the first submatch is
these digits.
-/

namespace Logme

open RetentionCleaner SubmatchPattern EcmaScriptPattern

/-! ## Parts of an archive name -/

namespace RetainingBackend

/-- What stands in front of the index. -/
def namePrefix (b : RetainingBackend) (before : List Char) : List Char :=
  if isAbsolutePath before then before else b.homeDirectory ++ before

theorem fullPath_split (b : RetainingBackend) {before on after : List Char}
    (hon : Relative on) :
    b.fullPath (before ++ on ++ after) = b.namePrefix before ++ on ++ after := by
  unfold fullPath namePrefix
  rw [isAbsolutePath_append hon]
  split
  next => rfl
  next => simp only [List.append_assoc]

/-- The texts around the index have no braces, and not the character with
which the marker of the index begins. -/
structure PlainTexts (b : RetainingBackend) (before after : List Char) : Prop where
  noBraces : '{' ∉ b.namePrefix before ++ after ∧ '}' ∉ b.namePrefix before ++ after
  noMarker : '\x01' ∉ b.namePrefix before ++ after

end RetainingBackend

/-! ## Replacing the one occurrence -/

theorem firstAt_of_not_mem {what before tail : List Char} {a : Char}
    (hwhat : what.head? = some a) (hbefore : a ∉ before) : FirstAt what before tail := by
  intro u hne hsuffix hlabel
  cases what with
  | nil => simp at hwhat
  | cons c what =>
      rw [List.head?_cons, Option.some.injEq] at hwhat
      cases u with
      | nil => exact hne rfl
      | cons d u =>
          rw [List.append_assoc, List.cons_append, List.cons_prefix_cons] at hlabel
          refine hbefore (hsuffix.subset ?_)
          rw [← hwhat, hlabel.1]
          exact List.mem_cons_self

theorem not_infix_of_not_mem {what s : List Char} {a : Char}
    (hwhat : what.head? = some a) (ha : a ∉ s) : ¬ what <:+: s := by
  intro hmem
  cases what with
  | nil => simp at hwhat
  | cons c what =>
      rw [List.head?_cons, Option.some.injEq] at hwhat
      exact ha (hmem.subset (by simp [hwhat]))

theorem replaceAll_once {what before on after : List Char} {a : Char}
    (hwhat : what.head? = some a) (hbefore : a ∉ before) (hafter : a ∉ after)
    (hon : Foreign what on) :
    replaceAll (before ++ what ++ after) what on = before ++ on ++ after := by
  have hne : what ≠ [] := by
    rintro rfl
    simp at hwhat
  have hdiffers : what ≠ on := by
    rintro rfl
    cases what with
    | nil => exact hne rfl
    | cons c what => exact hon.2 c List.mem_cons_self List.mem_cons_self
  have hinert : Inert what before := inert_of_not_mem hwhat hbefore
  have hfirst : replaceFirst what on (before ++ what ++ after) = some (before ++ on ++ after) := by
    rw [List.append_assoc, replaceFirst_append hinert, replaceFirst_self hne, Option.map_some,
      List.append_assoc]
  have hat : FirstAt what before after := firstAt_of_not_mem hwhat hbefore
  have hrest : ∀ fuel, replaceLoop what on fuel after = after := by
    intro fuel
    cases fuel with
    | zero => rfl
    | succ fuel =>
        rw [replaceLoop, (replaceFirst_eq_none hne on).mpr (not_infix_of_not_mem hwhat hafter)]
  rw [replaceAll, if_neg hdiffers,
    replaceLoop_split hne hat hon _ hfirst, hrest]

theorem indexMarker_foreign : Foreign TINDEX indexMarker :=
  foreign_of_all (by decide) (by decide)

theorem indexGroup_foreign : Foreign indexMarker indexGroup :=
  foreign_of_all (by decide) (by decide)

theorem indexMarker_relative : RetainingBackend.Relative indexMarker := by
  exact ⟨by decide, by decide⟩

/-- Without braces the special characters are escaped and nothing else
happens. -/
theorem replaceDatetimePlaceholders_plain {text : List Char}
    (hbraces : '{' ∉ text ∧ '}' ∉ text) :
    replaceDatetimePlaceholders text = text.flatMap escapeChar := by
  have hpaired : BracesPaired (text.map .letter) := by
    intro c hc
    rw [List.mem_map] at hc
    rcases hc with ⟨d, hd, hletter⟩
    rw [TemplatePiece.letter.injEq] at hletter
    subst d
    exact ⟨fun h => hbraces.1 (h ▸ hd), fun h => hbraces.2 (h ▸ hd)⟩
  have hcollapse : ∀ text : List Char, collapse (text.map .letter) = text.map .letter := by
    intro text
    induction text with
    | nil => rfl
    | cons c text ih => rw [List.map_cons, collapse, ih]
  have htext := replaceDatetimePlaceholders_eq hpaired
  rw [flatMap_letters _ _ fun _ => rfl, hcollapse] at htext
  rw [htext, List.flatMap_map]
  rfl

theorem not_mem_escaped {c : Char} {text : List Char} (hc : c ∉ text) (hplain : c ≠ '\\') :
    c ∉ text.flatMap escapeChar := by
  intro hmem
  rw [List.mem_flatMap] at hmem
  rcases hmem with ⟨d, hd, hcd⟩
  rcases escapeChar_cases d with ⟨_, hescape⟩ | ⟨_, hescape⟩
  · rw [hescape, List.mem_cons, List.mem_singleton] at hcd
    rcases hcd with hbackslash | rfl
    · exact hplain hbackslash
    · exact hc hd
  · rw [hescape, List.mem_singleton] at hcd
    subst c
    exact hc hd

/-! ## The text of the pattern -/

namespace RetainingBackend

variable {m : TemplateValues} {b : RetainingBackend} {archiveTime : Int}
  {before after : List Char}

theorem not_mem_of_prefix {c : Char} (hc : c ∉ b.namePrefix before ++ after) :
    c ∉ before ∧ c ∉ after := by
  rw [List.mem_append, not_or] at hc
  refine ⟨fun hmem => hc.1 ?_, hc.2⟩
  unfold namePrefix
  split
  next => exact hmem
  next => exact List.mem_append_right _ hmem

theorem PlainTexts.buildName_eq (h : b.PlainTexts before after)
    (htext : b.archiveText m archiveTime = some (before ++ TINDEX ++ after)) (i : Nat) :
    b.buildName m i archiveTime = some (b.namePrefix before ++ decimal i ++ after) := by
  have hbraces := not_mem_of_prefix h.noBraces.1
  rw [buildName_of_text htext,
    replaceAll_once rfl hbraces.1 hbraces.2 (decimal_foreign i),
    fullPath_split b (decimal_relative i)]

theorem PlainTexts.indexPatternText_eq (h : b.PlainTexts before after)
    (htext : b.archiveText m archiveTime = some (before ++ TINDEX ++ after)) :
    b.indexPatternText m archiveTime =
      some ((b.namePrefix before).flatMap escapeChar ++ indexGroup ++ after.flatMap escapeChar ++
        optionalGzip) := by
  have hbraces := not_mem_of_prefix h.noBraces.1
  have hmarkerText : indexMarker.flatMap escapeChar = indexMarker := by decide
  have hplain : '{' ∉ b.namePrefix before ++ indexMarker ++ after ∧
      '}' ∉ b.namePrefix before ++ indexMarker ++ after := by
    have hopen := h.noBraces.1
    have hclose := h.noBraces.2
    rw [List.mem_append, not_or] at hopen hclose
    have hmarker : '{' ∉ indexMarker ∧ '}' ∉ indexMarker := by decide
    simp only [List.mem_append, not_or]
    exact ⟨⟨⟨hopen.1, hmarker.1⟩, hopen.2⟩, ⟨⟨hclose.1, hmarker.2⟩, hclose.2⟩⟩
  have hnoMarker := h.noMarker
  rw [List.mem_append, not_or] at hnoMarker
  rw [indexPatternText, htext, Option.map_some]
  dsimp only
  rw [replaceAll_once rfl hbraces.1 hbraces.2 indexMarker_foreign,
    fullPath_split b indexMarker_relative, replaceDatetimePlaceholders_plain hplain,
    List.flatMap_append, List.flatMap_append, hmarkerText,
    replaceAll_once rfl (not_mem_escaped hnoMarker.1 (by decide))
      (not_mem_escaped hnoMarker.2 (by decide)) indexGroup_foreign]

/-! ## The pattern -/

def isIndexDigit (c : Char) : Bool :=
  (decide ('0' ≤ c) && decide (c ≤ '9')) || false

def indexTerm : Term := .group [⟨isIndexDigit, ⟨1, none⟩⟩] .once

def gzipTerm : Term :=
  .group (gzSuffix.map fun c => ⟨fun d => d == c, .once⟩) ⟨0, some 1⟩

def indexTerms (prefixText after : List Char) : List Term :=
  prefixText.map letter ++ (indexTerm :: (after.map letter ++ [gzipTerm]))

theorem adds_indexGroup : Adds indexGroup [indexTerm] :=
  fun _ _ => ⟨true, rfl⟩

theorem adds_optionalGzip : Adds optionalGzip [gzipTerm] :=
  fun _ _ => ⟨false, rfl⟩

theorem adds_escapeChar {c : Char} (hc : c ≠ '{' ∧ c ≠ '}') :
    Adds (escapeChar c) [letter c] := by
  rcases escapeChar_cases c with ⟨hspecial, hescape⟩ | ⟨hplain, hescape⟩
  · rw [hescape]
    exact adds_escape ((isSyntaxCharacter_eq hc).trans hspecial)
  · rw [hescape]
    exact adds_character ((isSyntaxCharacter_eq hc).trans hplain)

theorem adds_escaped {text : List Char} (hopen : '{' ∉ text) (hclose : '}' ∉ text) :
    Adds (text.flatMap escapeChar) (text.map letter) := by
  induction text with
  | nil => exact adds_nil
  | cons c text ih =>
      rw [List.mem_cons, not_or] at hopen hclose
      rw [List.flatMap_cons, List.map_cons]
      exact (adds_escapeChar ⟨Ne.symm hopen.1, Ne.symm hclose.1⟩).append
        (ih hopen.2 hclose.2)

theorem PlainTexts.buildIndexPattern_eq (h : b.PlainTexts before after)
    (htext : b.archiveText m archiveTime = some (before ++ TINDEX ++ after)) :
    b.buildIndexPattern m archiveTime = some (indexTerms (b.namePrefix before) after) := by
  have hopen := h.noBraces.1
  have hclose := h.noBraces.2
  rw [List.mem_append, not_or] at hopen hclose
  have hadds := (((adds_escaped hopen.1 hclose.1).append adds_indexGroup).append
    (adds_escaped hopen.2 hclose.2)).append adds_optionalGzip
  rw [buildIndexPattern, h.indexPatternText_eq htext, Option.bind_some, hadds.compile,
    indexTerms]
  simp

/-! ## What it matches -/

/-- Digits for an index. -/
def IndexDigits (d : List Char) : Prop := d ≠ [] ∧ ∀ c ∈ d, isIndexDigit c = true

/-- The plain or the compressed form. -/
def ArchiveTail (tail : List Char) : Prop := tail = [] ∨ tail = gzSuffix

theorem mem_digits {w rest : List Char} :
    rest ∈ bodyRests [⟨isIndexDigit, ⟨1, none⟩⟩] w ↔
      ∃ d, IndexDigits d ∧ w = d ++ rest := by
  rw [bodyRests, List.mem_flatMap]
  constructor
  · rintro ⟨r, hr, hrest⟩
    rw [bodyRests, List.mem_singleton] at hrest
    subst rest
    rcases (mem_classRests_some (Nat.le_refl 1)).mp hr with ⟨d, hw, hlength, hdigits⟩
    exact ⟨d, ⟨List.length_pos_iff.mp hlength, hdigits⟩, hw⟩
  · rintro ⟨d, hd, rfl⟩
    refine ⟨rest, (mem_classRests_some (Nat.le_refl 1)).mpr
      ⟨d, rfl, List.length_pos_iff.mpr hd.1, hd.2⟩, ?_⟩
    rw [bodyRests]
    exact List.mem_singleton_self rest

theorem mem_gzipTerm {w : List Char} :
    (∃ x, x ∈ submatches [gzipTerm] w) ↔ ArchiveTail w := by
  have hbody : ∀ rest, rest ∈ bodyRests (gzSuffix.map fun c => ⟨fun d => d == c, .once⟩) w ↔
      w = gzSuffix ++ rest := fun _ => mem_bodyRests_letters
  constructor
  · rintro ⟨x, hx⟩
    rcases mem_submatches_optional.mp hx with ⟨v, rest, y, _, hw, hrest, _, hy⟩ | ⟨y, _, hy⟩
    · rw [mem_submatches_nil] at hy
      rw [hbody, hy.1, List.append_nil] at hrest
      exact .inr hrest
    · rw [mem_submatches_nil] at hy
      exact .inl hy.1
  · rintro (rfl | hw)
    · exact ⟨[[]], mem_submatches_optional.mpr (.inr ⟨[], rfl, mem_submatches_nil.mpr ⟨rfl, rfl⟩⟩)⟩
    · refine ⟨[w], mem_submatches_optional.mpr (.inl ⟨w, [], [], ?_, by simp, ?_, rfl,
        mem_submatches_nil.mpr ⟨rfl, rfl⟩⟩)⟩
      · rw [hw]
        decide
      · rw [hbody, List.append_nil]
        exact hw

theorem mem_submatches_indexTerms {prefixText after w : List Char} {d : List Char} :
    (∃ y, (d :: y) ∈ submatches (indexTerms prefixText after) w) ↔
      IndexDigits d ∧ ∃ tail, ArchiveTail tail ∧ w = prefixText ++ d ++ after ++ tail := by
  constructor
  · rintro ⟨y, hy⟩
    rcases mem_submatches_letters.mp hy with ⟨rest, hw, hrest⟩
    rcases mem_submatches_group.mp hrest with ⟨v, rest', y', hrest', hv, heq, hy'⟩
    rcases mem_digits.mp hv with ⟨v', hv', hsplit⟩
    rcases mem_submatches_letters.mp hy' with ⟨tail, htail, hgzip⟩
    rw [List.cons.injEq] at heq
    rcases heq with ⟨rfl, rfl⟩
    have hsame : v' = d := List.append_cancel_right (hsplit.symm.trans hrest')
    subst v'
    exact ⟨hv', tail, mem_gzipTerm.mp ⟨_, hgzip⟩, by
      rw [hw, hrest', htail]
      simp only [List.append_assoc]⟩
  · rintro ⟨hd, tail, htail, rfl⟩
    rcases mem_gzipTerm.mpr htail with ⟨y, hy⟩
    refine ⟨y, mem_submatches_letters.mpr ⟨d ++ (after ++ tail), by
      simp only [List.append_assoc], mem_submatches_group.mpr ⟨d, after ++ tail, y, rfl,
        mem_digits.mpr ⟨d, hd, rfl⟩, rfl, mem_submatches_letters.mpr ⟨tail, rfl, hy⟩⟩⟩⟩

theorem head_of_mem_submatches {prefixText after w : List Char} {x : List (List Char)}
    (hx : x ∈ submatches (indexTerms prefixText after) w) :
    ∃ d y, x = d :: y := by
  rcases mem_submatches_letters.mp hx with ⟨rest, _, hrest⟩
  rcases mem_submatches_group.mp hrest with ⟨v, _, y, _, _, heq, _⟩
  exact ⟨v, y, heq⟩

/-- The digits can be read off the name. -/
theorem digits_unique {d d' after tail tail' : List Char} (hd : IndexDigits d)
    (hd' : IndexDigits d') (htail : ArchiveTail tail) (htail' : ArchiveTail tail')
    (heq : d ++ after ++ tail = d' ++ after ++ tail') : d = d' := by
  have hcount : ∀ d, IndexDigits d → d.count 'g' = 0 := by
    intro d hd
    rw [List.count_eq_zero]
    intro hmem
    exact absurd (hd.2 'g' hmem) (by decide)
  have hsame : tail = tail' := by
    have hcounts := congrArg (List.count 'g') heq
    simp only [List.count_append, hcount d hd, hcount d' hd'] at hcounts
    have hgz : gzSuffix.count 'g' = 1 := by decide
    rcases htail with rfl | rfl <;> rcases htail' with rfl | rfl
    · rfl
    · rw [hgz, List.count_nil] at hcounts
      omega
    · rw [hgz, List.count_nil] at hcounts
      omega
    · rfl
  rw [hsame] at heq
  exact List.append_cancel_right (List.append_cancel_right heq)

/-- The first submatch is the index. -/
theorem regexMatch_indexTerms {prefixText after w d : List Char} :
    (∃ y, regexMatch (indexTerms prefixText after) w = some (d :: y)) ↔
      IndexDigits d ∧ ∃ tail, ArchiveTail tail ∧ w = prefixText ++ d ++ after ++ tail := by
  constructor
  · rintro ⟨y, hy⟩
    rw [regexMatch] at hy
    exact mem_submatches_indexTerms.mp ⟨y, List.mem_of_mem_head? hy⟩
  · rintro hd
    rcases mem_submatches_indexTerms.mpr hd with ⟨y, hy⟩
    refine regexMatch_of_unique ⟨_, hy⟩ fun x hx => ?_
    rcases head_of_mem_submatches hx with ⟨d', y', rfl⟩
    rcases mem_submatches_indexTerms.mp ⟨y', hx⟩ with ⟨hd', tail', htail', hw'⟩
    rcases hd with ⟨hd, tail, htail, hw⟩
    have htexts : d' ++ after ++ tail' = d ++ after ++ tail := by
      rw [hw] at hw'
      simp only [List.append_assoc] at hw' ⊢
      exact (List.append_cancel_left hw').symm
    rw [digits_unique hd' hd htail' htail htexts]
    rfl

end RetainingBackend

end Logme
