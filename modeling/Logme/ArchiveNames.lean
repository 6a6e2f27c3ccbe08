import Logme.ArchiveIndex
import Logme.BackendConfigs
import Logme.FileArchivePolicy
import Logme.FileRetention

/-!
# Free names for archives

`TakeName` ends with a free name exactly when one of the names that the
template gives is free and can be seen to be free.  With `{index}` in the
text of the template the names are all different, and finitely many files
cannot take them all; without it there is one name, and when it is taken the
search does not end.
-/

namespace Logme

open RetentionCleaner SubmatchPattern

/-! ## Texts of digits and hyphens -/

namespace RetainingBackend

/-- A text of digits and hyphens. -/
def DateText (w : List Char) : Prop :=
  w ≠ [] ∧ ∀ c ∈ w, c.isDigit = true ∨ c = '-'

theorem DateText.not_mem {w : List Char} (h : DateText w) {c : Char}
    (hdigit : c.isDigit = false) (hhyphen : c ≠ '-') : c ∉ w := by
  intro hc
  rcases h.2 c hc with hc | hc
  · rw [hdigit] at hc
    exact absurd hc (by simp)
  · exact hhyphen hc

theorem DateText.relative {w : List Char} (h : DateText w) : isAbsolutePath w = false := by
  cases w with
  | nil => rfl
  | cons c w =>
      have hslash : c ≠ '/' := by
        rintro rfl
        exact h.not_mem (by decide) (by decide) List.mem_cons_self
      have hbackslash : c ≠ '\\' := by
        rintro rfl
        exact h.not_mem (by decide) (by decide) List.mem_cons_self
      simp [isAbsolutePath, hslash, hbackslash]

theorem decimal_dateText (n : Int) : DateText (decimal n) := by
  have hdigits : ∀ c ∈ Nat.toDigits 10 n.natAbs, c.isDigit = true := by
    intro c hc
    exact Nat.isDigit_of_mem_toDigits (by decide) (by decide) hc
  unfold decimal
  split
  next =>
    refine ⟨by simp, fun c hc => ?_⟩
    rcases List.mem_cons.mp hc with rfl | hc
    · exact .inr rfl
    · exact .inl (hdigits c hc)
  next => exact ⟨Nat.toDigits_ne_nil, fun c hc => .inl (hdigits c hc)⟩

end RetainingBackend

/-! ## Replacing an index -/

/-- The first occurrence: none begins further to the front. -/
def FirstAt (what before tail : List Char) : Prop :=
  ∀ u, u ≠ [] → u <:+ before → ¬ what <+: u ++ what ++ tail

theorem replaceFirst_eq_none {what : List Char} (hwhat : what ≠ []) (on : List Char)
    {str : List Char} :
    replaceFirst what on str = none ↔ ¬ what <:+: str := by
  induction str with
  | nil => simp [replaceFirst_nil hwhat, hwhat]
  | cons c rest ih =>
      rw [replaceFirst, List.infix_cons_iff, not_or, ← ih]
      split
      next hlabel =>
        rw [List.isPrefixOf_iff_prefix] at hlabel
        simp [hlabel]
      next hlabel =>
        rw [List.isPrefixOf_iff_prefix] at hlabel
        simp [hlabel]

/-- Whatever the replacement is, it stands at the first occurrence. -/
theorem replaceFirst_split {what : List Char} (hwhat : what ≠ []) {str : List Char}
    (hmem : what <:+: str) :
    ∃ before tail, FirstAt what before tail ∧ str = before ++ what ++ tail ∧
      ∀ on, replaceFirst what on str = some (before ++ on ++ tail) := by
  induction str with
  | nil => simp [hwhat] at hmem
  | cons c rest ih =>
      by_cases hlabel : what <+: c :: rest
      · rcases hlabel with ⟨tail, htail⟩
        refine ⟨[], tail, ?_, by simp [htail], fun on => ?_⟩
        · intro u hne hsuffix
          exact absurd (List.suffix_nil.mp hsuffix) hne
        · rw [← htail, replaceFirst_self hwhat, List.nil_append]
      · rcases ih ((List.infix_cons_iff.mp hmem).resolve_left hlabel) with
          ⟨before, tail, hfirst, hrest, hreplace⟩
        refine ⟨c :: before, tail, ?_, by simp [hrest], fun on => ?_⟩
        · intro u hne hsuffix
          rcases List.suffix_cons_iff.mp hsuffix with rfl | hsuffix
          · simpa [hrest] using hlabel
          · exact hfirst u hne hsuffix
        · rw [replaceFirst_cons hlabel, hreplace on]
          rfl

/-- A text that shares no character with what is replaced. -/
def Foreign (what on : List Char) : Prop :=
  on ≠ [] ∧ ∀ c ∈ on, c ∉ what

theorem foreign_of_all {what on : List Char} (hne : on ≠ [])
    (hall : (on.all fun c => !what.contains c) = true) : Foreign what on := by
  refine ⟨hne, fun c hc hmem => ?_⟩
  have hnot := List.all_eq_true.mp hall c hc
  simp only [Bool.not_eq_true', List.contains_eq_mem, decide_eq_false_iff_not] at hnot
  exact hnot hmem

theorem Foreign.prefix_left {what on u rest : List Char} (hon : Foreign what on)
    (h : what <+: u ++ (on ++ rest)) : what <+: u := by
  rcases List.prefix_or_prefix_of_prefix h (List.prefix_append u _) with h' | ⟨x, rfl⟩
  · exact h'
  · cases x with
    | nil => simp
    | cons c x =>
        have hnext := (List.prefix_append_right_inj u).mp h
        cases on with
        | nil => exact absurd rfl hon.1
        | cons d on =>
            rw [List.cons_append, List.cons_prefix_cons] at hnext
            exact absurd (by simp [hnext.1]) (hon.2 d List.mem_cons_self)

theorem Foreign.of_suffix {what on v : List Char} (hon : Foreign what on) (hv : v ≠ [])
    (hsuffix : v <:+ on) : Foreign what v :=
  ⟨hv, fun c hc => hon.2 c (hsuffix.subset hc)⟩

theorem FirstAt.inert {what before tail on : List Char} (hwhat : what ≠ [])
    (hfirst : FirstAt what before tail) (hon : Foreign what on) :
    Inert what (before ++ on) := by
  intro v rest hne hsuffix hlabel
  rcases List.suffix_or_suffix_of_suffix hsuffix (List.suffix_append before on) with
    hv | ⟨u, rfl⟩
  · have hnil := (hon.of_suffix hne hv).prefix_left (u := []) hlabel
    exact hwhat (List.prefix_nil.mp hnil)
  · rw [List.append_assoc] at hlabel
    have hu := hon.prefix_left hlabel
    have hbefore : u <:+ before := by
      rcases hsuffix with ⟨x, hx⟩
      rw [← List.append_assoc] at hx
      exact ⟨x, List.append_cancel_right hx⟩
    have hune : u ≠ [] := by
      rintro rfl
      exact hwhat (List.prefix_nil.mp hu)
    refine hfirst u hune hbefore (hu.trans ?_)
    rw [List.append_assoc]
    exact List.prefix_append u _

theorem replaceLoop_append {what on s : List Char} (hs : Inert what s) (fuel : Nat)
    (t : List Char) :
    replaceLoop what on fuel (s ++ t) = s ++ replaceLoop what on fuel t := by
  induction fuel generalizing t with
  | zero => rfl
  | succ fuel ih =>
      rw [replaceLoop, replaceLoop, replaceFirst_append hs]
      cases replaceFirst what on t with
      | none => rfl
      | some next => exact ih next

theorem replaceLoop_split {what before tail on : List Char} (hwhat : what ≠ [])
    (hfirst : FirstAt what before tail) (hon : Foreign what on) (fuel : Nat) {str : List Char}
    (hreplace : replaceFirst what on str = some (before ++ on ++ tail)) :
    replaceLoop what on (fuel + 1) str = before ++ on ++ replaceLoop what on fuel tail := by
  rw [replaceLoop, hreplace]
  exact replaceLoop_append (hfirst.inert hwhat hon) fuel tail

/-- Longer replacements make a longer text. -/
theorem length_replaceLoop_le {what on on' : List Char} (hwhat : what ≠ [])
    (hon : Foreign what on) (hon' : Foreign what on') (hle : on.length ≤ on'.length)
    (fuel : Nat) (str : List Char) :
    (replaceLoop what on fuel str).length ≤ (replaceLoop what on' fuel str).length := by
  induction fuel generalizing str with
  | zero => exact Nat.le_refl _
  | succ fuel ih =>
      by_cases hmem : what <:+: str
      · rcases replaceFirst_split hwhat hmem with ⟨before, tail, hfirst, _, hreplace⟩
        rw [replaceLoop_split hwhat hfirst hon fuel (hreplace on),
          replaceLoop_split hwhat hfirst hon' fuel (hreplace on')]
        have hrest := ih tail
        simp only [List.length_append]
        omega
      · have hnone := fun on => (replaceFirst_eq_none hwhat on).mpr hmem
        rw [replaceLoop, replaceLoop, hnone, hnone]

/-- The replacement can be read off a text in which something is replaced. -/
theorem eq_of_replaceLoop_eq {what on on' str : List Char} (hwhat : what ≠ [])
    (hon : Foreign what on) (hon' : Foreign what on') (hmem : what <:+: str) {fuel : Nat}
    (heq : replaceLoop what on (fuel + 1) str = replaceLoop what on' (fuel + 1) str) :
    on = on' := by
  rcases replaceFirst_split hwhat hmem with ⟨before, tail, hfirst, _, hreplace⟩
  rw [replaceLoop_split hwhat hfirst hon fuel (hreplace on),
    replaceLoop_split hwhat hfirst hon' fuel (hreplace on'), List.append_assoc,
    List.append_assoc] at heq
  have htext := List.append_cancel_left heq
  have hlength := congrArg List.length htext
  simp only [List.length_append] at hlength
  have hsame : on.length = on'.length := by
    rcases Nat.le_total on.length on'.length with hle | hle
    · have hrest := length_replaceLoop_le hwhat hon hon' hle fuel tail
      omega
    · have hrest := length_replaceLoop_le hwhat hon' hon hle fuel tail
      omega
  exact (List.append_inj htext hsame).1

theorem tindex_ne_nil : TINDEX ≠ [] := by decide

theorem decimal_natCast (i : Nat) : decimal i = Nat.toDigits 10 i := by
  rw [decimal, if_neg (by omega), Int.natAbs_natCast]

theorem decimal_injective {i j : Nat} (heq : decimal (i : Int) = decimal (j : Int)) :
    i = j := by
  rw [decimal_natCast, decimal_natCast] at heq
  have hvalue := congrArg (fun digits => Nat.ofDigitChars 10 digits 0) heq
  simpa using hvalue

theorem decimal_foreign (i : Nat) : Foreign TINDEX (decimal i) := by
  refine ⟨(RetainingBackend.decimal_dateText i).1, fun c hc hmem => ?_⟩
  have hletters : (TINDEX.all fun d => !d.isDigit && d != '-') = true := by decide
  have hc' := List.all_eq_true.mp hletters c hmem
  simp only [Bool.and_eq_true, Bool.not_eq_true', bne_iff_ne] at hc'
  rcases (RetainingBackend.decimal_dateText i).2 c hc with hdigit | hhyphen
  · rw [hc'.1] at hdigit
    exact absurd hdigit (by simp)
  · exact hc'.2 hhyphen

theorem tindex_ne_decimal (i : Nat) : TINDEX ≠ decimal i := by
  intro heq
  have hfirst : '{' ∈ decimal (i : Int) := by
    rw [← heq]
    decide
  exact (RetainingBackend.decimal_dateText i).not_mem (by decide) (by decide) hfirst

/-- The name of a text with a number instead of `{index}`. -/
theorem replaceAll_tindex (str : List Char) (i : Nat) :
    replaceAll str TINDEX (decimal i) =
      replaceLoop TINDEX (decimal i) (str.length + 1) str := by
  rw [replaceAll, if_neg (tindex_ne_decimal i)]

/-! ## The names of a template -/

namespace RetainingBackend

variable {m : TemplateValues} {b : RetainingBackend} {archiveTime : Int}
  {text : List Char}

theorem buildName_of_text (htext : b.archiveText m archiveTime = some text) (i : Nat) :
    b.buildName m i archiveTime =
      some (b.fullPath (replaceAll text TINDEX (decimal i))) := by
  rw [buildName_eq_map, htext]
  rfl

/-- Without `{index}` there is one name. -/
theorem buildName_unnumbered (htext : b.archiveText m archiveTime = some text)
    (hmem : ¬ TINDEX <:+: text) (i : Nat) :
    b.buildName m i archiveTime = some (b.fullPath text) := by
  rw [buildName_of_text htext, replaceAll_tindex, replaceLoop,
    (replaceFirst_eq_none tindex_ne_nil _).mpr hmem]

/-- A text that does not begin like an absolute path. -/
def Relative (on : List Char) : Prop :=
  on ≠ [] ∧ isAbsolutePath on = false

theorem decimal_relative (i : Nat) : Relative (decimal i) :=
  ⟨(decimal_dateText i).1, (decimal_dateText i).relative⟩

theorem isAbsolutePath_append {before on : List Char} (hon : Relative on)
    (after : List Char) :
    isAbsolutePath (before ++ on ++ after) = isAbsolutePath before := by
  cases before with
  | cons c before => rfl
  | nil =>
      cases on with
      | nil => exact absurd rfl hon.1
      | cons c on => exact hon.2

theorem isAbsolutePath_numbered (hmem : TINDEX <:+: text) (i j : Nat) :
    isAbsolutePath (replaceAll text TINDEX (decimal i)) =
      isAbsolutePath (replaceAll text TINDEX (decimal j)) := by
  rcases replaceFirst_split tindex_ne_nil hmem with ⟨before, tail, hfirst, _, hreplace⟩
  have hsplit : ∀ i : Nat, replaceAll text TINDEX (decimal i) =
      before ++ decimal i ++ replaceLoop TINDEX (decimal i) text.length tail := by
    intro i
    rw [replaceAll_tindex]
    exact replaceLoop_split tindex_ne_nil hfirst (decimal_foreign i) _ (hreplace _)
  rw [hsplit, hsplit, isAbsolutePath_append (decimal_relative i),
    isAbsolutePath_append (decimal_relative j)]

/-- With `{index}` the names are all different. -/
theorem buildName_injective (htext : b.archiveText m archiveTime = some text)
    (hmem : TINDEX <:+: text) {i j : Nat}
    (heq : b.buildName m i archiveTime = b.buildName m j archiveTime) : i = j := by
  rw [buildName_of_text htext, buildName_of_text htext, Option.some.injEq] at heq
  unfold fullPath at heq
  rw [isAbsolutePath_numbered hmem i j] at heq
  have hreplaced : replaceAll text TINDEX (decimal i) = replaceAll text TINDEX (decimal j) := by
    split at heq
    next => exact heq
    next => exact List.append_cancel_left heq
  rw [replaceAll_tindex, replaceAll_tindex] at hreplaced
  exact decimal_injective (eq_of_replaceLoop_eq tindex_ne_nil (decimal_foreign i)
    (decimal_foreign j) hmem hreplaced)

/-- The names are all different or all the same. -/
theorem buildName_numbered (htext : b.archiveText m archiveTime = some text) :
    (∀ i j : Nat, b.buildName m i archiveTime = b.buildName m j archiveTime → i = j) ∨
      ∀ i j : Nat, b.buildName m i archiveTime = b.buildName m j archiveTime := by
  by_cases hmem : TINDEX <:+: text
  · exact .inl fun i j => buildName_injective htext hmem
  · right
    intro i j
    rw [buildName_unnumbered htext hmem, buildName_unnumbered htext hmem]

/-- The names of the backend as the names of an archive template. -/
def archiveNames (m : TemplateValues) (b : RetainingBackend)
    (hexpands : (processTemplate m templateConst none b.archiveTemplate).isSome)
    (findLastIndex : FileSystem String UInt8 → Int → Nat) : ArchiveTemplate where
  buildName i t := String.ofList ((b.buildName m i t).getD [])
  findLastIndex := findLastIndex
  numbered t := by
    rw [← archiveText_isSome_iff m b t, Option.isSome_iff_exists] at hexpands
    rcases hexpands with ⟨text, htext⟩
    refine (buildName_numbered htext).imp (fun hinjective i j heq => ?_) fun hsame i j => ?_
    · rw [String.ofList_inj, buildName_of_text htext, buildName_of_text htext,
        Option.getD_some, Option.getD_some] at heq
      refine hinjective i j ?_
      rw [buildName_of_text htext, buildName_of_text htext, heq]
    · rw [hsame i j]

/-- Finitely many files do not take all the numbers. -/
theorem exists_fresh (disk : Disk) (htext : b.archiveText m archiveTime = some text)
    (hmem : TINDEX <:+: text) (occupied : List (List Char))
    (hoccupied : ∀ path, disk.status path ≠ .absent → path ∈ occupied)
    (hfew : 2 * occupied.length < 2 ^ 64) :
    ∃ i < 2 ^ 64, ∃ archive, b.buildName m i archiveTime = some archive ∧
      disk.Fresh archive := by
  by_contra hnone
  push Not at hnone
  let name : Nat → List Char := fun i => b.fullPath (replaceAll text TINDEX (decimal i))
  have hname : ∀ i, b.buildName m i archiveTime = some (name i) :=
    buildName_of_text htext
  have hinjective : Function.Injective name := fun i j heq =>
    buildName_injective htext hmem (by rw [hname, hname, heq])
  -- a number is charged to the file that takes its name
  let charge : Nat → Bool × List Char := fun i =>
    if disk.status (name i) = .absent then (true, name i ++ gzSuffix) else (false, name i)
  have hcharge : ∀ i < 2 ^ 64,
      charge i ∈ Finset.univ ×ˢ occupied.toFinset := by
    intro i hi
    have htaken := hnone i hi (name i) (hname i)
    rw [Finset.mem_product, List.mem_toFinset]
    refine ⟨Finset.mem_univ _, ?_⟩
    by_cases habsent : disk.status (name i) = .absent
    · rw [show charge i = (true, name i ++ gzSuffix) from if_pos habsent]
      exact hoccupied _ fun hgz => htaken ⟨habsent, hgz⟩
    · rw [show charge i = (false, name i) from if_neg habsent]
      exact hoccupied _ habsent
  have hcharged : Set.InjOn charge (Finset.range (2 ^ 64)) := by
    intro i _ j _ heq
    dsimp only [charge] at heq
    split at heq <;> split at heq <;> simp only [Prod.mk.injEq] at heq
    next => exact hinjective (List.append_cancel_right heq.2)
    next => exact absurd heq.1 (by simp)
    next => exact absurd heq.1 (by simp)
    next => exact hinjective heq.2
  have hcard := Finset.card_le_card_of_injOn charge
    (fun i hi => hcharge i (Finset.mem_range.mp hi)) hcharged
  have hdedup : occupied.toFinset.card ≤ occupied.length := List.toFinset_card_le occupied
  rw [Finset.card_range, Finset.card_product, Finset.card_univ, Fintype.card_bool] at hcard
  omega

def indexBackend : RetainingBackend where
  nameTemplate := "app.log".toList
  archiveTemplate := "old{index}.log".toList
  homeDirectory := "/logs/".toList
  gzipCompression := false
  name := "/logs/app.log".toList
  archiveTime := 0
  retention := ⟨0, 0, 0⟩

/-- The first archive exists. -/
def firstArchive : Disk where
  status path := if path = "/logs/old0.log".toList then .present else .absent
  list _ := none

theorem exists_fresh_behind_first :
    ∃ i < 2 ^ 64, ∃ archive,
      indexBackend.buildName processValues i 0 = some archive ∧ firstArchive.Fresh archive := by
  have htext : indexBackend.archiveText processValues 0 = some "old{index}.log".toList := by
    decide
  have honly : ∀ path, firstArchive.status path ≠ .absent → path ∈ ["/logs/old0.log".toList] := by
    intro path hpath
    rw [List.mem_singleton]
    by_contra hother
    exact hpath (if_neg hother)
  exact exists_fresh firstArchive htext (by decide) _ honly (by simp)

end RetainingBackend

/-! ## The search for a free name -/

namespace IndexedBackend

variable {m : TemplateValues} {b : IndexedBackend} {disk : Disk}

theorem firstFree_eq_some {fuel start i : Nat} {archive : List Char} (hstart : start < 2 ^ 64)
    (hfirst : b.firstFree m disk fuel start = some (i, archive)) :
    i < 2 ^ 64 ∧ b.buildName m i b.archiveTime = some archive ∧ disk.Fresh archive := by
  induction fuel generalizing start with
  | zero => simp [firstFree] at hfirst
  | succ fuel ih =>
      rw [firstFree] at hfirst
      split at hfirst
      next => simp at hfirst
      next name hname =>
        split at hfirst
        next => exact ih (Nat.mod_lt _ (by omega)) hfirst
        next hfree =>
          simp only [Option.some.injEq, Prod.mk.injEq] at hfirst
          rcases hfirst with ⟨rfl, rfl⟩
          rw [Bool.not_eq_true, Disk.nameExists_eq_false] at hfree
          exact ⟨hstart, hname, hfree⟩

/-- The search goes through all the numbers. -/
theorem firstFree_isSome (hbuild : ∀ i, (b.buildName m i b.archiveTime).isSome)
    {fuel start d : Nat} (hstart : start < 2 ^ 64) (hd : d < fuel) {archive : List Char}
    (hname : b.buildName m ↑((start + d) % 2 ^ 64) b.archiveTime = some archive)
    (hfree : disk.Fresh archive) :
    ∃ taken, b.firstFree m disk fuel start = some taken := by
  induction fuel generalizing start d with
  | zero => omega
  | succ fuel ih =>
      rcases Option.isSome_iff_exists.mp (hbuild start) with ⟨first, hfirst⟩
      rw [firstFree, hfirst]
      dsimp only
      split
      next htaken =>
        cases d with
        | zero =>
            rw [Nat.add_zero, Nat.mod_eq_of_lt hstart, hfirst, Option.some.injEq] at hname
            rw [← hname, ← Disk.nameExists_eq_false, htaken] at hfree
            exact absurd hfree (by simp)
        | succ d =>
            refine ih (d := d) (Nat.mod_lt _ (by omega)) (by omega) ?_
            rw [Nat.mod_add_mod, Nat.add_assoc, Nat.add_comm 1 d]
            exact hname
      next => exact ⟨_, rfl⟩

theorem findLastIndex_isSome_iff {archiveTime : Int} {sample : List Char}
    (hsample : b.buildName m 0 archiveTime = some sample) (henabled : b.archiveTemplate ≠ []) :
    (∃ index, b.findLastIndex m disk archiveTime = some index) ↔
      ∀ listing, disk.listing (parentPath sample) = some listing →
        listing.complete = true ∧ (b.buildIndexPattern m archiveTime).isSome := by
  rw [findLastIndex, if_neg henabled, hsample]
  dsimp only
  cases disk.listing (parentPath sample) with
  | none => simp
  | some listing =>
      cases b.buildIndexPattern m archiveTime with
      | none => simp
      | some pattern => cases hcomplete : listing.complete <;> simp [hcomplete]

theorem buildName_isSome_of_expands {archiveTime : Int}
    (hexpands : (processTemplate m templateConst none b.archiveTemplate).isSome) (i : Nat) :
    ∃ name, b.buildName m i archiveTime = some name := by
  rw [← RetainingBackend.archiveText_isSome_iff m b.toRetainingBackend archiveTime,
    Option.isSome_iff_exists] at hexpands
  rcases hexpands with ⟨text, htext⟩
  exact ⟨_, RetainingBackend.buildName_of_text htext i⟩

/-- `SetTime` ends without an exception. -/
theorem setTime_isSome_iff {now archiveTime : Int}
    (hexpands : (processTemplate m templateConst none b.archiveTemplate).isSome) :
    (∃ q, b.setTime m disk now archiveTime = some q) ↔
      (b.Switches m (timeOf now archiveTime) →
        ∃ index, b.findLastIndex m disk (timeOf now archiveTime) = some index) := by
  have hbuild : ∀ t, ∃ name, b.buildName m 0 t = some name :=
    fun _ => buildName_isSome_of_expands hexpands 0
  have hold : ∃ name, b.oldProbe m = some name := by
    unfold oldProbe
    split
    next => exact hbuild _
    next => exact ⟨_, rfl⟩
  rcases hold with ⟨oldName, hold⟩
  rcases hbuild (timeOf now archiveTime) with ⟨newName, hnew⟩
  have htime : (if archiveTime = 0 then now else archiveTime) = timeOf now archiveTime := rfl
  unfold setTime Switches
  dsimp only
  rw [htime]
  split
  next hempty => simp [hempty]
  next henabled =>
    rw [hold, hnew]
    dsimp only
    split
    next hne =>
      cases b.findLastIndex m disk (timeOf now archiveTime) <;> simp [henabled, hne]
    next heq => simp [not_not.mp heq]

/-- What it takes for `TakeName` to return: no exception, and a name that is
free and can be seen to be free. -/
structure CanTakeName (m : TemplateValues) (b : IndexedBackend) (disk : Disk)
    (archiveTime : Int) : Prop where
  expands : (processTemplate m templateConst none b.archiveTemplate).isSome
  scans : b.Switches m archiveTime → ∀ sample listing,
    b.buildName m 0 archiveTime = some sample →
    disk.listing (parentPath sample) = some listing →
    listing.complete = true ∧ (b.buildIndexPattern m archiveTime).isSome
  free : ∃ i < 2 ^ 64, ∃ archive,
    b.buildName m i archiveTime = some archive ∧ disk.Fresh archive

/-- After finitely many steps `TakeName` returns a fresh name. -/
def TakesFreshName (m : TemplateValues) (b : IndexedBackend) (disk : Disk)
    (now archiveTime : Int) : Prop :=
  ∃ fuel archive q, b.takeName m disk now archiveTime fuel = some (archive, q) ∧
    disk.Fresh archive

theorem expands_of_buildName {archiveTime : Int} {i : Nat} {name : List Char}
    (hname : b.buildName m i archiveTime = some name) :
    (processTemplate m templateConst none b.archiveTemplate).isSome := by
  rw [RetainingBackend.buildName, Option.map_eq_some_iff] at hname
  rcases hname with ⟨text, htext, _⟩
  rw [htext]
  rfl

/-- When `SetTime` has ended, a fresh name is found. -/
theorem takeName_isSome {q : IndexedBackend} {now archiveTime : Int} {i : Nat}
    {archive : List Char} (hset : b.setTime m disk now archiveTime = some q) (hi : i < 2 ^ 64)
    (hname : b.buildName m i (timeOf now archiveTime) = some archive)
    (hfree : disk.Fresh archive) :
    ∃ fuel j name, b.takeName m disk now archiveTime fuel =
        some (name, { q with archiveIndex := j }) ∧
      j < 2 ^ 64 ∧ b.buildName m j (timeOf now archiveTime) = some name ∧ disk.Fresh name := by
  have hbuild := buildName_after hset
  -- the distance from the first number, around the end of the range
  let start := (q.archiveIndex + 1) % 2 ^ 64
  have hstart : start < 2 ^ 64 := Nat.mod_lt _ (by omega)
  have hdistance : (start + (i + 2 ^ 64 - start)) % 2 ^ 64 = i := by
    rw [Nat.add_sub_cancel' (by omega), Nat.add_mod_right, Nat.mod_eq_of_lt hi]
  have hbuilds : ∀ i : Nat, (q.buildName m i q.archiveTime).isSome := by
    intro i
    rw [hbuild, Option.isSome_iff_exists]
    exact buildName_isSome_of_expands (expands_of_buildName hname) i
  have hsearch : ∃ taken, q.firstFree m disk (2 ^ 65) start = some taken := by
    refine firstFree_isSome (d := i + 2 ^ 64 - start) hbuilds hstart (by omega) ?_ hfree
    rw [hdistance, hbuild]
    exact hname
  rcases hsearch with ⟨⟨j, name⟩, hfirst⟩
  rcases firstFree_eq_some hstart hfirst with ⟨hj, hjname, hjfree⟩
  rw [hbuild] at hjname
  refine ⟨2 ^ 65, j, name, ?_, hj, hjname, hjfree⟩
  rw [takeName_eq hset, hfirst]
  rfl

theorem CanTakeName.takesFreshName {now archiveTime : Int}
    (h : b.CanTakeName m disk (timeOf now archiveTime)) :
    b.TakesFreshName m disk now archiveTime := by
  have hset : ∃ q, b.setTime m disk now archiveTime = some q := by
    rw [setTime_isSome_iff h.expands]
    intro hswitch
    rcases buildName_isSome_of_expands h.expands 0 with ⟨sample, hsample⟩
    exact (findLastIndex_isSome_iff hsample hswitch.1).mpr fun listing =>
      h.scans hswitch sample listing hsample
  rcases hset with ⟨q, hset⟩
  rcases h.free with ⟨i, hi, archive, hname, hfree⟩
  rcases takeName_isSome hset hi hname hfree with ⟨fuel, j, name, htake, _, _, hfresh⟩
  exact ⟨fuel, name, _, htake, hfresh⟩

theorem CanTakeName.of_takeName {now archiveTime : Int} {fuel : Nat} {archive : List Char}
    {r : IndexedBackend} (htake : b.takeName m disk now archiveTime fuel = some (archive, r)) :
    b.CanTakeName m disk (timeOf now archiveTime) := by
  unfold takeName at htake
  split at htake
  next => simp at htake
  next q hset =>
    rw [Option.map_eq_some_iff] at htake
    rcases htake with ⟨⟨i, name⟩, hfirst, _⟩
    rcases firstFree_eq_some (Nat.mod_lt _ (by omega)) hfirst with ⟨hi, hname, hfree⟩
    rw [buildName_after hset] at hname
    have hexpands := expands_of_buildName (b := b) hname
    refine ⟨hexpands, fun hswitch sample listing hsample hlisting => ?_,
      i, hi, name, hname, hfree⟩
    have hfind := (setTime_isSome_iff hexpands).mp ⟨q, hset⟩ hswitch
    exact (findLastIndex_isSome_iff hsample hswitch.1).mp hfind listing hlisting

/-- `TakeName` ends with a fresh name exactly when there is one. -/
theorem takesFreshName_iff (m : TemplateValues) (b : IndexedBackend) (disk : Disk)
    (now archiveTime : Int) :
    b.TakesFreshName m disk now archiveTime ↔
      b.CanTakeName m disk (timeOf now archiveTime) := by
  constructor
  · rintro ⟨fuel, archive, r, htake, _⟩
    exact .of_takeName htake
  · exact CanTakeName.takesFreshName

/-- Daily rotation to an archive without `{index}`, which the parser accepts. -/
def oneNameObject : JsonValue :=
  .object [(ascii "archive", .string (ascii "old.log")),
    (ascii "file", .string (ascii "app.log")),
    (ascii "rotation", .string (ascii "daily"))]

def oneNameConfig : FileBackendConfig :=
  { maxSize := 1048576
    filename := ascii "app.log"
    archiveFilename := ascii "old.log"
    dailyRotation := true
    timeRotation := .daily }

def oneNameBackend : IndexedBackend where
  nameTemplate := "app.log".toList
  archiveTemplate := "old.log".toList
  homeDirectory := "/logs/".toList
  gzipCompression := false
  name := "/logs/app.log".toList
  archiveTime := 0
  retention := oneMillisecond
  archiveIndex := 0

/-- The one archive exists. -/
def oneArchive : Disk where
  status path :=
    if path = "/logs".toList ∨ path = "/logs/old.log".toList then .present else .absent
  list _ := none

theorem takeName_oneName_never_ends :
    (oneNameObject.parseFileBackend 1048576).outcome = .value oneNameConfig ∧
      oneNameConfig.archiveFilename = ascii (String.ofList oneNameBackend.archiveTemplate) ∧
      ¬ oneNameBackend.TakesFreshName RetainingBackend.processValues oneArchive 86400 0 := by
  refine ⟨rfl, by decide, ?_⟩
  rintro ⟨fuel, archive, r, htake, _⟩
  rcases (CanTakeName.of_takeName htake).free with ⟨i, _, name, hname, hfree⟩
  have htext : oneNameBackend.archiveText RetainingBackend.processValues (timeOf 86400 0) =
      some "old.log".toList := by decide
  rw [RetainingBackend.buildName_unnumbered htext (by decide), Option.some.injEq] at hname
  subst name
  exact absurd hfree.1 (by decide)

end IndexedBackend
end Logme
