import Logme.IndexPattern

/-!
# Recovery of the archive index

When `SetTime` switches to another period, it takes the largest number among
the regular files of the directory that match the index pattern.  That is the
largest number of an archive exactly when the pattern can be compiled, the
paths of the entries are spelled like the names of the archives, and neither
an archive that is not a regular file nor a number with zeros in front is
larger.
-/

namespace Logme

open RetentionCleaner SubmatchPattern RetainingBackend

/-! ## Directories and file names -/

def directoryText (path : List Char) : List Char :=
  (path.reverse.dropWhile fun c => c != '/').reverse

def fileName (path : List Char) : List Char :=
  (path.reverse.takeWhile fun c => c != '/').reverse

theorem directoryText_append_fileName (path : List Char) :
    directoryText path ++ fileName path = path := by
  rw [directoryText, fileName, ← List.reverse_append, List.takeWhile_append_dropWhile,
    List.reverse_reverse]

theorem not_mem_fileName (path : List Char) : '/' ∉ fileName path := by
  rw [fileName, List.mem_reverse]
  intro hmem
  exact absurd (List.mem_takeWhile_imp hmem) (by decide)

/-- A text without a separator behind a path. -/
theorem dropWhile_append {path v : List Char} (hv : '/' ∉ v) :
    ((path ++ v).reverse.dropWhile fun c => c != '/') =
      path.reverse.dropWhile fun c => c != '/' := by
  rw [List.reverse_append, List.dropWhile_append_of_pos]
  intro c hc
  rw [List.mem_reverse] at hc
  rw [bne_iff_ne]
  rintro rfl
  exact hv hc

theorem parentPath_append {path v : List Char} (hv : '/' ∉ v) :
    parentPath (path ++ v) = parentPath path := by
  unfold parentPath
  rw [dropWhile_append hv]
  dsimp only
  cases path with
  | cons c path => rfl
  | nil =>
      have hhead : v.head? ≠ some '/' := by
        intro hhead
        exact hv (List.mem_of_mem_head? hhead)
      simp [hhead]

/-- Ends with a separator, or is empty. -/
def Closed (dir : List Char) : Prop := dir = [] ∨ dir.getLast? = some '/'

theorem closed_directoryText (path : List Char) : Closed (directoryText path) := by
  unfold Closed directoryText
  rw [List.getLast?_reverse, List.reverse_eq_nil_iff]
  cases hrest : path.reverse.dropWhile fun c => c != '/' with
  | nil => exact .inl rfl
  | cons c rest =>
      have hc := List.head?_dropWhile_not (fun c : Char => c != '/') path.reverse
      rw [hrest, List.head?_cons] at hc
      simp at hc
      rw [hc]
      exact .inr rfl

theorem entryPath_eq (dir name : List Char) :
    entryPath dir name = entryPath dir [] ++ name := by
  unfold entryPath
  split <;> simp

theorem closed_entryPath (dir : List Char) : (entryPath dir []).getLast? = some '/' := by
  unfold entryPath
  split
  next hlast => rw [List.append_nil, hlast]
  next => simp

/-- A path is split at its last separator in one way. -/
theorem closed_unique {x y v w : List Char} (hx : Closed x) (hy : Closed y) (hv : '/' ∉ v)
    (hw : '/' ∉ w) (heq : x ++ v = y ++ w) : x = y ∧ v = w := by
  have hdir : ∀ {z u : List Char}, Closed z → '/' ∉ u → directoryText (z ++ u) = z := by
    intro z u hz hu
    unfold directoryText
    rw [dropWhile_append hu]
    rcases hz with rfl | hlast
    · rfl
    · rw [List.getLast?_eq_head?_reverse] at hlast
      cases hback : z.reverse with
      | nil => simp [hback] at hlast
      | cons c back =>
          rw [hback, List.head?_cons, Option.some.injEq] at hlast
          rw [List.dropWhile_cons_of_neg (by simp [hlast]), ← hback, List.reverse_reverse]
  have hsame : x = y := by
    rw [← hdir hx hv, heq, hdir hy hw]
  subst y
  exact ⟨rfl, List.append_cancel_left heq⟩

/-- The entries of the directory are spelled like the path. -/
def Spelled (path : List Char) : Prop :=
  entryPath (parentPath path) [] = directoryText path
  deriving Decidable

theorem entryPath_eq_iff {path name v : List Char} (hname : '/' ∉ name) (hv : '/' ∉ v) :
    entryPath (parentPath path) name = path ++ v ↔
      Spelled path ∧ name = fileName path ++ v := by
  rw [entryPath_eq]
  have hpath := directoryText_append_fileName path
  have hfile : '/' ∉ fileName path ++ v := by
    rw [List.mem_append, not_or]
    exact ⟨not_mem_fileName path, hv⟩
  constructor
  · intro heq
    rw [← hpath, List.append_assoc] at heq
    have hsplit := closed_unique (.inr (closed_entryPath _)) (closed_directoryText path)
      hname hfile heq
    rw [hpath] at hsplit
    exact hsplit
  · rintro ⟨hspelled, rfl⟩
    rw [hspelled, ← List.append_assoc, hpath]

/-! ## The largest index -/

theorem isIndexDigit_eq (c : Char) : isIndexDigit c = c.isDigit := by
  simp [isIndexDigit, Char.isDigit, Char.le_def, UInt32.le_iff_toNat_le]

theorem indexDigits_decimal (i : Nat) : IndexDigits (decimal i) := by
  refine ⟨(decimal_dateText i).1, fun c hc => ?_⟩
  rw [decimal_natCast] at hc
  rw [isIndexDigit_eq]
  exact Nat.isDigit_of_mem_toDigits (by decide) (by decide) hc

theorem tryParseUInt64_eq_some {d : List Char} (hd : IndexDigits d) (n : Nat) :
    tryParseUInt64 d = some n ↔ Nat.ofDigitChars 10 d 0 = n ∧ n < 2 ^ 64 := by
  have hall : d.all Char.isDigit = true :=
    List.all_eq_true.mpr fun c hc => (isIndexDigit_eq c).symm.trans (hd.2 c hc)
  unfold tryParseUInt64
  split
  next hparse =>
    rw [Option.some.injEq]
    constructor
    · rintro rfl
      exact ⟨rfl, hparse.2.2⟩
    · exact And.left
  next hparse =>
    constructor
    · intro hnone
      simp at hnone
    · rintro ⟨rfl, hlt⟩
      exact absurd ⟨hd.1, hall, hlt⟩ hparse

/-- The entry is a regular file of the archive with the digits of `n`, which
may begin with zeros. -/
def Numbers (path after : List Char) (e : Entry) (n : Nat) : Prop :=
  e.isRegularFile = true ∧ ∃ d tail, IndexDigits d ∧ ArchiveTail tail ∧
    e.name = fileName path ++ (d ++ after ++ tail) ∧ Nat.ofDigitChars 10 d 0 = n ∧ n < 2 ^ 64

theorem not_mem_digits {d : List Char} (hd : IndexDigits d) : '/' ∉ d := by
  intro hmem
  exact absurd (hd.2 '/' hmem) (by decide)

theorem not_mem_tail {tail : List Char} (htail : ArchiveTail tail) : '/' ∉ tail := by
  rcases htail with rfl | rfl
  · simp
  · decide

theorem entryIndex_eq_some {path after : List Char} {e : Entry} (hfile : '/' ∉ after)
    (hname : '/' ∉ e.name) (n : Nat) :
    entryIndex (indexTerms path after) (parentPath path) e = some n ↔
      Spelled path ∧ Numbers path after e n := by
  have hrest : ∀ {d tail : List Char}, IndexDigits d → ArchiveTail tail →
      '/' ∉ d ++ after ++ tail := by
    intro d tail hd htail
    simp only [List.mem_append, not_or]
    exact ⟨⟨not_mem_digits hd, hfile⟩, not_mem_tail htail⟩
  unfold entryIndex Numbers
  cases hregular : e.isRegularFile with
  | false => simp
  | true =>
      rw [if_pos rfl]
      constructor
      · intro hindex
        split at hindex
        next d y hmatch =>
          rcases regexMatch_indexTerms.mp ⟨y, hmatch⟩ with ⟨hd, tail, htail, hpath⟩
          rw [List.append_assoc, List.append_assoc, ← List.append_assoc d,
            entryPath_eq_iff hname (hrest hd htail)] at hpath
          rw [tryParseUInt64_eq_some hd] at hindex
          exact ⟨hpath.1, rfl, d, tail, hd, htail, hpath.2, hindex⟩
        next => simp at hindex
      · rintro ⟨hspelled, _, d, tail, hd, htail, hentry, hvalue⟩
        have hpath := (entryPath_eq_iff hname (hrest hd htail)).mpr ⟨hspelled, hentry⟩
        have hmatch : ∃ y, regexMatch (indexTerms path after)
            (entryPath (parentPath path) e.name) = some (d :: y) := by
          refine regexMatch_indexTerms.mpr ⟨hd, tail, htail, ?_⟩
          rw [hpath]
          simp only [List.append_assoc]
        rcases hmatch with ⟨y, hmatch⟩
        rw [hmatch]
        exact (tryParseUInt64_eq_some hd n).mpr hvalue

theorem le_lastIndex (pattern : List Term) (dir : List Char) (maxIndex : Nat)
    (entries : List Entry) :
    maxIndex ≤ lastIndex pattern dir maxIndex entries ∧
      ∀ e ∈ entries, ∀ n, entryIndex pattern dir e = some n →
        n ≤ lastIndex pattern dir maxIndex entries := by
  induction entries generalizing maxIndex with
  | nil => exact ⟨Nat.le_refl _, by simp⟩
  | cons first rest ih =>
      rw [lastIndex]
      split
      next hnone =>
        refine ⟨(ih maxIndex).1, fun e he n hn => ?_⟩
        rcases List.mem_cons.mp he with rfl | he
        · rw [hnone] at hn
          simp at hn
        · exact (ih maxIndex).2 e he n hn
      next index hindex =>
        have hnext := ih (if index > maxIndex then index else maxIndex)
        have hboth : maxIndex ≤ (if index > maxIndex then index else maxIndex) ∧
            index ≤ (if index > maxIndex then index else maxIndex) := by
          split <;> omega
        refine ⟨hboth.1.trans hnext.1, fun e he n hn => ?_⟩
        rcases List.mem_cons.mp he with rfl | he
        · rw [hindex, Option.some.injEq] at hn
          rw [← hn]
          exact hboth.2.trans hnext.1
        · exact hnext.2 e he n hn

theorem lastIndex_mem (pattern : List Term) (dir : List Char) (maxIndex : Nat)
    (entries : List Entry) :
    lastIndex pattern dir maxIndex entries = maxIndex ∨
      ∃ e ∈ entries, entryIndex pattern dir e =
        some (lastIndex pattern dir maxIndex entries) := by
  induction entries generalizing maxIndex with
  | nil => exact .inl rfl
  | cons first rest ih =>
      rw [lastIndex]
      split
      next =>
        refine (ih maxIndex).imp id ?_
        rintro ⟨e, he, hindex⟩
        exact ⟨e, List.mem_cons_of_mem _ he, hindex⟩
      next index hindex =>
        rcases ih (if index > maxIndex then index else maxIndex) with hsame | ⟨e, he, hfound⟩
        · rw [hsame]
          split
          next => exact .inr ⟨first, List.mem_cons_self, hindex⟩
          next => exact .inl rfl
        · exact .inr ⟨e, List.mem_cons_of_mem _ he, hfound⟩

/-! ## The recovered index -/

namespace IndexedBackend

variable {m : TemplateValues} {b : IndexedBackend} {disk : Disk} {now archiveTime : Int}
  {before after : List Char}

/-- An archive with this number exists. -/
def Archived (m : TemplateValues) (b : IndexedBackend) (disk : Disk) (archiveTime : Int)
    (i : Nat) : Prop :=
  i < 2 ^ 64 ∧ ∃ archive, b.buildName m i archiveTime = some archive ∧
    (disk.status archive = .present ∨ disk.status (archive ++ gzSuffix) = .present)

/-- The name with this number can be taken. -/
def FreshNumber (m : TemplateValues) (b : IndexedBackend) (disk : Disk) (archiveTime : Int)
    (i : Nat) : Prop :=
  i < 2 ^ 64 ∧ ∃ archive, b.buildName m i archiveTime = some archive ∧ disk.Fresh archive

/-- The index that `SetTime` recovers is at least the number of every archive
and, unless it is zero, the number of one; and a number that `TakeName` hands
out is larger than that of every archive. -/
def RecoversIndex (m : TemplateValues) (b : IndexedBackend) (disk : Disk)
    (now archiveTime : Int) : Prop :=
  ∃ q, b.setTime m disk now archiveTime = some q ∧
    (∀ i, b.Archived m disk (timeOf now archiveTime) i → i ≤ q.archiveIndex) ∧
    (q.archiveIndex = 0 ∨ b.Archived m disk (timeOf now archiveTime) q.archiveIndex) ∧
    ∀ fuel archive r, b.takeName m disk now archiveTime fuel = some (archive, r) →
      ∀ i, b.Archived m disk (timeOf now archiveTime) i → i < r.archiveIndex

/-- The directory that `FindLastIndex` goes through, if it does. -/
def scan (m : TemplateValues) (b : IndexedBackend) (disk : Disk) (archiveTime : Int) :
    Option Listing :=
  (b.buildName m 0 archiveTime).bind fun sample => disk.listing (parentPath sample)

/-- Some regular file has the number. -/
def NumberedFile (path after : List Char) (listing : Listing) (n : Nat) : Prop :=
  ∃ e ∈ listing.entries, Numbers path after e n

/-- The pattern finds the number in the path of an entry. -/
def Recognised (m : TemplateValues) (b : IndexedBackend) (archiveTime : Int)
    (listing : Listing) (n : Nat) : Prop :=
  ∃ sample pattern, b.buildName m 0 archiveTime = some sample ∧
    b.buildIndexPattern m archiveTime = some pattern ∧
    ∃ e ∈ listing.entries, entryIndex pattern (parentPath sample) e = some n

/-- The number counts.  In texts with braces the pattern has quantifiers and
wildcards of its own, and what counts is what it finds. -/
def Counted (m : TemplateValues) (b : IndexedBackend) (archiveTime : Int)
    (before after : List Char) (listing : Listing) (n : Nat) : Prop :=
  (b.PlainTexts before after ∧ Spelled (b.namePrefix before) ∧
    NumberedFile (b.namePrefix before) after listing n) ∨
  (¬ b.PlainTexts before after ∧ b.Recognised m archiveTime listing n)

/-- What the directory must be like. -/
structure Recoverable (m : TemplateValues) (b : IndexedBackend) (disk : Disk)
    (archiveTime : Int) (before after : List Char) : Prop where
  ends : ∀ listing, b.scan m disk archiveTime = some listing →
    listing.complete = true ∧ (b.buildIndexPattern m archiveTime).isSome
  unscanned : b.scan m disk archiveTime = none →
    ∀ i, b.Archived m disk archiveTime i → i = 0
  missed : ∀ listing, b.scan m disk archiveTime = some listing →
    ∀ i ≠ 0, b.Archived m disk archiveTime i →
    ¬ b.Counted m archiveTime before after listing i →
    ∃ n > i, b.Counted m archiveTime before after listing n
  raised : ∀ listing, b.scan m disk archiveTime = some listing →
    ∀ n ≠ 0, b.Counted m archiveTime before after listing n →
    ¬ b.Archived m disk archiveTime n → ∃ i > n, b.Archived m disk archiveTime i
  room : (∃ j, b.FreshNumber m disk archiveTime j) →
    ∃ j, b.FreshNumber m disk archiveTime j ∧ ∀ i, b.Archived m disk archiveTime i → i < j

theorem setTime_switch (hswitch : b.Switches m (timeOf now archiveTime)) :
    b.setTime m disk now archiveTime =
      (b.findLastIndex m disk (timeOf now archiveTime)).map fun index =>
        { b with archiveTime := timeOf now archiveTime, archiveIndex := index } := by
  have htime : (if archiveTime = 0 then now else archiveTime) = timeOf now archiveTime := rfl
  unfold setTime
  dsimp only
  rw [htime, if_neg hswitch.1]
  cases hnew : b.buildName m 0 (timeOf now archiveTime) with
  | none =>
      have hfind : b.findLastIndex m disk (timeOf now archiveTime) = none := by
        rw [findLastIndex, if_neg hswitch.1, hnew]
      rw [hfind]
      cases b.oldProbe m <;> rfl
  | some newName =>
      have hold : ∃ oldName, b.oldProbe m = some oldName := by
        unfold oldProbe
        split
        next => exact buildName_isSome_of_expands (expands_of_buildName hnew) 0
        next => exact ⟨_, rfl⟩
      rcases hold with ⟨oldName, hold⟩
      have hne := hswitch.2
      rw [hold, hnew, ne_eq, Option.some.injEq] at hne
      rw [hold]
      dsimp only
      rw [if_pos hne]

theorem findLastIndex_unscanned (henabled : b.archiveTemplate ≠ [])
    (hsome : (b.buildName m 0 archiveTime).isSome) (hscan : b.scan m disk archiveTime = none) :
    b.findLastIndex m disk archiveTime = some 0 := by
  rcases Option.isSome_iff_exists.mp hsome with ⟨sample, hsample⟩
  rw [scan, hsample, Option.bind_some] at hscan
  rw [findLastIndex, if_neg henabled, hsample]
  dsimp only
  rw [hscan]

/-- A scan that ends gives the largest number that the pattern finds. -/
theorem findLastIndex_scanned (henabled : b.archiveTemplate ≠ []) {sample : List Char}
    (hsample : b.buildName m 0 archiveTime = some sample) {listing : Listing}
    (hscan : b.scan m disk archiveTime = some listing) (hcomplete : listing.complete = true)
    (hpattern : (b.buildIndexPattern m archiveTime).isSome) :
    ∃ index, b.findLastIndex m disk archiveTime = some index ∧
      (∀ n, b.Recognised m archiveTime listing n → n ≤ index) ∧
      (index = 0 ∨ b.Recognised m archiveTime listing index) := by
  rcases Option.isSome_iff_exists.mp hpattern with ⟨pattern, hpattern⟩
  rw [scan, hsample, Option.bind_some] at hscan
  refine ⟨lastIndex pattern (parentPath sample) 0 listing.entries, ?_, ?_, ?_⟩
  · rw [findLastIndex, if_neg henabled, hsample]
    dsimp only
    rw [hscan, hpattern]
    dsimp only
    rw [if_pos hcomplete]
  · rintro n ⟨sample', pattern', hsample', hpattern', e, he, hindex⟩
    rw [hsample, Option.some.injEq] at hsample'
    rw [hpattern, Option.some.injEq] at hpattern'
    subst sample' pattern'
    exact (le_lastIndex pattern (parentPath sample) 0 listing.entries).2 e he n hindex
  · refine (lastIndex_mem pattern (parentPath sample) 0 listing.entries).imp id ?_
    exact fun hmem => ⟨sample, pattern, hsample, hpattern, hmem⟩

/-! ### Numbers handed out -/

/-- The search takes the first number, from the start on, that is fresh. -/
theorem firstFree_between {fuel start j i : Nat} {archive : List Char} (hj : j < 2 ^ 64)
    (hle : start ≤ j)
    (hfresh : ∃ name, b.buildName m j b.archiveTime = some name ∧ disk.Fresh name)
    (hfirst : b.firstFree m disk fuel start = some (i, archive)) : start ≤ i := by
  induction fuel generalizing start with
  | zero => simp [firstFree] at hfirst
  | succ fuel ih =>
      rw [firstFree] at hfirst
      split at hfirst
      next => simp at hfirst
      next name hname =>
        split at hfirst
        next htaken =>
          have hne : start ≠ j := by
            rintro rfl
            rcases hfresh with ⟨name', hname', hfree⟩
            rw [hname, Option.some.injEq] at hname'
            subst name'
            rw [← Disk.nameExists_eq_false, htaken] at hfree
            exact absurd hfree (by simp)
          rw [Nat.mod_eq_of_lt (by omega)] at hfirst
          have hnext := ih (by omega) hfirst
          omega
        next =>
          simp only [Option.some.injEq, Prod.mk.injEq] at hfirst
          exact hfirst.1.le

section Switched

variable {q : IndexedBackend}

/-- Numbers go up as long as there is room above the archives. -/
theorem room_iff (hset : b.setTime m disk now archiveTime = some q)
    (hcovers : ∀ i, b.Archived m disk (timeOf now archiveTime) i → i ≤ q.archiveIndex)
    (hraised : q.archiveIndex = 0 ∨ b.Archived m disk (timeOf now archiveTime) q.archiveIndex) :
    (∀ fuel archive r, b.takeName m disk now archiveTime fuel = some (archive, r) →
      ∀ i, b.Archived m disk (timeOf now archiveTime) i → i < r.archiveIndex) ↔
    ((∃ j, b.FreshNumber m disk (timeOf now archiveTime) j) →
      ∃ j, b.FreshNumber m disk (timeOf now archiveTime) j ∧
        ∀ i, b.Archived m disk (timeOf now archiveTime) i → i < j) := by
  have hname := buildName_after hset
  constructor
  · rintro hgrows ⟨i, hi, archive, hbuild, hfresh⟩
    rcases takeName_isSome hset hi hbuild hfresh with
      ⟨fuel, j, name, htake, hj, hjbuild, hjfresh⟩
    exact ⟨j, ⟨hj, name, hjbuild, hjfresh⟩, hgrows fuel name _ htake⟩
  · intro hroom fuel archive r htake i hi
    rw [takeName_eq hset, Option.map_eq_some_iff] at htake
    rcases htake with ⟨⟨k, name⟩, hfirst, htaken⟩
    simp only [Prod.mk.injEq] at htaken
    rcases htaken with ⟨rfl, rfl⟩
    rcases firstFree_eq_some (Nat.mod_lt _ (by omega)) hfirst with ⟨hk, hbuild, hfresh⟩
    rw [hname] at hbuild
    rcases hroom ⟨k, hk, name, hbuild, hfresh⟩ with ⟨j, ⟨hj, top, hjbuild, hjfresh⟩, habove⟩
    have hlast : b.Archived m disk (timeOf now archiveTime) q.archiveIndex := by
      rcases hraised with hzero | harchived
      · have hle := hcovers i hi
        rw [hzero, Nat.le_zero] at hle
        rw [hzero, ← hle]
        exact hi
      · exact harchived
    have hlt := habove _ hlast
    rw [Nat.mod_eq_of_lt (by omega)] at hfirst
    have hstart := firstFree_between hj hlt ⟨top, by rw [hname]; exact hjbuild, hjfresh⟩ hfirst
    have hle := hcovers i hi
    change i < k
    omega

end Switched

/-! ### When the index is recovered -/

/-- The largest number of one kind is the largest number of another. -/
theorem largest_iff {A R : Nat → Prop} {top : Nat} (hbound : ∀ n, R n → n ≤ top)
    (htop : top = 0 ∨ R top) :
    ((∀ i, A i → i ≤ top) ∧ (top = 0 ∨ A top)) ↔
      (∀ i ≠ 0, A i → ¬ R i → ∃ n > i, R n) ∧
        ∀ n ≠ 0, R n → ¬ A n → ∃ i > n, A i := by
  constructor
  · rintro ⟨hcovers, hraised⟩
    refine ⟨fun i hne hi hnot => ?_, fun n hne hn hnot => ?_⟩
    · have hle := hcovers i hi
      have hfound : R top := htop.resolve_left (by omega)
      refine ⟨top, lt_of_le_of_ne hle ?_, hfound⟩
      rintro rfl
      exact hnot hfound
    · have hle := hbound n hn
      have hreached : A top := hraised.resolve_left (by omega)
      refine ⟨top, lt_of_le_of_ne hle ?_, hreached⟩
      rintro rfl
      exact hnot hreached
  · rintro ⟨hmissed, hraised⟩
    have hcovers : ∀ i, A i → i ≤ top := by
      intro i hi
      by_cases hzero : i = 0
      · omega
      · by_cases hfound : R i
        · exact hbound i hfound
        · rcases hmissed i hzero hi hfound with ⟨n, hlt, hn⟩
          exact (Nat.le_of_lt hlt).trans (hbound n hn)
    refine ⟨hcovers, ?_⟩
    by_contra hnot
    rw [not_or] at hnot
    rcases hraised top hnot.1 (htop.resolve_left hnot.1) hnot.2 with ⟨i, hlt, hi⟩
    exact absurd (hcovers i hi) (Nat.not_le.mpr hlt)

/-- The parts of an archive text with an index in its last part, at a switch
to another period. -/
structure Indexed (m : TemplateValues) (b : IndexedBackend) (archiveTime : Int)
    (before after : List Char) : Prop where
  switches : b.Switches m archiveTime
  text : b.archiveText m archiveTime = some (before ++ TINDEX ++ after)
  file : '/' ∉ after

theorem Indexed.buildName_isSome (h : b.Indexed m archiveTime before after) (i : Nat) :
    (b.buildName m i archiveTime).isSome := by
  rw [RetainingBackend.buildName_of_text h.text]
  rfl

/-- Without braces the numbers that the pattern finds are those of the files. -/
theorem Indexed.recognised_iff (h : b.Indexed m archiveTime before after)
    {listing : Listing} {n : Nat} :
    b.Recognised m archiveTime listing n ↔
      b.Counted m archiveTime before after listing n := by
  by_cases hplain : b.PlainTexts before after
  · have hslash : '/' ∉ decimal ((0 : Nat) : Int) ++ after := by
      rw [List.mem_append, not_or]
      exact ⟨by decide, h.file⟩
    have hdir : parentPath (b.namePrefix before ++ decimal ((0 : Nat) : Int) ++ after) =
        parentPath (b.namePrefix before) := by
      rw [List.append_assoc, parentPath_append hslash]
    have hentry : ∀ e ∈ listing.entries,
        (entryIndex (indexTerms (b.namePrefix before) after)
          (parentPath (b.namePrefix before)) e = some n ↔
        Spelled (b.namePrefix before) ∧ Numbers (b.namePrefix before) after e n) :=
      fun e he => entryIndex_eq_some h.file (listing.named e he) n
    unfold Recognised Counted NumberedFile
    rw [hplain.buildName_eq h.text, hplain.buildIndexPattern_eq h.text]
    constructor
    · rintro ⟨sample, pattern, hsample, hpattern, e, he, hindex⟩
      rw [Option.some.injEq] at hsample hpattern
      subst sample pattern
      rw [hdir, hentry e he] at hindex
      exact .inl ⟨hplain, hindex.1, e, he, hindex.2⟩
    · rintro (⟨_, hspelled, e, he, hnumbers⟩ | ⟨hbraces, _⟩)
      · refine ⟨_, _, rfl, rfl, e, he, ?_⟩
        rw [hdir, hentry e he]
        exact ⟨hspelled, hnumbers⟩
      · exact absurd hplain hbraces
  · simp [Counted, hplain]

/-- What `FindLastIndex` must give. -/
theorem Indexed.recoversIndex_iff_index
    (h : b.Indexed m (timeOf now archiveTime) before after) :
    b.RecoversIndex m disk now archiveTime ↔
      (∃ index, b.findLastIndex m disk (timeOf now archiveTime) = some index ∧
        (∀ i, b.Archived m disk (timeOf now archiveTime) i → i ≤ index) ∧
        (index = 0 ∨ b.Archived m disk (timeOf now archiveTime) index)) ∧
      ((∃ j, b.FreshNumber m disk (timeOf now archiveTime) j) →
        ∃ j, b.FreshNumber m disk (timeOf now archiveTime) j ∧
          ∀ i, b.Archived m disk (timeOf now archiveTime) i → i < j) := by
  have hset : b.setTime m disk now archiveTime = _ := setTime_switch h.switches
  constructor
  · rintro ⟨q, hq, hcovers, hraised, hgrows⟩
    have hroom := (room_iff hq hcovers hraised).mp hgrows
    rw [hset, Option.map_eq_some_iff] at hq
    rcases hq with ⟨index, hfind, rfl⟩
    exact ⟨⟨index, hfind, hcovers, hraised⟩, hroom⟩
  · rintro ⟨⟨index, hfind, hcovers, hraised⟩, hroom⟩
    rw [hfind, Option.map_some] at hset
    exact ⟨_, hset, hcovers, hraised, (room_iff hset hcovers hraised).mpr hroom⟩

/-- The index that a scan gives. -/
theorem Indexed.scanned_iff (h : b.Indexed m archiveTime before after) {listing : Listing}
    (hscan : b.scan m disk archiveTime = some listing) :
    (∃ index, b.findLastIndex m disk archiveTime = some index ∧
      (∀ i, b.Archived m disk archiveTime i → i ≤ index) ∧
      (index = 0 ∨ b.Archived m disk archiveTime index)) ↔
    (listing.complete = true ∧ (b.buildIndexPattern m archiveTime).isSome) ∧
      (∀ i ≠ 0, b.Archived m disk archiveTime i →
        ¬ b.Counted m archiveTime before after listing i →
        ∃ n > i, b.Counted m archiveTime before after listing n) ∧
      ∀ n ≠ 0, b.Counted m archiveTime before after listing n →
        ¬ b.Archived m disk archiveTime n → ∃ i > n, b.Archived m disk archiveTime i := by
  rcases Option.isSome_iff_exists.mp (h.buildName_isSome 0) with ⟨sample, hsample⟩
  have hlisting : disk.listing (parentPath sample) = some listing := by
    rw [scan, hsample, Option.bind_some] at hscan
    exact hscan
  constructor
  · rintro ⟨index, hfind, hindex⟩
    have hcomplete := (findLastIndex_isSome_iff hsample h.switches.1).mp ⟨index, hfind⟩
      listing hlisting
    rcases findLastIndex_scanned h.switches.1 hsample hscan hcomplete.1 hcomplete.2 with
      ⟨index', hfind', hbound, htop⟩
    rw [hfind, Option.some.injEq] at hfind'
    subst index'
    simp only [h.recognised_iff] at hbound htop
    exact ⟨hcomplete, (largest_iff hbound htop).mp hindex⟩
  · rintro ⟨hcomplete, hnumbers⟩
    rcases findLastIndex_scanned h.switches.1 hsample hscan hcomplete.1 hcomplete.2 with
      ⟨index, hfind, hbound, htop⟩
    simp only [h.recognised_iff] at hbound htop
    exact ⟨index, hfind, (largest_iff hbound htop).mpr hnumbers⟩

/-- The index is recovered exactly in such a directory. -/
theorem recoversIndex_iff (m : TemplateValues) (b : IndexedBackend) (disk : Disk)
    (now archiveTime : Int) (before after : List Char)
    (hindexed : b.Indexed m (timeOf now archiveTime) before after) :
    b.RecoversIndex m disk now archiveTime ↔
      b.Recoverable m disk (timeOf now archiveTime) before after := by
  rw [hindexed.recoversIndex_iff_index]
  constructor
  · rintro ⟨hindex, hroom⟩
    refine ⟨fun _ hscan => ((hindexed.scanned_iff hscan).mp hindex).1, fun hscan i hi => ?_,
      fun _ hscan => ((hindexed.scanned_iff hscan).mp hindex).2.1,
      fun _ hscan => ((hindexed.scanned_iff hscan).mp hindex).2.2, hroom⟩
    rcases hindex with ⟨index, hfind, hcovers, _⟩
    rw [findLastIndex_unscanned hindexed.switches.1 (hindexed.buildName_isSome 0) hscan,
      Option.some.injEq] at hfind
    subst index
    exact Nat.le_zero.mp (hcovers i hi)
  · intro h
    refine ⟨?_, h.room⟩
    cases hscan : b.scan m disk (timeOf now archiveTime) with
    | none =>
        exact ⟨0, findLastIndex_unscanned hindexed.switches.1 (hindexed.buildName_isSome 0) hscan,
          fun i hi => (h.unscanned hscan i hi).le, .inl rfl⟩
    | some listing =>
        exact (hindexed.scanned_iff hscan).mpr
          ⟨h.ends listing hscan, h.missed listing hscan, h.raised listing hscan⟩

/-- Archives `app-1.log`, `app-2.log` and so on in a home directory. -/
def numberedBackend (homeDirectory : List Char) : IndexedBackend where
  nameTemplate := "app.log".toList
  archiveTemplate := "app-{index}.log".toList
  homeDirectory := homeDirectory
  gzipCompression := false
  name := homeDirectory ++ "app.log".toList
  archiveTime := 0
  retention := oneMillisecond
  archiveIndex := 0

def fifthListing : Listing where
  entries := [⟨"app-5.log".toList, true, none, none, true⟩]
  complete := true
  named := by decide

/-- The fifth archive is the one file in the directory. -/
def fifthArchive (dir : List Char) : Disk where
  status path :=
    if path = dir ∨ path = dir ++ "/app-5.log".toList then .present else .absent
  list path := if path = dir then some fifthListing else none

theorem numberedBackend_indexed (homeDirectory : List Char) :
    (numberedBackend homeDirectory).Indexed processValues 86400 "app-".toList ".log".toList where
  switches := by
    have hname : (numberedBackend homeDirectory).buildName processValues 0 86400 =
        some (homeDirectory ++ "app-0.log".toList) := rfl
    have hold : (numberedBackend homeDirectory).oldProbe processValues = some [] := rfl
    refine ⟨List.cons_ne_nil _ _, ?_⟩
    rw [hname, hold, ne_eq, Option.some.injEq]
    simp
  text := rfl
  file := by decide

theorem fifthArchive_present {dir path : List Char} :
    (fifthArchive dir).status path = .present ↔
      path = dir ∨ path = dir ++ "/app-5.log".toList := by
  rw [fifthArchive]
  dsimp only
  split
  next h => exact ⟨fun _ => h, fun _ => rfl⟩
  next h => exact ⟨fun hpresent => absurd hpresent (by decide), fun hpath => absurd hpath h⟩

theorem indexDigits_five : IndexDigits ['5'] := indexDigits_decimal 5

theorem fifth_digits {d tail : List Char} (hd : IndexDigits d) (htail : ArchiveTail tail)
    (heq : d ++ ".log".toList ++ tail = "5.log".toList) : d = ['5'] :=
  digits_unique hd indexDigits_five htail (.inl rfl) heq

/-- There is no other archive. -/
theorem fifthArchive_archived {i : Nat}
    (hi : (numberedBackend "/logs/".toList).Archived processValues
      (fifthArchive "/logs".toList) 86400 i) : i = 5 := by
  have hplain : (numberedBackend "/logs/".toList).PlainTexts "app-".toList ".log".toList :=
    ⟨by decide, by decide⟩
  have hname : ∀ i : Nat, (numberedBackend "/logs/".toList).buildName processValues i 86400 =
      some ("/logs".toList ++ ("/app-".toList ++ (decimal i ++ ".log".toList))) := by
    intro i
    have hprefix : (numberedBackend "/logs/".toList).namePrefix "app-".toList =
        "/logs".toList ++ "/app-".toList := by decide
    rw [hplain.buildName_eq (numberedBackend_indexed _).text, hprefix, List.append_assoc,
      List.append_assoc]
  have hpresent : ∀ tail, ArchiveTail tail →
      (fifthArchive "/logs".toList).status
        ("/logs".toList ++ ("/app-".toList ++ (decimal i ++ ".log".toList)) ++ tail) =
          .present → i = 5 := by
    intro tail htail hstatus
    rcases fifthArchive_present.mp hstatus with hdir | hfile
    · have hlength := congrArg List.length hdir
      simp at hlength
    · rw [List.append_assoc, List.append_cancel_left_eq, List.append_assoc] at hfile
      have hdigits := fifth_digits (indexDigits_decimal i) htail (List.append_cancel_left hfile)
      exact decimal_injective (j := 5) hdigits
  rcases hi with ⟨_, archive, hbuild, hexists⟩
  rw [hname, Option.some.injEq] at hbuild
  subst archive
  rcases hexists with hplainFile | hgzip
  · exact hpresent [] (.inl rfl) (by rw [List.append_nil]; exact hplainFile)
  · exact hpresent gzSuffix (.inr rfl) hgzip

theorem fifthListing_counted {n : Nat} :
    (numberedBackend "/logs/".toList).Counted processValues (timeOf 86400 0) "app-".toList
      ".log".toList fifthListing n ↔ n = 5 := by
  have hplain : (numberedBackend "/logs/".toList).PlainTexts "app-".toList ".log".toList :=
    ⟨by decide, by decide⟩
  have hspelled : Spelled ((numberedBackend "/logs/".toList).namePrefix "app-".toList) := by
    decide
  have hfile : fileName ((numberedBackend "/logs/".toList).namePrefix "app-".toList) =
      "app-".toList := by decide
  constructor
  · rintro (⟨_, _, e, he, _, d, tail, hd, htail, hname, hvalue, _⟩ | ⟨hbraces, _⟩)
    · rw [fifthListing, List.mem_singleton] at he
      subst e
      have htext : "app-".toList ++ "5.log".toList =
          fileName ((numberedBackend "/logs/".toList).namePrefix "app-".toList) ++
            (d ++ ".log".toList ++ tail) := hname
      rw [hfile] at htext
      rw [fifth_digits hd htail (List.append_cancel_left htext).symm] at hvalue
      rw [← hvalue]
      decide
    · exact absurd hplain hbraces
  · rintro rfl
    exact .inl ⟨hplain, hspelled, _, List.mem_singleton_self _, rfl, ['5'], [],
      indexDigits_five, .inl rfl, rfl, by decide, by decide⟩

theorem recoversIndex_fifth :
    (numberedBackend "/logs/".toList).RecoversIndex processValues
      (fifthArchive "/logs".toList) 86400 0 := by
  have hscan : (numberedBackend "/logs/".toList).scan processValues
      (fifthArchive "/logs".toList) (timeOf 86400 0) = some fifthListing := rfl
  have hfifth : (numberedBackend "/logs/".toList).Archived processValues
      (fifthArchive "/logs".toList) (timeOf 86400 0) 5 :=
    ⟨by decide, _, rfl, by decide⟩
  have hlisting : ∀ {listing}, (numberedBackend "/logs/".toList).scan processValues
      (fifthArchive "/logs".toList) (timeOf 86400 0) = some listing →
      listing = fifthListing := by
    intro listing hsome
    rw [hscan, Option.some.injEq] at hsome
    exact hsome.symm
  refine (recoversIndex_iff processValues (numberedBackend "/logs/".toList)
    (fifthArchive "/logs".toList) 86400 0 "app-".toList ".log".toList
    (numberedBackend_indexed _)).mpr ⟨fun listing hsome => ?_, fun hnone => ?_,
      fun listing hsome i _ hi hnot => ?_, fun listing hsome n _ hn hnot => ?_,
      fun _ => ⟨6, ⟨by decide, _, rfl, by decide, by decide⟩, fun i hi => ?_⟩⟩
  · rw [hlisting hsome]
    exact ⟨rfl, by decide⟩
  · rw [hscan] at hnone
    simp at hnone
  · rw [hlisting hsome, fifthArchive_archived hi] at hnot
    exact absurd (fifthListing_counted.mpr rfl) hnot
  · rw [hlisting hsome] at hn
    rw [fifthListing_counted.mp hn] at hnot
    exact absurd hfifth hnot
  · rw [fifthArchive_archived hi]
    decide

/-- With braces in the home directory `SetTime` throws. -/
theorem recoversIndex_not_with_braces :
    (numberedBackend "/srv/{a}/".toList).Indexed processValues 86400
        "app-".toList ".log".toList ∧
      (numberedBackend "/srv/{a}/".toList).Archived processValues
        (fifthArchive "/srv/{a}".toList) 86400 5 ∧
      ¬ (numberedBackend "/srv/{a}/".toList).RecoversIndex processValues
        (fifthArchive "/srv/{a}".toList) 86400 0 := by
  refine ⟨numberedBackend_indexed _, ⟨by decide, _, rfl, by decide⟩, ?_⟩
  rintro ⟨q, hset, _⟩
  have hfind : (numberedBackend "/srv/{a}/".toList).findLastIndex processValues
      (fifthArchive "/srv/{a}".toList) (timeOf 86400 0) = none := by decide
  have hswitch := (numberedBackend_indexed "/srv/{a}/".toList).switches
  have hthrows := hset.symm.trans (setTime_switch hswitch)
  rw [hfind, Option.map_none] at hthrows
  exact Option.some_ne_none q hthrows

end IndexedBackend
end Logme
