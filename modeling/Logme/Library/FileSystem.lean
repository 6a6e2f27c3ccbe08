import Mathlib.Data.Finset.Card
import Mathlib.Data.Finset.Image
import Mathlib.Logic.Function.Basic
import Mathlib.Order.Interval.Finset.Nat

/-!
# A directory of files

A directory maps names to files and a file has a content.  An open file is
known by its descriptor, so it stays the same file when it is renamed.
There is one directory, without hard links.
-/

structure FileSystem (α β : Type*) where
  dir : α → Option ℕ
  content : ℕ → List β
  next : ℕ

/-- An open file and the position in it. -/
structure Descriptor where
  file : ℕ
  pos : ℕ

namespace FileSystem

variable {α β : Type*} [DecidableEq α]

omit [DecidableEq α] in
def has (fs : FileSystem α β) (name : α) : Bool := (fs.dir name).isSome

omit [DecidableEq α] in
def read (fs : FileSystem α β) (name : α) : Option (List β) :=
  (fs.dir name).map fs.content

/-- Open a file, which is created where there is none of this name. -/
def openFile (fs : FileSystem α β) (name : α) (trunc : Bool) :
    Descriptor × FileSystem α β :=
  match fs.dir name with
  | some i =>
      (⟨i, 0⟩,
        if trunc then { fs with content := Function.update fs.content i [] }
        else fs)
  | none =>
      (⟨fs.next, 0⟩,
        { dir := Function.update fs.dir name (some fs.next)
          content := Function.update fs.content fs.next []
          next := fs.next + 1 })

/-- Rename a file; one that has the new name is replaced. -/
def rename (fs : FileSystem α β) (old new : α) : Option (FileSystem α β) :=
  match fs.dir old with
  | none => none
  | some i =>
      some
        { fs with
          dir := Function.update (Function.update fs.dir old none) new
            (some i) }

omit [DecidableEq α] in
/-- Write at the position of the descriptor. -/
def write (fs : FileSystem α β) (d : Descriptor) (bytes : List β) :
    Descriptor × FileSystem α β :=
  (⟨d.file, d.pos + bytes.length⟩,
    { fs with
      content := Function.update fs.content d.file
        ((fs.content d.file).take d.pos ++ bytes ++
          (fs.content d.file).drop (d.pos + bytes.length)) })

omit [DecidableEq α] in
structure WellFormed (fs : FileSystem α β) : Prop where
  bounded : ∀ name i, fs.dir name = some i → i < fs.next
  injective : ∀ name name' i, fs.dir name = some i →
    fs.dir name' = some i → name = name'

omit [DecidableEq α] in
theorem read_eq_none_iff (fs : FileSystem α β) (name : α) :
    fs.read name = none ↔ fs.dir name = none := by
  simp [read]

omit [DecidableEq α] in
theorem has_eq_false_iff (fs : FileSystem α β) (name : α) :
    fs.has name = false ↔ fs.dir name = none := by
  simp [has]

/-! ## Opening -/

theorem WellFormed.openFile {fs : FileSystem α β} (hfs : fs.WellFormed)
    (name : α) (trunc : Bool) : (fs.openFile name trunc).2.WellFormed := by
  unfold FileSystem.openFile
  split
  next i _ =>
    split
    next => exact ⟨hfs.bounded, hfs.injective⟩
    next => exact hfs
  next hnone =>
    constructor
    · intro name' i hi
      dsimp only at hi ⊢
      by_cases hname : name' = name
      · subst name'
        rw [Function.update_self, Option.some.injEq] at hi
        omega
      · rw [Function.update_of_ne hname] at hi
        have hbound := hfs.bounded name' i hi
        omega
    · intro name₁ name₂ i h₁ h₂
      dsimp only at h₁ h₂
      -- the new file has a number that no other one has
      have hnew : ∀ name', name' ≠ name → fs.dir name' = some fs.next →
          False := fun name' _ h => absurd (hfs.bounded name' _ h) (by omega)
      by_cases hname₁ : name₁ = name
      · by_cases hname₂ : name₂ = name
        · exact hname₁.trans hname₂.symm
        · rw [hname₁, Function.update_self, Option.some.injEq] at h₁
          rw [Function.update_of_ne hname₂, ← h₁] at h₂
          exact (hnew name₂ hname₂ h₂).elim
      · rw [Function.update_of_ne hname₁] at h₁
        by_cases hname₂ : name₂ = name
        · rw [hname₂, Function.update_self, Option.some.injEq] at h₂
          rw [← h₂] at h₁
          exact (hnew name₁ hname₁ h₁).elim
        · rw [Function.update_of_ne hname₂] at h₂
          exact hfs.injective name₁ name₂ i h₁ h₂

theorem openFile_dir (fs : FileSystem α β) (name : α) (trunc : Bool) :
    (fs.openFile name trunc).2.dir name =
      some (fs.openFile name trunc).1.file := by
  unfold openFile
  split
  next i hi =>
    split
    next => exact hi
    next => exact hi
  next => exact Function.update_self _ _ _

theorem openFile_pos (fs : FileSystem α β) (name : α) (trunc : Bool) :
    (fs.openFile name trunc).1.pos = 0 := by
  unfold openFile
  split <;> rfl

/-- Without truncation, opening changes no content. -/
theorem openFile_read (fs : FileSystem α β) (name : α) :
    (fs.openFile name false).2.read name = some ((fs.read name).getD []) := by
  unfold openFile read
  split
  next i hi => simp [hi]
  next hnone => simp [hnone]

/-- Opening leaves the files of other names alone. -/
theorem openFile_read_of_ne {fs : FileSystem α β} (hfs : fs.WellFormed)
    {name name' : α} (trunc : Bool) (hne : name' ≠ name) :
    (fs.openFile name trunc).2.read name' = fs.read name' := by
  unfold openFile read
  split
  next i hi =>
    split
    next =>
      cases hother : fs.dir name' with
      | none => simp
      | some j =>
          have hij : j ≠ i := fun h =>
            hne (hfs.injective name' name i (h ▸ hother) hi)
          simp [Function.update_of_ne hij]
    next => rfl
  next =>
    dsimp only
    rw [Function.update_of_ne hne]
    cases hother : fs.dir name' with
    | none => rfl
    | some j =>
        have hj : j ≠ fs.next := (hfs.bounded name' j hother).ne
        simp [Function.update_of_ne hj]

/-- A file that is new or truncated is empty. -/
theorem openFile_trunc_content (fs : FileSystem α β) (name : α) :
    (fs.openFile name true).2.content (fs.openFile name true).1.file = [] := by
  unfold openFile
  split <;> simp

/-! ## Renaming -/

theorem rename_eq_some {fs fs' : FileSystem α β} {old new : α}
    (hrename : fs.rename old new = some fs') :
    ∃ i, fs.dir old = some i ∧
      fs' = { fs with
        dir := Function.update (Function.update fs.dir old none) new
          (some i) } := by
  unfold rename at hrename
  split at hrename
  next => simp at hrename
  next i hi =>
    simp only [Option.some.injEq] at hrename
    exact ⟨i, hi, hrename.symm⟩

theorem WellFormed.rename {fs fs' : FileSystem α β} (hfs : fs.WellFormed)
    {old new : α} (hrename : fs.rename old new = some fs') :
    fs'.WellFormed := by
  rcases rename_eq_some hrename with ⟨i, hi, rfl⟩
  -- a name other than the new one has the file it had, which is not `i`
  have hkept : ∀ name j, name ≠ new →
      Function.update (Function.update fs.dir old none) new (some i) name =
        some j → fs.dir name = some j ∧ name ≠ old := by
    intro name j hnew hj
    rw [Function.update_of_ne hnew] at hj
    by_cases hold : name = old
    · rw [hold, Function.update_self] at hj
      simp at hj
    · rw [Function.update_of_ne hold] at hj
      exact ⟨hj, hold⟩
  constructor
  · intro name j hj
    dsimp only at hj ⊢
    by_cases hnew : name = new
    · rw [hnew, Function.update_self, Option.some.injEq] at hj
      exact hj ▸ hfs.bounded old i hi
    · exact hfs.bounded name j (hkept name j hnew hj).1
  · intro name₁ name₂ j h₁ h₂
    dsimp only at h₁ h₂
    by_cases hnew₁ : name₁ = new
    · by_cases hnew₂ : name₂ = new
      · exact hnew₁.trans hnew₂.symm
      · rw [hnew₁, Function.update_self, Option.some.injEq] at h₁
        rcases hkept name₂ j hnew₂ h₂ with ⟨hj, hold⟩
        exact (hold (hfs.injective name₂ old i (h₁ ▸ hj) hi)).elim
    · rcases hkept name₁ j hnew₁ h₁ with ⟨hj₁, hold⟩
      by_cases hnew₂ : name₂ = new
      · rw [hnew₂, Function.update_self, Option.some.injEq] at h₂
        exact (hold (hfs.injective name₁ old i (h₂ ▸ hj₁) hi)).elim
      · exact hfs.injective name₁ name₂ j hj₁ (hkept name₂ j hnew₂ h₂).1

theorem rename_read {fs fs' : FileSystem α β} {old new : α}
    (hrename : fs.rename old new = some fs') :
    fs'.read new = fs.read old := by
  rcases rename_eq_some hrename with ⟨i, hi, rfl⟩
  simp [read, hi]

theorem rename_read_of_ne {fs fs' : FileSystem α β} {old new name : α}
    (hrename : fs.rename old new = some fs') (hold : name ≠ old)
    (hnew : name ≠ new) : fs'.read name = fs.read name := by
  rcases rename_eq_some hrename with ⟨i, hi, rfl⟩
  simp [read, Function.update_of_ne hnew, Function.update_of_ne hold]

/-! ## Writing -/

omit [DecidableEq α] in
theorem WellFormed.write {fs : FileSystem α β} (hfs : fs.WellFormed)
    (d : Descriptor) (bytes : List β) : (fs.write d bytes).2.WellFormed :=
  ⟨hfs.bounded, hfs.injective⟩

omit [DecidableEq α] in
theorem write_content {fs : FileSystem α β} {d : Descriptor}
    (bytes : List β) (hend : d.pos = (fs.content d.file).length) :
    (fs.write d bytes).2.content d.file = fs.content d.file ++ bytes := by
  simp [write, hend]

omit [DecidableEq α] in
theorem write_read_of_ne {fs : FileSystem α β} (hfs : fs.WellFormed)
    {d : Descriptor} {name name' : α} (hfile : fs.dir name = some d.file)
    (bytes : List β) (hne : name' ≠ name) :
    (fs.write d bytes).2.read name' = fs.read name' := by
  unfold write read
  cases hother : fs.dir name' with
  | none => rfl
  | some j =>
      have hj : j ≠ d.file := fun h =>
        hne (hfs.injective name' name d.file (h ▸ hother) hfile)
      simp [Function.update_of_ne hj]

/-! ## Free names -/

omit [DecidableEq α] in
/-- Of as many numbered names as there were files, one more is free. -/
theorem exists_free {fs : FileSystem α β} (hfs : fs.WellFormed)
    {f g : ℕ → α} (hf : Function.Injective f) (hg : Function.Injective g)
    (start : ℕ) :
    ∃ i, start ≤ i ∧ i < start + (2 * fs.next + 1) ∧
      fs.dir (f i) = none ∧ fs.dir (g i) = none := by
  by_contra hnone
  have hblocked : ∀ i, start ≤ i → i < start + (2 * fs.next + 1) →
      fs.dir (f i) = none → fs.dir (g i) ≠ none :=
    fun i hlow hhigh hfree hfree' => hnone ⟨i, hlow, hhigh, hfree, hfree'⟩
  -- a blocked number is charged to the file that blocks it
  let charge : ℕ → ℕ := fun i =>
    match fs.dir (f i), fs.dir (g i) with
    | some j, _ => j
    | none, some j => fs.next + j
    | none, none => 0
  have hcharge : ∀ i, start ≤ i → i < start + (2 * fs.next + 1) →
      charge i < 2 * fs.next ∧
        (charge i < fs.next → fs.dir (f i) = some (charge i)) ∧
        (fs.next ≤ charge i →
          fs.dir (g i) = some (charge i - fs.next)) := by
    intro i hlow hhigh
    have hblock := hblocked i hlow hhigh
    cases hfi : fs.dir (f i) with
    | some j =>
        have hj := hfs.bounded _ _ hfi
        have hvalue : charge i = j := by simp [charge, hfi]
        rw [hvalue]
        exact ⟨by omega, fun _ => rfl, fun h => absurd h (by omega)⟩
    | none =>
        cases hgi : fs.dir (g i) with
        | none => exact absurd hgi (hblock hfi)
        | some j =>
            have hj := hfs.bounded _ _ hgi
            have hvalue : charge i = fs.next + j := by simp [charge, hfi, hgi]
            rw [hvalue]
            exact ⟨by omega, fun h => absurd h (by omega), fun _ => by
              rw [Nat.add_sub_cancel_left]⟩
  have hmaps : ∀ i ∈ Finset.Ico start (start + (2 * fs.next + 1)),
      charge i ∈ Finset.range (2 * fs.next) := by
    intro i hi
    rw [Finset.mem_Ico] at hi
    exact Finset.mem_range.mpr (hcharge i hi.1 hi.2).1
  rcases Finset.exists_ne_map_eq_of_card_lt_of_maps_to (by simp) hmaps with
    ⟨i, hi, j, hj, hne, hsame⟩
  rw [Finset.mem_Ico] at hi hj
  rcases hcharge i hi.1 hi.2 with ⟨_, hfi, hgi⟩
  rcases hcharge j hj.1 hj.2 with ⟨_, hfj, hgj⟩
  by_cases hlow : charge i < fs.next
  · exact hne (hf (hfs.injective _ _ _ (hfi hlow)
      (hsame ▸ hfj (hsame ▸ hlow))))
  · rw [Nat.not_lt] at hlow
    exact hne (hg (hfs.injective _ _ _ (hgi hlow)
      (hsame ▸ hgj (hsame ▸ hlow))))

/-! ## Batches in files -/

/-- Every file keeps its content and has a name; new files are empty. -/
structure Preserves (fs fs' : FileSystem α β) : Prop where
  next : fs.next ≤ fs'.next
  old : ∀ i, i < fs.next → fs'.content i = fs.content i
  new : ∀ i, fs.next ≤ i → i < fs'.next → fs'.content i = []
  linked : ∀ i, (∃ name, fs.dir name = some i) →
    ∃ name, fs'.dir name = some i

omit [DecidableEq α] in
theorem Preserves.refl (fs : FileSystem α β) : Preserves fs fs :=
  ⟨le_refl _, fun _ _ => rfl, fun _ hle hlt => absurd hlt (not_lt.mpr hle),
    fun _ => id⟩

omit [DecidableEq α] in
theorem Preserves.trans {fs fs' fs'' : FileSystem α β}
    (hfirst : Preserves fs fs') (hsecond : Preserves fs' fs'') :
    Preserves fs fs'' where
  next := hfirst.next.trans hsecond.next
  old := fun i hlt => by
    rw [hsecond.old i (hlt.trans_le hfirst.next), hfirst.old i hlt]
  new := fun i hle hlt => by
    by_cases hmiddle : i < fs'.next
    · rw [hsecond.old i hmiddle, hfirst.new i hle hmiddle]
    · exact hsecond.new i (not_lt.mp hmiddle) hlt
  linked := fun i h => hsecond.linked i (hfirst.linked i h)

theorem Preserves.openFile (fs : FileSystem α β) (name : α) :
    Preserves fs (fs.openFile name false).2 := by
  unfold FileSystem.openFile
  split
  next => exact .refl fs
  next hnone =>
    refine ⟨Nat.le_succ _, fun i hlt => ?_, fun i hle hlt => ?_,
      fun i hlinked => ?_⟩
    · exact Function.update_of_ne (by omega) _ _
    · dsimp only at hlt ⊢
      have hi : i = fs.next := by omega
      rw [hi, Function.update_self]
    · rcases hlinked with ⟨name', hi⟩
      refine ⟨name', ?_⟩
      have hne : name' ≠ name := by
        rintro rfl
        simp [hnone] at hi
      dsimp only
      rw [Function.update_of_ne hne]
      exact hi

/-- Renaming to a free name replaces no file. -/
theorem Preserves.rename {fs fs' : FileSystem α β} {old new : α}
    (hfree : fs.dir new = none) (hrename : fs.rename old new = some fs') :
    Preserves fs fs' := by
  rcases rename_eq_some hrename with ⟨i, hi, rfl⟩
  refine ⟨le_refl _, fun _ _ => rfl, fun _ hle hlt => absurd hlt (not_lt.mpr hle),
    fun j hlinked => ?_⟩
  rcases hlinked with ⟨name, hj⟩
  dsimp only
  by_cases hold : name = old
  · have hij : i = j := by
      rw [hold, hi] at hj
      simpa using hj
    exact ⟨new, by rw [Function.update_self, hij]⟩
  · have hnew : name ≠ new := by
      rintro rfl
      simp [hfree] at hj
    exact ⟨name, by
      rw [Function.update_of_ne hnew, Function.update_of_ne hold]
      exact hj⟩

/-- `bytes` were added at the end of file `i`. -/
structure Appended (fs fs' : FileSystem α β) (i : ℕ) (bytes : List β) :
    Prop where
  dir : fs'.dir = fs.dir
  next : fs'.next = fs.next
  content : fs'.content i = fs.content i ++ bytes
  others : ∀ j, j ≠ i → fs'.content j = fs.content j

omit [DecidableEq α] in
theorem Appended.refl (fs : FileSystem α β) (i : ℕ) :
    Appended fs fs i [] :=
  ⟨rfl, rfl, (List.append_nil _).symm, fun _ _ => rfl⟩

omit [DecidableEq α] in
theorem Appended.trans {fs fs' fs'' : FileSystem α β} {i : ℕ}
    {bytes bytes' : List β} (hfirst : Appended fs fs' i bytes)
    (hsecond : Appended fs' fs'' i bytes') :
    Appended fs fs'' i (bytes ++ bytes') where
  dir := hsecond.dir.trans hfirst.dir
  next := hsecond.next.trans hfirst.next
  content := by rw [hsecond.content, hfirst.content, List.append_assoc]
  others := fun j hne => (hsecond.others j hne).trans (hfirst.others j hne)

omit [DecidableEq α] in
theorem Appended.of_write {fs : FileSystem α β} {d : Descriptor}
    (bytes : List β) (hend : d.pos = (fs.content d.file).length) :
    Appended fs (fs.write d bytes).2 d.file bytes :=
  ⟨rfl, rfl, write_content bytes hend,
    fun _ hne => Function.update_of_ne hne _ _⟩

/-- Each batch is in one file, which has a name, and nothing else has been
added to the files of `base`. -/
structure EachInOneFile (base fs : FileSystem α β) (files : List ℕ)
    (batches : List (List β)) : Prop where
  paired : files.length = batches.length
  next : base.next ≤ fs.next
  linked : ∀ i ∈ files, i < fs.next ∧ ∃ name, fs.dir name = some i
  content : ∀ i, i < fs.next → fs.content i =
    (if i < base.next then base.content i else []) ++
      ((files.zip batches).filter fun batch => batch.1 = i).flatMap Prod.snd

omit [DecidableEq α] in
theorem EachInOneFile.refl (fs : FileSystem α β) :
    EachInOneFile fs fs [] [] :=
  ⟨rfl, le_refl _, by simp, fun i hlt => by simp [hlt]⟩

omit [DecidableEq α] in
theorem EachInOneFile.preserves {base fs fs' : FileSystem α β}
    {files : List ℕ} {batches : List (List β)}
    (heach : EachInOneFile base fs files batches)
    (hpreserves : Preserves fs fs') :
    EachInOneFile base fs' files batches where
  paired := heach.paired
  next := heach.next.trans hpreserves.next
  linked := fun i hi =>
    ⟨(heach.linked i hi).1.trans_le hpreserves.next,
      hpreserves.linked i (heach.linked i hi).2⟩
  content := fun i hlt => by
    by_cases hold : i < fs.next
    · rw [hpreserves.old i hold]
      exact heach.content i hold
    · have hbase := heach.next
      rw [hpreserves.new i (not_lt.mp hold) hlt, if_neg (by omega),
        List.nil_append]
      -- no batch is in a file that was not there
      have hnone : (files.zip batches).filter
          (fun batch => batch.1 = i) = [] := by
        rw [List.filter_eq_nil_iff]
        intro batch hbatch
        have hfile := (heach.linked batch.1
          (List.of_mem_zip hbatch).1).1
        simp only [decide_eq_true_eq]
        omega
      rw [hnone]
      rfl

omit [DecidableEq α] in
theorem EachInOneFile.appended {base fs fs' : FileSystem α β}
    {files : List ℕ} {batches : List (List β)}
    (heach : EachInOneFile base fs files batches) {i : ℕ}
    {bytes : List β} (happended : Appended fs fs' i bytes)
    (hlt : i < fs.next) (hlinked : ∃ name, fs.dir name = some i) :
    EachInOneFile base fs' (files ++ [i]) (batches ++ [bytes]) where
  paired := by simp [heach.paired]
  next := by
    rw [happended.next]
    exact heach.next
  linked := by
    intro j hj
    rw [happended.next, happended.dir]
    rw [List.mem_append, List.mem_singleton] at hj
    rcases hj with hj | rfl
    · exact heach.linked j hj
    · exact ⟨hlt, hlinked⟩
  content := by
    intro j hj
    rw [happended.next] at hj
    rw [List.zip_append heach.paired, List.filter_append,
      List.flatMap_append, ← List.append_assoc, ← heach.content j hj]
    by_cases hsame : j = i
    · rw [hsame, happended.content]
      simp
    · rw [happended.others j hsame]
      simp [Ne.symm hsame]

end FileSystem
