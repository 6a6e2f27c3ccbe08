import Logme.Library.FileSystem

/-!
# Names of archives

`TakeName` looks for the first number whose name is free, beginning behind
the last number that it has used, or that it has found in the directory when
the period changed.  The names that a template expands to are a parameter:
they are all different or, without `{index}` in the template, all the same.
In the second case the search does not end when the name is taken.
-/

namespace Logme

/-- The archive template with its expansions, and the last number among the
archives of a time. -/
structure ArchiveTemplate where
  buildName : Nat → Int → String
  findLastIndex : FileSystem String UInt8 → Int → Nat
  numbered : ∀ t, Function.Injective (fun i => buildName i t) ∨
    ∀ i j, buildName i t = buildName j t

/-- Without a template, archiving is not enabled. -/
structure FileArchivePolicy where
  template : Option ArchiveTemplate
  archiveIndex : Nat
  archiveTime : Int

def nameExists (fs : FileSystem String UInt8) (archive : String) : Bool :=
  fs.has archive || fs.has (archive ++ ".gz")

/-- The loop of `TakeName`. -/
def firstFree (names : ArchiveTemplate) (fs : FileSystem String UInt8)
    (archiveTime : Int) : Nat → Nat → Option Nat
  | 0, _ => none
  | fuel + 1, i =>
      if nameExists fs (names.buildName i archiveTime) then
        firstFree names fs archiveTime fuel (i + 1)
      else some i

namespace FileArchivePolicy

def setTime (p : FileArchivePolicy) (fs : FileSystem String UInt8)
    (now archiveTime : Int) : FileArchivePolicy :=
  let archiveTime := if archiveTime = 0 then now else archiveTime
  match p.template with
  | none => { p with archiveTime := archiveTime, archiveIndex := 0 }
  | some names =>
      let oldProbe :=
        if p.archiveTime ≠ 0 then names.buildName 0 p.archiveTime else ""
      let p := { p with archiveTime := archiveTime }
      if oldProbe ≠ names.buildName 0 archiveTime then
        { p with archiveIndex := names.findLastIndex fs archiveTime }
      else p

/-- `TakeName`; `none` when the search does not end. -/
def takeName (p : FileArchivePolicy) (names : ArchiveTemplate)
    (fs : FileSystem String UInt8) (now archiveTime : Int) :
    Option (Nat × FileArchivePolicy) :=
  let p := p.setTime fs now archiveTime
  match firstFree names fs p.archiveTime (2 * fs.next + 1)
      (p.archiveIndex + 1) with
  | none => none
  | some i => some (i, { p with archiveIndex := i })

theorem setTime_template (p : FileArchivePolicy)
    (fs : FileSystem String UInt8) (now archiveTime : Int) :
    (p.setTime fs now archiveTime).template = p.template := by
  unfold setTime
  cases p.template with
  | none => rfl
  | some names =>
      dsimp only
      split_ifs <;> rfl

theorem setTime_archiveTime (p : FileArchivePolicy)
    (fs : FileSystem String UInt8) (now archiveTime : Int) :
    (p.setTime fs now archiveTime).archiveTime =
      if archiveTime = 0 then now else archiveTime := by
  unfold setTime
  cases p.template with
  | none => rfl
  | some names =>
      dsimp only
      split_ifs <;> rfl

end FileArchivePolicy

/-! ## The search for a free name -/

theorem nameExists_eq_false {fs : FileSystem String UInt8} {archive : String}
    (hfree : nameExists fs archive = false) : fs.dir archive = none := by
  simp only [nameExists, Bool.or_eq_false_iff] at hfree
  exact (fs.has_eq_false_iff archive).mp hfree.1

theorem firstFree_eq_some {names : ArchiveTemplate}
    {fs : FileSystem String UInt8} {archiveTime : Int} {fuel start i : Nat}
    (hfirst : firstFree names fs archiveTime fuel start = some i) :
    start ≤ i ∧ nameExists fs (names.buildName i archiveTime) = false := by
  induction fuel generalizing start with
  | zero => simp [firstFree] at hfirst
  | succ fuel ih =>
      rw [firstFree] at hfirst
      split at hfirst
      next =>
        rcases ih hfirst with ⟨hle, hfree⟩
        exact ⟨by omega, hfree⟩
      next htaken =>
        simp only [Option.some.injEq] at hfirst
        subst i
        exact ⟨Nat.le_refl _, by simpa using htaken⟩

theorem firstFree_isSome {names : ArchiveTemplate}
    {fs : FileSystem String UInt8} {archiveTime : Int} {fuel start i : Nat}
    (hle : start ≤ i) (hlt : i < start + fuel)
    (hfree : nameExists fs (names.buildName i archiveTime) = false) :
    ∃ j, firstFree names fs archiveTime fuel start = some j := by
  induction fuel generalizing start with
  | zero => omega
  | succ fuel ih =>
      rw [firstFree]
      split
      next htaken =>
        have hne : start ≠ i := by
          rintro rfl
          simp [hfree] at htaken
        exact ih (by omega) (by omega)
      next => exact ⟨start, rfl⟩

/-- The name that `TakeName` returns is free. -/
theorem takeName_eq_some {p q : FileArchivePolicy} {names : ArchiveTemplate}
    {fs : FileSystem String UInt8} {now archiveTime : Int} {i : Nat}
    (htake : p.takeName names fs now archiveTime = some (i, q)) :
    fs.dir (names.buildName i q.archiveTime) = none ∧
      q.archiveTime = (if archiveTime = 0 then now else archiveTime) ∧
      q.template = p.template := by
  unfold FileArchivePolicy.takeName at htake
  dsimp only at htake
  split at htake
  next => simp at htake
  next j hfirst =>
    simp only [Option.some.injEq, Prod.mk.injEq] at htake
    rcases htake with ⟨rfl, rfl⟩
    exact ⟨nameExists_eq_false (firstFree_eq_some hfirst).2,
      p.setTime_archiveTime fs now archiveTime,
      p.setTime_template fs now archiveTime⟩

/-- With `{index}` in the template there is always a free name. -/
theorem takeName_isSome (p : FileArchivePolicy) (names : ArchiveTemplate)
    {fs : FileSystem String UInt8} (hfs : fs.WellFormed)
    (now archiveTime : Int)
    (hnumbered : ∀ t, Function.Injective fun i => names.buildName i t) :
    ∃ r, p.takeName names fs now archiveTime = some r := by
  unfold FileArchivePolicy.takeName
  generalize p.setTime fs now archiveTime = p
  have hnames := hnumbered p.archiveTime
  have hgz : Function.Injective
      fun i => names.buildName i p.archiveTime ++ ".gz" := by
    intro i j hsame
    exact hnames (String.append_left_inj ".gz" |>.mp hsame)
  rcases FileSystem.exists_free hfs hnames hgz (p.archiveIndex + 1) with
    ⟨i, hle, hlt, hfree, hfreegz⟩
  have hnot : nameExists fs (names.buildName i p.archiveTime) = false := by
    simp only [nameExists, Bool.or_eq_false_iff]
    exact ⟨(fs.has_eq_false_iff _).mpr hfree,
      (fs.has_eq_false_iff _).mpr hfreegz⟩
  rcases firstFree_isSome hle hlt hnot with ⟨j, hj⟩
  dsimp only
  rw [hj]
  exact ⟨_, rfl⟩

end Logme
