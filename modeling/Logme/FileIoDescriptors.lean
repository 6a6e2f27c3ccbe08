import Logme.FileIoOpen

/-!
# The descriptors of one `Open`

One call of `FileIo::Open` by itself, with the descriptors that it opens.  An
attempt opens the file, marks the descriptor and asks for the lock.  Every way
out of the loop but the successful one calls `Close` or holds nothing; the way
round after a refused lock forgets the descriptor.
-/

namespace Logme
namespace FileIo

/-- The results of the system calls of an attempt, and the clock when one of
them has failed. -/
structure Attempt where
  opens : Bool
  marks : Bool
  locks : Bool
  clock : Nat
  deriving DecidableEq

/-- A descriptor is named by the attempt that has opened it. -/
structure Descriptors where
  file : Option Nat
  needUnlock : Bool
  opened : List Nat
  lock : Option Nat
  deriving DecidableEq

/-- `File` is -1. -/
def Descriptors.initial : Descriptors := ⟨none, false, [], none⟩

def Descriptors.close (d : Descriptors) : Descriptors :=
  match d.file with
  | none => d
  | some fd =>
      { file := none
        needUnlock := false
        opened := d.opened.erase fd
        lock := if d.lock = some fd then none else d.lock }

variable (call : OpenCall) (attempts : Nat → Attempt)

/-- The loop of `Open`; `none` stands for more rounds than these. -/
def openLoop : Nat → Nat → Descriptors → Option (Bool × Descriptors)
  | 0, _, _ => none
  | rounds + 1, k, d =>
      let a := attempts k
      if a.opens = false then
        let d := { d with file := none }
        if call.expired a.clock then some (false, d) else openLoop rounds (k + 1) d
      else
        let d := { d with file := some k, opened := k :: d.opened }
        if a.marks = false then some (false, d.close)
        else if a.locks = false then
          if call.expired a.clock then some (false, d.close)
          else openLoop rounds (k + 1) d
        else some (true, { d with needUnlock := true, lock := some k })

/-- `Open` ends with this result. -/
def Returns (result : Bool × Descriptors) : Prop :=
  ∃ rounds, openLoop call attempts rounds 0 .initial = some result

/-- It has returned true and holds a descriptor, the only one and locked, or
false and holds none. -/
def Clean : Bool × Descriptors → Prop
  | (true, d) => ∃ fd, d.file = some fd ∧ d.lock = some fd ∧ d.opened = [fd]
  | (false, d) => d.file = none ∧ d.lock = none ∧ d.opened = []

/-- The loop ends with the attempt. -/
def Attempt.ends (a : Attempt) : Bool :=
  if a.opens then !a.marks || a.locks || call.expired a.clock else call.expired a.clock

/-- Only the lock was refused, and there is time left. -/
def Attempt.refused (a : Attempt) : Bool :=
  a.opens && a.marks && !a.locks && !call.expired a.clock

/-- The file could not be opened, and there is time left. -/
def Attempt.absent (a : Attempt) : Bool :=
  !a.opens && !call.expired a.clock

variable {call attempts}

theorem Attempt.cases (a : Attempt) :
    a.ends call = true ∨ a.refused call = true ∨ a.absent call = true := by
  rcases a with ⟨opens, marks, locks, clock⟩
  cases opens <;> cases marks <;> cases locks <;>
    simp [Attempt.ends, Attempt.refused, Attempt.absent]

theorem Attempt.ends_of_refused {a : Attempt} (h : a.refused call = true) :
    a.ends call = false ∧ a.absent call = false := by
  simp only [Attempt.refused, Bool.and_eq_true, Bool.not_eq_true'] at h
  obtain ⟨⟨⟨hopens, hmarks⟩, hlocks⟩, hexpired⟩ := h
  simp [Attempt.ends, Attempt.absent, hopens, hmarks, hlocks, hexpired]

theorem Attempt.ends_of_absent {a : Attempt} (h : a.absent call = true) :
    a.ends call = false := by
  simp only [Attempt.absent, Bool.and_eq_true, Bool.not_eq_true'] at h
  simp [Attempt.ends, h.1, h.2]

/-! ## One attempt -/

/-- The attempt was the last one; the descriptors that were open before it still
are. -/
structure Released (k : Nat) (leaked : List Nat) (result : Bool × Descriptors) : Prop where
  acquired : result.1 = true →
    result.2.file = some k ∧ result.2.lock = some k ∧ result.2.opened = k :: leaked
  released : result.1 = false →
    result.2.file = none ∧ result.2.lock = none ∧ result.2.opened = leaked

theorem openLoop_absent {k : Nat} (h : (attempts k).absent call = true) (rounds : Nat)
    (d : Descriptors) :
    openLoop call attempts (rounds + 1) k d =
      openLoop call attempts rounds (k + 1) { d with file := none } := by
  simp only [Attempt.absent, Bool.and_eq_true, Bool.not_eq_true'] at h
  simp [openLoop, h.1, h.2]

theorem openLoop_refused {k : Nat} (h : (attempts k).refused call = true) (rounds : Nat)
    (d : Descriptors) :
    openLoop call attempts (rounds + 1) k d =
      openLoop call attempts rounds (k + 1)
        { d with file := some k, opened := k :: d.opened } := by
  simp only [Attempt.refused, Bool.and_eq_true, Bool.not_eq_true'] at h
  obtain ⟨⟨⟨hopens, hmarks⟩, hlocks⟩, hexpired⟩ := h
  simp [openLoop, hopens, hmarks, hlocks, hexpired]

theorem close_released {k : Nat} {d : Descriptors} (hlock : d.lock = none) :
    Released k d.opened
      (false, Descriptors.close { d with file := some k, opened := k :: d.opened }) := by
  refine ⟨nofun, fun _ => ⟨rfl, ?_, ?_⟩⟩
  · simp [Descriptors.close, hlock]
  · simp [Descriptors.close]

theorem openLoop_ends {k : Nat} (h : (attempts k).ends call = true) (rounds : Nat)
    {d : Descriptors} (hlock : d.lock = none) :
    ∃ result, openLoop call attempts (rounds + 1) k d = some result ∧
      Released k d.opened result := by
  unfold Attempt.ends at h
  unfold openLoop
  dsimp only
  split
  next hopens =>
    rw [hopens, if_neg (by decide)] at h
    rw [if_pos h]
    exact ⟨_, rfl, nofun, fun _ => ⟨rfl, hlock, rfl⟩⟩
  next hopens =>
    rw [if_pos (by simpa using hopens)] at h
    split
    next => exact ⟨_, rfl, close_released hlock⟩
    next hmarks =>
      split
      next hlocks =>
        have hexpired : call.expired (attempts k).clock = true := by
          simpa [hmarks, hlocks] using h
        rw [if_pos hexpired]
        exact ⟨_, rfl, close_released hlock⟩
      next => exact ⟨_, rfl, fun _ => ⟨rfl, rfl, rfl⟩, nofun⟩

/-! ## The whole call -/

/-- What an attempt opens and does not get locked stays open. -/
theorem openLoop_result {result : Bool × Descriptors} :
    ∀ (rounds k : Nat) (d : Descriptors), d.lock = none →
      openLoop call attempts rounds k d = some result →
      ∃ n leaked, k ≤ n ∧ (attempts n).ends call = true ∧
        (∀ j, k ≤ j → j < n → (attempts j).ends call = false) ∧
        Released n (leaked ++ d.opened) result ∧
        (leaked = [] ↔ ∀ j, k ≤ j → j < n → (attempts j).absent call = true) := by
  intro rounds
  induction rounds with
  | zero => intro k d _ h; cases h
  | succ rounds ih =>
      intro k d hlock h
      rcases @Attempt.cases call (attempts k) with hends | hrefused | habsent
      · obtain ⟨result', hresult, hreleased⟩ := openLoop_ends hends rounds hlock
        rw [h] at hresult
        cases hresult
        exact ⟨k, [], (Nat.le_refl k), hends, by omega, hreleased, by simp; omega⟩
      · rw [openLoop_refused hrefused] at h
        obtain ⟨n, leaked, hn, hends, hbefore, hreleased, -⟩ := ih (k + 1) _ (by exact hlock) h
        obtain ⟨hgoes, hopens⟩ := Attempt.ends_of_refused hrefused
        refine ⟨n, leaked ++ [k], by omega, hends, ?_, ?_, ?_⟩
        · intro j hj hjn
          rcases Nat.eq_or_lt_of_le hj with rfl | hj
          · exact hgoes
          · exact hbefore j hj hjn
        · rw [List.append_assoc]
          exact hreleased
        · constructor
          · intro hnil
            exact absurd hnil (by simp)
          · intro hall
            have hk := hall k (Nat.le_refl k) (by omega)
            rw [hopens] at hk
            cases hk
      · rw [openLoop_absent habsent] at h
        obtain ⟨n, leaked, hn, hends, hbefore, hreleased, hleaked⟩ :=
          ih (k + 1) _ (by exact hlock) h
        refine ⟨n, leaked, by omega, hends, ?_, hreleased, hleaked.trans ⟨?_, ?_⟩⟩
        · intro j hj hjn
          rcases Nat.eq_or_lt_of_le hj with rfl | hj
          · exact Attempt.ends_of_absent habsent
          · exact hbefore j hj hjn
        · intro hall j hj hjn
          rcases Nat.eq_or_lt_of_le hj with rfl | hj
          · exact habsent
          · exact hall j hj hjn
        · intro hall j hj hjn
          exact hall j (by omega) hjn

/-- An attempt that ends the loop is reached when those before it go round. -/
theorem openLoop_isSome {n : Nat} (hends : (attempts n).ends call = true) :
    ∀ (rounds k : Nat) (d : Descriptors), d.lock = none → k ≤ n → n - k < rounds →
      ∃ result, openLoop call attempts rounds k d = some result := by
  intro rounds
  induction rounds with
  | zero => intro k d _ _ h; omega
  | succ rounds ih =>
      intro k d hlock hk hrounds
      have hnext : (attempts k).ends call = false → k + 1 ≤ n := by
        intro hgoes
        rcases Nat.eq_or_lt_of_le hk with rfl | hlt
        · rw [hends] at hgoes
          cases hgoes
        · exact hlt
      rcases @Attempt.cases call (attempts k) with hends' | hrefused | habsent
      · obtain ⟨result, hresult, -⟩ := openLoop_ends hends' rounds hlock
        exact ⟨result, hresult⟩
      · have hlt := hnext (Attempt.ends_of_refused hrefused).1
        rw [openLoop_refused hrefused]
        exact ih (k + 1) _ hlock hlt (by omega)
      · have hlt := hnext (Attempt.ends_of_absent habsent)
        rw [openLoop_absent habsent]
        exact ih (k + 1) _ hlock hlt (by omega)

theorem Released.clean_iff {n : Nat} {leaked : List Nat} {result : Bool × Descriptors}
    (h : Released n leaked result) : Clean result ↔ leaked = [] := by
  rcases result with ⟨_ | _, d⟩
  · obtain ⟨hfile, hlock, hopened⟩ := h.released rfl
    dsimp only at hfile hlock hopened
    simp [Clean, hfile, hlock, hopened]
  · obtain ⟨hfile, hlock, hopened⟩ := h.acquired rfl
    dsimp only at hfile hlock hopened
    simp [Clean, hfile, hlock, hopened]

/-- `Open` acquires or releases exactly when no lock is refused with time left,
and it ends exactly when some attempt does not go round. -/
theorem open_clean_iff (call : OpenCall) (attempts : Nat → Attempt) :
    ((∃ result, Returns call attempts result) ∧
        ∀ result, Returns call attempts result → Clean result) ↔
      ∃ n, (attempts n).ends call = true ∧ ∀ k < n, (attempts k).absent call = true := by
  constructor
  · rintro ⟨⟨result, hreturns⟩, hclean⟩
    obtain ⟨rounds, hresult⟩ := id hreturns
    obtain ⟨n, leaked, -, hends, -, hreleased, hleaked⟩ :=
      openLoop_result rounds 0 .initial rfl hresult
    have hnone := hreleased.clean_iff.mp (hclean result hreturns)
    refine ⟨n, hends, fun k hk => ?_⟩
    exact hleaked.mp (List.append_eq_nil_iff.mp hnone).1 k (Nat.zero_le k) hk
  · rintro ⟨n, hends, habsent⟩
    constructor
    · obtain ⟨result, hresult⟩ :=
        openLoop_isSome hends (n + 1) 0 .initial rfl (Nat.zero_le n) (by omega)
      exact ⟨result, n + 1, hresult⟩
    · rintro result ⟨rounds, hresult⟩
      obtain ⟨m, leaked, -, hends', hbefore, hreleased, hleaked⟩ :=
        openLoop_result rounds 0 .initial rfl hresult
      -- both are the first attempt that ends the loop
      have hle : m ≤ n := by
        by_contra hlt
        rw [hbefore n (Nat.zero_le n) (by omega)] at hends
        cases hends
      have hnone : leaked = [] :=
        hleaked.mpr fun j _ hj => habsent j (by omega)
      rw [hreleased.clean_iff, hnone]
      rfl

/-- Another process holds the lock at first and gives it up in time. -/
def lockedAtFirst : Nat → Attempt
  | 0 => ⟨true, true, false, 0⟩
  | _ + 1 => ⟨true, true, true, 0⟩

theorem open_leaks_refused :
    ¬ ((∃ result, Returns ⟨true, 1000, 0⟩ lockedAtFirst result) ∧
      ∀ result, Returns ⟨true, 1000, 0⟩ lockedAtFirst result → Clean result) := by
  rintro ⟨-, hclean⟩
  have hreturns : Returns ⟨true, 1000, 0⟩ lockedAtFirst
      (true, ⟨some 1, true, [1, 0], some 1⟩) := ⟨2, by decide⟩
  obtain ⟨fd, hfile, -, hopened⟩ := hclean _ hreturns
  cases hopened

end FileIo
end Logme
