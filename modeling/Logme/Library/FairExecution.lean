import Logme.Library.StepSystem
import Mathlib.Order.Monotone.Basic
import Mathlib.Tactic.ByContra

/-!
# Endless runs under weak fairness

A fair continuation of a run is an endless sequence of states in which an
actor that stays enabled acts again and again.  The progress rule derives
that something happens from a rank that no step raises and that the steps of
the fair actor lower.
-/

namespace StepSystem

variable {σ α : Type*}

/-- An endless run; `none` is a moment at which nothing happens. -/
structure Execution (step : σ → α → Option σ) (start : σ) where
  state : ℕ → σ
  label : ℕ → Option α
  starts : state 0 = start
  rests : ∀ n, label n = none → state (n + 1) = state n
  steps : ∀ n a, label n = some a → step (state n) a = some (state (n + 1))

def Enabled (step : σ → α → Option σ) (mine : α → Prop) (s : σ) : Prop :=
  ∃ a t, mine a ∧ step s a = some t

/-- The actor acts at some later moment when it is enabled at all of them. -/
def Execution.WeaklyFair {step : σ → α → Option σ} {start : σ}
    (e : Execution step start) (mine : α → Prop) : Prop :=
  ∀ n, (∀ m, n ≤ m → Enabled step mine (e.state m)) →
    ∃ m a, n ≤ m ∧ e.label m = some a ∧ mine a

namespace Execution

variable {step : σ → α → Option σ} {start : σ}

/-- The progress rule.  As long as `Q` does not hold, the invariant is kept,
the fair actor is enabled, no step raises the rank and the actor's own steps
lower it. -/
theorem progress {I Q : σ → Prop} {mine : α → Prop} (rank : σ → ℕ)
    (e : Execution step start) (hfair : e.WeaklyFair mine)
    (hstep : ∀ s a t, I s → ¬ Q s → step s a = some t →
      I t ∧ rank t ≤ rank s ∧ (mine a → rank t < rank s))
    (henabled : ∀ s, I s → ¬ Q s → Enabled step mine s)
    (hstart : I start) : ∃ n, Q (e.state n) := by
  by_contra hnot
  have hnever : ∀ n, ¬ Q (e.state n) := fun n hQ => hnot ⟨n, hQ⟩
  have hI : ∀ n, I (e.state n) := by
    intro n
    induction n with
    | zero => rw [e.starts]; exact hstart
    | succ n ih =>
        cases hlabel : e.label n with
        | none => rw [e.rests n hlabel]; exact ih
        | some a =>
            exact (hstep _ a _ ih (hnever n) (e.steps n a hlabel)).1
  have hone : ∀ n, rank (e.state (n + 1)) ≤ rank (e.state n) := by
    intro n
    cases hlabel : e.label n with
    | none => rw [e.rests n hlabel]
    | some a =>
        exact (hstep _ a _ (hI n) (hnever n) (e.steps n a hlabel)).2.1
  have hmono : Antitone fun n => rank (e.state n) := antitone_nat_of_succ_le hone
  -- the rank falls again and again, which it cannot
  have hfalls : ∀ k, ∃ n, rank (e.state n) + k ≤ rank (e.state 0) := by
    intro k
    induction k with
    | zero => exact ⟨0, Nat.le_refl _⟩
    | succ k ih =>
        rcases ih with ⟨n, hn⟩
        rcases hfair n fun m _ => henabled _ (hI m) (hnever m) with
          ⟨m, a, hm, hlabel, hmine⟩
        have hlower :=
          (hstep _ a _ (hI m) (hnever m) (e.steps m a hlabel)).2.2 hmine
        have hsofar : rank (e.state m) ≤ rank (e.state n) := hmono hm
        exact ⟨m + 1, by omega⟩
  rcases hfalls (rank (e.state 0) + 1) with ⟨n, hn⟩
  omega

end Execution

end StepSystem
