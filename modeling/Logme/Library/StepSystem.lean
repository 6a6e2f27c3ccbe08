import Mathlib.Logic.Basic

/-!
# Runs of a partial labelled step function

A system is a function `step : σ → α → Option σ`: the label names the actor
and resolves every choice, and `none` means that the label is not enabled.
This file collects the notions and the three rules used for such systems: the
invariant rule, the restriction of a run to allowed steps, and simulation of
one system by another.
-/

namespace StepSystem

variable {σ σ' α α' : Type*}

/-- Execute a list of labels; `none` when one of them is not enabled. -/
def exec (step : σ → α → Option σ) : σ → List α → Option σ
  | s, [] => some s
  | s, a :: rest =>
      match step s a with
      | none => none
      | some t => exec step t rest

/-- `t` is reached from `start` by a run in which every label was executed in
a state where `ok` allows it. -/
inductive Run (step : σ → α → Option σ) (ok : σ → α → Prop) (start : σ) :
    σ → Prop
  | refl : Run step ok start start
  | snoc {s t : σ} {a : α} (before : Run step ok start s) (allowed : ok s a)
      (last : step s a = some t) : Run step ok start t

/-- Reachability by a run without restriction. -/
def Reachable (step : σ → α → Option σ) (start target : σ) : Prop :=
  Run step (fun _ _ => True) start target

/-- The system in which only the allowed labels are enabled. -/
def restrict (step : σ → α → Option σ) (ok : σ → α → Prop)
    [∀ s a, Decidable (ok s a)] (s : σ) (a : α) : Option σ :=
  if ok s a then step s a else none

section Runs

variable {step : σ → α → Option σ} {ok : σ → α → Prop}

/-- The invariant rule: what holds at the start and is preserved by every
allowed step holds in every state that such a run reaches. -/
theorem Run.invariant {I : σ → Prop} {start target : σ}
    (hrun : Run step ok start target)
    (hstep : ∀ s a t, I s → ok s a → step s a = some t → I t)
    (hstart : I start) : I target := by
  induction hrun with
  | refl => exact hstart
  | snoc _ hok hlast ih => exact hstep _ _ _ ih hok hlast

theorem Run.mono {ok' : σ → α → Prop} {start target : σ}
    (hrun : Run step ok start target)
    (himp : ∀ s a, ok s a → ok' s a) : Run step ok' start target := by
  induction hrun with
  | refl => exact .refl
  | snoc _ hok hlast ih => exact .snoc ih (himp _ _ hok) hlast

theorem Run.trans {start middle target : σ}
    (hfirst : Run step ok start middle)
    (hsecond : Run step ok middle target) : Run step ok start target := by
  induction hsecond with
  | refl => exact hfirst
  | snoc _ hok hlast ih => exact .snoc ih hok hlast

/-- The simulation rule: when every allowed step from a state that satisfies
`I` is matched by a run between the related states, every allowed run is. -/
theorem Run.simulate {step' : σ' → α' → Option σ'} {ok' : σ' → α' → Prop}
    (view : σ → σ') (I : σ → Prop) {start target : σ}
    (hrun : Run step ok start target)
    (hstep : ∀ s a t, I s → ok s a → step s a = some t →
      I t ∧ Run step' ok' (view s) (view t))
    (hstart : I start) :
    I target ∧ Run step' ok' (view start) (view target) := by
  induction hrun with
  | refl => exact ⟨hstart, .refl⟩
  | snoc _ hok hlast ih =>
      obtain ⟨hI, hview⟩ := ih
      obtain ⟨hI', hnext⟩ := hstep _ _ _ hI hok hlast
      exact ⟨hI', hview.trans hnext⟩

theorem Run.single {s t : σ} {a : α}
    (hok : ok s a) (hstep : step s a = some t) : Run step ok s t :=
  .snoc .refl hok hstep

private theorem run_of_exec_from {start s t : σ} {labels : List α}
    (hbefore : Run step ok start s)
    (hallowed : ∀ s a, (step s a).isSome → ok s a)
    (hexec : exec step s labels = some t) : Run step ok start t := by
  induction labels generalizing s with
  | nil =>
      simp only [exec, Option.some.injEq] at hexec
      exact hexec ▸ hbefore
  | cons a rest ih =>
      simp only [exec] at hexec
      cases hstep : step s a with
      | none => simp [hstep] at hexec
      | some next =>
          rw [hstep] at hexec
          have hok : ok s a := hallowed s a (by simp [hstep])
          exact ih (hbefore.snoc hok hstep) hexec

/-- Executing a list of labels is a run. -/
theorem reachable_of_exec {s t : σ} (labels : List α)
    (hexec : exec step s labels = some t) : Reachable step s t :=
  run_of_exec_from .refl (fun _ _ _ => trivial) hexec

/-- Executing a list of labels under the restriction is an allowed run. -/
theorem run_of_exec_restrict [∀ s a, Decidable (ok s a)] {s t : σ}
    {labels : List α}
    (hexec : exec (restrict step ok) s labels = some t) :
    Run step ok s t := by
  have hrun : Run (restrict step ok) ok s t := by
    apply run_of_exec_from .refl _ hexec
    intro s a hsome
    by_cases hok : ok s a
    · exact hok
    · simp [restrict, hok] at hsome
  clear hexec
  induction hrun with
  | refl => exact .refl
  | snoc _ hok hlast ih =>
      rw [restrict, if_pos hok] at hlast
      exact .snoc ih hok hlast

/-- A check that succeeds on the state after a list of labels yields a
reachable state with that check. -/
theorem exists_reachable_of_exec (step : σ → α → Option σ) (s : σ)
    (labels : List α) (check : σ → Bool)
    (hcheck : (exec step s labels).any check = true) :
    ∃ t, Reachable step s t ∧ check t = true := by
  cases hexec : exec step s labels with
  | none => simp [hexec] at hcheck
  | some t =>
      rw [hexec] at hcheck
      exact ⟨t, reachable_of_exec labels hexec, hcheck⟩

theorem exists_run_of_exec (step : σ → α → Option σ) (ok : σ → α → Prop)
    [∀ s a, Decidable (ok s a)] (s : σ) (labels : List α) (check : σ → Bool)
    (hcheck : (exec (restrict step ok) s labels).any check = true) :
    ∃ t, Run step ok s t ∧ check t = true := by
  cases hexec : exec (restrict step ok) s labels with
  | none => simp [hexec] at hcheck
  | some t =>
      rw [hexec] at hcheck
      exact ⟨t, run_of_exec_restrict hexec, hcheck⟩

end Runs

end StepSystem
