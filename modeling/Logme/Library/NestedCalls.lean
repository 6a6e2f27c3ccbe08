import Mathlib.Logic.Relation
import Mathlib.Data.Finite.Defs
import Mathlib.Data.Set.Finite.Basic
import Mathlib.Order.WellFounded

/-!
# Nested calls

A call makes finitely many further calls, decided by its argument alone, and
returns when they all have returned and its own work succeeds.  Where only
finitely many arguments make a call at all, it returns exactly when no
argument reached from it leads back to itself and the work succeeds at every
argument reached.
-/

namespace NestedCalls

variable {α : Type*} (works : α → Prop) (calls : α → List α)

/-- The call returns and its calls are nested at most `depth` deep. -/
def ReturnsWithin : Nat → α → Prop
  | 0, _ => False
  | depth + 1, a => works a ∧ ∀ b ∈ calls a, ReturnsWithin depth b

def Returns (a : α) : Prop :=
  ∃ depth, ReturnsWithin works calls depth a

/-- The first argument makes a call with the second one. -/
def CallsDirectly (a b : α) : Prop :=
  b ∈ calls a

/-- Both are arguments of one run. -/
def Reached (a b : α) : Prop :=
  Relation.ReflTransGen (CallsDirectly calls) a b

def LeadsBack (a : α) : Prop :=
  Relation.TransGen (CallsDirectly calls) a a

variable {works calls}

theorem ReturnsWithin.succ {depth : Nat} {a : α}
    (h : ReturnsWithin works calls depth a) :
    ReturnsWithin works calls (depth + 1) a := by
  induction depth generalizing a with
  | zero => exact h.elim
  | succ depth ih => exact ⟨h.1, fun b hb => ih (h.2 b hb)⟩

theorem ReturnsWithin.mono {depth more : Nat} {a : α}
    (h : ReturnsWithin works calls depth a) (hle : depth ≤ more) :
    ReturnsWithin works calls more a := by
  induction hle with
  | refl => exact h
  | step _ ih => exact ih.succ

/-- One depth is enough for all the calls of a list. -/
theorem exists_depth {args : List α}
    (h : ∀ b ∈ args, Returns works calls b) :
    ∃ depth, ∀ b ∈ args, ReturnsWithin works calls depth b := by
  induction args with
  | nil => exact ⟨0, by simp⟩
  | cons b args ih =>
      obtain ⟨first, hfirst⟩ := h b (List.mem_cons_self ..)
      obtain ⟨rest, hrest⟩ := ih fun c hc => h c (List.mem_cons_of_mem _ hc)
      refine ⟨max first rest, ?_⟩
      intro c hc
      rcases List.mem_cons.mp hc with rfl | hc
      · exact hfirst.mono (le_max_left ..)
      · exact (hrest c hc).mono (le_max_right ..)

theorem returns_iff_calls {a : α} :
    Returns works calls a ↔
      works a ∧ ∀ b ∈ calls a, Returns works calls b := by
  constructor
  · rintro ⟨depth, h⟩
    cases depth with
    | zero => exact h.elim
    | succ depth => exact ⟨h.1, fun b hb => ⟨depth, h.2 b hb⟩⟩
  · rintro ⟨hworks, hcalls⟩
    obtain ⟨depth, hdepth⟩ := exists_depth hcalls
    exact ⟨depth + 1, hworks, hdepth⟩

theorem Returns.of_reached {a b : α} (h : Returns works calls a)
    (hreached : Reached calls a b) : Returns works calls b := by
  induction hreached with
  | refl => exact h
  | tail _ hcall ih => exact (returns_iff_calls.mp ih).2 _ hcall

theorem ReturnsWithin.not_leadsBack {depth : Nat} {a : α}
    (h : ReturnsWithin works calls depth a) : ¬ LeadsBack calls a := by
  induction depth generalizing a with
  | zero => exact h.elim
  | succ depth ih =>
      intro hcycle
      obtain ⟨b, hcall, hback⟩ := Relation.TransGen.head'_iff.mp hcycle
      exact ih (h.2 b hcall) (Relation.TransGen.tail' hback hcall)

/-- Only arguments that make a call can lie on a way back. -/
theorem acc_of_not_leadsBack (hfinite : {a | calls a ≠ []}.Finite)
    {a : α} (h : ∀ b, Reached calls a b → ¬ LeadsBack calls b) :
    Acc (flip (CallsDirectly calls)) a := by
  let Callers := {b // calls b ≠ [] ∧ Reached calls a b}
  have hcallers : Finite Callers :=
    (hfinite.subset fun b hb => hb.1).to_subtype
  let down (c b : Callers) : Prop :=
    Relation.TransGen (CallsDirectly calls) b.1 c.1
  have htrans : IsTrans Callers down := ⟨fun _ _ _ hcb hba => hba.trans hcb⟩
  have hirrefl : Std.Irrefl down := ⟨fun b => h b.1 b.2.2⟩
  have hwf : WellFounded down := Finite.wellFounded_of_trans_of_irrefl down
  have hacc (b : Callers) : Acc (flip (CallsDirectly calls)) b.1 := by
    induction b using hwf.induction with
    | h b ih =>
        refine Acc.intro _ ?_
        intro c hc
        by_cases hcalls : calls c = []
        · refine Acc.intro _ ?_
          intro d hd
          rw [flip, CallsDirectly, hcalls] at hd
          cases hd
        · exact ih ⟨c, hcalls, b.2.2.tail hc⟩ (Relation.TransGen.single hc)
  by_cases hcalls : calls a = []
  · refine Acc.intro _ ?_
    intro b hb
    rw [flip, CallsDirectly, hcalls] at hb
    cases hb
  · exact hacc ⟨a, hcalls, Relation.ReflTransGen.refl⟩

theorem returns_iff (hfinite : {a | calls a ≠ []}.Finite) {a : α} :
    Returns works calls a ↔
      ∀ b, Reached calls a b → works b ∧ ¬ LeadsBack calls b := by
  constructor
  · intro h b hreached
    have hb := h.of_reached hreached
    obtain ⟨depth, hdepth⟩ := hb
    exact ⟨(returns_iff_calls.mp ⟨depth, hdepth⟩).1, hdepth.not_leadsBack⟩
  · intro h
    have hacc := acc_of_not_leadsBack hfinite
      fun b hreached => (h b hreached).2
    clear hfinite
    induction hacc with
    | intro b _ ih =>
        refine returns_iff_calls.mpr
          ⟨(h b Relation.ReflTransGen.refl).1, ?_⟩
        intro c hc
        exact ih c hc fun d hd =>
          h d (Relation.ReflTransGen.head (r := CallsDirectly calls) hc hd)

end NestedCalls
