import Mathlib.Data.List.Basic

/-!
# Loops that may be left early

The body of the loop says whether to go on.  A loop over a list keeps an
invariant that names the items it has passed; when it is left, the items it
has passed are the first ones of the list, up to the one that ended it.
-/

namespace EarlyExit

variable {ι σ : Type*} (body : ι → σ → Bool × σ)

/-- Whether the loop has come to the end of the list, and the state. -/
def run : List ι → σ → Bool × σ
  | [], s => (true, s)
  | item :: rest, s =>
      if (body item s).1 then run rest (body item s).2
      else (false, (body item s).2)

@[simp] theorem run_nil (s : σ) : run body [] s = (true, s) := rfl

theorem run_cons_of_goesOn {item : ι} {rest : List ι} {s : σ}
    (h : (body item s).1 = true) :
    run body (item :: rest) s = run body rest (body item s).2 := by
  rw [run, if_pos h]

theorem run_cons_of_left {item : ι} {rest : List ι} {s : σ}
    (h : (body item s).1 = false) :
    run body (item :: rest) s = (false, (body item s).2) := by
  rw [run, if_neg (by rw [h]; decide)]

theorem run_singleton (item : ι) (s : σ) : run body [item] s = body item s := by
  cases hgo : (body item s).1 with
  | true =>
      rw [run_cons_of_goesOn body hgo, run_nil, ← hgo]
  | false =>
      rw [run_cons_of_left body hgo, ← hgo]

theorem run_append (items more : List ι) (s : σ) :
    run body (items ++ more) s =
      if (run body items s).1 then run body more (run body items s).2
      else (false, (run body items s).2) := by
  induction items generalizing s with
  | nil => rfl
  | cons item rest ih =>
      cases hgo : (body item s).1 with
      | true =>
          rw [List.cons_append, run_cons_of_goesOn body hgo,
            run_cons_of_goesOn body hgo]
          exact ih _
      | false =>
          rw [List.cons_append, run_cons_of_left body hgo,
            run_cons_of_left body hgo]
          rfl

variable {body}

/-- What the body preserves while the loop goes on, and what it leaves when it
ends the loop. -/
theorem run_rule {goingOn left : List ι → σ → Prop}
    (hgo : ∀ passed item s, goingOn passed s → (body item s).1 = true →
      goingOn (passed ++ [item]) (body item s).2)
    (hleave : ∀ passed item s, goingOn passed s → (body item s).1 = false →
      left (passed ++ [item]) (body item s).2)
    (items passed : List ι) (s : σ) (h : goingOn passed s) :
    ((run body items s).1 = true ∧
        goingOn (passed ++ items) (run body items s).2) ∨
      ((run body items s).1 = false ∧ ∃ before after,
        items = before ++ after ∧
          left (passed ++ before) (run body items s).2) := by
  induction items generalizing passed s with
  | nil =>
      left
      rw [List.append_nil]
      exact ⟨rfl, h⟩
  | cons item rest ih =>
      cases hbody : (body item s).1 with
      | true =>
          rw [run_cons_of_goesOn body hbody]
          have hnext := hgo passed item s h hbody
          rcases ih (passed ++ [item]) (body item s).2 hnext with
            hend | ⟨hfalse, before, after, rfl, hleft⟩
          · left
            simpa only [List.append_assoc, List.singleton_append] using hend
          · right
            refine ⟨hfalse, item :: before, after, rfl, ?_⟩
            simpa only [List.append_assoc, List.singleton_append] using hleft
      | false =>
          right
          rw [run_cons_of_left body hbody]
          exact ⟨rfl, [item], rest, rfl, hleave passed item s h hbody⟩

end EarlyExit
