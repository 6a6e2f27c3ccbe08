import Mathlib.Data.List.Chain
import Mathlib.Data.List.Nodup
import Mathlib.Logic.Relation

/-!
# Following a partial function

Every node has at most one successor.  `walk` follows the successors from a
node until it meets a node that it has visited, and lists the nodes it passed,
the last one first.  On finitely many nodes it ends, lists no node twice and
lists exactly the nodes that can be reached outside the visited ones.  On a chain it
lists the chain.
-/

namespace PointerChain

variable {κ : Type*} [DecidableEq κ]

/-- `d` is `c` or is reached from it along the function, leaving no visited
node on the way. -/
def Reaches (next : κ → Option κ) (visited : List κ) : κ → κ → Prop :=
  Relation.ReflTransGen fun a b => a ∉ visited ∧ next a = some b

def walk (next : κ → Option κ) : Nat → List κ → κ → Option (List κ)
  | 0, _, _ => none
  | fuel + 1, visited, c =>
      if c ∈ visited then some []
      else
        match next c with
        | none => some [c]
        | some d => (walk next fuel (visited ++ [c]) d).map (· ++ [c])

variable {next : κ → Option κ}

omit [DecidableEq κ] in
theorem Reaches.mono {visited more : List κ} {c d : κ}
    (h : Reaches next (visited ++ more) c d) : Reaches next visited c d := by
  induction h with
  | refl => exact .refl
  | tail _ hedge ih =>
      exact .tail ih ⟨fun hmem => hedge.1 (List.mem_append_left _ hmem), hedge.2⟩

/-- The nodes with a successor that have not been visited. -/
def remaining (nodes visited : List κ) : Nat :=
  (nodes.filter fun c => decide (c ∉ visited)).length

theorem remaining_lt {nodes visited : List κ} {c : κ} (hc : c ∈ nodes)
    (hnot : c ∉ visited) :
    remaining nodes (visited ++ [c]) < remaining nodes visited := by
  have hsplit : nodes.filter (fun d => decide (d ∉ visited ++ [c])) =
      (nodes.filter fun d => decide (d ∉ visited)).filter
        fun d => decide (d ≠ c) := by
    rw [List.filter_filter]
    apply List.filter_congr
    intro d _
    simp [not_or, and_comm]
  unfold remaining
  rw [hsplit]
  apply List.length_filter_lt_length_iff_exists.mpr
  exact ⟨c, List.mem_filter.mpr ⟨hc, by simpa using hnot⟩, by simp⟩

/-- Enough fuel gives a result. -/
theorem walk_isSome {nodes : List κ} (hnodes : ∀ c d, next c = some d → c ∈ nodes)
    {fuel : Nat} {visited : List κ} (c : κ)
    (hfuel : remaining nodes visited < fuel) :
    (walk next fuel visited c).isSome := by
  induction fuel generalizing visited c with
  | zero => omega
  | succ fuel ih =>
      rw [walk]
      split
      next => rfl
      next hnot =>
        split
        next => rfl
        next d hd =>
          have hless := remaining_lt (hnodes c d hd) hnot
          rw [Option.isSome_map]
          exact ih d (by omega)

/-- What `walk` lists. -/
structure Walked (next : κ → Option κ) (visited : List κ) (c : κ)
    (nodes : List κ) : Prop where
  nodup : nodes.Nodup
  fresh : ∀ d ∈ nodes, d ∉ visited
  reached : ∀ d ∈ nodes, Reaches next visited c d
  start : c ∈ nodes ∨ c ∈ visited
  closed : ∀ d ∈ nodes, ∀ e, next d = some e → e ∈ nodes ∨ e ∈ visited

theorem walk_spec {fuel : Nat} {visited : List κ} {c : κ} {nodes : List κ}
    (h : walk next fuel visited c = some nodes) : Walked next visited c nodes := by
  induction fuel generalizing visited c nodes with
  | zero => simp [walk] at h
  | succ fuel ih =>
      rw [walk] at h
      split at h
      next hvisited =>
        simp only [Option.some.injEq] at h
        subst h
        exact ⟨List.nodup_nil, by simp, by simp, .inr hvisited, by simp⟩
      next hnot =>
        split at h
        next hnone =>
          simp only [Option.some.injEq] at h
          subst h
          refine ⟨List.nodup_singleton c, by simpa using hnot, ?_, by simp, ?_⟩
          · intro d hd
            rw [List.mem_singleton.mp hd]
            exact .refl
          · intro d hd e he
            rw [List.mem_singleton.mp hd, hnone] at he
            simp at he
        next d hd =>
          obtain ⟨rest, hrest, rfl⟩ := Option.map_eq_some_iff.mp h
          have hw := ih hrest
          have hc : c ∉ rest := fun hmem => hw.fresh c hmem (by simp)
          refine ⟨?_, ?_, ?_, by simp, ?_⟩
          · apply List.Nodup.append hw.nodup (List.nodup_singleton c)
            simpa using hc
          · intro e he
            rcases List.mem_append.mp he with he | he
            · exact fun hmem => hw.fresh e he (by simp [hmem])
            · rw [List.mem_singleton.mp he]
              exact hnot
          · intro e he
            rcases List.mem_append.mp he with he | he
            · exact .head ⟨hnot, hd⟩ (hw.reached e he).mono
            · rw [List.mem_singleton.mp he]
              exact .refl
          · intro e he e' hnext
            have hinside : e' ∈ rest ∨ e' ∈ visited ++ [c] := by
              rcases List.mem_append.mp he with he | he
              · exact hw.closed e he e' hnext
              · rw [List.mem_singleton.mp he, hd, Option.some.injEq] at hnext
                exact hnext ▸ hw.start
            rcases hinside with hrest | hvisited
            · exact .inl (by simp [hrest])
            · rcases List.mem_append.mp hvisited with hvisited | hown
              · exact .inr hvisited
              · exact .inl (by simp [List.mem_singleton.mp hown])

omit [DecidableEq κ] in
/-- The walk lists exactly what can be reached outside the visited nodes. -/
theorem Walked.mem_iff {visited : List κ} {c : κ} {nodes : List κ}
    (h : Walked next visited c nodes) (d : κ) :
    d ∈ nodes ↔ d ∉ visited ∧ Reaches next visited c d := by
  constructor
  · exact fun hd => ⟨h.fresh d hd, h.reached d hd⟩
  · rintro ⟨hnot, hreach⟩
    induction hreach with
    | refl => exact h.start.resolve_right hnot
    | tail _ hedge ih => exact (h.closed _ (ih hedge.1) _ hedge.2).resolve_right hnot

/-- Fresh nodes, each the successor of the one before; the last has no
successor or one that has been met. -/
structure Chain (next : κ → Option κ) (visited nodes : List κ) : Prop where
  nodup : nodes.Nodup
  fresh : ∀ c ∈ nodes, c ∉ visited
  linked : nodes.IsChain fun c d => next c = some d
  ends : ∀ c, nodes.getLast? = some c → ∀ d, next c = some d →
    d ∈ visited ∨ d ∈ nodes

omit [DecidableEq κ] in
theorem Chain.tail {visited : List κ} {c d : κ} {rest : List κ}
    (h : Chain next visited (c :: d :: rest)) :
    next c = some d ∧ Chain next (visited ++ [c]) (d :: rest) := by
  obtain ⟨hnodup, hfresh, hlinked, hends⟩ := h
  rw [List.isChain_cons_cons] at hlinked
  rw [List.nodup_cons] at hnodup
  refine ⟨hlinked.1, hnodup.2, ?_, hlinked.2, ?_⟩
  · intro e he
    rw [List.mem_append, List.mem_singleton, not_or]
    refine ⟨hfresh e (List.mem_cons_of_mem c he), ?_⟩
    rintro rfl
    exact hnodup.1 he
  · intro e he f hf
    rcases hends e (by rwa [List.getLast?_cons_cons]) f hf with hold | hnew
    · exact .inl (List.mem_append_left _ hold)
    · rcases List.mem_cons.mp hnew with rfl | hnew
      · exact .inl (by simp)
      · exact .inr hnew

theorem walk_of_chain {visited : List κ} {c : κ} {rest : List κ} {fuel : Nat}
    (h : Chain next visited (c :: rest)) (hfuel : rest.length + 1 < fuel) :
    walk next fuel visited c = some (c :: rest).reverse := by
  induction rest generalizing visited c fuel with
  | nil =>
      obtain ⟨fuel, rfl⟩ : ∃ more, fuel = more + 1 + 1 :=
        ⟨fuel - 2, by simp at hfuel; omega⟩
      rw [walk, if_neg (h.fresh c List.mem_cons_self)]
      cases hd : next c with
      | none => rfl
      | some d =>
          have hmet : d ∈ visited ++ [c] :=
            List.mem_append.mpr (h.ends c rfl d hd)
          dsimp only
          rw [walk, if_pos hmet]
          rfl
  | cons d rest ih =>
      cases fuel with
      | zero => simp at hfuel
      | succ fuel =>
          obtain ⟨hd, htail⟩ := h.tail
          have hrest := ih htail (by simpa using hfuel)
          rw [walk, if_neg (h.fresh c List.mem_cons_self), hd]
          dsimp only
          rw [hrest]
          simp

end PointerChain
