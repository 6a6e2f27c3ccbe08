import Mathlib.Data.List.Nodup

/-!
# Lists with distinct keys

Entries that are looked up by a key, from the front.  A new entry goes to the
back, and one with the key of an old one takes its place.
-/

namespace KeyedList

variable {ε κ : Type*} [DecidableEq κ] {key : ε → κ}

def find (key : ε → κ) (k : κ) (l : List ε) : Option ε := l.find? fun e => key e = k

def assign (key : ε → κ) (e : ε) : List ε → List ε
  | [] => [e]
  | a :: l => if key a = key e then e :: l else a :: assign key e l

def remove (key : ε → κ) (k : κ) (l : List ε) : List ε := l.eraseP fun e => key e = k

theorem find_eq_some_iff {l : List ε} (h : (l.map key).Nodup) {k : κ} {e : ε} :
    find key k l = some e ↔ e ∈ l ∧ key e = k := by
  induction l with
  | nil => simp [find]
  | cons a l ih =>
      rw [List.map_cons, List.nodup_cons] at h
      rw [find, List.find?_cons]
      by_cases hk : key a = k
      · rw [decide_eq_true hk]
        constructor
        · intro hsame
          rw [← Option.some.inj hsame]
          exact ⟨List.mem_cons_self, hk⟩
        · intro he
          rcases List.mem_cons.mp he.1 with rfl | hmem
          · rfl
          · have hkey := List.mem_map_of_mem (f := key) hmem
            rw [he.2, ← hk] at hkey
            exact absurd hkey h.1
      · rw [decide_eq_false hk]
        change find key k l = some e ↔ _
        rw [ih h.2, List.mem_cons]
        constructor
        · exact fun he => ⟨.inr he.1, he.2⟩
        · intro he
          rcases he with ⟨rfl | hmem, hkey⟩
          · exact absurd hkey hk
          · exact ⟨hmem, hkey⟩

theorem keys_assign (e : ε) (l : List ε) :
    (assign key e l).map key =
      if key e ∈ l.map key then l.map key else l.map key ++ [key e] := by
  induction l with
  | nil => rfl
  | cons a l ih =>
      rw [assign]
      by_cases hk : key a = key e
      · rw [if_pos hk, List.map_cons, List.map_cons, hk, if_pos List.mem_cons_self]
      · rw [if_neg hk, List.map_cons, List.map_cons, ih]
        split
        · next hmem => rw [if_pos (List.mem_cons_of_mem _ hmem)]
        · next hnew =>
          rw [if_neg (by rw [List.mem_cons]; exact fun h => h.elim (Ne.symm hk) hnew)]
          rfl

theorem nodup_assign {l : List ε} (h : (l.map key).Nodup) (e : ε) :
    ((assign key e l).map key).Nodup := by
  rw [keys_assign]
  split
  · exact h
  · next hnew =>
    rw [← List.concat_eq_append]
    exact h.concat hnew

theorem mem_assign_iff {l : List ε} (h : (l.map key).Nodup) {e a : ε} :
    a ∈ assign key e l ↔ a = e ∨ (a ∈ l ∧ key a ≠ key e) := by
  induction l with
  | nil => simp [assign]
  | cons b l ih =>
      rw [List.map_cons, List.nodup_cons] at h
      rw [assign]
      split
      · next hk =>
        have hother : ∀ c ∈ l, key c ≠ key e := by
          intro c hc hsame
          apply h.1
          rw [hk, ← hsame]
          exact List.mem_map_of_mem hc
        rw [List.mem_cons, List.mem_cons]
        constructor
        · exact fun ha => ha.imp_right fun ha => ⟨.inr ha, hother a ha⟩
        · intro ha
          rcases ha with rfl | ⟨rfl | ha, hne⟩
          · exact .inl rfl
          · exact absurd hk hne
          · exact .inr ha
      · next hk =>
        rw [List.mem_cons, List.mem_cons, ih h.2]
        constructor
        · intro ha
          rcases ha with rfl | rfl | ha
          · exact .inr ⟨.inl rfl, hk⟩
          · exact .inl rfl
          · exact .inr ⟨.inr ha.1, ha.2⟩
        · intro ha
          rcases ha with rfl | ⟨rfl | ha, hne⟩
          · exact .inr (.inl rfl)
          · exact .inl rfl
          · exact .inr (.inr ⟨ha, hne⟩)

theorem nodup_remove {l : List ε} (h : (l.map key).Nodup) (k : κ) :
    ((remove key k l).map key).Nodup :=
  h.sublist (List.eraseP_sublist.map key)

theorem mem_remove_iff {l : List ε} (h : (l.map key).Nodup) {k : κ} {a : ε} :
    a ∈ remove key k l ↔ a ∈ l ∧ key a ≠ k := by
  induction l with
  | nil => simp [remove]
  | cons b l ih =>
      rw [List.map_cons, List.nodup_cons] at h
      rw [remove, List.eraseP_cons]
      by_cases hk : key b = k
      · have hother : ∀ c ∈ l, key c ≠ k := by
          intro c hc hsame
          apply h.1
          rw [hk, ← hsame]
          exact List.mem_map_of_mem hc
        rw [decide_eq_true hk, cond_true, List.mem_cons]
        constructor
        · exact fun ha => ⟨.inr ha, hother a ha⟩
        · intro ha
          rcases ha with ⟨rfl | ha, hne⟩
          · exact absurd hk hne
          · exact ha
      · rw [decide_eq_false hk, cond_false]
        change a ∈ b :: remove key k l ↔ _
        rw [List.mem_cons, List.mem_cons, ih h.2]
        constructor
        · intro ha
          rcases ha with rfl | ha
          · exact ⟨.inl rfl, hk⟩
          · exact ⟨.inr ha.1, ha.2⟩
        · intro ha
          rcases ha with ⟨rfl | ha, hne⟩
          · exact .inl rfl
          · exact .inr ⟨ha, hne⟩

end KeyedList
