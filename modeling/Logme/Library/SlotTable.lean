import Mathlib.Algebra.BigOperators.Group.List.Basic
import Mathlib.Algebra.GroupWithZero.Nat
import Mathlib.Data.List.Forall2
import Mathlib.Data.List.Nodup

/-!
# Counters in a bounded number of slots

A table gives a slot to each of the first keys it meets and counts everything
else together.  `SharesOut` says that rows of counters share a list of entries
out: every entry is counted in one row, and a row shows the number, the sum and
the maximum of the sizes it counts.
-/

namespace SlotTable

structure Counters where
  records : Nat := 0
  bytes : Nat := 0
  maxBytes : Nat := 0
  deriving DecidableEq

namespace Counters

def record (c : Counters) (size : Nat) : Counters :=
  ⟨c.records + 1, c.bytes + size, max c.maxBytes size⟩

/-- Two rows shown as one. -/
def merge (c d : Counters) : Counters :=
  ⟨c.records + d.records, c.bytes + d.bytes, max c.maxBytes d.maxBytes⟩

/-- The number, the sum and the maximum of some sizes. -/
def ofSizes (sizes : List Nat) : Counters :=
  ⟨sizes.length, sizes.sum, sizes.foldr max 0⟩

theorem ofSizes_append (sizes more : List Nat) :
    ofSizes (sizes ++ more) = (ofSizes sizes).merge (ofSizes more) := by
  have hmax : (sizes ++ more).foldr max 0 = max (sizes.foldr max 0) (more.foldr max 0) := by
    induction sizes with
    | nil => simp
    | cons size sizes ih =>
        rw [List.cons_append, List.foldr_cons, ih, List.foldr_cons, Nat.max_assoc]
  simp [ofSizes, merge, hmax]

theorem ofSizes_concat (sizes : List Nat) (size : Nat) :
    ofSizes (sizes ++ [size]) = (ofSizes sizes).record size := by
  rw [ofSizes_append]
  simp [ofSizes, merge, record]

theorem le_maxBytes {sizes : List Nat} {size : Nat} (h : size ∈ sizes) :
    size ≤ (ofSizes sizes).maxBytes := by
  induction sizes with
  | nil => cases h
  | cons first sizes ih =>
      change size ≤ max first (ofSizes sizes).maxBytes
      rcases List.mem_cons.mp h with rfl | hrest
      · exact Nat.le_max_left _ _
      · exact Nat.le_trans (ih hrest) (Nat.le_max_right _ _)

theorem maxBytes_mem {sizes : List Nat} (h : sizes ≠ []) :
    (ofSizes sizes).maxBytes ∈ sizes := by
  induction sizes with
  | nil => exact absurd rfl h
  | cons first sizes ih =>
      change max first (ofSizes sizes).maxBytes ∈ first :: sizes
      cases sizes with
      | nil => simp [ofSizes]
      | cons second sizes =>
          have hmem := ih (List.cons_ne_nil _ _)
          rw [Nat.max_def]
          split
          next => exact List.mem_cons_of_mem _ hmem
          next => exact List.mem_cons_self

end Counters

/-! ## Sharing entries out among rows -/

section SharesOut

variable {ρ ε π γ κ : Type*} {counters : ρ → Counters} {size : ε → Nat} {fits : ρ → ε → Prop}

/-- The row counts the entries of the group and nothing else. -/
structure Counts (counters : ρ → Counters) (size : ε → Nat) (fits : ρ → ε → Prop) (row : ρ)
    (group : List ε) : Prop where
  nonempty : group ≠ []
  counted : counters row = Counters.ofSizes (group.map size)
  fitting : ∀ entry ∈ group, fits row entry

/-- The entries fall into one group for each row. -/
def SharesOut (counters : ρ → Counters) (size : ε → Nat) (fits : ρ → ε → Prop) (rows : List ρ)
    (entries : List ε) : Prop :=
  ∃ groups : List (List ε),
    groups.flatten.Perm entries ∧ List.Forall₂ (Counts counters size fits) rows groups

theorem SharesOut.nil : SharesOut counters size fits [] [] :=
  ⟨[], List.Perm.refl _, List.Forall₂.nil⟩

theorem SharesOut.perm {rows : List ρ} {entries entries' : List ε}
    (h : SharesOut counters size fits rows entries) (hperm : entries.Perm entries') :
    SharesOut counters size fits rows entries' := by
  rcases h with ⟨groups, hgroups, hcounts⟩
  exact ⟨groups, hgroups.trans hperm, hcounts⟩

theorem SharesOut.append {rows rows' : List ρ} {entries entries' : List ε}
    (h : SharesOut counters size fits rows entries)
    (h' : SharesOut counters size fits rows' entries') :
    SharesOut counters size fits (rows ++ rows') (entries ++ entries') := by
  rcases h with ⟨groups, hgroups, hcounts⟩
  rcases h' with ⟨groups', hgroups', hcounts'⟩
  refine ⟨groups ++ groups', ?_, List.rel_append hcounts hcounts'⟩
  rw [List.flatten_append]
  exact hgroups.append hgroups'

/-- A row that is left out while nothing is counted. -/
theorem SharesOut.ofRow {row : ρ} {entries : List ε}
    (hcounted : counters row = Counters.ofSizes (entries.map size))
    (hfits : ∀ entry ∈ entries, fits row entry) :
    SharesOut counters size fits (if (counters row).records = 0 then [] else [row]) entries := by
  have hrecords : (counters row).records = entries.length := by
    rw [hcounted]
    exact List.length_map _
  cases entries with
  | nil =>
      rw [if_pos (by simpa using hrecords)]
      exact .nil
  | cons entry entries =>
      rw [if_neg (by rw [hrecords]; simp)]
      refine ⟨[entry :: entries], by simp, ?_⟩
      exact .cons ⟨List.cons_ne_nil _ _, hcounted, hfits⟩ .nil

/-- Rows for the places of a partition, put together. -/
theorem SharesOut.flatMap [DecidableEq π] {cells : List γ} (place : γ → π) {rows : γ → List ρ}
    (key : ε → π) {entries : List ε} (hnodup : (cells.map place).Nodup)
    (hcover : ∀ entry ∈ entries, key entry ∈ cells.map place)
    (hcells : ∀ cell ∈ cells, SharesOut counters size fits (rows cell)
      (entries.filter fun entry => key entry = place cell)) :
    SharesOut counters size fits (cells.flatMap rows) entries := by
  induction cells generalizing entries with
  | nil =>
      have hempty : entries = [] := by
        apply List.eq_nil_iff_forall_not_mem.mpr
        intro entry hmem
        exact List.not_mem_nil (hcover entry hmem)
      exact hempty ▸ .nil
  | cons cell cells ih =>
      rw [List.map_cons, List.nodup_cons] at hnodup
      have hrest : SharesOut counters size fits (cells.flatMap rows)
          (entries.filter fun entry => !decide (key entry = place cell)) := by
        apply ih hnodup.2
        · intro entry hmem
          rw [List.mem_filter, Bool.not_eq_true', decide_eq_false_iff_not] at hmem
          exact (List.mem_cons.mp (hcover entry hmem.1)).resolve_left hmem.2
        · intro other hother
          have hne : place other ≠ place cell := by
            intro heq
            exact hnodup.1 (heq ▸ List.mem_map_of_mem hother)
          have hsame : (entries.filter fun entry => !decide (key entry = place cell)).filter
              (fun entry => key entry = place other) =
                entries.filter fun entry => key entry = place other := by
            rw [List.filter_filter]
            apply List.filter_congr
            intro entry _
            by_cases hkey : key entry = place other
            · simp [hkey, hne]
            · simp [hkey]
          rw [hsame]
          exact hcells other (List.mem_cons_of_mem _ hother)
      have hcell := hcells cell List.mem_cons_self
      exact (hcell.append hrest).perm (List.filter_append_perm _ _)

/-- The rows sum to what was recorded. -/
theorem SharesOut.sum_eq {rows : List ρ} {entries : List ε}
    (h : SharesOut counters size fits rows entries) :
    (rows.map fun row => (counters row).records).sum = entries.length ∧
      (rows.map fun row => (counters row).bytes).sum = (entries.map size).sum := by
  rcases h with ⟨groups, hgroups, hcounts⟩
  rw [← hgroups.length_eq, ← (hgroups.map size).sum_eq]
  clear hgroups
  induction hcounts with
  | nil => simp
  | cons hrow _ ih => simp [hrow.counted, Counters.ofSizes, ih.1, ih.2]

/-- The maximum of a row is the size of an entry that the row counts, and no
entry is larger than the maximum of its row. -/
theorem SharesOut.max_exact {rows : List ρ} {entries : List ε}
    (h : SharesOut counters size fits rows entries) :
    (∀ row ∈ rows, ∃ entry ∈ entries, fits row entry ∧ size entry = (counters row).maxBytes) ∧
      ∀ entry ∈ entries, ∃ row ∈ rows, fits row entry ∧
        size entry ≤ (counters row).maxBytes := by
  rcases h with ⟨groups, hgroups, hcounts⟩
  simp only [← hgroups.mem_iff]
  clear hgroups
  induction hcounts with
  | nil => simp
  | @cons row group rows groups hrow _ ih =>
      rw [List.flatten_cons]
      constructor
      · intro other hother
        rcases List.mem_cons.mp hother with rfl | hrest
        · have hne : group.map size ≠ [] := by simpa using hrow.nonempty
          have hmax := Counters.maxBytes_mem hne
          rw [← hrow.counted] at hmax
          rcases List.mem_map.mp hmax with ⟨entry, hmem, hsize⟩
          exact ⟨entry, List.mem_append_left _ hmem, hrow.fitting entry hmem, hsize⟩
        · rcases ih.1 other hrest with ⟨entry, hmem, hentry⟩
          exact ⟨entry, List.mem_append_right _ hmem, hentry⟩
      · intro entry hmem
        rcases List.mem_append.mp hmem with hfirst | hrest
        · refine ⟨row, List.mem_cons_self, hrow.fitting entry hfirst, ?_⟩
          rw [hrow.counted]
          exact Counters.le_maxBytes (List.mem_map_of_mem hfirst)
        · rcases ih.2 entry hrest with ⟨other, hother, hentry⟩
          exact ⟨other, List.mem_cons_of_mem _ hother, hentry⟩

/-! ### Rows of one key shown as one row -/

variable [DecidableEq κ]

def addRow : List (κ × Counters) → κ → Counters → List (κ × Counters)
  | [], k, c => [(k, c)]
  | total :: totals, k, c =>
      if total.1 = k then (k, total.2.merge c) :: totals else total :: addRow totals k c

def aggregate (key : ρ → κ) (counters : ρ → Counters) (rows : List ρ) : List (κ × Counters) :=
  rows.foldl (fun totals row => addRow totals (key row) (counters row)) []

theorem SharesOut.addRow {fitsKey : κ → ε → Prop} {totals : List (κ × Counters)}
    {entries group : List ε} {k : κ} {c : Counters}
    (h : SharesOut Prod.snd size (fun total => fitsKey total.1) totals entries)
    (hgroup : Counts Prod.snd size (fun total => fitsKey total.1) (k, c) group) :
    SharesOut Prod.snd size (fun total => fitsKey total.1) (addRow totals k c)
      (entries ++ group) := by
  rcases h with ⟨groups, hgroups, hcounts⟩
  suffices hadded : ∃ groups' : List (List ε), groups'.flatten.Perm (groups.flatten ++ group) ∧
      List.Forall₂ (Counts Prod.snd size fun total => fitsKey total.1)
        (SlotTable.addRow totals k c) groups' by
    rcases hadded with ⟨groups', hperm, hcounts'⟩
    exact ⟨groups', hperm.trans (hgroups.append_right _), hcounts'⟩
  clear hgroups
  induction hcounts with
  | nil => exact ⟨[group], by simp, .cons hgroup .nil⟩
  | @cons total first totals groups hfirst hrest ih =>
      rw [SlotTable.addRow]
      split
      next heq =>
        refine ⟨(first ++ group) :: groups, ?_, .cons ?_ hrest⟩
        · rw [List.flatten_cons, List.flatten_cons, List.append_assoc, List.append_assoc]
          exact List.perm_append_comm.append_left _
        · refine ⟨?_, ?_, ?_⟩
          · simp [hgroup.nonempty]
          · change total.2.merge c = _
            rw [List.map_append, Counters.ofSizes_append, ← hfirst.counted, ← hgroup.counted]
          · intro entry hmem
            rcases List.mem_append.mp hmem with hold | hnew
            · exact heq ▸ hfirst.fitting entry hold
            · exact hgroup.fitting entry hnew
      next =>
        rcases ih with ⟨groups', hperm, hcounts'⟩
        refine ⟨first :: groups', ?_, .cons hfirst hcounts'⟩
        rw [List.flatten_cons, List.flatten_cons, List.append_assoc]
        exact hperm.append_left _

theorem SharesOut.aggregate {key : ρ → κ} {rows : List ρ} {entries : List ε}
    (h : SharesOut counters size fits rows entries) (fitsKey : κ → ε → Prop)
    (hfits : ∀ row entry, fits row entry → fitsKey (key row) entry) :
    SharesOut Prod.snd size (fun total => fitsKey total.1) (aggregate key counters rows)
      entries := by
  have hfold : ∀ (totals : List (κ × Counters)) (before : List ε),
      SharesOut Prod.snd size (fun total => fitsKey total.1) totals before →
      SharesOut Prod.snd size (fun total => fitsKey total.1)
        (rows.foldl (fun totals row => SlotTable.addRow totals (key row) (counters row)) totals)
        (before ++ entries) := by
    rcases h with ⟨groups, hgroups, hcounts⟩
    intro totals before hbefore
    refine SharesOut.perm ?_ (hgroups.append_left before)
    clear hgroups
    induction hcounts generalizing totals before with
    | nil => simpa using hbefore
    | @cons row group rows groups hrow _ ih =>
        rw [List.foldl_cons, List.flatten_cons, ← List.append_assoc]
        apply ih
        apply hbefore.addRow
        exact ⟨hrow.nonempty, hrow.counted,
          fun entry hmem => hfits row entry (hrow.fitting entry hmem)⟩
  exact hfold [] [] .nil

end SharesOut

/-! ## Tables -/

structure Slot (κ ι : Type*) where
  key : κ
  label : ι
  counters : Counters

/-- At most `capacity` slots, with different keys, and the overflow. -/
structure Table (κ ι : Type*) (capacity : Nat) where
  slots : List (Slot κ ι)
  overflow : Counters
  slots_le : slots.length ≤ capacity
  distinct : (slots.map Slot.key).Nodup

/-- An entry with the place it is counted at, in a slot of one of the tables
or in its overflow, and the label it belongs to. -/
structure Entry (ι : Type*) where
  table : Nat
  slot : Option Nat
  label : ι
  size : Nat

/-- What the row that counts the entry shows: the overflow has no label. -/
def Entry.shown {ι : Type*} (other : ι) (entry : Entry ι) : ι :=
  if entry.slot.isSome then entry.label else other

namespace Table

variable {κ ι : Type*} {capacity : Nat}

def empty (capacity : Nat) : Table κ ι capacity :=
  ⟨[], {}, Nat.zero_le _, List.nodup_nil⟩

/-- Count in a slot, or in the overflow. -/
def count (t : Table κ ι capacity) (place : Option Nat) (size : Nat) : Table κ ι capacity :=
  match place with
  | some i =>
      { t with
        slots := t.slots.modify i fun slot => { slot with counters := slot.counters.record size }
        slots_le := by
          rw [List.length_modify]
          exact t.slots_le
        distinct := by
          have hkeys : (t.slots.modify i fun slot =>
              { slot with counters := slot.counters.record size }).map Slot.key =
                t.slots.map Slot.key := by
            apply List.ext_getElem?
            intro j
            simp only [List.getElem?_map, List.getElem?_modify]
            split
            next => cases t.slots[j]? <;> rfl
            next => cases t.slots[j]? <;> rfl
          exact hkeys ▸ t.distinct }
  | none => { t with overflow := t.overflow.record size }

/-- The counters become zero; the slots stay. -/
def reset (t : Table κ ι capacity) : Table κ ι capacity :=
  { slots := t.slots.map fun slot => { slot with counters := {} }
    overflow := {}
    slots_le := by
      rw [List.length_map]
      exact t.slots_le
    distinct := by
      rw [List.map_map]
      exact t.distinct }

def find [DecidableEq κ] (t : Table κ ι capacity) (key : κ) : Option Nat :=
  t.slots.findIdx? fun slot => slot.key = key

/-- The slot of the key, which may be a new one. -/
def getOrCreate [DecidableEq κ] (t : Table κ ι capacity) (key : κ) (label : ι) :
    Option Nat × Table κ ι capacity :=
  match h : t.find key with
  | some i => (some i, t)
  | none =>
      if hroom : t.slots.length < capacity then
        (some t.slots.length,
          { t with
            slots := t.slots ++ [⟨key, label, {}⟩]
            slots_le := by
              rw [List.length_append]
              exact hroom
            distinct := by
              rw [List.map_append, List.map_singleton]
              apply t.distinct.append (List.nodup_singleton _)
              rw [List.disjoint_singleton]
              intro hmem
              rcases List.mem_map.mp hmem with ⟨slot, hslot, hkey⟩
              rw [find, List.findIdx?_eq_none_iff] at h
              simpa [hkey] using h slot hslot })
      else (none, t)

/-- A search before the table is locked, and again when it is. -/
def locate [DecidableEq κ] (t : Table κ ι capacity) (key : κ) (label : ι) :
    Option Nat × Table κ ι capacity :=
  match t.find key with
  | some i => (some i, t)
  | none => t.getOrCreate key label

theorem find_eq_some [DecidableEq κ] {t : Table κ ι capacity} {key : κ} {i : Nat}
    (h : t.find key = some i) :
    ∃ slot, t.slots[i]? = some slot ∧ slot.key = key := by
  rw [find, List.findIdx?_eq_some_iff_getElem] at h
  rcases h with ⟨hi, hkey, -⟩
  exact ⟨t.slots[i], List.getElem?_eq_getElem hi, of_decide_eq_true hkey⟩

/-- What is known when a place has been found for a key. -/
structure Located (t : Table κ ι capacity) (key : κ) (label : ι) (place : Option Nat)
    (t' : Table κ ι capacity) : Prop where
  slots : t'.slots = t.slots ∨ t'.slots = t.slots ++ [⟨key, label, {}⟩]
  overflow : t'.overflow = t.overflow
  found : ∀ i, place = some i → ∃ slot, t'.slots[i]? = some slot ∧ slot.key = key

theorem located_locate [DecidableEq κ] (t : Table κ ι capacity) (key : κ) (label : ι) :
    Located t key label (t.locate key label).1 (t.locate key label).2 := by
  have hfound : ∀ i, t.find key = some i → Located t key label (some i) t := by
    intro i hfind
    refine ⟨Or.inl rfl, rfl, ?_⟩
    intro j hj
    rw [Option.some.injEq] at hj
    exact hj ▸ find_eq_some hfind
  unfold locate
  split
  next i hfind => exact hfound i hfind
  next =>
    unfold getOrCreate
    split
    next i hfind => exact hfound i hfind
    next =>
      split
      next =>
        refine ⟨Or.inr rfl, rfl, ?_⟩
        intro i hi
        rw [Option.some.injEq] at hi
        subst hi
        exact ⟨⟨key, label, {}⟩, by simp, rfl⟩
      next =>
        refine ⟨Or.inl rfl, rfl, ?_⟩
        intro i hi
        cases hi

/-- Slots keep their place. -/
theorem Located.getElem?_slots {t t' : Table κ ι capacity} {key : κ} {label : ι}
    {place : Option Nat} (h : Located t key label place t') {i : Nat} {slot : Slot κ ι}
    (hslot : t'.slots[i]? = some slot) :
    t.slots[i]? = some slot ∨ i = t.slots.length ∧ slot = ⟨key, label, {}⟩ := by
  rcases h.slots with hslots | hslots
  · exact Or.inl (hslots ▸ hslot)
  · rw [hslots, List.getElem?_append] at hslot
    split at hslot
    next => exact Or.inl hslot
    next hlarge =>
      rw [List.getElem?_singleton] at hslot
      split at hslot
      next hzero =>
        rw [Option.some.injEq] at hslot
        exact Or.inr ⟨by omega, hslot.symm⟩
      next => cases hslot

theorem Located.length_le {t t' : Table κ ι capacity} {key : κ} {label : ι}
    {place : Option Nat} (h : Located t key label place t') :
    t.slots.length ≤ t'.slots.length := by
  rcases h.slots with hslots | hslots
  · exact Nat.le_of_eq (by rw [hslots])
  · simp [hslots]

/-! ### The counters of a table -/

def sizesAt (place : Option Nat) (entries : List (Entry ι)) : List Nat :=
  (entries.filter fun entry => entry.slot = place).map Entry.size

theorem sizesAt_concat (place : Option Nat) (entries : List (Entry ι)) (entry : Entry ι) :
    sizesAt place (entries ++ [entry]) =
      sizesAt place entries ++ if entry.slot = place then [entry.size] else [] := by
  rw [sizesAt, List.filter_append, List.map_append, List.filter_singleton]
  by_cases hplace : entry.slot = place <;> simp [hplace, sizesAt]

/-- Every counter shows the entries counted at its place. -/
structure Tallied (t : Table κ ι capacity) (entries : List (Entry ι)) : Prop where
  slots : ∀ i slot, t.slots[i]? = some slot →
    slot.counters = Counters.ofSizes (sizesAt (some i) entries)
  overflow : t.overflow = Counters.ofSizes (sizesAt none entries)
  placed : ∀ entry ∈ entries, ∀ i, entry.slot = some i → i < t.slots.length

/-- The slot of an entry carries the label of the entry. -/
def Labelled (t : Table κ ι capacity) (entries : List (Entry ι)) : Prop :=
  ∀ entry ∈ entries, ∀ i slot, entry.slot = some i → t.slots[i]? = some slot →
    slot.label = entry.label

/-- The slot of the key, if there is one, carries the label. -/
def Known (t : Table κ ι capacity) (key : κ) (label : ι) : Prop :=
  ∀ slot ∈ t.slots, slot.key = key → slot.label = label

theorem tallied_empty : (empty capacity : Table κ ι capacity).Tallied [] :=
  ⟨fun i slot hslot => by simp [empty] at hslot, rfl, by simp⟩

theorem tallied_reset (t : Table κ ι capacity) : t.reset.Tallied [] := by
  refine ⟨?_, rfl, by simp⟩
  intro i slot hslot
  rw [reset, List.getElem?_map, Option.map_eq_some_iff] at hslot
  rcases hslot with ⟨old, -, rfl⟩
  rfl

theorem getElem?_count (t : Table κ ι capacity) (i : Nat) (size : Nat) {j : Nat}
    {slot : Slot κ ι} (hslot : (t.count (some i) size).slots[j]? = some slot) :
    ∃ old, t.slots[j]? = some old ∧ slot.key = old.key ∧ slot.label = old.label ∧
      slot.counters = if i = j then old.counters.record size else old.counters := by
  rw [count, List.getElem?_modify] at hslot
  rcases Option.map_eq_some_iff.mp hslot with ⟨old, hold, rfl⟩
  by_cases hij : i = j <;> simp [hij, hold]

theorem length_count (t : Table κ ι capacity) (place : Option Nat) (size : Nat) :
    (t.count place size).slots.length = t.slots.length := by
  cases place with
  | none => rfl
  | some i => rw [count, List.length_modify]

theorem Tallied.located {t t' : Table κ ι capacity} {entries : List (Entry ι)} {key : κ}
    {label : ι} {place : Option Nat} (h : t.Tallied entries)
    (hlocated : Located t key label place t') : t'.Tallied entries := by
  refine ⟨?_, ?_, ?_⟩
  · intro i slot hslot
    rcases hlocated.getElem?_slots hslot with hold | ⟨hi, hnew⟩
    · exact h.slots i slot hold
    · have hnone : entries.filter (fun entry => entry.slot = some i) = [] := by
        rw [List.filter_eq_nil_iff]
        intro entry hmem hplace
        have hlt := h.placed entry hmem i (of_decide_eq_true hplace)
        omega
      rw [hnew, sizesAt, hnone]
      rfl
  · rw [hlocated.overflow]
    exact h.overflow
  · intro entry hmem i hi
    exact Nat.lt_of_lt_of_le (h.placed entry hmem i hi) hlocated.length_le

theorem Tallied.count {t : Table κ ι capacity} {entries : List (Entry ι)}
    (h : t.Tallied entries) (entry : Entry ι)
    (hplace : ∀ i, entry.slot = some i → i < t.slots.length) :
    (t.count entry.slot entry.size).Tallied (entries ++ [entry]) := by
  refine ⟨?_, ?_, ?_⟩
  · intro j slot hslot
    rw [sizesAt_concat]
    cases hentry : entry.slot with
    | none =>
        rw [hentry] at hslot
        rw [if_neg (by simp), List.append_nil]
        exact h.slots j slot hslot
    | some i =>
        rw [hentry] at hslot
        rcases getElem?_count t i entry.size hslot with ⟨old, hold, -, -, hcounters⟩
        rw [hcounters, h.slots j old hold]
        by_cases hij : i = j
        · rw [if_pos hij, if_pos (by rw [hij]), Counters.ofSizes_concat]
        · rw [if_neg hij, if_neg (by simpa using hij), List.append_nil]
  · rw [sizesAt_concat]
    cases hentry : entry.slot with
    | none =>
        rw [if_pos rfl, Counters.ofSizes_concat, ← h.overflow]
        rfl
    | some i =>
        rw [if_neg (by simp), List.append_nil, ← h.overflow]
        rfl
  · intro other hmem i hi
    rw [length_count]
    rcases List.mem_append.mp hmem with hold | hnew
    · exact h.placed other hold i hi
    · rw [List.mem_singleton] at hnew
      exact hplace i (hnew ▸ hi)

/-- One recorded entry: the place is found and the entry is counted there. -/
theorem Tallied.record [DecidableEq κ] {t : Table κ ι capacity} {entries : List (Entry ι)}
    (h : t.Tallied entries) (key : κ) (label : ι) (table size : Nat) :
    ((t.locate key label).2.count (t.locate key label).1 size).Tallied
      (entries ++ [⟨table, (t.locate key label).1, label, size⟩]) := by
  have hlocated := located_locate t key label
  apply (h.located hlocated).count ⟨table, (t.locate key label).1, label, size⟩
  intro i hi
  rcases hlocated.found i hi with ⟨slot, hslot, -⟩
  exact (List.getElem?_eq_some_iff.mp hslot).1

theorem Labelled.record [DecidableEq κ] {t : Table κ ι capacity} {entries : List (Entry ι)}
    (h : t.Labelled entries) (htallied : t.Tallied entries) {key : κ} {label : ι}
    (hknown : t.Known key label) (table size : Nat) :
    ((t.locate key label).2.count (t.locate key label).1 size).Labelled
      (entries ++ [⟨table, (t.locate key label).1, label, size⟩]) := by
  have hlocated := located_locate t key label
  intro entry hmem i slot hi hslot
  have hold : ∃ old, (t.locate key label).2.slots[i]? = some old ∧ slot.label = old.label := by
    cases hplace : (t.locate key label).1 with
    | none =>
        rw [hplace] at hslot
        exact ⟨slot, hslot, rfl⟩
    | some j =>
        rw [hplace] at hslot
        rcases getElem?_count _ j size hslot with ⟨old, hold, -, hlabel, -⟩
        exact ⟨old, hold, hlabel⟩
  rcases hold with ⟨old, hold, hlabel⟩
  rw [hlabel]
  rcases List.mem_append.mp hmem with hmem | hmem
  · rcases hlocated.getElem?_slots hold with hbefore | ⟨hi', -⟩
    · exact h entry hmem i old hi hbefore
    · have hlt := htallied.placed entry hmem i hi
      omega
  · rw [List.mem_singleton] at hmem
    subst hmem
    rcases hlocated.found i hi with ⟨found, hfound, hkey⟩
    rw [hold, Option.some.injEq] at hfound
    subst hfound
    rcases hlocated.getElem?_slots hold with hbefore | ⟨-, hnew⟩
    · exact hknown old (List.mem_of_getElem? hbefore) hkey
    · rw [hnew]

/-! ### The rows of a table -/

/-- A row for each counter that has counted something. -/
def rows {ρ : Type*} (slotRow : Slot κ ι → ρ) (overflowRow : Counters → ρ)
    (t : Table κ ι capacity) : List ρ :=
  (t.slots.flatMap fun slot => if slot.counters.records = 0 then [] else [slotRow slot]) ++
    if t.overflow.records = 0 then [] else [overflowRow t.overflow]

theorem Tallied.sharesOut {ρ : Type*} {slotRow : Slot κ ι → ρ} {overflowRow : Counters → ρ}
    {counters : ρ → Counters} {fits : ρ → Entry ι → Prop} {t : Table κ ι capacity}
    {entries : List (Entry ι)} (h : t.Tallied entries)
    (hslot : ∀ slot, counters (slotRow slot) = slot.counters)
    (hoverflow : ∀ c, counters (overflowRow c) = c)
    (hfits : ∀ entry ∈ entries, ∀ i slot, entry.slot = some i → t.slots[i]? = some slot →
      fits (slotRow slot) entry)
    (hother : ∀ entry ∈ entries, entry.slot = none → fits (overflowRow t.overflow) entry) :
    SharesOut counters Entry.size fits (t.rows slotRow overflowRow) entries := by
  have hslots : SharesOut counters Entry.size fits
      (t.slots.flatMap fun slot => if slot.counters.records = 0 then [] else [slotRow slot])
      (entries.filter fun entry => entry.slot.isSome) := by
    have hindexed : (t.slots.flatMap fun slot =>
        if slot.counters.records = 0 then [] else [slotRow slot]) =
          t.slots.zipIdx.flatMap fun cell =>
            if (counters (slotRow cell.1)).records = 0 then [] else [slotRow cell.1] := by
      conv_lhs => rw [← List.zipIdx_map_fst 0 t.slots, List.flatMap_map]
      simp only [hslot]
    rw [hindexed]
    apply SharesOut.flatMap (fun cell => some cell.2) Entry.slot
    · have hplaces : (t.slots.zipIdx.map fun cell => some cell.2) =
          (t.slots.zipIdx.map Prod.snd).map some := by
        rw [List.map_map]
        rfl
      rw [hplaces, List.zipIdx_map_snd]
      exact List.Nodup.map (fun _ _ h => Option.some.inj h) List.nodup_range'
    · intro entry hmem
      rw [List.mem_filter] at hmem
      rcases Option.isSome_iff_exists.mp hmem.2 with ⟨i, hi⟩
      have hlt := h.placed entry hmem.1 i hi
      rw [hi, List.mem_map]
      exact ⟨(t.slots[i], i), List.mk_mem_zipIdx_iff_getElem?.mpr
        (List.getElem?_eq_getElem hlt), rfl⟩
    · rintro ⟨slot, i⟩ hcell
      rw [List.mk_mem_zipIdx_iff_getElem?] at hcell
      have hsome : (entries.filter fun entry => entry.slot.isSome).filter
          (fun entry => entry.slot = some i) =
            entries.filter fun entry => entry.slot = some i := by
        rw [List.filter_filter]
        apply List.filter_congr
        intro entry _
        cases entry.slot <;> simp
      rw [hsome]
      apply SharesOut.ofRow
      · rw [hslot, h.slots i slot hcell]
        rfl
      · intro entry hmem
        rw [List.mem_filter, decide_eq_true_eq] at hmem
        exact hfits entry hmem.1 i slot hmem.2 hcell
  have hrest : SharesOut counters Entry.size fits
      (if t.overflow.records = 0 then [] else [overflowRow t.overflow])
      (entries.filter fun entry => !entry.slot.isSome) := by
    have hnone : (entries.filter fun entry => !entry.slot.isSome) =
        entries.filter fun entry => entry.slot = none := by
      apply List.filter_congr
      intro entry _
      cases entry.slot <;> simp
    have hrow : SharesOut counters Entry.size fits
        (if (counters (overflowRow t.overflow)).records = 0 then []
        else [overflowRow t.overflow])
        (entries.filter fun entry => entry.slot = none) := by
      apply SharesOut.ofRow
      · rw [hoverflow, h.overflow]
        rfl
      · intro entry hmem
        rw [List.mem_filter, decide_eq_true_eq] at hmem
        exact hother entry hmem.1 hmem.2
    rwa [hoverflow, ← hnone] at hrow
  exact (hslots.append hrest).perm (List.filter_append_perm _ _)

/-! ### Several tables -/

section Tables

variable {tables : List (Table κ ι capacity)} {entries : List (Entry ι)}

/-- Each table shows the entries that name it. -/
structure AllTallied (tables : List (Table κ ι capacity)) (entries : List (Entry ι)) : Prop where
  tallied : ∀ (i : Nat) (t : Table κ ι capacity), tables[i]? = some t →
    t.Tallied (entries.filter fun entry => entry.table = i)
  named : ∀ entry ∈ entries, entry.table < tables.length

def AllLabelled (tables : List (Table κ ι capacity)) (entries : List (Entry ι)) : Prop :=
  ∀ (i : Nat) (t : Table κ ι capacity), tables[i]? = some t →
    t.Labelled (entries.filter fun entry => entry.table = i)

theorem allTallied_nil : AllTallied ([] : List (Table κ ι capacity)) [] :=
  ⟨fun i t ht => by simp at ht, by simp⟩

theorem allLabelled_nil (tables : List (Table κ ι capacity)) : AllLabelled tables [] := by
  intro i t _ entry hmem
  cases hmem

theorem allTallied_reset (tables : List (Table κ ι capacity)) :
    AllTallied (tables.map reset) [] := by
  refine ⟨?_, by simp⟩
  intro i t ht
  rw [List.getElem?_map, Option.map_eq_some_iff] at ht
  rcases ht with ⟨old, -, rfl⟩
  exact tallied_reset old

theorem filter_table_of_named (h : ∀ entry ∈ entries, entry.table < tables.length) :
    entries.filter (fun entry => entry.table = tables.length) = [] := by
  rw [List.filter_eq_nil_iff]
  intro entry hmem htable
  exact Nat.ne_of_lt (h entry hmem) (of_decide_eq_true htable)

/-- A table of a site that is new. -/
theorem getElem?_concat_empty {i : Nat} {t : Table κ ι capacity}
    (ht : (tables ++ [empty capacity])[i]? = some t) :
    tables[i]? = some t ∨ i = tables.length ∧ t = empty capacity := by
  rw [List.getElem?_append] at ht
  split at ht
  next => exact Or.inl ht
  next hlarge =>
    rw [List.getElem?_singleton] at ht
    split at ht
    next =>
      rw [Option.some.injEq] at ht
      exact Or.inr ⟨by omega, ht.symm⟩
    next => cases ht

theorem AllTallied.concat_empty (h : AllTallied tables entries) :
    AllTallied (tables ++ [empty capacity]) entries := by
  refine ⟨?_, ?_⟩
  · intro i t ht
    rcases getElem?_concat_empty ht with hold | ⟨rfl, rfl⟩
    · exact h.tallied i t hold
    · rw [filter_table_of_named h.named]
      exact tallied_empty
  · intro entry hmem
    have hlt := h.named entry hmem
    rw [List.length_append]
    omega

theorem AllLabelled.concat_empty (h : AllLabelled tables entries)
    (htallied : AllTallied tables entries) :
    AllLabelled (tables ++ [empty capacity]) entries := by
  intro i t ht
  rcases getElem?_concat_empty ht with hold | ⟨rfl, rfl⟩
  · exact h i t hold
  · rw [filter_table_of_named htallied.named]
    intro entry hmem
    cases hmem

theorem filter_table_concat (i : Nat) (entries : List (Entry ι)) (entry : Entry ι) :
    (entries ++ [entry]).filter (fun entry => entry.table = i) =
      entries.filter (fun entry => entry.table = i) ++
        if entry.table = i then [entry] else [] := by
  rw [List.filter_append, List.filter_singleton]
  by_cases hi : entry.table = i <;> simp [hi]

theorem getElem?_set_cases {σ : Type*} {l : List σ} {i j : Nat} {old new x : σ}
    (hi : l[i]? = some old) (h : (l.set i new)[j]? = some x) :
    (i = j ∧ x = new) ∨ (i ≠ j ∧ l[j]? = some x) := by
  rw [List.getElem?_set] at h
  by_cases hij : i = j
  · rw [if_pos hij, if_pos (List.getElem?_eq_some_iff.mp hi).1, Option.some.injEq] at h
    exact .inl ⟨hij, h.symm⟩
  · rw [if_neg hij] at h
    exact .inr ⟨hij, h⟩

theorem AllTallied.record [DecidableEq κ] (h : AllTallied tables entries) {i : Nat}
    {t : Table κ ι capacity} (ht : tables[i]? = some t) (key : κ) (label : ι) (size : Nat) :
    AllTallied (tables.set i ((t.locate key label).2.count (t.locate key label).1 size))
      (entries ++ [⟨i, (t.locate key label).1, label, size⟩]) := by
  refine ⟨?_, ?_⟩
  · intro j t' ht'
    rw [filter_table_concat]
    rcases getElem?_set_cases ht ht' with ⟨rfl, rfl⟩ | ⟨hij, hold⟩
    · rw [if_pos rfl]
      exact (h.tallied i t ht).record key label i size
    · rw [if_neg hij, List.append_nil]
      exact h.tallied j t' hold
  · intro entry hmem
    rw [List.length_set]
    rcases List.mem_append.mp hmem with hold | hnew
    · exact h.named entry hold
    · rw [List.mem_singleton] at hnew
      subst hnew
      exact (List.getElem?_eq_some_iff.mp ht).1

theorem AllLabelled.record [DecidableEq κ] (h : AllLabelled tables entries)
    (htallied : AllTallied tables entries) {i : Nat} {t : Table κ ι capacity}
    (ht : tables[i]? = some t) {key : κ} {label : ι} (hknown : t.Known key label) (size : Nat) :
    AllLabelled (tables.set i ((t.locate key label).2.count (t.locate key label).1 size))
      (entries ++ [⟨i, (t.locate key label).1, label, size⟩]) := by
  intro j t' ht'
  rw [filter_table_concat]
  rcases getElem?_set_cases ht ht' with ⟨rfl, rfl⟩ | ⟨hij, hold⟩
  · rw [if_pos rfl]
    exact (h i t ht).record (htallied.tallied i t ht) hknown i size
  · rw [if_neg hij, List.append_nil]
    exact h j t' hold

/-- The rows of all tables share the entries out. -/
theorem AllTallied.sharesOut {σ ρ : Type*} {sites : List σ} {table : σ → Table κ ι capacity}
    {slotRow : σ → Slot κ ι → ρ} {overflowRow : σ → Counters → ρ} {counters : ρ → Counters}
    {fits : ρ → Entry ι → Prop} (h : AllTallied (sites.map table) entries)
    (hslot : ∀ site slot, counters (slotRow site slot) = slot.counters)
    (hoverflow : ∀ site c, counters (overflowRow site c) = c)
    (hfits : ∀ entry ∈ entries, ∀ site, sites[entry.table]? = some site → ∀ i slot,
      entry.slot = some i → (table site).slots[i]? = some slot → fits (slotRow site slot) entry)
    (hother : ∀ entry ∈ entries, entry.slot = none → ∀ site c,
      fits (overflowRow site c) entry) :
    SharesOut counters Entry.size fits
      (sites.flatMap fun site => (table site).rows (slotRow site) (overflowRow site))
      entries := by
  have hindexed : (sites.flatMap fun site =>
      (table site).rows (slotRow site) (overflowRow site)) =
        sites.zipIdx.flatMap fun cell =>
          (table cell.1).rows (slotRow cell.1) (overflowRow cell.1) := by
    conv_lhs => rw [← List.zipIdx_map_fst 0 sites, List.flatMap_map]
  rw [hindexed]
  apply SharesOut.flatMap Prod.snd Entry.table
  · rw [List.zipIdx_map_snd]
    exact List.nodup_range'
  · intro entry hmem
    have hlt := h.named entry hmem
    rw [List.length_map] at hlt
    exact List.mem_map.mpr ⟨(sites[entry.table], entry.table),
      List.mk_mem_zipIdx_iff_getElem?.mpr (List.getElem?_eq_getElem hlt), rfl⟩
  · rintro ⟨site, i⟩ hcell
    rw [List.mk_mem_zipIdx_iff_getElem?] at hcell
    have htallied : (table site).Tallied (entries.filter fun entry => entry.table = i) :=
      h.tallied i _ (by rw [List.getElem?_map, hcell]; rfl)
    apply htallied.sharesOut (hslot site) (hoverflow site)
    · intro entry hmem
      rw [List.mem_filter, decide_eq_true_eq] at hmem
      exact hfits entry hmem.1 site (hmem.2 ▸ hcell)
    · intro entry hmem hnone
      rw [List.mem_filter] at hmem
      exact hother entry hmem.1 hnone site _

/-- With the labels of the slots, each row shows the label of what it counts. -/
theorem AllTallied.sharesOut_shown {σ ρ : Type*} {sites : List σ}
    {table : σ → Table κ ι capacity} {row : σ → ι → Counters → ρ} {counters : ρ → Counters}
    {label : ρ → ι} {other : ι} (h : AllTallied (sites.map table) entries)
    (hlabelled : AllLabelled (sites.map table) entries)
    (hcounters : ∀ site l c, counters (row site l c) = c)
    (hlabel : ∀ site l c, label (row site l c) = l) :
    SharesOut counters Entry.size (fun row entry => label row = entry.shown other)
      (sites.flatMap fun site =>
        (table site).rows (fun slot => row site slot.label slot.counters) (row site other))
      entries := by
  apply h.sharesOut
  · exact fun site slot => hcounters site slot.label slot.counters
  · exact fun site c => hcounters site other c
  · intro entry hmem site hsite i slot hi hslot
    have htable : (sites.map table)[entry.table]? = some (table site) := by
      rw [List.getElem?_map, hsite]
      rfl
    rw [hlabel, Entry.shown, hi, if_pos (by rfl)]
    apply hlabelled entry.table _ htable entry _ i slot hi hslot
    rw [List.mem_filter]
    exact ⟨hmem, decide_eq_true rfl⟩
  · intro entry _ hnone site c
    rw [hlabel, Entry.shown, hnone]
    rfl

end Tables

end Table
end SlotTable
