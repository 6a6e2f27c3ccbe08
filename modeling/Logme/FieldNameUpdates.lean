import Logme.ConfigSections
import Logme.Library.StepSystem
import Logme.Library.Threads

/-!
# Concurrent updates of the output field names

`CurrentFieldNames` points to an immutable table.  A setter loads the pointer,
copies the table, edits the copy and stores a pointer to it.  The load and the
store are atomic, what lies between them is not: the system below interleaves
the loads and stores of any number of calls.
-/

namespace Logme

open StepSystem
open Threads (forall_update)

/-- The enumerators, by which a caller names a field. -/
def OutputField.value : OutputField → Int
  | .timestamp => 0
  | .level => 1
  | .processId => 2
  | .threadId => 3
  | .channel => 4
  | .subsystem => 5
  | .file => 6
  | .line => 7
  | .method => 8
  | .message => 9
  | .duration => 10

def OUTPUT_FIELD_COUNT : Int := 11

def isValidField (field : Int) : Bool :=
  decide (field ≥ 0 ∧ field < OUTPUT_FIELD_COUNT)

/-- A call with its arguments; a null name is `none`. -/
inductive FieldNameCall where
  | setOutputFieldName (field : Int) (name : Option Name)
  | setOutputFieldNames (names : Int → Option Name)

namespace FieldNameCall

/-- The calls that return before they load the table. -/
def returnsAtOnce : FieldNameCall → Bool
  | .setOutputFieldName field name =>
      !isValidField field || name == none || name == some []
  | .setOutputFieldNames _ => false

/-- The copy of `current` as the call stores it.  The table has an entry for
the valid fields only. -/
def updated (call : FieldNameCall) (current : OutputFieldNames) :
    OutputFieldNames :=
  match call with
  | .setOutputFieldName field name => fun f =>
      if f.value = field then name.getD [] else current f
  | .setOutputFieldNames names =>
      Logme.setOutputFieldNames (fun f => names f.value) current

/-- The name that the call gives to a field. -/
def sets (call : FieldNameCall) (field : OutputField) : Option Name :=
  match call with
  | .setOutputFieldName f name =>
      if field.value = f then name.filter fun n => n ≠ [] else none
  | .setOutputFieldNames names => (names field.value).filter fun n => n ≠ []

/-! ## What a call does to one field -/

theorem isValidField_value (field : OutputField) :
    isValidField field.value = true := by
  cases field <;> decide

theorem sets_of_returnsAtOnce {call : FieldNameCall}
    (h : call.returnsAtOnce = true) (field : OutputField) :
    call.sets field = none := by
  cases call with
  | setOutputFieldName f name =>
      simp only [returnsAtOnce, Bool.or_eq_true, Bool.not_eq_true',
        beq_iff_eq] at h
      by_cases hf : field.value = f
      · subst hf
        rw [isValidField_value] at h
        rcases h with (h | rfl) | rfl
        · contradiction
        · simp [sets]
        · simp [sets]
      · simp [sets, hf]
  | setOutputFieldNames names => simp [returnsAtOnce] at h

theorem updated_apply {call : FieldNameCall} (h : call.returnsAtOnce = false)
    (current : OutputFieldNames) (field : OutputField) :
    call.updated current field = (call.sets field).getD (current field) := by
  cases call with
  | setOutputFieldName f name =>
      simp only [returnsAtOnce, Bool.or_eq_false_iff, beq_eq_false_iff_ne] at h
      obtain ⟨⟨-, hnull⟩, hempty⟩ := h
      cases name with
      | none => exact absurd rfl hnull
      | some n =>
          have hn : n ≠ [] := fun hn => hempty (congrArg some hn)
          by_cases hf : field.value = f <;>
            simp [updated, sets, hf, hn, Option.filter]
  | setOutputFieldNames names =>
      simp only [updated, sets, Logme.setOutputFieldNames]
      cases names field.value with
      | none => rfl
      | some n => by_cases hn : n = [] <;> simp [hn, Option.filter]

end FieldNameCall

/-- The atomic operation that a call performs next. -/
inductive FieldNamePc where
  | load
  | store (current : OutputFieldNames)
  | returned

structure FieldNameState (κ : Type) where
  currentFieldNames : OutputFieldNames
  pc : κ → FieldNamePc

namespace FieldNameState

variable {κ : Type}

def start (names : OutputFieldNames) : FieldNameState κ where
  currentFieldNames := names
  pc := fun _ => .load

variable [DecidableEq κ]

/-- The next atomic operation of a call. -/
def step (calls : κ → FieldNameCall) (s : FieldNameState κ) (c : κ) :
    Option (FieldNameState κ) :=
  match s.pc c with
  | .load =>
      if (calls c).returnsAtOnce then
        some { s with pc := Function.update s.pc c .returned }
      else
        some { s with
          pc := Function.update s.pc c (.store s.currentFieldNames) }
  | .store current =>
      some {
        currentFieldNames := (calls c).updated current
        pc := Function.update s.pc c .returned }
  | .returned => none

/-- A store finds the table that its call has loaded. -/
def Undisturbed (s : FieldNameState κ) (c : κ) : Prop :=
  ∀ current, s.pc c = .store current → s.currentFieldNames = current

/-- No field is named by two calls. -/
def DistinctFields (calls : κ → FieldNameCall) : Prop :=
  ∀ c d field, ((calls c).sets field).isSome → ((calls d).sets field).isSome →
    c = d

/-- The fields of the calls that have returned have their names, and the others
the names from the start. -/
structure Kept (calls : κ → FieldNameCall) (names : OutputFieldNames)
    (s : FieldNameState κ) : Prop where
  named : ∀ c field name, s.pc c = .returned →
    (calls c).sets field = some name → s.currentFieldNames field = name
  others : ∀ field, (∀ c, s.pc c = .returned → (calls c).sets field = none) →
    s.currentFieldNames field = names field

/-- The calls that return at once never come to a store. -/
def Storing (calls : κ → FieldNameCall) (s : FieldNameState κ) : Prop :=
  ∀ c current, s.pc c = .store current → (calls c).returnsAtOnce = false

/-- What one operation does. -/
inductive FieldNameStep (calls : κ → FieldNameCall) (s t : FieldNameState κ)
    (c : κ) : Prop
  | ignored (hpc : s.pc c = .load) (hsets : ∀ field, (calls c).sets field = none)
      (hnext : t.pc = Function.update s.pc c .returned)
      (hsame : t.currentFieldNames = s.currentFieldNames)
  | loaded (hpc : s.pc c = .load) (hgoes : (calls c).returnsAtOnce = false)
      (hnext : t.pc = Function.update s.pc c (.store s.currentFieldNames))
      (hsame : t.currentFieldNames = s.currentFieldNames)
  | stored (current : OutputFieldNames) (hpc : s.pc c = .store current)
      (hnext : t.pc = Function.update s.pc c .returned)
      (hnames : ∀ field, t.currentFieldNames field =
        ((calls c).sets field).getD (current field))

variable {calls : κ → FieldNameCall} {names : OutputFieldNames}
  {s t : FieldNameState κ} {c : κ}

theorem step_cases (hstoring : s.Storing calls) (h : s.step calls c = some t) :
    FieldNameStep calls s t c := by
  unfold step at h
  cases hpc : s.pc c with
  | load =>
      simp only [hpc] at h
      split at h
      next honce =>
        rw [Option.some.injEq] at h
        subst h
        exact .ignored hpc (FieldNameCall.sets_of_returnsAtOnce honce) rfl rfl
      next hgoes =>
        rw [Option.some.injEq] at h
        subst h
        exact .loaded hpc (Bool.not_eq_true _ ▸ hgoes) rfl rfl
  | store current =>
      simp only [hpc, Option.some.injEq] at h
      subst h
      exact .stored current hpc rfl
        (FieldNameCall.updated_apply (hstoring c current hpc) current)
  | returned => simp [hpc] at h

/-- A table that is to be stored has been loaded before or in this step. -/
theorem store_of_step (hstep : FieldNameStep calls s t c) {d : κ}
    {current : OutputFieldNames} (hd : t.pc d = .store current) :
    s.pc d = .store current ∨
      (current = s.currentFieldNames ∧ (calls d).returnsAtOnce = false ∧
        t.currentFieldNames = s.currentFieldNames) := by
  by_cases hdc : d = c
  · subst d
    cases hstep with
    | ignored _ _ hnext _ => simp [hnext] at hd
    | loaded _ hgoes hnext hsame =>
        rw [hnext, Function.update_self, FieldNamePc.store.injEq] at hd
        exact .inr ⟨hd.symm, hgoes, hsame⟩
    | stored _ _ hnext _ => simp [hnext] at hd
  · left
    cases hstep with
    | ignored _ _ hnext _ => rwa [hnext, Function.update_of_ne hdc] at hd
    | loaded _ _ hnext _ => rwa [hnext, Function.update_of_ne hdc] at hd
    | stored _ _ hnext _ => rwa [hnext, Function.update_of_ne hdc] at hd

theorem returned_of_step (hstep : FieldNameStep calls s t c) {d : κ}
    (hdc : d ≠ c) : t.pc d = .returned ↔ s.pc d = .returned := by
  cases hstep with
  | ignored _ _ hnext _ => rw [hnext, Function.update_of_ne hdc]
  | loaded _ _ hnext _ => rw [hnext, Function.update_of_ne hdc]
  | stored _ _ hnext _ => rw [hnext, Function.update_of_ne hdc]

theorem returned_ne (hstep : FieldNameStep calls s t c) {d : κ}
    (hd : s.pc d = .returned) : d ≠ c := by
  rintro rfl
  cases hstep with
  | ignored hpc _ _ _ => simp [hd] at hpc
  | loaded hpc _ _ _ => simp [hd] at hpc
  | stored _ hpc _ _ => simp [hd] at hpc

theorem step_storing (hstoring : s.Storing calls)
    (h : s.step calls c = some t) : t.Storing calls := by
  intro d current hd
  rcases store_of_step (step_cases hstoring h) hd with hd | ⟨-, hgoes, -⟩
  · exact hstoring d current hd
  · exact hgoes

omit [DecidableEq κ] in
theorem start_storing : (start names : FieldNameState κ).Storing calls := by
  intro c current h
  simp [start] at h

/-! ## Runs in which no store is disturbed -/

omit [DecidableEq κ] in
theorem start_kept : (start names : FieldNameState κ).Kept calls names where
  named := by simp [start]
  others := fun _ _ => rfl

omit [DecidableEq κ] in
theorem DistinctFields.sets_eq_none (h : DistinctFields calls) {c d : κ}
    {field : OutputField} {name : Name} (hne : d ≠ c)
    (hd : (calls d).sets field = some name) : (calls c).sets field = none := by
  rw [← Option.not_isSome_iff_eq_none]
  intro hc
  exact hne (h d c field (by simp [hd]) hc)

omit [DecidableEq κ] in
/-- A step that stores nothing and lets no call return that names a field. -/
theorem Kept.of_same (h : s.Kept calls names)
    (hsame : t.currentFieldNames = s.currentFieldNames)
    (hreturned : ∀ d, s.pc d = .returned → t.pc d = .returned)
    (hnamed : ∀ d field name, t.pc d = .returned →
      (calls d).sets field = some name → s.pc d = .returned) :
    t.Kept calls names where
  named := by
    intro d field name hd hname
    rw [hsame]
    exact h.named d field name (hnamed d field name hd hname) hname
  others := by
    intro field hall
    rw [hsame]
    exact h.others field fun d hd => hall d (hreturned d hd)

theorem Kept.step (hdistinct : DistinctFields calls) (h : s.Kept calls names)
    (hstep : FieldNameStep calls s t c) (hundisturbed : s.Undisturbed c) :
    t.Kept calls names := by
  have hreturned : ∀ d, s.pc d = .returned → t.pc d = .returned := fun d hd =>
    (returned_of_step hstep (returned_ne hstep hd)).mpr hd
  cases hcase : hstep with
  | ignored hpc hsets hnext hsame =>
      apply h.of_same hsame hreturned
      intro d field name hd hname
      have hdc : d ≠ c := by
        rintro rfl
        simp [hsets] at hname
      exact (returned_of_step hstep hdc).mp hd
  | loaded hpc hgoes hnext hsame =>
      apply h.of_same hsame hreturned
      intro d field name hd hname
      have hdc : d ≠ c := by
        rintro rfl
        simp [hnext] at hd
      exact (returned_of_step hstep hdc).mp hd
  | stored current hpc hnext hnames =>
      rw [← hundisturbed current hpc] at hnames
      constructor
      · intro d field name hd hname
        rw [hnames]
        by_cases hdc : d = c
        · rw [← hdc, hname, Option.getD_some]
        · rw [hdistinct.sets_eq_none hdc hname, Option.getD_none]
          exact h.named d field name ((returned_of_step hstep hdc).mp hd) hname
      · intro field hall
        rw [hnames, hall c (by rw [hnext, Function.update_self]),
          Option.getD_none]
        exact h.others field fun d hd => hall d (hreturned d hd)

theorem storing_of_run {ok : FieldNameState κ → κ → Prop}
    (h : Run (step calls) ok (start names) s) : s.Storing calls :=
  h.invariant (fun _ _ _ hs _ hstep => step_storing hs hstep) start_storing

theorem kept_of_run (hdistinct : DistinctFields calls)
    (h : Run (step calls) Undisturbed (start names) s) : s.Kept calls names := by
  induction h with
  | refl => exact start_kept
  | snoc before hok hlast ih =>
      exact ih.step hdistinct (step_cases (storing_of_run before) hlast) hok

/-! ## What a disturbed store loses -/

/-- A call that has returned has a field without its name in the table. -/
def Misses (calls : κ → FieldNameCall) (s : FieldNameState κ)
    (table : OutputFieldNames) : Prop :=
  ∃ c field name, s.pc c = .returned ∧ (calls c).sets field = some name ∧
    table field ≠ name

/-- Every name of a table is from the start or from a call that has returned. -/
def Traced (calls : κ → FieldNameCall) (names : OutputFieldNames)
    (s : FieldNameState κ) (table : OutputFieldNames) : Prop :=
  ∀ field, table field = names field ∨
    ∃ c, s.pc c = .returned ∧ (calls c).sets field = some (table field)

/-- The table in force and those that calls are about to store. -/
def Tables (s : FieldNameState κ) (P : OutputFieldNames → Prop) : Prop :=
  P s.currentFieldNames ∧ ∀ c current, s.pc c = .store current → P current

/-- Every call that stores a table renames a field. -/
def AllRename (calls : κ → FieldNameCall) (names : OutputFieldNames) : Prop :=
  ∀ c, (calls c).returnsAtOnce = false →
    ∃ field name, (calls c).sets field = some name ∧ name ≠ names field

theorem Tables.step {P Q : OutputFieldNames → Prop} (h : s.Tables P)
    (hstep : FieldNameStep calls s t c) (hlater : ∀ table, P table → Q table)
    (hstored : ∀ current, s.pc c = .store current → P current →
      (∀ field, t.currentFieldNames field =
        ((calls c).sets field).getD (current field)) →
      t.pc c = .returned → Q t.currentFieldNames) : t.Tables Q := by
  constructor
  · cases hstep with
    | ignored _ _ _ hsame => exact hsame ▸ hlater _ h.1
    | loaded _ _ _ hsame => exact hsame ▸ hlater _ h.1
    | stored current hpc hnext hnames =>
        exact hstored current hpc (h.2 c current hpc) hnames
          (by rw [hnext, Function.update_self])
  · intro d current hd
    rcases store_of_step hstep hd with hd | ⟨rfl, -, -⟩
    · exact hlater current (h.2 d current hd)
    · exact hlater _ h.1

theorem Misses.later {table : OutputFieldNames} (h : s.Misses calls table)
    (hstep : FieldNameStep calls s t c) : t.Misses calls table := by
  obtain ⟨d, field, name, hd, hname, hne⟩ := h
  have hd' := (returned_of_step hstep (returned_ne hstep hd)).mpr hd
  exact ⟨d, field, name, hd', hname, hne⟩

/-- The copy of a table that misses a name misses it too. -/
theorem Misses.stored (hdistinct : DistinctFields calls)
    {current : OutputFieldNames} (h : s.Misses calls current)
    (hstep : FieldNameStep calls s t c)
    (hnames : ∀ field, t.currentFieldNames field =
      ((calls c).sets field).getD (current field)) :
    t.Misses calls t.currentFieldNames := by
  obtain ⟨d, field, name, hd, hname, hne⟩ := h
  have hdc := returned_ne hstep hd
  refine ⟨d, field, name, (returned_of_step hstep hdc).mpr hd, hname, ?_⟩
  rw [hnames, hdistinct.sets_eq_none hdc hname]
  exact hne

theorem Traced.later {table : OutputFieldNames} (h : s.Traced calls names table)
    (hstep : FieldNameStep calls s t c) : t.Traced calls names table := by
  intro field
  rcases h field with hfield | ⟨d, hd, hname⟩
  · exact .inl hfield
  · exact .inr ⟨d, (returned_of_step hstep (returned_ne hstep hd)).mpr hd, hname⟩

theorem traced_of_run {ok : FieldNameState κ → κ → Prop}
    (h : Run (step calls) ok (start names) s) :
    s.Tables (s.Traced calls names) := by
  induction h with
  | refl =>
      refine ⟨fun _ => .inl rfl, fun c current hc => ?_⟩
      simp [start] at hc
  | snoc before hok hlast ih =>
      have hstep := step_cases (storing_of_run before) hlast
      apply ih.step hstep fun table htable => htable.later hstep
      intro current hpc htable hnames hreturned field
      rw [hnames]
      cases hname : (calls _).sets field with
      | none => exact htable.later hstep field
      | some name => exact .inr ⟨_, hreturned, hname⟩

theorem misses_step (hdistinct : DistinctFields calls)
    (h : s.Tables (s.Misses calls)) (hstep : FieldNameStep calls s t c) :
    t.Tables (t.Misses calls) :=
  h.step hstep (fun _ htable => htable.later hstep)
    fun _ _ hmisses hnames _ => hmisses.stored hdistinct hstep hnames

/-- The first disturbed store loses a name, and no table that is still to be
stored has all names. -/
theorem misses_of_disturbed (hdistinct : DistinctFields calls)
    (hrename : AllRename calls names) (hkept : s.Kept calls names)
    (htraced : s.Tables (s.Traced calls names)) (hstoring : s.Storing calls)
    (hstep : FieldNameStep calls s t c) (hdisturbed : ¬ s.Undisturbed c) :
    t.Tables (t.Misses calls) := by
  obtain ⟨current, hcurrent⟩ := Classical.not_forall.mp hdisturbed
  obtain ⟨hpc, hne⟩ := Classical.not_imp.mp hcurrent
  obtain ⟨field, hfield⟩ := Function.ne_iff.mp hne
  have hmisses : s.Misses calls current := by
    have hold : current field = names field := by
      rcases htraced.2 c current hpc field with hold | ⟨d, hd, hname⟩
      · exact hold
      · exact absurd (hkept.named d field _ hd hname) hfield
    by_contra hnone
    apply hfield
    rw [hold]
    apply hkept.others field
    intro d hd
    cases hname : (calls d).sets field with
    | none => rfl
    | some name =>
        have hcurrent := hkept.named d field name hd hname
        exact absurd ⟨d, field, name, hd, hname, hcurrent ▸ hfield.symm⟩ hnone
  cases hcase : hstep with
  | ignored hload _ _ _ => simp [hload] at hpc
  | loaded hload _ _ _ => simp [hload] at hpc
  | stored current' hpc' hnext hnames =>
      rw [hpc, FieldNamePc.store.injEq] at hpc'
      subst current'
      refine ⟨hmisses.stored hdistinct hstep hnames, ?_⟩
      intro d table hd
      have hdc : d ≠ c := by
        rintro rfl
        simp [hnext] at hd
      rw [hnext, Function.update_of_ne hdc] at hd
      obtain ⟨own, name, hname, hrenamed⟩ := hrename c (hstoring c current hpc)
      refine ⟨c, own, name, by rw [hnext, Function.update_self], hname, ?_⟩
      rcases htraced.2 d table hd own with hold | ⟨e, he, hother⟩
      · rw [hold]
        exact hrenamed.symm
      · have hnone := hdistinct.sets_eq_none (returned_ne hstep he) hother
        simp [hname] at hnone

/-- No name is lost when every store finds the table that its call loaded; and
when every call renames a field, a run in which one does not loses a name. -/
theorem fieldNames_kept (hdistinct : DistinctFields calls) :
    (∀ s, Run (step calls) Undisturbed (start names) s → s.Kept calls names) ∧
      (AllRename calls names → ∀ s, Reachable (step calls) (start names) s →
        s.Kept calls names → Run (step calls) Undisturbed (start names) s) := by
  refine ⟨fun s h => kept_of_run hdistinct h, fun hrename s h hkept => ?_⟩
  have hsplit : Run (step calls) Undisturbed (start names) s ∨
      s.Tables (s.Misses calls) := by
    clear hkept
    induction h with
    | refl => exact .inl .refl
    | @snoc s t c before hok hlast ih =>
        have hstep := step_cases (storing_of_run before) hlast
        rcases ih with hrun | hmisses
        · by_cases hundisturbed : s.Undisturbed c
          · exact .inl (hrun.snoc hundisturbed hlast)
          · exact .inr (misses_of_disturbed hdistinct hrename
              (kept_of_run hdistinct hrun) (traced_of_run before)
              (storing_of_run before) hstep hundisturbed)
        · exact .inr (misses_step hdistinct hmisses hstep)
  rcases hsplit with hrun | ⟨⟨c, field, name, hc, hname, hne⟩, -⟩
  · exact hrun
  · exact absurd (hkept.named c field name hc hname) hne

def messageAndLevel (c : Bool) : FieldNameCall :=
  if c then .setOutputFieldName 9 (some (ascii "msg"))
  else .setOutputFieldName 1 (some (ascii "lvl"))

theorem messageAndLevel_distinct : DistinctFields messageAndLevel := by
  rintro (_ | _) (_ | _) (_ | _ | _ | _ | _ | _ | _ | _ | _ | _ | _) <;> decide

theorem fieldNames_kept_one_by_one :
    ∃ s, Run (step messageAndLevel) Undisturbed (start defaultFieldNames) s ∧
      s.Kept messageAndLevel defaultFieldNames ∧
      s.currentFieldNames .message = ascii "msg" ∧
      s.currentFieldNames .level = ascii "lvl" := by
  have hload : ∀ {s : FieldNameState Bool} {c}, s.pc c = .load →
      s.Undisturbed c := by
    intro s c h current hstore
    simp [h] at hstore
  have hstored : ∀ {s : FieldNameState Bool} {c},
      s.pc c = .store s.currentFieldNames → s.Undisturbed c := by
    intro s c h current hstore
    rw [h] at hstore
    exact FieldNamePc.store.inj hstore
  have hrun : Run (step messageAndLevel) Undisturbed
      (start defaultFieldNames) _ :=
    (((Run.refl.snoc (a := true) (hload rfl) rfl).snoc (a := true)
      (hstored rfl) rfl).snoc (a := false) (hload rfl) rfl).snoc (a := false)
        (hstored rfl) rfl
  exact ⟨_, hrun, (fieldNames_kept messageAndLevel_distinct).1 _ hrun, rfl, rfl⟩

/-- Both calls load the table before one of them stores. -/
theorem overlapping_calls_lose_a_name :
    DistinctFields messageAndLevel ∧
      ¬ ∀ s, Reachable (step messageAndLevel) (start defaultFieldNames) s →
        (∀ c, s.pc c = .returned) →
          s.Kept messageAndLevel defaultFieldNames := by
  refine ⟨messageAndLevel_distinct, fun hall => ?_⟩
  have hreach : Reachable (step messageAndLevel) (start defaultFieldNames) _ :=
    reachable_of_exec [true, false, true, false] rfl
  have hkept := hall _ hreach (by rintro (_ | _) <;> rfl)
  have hmessage := hkept.named true .message (ascii "msg") rfl rfl
  exact absurd hmessage (by decide)

end FieldNameState

end Logme
