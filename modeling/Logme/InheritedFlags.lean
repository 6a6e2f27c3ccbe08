import Logme.ConfigSections
import Mathlib.Data.List.Pairwise

/-!
# Inherited flags

A named set of flags starts with all flags at 0, and its members are applied in
the order of their names.  The member `inherit` is one of them: it replaces all
that the members before it have set.  A set can inherit only from one that was
read before.  So what a set states survives, and what it does not state is
inherited, when parents come before their children and no statement that a
member `inherit` follows differs from the inherited value.
-/

namespace Logme

/-! ## The outcome of a parser -/

namespace Parsed

variable {α β : Type}

def Yields (p : Parsed α) (a : α) : Prop := p.outcome = .value a

@[simp] theorem yields_pure {a b : α} : (pure a : Parsed α).Yields b ↔ a = b := by
  change ParseOutcome.value a = .value b ↔ _
  exact ⟨ParseOutcome.value.inj, congrArg _⟩

@[simp] theorem not_yields_reject {text : Name} {a : α} :
    ¬ (reject text : Parsed α).Yields a := by
  intro h
  cases h

theorem yields_bind {p : Parsed α} {next : α → Parsed β} {b : β} :
    (p >>= next).Yields b ↔ ∃ a, p.Yields a ∧ (next a).Yields b := by
  change (p.bind next).outcome = _ ↔ _
  unfold Yields bind
  cases p.outcome with
  | value a =>
      constructor
      · exact fun h => ⟨a, rfl, h⟩
      · rintro ⟨_, ha, h⟩
        cases ha
        exact h
  | rejected =>
      constructor
      · intro h
        cases h
      · rintro ⟨_, ha, -⟩
        cases ha
  | thrown =>
      constructor
      · intro h
        cases h
      · rintro ⟨_, ha, -⟩
        cases ha

@[simp] theorem yields_require {value : Option α} {text : Name} {a : α} :
    (require value text).Yields a ↔ value = some a := by
  cases value with
  | none => simp [require]
  | some b => simp [require]

@[simp] theorem yields_warn {text : Name} {u : Unit} : (warn text).Yields u := rfl

end Parsed

/-! ## Bit fields -/

namespace OutputFlags

/-- The field of a flag. -/
def field (f : OutputFlags) (start width : Nat) : Nat :=
  (f.value.extractLsb' start width).toNat

theorem getLsbD_setField (f : OutputFlags) {start width : Nat} (v : Int) {i : Nat}
    (hi : i < 32) :
    (f.setField start width v).value.getLsbD i =
      if start ≤ i ∧ i < start + width then (BitVec.ofInt 32 v).getLsbD (i - start)
      else f.value.getLsbD i := by
  have hmask : ∀ j, (BitVec.ofNat 32 (2 ^ width - 1)).getLsbD j = decide (j < 32 ∧ j < width) := by
    intro j
    rw [BitVec.getLsbD_ofNat, Nat.testBit_two_pow_sub_one, Bool.decide_and]
  simp only [setField, BitVec.getLsbD_or, BitVec.getLsbD_and, BitVec.getLsbD_not,
    BitVec.getLsbD_shiftLeft, hmask, hi]
  by_cases hstart : start ≤ i
  · by_cases hend : i < start + width
    · rw [if_pos ⟨hstart, hend⟩]
      have hlow : ¬ i < start := Nat.not_lt.mpr hstart
      have hwidth : i - start < 32 ∧ i - start < width := by omega
      simp [hlow, hwidth]
    · rw [if_neg fun h => hend h.2]
      have hwidth : ¬ (i - start < 32 ∧ i - start < width) := by omega
      simp [hwidth]
  · rw [if_neg fun h => hstart h.1]
    have hlow : i < start := Nat.not_le.mp hstart
    simp [hlow]

theorem field_setField_of_disjoint (f : OutputFlags) {start width start' width' : Nat} (v : Int)
    (hdisjoint : start + width ≤ start' ∨ start' + width' ≤ start) (hfits : start' + width' ≤ 32) :
    (f.setField start width v).field start' width' = f.field start' width' := by
  unfold field
  congr 1
  apply BitVec.eq_of_getLsbD_eq
  intro i hi
  simp only [BitVec.getLsbD_extractLsb', hi, decide_true, Bool.true_and]
  rw [getLsbD_setField f v (by omega), if_neg (by omega)]

theorem field_setField (f : OutputFlags) {start width : Nat} {v : Int}
    (hfits : start + width ≤ 32) (hmin : 0 ≤ v) (hmax : v < 2 ^ width) :
    ((f.setField start width v).field start width : Int) = v := by
  obtain ⟨n, rfl⟩ := Int.eq_ofNat_of_zero_le hmin
  have hn : n < 2 ^ width := by exact_mod_cast hmax
  have hbits : (f.setField start width n).value.extractLsb' start width =
      BitVec.ofNat width n := by
    apply BitVec.eq_of_getLsbD_eq
    intro i hi
    simp only [BitVec.getLsbD_extractLsb', hi, decide_true, Bool.true_and]
    rw [getLsbD_setField f _ (by omega), if_pos (by omega), Nat.add_sub_cancel_left]
    rw [BitVec.ofInt_natCast, BitVec.getLsbD_ofNat, BitVec.getLsbD_ofNat]
    simp [hi, show i < 32 by omega]
  rw [field, hbits, BitVec.toNat_ofNat, Nat.mod_eq_of_lt hn]

theorem field_zero (start width : Nat) : zero.field start width = 0 := by
  have hbits : zero.value.extractLsb' start width = BitVec.zero width := by
    apply BitVec.eq_of_getLsbD_eq
    intro i hi
    simp [zero]
  rw [field, hbits]
  rfl

end OutputFlags

/-! ## What a set of flags says -/

/-- A flag: its name, its first bit and its width, and how it is read. -/
abbrev Flag := String × Nat × Nat × FlagKind

abbrev Member := Name × JsonValue

/-- The value that a member states for the flag. -/
def statement (flag : Flag) (member : Member) : Option Int :=
  if toLowerAscii member.1 = ascii flag.1 then
    match flag.2.2.2 with
    | .switch => member.2.asBool?.map fun on => if on then 1 else 0
    | .value values => member.2.asString?.bind (findNamed values)
  else none

/-- The parent that a member names. -/
def inheritedFrom (member : Member) : Option Name :=
  if toLowerAscii member.1 = ascii "inherit" then member.2.asString? else none

/-- The last value that is stated for the flag. -/
def stated (flag : Flag) (members : List Member) : Option Int :=
  members.reverse.findSome? (statement flag)

def parent (members : List Member) : Option Name :=
  members.reverse.findSome? inheritedFrom

/-- The members after the last one that names a parent. -/
def afterInherit (members : List Member) : List Member :=
  (members.reverse.takeWhile fun member => (inheritedFrom member).isNone).reverse

def hasTypeOf (flag : Flag) (value : JsonValue) : Bool :=
  match flag.2.2.2 with
  | .switch => value.asBool?.isSome
  | .value _ => value.asString?.isSome

/-- The value is of the type that the name of the member asks for. -/
structure WellTyped (member : Member) : Prop where
  inherit : toLowerAscii member.1 = ascii "inherit" → member.2.asString?.isSome
  value : ∀ flag ∈ flagConfig, toLowerAscii member.1 = ascii flag.1 → hasTypeOf flag member.2

instance (member : Member) : Decidable (WellTyped member) :=
  decidable_of_iff
    ((toLowerAscii member.1 = ascii "inherit" → member.2.asString?.isSome) ∧
      ∀ flag ∈ flagConfig, toLowerAscii member.1 = ascii flag.1 → hasTypeOf flag member.2)
    ⟨fun h => ⟨h.1, h.2⟩, fun h => ⟨h.inherit, h.value⟩⟩

abbrev FlagSet := Name × List Member

/-- Named sets of flags in the order of their names, every parent one of them. -/
structure FlagSets where
  sets : List FlagSet
  ordered : (sets.map Prod.fst).Pairwise (· < ·)
  typed : ∀ s ∈ sets, ∀ member ∈ s.2, WellTyped member
  parents : ∀ s ∈ sets, ∀ member ∈ s.2, ∀ p, inheritedFrom member = some p →
    p ∈ sets.map Prod.fst

/-- What a flag of a set should be: what the set states, or else what it
inherits, or 0. -/
inductive Resolves (sets : List FlagSet) (flag : Flag) : FlagSet → Int → Prop
  | stated {s : FlagSet} {v : Int} (h : stated flag s.2 = some v) : Resolves sets flag s v
  | inherited {s p : FlagSet} {v : Int} (hnone : Logme.stated flag s.2 = none)
      (hparent : parent s.2 = some p.1) (hp : p ∈ sets) (h : Resolves sets flag p v) :
      Resolves sets flag s v
  | plain {s : FlagSet} (hnone : Logme.stated flag s.2 = none) (hparent : parent s.2 = none) :
      Resolves sets flag s 0

/-- The member `flags` is read, and every flag has its value. -/
def FlagSets.Respected (c : FlagSets) (root : JsonValue) : Prop :=
  ∃ m, (parseFlags root).Yields m ∧ ∀ s ∈ c.sets, ∃ f, m.lookup s.1 = some f ∧
    ∀ flag ∈ flagConfig, ∀ v, Resolves c.sets flag s v →
      (f.field flag.2.1 flag.2.2.1 : Int) = v

/-- The names of parents are before those of their children. -/
def FlagSets.ParentsFirst (c : FlagSets) : Prop :=
  ∀ s ∈ c.sets, ∀ member ∈ s.2, ∀ p, inheritedFrom member = some p → p < s.1

/-- A statement that a member `inherit` follows agrees with the parent. -/
def FlagSets.NothingLost (c : FlagSets) : Prop :=
  ∀ s ∈ c.sets, ∀ p ∈ c.sets, parent s.2 = some p.1 → ∀ flag ∈ flagConfig, ∀ v,
    stated flag s.2 = some v → stated flag (afterInherit s.2) = none →
      Resolves c.sets flag p v

/-! ## One set -/

/-- The values of a flag while the members are applied in their order. -/
def settle (flag : Flag) (inherited : Name → Int) (start : Int) (members : List Member) :
    Int :=
  members.foldl (fun v member =>
    match inheritedFrom member with
    | some p => inherited p
    | none => (statement flag member).getD v) start

/-- The last `inherit` decides, and then what is stated after it. -/
theorem settle_eq (flag : Flag) (inherited : Name → Int) (start : Int)
    (members : List Member) :
    settle flag inherited start members =
      (stated flag (afterInherit members)).getD
        (match parent members with
        | some p => inherited p
        | none => start) := by
  induction members using List.reverseRecOn with
  | nil => rfl
  | append_singleton members member ih =>
      rw [settle, List.foldl_append, List.foldl_cons, List.foldl_nil]
      change (match inheritedFrom member with
        | some p => inherited p
        | none => (statement flag member).getD (settle flag inherited start members)) = _
      rw [ih]
      cases hmember : inheritedFrom member with
      | some p => simp [stated, afterInherit, parent, hmember]
      | none =>
          cases hstatement : statement flag member with
          | some v => simp [stated, afterInherit, hmember, hstatement]
          | none => simp [stated, afterInherit, parent, hmember, hstatement]

theorem stated_of_afterInherit {flag : Flag} {members : List Member} {v : Int}
    (h : stated flag (afterInherit members) = some v) : stated flag members = some v := by
  rw [stated, afterInherit, List.reverse_reverse] at h
  rw [stated, ← List.takeWhile_append_dropWhile
    (p := fun member => (inheritedFrom member).isNone) (l := members.reverse),
    List.findSome?_append, h]
  rfl

theorem afterInherit_of_parent {members : List Member} (h : parent members = none) :
    afterInherit members = members := by
  rw [parent, List.findSome?_eq_none_iff] at h
  rw [afterInherit, List.takeWhile_eq_self_iff.mpr, List.reverse_reverse]
  exact fun member hmember => by simp [h member hmember]

theorem parent_mem {members : List Member} {p : Name} (h : parent members = some p) :
    ∃ member ∈ members, inheritedFrom member = some p := by
  obtain ⟨member, hmember, hp⟩ := List.exists_of_findSome?_eq_some h
  exact ⟨member, List.mem_reverse.mp hmember, hp⟩

/-! ### The table of flags -/

theorem flagConfig_names : (flagConfig.map fun flag => ascii flag.1).Nodup := by decide

theorem flagConfig_fits : ∀ flag ∈ flagConfig, flag.2.1 + flag.2.2.1 ≤ 32 := by decide

theorem flagConfig_disjoint : ∀ a ∈ flagConfig, ∀ b ∈ flagConfig, ascii a.1 ≠ ascii b.1 →
    a.2.1 + a.2.2.1 ≤ b.2.1 ∨ b.2.1 + b.2.2.1 ≤ a.2.1 := by decide

/-- Every value of a flag fits into its field. -/
def valuesFit (flag : Flag) : Bool :=
  match flag.2.2.2 with
  | .switch => decide ((1 : Int) < 2 ^ flag.2.2.1)
  | .value values => values.all fun value => 0 ≤ value.2 && value.2 < 2 ^ flag.2.2.1

theorem flagConfig_valuesFit : flagConfig.all valuesFit = true := by decide

theorem statement_range {flag : Flag} (hflag : flag ∈ flagConfig) {member : Member} {v : Int}
    (h : statement flag member = some v) : 0 ≤ v ∧ v < 2 ^ flag.2.2.1 := by
  have hfit := List.all_eq_true.mp flagConfig_valuesFit flag hflag
  unfold statement at h
  unfold valuesFit at hfit
  split at h
  next =>
    split at h
    next hkind =>
      rw [hkind, decide_eq_true_eq] at hfit
      obtain ⟨on, -, rfl⟩ := Option.map_eq_some_iff.mp h
      cases on
      · exact ⟨by decide, Int.lt_trans (by decide) hfit⟩
      · exact ⟨by decide, hfit⟩
    next values hkind =>
      rw [hkind, List.all_eq_true] at hfit
      obtain ⟨text, -, hnamed⟩ := Option.bind_eq_some_iff.mp h
      obtain ⟨value, hvalue, rfl⟩ := Option.map_eq_some_iff.mp hnamed
      have hfits := hfit value (List.mem_of_find?_eq_some hvalue)
      simpa using hfits
  next => cases h

/-! ### Its members -/

theorem processFlag_inherit {m : OutputFlagsMap} {name : Name} {f g : OutputFlags}
    {member : Member} {p : Name} (hp : inheritedFrom member = some p) :
    (processFlag m name f member).Yields g ↔ m.lookup p = some g := by
  unfold inheritedFrom at hp
  split at hp
  next hinherit =>
    unfold processFlag
    rw [if_pos hinherit, Parsed.yields_bind]
    simp [hp]
  next => cases hp

theorem not_inherit {member : Member} (htyped : WellTyped member)
    (hnone : inheritedFrom member = none) : toLowerAscii member.1 ≠ ascii "inherit" := by
  intro hinherit
  have hsome := htyped.inherit hinherit
  rw [inheritedFrom, if_pos hinherit] at hnone
  rw [hnone] at hsome
  cases hsome

/-- The flags after a member that states a value of `own` or none. -/
def withStatement (own : Flag) (f : OutputFlags) (member : Member) : OutputFlags :=
  match statement own member with
  | some v => f.setField own.2.1 own.2.2.1 v
  | none => f

theorem field_withStatement {own : Flag} (hown : own ∈ flagConfig) (f : OutputFlags)
    {member : Member} (hname : toLowerAscii member.1 = ascii own.1) {flag : Flag}
    (hflag : flag ∈ flagConfig) :
    ((withStatement own f member).field flag.2.1 flag.2.2.1 : Int) =
      (statement flag member).getD (f.field flag.2.1 flag.2.2.1) := by
  unfold withStatement
  by_cases heq : ascii flag.1 = ascii own.1
  · obtain rfl := List.inj_on_of_nodup_map flagConfig_names hflag hown heq
    cases hstatement : statement flag member with
    | some v =>
        obtain ⟨hmin, hmax⟩ := statement_range hflag hstatement
        exact OutputFlags.field_setField f (flagConfig_fits flag hflag) hmin hmax
    | none => rfl
  · have hnone : statement flag member = none := if_neg (by rwa [hname, eq_comm])
    rw [hnone]
    cases statement own member with
    | some v =>
        have hdisjoint := flagConfig_disjoint own hown flag hflag fun h => heq h.symm
        exact congrArg Int.ofNat
          (f.field_setField_of_disjoint v hdisjoint (flagConfig_fits flag hflag))
    | none => rfl

/-- A member that names no parent sets the flag of its name to what it states
and leaves the other flags. -/
theorem processFlag_flag (m : OutputFlagsMap) (name : Name) (f : OutputFlags)
    {member : Member} (htyped : WellTyped member) (hnone : inheritedFrom member = none) :
    ∃ g, (processFlag m name f member).Yields g ∧ ∀ flag ∈ flagConfig,
      (g.field flag.2.1 flag.2.2.1 : Int) =
        (statement flag member).getD (f.field flag.2.1 flag.2.2.1) := by
  have hinherit := not_inherit htyped hnone
  unfold processFlag
  simp only [if_neg hinherit]
  cases hfind : flagConfig.find? fun flag => toLowerAscii member.1 = ascii flag.1 with
  | none =>
      refine ⟨f, rfl, fun flag hflag => ?_⟩
      have hname := List.find?_eq_none.mp hfind flag hflag
      rw [decide_eq_true_eq] at hname
      rw [statement, if_neg hname]
      rfl
  | some own =>
      have hown := List.mem_of_find?_eq_some hfind
      have hname : toLowerAscii member.1 = ascii own.1 := by
        simpa using List.find?_some hfind
      refine ⟨withStatement own f member, ?_, fun flag hflag =>
        field_withStatement hown f hname hflag⟩
      have htype := htyped.value own hown hname
      obtain ⟨text, start, width, kind⟩ := own
      unfold withStatement statement
      rw [if_pos hname]
      cases kind with
      | switch =>
          obtain ⟨on, hon⟩ := Option.isSome_iff_exists.mp htype
          simp [hon, Parsed.yields_bind]
      | value values =>
          obtain ⟨word, hword⟩ := Option.isSome_iff_exists.mp htype
          simp only [hword, Parsed.yields_bind, Parsed.yields_require, Option.bind_some]
          refine ⟨word, rfl, ?_⟩
          cases findNamed values word with
          | none => exact rfl
          | some v => exact rfl

def inheritedValue (m : OutputFlagsMap) (flag : Flag) (p : Name) : Int :=
  match m.lookup p with
  | some g => g.field flag.2.1 flag.2.2.1
  | none => 0

/-- The flags are what the members make of those that the map has. -/
def Settled (m : OutputFlagsMap) (start : OutputFlags) (members : List Member)
    (f : OutputFlags) : Prop :=
  ∀ flag ∈ flagConfig, (f.field flag.2.1 flag.2.2.1 : Int) =
    settle flag (inheritedValue m flag) (start.field flag.2.1 flag.2.2.1) members

def ParentsFound (m : OutputFlagsMap) (members : List Member) : Prop :=
  ∀ member ∈ members, ∀ p, inheritedFrom member = some p → (m.lookup p).isSome

theorem processFlag_settled (m : OutputFlagsMap) (name : Name) (f : OutputFlags)
    {member : Member} (htyped : WellTyped member)
    (hfound : ∀ p, inheritedFrom member = some p → (m.lookup p).isSome) :
    ∃ g, (processFlag m name f member).Yields g ∧ Settled m f [member] g := by
  cases hmember : inheritedFrom member with
  | some p =>
      obtain ⟨g, hg⟩ := Option.isSome_iff_exists.mp (hfound p hmember)
      refine ⟨g, (processFlag_inherit hmember).mpr hg, fun flag hflag => ?_⟩
      simp [settle, hmember, inheritedValue, hg]
  | none =>
      obtain ⟨g, hyields, hfields⟩ := processFlag_flag m name f htyped hmember
      refine ⟨g, hyields, fun flag hflag => ?_⟩
      simpa [settle, hmember] using hfields flag hflag

theorem yields_unique {α : Type} {p : Parsed α} {a b : α} (ha : p.Yields a) (hb : p.Yields b) :
    a = b :=
  ParseOutcome.value.inj (ha.symm.trans hb)

theorem foldlM_processFlag {m : OutputFlagsMap} (name : Name) {members : List Member}
    (htyped : ∀ member ∈ members, WellTyped member) (f : OutputFlags) :
    (ParentsFound m members →
      ∃ g, (members.foldlM (processFlag m name) f).Yields g) ∧
    ∀ g, (members.foldlM (processFlag m name) f).Yields g →
      ParentsFound m members ∧ Settled m f members g := by
  induction members generalizing f with
  | nil =>
      refine ⟨fun _ => ⟨f, rfl⟩, fun g hg => ⟨fun member hmember => ?_, fun flag hflag => ?_⟩⟩
      · cases hmember
      · rw [List.foldlM_nil, Parsed.yields_pure] at hg
        rw [hg]
        rfl
  | cons member members ih =>
      have hfirst := htyped member List.mem_cons_self
      have hrest := ih fun other hother => htyped other (List.mem_cons_of_mem _ hother)
      constructor
      · intro hfound
        obtain ⟨g, hg, -⟩ := processFlag_settled m name f hfirst
          (hfound member List.mem_cons_self)
        obtain ⟨last, hlast⟩ := (hrest g).1 fun other hother =>
          hfound other (List.mem_cons_of_mem _ hother)
        exact ⟨last, by rw [List.foldlM_cons, Parsed.yields_bind]; exact ⟨g, hg, hlast⟩⟩
      · intro last hlast
        rw [List.foldlM_cons, Parsed.yields_bind] at hlast
        obtain ⟨g, hg, hlast⟩ := hlast
        obtain ⟨hothers, hsettled⟩ := (hrest g).2 last hlast
        have hfound : ∀ p, inheritedFrom member = some p → (m.lookup p).isSome := by
          intro p hp
          rw [(processFlag_inherit hp).mp hg]
          rfl
        obtain ⟨g', hg', hstep⟩ := processFlag_settled m name f hfirst hfound
        obtain rfl := yields_unique hg hg'
        refine ⟨fun other hother => ?_, fun flag hflag => ?_⟩
        · rcases List.mem_cons.mp hother with rfl | hother
          · exact hfound
          · exact hothers other hother
        · rw [hsettled flag hflag, hstep flag hflag]
          rfl

/-! ## All sets -/

def FlagSet.json (s : FlagSet) : Name × JsonValue := (s.1, .object s.2)

theorem parseFlagSet_yields {m m' : OutputFlagsMap} {s : FlagSet} :
    (parseFlagSet m s.json).Yields m' ↔
      ∃ f, (s.2.foldlM (processFlag m s.1) .zero).Yields f ∧ (s.1, f) :: m = m' := by
  unfold parseFlagSet FlagSet.json JsonValue.requireObject
  simp [Parsed.yields_bind, JsonValue.asObject?]

/-- The map has the sets that were read, with their flags settled. -/
structure Consistent (m : OutputFlagsMap) (done : List FlagSet) : Prop where
  keys : ∀ name, (m.lookup name).isSome ↔ name ∈ done.map Prod.fst
  parents : ∀ s ∈ done, ∀ member ∈ s.2, ∀ p, inheritedFrom member = some p →
    p ∈ done.map Prod.fst ∧ p < s.1
  settled : ∀ s ∈ done, ∃ f, m.lookup s.1 = some f ∧ Settled m .zero s.2 f

theorem lookup_cons_ne {m : OutputFlagsMap} {name other : Name} (h : other ≠ name)
    (f : OutputFlags) : List.lookup other ((name, f) :: m) = m.lookup other := by
  have hne : (other == name) = false := beq_false_of_ne h
  rw [List.lookup_cons, hne]

theorem name_ne_of_lt {a b : Name} (h : a < b) : a ≠ b := by
  rintro rfl
  exact List.lt_irrefl a h

/-- A set of another name changes nothing for these members. -/
theorem Settled.cons {m : OutputFlagsMap} {start f g : OutputFlags} {members : List Member}
    {name : Name} (h : Settled m start members f)
    (hother : ∀ member ∈ members, ∀ p, inheritedFrom member = some p → p ≠ name) :
    Settled ((name, g) :: m) start members f := by
  intro flag hflag
  rw [h flag hflag]
  refine List.foldl_ext _ _ _ fun v member hmember => ?_
  cases hp : inheritedFrom member with
  | none => rfl
  | some p =>
      change inheritedValue m flag p = inheritedValue ((name, g) :: m) flag p
      rw [inheritedValue, inheritedValue, lookup_cons_ne (hother member hmember p hp)]

theorem Consistent.step {m m' : OutputFlagsMap} {done : List FlagSet} {s : FlagSet}
    (h : Consistent m done) (hbefore : ∀ d ∈ done, d.1 < s.1)
    (htyped : ∀ member ∈ s.2, WellTyped member) (hread : (parseFlagSet m s.json).Yields m') :
    Consistent m' (done ++ [s]) := by
  obtain ⟨f, hf, rfl⟩ := parseFlagSet_yields.mp hread
  obtain ⟨hfound, hsettled⟩ := (foldlM_processFlag s.1 htyped .zero).2 f hf
  have hnew : ∀ name ∈ done.map Prod.fst, name ≠ s.1 := by
    intro name hname
    obtain ⟨d, hd, rfl⟩ := List.mem_map.mp hname
    exact name_ne_of_lt (hbefore d hd)
  have hown : ∀ member ∈ s.2, ∀ p, inheritedFrom member = some p → p ∈ done.map Prod.fst :=
    fun member hmember p hp => (h.keys p).mp (hfound member hmember p hp)
  constructor
  · intro name
    by_cases hname : name = s.1
    · simp [hname]
    · rw [lookup_cons_ne hname, h.keys]
      simp [hname]
  · intro d hd member hmember p hp
    rw [List.map_append, List.mem_append]
    rcases List.mem_append.mp hd with hd | hd
    · obtain ⟨hmem, hlt⟩ := h.parents d hd member hmember p hp
      exact ⟨.inl hmem, hlt⟩
    · rw [List.mem_singleton.mp hd] at hmember ⊢
      have hmem := hown member hmember p hp
      obtain ⟨d, hd, rfl⟩ := List.mem_map.mp hmem
      exact ⟨.inl hmem, hbefore d hd⟩
  · intro d hd
    rcases List.mem_append.mp hd with hd | hd
    · obtain ⟨g, hg, hset⟩ := h.settled d hd
      refine ⟨g, ?_, hset.cons fun member hmember p hp => ?_⟩
      · rwa [lookup_cons_ne (name_ne_of_lt (hbefore d hd))]
      · exact hnew p (h.parents d hd member hmember p hp).1
    · rw [List.mem_singleton.mp hd]
      refine ⟨f, by simp, hsettled.cons fun member hmember p hp => ?_⟩
      exact hnew p (hown member hmember p hp)

/-! ### The whole member -/

theorem Consistent.run {todo done : List FlagSet} {m m' : OutputFlagsMap}
    (h : Consistent m done) (hordered : ((done ++ todo).map Prod.fst).Pairwise (· < ·))
    (htyped : ∀ s ∈ todo, ∀ member ∈ s.2, WellTyped member)
    (hread : ((todo.map FlagSet.json).foldlM parseFlagSet m).Yields m') :
    Consistent m' (done ++ todo) := by
  induction todo generalizing m done with
  | nil =>
      rw [List.map_nil, List.foldlM_nil, Parsed.yields_pure] at hread
      rwa [← hread, List.append_nil]
  | cons s todo ih =>
      rw [List.map_cons, List.foldlM_cons, Parsed.yields_bind] at hread
      obtain ⟨next, hnext, hread⟩ := hread
      have hbefore : ∀ d ∈ done, d.1 < s.1 := fun d hd =>
        (List.pairwise_append.mp (List.map_append ▸ hordered)).2.2 d.1
          (List.mem_map_of_mem hd) s.1 (by simp)
      have hstep := h.step hbefore (htyped s List.mem_cons_self) hnext
      rw [← List.singleton_append, ← List.append_assoc] at hordered ⊢
      exact ih hstep hordered (fun d hd => htyped d (List.mem_cons_of_mem _ hd)) hread

/-- The sets are read when every parent comes before its children. -/
theorem Consistent.exists_run {todo done : List FlagSet} {m : OutputFlagsMap}
    (h : Consistent m done) (hordered : ((done ++ todo).map Prod.fst).Pairwise (· < ·))
    (htyped : ∀ s ∈ todo, ∀ member ∈ s.2, WellTyped member)
    (hparents : ∀ s ∈ todo, ∀ member ∈ s.2, ∀ p, inheritedFrom member = some p →
      p ∈ (done ++ todo).map Prod.fst ∧ p < s.1) :
    ∃ m', ((todo.map FlagSet.json).foldlM parseFlagSet m).Yields m' := by
  induction todo generalizing m done with
  | nil => exact ⟨m, rfl⟩
  | cons s todo ih =>
      have hpairs := List.pairwise_append.mp (List.map_append ▸ hordered)
      have hbefore : ∀ d ∈ done, d.1 < s.1 := fun d hd =>
        hpairs.2.2 d.1 (List.mem_map_of_mem hd) s.1 (by simp)
      have hfound : ParentsFound m s.2 := by
        intro member hmember p hp
        obtain ⟨hmem, hlt⟩ := hparents s List.mem_cons_self member hmember p hp
        rw [h.keys]
        rw [List.map_append, List.mem_append, List.map_cons, List.mem_cons] at hmem
        rcases hmem with hmem | rfl | hmem
        · exact hmem
        · exact absurd hlt (List.lt_irrefl s.1)
        · have hafter := (List.pairwise_cons.mp hpairs.2.1).1 p hmem
          exact absurd (List.lt_trans hlt hafter) (List.lt_irrefl p)
      obtain ⟨f, hf⟩ :=
        (foldlM_processFlag s.1 (htyped s List.mem_cons_self) .zero).1 hfound
      have hnext : (parseFlagSet m s.json).Yields ((s.1, f) :: m) :=
        parseFlagSet_yields.mpr ⟨f, hf, rfl⟩
      have hstep := h.step hbefore (htyped s List.mem_cons_self) hnext
      rw [← List.singleton_append, ← List.append_assoc] at hordered hparents
      obtain ⟨m', hm'⟩ := ih hstep hordered (fun d hd => htyped d (List.mem_cons_of_mem _ hd))
        fun d hd => hparents d (List.mem_append_right _ hd)
      exact ⟨m', by rw [List.map_cons, List.foldlM_cons, Parsed.yields_bind]; exact ⟨_, hnext, hm'⟩⟩

theorem consistent_nil : Consistent [] [] where
  keys := by simp
  parents := by simp
  settled := by simp

/-- The configuration has these sets. -/
def FlagSets.json (c : FlagSets) : JsonValue := .object (c.sets.map FlagSet.json)

theorem FlagSets.parseFlags_yields (c : FlagSets) {members : List Member}
    (hflags : members.lookup (ascii "flags") = some c.json) {m : OutputFlagsMap} :
    (parseFlags (.object members)).Yields m ↔
      ((c.sets.map FlagSet.json).foldlM parseFlagSet []).Yields m := by
  have hmember : (JsonValue.object members).member? (ascii "flags") = pure (some c.json) :=
    congrArg pure hflags
  unfold parseFlags JsonValue.requireObject
  rw [hmember]
  simp [Parsed.yields_bind, FlagSets.json, JsonValue.asObject?]

namespace FlagSets

variable {c : FlagSets}

/-- What a flag of a set is after reading. -/
theorem field_eq {m : OutputFlagsMap} (hm : Consistent m c.sets) {s : FlagSet}
    (hs : s ∈ c.sets) :
    ∃ f, m.lookup s.1 = some f ∧ ∀ flag ∈ flagConfig,
      (f.field flag.2.1 flag.2.2.1 : Int) = (stated flag (afterInherit s.2)).getD
        (match parent s.2 with
        | some p => inheritedValue m flag p
        | none => 0) := by
  obtain ⟨f, hf, hsettled⟩ := hm.settled s hs
  refine ⟨f, hf, fun flag hflag => ?_⟩
  rw [hsettled flag hflag, settle_eq, OutputFlags.field_zero]
  rfl

theorem exists_parent {s : FlagSet} (hs : s ∈ c.sets) {name : Name}
    (hname : parent s.2 = some name) : ∃ p ∈ c.sets, p.1 = name := by
  obtain ⟨member, hmember, hinherit⟩ := parent_mem hname
  exact List.mem_map.mp (c.parents s hs member hmember name hinherit)

theorem parent_before (hparents : c.ParentsFirst) {done todo : List FlagSet} {s p : FlagSet}
    (htodo : done ++ [s] ++ todo = c.sets) (hp : p ∈ c.sets) (hname : parent s.2 = some p.1) :
    p ∈ done := by
  obtain ⟨member, hmember, hinherit⟩ := parent_mem hname
  have hlt := hparents s (by rw [← htodo]; simp) member hmember p.1 hinherit
  have hordered := c.ordered
  rw [← htodo, List.append_assoc] at hp hordered
  rw [List.map_append, List.pairwise_append] at hordered
  rcases List.mem_append.mp hp with hp | hp
  · exact hp
  · rcases List.mem_cons.mp hp with rfl | hp
    · exact absurd hlt (List.lt_irrefl p.1)
    · have hafter := (List.pairwise_cons.mp hordered.2.1).1 p.1 (List.mem_map_of_mem hp)
      exact absurd (List.lt_trans hlt hafter) (List.lt_irrefl p.1)

/-- The sets before a set have what it inherits. -/
theorem resolved_prefix (hparents : c.ParentsFirst) (hlost : c.NothingLost)
    {m : OutputFlagsMap} (hm : Consistent m c.sets) {done : List FlagSet}
    (hdone : done <+: c.sets) : ∀ s ∈ done, ∃ f, m.lookup s.1 = some f ∧
      ∀ flag ∈ flagConfig, ∀ v, Resolves c.sets flag s v →
        (f.field flag.2.1 flag.2.2.1 : Int) = v := by
  induction done using List.reverseRecOn with
  | nil => simp
  | append_singleton done s ih =>
      obtain ⟨todo, htodo⟩ := hdone
      have hbefore := ih ⟨s :: todo, by rw [← htodo, List.append_assoc]; rfl⟩
      intro d hd
      rcases List.mem_append.mp hd with hd | hd
      · exact hbefore d hd
      rw [List.mem_singleton.mp hd]
      have hs : s ∈ c.sets := by rw [← htodo]; simp
      obtain ⟨f, hf, hfields⟩ := field_eq hm hs
      refine ⟨f, hf, fun flag hflag v hv => ?_⟩
      -- The parent is one of the sets that were read before.
      have hparent : ∀ p ∈ c.sets, parent s.2 = some p.1 → ∀ v, Resolves c.sets flag p v →
          inheritedValue m flag p.1 = v := by
        intro p hp hname v hv
        obtain ⟨g, hg, hvalues⟩ := hbefore p (parent_before hparents htodo hp hname)
        rw [inheritedValue, hg]
        exact hvalues flag hflag v hv
      rw [hfields flag hflag]
      cases hv with
      | stated hstated =>
          cases hafter : stated flag (afterInherit s.2) with
          | some w =>
              rw [stated_of_afterInherit hafter] at hstated
              exact Option.some.inj hstated
          | none =>
              cases hname : parent s.2 with
              | none =>
                  rw [afterInherit_of_parent hname, hstated] at hafter
                  cases hafter
              | some name =>
                  obtain ⟨p, hp, rfl⟩ := exists_parent hs hname
                  exact hparent p hp hname v (hlost s hs p hp hname flag hflag v hstated hafter)
      | @inherited _ p _ hnone hname hp hv =>
          have hafter : stated flag (afterInherit s.2) = none := by
            by_contra hsome
            obtain ⟨w, hw⟩ := Option.ne_none_iff_exists'.mp hsome
            rw [stated_of_afterInherit hw] at hnone
            cases hnone
          rw [hafter, hname]
          exact hparent p hp hname v hv
      | plain hnone hname =>
          rw [afterInherit_of_parent hname, hnone, hname]
          rfl

/-- Every flag of every set has a value when parents come first. -/
theorem exists_resolves (hparents : c.ParentsFirst) (flag : Flag) {done : List FlagSet}
    (hdone : done <+: c.sets) : ∀ s ∈ done, ∃ v, Resolves c.sets flag s v := by
  induction done using List.reverseRecOn with
  | nil => simp
  | append_singleton done s ih =>
      obtain ⟨todo, htodo⟩ := hdone
      have hbefore := ih ⟨s :: todo, by rw [← htodo, List.append_assoc]; rfl⟩
      intro d hd
      rcases List.mem_append.mp hd with hd | hd
      · exact hbefore d hd
      rw [List.mem_singleton.mp hd]
      have hs : s ∈ c.sets := by rw [← htodo]; simp
      cases hstated : stated flag s.2 with
      | some v => exact ⟨v, .stated hstated⟩
      | none =>
          cases hname : parent s.2 with
          | none => exact ⟨0, .plain hstated hname⟩
          | some name =>
              obtain ⟨p, hp, rfl⟩ := exists_parent hs hname
              obtain ⟨v, hv⟩ := hbefore p (parent_before hparents htodo hp hname)
              exact ⟨v, .inherited hstated hname hp hv⟩

/-- Explicit flags override inherited ones exactly if every parent comes before
its children and no different statement is followed by a member `inherit`. -/
theorem parseFlags_respected_iff (c : FlagSets) {members : List Member}
    (hflags : members.lookup (ascii "flags") = some c.json) :
    c.Respected (.object members) ↔ c.ParentsFirst ∧ c.NothingLost := by
  constructor
  · rintro ⟨m, hread, hvalues⟩
    rw [c.parseFlags_yields hflags] at hread
    have hm := consistent_nil.run c.ordered c.typed hread
    have hparents : c.ParentsFirst := fun s hs member hmember p hp =>
      (hm.parents s hs member hmember p hp).2
    refine ⟨hparents, fun s hs p hp hname flag hflag v hstated hafter => ?_⟩
    obtain ⟨f, hf, hfields⟩ := field_eq hm hs
    obtain ⟨f', hf', hright⟩ := hvalues s hs
    obtain rfl := Option.some.inj (hf.symm.trans hf')
    obtain ⟨g, hg, hinherited⟩ := hvalues p hp
    obtain ⟨w, hw⟩ := exists_resolves hparents flag List.prefix_rfl p hp
    have hown := hfields flag hflag
    rw [hright flag hflag v (.stated hstated), hafter, hname] at hown
    change v = inheritedValue m flag p.1 at hown
    rw [inheritedValue, hg] at hown
    have hvalue : v = w := hown.trans (hinherited flag hflag w hw)
    rwa [hvalue]
  · rintro ⟨hparents, hlost⟩
    obtain ⟨m, hread⟩ := consistent_nil.exists_run c.ordered c.typed
      fun s hs member hmember p hp =>
        ⟨c.parents s hs member hmember p hp, hparents s hs member hmember p hp⟩
    have hm := consistent_nil.run c.ordered c.typed hread
    exact ⟨m, (c.parseFlags_yields hflags).mpr hread,
      resolved_prefix hparents hlost hm List.prefix_rfl⟩

/-- The sets `base` and `child`, which inherits first and then states `eol`. -/
def inheritFirst : FlagSets where
  sets := [(ascii "base", [(ascii "eol", .bool true)]),
    (ascii "child", [(ascii "Inherit", .string (ascii "base")), (ascii "eol", .bool false)])]
  ordered := by decide
  typed := by decide
  parents := by
    have h : ∀ s ∈ [((ascii "base", [(ascii "eol", .bool true)]) : FlagSet),
        (ascii "child", [(ascii "Inherit", .string (ascii "base")), (ascii "eol", .bool false)])],
        ∀ member ∈ s.2, ∀ p ∈ inheritedFrom member, p ∈ [ascii "base", ascii "child"] := by
      decide
    exact h

theorem parseFlags_respected_inheritFirst :
    inheritFirst.Respected (.object [(ascii "flags", inheritFirst.json)]) := by
  refine (parseFlags_respected_iff inheritFirst rfl).mpr ⟨?_, ?_⟩
  · have h : ∀ s ∈ inheritFirst.sets, ∀ member ∈ s.2, ∀ p ∈ inheritedFrom member, p < s.1 := by
      decide
    exact h
  · have h : ∀ s ∈ inheritFirst.sets, (parent s.2).isSome → ∀ flag ∈ flagConfig,
        stated flag (afterInherit s.2) = stated flag s.2 := by decide
    intro s hs p _ hname flag hflag v hstated hafter
    rw [h s hs (by rw [hname]; rfl) flag hflag, hstated] at hafter
    cases hafter

/-- The flag sets of the sample configuration, shortened: `internal` states that
`DisableLink` is off and inherits it from `default`, where it is on. -/
def disableLinkFirst : FlagSets where
  sets := [(ascii "default", [(ascii "DisableLink", .bool true)]),
    (ascii "internal", [(ascii "DisableLink", .bool false),
      (ascii "Inherit", .string (ascii "default"))])]
  ordered := by decide
  typed := by decide
  parents := by
    have h : ∀ s ∈ [((ascii "default", [(ascii "DisableLink", .bool true)]) : FlagSet),
        (ascii "internal", [(ascii "DisableLink", .bool false),
          (ascii "Inherit", .string (ascii "default"))])],
        ∀ member ∈ s.2, ∀ p ∈ inheritedFrom member,
          p ∈ [ascii "default", ascii "internal"] := by
      decide
    exact h

/-- The inherited value replaces the stated one. -/
theorem parseFlags_loses_statement :
    ¬ disableLinkFirst.Respected (.object [(ascii "flags", disableLinkFirst.json)]) := by
  rintro ⟨m, hread, hvalues⟩
  have hyields : (parseFlags (.object [(ascii "flags", disableLinkFirst.json)])).Yields
      [(ascii "internal", ⟨0x10000⟩), (ascii "default", ⟨0x10000⟩)] := rfl
  obtain rfl := yields_unique hyields hread
  obtain ⟨f, hf, hright⟩ := hvalues _ (List.mem_cons_of_mem _ List.mem_cons_self)
  have hvalue := hright ("disablelink", 16, 1, .switch) (by simp [flagConfig]) 0 (.stated rfl)
  obtain rfl := Option.some.inj hf
  exact absurd hvalue (by decide)

end FlagSets

end Logme
