import Logme.Library.NestedCalls
import Logme.Template

/-!
# When the expansion of a template returns

Every reference to a variable is a nested call on the variable's value, and
nothing else in the expansion is unbounded.  `Env` has finitely many
variables, so the expansion returns unless one of the variables it comes to
refers back to itself.
-/

namespace Logme

/-- The table `Env`. -/
abbrev Environment := List (List Char × List Char)

def Environment.envGetVar (env : Environment) (name : List Char) :
    List Char :=
  (env.lookup name).getD []

def TemplateValues.reading (m : TemplateValues) (env : Environment) :
    TemplateValues :=
  { m with envGetVar := env.envGetVar }

/-- The variables whose values are expanded on the way through the text.
The first argument is as for `TemplateValues.expand`. -/
def references : Nat → List Char → List (List Char)
  | _, [] => []
  | skip + 1, _ :: rest => references skip rest
  | 0, c :: rest =>
      if c = '{' ∧ rest.head? = some '%' ∧ '}' ∈ rest then
        let var := (rest.drop 1).takeWhile fun d => d != '}'
        let next := references (var.length + 2) rest
        if '%' ∈ var then next else var :: next
      else references 0 rest

/-- All placeholders of the text itself have a value: with `{date}` or
`{datetime}` among them, the local time exists. -/
def TemplateValues.PlaceholdersReplaced (m : TemplateValues)
    (flags : TemplateFlags) (target : Option (List Char))
    (text : List Char) : Prop :=
  (m.expand flags target (fun _ => some []) 0 text).isSome

def RefersTo (env : Environment) (first second : List Char) : Prop :=
  second ∈ references 0 (env.envGetVar first)

/-- The expansion of the text comes to the variable. -/
def ComesTo (env : Environment) (text var : List Char) : Prop :=
  ∃ first ∈ references 0 text,
    Relation.ReflTransGen (RefersTo env) first var

def RefersBack (env : Environment) (var : List Char) : Prop :=
  Relation.TransGen (RefersTo env) var var

/-- The call returns after finitely many steps, with a text. -/
def ProcessTemplateReturns (m : TemplateValues) (flags : TemplateFlags)
    (target : Option (List Char)) (p : List Char) : Prop :=
  ∃ depth out, m.expandNested flags target depth p = some out

/-! ## One text -/

theorem references_skip (s rest : List Char) :
    references s.length (s ++ rest) = references 0 rest := by
  induction s with
  | nil => rfl
  | cons c s ih => simpa [references] using ih

theorem references_append {s : List Char} (hs : '{' ∉ s)
    (rest : List Char) : references 0 (s ++ rest) = references 0 rest := by
  induction s with
  | nil => rfl
  | cons c s ih =>
      rw [List.mem_cons, not_or] at hs
      have hc : c ≠ '{' := fun h => hs.1 h.symm
      rw [List.cons_append, references, if_neg (fun h => hc h.1)]
      exact ih hs.2

/-- A name found by `placeholder` has its only opening brace in front. -/
theorem TemplateValues.placeholder_name {m : TemplateValues}
    {flags : TemplateFlags} {target : Option (List Char)}
    {text name : List Char} {value : Option (List Char)}
    (h : m.placeholder flags target text = some (name, value)) :
    name.isPrefixOf text ∧ ∃ tail, name = '{' :: tail ∧ '{' ∉ tail := by
  unfold TemplateValues.placeholder at h
  split_ifs at h with hpid _ hpname _ hdatetime _ hdate _ htarget _ hexepath
  all_goals
    obtain ⟨rfl, -⟩ := Prod.mk.inj (Option.some.inj h)
    refine ⟨by assumption, ?_⟩
  · exact ⟨"pid\x7d".toList, rfl, by decide⟩
  · exact ⟨"pname\x7d".toList, rfl, by decide⟩
  · exact ⟨"datetime\x7d".toList, rfl, by decide⟩
  · exact ⟨"date\x7d".toList, rfl, by decide⟩
  · exact ⟨"target\x7d".toList, rfl, by decide⟩
  · exact ⟨"exepath\x7d".toList, rfl, by decide⟩

theorem references_after_placeholder {m : TemplateValues}
    {flags : TemplateFlags} {target : Option (List Char)} {c : Char}
    {rest name : List Char} {value : Option (List Char)}
    (h : m.placeholder flags target (c :: rest) = some (name, value)) :
    references (name.length - 1) rest = references 0 rest := by
  obtain ⟨hstart, tail, rfl, hbrace⟩ := TemplateValues.placeholder_name h
  obtain ⟨more, hmore⟩ := List.isPrefixOf_iff_prefix.mp hstart
  obtain ⟨-, rfl⟩ := List.cons.inj (List.cons_append ▸ hmore)
  rw [List.length_cons, Nat.add_sub_cancel, references_skip,
    references_append hbrace]

/-- The text can be expanded when its own placeholders have values and each
of its references has. -/
theorem TemplateValues.expand_isSome_iff (m : TemplateValues)
    (flags : TemplateFlags) (target : Option (List Char))
    (lookup : List Char → Option (List Char)) (skip : Nat)
    (text : List Char) :
    (m.expand flags target lookup skip text).isSome ↔
      (m.expand flags target (fun _ => some []) skip text).isSome ∧
        ∀ var ∈ references skip text, (lookup var).isSome := by
  induction text generalizing skip with
  | nil => simp [TemplateValues.expand, references]
  | cons c rest ih =>
      cases skip with
      | succ skip => simpa [TemplateValues.expand, references] using ih skip
      | zero =>
          rw [TemplateValues.expand, TemplateValues.expand, references]
          by_cases hbrace : c = '{'
          · rw [if_pos hbrace, if_pos hbrace]
            by_cases href : rest.head? = some '%' ∧ '}' ∈ rest
            · have hreference :
                  c = '{' ∧ rest.head? = some '%' ∧ '}' ∈ rest :=
                ⟨hbrace, href⟩
              rw [if_pos href, if_pos href, if_pos hreference]
              have hrest := ih
                (((rest.drop 1).takeWhile fun d => d != '}').length + 2)
              dsimp only
              by_cases hpercent :
                  '%' ∈ (rest.drop 1).takeWhile fun d => d != '}'
              · rw [if_pos hpercent, if_pos hpercent, if_pos hpercent]
                simpa only [Option.isSome_map] using hrest
              · rw [if_neg hpercent, if_neg hpercent, if_neg hpercent,
                  List.forall_mem_cons]
                cases hvalue : lookup
                    ((rest.drop 1).takeWhile fun d => d != '}') with
                | none => simp
                | some v =>
                    simpa only [Option.isSome_map, Option.isSome_some,
                      true_and] using hrest
            · rw [if_neg href, if_neg href, if_neg fun h => href h.2]
              cases hname : m.placeholder flags target (c :: rest) with
              | none => simpa only [Option.isSome_map] using ih 0
              | some found =>
                  obtain ⟨name, value⟩ := found
                  cases value with
                  | none => simp
                  | some value =>
                      have hrest := ih (name.length - 1)
                      rw [references_after_placeholder hname] at hrest
                      simpa only [Option.isSome_map] using hrest
          · rw [if_neg hbrace, if_neg hbrace, if_neg fun h => hbrace h.1]
            simpa only [Option.isSome_map] using ih 0

theorem TemplateValues.expand_reading (m : TemplateValues)
    (env : Environment) (flags : TemplateFlags)
    (target : Option (List Char))
    (lookup : List Char → Option (List Char)) (skip : Nat)
    (text : List Char) :
    (m.reading env).expand flags target lookup skip text =
      m.expand flags target lookup skip text := by
  have hplaceholder (text : List Char) :
      (m.reading env).placeholder flags target text =
        m.placeholder flags target text := rfl
  induction text generalizing skip with
  | nil => simp only [TemplateValues.expand]
  | cons c rest ih =>
      cases skip <;> simp only [TemplateValues.expand, ih, hplaceholder]

/-! ## The nested calls -/

section Nested

variable (m : TemplateValues) (env : Environment) (flags : TemplateFlags)
  (target : Option (List Char))

/-- The calls that the expansion of a variable's value makes. -/
def variableCalls (var : List Char) : List (List Char) :=
  references 0 (env.envGetVar var)

theorem expandNested_succ_isSome_iff (depth : Nat) (text : List Char) :
    ((m.reading env).expandNested flags target (depth + 1) text).isSome ↔
      m.PlaceholdersReplaced flags target text ∧
        ∀ var ∈ references 0 text,
          ((m.reading env).expandNested flags target depth
            (env.envGetVar var)).isSome := by
  rw [TemplateValues.expandNested, TemplateValues.expand_isSome_iff,
    TemplateValues.expand_reading]
  rfl

theorem returnsWithin_variable_iff (depth : Nat) (var : List Char) :
    ((m.reading env).expandNested flags target depth
        (env.envGetVar var)).isSome ↔
      NestedCalls.ReturnsWithin
        (fun v => m.PlaceholdersReplaced flags target (env.envGetVar v))
        (variableCalls env) depth var := by
  induction depth generalizing var with
  | zero => simp [TemplateValues.expandNested, NestedCalls.ReturnsWithin]
  | succ depth ih =>
      rw [expandNested_succ_isSome_iff, NestedCalls.ReturnsWithin]
      exact and_congr Iff.rfl (forall₂_congr fun v _ => ih v)

/-- A variable that is not in the table has no text, and refers to none. -/
theorem finite_variableCalls :
    {var | variableCalls env var ≠ []}.Finite := by
  refine (List.finite_toSet (env.map Prod.fst)).subset ?_
  intro var hcalls
  by_contra hmem
  have hlookup : env.lookup var = none := by
    refine List.lookup_eq_none_iff.mpr fun entry hentry => ?_
    refine bne_iff_ne.mpr fun heq => hmem ?_
    exact heq ▸ List.mem_map_of_mem hentry
  exact hcalls (by
    rw [variableCalls, Environment.envGetVar, hlookup, Option.getD_none]
    rfl)

theorem processTemplateReturns_iff_calls (p : List Char) :
    ProcessTemplateReturns (m.reading env) flags target p ↔
      m.PlaceholdersReplaced flags target p ∧
        ∀ var ∈ references 0 p,
          NestedCalls.Returns
            (fun v => m.PlaceholdersReplaced flags target (env.envGetVar v))
            (variableCalls env) var := by
  constructor
  · rintro ⟨depth, out, hout⟩
    have hsome := Option.isSome_of_eq_some hout
    cases depth with
    | zero => simp [TemplateValues.expandNested] at hsome
    | succ depth =>
        rw [expandNested_succ_isSome_iff] at hsome
        refine ⟨hsome.1, fun var hvar => ⟨depth, ?_⟩⟩
        exact (returnsWithin_variable_iff m env flags target depth var).mp
          (hsome.2 var hvar)
  · rintro ⟨hown, hcalls⟩
    obtain ⟨depth, hdepth⟩ := NestedCalls.exists_depth hcalls
    refine ⟨depth + 1, Option.isSome_iff_exists.mp ?_⟩
    rw [expandNested_succ_isSome_iff]
    refine ⟨hown, fun var hvar => ?_⟩
    exact (returnsWithin_variable_iff m env flags target depth var).mpr
      (hdepth var hvar)

/-- Every template, table of variables and set of parameters. -/
theorem processTemplateReturns_iff (p : List Char) :
    ProcessTemplateReturns (m.reading env) flags target p ↔
      m.PlaceholdersReplaced flags target p ∧
        ∀ var, ComesTo env p var →
          m.PlaceholdersReplaced flags target (env.envGetVar var) ∧
            ¬ RefersBack env var := by
  rw [processTemplateReturns_iff_calls]
  refine and_congr Iff.rfl ?_
  simp only [NestedCalls.returns_iff (finite_variableCalls env)]
  constructor
  · rintro h var ⟨first, hfirst, hreached⟩
    exact h first hfirst var hreached
  · intro h first hfirst var hreached
    exact h var ⟨first, hfirst, hreached⟩

end Nested

/-! ## A variable that refers to itself -/

def selfReference : Environment := [("A".toList, "{%A}".toList)]

/-- The first second of 1970. -/
def firstSecond : Tm := ⟨0, 0, 0, 1, 0, 4, 70⟩

def serverValues : TemplateValues where
  pid := 1
  exeName := "app".toList
  executablePath := "/opt/".toList
  envGetVar := fun _ => []
  zone := ⟨fun _ => some firstSecond, fun _ => 0⟩
  now := 0
  stack := 0

theorem not_processTemplateReturns_selfReference :
    ¬ ProcessTemplateReturns (serverValues.reading selfReference) templateAll
      none "{%A}".toList := by
  rw [processTemplateReturns_iff_calls]
  intro h
  obtain ⟨depth, hdepth⟩ := h.2 "A".toList (by decide)
  have hrefers : RefersTo selfReference "A".toList "A".toList := by
    rw [RefersTo]
    decide
  exact hdepth.not_leadsBack (Relation.TransGen.single hrefers)

end Logme
