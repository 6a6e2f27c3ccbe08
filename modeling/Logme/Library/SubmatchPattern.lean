import Logme.Library.EcmaScriptPattern

/-!
# Patterns with submatches

A pattern is a sequence of quantified atoms: classes of characters, and
groups of such classes whose last match is recorded.  The matches of a text
are listed in the order in which a backtracking matcher finds them, the
longest repetition first, and the first one counts.  Alternatives and nested
groups are left out, and the reader refuses them.
-/

namespace SubmatchPattern

open EcmaScriptPattern

/-- How often an atom may be repeated. -/
structure Bounds where
  least : Nat
  most : Option Nat

def Bounds.once : Bounds := ⟨1, some 1⟩

def Bounds.next (b : Bounds) : Bounds := ⟨b.least - 1, b.most.map (· - 1)⟩

structure Piece where
  accepts : Char → Bool
  bounds : Bounds

inductive Term where
  | piece (p : Piece)
  | group (body : List Piece) (bounds : Bounds)

/-! ## Matches -/

/-- What is left behind a repeated class. -/
def classRests (accepts : Char → Bool) : Bounds → List Char → List (List Char)
  | b, [] => if b.least = 0 then [[]] else []
  | b, c :: w =>
      (if accepts c = true ∧ b.most ≠ some 0 then classRests accepts b.next w
        else []) ++
      if b.least = 0 then [c :: w] else []

def bodyRests : List Piece → List Char → List (List Char)
  | [], w => [w]
  | p :: body, w => (classRests p.accepts p.bounds w).flatMap (bodyRests body)

/-- The last match of a repeated group and what is left behind it.  Beyond
the least number of repetitions, one that matches nothing is no match. -/
def groupRests (body : List Piece) :
    Nat → Bounds → List Char → List Char → List (List Char × List Char)
  | 0, _, _, _ => []
  | fuel + 1, b, last, w =>
      (if b.most = some 0 then []
        else (bodyRests body w).flatMap fun rest =>
          if b.least = 0 ∧ rest.length = w.length then []
          else groupRests body fuel b.next (w.take (w.length - rest.length)) rest) ++
      if b.least = 0 then [(last, w)] else []

/-- The submatches of every match of the whole text. -/
def submatches : List Term → List Char → List (List (List Char))
  | [], w => if w = [] then [[]] else []
  | .piece p :: terms, w =>
      (classRests p.accepts p.bounds w).flatMap (submatches terms)
  | .group body b :: terms, w =>
      (groupRests body (b.least + w.length + 1) b [] w).flatMap fun m =>
        (submatches terms m.2).map (m.1 :: ·)

/-- `regex_match`, with the submatches of the groups. -/
def regexMatch (terms : List Term) (w : List Char) : Option (List (List Char)) :=
  (submatches terms w).head?

/-! ## Pattern texts -/

inductive Mode where
  | plain
  | escape
  | interval (bounds : List Char)
  | brackets (members : List Char)

/-- The last term stands first.  A quantifier may follow only an atom. -/
structure Reader where
  mode : Mode
  terms : List Term
  inside : Option (List Piece)
  atom : Bool

/-- The class of single letters and digits and of ranges between brackets. -/
def classOf : List Char → Option (Char → Bool)
  | [] => some fun _ => false
  | a :: '-' :: b :: rest =>
      if a.isAlphanum ∧ b.isAlphanum ∧ a ≤ b then
        (classOf rest).map fun p c => (decide (a ≤ c) && decide (c ≤ b)) || p c
      else none
  | a :: rest =>
      if a.isAlphanum then (classOf rest).map fun p c => c == a || p c else none

def Reader.push (s : Reader) (accepts : Char → Bool) : Reader :=
  let p : Piece := ⟨accepts, .once⟩
  match s.inside with
  | none => ⟨.plain, .piece p :: s.terms, none, true⟩
  | some body => ⟨.plain, s.terms, some (p :: body), true⟩

def Reader.quantify (s : Reader) (b : Bounds) : Option Reader :=
  if s.atom then
    match s.inside, s.terms with
    | some (p :: body), terms =>
        some ⟨.plain, terms, some (⟨p.accepts, b⟩ :: body), false⟩
    | none, .piece p :: terms => some ⟨.plain, .piece ⟨p.accepts, b⟩ :: terms, none, false⟩
    | none, .group body _ :: terms => some ⟨.plain, .group body b :: terms, none, false⟩
    | _, _ => none
  else none

def Reader.plainStep (s : Reader) (c : Char) : Option Reader :=
  if c = '\\' then some { s with mode := .escape }
  else if c = '.' then some (s.push fun d => !isLineTerminator d)
  else if c = '[' then some { s with mode := .brackets [] }
  else if c = '(' then
    match s.inside with
    | none => some ⟨.plain, s.terms, some [], false⟩
    | some _ => none
  else if c = ')' then
    match s.inside with
    | none => none
    | some body => some ⟨.plain, .group body.reverse .once :: s.terms, none, true⟩
  else if c = '*' then s.quantify ⟨0, none⟩
  else if c = '+' then s.quantify ⟨1, none⟩
  else if c = '?' then s.quantify ⟨0, some 1⟩
  else if c = '{' then
    if s.atom then some { s with mode := .interval [] } else none
  else if isSyntaxCharacter c then none
  else some (s.push fun d => d == c)

def Reader.step (s : Reader) (c : Char) : Option Reader :=
  match s.mode with
  | .plain => s.plainStep c
  | .escape =>
      if c.isAlphanum ∨ c = '_' then none else some (s.push fun d => d == c)
  | .interval bounds =>
      if c = '}' then
        (parseBounds bounds).bind fun b => s.quantify ⟨b.1, b.2⟩
      else some { s with mode := .interval (bounds ++ [c]) }
  | .brackets members =>
      if c = ']' then (classOf members).map s.push
      else some { s with mode := .brackets (members ++ [c]) }

def Reader.read (s : Reader) : List Char → Option Reader
  | [] => some s
  | c :: rest => (s.step c).bind fun s => s.read rest

/-- The pattern of a text; `none` when the text is refused. -/
def compile (text : List Char) : Option (List Term) :=
  match Reader.read ⟨.plain, [], none, false⟩ text with
  | some ⟨.plain, terms, none, _⟩ => some terms.reverse
  | _ => none

/-! ## What a text adds -/

theorem Reader.read_append (s : Reader) (v w : List Char) :
    s.read (v ++ w) = (s.read v).bind fun s => s.read w := by
  induction v generalizing s with
  | nil => rfl
  | cons c v ih =>
      rw [List.cons_append, read, read]
      cases s.step c with
      | none => rfl
      | some next => exact ih next

/-- The text adds the terms to the pattern read so far. -/
def Adds (text : List Char) (terms : List Term) : Prop :=
  ∀ before atom, ∃ atom', Reader.read ⟨.plain, before, none, atom⟩ text =
    some ⟨.plain, terms.reverse ++ before, none, atom'⟩

theorem adds_nil : Adds [] [] := fun _ atom => ⟨atom, rfl⟩

theorem Adds.append {v w : List Char} {s t : List Term} (hv : Adds v s)
    (hw : Adds w t) : Adds (v ++ w) (s ++ t) := by
  intro before atom
  rcases hv before atom with ⟨atom₁, hread₁⟩
  rcases hw (s.reverse ++ before) atom₁ with ⟨atom₂, hread₂⟩
  refine ⟨atom₂, ?_⟩
  rw [Reader.read_append, hread₁, Option.bind_some, hread₂, List.reverse_append,
    List.append_assoc]

theorem Adds.compile {text : List Char} {terms : List Term}
    (h : Adds text terms) : compile text = some terms := by
  rcases h [] false with ⟨atom, hread⟩
  rw [SubmatchPattern.compile, hread, List.append_nil]
  simp

/-- One character that stands for itself. -/
def letter (c : Char) : Term := .piece ⟨fun d => d == c, .once⟩

theorem adds_character {c : Char} (hc : isSyntaxCharacter c = false) :
    Adds [c] [letter c] := by
  have hne : ∀ d, isSyntaxCharacter d = true → c ≠ d := fun _ => ne_syntaxCharacter hc
  intro before atom
  refine ⟨true, ?_⟩
  have hstep : Reader.plainStep ⟨.plain, before, none, atom⟩ c =
      some ⟨.plain, letter c :: before, none, true⟩ := by
    unfold Reader.plainStep
    rw [if_neg (hne '\\' rfl), if_neg (hne '.' rfl), if_neg (hne '[' rfl),
      if_neg (hne '(' rfl), if_neg (hne ')' rfl), if_neg (hne '*' rfl),
      if_neg (hne '+' rfl), if_neg (hne '?' rfl), if_neg (hne '{' rfl), hc]
    rfl
  simp only [Reader.read, Reader.step, hstep]
  rfl

theorem adds_escape {c : Char} (hc : isSyntaxCharacter c = true) :
    Adds ['\\', c] [letter c] := by
  intro before atom
  refine ⟨true, ?_⟩
  simp only [Reader.read, Reader.step, Reader.plainStep, if_pos, Option.bind_some]
  rw [if_neg (not_wordCharacter hc)]
  rfl

/-! ## What a term matches -/

theorem mem_submatches_nil {w : List Char} {x : List (List Char)} :
    x ∈ submatches [] w ↔ w = [] ∧ x = [] := by
  rw [submatches]
  split
  next hw => simp [hw]
  next hw => simp [hw]

theorem classRests_none (accepts : Char → Bool) (w : List Char) :
    classRests accepts ⟨0, some 0⟩ w = [w] := by
  cases w <;> simp [classRests]

theorem mem_classRests_once {accepts : Char → Bool} {w rest : List Char} :
    rest ∈ classRests accepts .once w ↔
      ∃ c, accepts c = true ∧ w = c :: rest := by
  cases w with
  | nil => simp [classRests, Bounds.once]
  | cons c w =>
      have hnext : Bounds.once.next = ⟨0, some 0⟩ := rfl
      have hmost : Bounds.once.most ≠ some 0 := by simp [Bounds.once]
      have hleast : Bounds.once.least ≠ 0 := by simp [Bounds.once]
      rw [classRests, hnext, classRests_none, if_neg hleast, List.append_nil]
      constructor
      · intro hmem
        split at hmem
        next hc => exact ⟨c, hc.1, by rw [List.mem_singleton.mp hmem]⟩
        next => simp at hmem
      · rintro ⟨d, hd, hcons⟩
        rw [List.cons.injEq] at hcons
        rcases hcons with ⟨rfl, rfl⟩
        rw [if_pos ⟨hd, hmost⟩]
        exact List.mem_singleton_self w

/-- What one or more characters of a class can leave. -/
theorem mem_classRests_some {accepts : Char → Bool} {least : Nat}
    (hleast : least ≤ 1) {w rest : List Char} :
    rest ∈ classRests accepts ⟨least, none⟩ w ↔
      ∃ v, w = v ++ rest ∧ least ≤ v.length ∧ ∀ c ∈ v, accepts c = true := by
  induction w generalizing least with
  | nil =>
      rw [classRests]
      constructor
      · intro hmem
        split at hmem
        next hzero =>
          rw [List.mem_singleton] at hmem
          exact ⟨[], by simp [hmem], by simp at hzero; simp [hzero], by simp⟩
        next => simp at hmem
      · rintro ⟨v, hnil, hlen, _⟩
        rcases List.append_eq_nil_iff.mp hnil.symm with ⟨rfl, rfl⟩
        simp only [List.length_nil, Nat.le_zero] at hlen
        simp [hlen]
  | cons c w ih =>
      have hnext : Bounds.next ⟨least, none⟩ = ⟨0, none⟩ := by
        rw [Bounds.next]
        simp
        omega
      rw [classRests, hnext, List.mem_append]
      constructor
      · rintro (hmem | hmem)
        · split at hmem
          next hc =>
            rcases (ih (Nat.zero_le 1)).mp hmem with ⟨v, rfl, _, hv⟩
            exact ⟨c :: v, rfl, by simp; omega, List.forall_mem_cons.mpr ⟨hc.1, hv⟩⟩
          next => simp at hmem
        · split at hmem
          next hzero =>
            rw [List.mem_singleton] at hmem
            exact ⟨[], by simp [hmem], by simp at hzero; simp [hzero], by simp⟩
          next => simp at hmem
      · rintro ⟨v, hw, hlen, hv⟩
        cases v with
        | nil =>
            simp only [List.length_nil, Nat.le_zero] at hlen
            rw [List.nil_append] at hw
            right
            rw [if_pos hlen, hw]
            exact List.mem_singleton_self rest
        | cons d v =>
            rw [List.cons_append, List.cons.injEq] at hw
            rcases hw with ⟨rfl, rfl⟩
            rcases List.forall_mem_cons.mp hv with ⟨hc, hv⟩
            left
            rw [if_pos ⟨hc, by simp⟩]
            exact (ih (Nat.zero_le 1)).mpr ⟨v, rfl, Nat.zero_le _, hv⟩

theorem mem_submatches_letter {c : Char} {terms : List Term} {w : List Char}
    {x : List (List Char)} :
    x ∈ submatches (letter c :: terms) w ↔
      ∃ rest, w = c :: rest ∧ x ∈ submatches terms rest := by
  rw [letter, submatches, List.mem_flatMap]
  constructor
  · rintro ⟨rest, hrest, hx⟩
    rcases mem_classRests_once.mp hrest with ⟨d, hd, rfl⟩
    exact ⟨rest, by rw [eq_of_beq hd], hx⟩
  · rintro ⟨rest, rfl, hx⟩
    exact ⟨rest, mem_classRests_once.mpr ⟨c, beq_self_eq_true c, rfl⟩, hx⟩

/-- A text that stands for itself. -/
theorem mem_submatches_letters {v : List Char} {terms : List Term}
    {w : List Char} {x : List (List Char)} :
    x ∈ submatches (v.map letter ++ terms) w ↔
      ∃ rest, w = v ++ rest ∧ x ∈ submatches terms rest := by
  induction v generalizing w with
  | nil => simp
  | cons c v ih =>
      rw [List.map_cons, List.cons_append, mem_submatches_letter]
      constructor
      · rintro ⟨tail, rfl, hx⟩
        rcases ih.mp hx with ⟨rest, htail, hrest⟩
        exact ⟨rest, by rw [htail, List.cons_append], hrest⟩
      · rintro ⟨rest, rfl, hx⟩
        exact ⟨v ++ rest, rfl, ih.mpr ⟨rest, rfl, hx⟩⟩

theorem mem_bodyRests_letters {v w rest : List Char} :
    rest ∈ bodyRests (v.map fun c => ⟨fun d => d == c, .once⟩) w ↔
      w = v ++ rest := by
  induction v generalizing w with
  | nil => simp [bodyRests, eq_comm]
  | cons c v ih =>
      rw [List.map_cons, bodyRests, List.mem_flatMap]
      constructor
      · rintro ⟨rest', hrest', hmem⟩
        rcases mem_classRests_once.mp hrest' with ⟨d, hd, rfl⟩
        rw [eq_of_beq hd, ih.mp hmem, List.cons_append]
      · rintro rfl
        exact ⟨v ++ rest, mem_classRests_once.mpr ⟨c, beq_self_eq_true c, rfl⟩, ih.mpr rfl⟩

theorem classRests_suffix {accepts : Char → Bool} {b : Bounds}
    {w rest : List Char} (hrest : rest ∈ classRests accepts b w) : rest <:+ w := by
  induction w generalizing b with
  | nil =>
      rw [classRests] at hrest
      split at hrest
      next => simp [List.mem_singleton.mp hrest]
      next => simp at hrest
  | cons c w ih =>
      rw [classRests] at hrest
      rcases List.mem_append.mp hrest with hrest | hrest
      · split at hrest
        next => exact (ih hrest).trans (List.suffix_cons c w)
        next => simp at hrest
      · split at hrest
        next =>
          rw [List.mem_singleton.mp hrest]
        next => simp at hrest

theorem bodyRests_suffix {body : List Piece} {w rest : List Char}
    (hrest : rest ∈ bodyRests body w) : rest <:+ w := by
  induction body generalizing w with
  | nil =>
      rw [bodyRests, List.mem_singleton] at hrest
      rw [hrest]
  | cons p body ih =>
      rw [bodyRests, List.mem_flatMap] at hrest
      rcases hrest with ⟨next, hnext, hrest⟩
      exact (ih hrest).trans (classRests_suffix hnext)

section Groups

variable {body : List Piece} {terms : List Term} {w : List Char}
  {x : List (List Char)}

theorem groupRests_none (fuel : Nat) (last w : List Char) :
    groupRests body (fuel + 1) ⟨0, some 0⟩ last w = [(last, w)] := by
  rw [groupRests, if_pos rfl, if_pos rfl, List.nil_append]

theorem take_of_append (v rest : List Char) :
    (v ++ rest).take ((v ++ rest).length - rest.length) = v := by
  rw [List.length_append, Nat.add_sub_cancel, List.take_left]

/-- A group that matches exactly once. -/
theorem mem_submatches_group :
    x ∈ submatches (.group body .once :: terms) w ↔
      ∃ v rest y, w = v ++ rest ∧ rest ∈ bodyRests body w ∧
        x = v :: y ∧ y ∈ submatches terms rest := by
  have hnext : Bounds.once.next = ⟨0, some 0⟩ := rfl
  have hmost : Bounds.once.most ≠ some 0 := by simp [Bounds.once]
  have hleast : Bounds.once.least = 1 := rfl
  have hgroup : groupRests body (Bounds.once.least + w.length + 1) .once [] w =
      (bodyRests body w).map fun rest =>
        (w.take (w.length - rest.length), rest) := by
    rw [groupRests, if_neg hmost, hnext, hleast, if_neg Nat.one_ne_zero,
      List.append_nil, List.map_eq_flatMap]
    congr 1
    funext rest
    rw [if_neg (by simp), Nat.add_comm, groupRests_none]
  rw [submatches, hgroup, List.mem_flatMap]
  constructor
  · rintro ⟨m, hm, hx⟩
    rcases List.mem_map.mp hm with ⟨rest, hrest, rfl⟩
    rcases List.mem_map.mp hx with ⟨y, hy, rfl⟩
    rcases bodyRests_suffix hrest with ⟨v, rfl⟩
    exact ⟨v, rest, y, rfl, hrest, by rw [take_of_append], hy⟩
  · rintro ⟨v, rest, y, rfl, hrest, rfl, hy⟩
    refine ⟨_, List.mem_map.mpr ⟨rest, hrest, rfl⟩, List.mem_map.mpr ⟨y, hy, ?_⟩⟩
    rw [take_of_append]

/-- A group that may be missing. -/
theorem mem_submatches_optional :
    x ∈ submatches (.group body ⟨0, some 1⟩ :: terms) w ↔
      (∃ v rest y, v ≠ [] ∧ w = v ++ rest ∧ rest ∈ bodyRests body w ∧
        x = v :: y ∧ y ∈ submatches terms rest) ∨
      ∃ y, x = [] :: y ∧ y ∈ submatches terms w := by
  have hnext : Bounds.next ⟨0, some 1⟩ = ⟨0, some 0⟩ := rfl
  have hmem : ∀ m, m ∈ groupRests body (0 + w.length + 1) ⟨0, some 1⟩ [] w ↔
      (∃ v rest, v ≠ [] ∧ w = v ++ rest ∧ rest ∈ bodyRests body w ∧
        m = (v, rest)) ∨ m = ([], w) := by
    intro m
    rw [groupRests, if_neg (by simp), hnext, if_pos rfl, List.mem_append,
      List.mem_singleton, List.mem_flatMap]
    refine or_congr_left ⟨?_, ?_⟩
    · rintro ⟨rest, hrest, hm⟩
      rcases bodyRests_suffix hrest with ⟨v, rfl⟩
      cases v with
      | nil => simp at hm
      | cons c v =>
          rw [if_neg (by simp; omega), List.cons_append, List.length_cons, ← Nat.add_assoc,
            groupRests_none, List.mem_singleton] at hm
          refine ⟨c :: v, rest, by simp, rfl, hrest, ?_⟩
          rw [hm, ← List.length_cons, ← List.cons_append, take_of_append]
    · rintro ⟨v, rest, hv, rfl, hrest, rfl⟩
      refine ⟨rest, hrest, ?_⟩
      cases v with
      | nil => exact absurd rfl hv
      | cons c v =>
          rw [if_neg (by simp; omega), take_of_append, List.cons_append, List.length_cons,
            ← Nat.add_assoc, groupRests_none]
          exact List.mem_singleton_self _
  rw [submatches, List.mem_flatMap]
  constructor
  · rintro ⟨m, hm, hx⟩
    rcases List.mem_map.mp hx with ⟨y, hy, rfl⟩
    rcases (hmem m).mp hm with ⟨v, rest, hv, hw, hrest, rfl⟩ | rfl
    · exact .inl ⟨v, rest, y, hv, hw, hrest, rfl, hy⟩
    · exact .inr ⟨y, rfl, hy⟩
  · rintro (⟨v, rest, y, hv, hw, hrest, rfl, hy⟩ | ⟨y, rfl, hy⟩)
    · exact ⟨(v, rest), (hmem _).mpr (.inl ⟨v, rest, hv, hw, hrest, rfl⟩),
        List.mem_map.mpr ⟨y, hy, rfl⟩⟩
    · exact ⟨([], w), (hmem _).mpr (.inr rfl), List.mem_map.mpr ⟨y, hy, rfl⟩⟩

end Groups

/-- When the matches agree on the first submatch, it is the one found. -/
theorem regexMatch_of_unique {terms : List Term} {w v : List Char}
    (hsome : ∃ x, x ∈ submatches terms w)
    (hunique : ∀ x ∈ submatches terms w, x.head? = some v) :
    ∃ rest, regexMatch terms w = some (v :: rest) := by
  cases hmatches : submatches terms w with
  | nil =>
      rcases hsome with ⟨x, hx⟩
      rw [hmatches] at hx
      exact absurd hx List.not_mem_nil
  | cons x others =>
      have hx := hunique x (by rw [hmatches]; exact List.mem_cons_self)
      cases x with
      | nil => simp at hx
      | cons first rest =>
          rw [List.head?_cons, Option.some.injEq] at hx
          exact ⟨rest, by rw [regexMatch, hmatches, hx]; rfl⟩

end SubmatchPattern
