import Mathlib.Data.List.Basic
import Mathlib.Data.Nat.Notation

/-!
# A directory tree with symbolic links

A path is the list of its segments, and the real path of an object is the list
of the names that lead to it from the root.  The kernel resolves a path from
left to right and follows at most forty links.  A trailing separator is a
segment of its own, as it is an element of a path in the library.
-/

namespace LinkedTree

inductive Segment (α : Type*) where
  | root
  | here
  | up
  | name (a : α)
  | slash
  deriving DecidableEq

abbrev Path (α : Type*) := List (Segment α)

inductive Node (α β : Type*) where
  | file (content : List β) (time : ℕ) (readable : Bool)
  | directory (entries : List (α × Node α β))
  | link (target : List (Segment α))
  | other

variable {α β : Type*} [DecidableEq α]

namespace Node

def isDirectory : Node α β → Bool
  | .directory _ => true
  | _ => false

def isLink : Node α β → Bool
  | .link _ => true
  | _ => false

def isFile : Node α β → Bool
  | .file _ _ _ => true
  | _ => false

def lookup (a : α) : Node α β → Option (Node α β)
  | .directory entries => entries.lookup a
  | _ => none

/-- The object below this one; links are not followed. -/
def get : Node α β → List α → Option (Node α β)
  | n, [] => some n
  | n, a :: rest => (n.lookup a).bind fun m => m.get rest

omit [DecidableEq α] in
@[simp] theorem isDirectory_directory (entries : List (α × Node α β)) :
    (Node.directory entries).isDirectory = true := rfl

theorem get_append (n : Node α β) (p q : List α) :
    n.get (p ++ q) = (n.get p).bind fun m => m.get q := by
  induction p generalizing n with
  | nil => rfl
  | cons a rest ih =>
      simp only [List.cons_append, get]
      cases n.lookup a with
      | none => rfl
      | some m => exact ih m

theorem get_child {n m : Node α β} {p : List α} {a : α}
    (h : n.get p = some m) : n.get (p ++ [a]) = m.lookup a := by
  rw [get_append, h]
  simp only [Option.bind_some, get]
  cases m.lookup a <;> rfl

theorem isDirectory_of_lookup {n m : Node α β} {a : α} (h : n.lookup a = some m) :
    n.isDirectory = true := by
  cases n <;> simp_all [lookup, isDirectory]

end Node

/-- A tree has a root directory, and a process works in some directory. -/
structure Tree (α β : Type*) [DecidableEq α] where
  entries : List (α × Node α β)
  cwd : List α
  works : ((Node.directory entries).get cwd).any Node.isDirectory = true

namespace Tree

def node (t : Tree α β) (p : List α) : Option (Node α β) :=
  (Node.directory t.entries).get p

def isDirectoryAt (t : Tree α β) (p : List α) : Bool :=
  (t.node p).any Node.isDirectory

theorem isDirectoryAt_cwd (t : Tree α β) : t.isDirectoryAt t.cwd = true :=
  t.works

theorem node_nil (t : Tree α β) : t.node [] = some (.directory t.entries) :=
  rfl

theorem node_child {t : Tree α β} {p : List α} {n : Node α β} {a : α}
    (h : t.node p = some n) : t.node (p ++ [a]) = n.lookup a :=
  Node.get_child h

theorem isDirectoryAt_iff {t : Tree α β} {p : List α} :
    t.isDirectoryAt p = true ↔ ∃ n, t.node p = some n ∧ n.isDirectory = true := by
  unfold isDirectoryAt
  cases t.node p <;> simp

theorem isDirectoryAt_of_child {t : Tree α β} {p : List α} {a : α}
    {n : Node α β} (h : t.node (p ++ [a]) = some n) :
    t.isDirectoryAt p = true := by
  cases hp : t.node p with
  | none =>
      unfold node at h hp
      rw [Node.get_append, hp] at h
      contradiction
  | some m =>
      rw [node_child hp] at h
      exact isDirectoryAt_iff.mpr ⟨m, hp, Node.isDirectory_of_lookup h⟩

theorem isDirectoryAt_dropLast {t : Tree α β} {p : List α}
    (h : t.isDirectoryAt p = true) : t.isDirectoryAt p.dropLast = true := by
  rcases List.eq_nil_or_concat p with rfl | ⟨q, a, rfl⟩
  · exact h
  · obtain ⟨n, hn, _⟩ := isDirectoryAt_iff.mp h
    rw [List.concat_eq_append] at hn ⊢
    rw [List.dropLast_concat]
    exact isDirectoryAt_of_child hn

end Tree

/-! ## Resolution by the kernel -/

/-- What resolving a path comes to; `missing` is also a path through something
that is no directory. -/
inductive Resolution (α : Type*) where
  | found (real : List α)
  | missing
  | loop
  deriving DecidableEq

/-- Go through the segments from a place in the tree, up to the first link. -/
def advance (t : Tree α β) (follow : List α → Path α → Resolution α) :
    List α → Path α → Resolution α
  | cur, [] => .found cur
  | cur, s :: rest =>
      if t.isDirectoryAt cur then
        match s with
        | .root => advance t follow [] rest
        | .here => advance t follow cur rest
        | .slash => advance t follow cur rest
        | .up => advance t follow cur.dropLast rest
        | .name a =>
            match t.node (cur ++ [a]) with
            | none => .missing
            | some (.link target) => follow cur (target ++ rest)
            | some _ => advance t follow (cur ++ [a]) rest
      else .missing

def walk (t : Tree α β) : ℕ → List α → Path α → Resolution α
  | 0 => advance t fun _ _ => .loop
  | links + 1 => advance t (walk t links)

def maxLinks : ℕ := 40

/-- `stat`; the empty path denotes nothing. -/
def status (t : Tree α β) (p : Path α) : Resolution α :=
  if p = [] then .missing else walk t maxLinks t.cwd p

def ofReal (real : List α) : Path α :=
  .root :: real.map .name

omit [DecidableEq α] in
theorem ofReal_injective {p q : List α} (h : ofReal p = ofReal q) : p = q := by
  have hmap : p.map Segment.name = q.map Segment.name := by
    simpa [ofReal] using h
  exact List.map_injective_iff.mpr (fun _ _ h => Segment.name.inj h) hmap

/-- Resolution ends at an object that is no link. -/
theorem advance_real {t : Tree α β} {follow : List α → Path α → Resolution α}
    {cur real : List α} {p : Path α}
    (hfollow : ∀ {cur q}, t.isDirectoryAt cur = true →
      follow cur q = .found real →
      ∃ n, t.node real = some n ∧ n.isLink = false)
    (hcur : ∃ n, t.node cur = some n ∧ n.isLink = false)
    (h : advance t follow cur p = .found real) :
    ∃ n, t.node real = some n ∧ n.isLink = false := by
  induction p generalizing cur with
  | nil =>
      have heq : cur = real := by simpa [advance] using h
      exact heq ▸ hcur
  | cons s rest ih =>
      unfold advance at h
      split at h
      case isFalse => contradiction
      case isTrue hdir =>
      have hplace : ∀ {q}, t.isDirectoryAt q = true →
          ∃ n, t.node q = some n ∧ n.isLink = false := by
        intro q hq
        obtain ⟨n, hn, hd⟩ := Tree.isDirectoryAt_iff.mp hq
        refine ⟨n, hn, ?_⟩
        cases n <;> simp_all [Node.isDirectory, Node.isLink]
      cases s with
      | root => exact ih ⟨_, t.node_nil, rfl⟩ h
      | here => exact ih hcur h
      | slash => exact ih hcur h
      | up => exact ih (hplace (Tree.isDirectoryAt_dropLast hdir)) h
      | name a =>
          simp only at h
          split at h
          · contradiction
          · exact hfollow hdir h
          · next n hnolink hn =>
              refine ih ⟨n, hn, ?_⟩ h
              cases n with
              | link target => exact absurd rfl (hnolink target)
              | _ => rfl

theorem status_real {t : Tree α β} {p : Path α} {real : List α}
    (h : status t p = .found real) :
    ∃ n, t.node real = some n ∧ n.isLink = false := by
  have hdir : ∀ {cur}, t.isDirectoryAt cur = true →
      ∃ n, t.node cur = some n ∧ n.isLink = false := by
    intro cur hcur
    obtain ⟨n, hn, hd⟩ := Tree.isDirectoryAt_iff.mp hcur
    refine ⟨n, hn, ?_⟩
    cases n <;> simp_all [Node.isDirectory, Node.isLink]
  have hwalk : ∀ links {cur q}, t.isDirectoryAt cur = true →
      walk t links cur q = .found real →
      ∃ n, t.node real = some n ∧ n.isLink = false := by
    intro links
    induction links with
    | zero =>
        intro cur q hcur hfound
        rw [walk] at hfound
        exact advance_real (by simp) (hdir hcur) hfound
    | succ links ih =>
        intro cur q hcur hfound
        exact advance_real ih (hdir hcur) hfound
  unfold status at h
  split at h
  · contradiction
  · exact hwalk maxLinks t.isDirectoryAt_cwd h

/-- A path with a trailing separator denotes a directory. -/
theorem advance_slash {t : Tree α β}
    {follow : List α → Path α → Resolution α} {cur real : List α} {p : Path α}
    (hfollow : ∀ {cur q}, follow cur (q ++ [.slash]) = .found real →
      t.isDirectoryAt real = true)
    (h : advance t follow cur (p ++ [.slash]) = .found real) :
    t.isDirectoryAt real = true := by
  induction p generalizing cur with
  | nil =>
      simp only [List.nil_append, advance] at h
      split at h
      · next hdir =>
          have heq : cur = real := by simpa using h
          exact heq ▸ hdir
      · contradiction
  | cons s rest ih =>
      simp only [List.cons_append, advance] at h
      split at h
      case isFalse => contradiction
      case isTrue =>
      cases s with
      | root => exact ih h
      | here => exact ih h
      | slash => exact ih h
      | up => exact ih h
      | name a =>
          simp only at h
          split at h
          · contradiction
          · rw [← List.append_assoc] at h
            exact hfollow h
          · exact ih h

theorem status_slash {t : Tree α β} {p : Path α} {real : List α}
    (h : status t (p ++ [.slash]) = .found real) :
    t.isDirectoryAt real = true := by
  have hwalk : ∀ links {cur q},
      walk t links cur (q ++ [.slash]) = .found real →
      t.isDirectoryAt real = true := by
    intro links
    induction links with
    | zero => exact advance_slash fun hloop => nomatch hloop
    | succ links ih => exact advance_slash ih
  unfold status at h
  split at h
  · contradiction
  · exact hwalk maxLinks h

theorem advance_names {t : Tree α β}
    (follow : List α → Path α → Resolution α) {p q : List α} {n : Node α β}
    (hnode : t.node (p ++ q) = some n) (hlink : n.isLink = false) :
    advance t follow p (q.map .name) = .found (p ++ q) := by
  induction q generalizing p with
  | nil => simp [advance]
  | cons a rest ih =>
      have hsplit : t.node (p ++ [a] ++ rest) = some n := by
        rw [List.append_assoc]
        exact hnode
      have hfound := ih hsplit
      rw [List.append_assoc, List.singleton_append] at hfound
      obtain ⟨m, hm, hmlink⟩ : ∃ m, t.node (p ++ [a]) = some m ∧
          m.isLink = false := by
        cases rest with
        | nil => exact ⟨n, by simpa using hsplit, hlink⟩
        | cons b more =>
            have hchild : t.isDirectoryAt (p ++ [a]) = true := by
              unfold Tree.node at hsplit
              rw [Node.get_append] at hsplit
              obtain ⟨m, hm, hget⟩ := Option.bind_eq_some_iff.mp hsplit
              obtain ⟨k, hk, _⟩ := Option.bind_eq_some_iff.mp hget
              exact Tree.isDirectoryAt_iff.mpr
                ⟨m, hm, Node.isDirectory_of_lookup hk⟩
            obtain ⟨m, hm, hd⟩ := Tree.isDirectoryAt_iff.mp hchild
            refine ⟨m, hm, ?_⟩
            cases m <;> simp_all [Node.isDirectory, Node.isLink]
      rw [List.map_cons, advance, if_pos (Tree.isDirectoryAt_of_child hm)]
      simp only [hm]
      cases m with
      | link target => contradiction
      | _ => exact hfound

/-- A real path denotes its object. -/
theorem status_ofReal {t : Tree α β} {real : List α} {n : Node α β}
    (hnode : t.node real = some n) (hlink : n.isLink = false) :
    status t (ofReal real) = .found real := by
  have hroot : ∀ follow, advance t follow t.cwd (ofReal real) =
      advance t follow [] (real.map .name) := by
    intro follow
    rw [ofReal, advance, if_pos t.isDirectoryAt_cwd]
  have hne : ofReal real ≠ [] := List.cons_ne_nil _ _
  rw [status, if_neg hne, maxLinks, walk, hroot]
  exact advance_names _ hnode hlink

/-! ## The path library -/

/-- `operator/`. -/
def join (p q : Path α) : Path α :=
  if q.head? = some .root then q
  else
    let base := if p.getLast? = some .slash then p.dropLast else p
    if q = [] then
      if base = [] ∨ base = [.root] then base else base ++ [.slash]
    else base ++ q

/-- One segment of a lexical normalisation: the segments kept, last first, and
whether a separator follows them. -/
def settle : Path α × Bool → Segment α → Path α × Bool
  | (_, _), .root => ([.root], false)
  | (kept, _), .here => (kept, true)
  | (kept, _), .slash => (kept, true)
  | (kept, _), .name a => (.name a :: kept, false)
  | (.name _ :: kept, _), .up => (kept, true)
  | (.root :: kept, _), .up => (.root :: kept, true)
  | (kept, _), .up => (.up :: kept, false)

def settled : Path α × Bool → Path α
  | ([], _) => [.here]
  | (.name a :: kept, true) => (.slash :: .name a :: kept).reverse
  | (kept, _) => kept.reverse

def lexicallyNormal (p : Path α) : Path α :=
  if p = [] then [] else settled (p.foldl settle ([], false))

/-- What is left of two paths after their common segments. -/
def mismatch : Path α → Path α → Path α × Path α
  | s :: p, s' :: q => if s = s' then mismatch p q else (s :: p, s' :: q)
  | p, q => (p, q)

def climbs : Path α → Int
  | [] => 0
  | .up :: rest => climbs rest - 1
  | .here :: rest => climbs rest
  | .slash :: rest => climbs rest
  | _ :: rest => climbs rest + 1

/-- The empty path where there is no relative one. -/
def lexicallyRelative (p base : Path α) : Path α :=
  if (p.head? = some .root) ≠ (base.head? = some .root) then []
  else
    let tails := mismatch p base
    if tails = ([], []) then [.here]
    else if climbs tails.2 < 0 then []
    else if climbs tails.2 = 0 ∧
        (tails.1 = [] ∨ tails.1.head? = some .slash) then [.here]
    else List.replicate (climbs tails.2).toNat .up ++ tails.1

/-- The leading segments that exist, and the others. -/
def existing (t : Tree α β) : Path α → Path α → Option (Path α × Path α)
  | done, [] => some (done, [])
  | done, s :: rest =>
      match status t (done ++ [s]) with
      | .found _ => existing t (done ++ [s]) rest
      | .missing => some (done, s :: rest)
      | .loop => none

def canonical (t : Tree α β) (p : Path α) : Option (Path α) :=
  match status t p with
  | .found real => some (ofReal real)
  | _ => none

/-- The real path of what exists; of a path that does not, the canonical path
of the leading segments that do, and the others without dots. -/
def weaklyCanonical (t : Tree α β) (p : Path α) : Option (Path α) :=
  match status t p with
  | .found real => some (ofReal real)
  | .loop => none
  | .missing =>
      (existing t [] p).bind fun parts =>
        if parts.1 = [] then some (lexicallyNormal parts.2)
        else (canonical t parts.1).map fun c => lexicallyNormal (c ++ parts.2)

def relative (t : Tree α β) (p base : Path α) : Option (Path α) :=
  (weaklyCanonical t p).bind fun cp =>
    (weaklyCanonical t base).map fun cbase => lexicallyRelative cp cbase

/-- The path that `weakly_canonical` answers with leads through no link. -/
def linksResolved (t : Tree α β) (p : Path α) : Bool :=
  match weaklyCanonical t p with
  | none => true
  | some q =>
      match status t q with
      | .found real => q = ofReal real
      | _ => true

theorem weaklyCanonical_found {t : Tree α β} {p : Path α} {real : List α}
    (h : status t p = .found real) :
    weaklyCanonical t p = some (ofReal real) := by
  simp [weaklyCanonical, h]

theorem eq_ofReal {t : Tree α β} {p q : Path α} {real : List α}
    (hresolved : linksResolved t p = true) (hq : weaklyCanonical t p = some q)
    (hreal : status t q = .found real) : q = ofReal real := by
  simpa [linksResolved, hq, hreal] using hresolved

/-- Links are resolved in every path that exists. -/
theorem linksResolved_found {t : Tree α β} {p : Path α} {real : List α}
    (h : status t p = .found real) : linksResolved t p = true := by
  obtain ⟨n, hnode, hlink⟩ := status_real h
  simp [linksResolved, weaklyCanonical_found h, status_ofReal hnode hlink]

theorem existing_append {t : Tree α β} {done p d r : Path α}
    (h : existing t done p = some (d, r)) : d ++ r = done ++ p := by
  induction p generalizing done with
  | nil =>
      simp only [existing, Option.some.injEq, Prod.mk.injEq] at h
      rw [← h.1, ← h.2]
  | cons s rest ih =>
      rw [existing] at h
      split at h
      · simpa using ih h
      · simp only [Option.some.injEq, Prod.mk.injEq] at h
        rw [← h.1, ← h.2]
      · contradiction

theorem existing_all {t : Tree α β} {done p d : Path α} (hp : p ≠ [])
    (h : existing t done p = some (d, [])) :
    ∃ real, status t (done ++ p) = .found real := by
  induction p generalizing done with
  | nil => exact absurd rfl hp
  | cons s rest ih =>
      rw [existing] at h
      split at h
      · next real hfound =>
          cases rest with
          | nil => exact ⟨real, hfound⟩
          | cons s' more =>
              obtain ⟨real', hreal'⟩ := ih (List.cons_ne_nil _ _) h
              exact ⟨real', by simpa using hreal'⟩
      · simp at h
      · contradiction

omit [DecidableEq α] in
theorem settled_slash (state : Path α × Bool) {real : List α}
    (h : settled (settle state .slash) = ofReal real) : real = [] := by
  have hlast : real ≠ [] → ∃ a, (ofReal real).getLast? = some (.name a) := by
    intro hne
    obtain ⟨init, a, rfl⟩ := List.eq_nil_or_concat real |>.resolve_left hne
    refine ⟨a, ?_⟩
    rw [List.concat_eq_append, ofReal, List.map_append, ← List.cons_append]
    exact List.getLast?_concat
  by_contra hne
  obtain ⟨a, ha⟩ := hlast hne
  rw [← h] at ha
  obtain ⟨kept, trailing⟩ := state
  cases kept with
  | nil => simp [settle, settled] at ha
  | cons s rest => cases s <;> simp [settle, settled] at ha

omit [DecidableEq α] in
theorem lexicallyNormal_slash {p : Path α} {real : List α}
    (h : lexicallyNormal (p ++ [.slash]) = ofReal real) : real = [] := by
  have hne : p ++ [.slash] ≠ [] := by simp
  rw [lexicallyNormal, if_neg hne, List.foldl_append] at h
  exact settled_slash _ h

/-- A path with a trailing separator never resolves to a file. -/
theorem weaklyCanonical_slash {t : Tree α β} {p : Path α} {real : List α}
    (h : weaklyCanonical t (p ++ [.slash]) = some (ofReal real)) :
    real = [] ∨ t.isDirectoryAt real = true := by
  unfold weaklyCanonical at h
  split at h
  · next real' hfound =>
      have heq : real' = real := ofReal_injective (Option.some.inj h)
      exact .inr (heq ▸ status_slash hfound)
  · contradiction
  · next hmissing =>
      obtain ⟨⟨d, r⟩, hparts, hres⟩ := Option.bind_eq_some_iff.mp h
      have happend := existing_append hparts
      rcases List.eq_nil_or_concat r with rfl | ⟨init, s, rfl⟩
      · obtain ⟨real', hreal'⟩ := existing_all (by simp) hparts
        rw [List.nil_append, hmissing] at hreal'
        contradiction
      · rw [List.concat_eq_append, ← List.append_assoc, List.nil_append]
          at happend
        have hs : s = .slash := by
          simpa using (List.append_inj' happend rfl).2
        subst hs
        rw [List.concat_eq_append] at hres
        simp only at hres
        split at hres
        · exact .inl (lexicallyNormal_slash (Option.some.inj hres))
        · obtain ⟨c, _, hc⟩ := Option.map_eq_some_iff.mp hres
          rw [← List.append_assoc] at hc
          exact .inl (lexicallyNormal_slash hc)

end LinkedTree
