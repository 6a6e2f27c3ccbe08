import Logme.Library.Regex

/-!
# ECMAScript pattern texts

A reader for the pattern syntax of ECMAScript: alternatives, groups, the
wildcard, escaped characters and quantifiers.  A brace is never an ordinary
character: it opens or closes a quantifier behind an atom, and a text with
any other brace is refused.  Character classes, assertions, lazy quantifiers
and escapes of letters and digits are left out and refused as well.
-/

namespace EcmaScriptPattern

/-- A group whose closing parenthesis has not been read.  A quantifier may
follow only the last atom. -/
structure Group where
  choices : Regex Char
  sequence : Regex Char
  atom : Option (Regex Char)

/-- What the next character belongs to. -/
inductive Mode where
  | plain
  | escape
  | interval (bounds : List Char)

structure Reader where
  mode : Mode
  current : Group
  outer : List Group

def Group.empty : Group := ⟨.zero, .epsilon, none⟩

def Group.terms (g : Group) : Regex Char :=
  match g.atom with
  | none => g.sequence
  | some r => .comp g.sequence r

def Group.regex (g : Group) : Regex Char := .plus g.choices g.terms

def Group.push (g : Group) (r : Regex Char) : Group :=
  { g with sequence := g.terms, atom := some r }

def Group.nextChoice (g : Group) : Group := ⟨g.regex, .epsilon, none⟩

def Group.quantify (g : Group) (f : Regex Char → Regex Char) : Option Group :=
  g.atom.map fun r =>
    { g with sequence := .comp g.sequence (f r), atom := none }

def isLineTerminator (c : Char) : Bool :=
  c == '\n' || c == '\r' || c == '\u2028' || c == '\u2029'

def wildcard : Regex Char := .letter fun c => !isLineTerminator c

def character (c : Char) : Regex Char := .letter fun d => d == c

def oneOrMore (r : Regex Char) : Regex Char := .comp r (.star r)

def zeroOrOne (r : Regex Char) : Regex Char := .plus .epsilon r

/-- Between `n` and `m` times. -/
def between (n : Nat) (m : Option Nat) (r : Regex Char) : Regex Char :=
  match m with
  | none => .comp (r.pow n) (.star r)
  | some m => .comp (r.pow n) ((zeroOrOne r).pow (m - n))

def parseNumber (digits : List Char) : Option Nat :=
  if digits ≠ [] ∧ digits.all Char.isDigit then
    some (digits.foldl (fun n c => 10 * n + (c.toNat - '0'.toNat)) 0)
  else none

/-- The text between the braces of a quantifier. -/
def parseBounds (bounds : List Char) : Option (Nat × Option Nat) :=
  match bounds.splitOn ',' with
  | [n] => (parseNumber n).map fun n => (n, some n)
  | [n, []] => (parseNumber n).map fun n => (n, none)
  | [n, m] =>
      match parseNumber n, parseNumber m with
      | some n, some m => if n ≤ m then some (n, some m) else none
      | _, _ => none
  | _ => none

def isSyntaxCharacter (c : Char) : Bool :=
  c ∈ ['^', '$', '\\', '.', '*', '+', '?', '(', ')', '[', ']', '{', '}', '|']

def Reader.quantify (s : Reader) (f : Regex Char → Regex Char) :
    Option Reader :=
  (s.current.quantify f).map fun g => { s with mode := .plain, current := g }

def Reader.push (s : Reader) (r : Regex Char) : Reader :=
  { s with mode := .plain, current := s.current.push r }

def Reader.plainStep (s : Reader) (c : Char) : Option Reader :=
  if c = '\\' then some { s with mode := .escape }
  else if c = '.' then some (s.push wildcard)
  else if c = '(' then
    some { s with current := .empty, outer := s.current :: s.outer }
  else if c = ')' then
    match s.outer with
    | [] => none
    | g :: outer =>
        some { s with current := g.push s.current.regex, outer := outer }
  else if c = '|' then some { s with current := s.current.nextChoice }
  else if c = '*' then s.quantify .star
  else if c = '+' then s.quantify oneOrMore
  else if c = '?' then s.quantify zeroOrOne
  else if c = '{' then
    s.current.atom.map fun _ => { s with mode := .interval [] }
  else if isSyntaxCharacter c then none
  else some (s.push (character c))

def Reader.step (s : Reader) (c : Char) : Option Reader :=
  match s.mode with
  | .plain => s.plainStep c
  | .escape =>
      if c.isAlphanum ∨ c = '_' then none else some (s.push (character c))
  | .interval bounds =>
      if c = '}' then
        match parseBounds bounds with
        | none => none
        | some (n, m) => s.quantify (between n m)
      else some { s with mode := .interval (bounds ++ [c]) }

def Reader.read (s : Reader) : List Char → Option Reader
  | [] => some s
  | c :: rest =>
      match s.step c with
      | none => none
      | some s => s.read rest

/-- The expression of a pattern text; `none` when the text is refused. -/
def compile (text : List Char) : Option (Regex Char) :=
  match Reader.read ⟨.plain, .empty, []⟩ text with
  | some ⟨.plain, current, []⟩ => some current.regex
  | _ => none

theorem ne_syntaxCharacter {c d : Char} (hc : isSyntaxCharacter c = false)
    (hd : isSyntaxCharacter d = true) : c ≠ d := by
  rintro rfl
  rw [hc] at hd
  exact absurd hd (by simp)

/-- A syntax character is not part of a word. -/
theorem not_wordCharacter {c : Char} (hc : isSyntaxCharacter c = true) :
    ¬ (c.isAlphanum = true ∨ c = '_') := by
  simp only [isSyntaxCharacter, List.mem_cons, List.not_mem_nil, or_false,
    decide_eq_true_eq] at hc
  rcases hc with rfl | rfl | rfl | rfl | rfl | rfl | rfl | rfl | rfl |
    rfl | rfl | rfl | rfl | rfl <;> decide

end EcmaScriptPattern
