import Logme.DoLog

/-!
# Overrides by call site

A generator keeps one override for each key of a function pointer and a line.
Its maps are node based, so that an override stays where it was made; here an
override is its position in the list of all that the generator has made.
-/

namespace Logme

def makeKey (func : UInt64) (line : Int32) : UInt64 :=
  func ^^^ (line.toUInt32.toUInt64 + (0x9e3779b97f4a7c15 : UInt64) + (func <<< 6) + (func >>> 2))

/-- Two lines of one function never share a key. -/
theorem makeKey_inj {func : UInt64} {line line' : Int32} :
    makeKey func line = makeKey func line' ↔ line = line' := by
  constructor
  · intro hkeys
    have hsum := (UInt64.xor_right_inj func).mp hkeys
    rw [UInt64.add_left_inj, UInt64.add_left_inj, UInt64.add_left_inj] at hsum
    have hlines : line.toUInt32 = line'.toUInt32 := UInt32.toUInt64_inj.mp hsum
    cases line
    exact congrArg Int32.ofUInt32 hlines
  · intro hlines
    rw [hlines]

inductive OverrideKind where
  | oneTime
  | every
  deriving DecidableEq

/-- `GetOneTimeOverride` and `GetEveryOverride` with their arguments. -/
inductive OverrideCall where
  | oneTime (func : UInt64) (line : Int32)
  | every (func : UInt64) (line : Int32) (ms : UInt64)
  deriving DecidableEq

namespace OverrideCall

def kind : OverrideCall → OverrideKind
  | oneTime _ _ => .oneTime
  | every _ _ _ => .every

def place : OverrideCall → UInt64 × Int32
  | oneTime func line => (func, line)
  | every func line _ => (func, line)

def key (call : OverrideCall) : UInt64 := makeKey call.place.1 call.place.2

/-- The override that the first call for a key makes. -/
def fresh : OverrideCall → Override
  | oneTime _ _ => { maxRepetitions := 1 }
  | every _ _ ms => { maxRepetitions := -1, maxFrequency := ms.toNat }

end OverrideCall

structure OverrideGenerator where
  overrides : List Override := []
  oneTime : List (UInt64 × Nat) := []
  everyTime : List (UInt64 × Nat) := []
  deriving DecidableEq

namespace OverrideGenerator

def getOneTimeOverride (g : OverrideGenerator) (func : UInt64) (line : Int32) :
    Nat × OverrideGenerator :=
  match g.oneTime.lookup (makeKey func line) with
  | some position => (position, g)
  | none =>
      (g.overrides.length,
        { g with
          overrides := g.overrides ++ [{ maxRepetitions := 1 }]
          oneTime := (makeKey func line, g.overrides.length) :: g.oneTime })

def getEveryOverride (g : OverrideGenerator) (func : UInt64) (line : Int32) (ms : UInt64) :
    Nat × OverrideGenerator :=
  match g.everyTime.lookup (makeKey func line) with
  | some position => (position, g)
  | none =>
      (g.overrides.length,
        { g with
          overrides := g.overrides ++ [{ maxRepetitions := -1, maxFrequency := ms.toNat }]
          everyTime := (makeKey func line, g.overrides.length) :: g.everyTime })

def get (g : OverrideGenerator) : OverrideCall → Nat × OverrideGenerator
  | .oneTime func line => g.getOneTimeOverride func line
  | .every func line ms => g.getEveryOverride func line ms

/-- The limits of the override at a position, for a record at the time `now`. -/
def enforce (g : OverrideGenerator) (position now : Nat) : Bool × OverrideGenerator :=
  match g.overrides[position]? with
  | none => (false, g)
  | some ovr =>
      ((ovr.admitRecord now).1,
        { g with overrides := g.overrides.set position (ovr.admitRecord now).2 })

end OverrideGenerator

/-- A message with the override of its place, and the time of its record. -/
structure PlacedMessage where
  call : OverrideCall
  now : Nat
  deriving DecidableEq

namespace OverrideGenerator

/-- The override a message gets, whether its limits admit the record, and the
generator behind it. -/
def log (g : OverrideGenerator) (message : PlacedMessage) :
    Nat × Bool × OverrideGenerator :=
  ((g.get message.call).1, (g.get message.call).2.enforce (g.get message.call).1 message.now)

def after (g : OverrideGenerator) (messages : List PlacedMessage) : OverrideGenerator :=
  messages.foldl (fun g message => (g.log message).2.2) g

/-- The override that the last message gets behind the ones before it. -/
def object (before : List PlacedMessage) (message : PlacedMessage) : Nat :=
  ((after {} before).log message).1

/-- Whether the override's limits admit the last message. -/
def admits (before : List PlacedMessage) (message : PlacedMessage) : Bool :=
  ((after {} before).log message).2.1

/-- Every place has its own override, and no place sees the messages of
another. -/
structure OwnOverrides (messages : List PlacedMessage) : Prop where
  object_eq : ∀ i j message other, messages[i]? = some message → messages[j]? = some other →
    (object (messages.take i) message = object (messages.take j) other ↔
      message.call.place = other.call.place)
  admits_eq : ∀ i message, messages[i]? = some message →
    admits (messages.take i) message =
      admits ((messages.take i).filter (·.call.place = message.call.place)) message

/-- Two functions in calls of one kind have different keys, and no place asks
for overrides of both kinds. -/
structure KeysApart (messages : List PlacedMessage) : Prop where
  keys : ∀ message ∈ messages, ∀ other ∈ messages, message.call.kind = other.call.kind →
    message.call.place.1 ≠ other.call.place.1 → message.call.key ≠ other.call.key
  kinds : ∀ message ∈ messages, ∀ other ∈ messages,
    message.call.place = other.call.place → message.call.kind = other.call.kind

/-! ## What one call leaves -/

def find (g : OverrideGenerator) : OverrideKind → UInt64 → Option Nat
  | .oneTime, key => g.oneTime.lookup key
  | .every, key => g.everyTime.lookup key

/-- The override that a key leads to. -/
def held (g : OverrideGenerator) (kind : OverrideKind) (key : UInt64) : Option Override :=
  (g.find kind key).bind (g.overrides[·]?)

/-- No two keys lead to one override. -/
structure WellFormed (g : OverrideGenerator) : Prop where
  made : ∀ kind key position, g.find kind key = some position → position < g.overrides.length
  apart : ∀ kind kind' key key' position, g.find kind key = some position →
    g.find kind' key' = some position → kind = kind' ∧ key = key'

section Step

variable {g : OverrideGenerator} {call : OverrideCall} {kind : OverrideKind} {key : UInt64}

theorem lookup_cons_key {map : List (UInt64 × Nat)} {position : Nat} {key other : UInt64} :
    ((key, position) :: map).lookup other =
      if other = key then some position else map.lookup other := by
  by_cases h : other = key
  · rw [if_pos h, h, List.lookup_cons_self]
  · rw [if_neg h, List.lookup_cons, beq_eq_false_iff_ne.mpr h]

/-- A call finds the override of its key or makes it at the end. -/
theorem get_cases (g : OverrideGenerator) (call : OverrideCall) :
    (g.find call.kind call.key = some (g.get call).1 ∧ (g.get call).2 = g) ∨
      (g.find call.kind call.key = none ∧ (g.get call).1 = g.overrides.length ∧
        (g.get call).2.overrides = g.overrides ++ [call.fresh] ∧
        ∀ kind key, (g.get call).2.find kind key =
          if kind = call.kind ∧ key = call.key then some g.overrides.length
          else g.find kind key) := by
  cases call with
  | oneTime func line =>
      cases hfind : g.oneTime.lookup (makeKey func line) with
      | some position =>
          left
          simp [get, getOneTimeOverride, find, OverrideCall.kind, OverrideCall.key,
            OverrideCall.place, hfind]
      | none =>
          right
          simp only [get, getOneTimeOverride, find, OverrideCall.kind, OverrideCall.key,
            OverrideCall.place, OverrideCall.fresh, hfind, true_and]
          intro kind key
          cases kind with
          | oneTime => simp only [lookup_cons_key, true_and]
          | every => simp
  | every func line ms =>
      cases hfind : g.everyTime.lookup (makeKey func line) with
      | some position =>
          left
          simp [get, getEveryOverride, find, OverrideCall.kind, OverrideCall.key,
            OverrideCall.place, hfind]
      | none =>
          right
          simp only [get, getEveryOverride, find, OverrideCall.kind, OverrideCall.key,
            OverrideCall.place, OverrideCall.fresh, hfind, true_and]
          intro kind key
          cases kind with
          | oneTime => simp
          | every => simp only [lookup_cons_key, true_and]

theorem find_get (g : OverrideGenerator) (call : OverrideCall) (kind : OverrideKind)
    (key : UInt64) :
    (g.get call).2.find kind key =
      if kind = call.kind ∧ key = call.key then some (g.get call).1 else g.find kind key := by
  obtain ⟨hfind, hsame⟩ | ⟨-, hposition, -, hfind⟩ := get_cases g call
  · rw [hsame]
    split
    case isTrue h => rw [h.1, h.2, hfind]
    case isFalse => rfl
  · rw [hfind, hposition]

theorem WellFormed.get (hg : g.WellFormed) (call : OverrideCall) :
    (g.get call).2.WellFormed := by
  obtain ⟨-, hsame⟩ | ⟨-, hposition, hoverrides, hfind⟩ := get_cases g call
  · rw [hsame]
    exact hg
  · constructor
    · intro kind key position hposition
      rw [hfind] at hposition
      rw [hoverrides, List.length_append, List.length_singleton]
      split at hposition
      case isTrue =>
        rw [Option.some.injEq] at hposition
        omega
      case isFalse =>
        have := hg.made kind key position hposition
        omega
    · intro kind kind' key key' position hposition hposition'
      rw [hfind] at hposition hposition'
      split at hposition <;> split at hposition'
      case isTrue.isTrue hleft hright =>
        exact ⟨hleft.1.trans hright.1.symm, hleft.2.trans hright.2.symm⟩
      case isTrue.isFalse =>
        have := hg.made _ _ _ hposition'
        rw [Option.some.injEq] at hposition
        omega
      case isFalse.isTrue =>
        have := hg.made _ _ _ hposition
        rw [Option.some.injEq] at hposition'
        omega
      case isFalse.isFalse => exact hg.apart _ _ _ _ _ hposition hposition'

theorem held_get (hg : g.WellFormed) (call : OverrideCall) (kind : OverrideKind)
    (key : UInt64) :
    (g.get call).2.held kind key =
      if kind = call.kind ∧ key = call.key then
        some ((g.held call.kind call.key).getD call.fresh)
      else g.held kind key := by
  obtain ⟨hfound, hsame⟩ | ⟨hnone, hposition, hoverrides, hfind⟩ := get_cases g call
  · rw [hsame]
    split
    case isTrue h =>
      have hlt := hg.made _ _ _ hfound
      rw [h.1, h.2, held, hfound, Option.bind_some, List.getElem?_eq_getElem hlt,
        Option.getD_some]
    case isFalse => rfl
  · rw [held, hfind, hoverrides]
    split
    case isTrue => simp [held, hnone]
    case isFalse =>
      rw [held]
      cases hold : g.find kind key with
      | none => rfl
      | some position =>
          have hlt := hg.made _ _ _ hold
          rw [Option.bind_some, Option.bind_some, List.getElem?_append_left hlt]

@[simp] theorem find_enforce (g : OverrideGenerator) (position now : Nat) :
    (g.enforce position now).2.find = g.find := by
  unfold enforce
  split <;> (funext kind key; cases kind <;> rfl)

theorem length_enforce (g : OverrideGenerator) (position now : Nat) :
    (g.enforce position now).2.overrides.length = g.overrides.length := by
  unfold enforce
  split
  · rfl
  · exact List.length_set

theorem WellFormed.enforce (hg : g.WellFormed) (position now : Nat) :
    (g.enforce position now).2.WellFormed := by
  constructor
  · intro kind key other hother
    rw [find_enforce] at hother
    rw [length_enforce]
    exact hg.made kind key other hother
  · intro kind kind' key key' other hleft hright
    rw [find_enforce] at hleft hright
    exact hg.apart kind kind' key key' other hleft hright

/-- The limits of one override leave all the others as they are. -/
theorem held_enforce (hg : g.WellFormed) {position now : Nat} {ovr : Override}
    (hfind : g.find call.kind call.key = some position)
    (hovr : g.overrides[position]? = some ovr) (kind : OverrideKind) (key : UInt64) :
    (g.enforce position now).2.held kind key =
      if kind = call.kind ∧ key = call.key then some (ovr.admitRecord now).2
      else g.held kind key := by
  have hlt := hg.made _ _ _ hfind
  have hoverrides : (g.enforce position now).2.overrides =
      g.overrides.set position (ovr.admitRecord now).2 := by
    rw [OverrideGenerator.enforce, hovr]
  rw [held, find_enforce, hoverrides]
  split
  case isTrue h => rw [h.1, h.2, hfind, Option.bind_some, List.getElem?_set_self hlt]
  case isFalse hother =>
    rw [held]
    cases hold : g.find kind key with
    | none => rfl
    | some other =>
        have hne : position ≠ other := by
          intro heq
          rw [← heq] at hold
          exact hother (hg.apart _ _ _ _ _ hold hfind)
        rw [Option.bind_some, Option.bind_some, List.getElem?_set_ne hne]

/-- The override that a message meets. -/
def met (g : OverrideGenerator) (call : OverrideCall) : Override :=
  (g.held call.kind call.key).getD call.fresh

theorem get_met (hg : g.WellFormed) (call : OverrideCall) :
    (g.get call).2.find call.kind call.key = some (g.get call).1 ∧
      (g.get call).2.overrides[(g.get call).1]? = some (g.met call) := by
  have hfind := find_get g call call.kind call.key
  have hheld := held_get hg call call.kind call.key
  rw [if_pos ⟨rfl, rfl⟩] at hfind hheld
  rw [held, hfind, Option.bind_some] at hheld
  exact ⟨hfind, hheld⟩

end Step

section Log

variable {g : OverrideGenerator} {message : PlacedMessage}

theorem WellFormed.log (hg : g.WellFormed) (message : PlacedMessage) :
    (g.log message).2.2.WellFormed :=
  (hg.get message.call).enforce _ message.now

theorem find_log (g : OverrideGenerator) (message : PlacedMessage) (kind : OverrideKind)
    (key : UInt64) :
    (g.log message).2.2.find kind key =
      if kind = message.call.kind ∧ key = message.call.key then some (g.log message).1
      else g.find kind key := by
  rw [OverrideGenerator.log, find_enforce, find_get]

theorem admits_log (hg : g.WellFormed) (message : PlacedMessage) :
    (g.log message).2.1 = ((g.met message.call).admitRecord message.now).1 := by
  rw [OverrideGenerator.log, OverrideGenerator.enforce, (get_met hg message.call).2]

theorem held_log (hg : g.WellFormed) (message : PlacedMessage) (kind : OverrideKind)
    (key : UInt64) :
    (g.log message).2.2.held kind key =
      if kind = message.call.kind ∧ key = message.call.key then
        some ((g.met message.call).admitRecord message.now).2
      else g.held kind key := by
  obtain ⟨hfind, hovr⟩ := get_met hg message.call
  rw [OverrideGenerator.log, held_enforce (hg.get message.call) hfind hovr]
  split
  case isTrue => rfl
  case isFalse hother => rw [held_get hg, if_neg hother]

/-- The position of a known key does not change any more. -/
theorem find_log_of_find {kind : OverrideKind} {key : UInt64} {position : Nat}
    (hfind : g.find kind key = some position) (message : PlacedMessage) :
    (g.log message).2.2.find kind key = some position := by
  rw [find_log]
  split
  case isTrue h =>
    obtain ⟨hknown, -⟩ | ⟨hnone, -⟩ := get_cases g message.call
    · rw [h.1, h.2, hknown] at hfind
      exact hfind
    · rw [h.1, h.2, hnone] at hfind
      exact absurd hfind.symm (Option.some_ne_none position)
  case isFalse => exact hfind

end Log

/-! ## Sequences of messages -/

section Run

variable {g g' : OverrideGenerator} {messages before : List PlacedMessage}
  {message other : PlacedMessage}

theorem wellFormed_empty : ({} : OverrideGenerator).WellFormed where
  made := fun kind key position hfind => by cases kind <;> simp [find] at hfind
  apart := fun kind kind' key key' position hfind => by cases kind <;> simp [find] at hfind

theorem WellFormed.after (hg : g.WellFormed) (messages : List PlacedMessage) :
    (g.after messages).WellFormed := by
  induction messages generalizing g with
  | nil => exact hg
  | cons message messages ih => exact ih (hg.log message)

theorem after_append (g : OverrideGenerator) (messages others : List PlacedMessage) :
    g.after (messages ++ others) = (g.after messages).after others :=
  List.foldl_append

theorem find_after_of_find {kind : OverrideKind} {key : UInt64} {position : Nat}
    (hfind : g.find kind key = some position) (messages : List PlacedMessage) :
    (g.after messages).find kind key = some position := by
  induction messages generalizing g with
  | nil => exact hfind
  | cons message messages ih => exact ih (find_log_of_find hfind message)

/-- Behind all the messages the key still leads to what its message got. -/
theorem find_object {i : Nat} (hi : messages[i]? = some message) :
    (after {} messages).find message.call.kind message.call.key =
      some (object (messages.take i) message) := by
  have hsplit : messages = messages.take i ++ message :: messages.drop (i + 1) := by
    obtain ⟨hlt, hget⟩ := List.getElem?_eq_some_iff.mp hi
    rw [← hget, ← List.drop_eq_getElem_cons hlt, List.take_append_drop]
  have hlogged : ((after {} (messages.take i)).log message).2.2.find message.call.kind
      message.call.key = some (object (messages.take i) message) := by
    rw [find_log, if_pos ⟨rfl, rfl⟩, object]
  conv_lhs => rw [hsplit, after_append]
  exact find_after_of_find hlogged (messages.drop (i + 1))

theorem object_eq_iff {i j : Nat} (hi : messages[i]? = some message)
    (hj : messages[j]? = some other) :
    object (messages.take i) message = object (messages.take j) other ↔
      message.call.kind = other.call.kind ∧ message.call.key = other.call.key := by
  have hmessage := find_object hi
  have hother := find_object hj
  constructor
  · intro hsame
    rw [hsame] at hmessage
    exact (wellFormed_empty.after messages).apart _ _ _ _ _ hmessage hother
  · intro ⟨hkind, hkey⟩
    rw [hkind, hkey, hother, Option.some.injEq] at hmessage
    exact hmessage.symm

/-- Messages with other keys can be left out. -/
theorem held_after_filter (hg : g.WellFormed) (hg' : g'.WellFormed) {kind : OverrideKind}
    {key : UInt64} (hheld : g.held kind key = g'.held kind key) {keep : PlacedMessage → Bool}
    (hkeep : ∀ other ∈ messages, keep other = false →
      ¬ (kind = other.call.kind ∧ key = other.call.key)) :
    (g.after messages).held kind key = (g'.after (messages.filter keep)).held kind key := by
  induction messages generalizing g g' with
  | nil => exact hheld
  | cons message messages ih =>
      have hrest := fun other hother => hkeep other (List.mem_cons_of_mem message hother)
      cases hmessage : keep message with
      | false =>
          rw [List.filter_cons_of_neg (by rw [hmessage]; decide)]
          refine ih (hg.log message) hg' ?_ hrest
          rw [held_log hg, if_neg (hkeep message List.mem_cons_self hmessage), hheld]
      | true =>
          rw [List.filter_cons_of_pos hmessage]
          refine ih (hg.log message) (hg'.log message) ?_ hrest
          rw [held_log hg, held_log hg']
          split
          case isTrue h => rw [met, met, ← h.1, ← h.2, hheld]
          case isFalse => exact hheld

/-- A message sees only the messages with its key. -/
theorem admits_filter {keep : PlacedMessage → Bool}
    (hkeep : ∀ other ∈ before, keep other = false →
      ¬ (message.call.kind = other.call.kind ∧ message.call.key = other.call.key)) :
    admits before message = admits (before.filter keep) message := by
  have hheld := held_after_filter wellFormed_empty wellFormed_empty rfl hkeep
  rw [admits, admits, admits_log (wellFormed_empty.after before),
    admits_log (wellFormed_empty.after _), met, met, hheld]

theorem KeysApart.same_place (h : KeysApart messages) (hmessage : message ∈ messages)
    (hother : other ∈ messages) :
    message.call.kind = other.call.kind ∧ message.call.key = other.call.key ↔
      message.call.place = other.call.place := by
  constructor
  · intro ⟨hkind, hkey⟩
    have hfunc : message.call.place.1 = other.call.place.1 := by
      by_contra hne
      exact h.keys message hmessage other hother hkind hne hkey
    rw [OverrideCall.key, OverrideCall.key, hfunc, makeKey_inj] at hkey
    exact Prod.ext hfunc hkey
  · intro hplace
    constructor
    · exact h.kinds message hmessage other hother hplace
    · rw [OverrideCall.key, OverrideCall.key, hplace]

/-- Every place has its own override exactly when no keys meet and no place
asks for both kinds. -/
theorem ownOverrides_iff (messages : List PlacedMessage) :
    OwnOverrides messages ↔ KeysApart messages := by
  constructor
  · intro hown
    constructor
    · intro message hmessage other hother hkind hfunc hkey
      obtain ⟨i, hi⟩ := List.getElem?_of_mem hmessage
      obtain ⟨j, hj⟩ := List.getElem?_of_mem hother
      have hplace := (hown.object_eq i j message other hi hj).mp
        ((object_eq_iff hi hj).mpr ⟨hkind, hkey⟩)
      exact hfunc (congrArg Prod.fst hplace)
    · intro message hmessage other hother hplace
      obtain ⟨i, hi⟩ := List.getElem?_of_mem hmessage
      obtain ⟨j, hj⟩ := List.getElem?_of_mem hother
      have hsame := (hown.object_eq i j message other hi hj).mpr hplace
      exact ((object_eq_iff hi hj).mp hsame).1
  · intro hapart
    constructor
    · intro i j message other hi hj
      rw [object_eq_iff hi hj]
      exact hapart.same_place (List.mem_of_getElem? hi) (List.mem_of_getElem? hj)
    · intro i message hi
      -- a message shares its override with those of its keys, which are of its place
      apply admits_filter
      intro other hother hkeep hkeys
      have hmem : other ∈ messages := List.mem_of_mem_take hother
      have hplace := (hapart.same_place (List.mem_of_getElem? hi) hmem).mp hkeys
      rw [hplace] at hkeep
      exact absurd hkeep (by simp)

/-- The names of two functions, eight bytes apart: the one-time message of the
second is suppressed. -/
theorem not_ownOverrides_meeting_keys :
    ¬ OwnOverrides [⟨.oneTime 0x400000 507, 1⟩, ⟨.oneTime 0x400008 1, 2⟩] := by
  intro hown
  exact absurd (hown.admits_eq 1 _ rfl) (by decide)

end Run

end OverrideGenerator
end Logme
