import Logme.Control
import Logme.Library.JsonTree

/-!
# The JSON answers of the control server

A JSON answer is the text of one object: whether the command is ok, its error,
and the data with the text.
-/

namespace Logme

open Json

/-! ## The escape -/

/-- One byte in `JsonEscape`. -/
def controlEscape (c : UInt8) : Name := controlJsonEscape [c]

theorem controlJsonEscape_eq_flatMap (s : Name) :
    controlJsonEscape s = s.flatMap controlEscape := by
  induction s with
  | nil => rfl
  | cons c s ih =>
      rw [List.flatMap_cons, ← ih]
      simp [controlEscape, controlJsonEscape]

theorem quoted_eq_writeString (s : Name) : quoted s = writeString controlEscape s := by
  rw [quoted, controlJsonEscape_eq_flatMap, writeString]
  rfl

theorem controlEscape_faithful : Faithful controlEscape :=
  .of_readsAsByte <| Unicode.forall_byte <| by decide +kernel

theorem controlEscape_keepsUtf8 : KeepsUtf8 controlEscape :=
  .of_all (Unicode.forall_byte <| by decide +kernel)
    (Unicode.forall_byte <| by decide +kernel)

/-! ## Members -/

def DataValue.tree : DataValue → Tree
  | .string s => .string s
  | .int n => .number n
  | .bool b => .bool b
  | .stringMap values => .object (values.map fun value => (value.1, .string value.2))
  | .stringArray values => .array (values.map .string)

theorem DataValue.text_eq_writeTree (value : DataValue) :
    value.text = writeTree controlEscape value.tree := by
  cases value with
  | string s => exact quoted_eq_writeString s
  | int n => rfl
  | bool b => cases b <;> rfl
  | stringMap values =>
      rw [text, tree, writeTree, writeMembers_eq_intercalate, List.map_map]
      have hmember : ∀ value : Name × Name, quoted value.1 ++ ascii ":" ++ quoted value.2 =
          writeMemberTree controlEscape (value.1, .string value.2) := by
        intro value
        rw [quoted_eq_writeString, quoted_eq_writeString, writeMemberTree, List.append_assoc]
        rfl
      simp only [separated, hmember]
      rfl
  | stringArray values =>
      rw [text, tree, writeTree, writeItems_eq_intercalate, List.map_map]
      have hitem : quoted = writeTree controlEscape ∘ Tree.string :=
        funext quoted_eq_writeString
      rw [separated, hitem]
      rfl

/-- A name that needs no escapes. -/
def Unescaped (name : Name) : Prop := name.flatMap controlEscape = name

instance : DecidablePred Unescaped := fun name =>
  inferInstanceAs (Decidable (name.flatMap controlEscape = name))

def memberTree (member : Name × DataValue) : Name × Tree := (member.1, member.2.tree)

theorem memberText_eq_writeMemberTree {member : Name × DataValue} (h : Unescaped member.1) :
    memberText member = writeMemberTree controlEscape (memberTree member) := by
  rw [memberText, writeMemberTree, writeString, memberTree, h, DataValue.text_eq_writeTree]
  simp [ascii]

/-- A line adds one member at most. -/
theorem SubsystemData.readLine_members (d : SubsystemData) (line : Name) :
    (d.readLine line).members = d.members ∨ ∃ name value, Unescaped name ∧
      (d.readLine line).members = d.members ++ [(name, value)] := by
  generalize hread : d.readLine line = d'
  unfold readLine at hread
  dsimp only at hread
  rcases ite_eq_iff.mp hread with ⟨-, rfl⟩ | ⟨-, hread⟩
  · exact .inl rfl
  rcases ite_eq_iff.mp hread with ⟨-, rfl⟩ | ⟨-, hread⟩
  · exact .inl rfl
  rcases ite_eq_iff.mp hread with ⟨-, rfl⟩ | ⟨-, hread⟩
  · exact .inl rfl
  rcases ite_eq_iff.mp hread with ⟨-, rfl⟩ | ⟨-, hread⟩
  · exact .inl rfl
  rcases ite_eq_iff.mp hread with ⟨-, rfl⟩ | ⟨-, hread⟩
  · exact .inl rfl
  rcases ite_eq_iff.mp hread with ⟨-, rfl⟩ | ⟨-, hread⟩
  · exact .inl rfl
  rcases ite_eq_iff.mp hread with ⟨-, rfl⟩ | ⟨-, hread⟩
  · exact .inl rfl
  rcases ite_eq_iff.mp hread with ⟨-, rfl⟩ | ⟨-, hread⟩
  · exact .inr ⟨ascii "blocked", _, by decide, rfl⟩
  rcases ite_eq_iff.mp hread with ⟨-, rfl⟩ | ⟨-, hread⟩
  · exact .inr ⟨ascii "allowed", _, by decide, rfl⟩
  rcases ite_eq_iff.mp hread with ⟨-, rfl⟩ | ⟨-, hread⟩
  · exact .inr ⟨ascii "level", _, by decide, rfl⟩
  left
  rcases hsection : d.inSection with _ | _ | _ | _
  all_goals
    rw [hsection] at hread
    subst hread
  · rfl
  · rfl
  · rfl
  · dsimp only
    split <;> rfl

theorem SubsystemData.readLine_unescaped {d : SubsystemData} (line : Name)
    (h : ∀ member ∈ d.members, Unescaped member.1) :
    ∀ member ∈ (d.readLine line).members, Unescaped member.1 := by
  intro member hmember
  rcases d.readLine_members line with hsame | ⟨name, value, hname, hadded⟩
  · rw [hsame] at hmember
    exact h member hmember
  · rw [hadded] at hmember
    rcases List.mem_append.mp hmember with hold | hnew
    · exact h member hold
    · rw [List.mem_singleton.mp hnew]
      exact hname

theorem subsystemMembers_unescaped (text : Name) :
    ∀ member ∈ subsystemMembers text, Unescaped member.1 := by
  have hlines : ∀ (lines : List Name) (d : SubsystemData),
      (∀ member ∈ d.members, Unescaped member.1) →
      ∀ member ∈ (lines.foldl (fun d line => d.readLine (trimBlanks line)) d).members,
        Unescaped member.1 := by
    intro lines
    induction lines with
    | nil => exact fun d h => h
    | cons line rest ih => exact fun d h => ih _ (d.readLine_unescaped _ h)
  intro member hmember
  unfold subsystemMembers at hmember
  simp only [List.mem_append, Option.mem_toList, Option.map_eq_some_iff] at hmember
  rcases hmember with ((hmember | ⟨_, _, rfl⟩) | ⟨_, _, rfl⟩) | ⟨_, _, rfl⟩
  · exact hlines _ {} nofun member hmember
  · exact (by decide : Unescaped (ascii "blockedSubsystems"))
  · exact (by decide : Unescaped (ascii "allowedSubsystems"))
  · exact (by decide : Unescaped (ascii "subsystemLevels"))

theorem listMembers_unescaped (text : Name) :
    ∀ member ∈ listMembers text, Unescaped member.1 := by
  intro member hmember
  rw [List.mem_singleton.mp hmember]
  exact (by decide : Unescaped (ascii "channels"))

theorem flagsMembers_unescaped (text : Name) :
    ∀ member ∈ flagsMembers text, Unescaped member.1 := by
  unfold flagsMembers
  dsimp only
  split
  next =>
    intro member hmember
    rcases List.mem_pair.mp hmember with rfl | rfl
    · exact (by decide : Unescaped (ascii "value"))
    · exact (by decide : Unescaped (ascii "names"))
  next => exact nofun

theorem levelMembers_unescaped (text : Name) :
    ∀ member ∈ levelMembers text, Unescaped member.1 := by
  unfold levelMembers
  dsimp only
  split
  next =>
    split
    next => exact nofun
    next =>
      intro member hmember
      rw [List.mem_singleton.mp hmember]
      exact (by decide : Unescaped (ascii "level"))
  next => exact nofun

theorem dataMembers_unescaped (remainder text : Name) :
    ∀ member ∈ dataMembers remainder text, Unescaped member.1 := by
  unfold dataMembers
  split
  next => exact nofun
  next =>
    split
    next => exact subsystemMembers_unescaped text
    next =>
      split
      next => exact listMembers_unescaped text
      next =>
        split
        next => exact flagsMembers_unescaped text
        next =>
          split
          next => exact levelMembers_unescaped text
          next => exact nofun

/-! ## Answers -/

/-- The members of `data`. -/
def dataTree (remainder text : Name) : List (Name × Tree) :=
  ((if isOk text then dataMembers remainder text else []) ++
    [(ascii "text", DataValue.string text)]).map memberTree

/-- The members of an answer. -/
def replyTree (remainder text : Name) : List (Name × Tree) :=
  [(ascii "ok", .bool (isOk text)),
    (ascii "error", if isOk text then .null else .string (errorText text)),
    (ascii "data", .object (dataTree remainder text))]

theorem jsonReply_eq_writeTree (remainder text : Name) :
    jsonReply remainder text =
      writeTree controlEscape (.object (replyTree remainder text)) := by
  have hdata : separated (((if isOk text then dataMembers remainder text else []) ++
      [(ascii "text", DataValue.string text)]).map memberText) =
        writeMembers controlEscape (dataTree remainder text) := by
    rw [writeMembers_eq_intercalate, dataTree, List.map_map, separated]
    congr 1
    refine List.map_congr_left fun member hmember => memberText_eq_writeMemberTree ?_
    rcases List.mem_append.mp hmember with hmember | hmember
    · split at hmember
      next => exact dataMembers_unescaped remainder text member hmember
      next => contradiction
    · rw [List.mem_singleton.mp hmember]
      exact (by decide : Unescaped (ascii "text"))
  have herror : (if isOk text then ascii "null" else quoted (errorText text)) =
      writeTree controlEscape (if isOk text then .null else .string (errorText text)) := by
    split
    next => rfl
    next => exact quoted_eq_writeString _
  have hok : (if isOk text then ascii "true" else ascii "false") =
      writeTree controlEscape (.bool (isOk text)) := by
    cases isOk text <;> rfl
  unfold jsonReply
  dsimp only
  rw [hdata, herror, hok, replyTree]
  simp [writeTree, writeMembers, continueMembers, writeString, ascii, controlEscape,
    controlJsonEscape]

theorem isObject_jsonReply (remainder text : Name) {space : Name}
    (hspace : ∀ b ∈ space, isSpace b = true) :
    IsObject (jsonReply remainder text ++ space) (replyTree remainder text) := by
  rw [jsonReply_eq_writeTree]
  exact controlEscape_faithful.isObject_writeTree _ hspace

end Logme
