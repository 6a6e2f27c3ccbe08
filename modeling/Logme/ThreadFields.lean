import Logme.Library.KeyedList
import Logme.XmlOutput

/-!
# Thread fields

The fields that a thread adds to its structured records are an array, which
`SetThreadField` and `RemoveThreadField` edit in place and which a
`ThreadFieldsOverride` replaces until its destructor puts the copy back that it
made.  The rule is that of lexical scopes: a record has the fields of the
innermost scope around it.
-/

namespace Logme

/-- Every member of `ThreadFields` adds fields as C strings, under a name of
their own. -/
structure ThreadFields where
  fields : List ThreadField
  nodup : (fields.map ThreadField.name).Nodup
  printed : ∀ field ∈ fields, field.cStrings = field.strings

namespace ThreadFields

def empty : ThreadFields := ⟨[], List.nodup_nil, nofun⟩

/-- `IsValidName` on a pointer; what is behind a 0 is not seen. -/
def validName (name : Option Name) : Option Name :=
  name.bind fun name =>
    if BufferCursor.cString name = [] then none else some (BufferCursor.cString name)

def valueOf (value : Option Name) : Name := value.elim [] BufferCursor.cString

theorem cString_cString (text : List UInt8) :
    BufferCursor.cString (BufferCursor.cString text) = BufferCursor.cString text := by
  apply cString_of_notMem
  intro h
  have hne : ((0 : UInt8) != 0) = true :=
    List.mem_takeWhile_imp (p := fun c : UInt8 => c != 0) h
  cases hne

theorem cString_of_validName {name : Option Name} {valid : Name}
    (h : validName name = some valid) : BufferCursor.cString valid = valid := by
  rcases Option.bind_eq_some_iff.mp h with ⟨text, _, htext⟩
  split at htext
  · cases htext
  · rw [← Option.some.inj htext, cString_cString]

theorem cString_valueOf (value : Option Name) :
    BufferCursor.cString (valueOf value) = valueOf value := by
  cases value with
  | none => rfl
  | some value => exact cString_cString value

/-- `Set`. -/
def set (t : ThreadFields) (name value : Option Name) : ThreadFields :=
  match hname : validName name with
  | none => t
  | some valid =>
      { fields := KeyedList.assign ThreadField.name ⟨valid, valueOf value⟩ t.fields
        nodup := KeyedList.nodup_assign t.nodup _
        printed := by
          intro field hfield
          rcases (KeyedList.mem_assign_iff t.nodup).mp hfield with rfl | hfield
          · rw [ThreadField.cStrings, cString_of_validName hname, cString_valueOf]
            rfl
          · exact t.printed field hfield.1 }

/-- `Get`. -/
def get (t : ThreadFields) (name : Option Name) : Option Name :=
  (validName name).bind fun name =>
    (KeyedList.find ThreadField.name name t.fields).map ThreadField.value

/-- `Remove`. -/
def remove (t : ThreadFields) (name : Option Name) : ThreadFields :=
  match validName name with
  | none => t
  | some valid =>
      { fields := KeyedList.remove ThreadField.name valid t.fields
        nodup := KeyedList.nodup_remove t.nodup valid
        printed := fun field hfield =>
          t.printed field ((KeyedList.mem_remove_iff t.nodup).mp hfield).1 }

end ThreadFields

/-- What a thread does with its fields.  `record` logs a structured record,
`read` asks for a field, `install` is `SetThreadFields`, `scope` is a block with
a `ThreadFieldsOverride`, and `throws` leaves the blocks around it up to the
next `attempt`. -/
inductive FieldProgram where
  | done
  | throws
  | record (rest : FieldProgram)
  | read (name : Option Name) (rest : FieldProgram)
  | set (name value : Option Name) (rest : FieldProgram)
  | remove (name : Option Name) (rest : FieldProgram)
  | clear (rest : FieldProgram)
  | install (fields : Option ThreadFields) (rest : FieldProgram)
  | scope (fields : ThreadFields) (body rest : FieldProgram)
  | attempt (body rest : FieldProgram)

/-- A run: what the records and the reads found, the fields afterwards, and
whether an exception is on its way. -/
structure FieldRun (φ : Type) where
  records : List φ
  answers : List (Option Name)
  fields : φ
  thrown : Bool

namespace FieldRun

variable {φ : Type}

def logging (record : φ) (run : FieldRun φ) : FieldRun φ :=
  { run with records := record :: run.records }

def answering (answer : Option Name) (run : FieldRun φ) : FieldRun φ :=
  { run with answers := answer :: run.answers }

/-- The exception, if there is one, has been caught. -/
def followedBy (inner rest : FieldRun φ) : FieldRun φ :=
  { rest with
    records := inner.records ++ rest.records
    answers := inner.answers ++ rest.answers }

/-- The destructor has put the fields back; the rest runs unless an exception
passes by. -/
def leaving (inner : FieldRun φ) (restored : φ) (rest : FieldRun φ) : FieldRun φ :=
  if inner.thrown then { inner with fields := restored } else inner.followedBy rest

end FieldRun

namespace FieldProgram

open ThreadFields

/-- The program on the array of the thread. -/
def run : FieldProgram → ThreadFields → FieldRun ThreadFields
  | done, t => ⟨[], [], t, false⟩
  | throws, t => ⟨[], [], t, true⟩
  | record rest, t => (rest.run t).logging t
  | read name rest, t => (rest.run t).answering (t.get name)
  | set name value rest, t => rest.run (t.set name value)
  | remove name rest, t => rest.run (t.remove name)
  | clear rest, _ => rest.run .empty
  | install fields rest, _ => rest.run (fields.getD .empty)
  | scope fields body rest, t =>
      -- the constructor copies the fields; without any, the destructor clears
      let restored := if t.fields = [] then .empty else t
      (body.run fields).leaving restored (rest.run restored)
  | attempt body rest, t =>
      let inner := body.run t
      inner.followedBy (rest.run inner.fields)

end FieldProgram

/-! ## Lexical scopes -/

/-- The fields by their names. -/
abbrev FieldScope := Name → Option Name

def ThreadFields.toScope (t : ThreadFields) : FieldScope := fun name =>
  (KeyedList.find ThreadField.name name t.fields).map ThreadField.value

namespace FieldProgram

open ThreadFields

/-- The program on scopes: a block runs in its own, and what follows it in the
one around it. -/
def denote : FieldProgram → FieldScope → FieldRun FieldScope
  | done, env => ⟨[], [], env, false⟩
  | throws, env => ⟨[], [], env, true⟩
  | record rest, env => (rest.denote env).logging env
  | read name rest, env => (rest.denote env).answering ((validName name).bind env)
  | set name value rest, env =>
      match validName name with
      | none => rest.denote env
      | some name => rest.denote (Function.update env name (some (valueOf value)))
  | remove name rest, env =>
      match validName name with
      | none => rest.denote env
      | some name => rest.denote (Function.update env name none)
  | clear rest, _ => rest.denote fun _ => none
  | install fields rest, _ => rest.denote (fields.getD .empty).toScope
  | scope fields body rest, env => (body.denote fields.toScope).leaving env (rest.denote env)
  | attempt body rest, env =>
      let inner := body.denote env
      inner.followedBy (rest.denote inner.fields)

end FieldProgram

namespace ThreadFields

theorem toScope_eq_some_iff (t : ThreadFields) (name value : Name) :
    t.toScope name = some value ↔ ⟨name, value⟩ ∈ t.fields := by
  rw [toScope, Option.map_eq_some_iff]
  constructor
  · intro h
    rcases h with ⟨field, hfind, rfl⟩
    rcases (KeyedList.find_eq_some_iff t.nodup).mp hfind with ⟨hmem, rfl⟩
    exact hmem
  · intro h
    exact ⟨⟨name, value⟩, (KeyedList.find_eq_some_iff t.nodup).mpr ⟨h, rfl⟩, rfl⟩

theorem toScope_empty : toScope .empty = fun _ => none := rfl

theorem get_eq (t : ThreadFields) (name : Option Name) :
    t.get name = (validName name).bind t.toScope := rfl

theorem toScope_set {name : Option Name} {valid : Name} (h : validName name = some valid)
    (t : ThreadFields) (value : Option Name) :
    (t.set name value).toScope = Function.update t.toScope valid (some (valueOf value)) := by
  have hfields : (t.set name value).fields =
      KeyedList.assign ThreadField.name ⟨valid, valueOf value⟩ t.fields := by
    unfold set
    split
    · next hnone =>
      rw [h] at hnone
      cases hnone
    · next other hother =>
      rw [h] at hother
      cases hother
      rfl
  funext other
  apply Option.ext
  intro text
  rw [toScope_eq_some_iff, hfields, KeyedList.mem_assign_iff t.nodup, Function.update_apply]
  split
  · next hsame =>
    rw [hsame, Option.some.injEq, ThreadField.mk.injEq]
    constructor
    · intro hmem
      rcases hmem with ⟨_, rfl⟩ | ⟨_, hne⟩
      · rfl
      · exact absurd rfl hne
    · exact fun htext => .inl ⟨rfl, htext.symm⟩
  · next hother =>
    rw [toScope_eq_some_iff, ThreadField.mk.injEq]
    constructor
    · intro hmem
      rcases hmem with ⟨hsame, _⟩ | hmem
      · exact absurd hsame hother
      · exact hmem.1
    · exact fun hmem => .inr ⟨hmem, hother⟩

theorem set_of_invalid {name : Option Name} (h : validName name = none) (t : ThreadFields)
    (value : Option Name) : t.set name value = t := by
  unfold set
  split
  · rfl
  · next valid hvalid =>
    rw [h] at hvalid
    cases hvalid

theorem toScope_remove {name : Option Name} {valid : Name} (h : validName name = some valid)
    (t : ThreadFields) : (t.remove name).toScope = Function.update t.toScope valid none := by
  have hfields : (t.remove name).fields =
      KeyedList.remove ThreadField.name valid t.fields := by
    rw [remove, h]
  funext other
  apply Option.ext
  intro text
  rw [toScope_eq_some_iff, hfields, KeyedList.mem_remove_iff t.nodup, Function.update_apply]
  split
  · next hsame => simp [hsame]
  · next hother =>
    rw [toScope_eq_some_iff]
    exact ⟨fun hmem => hmem.1, fun hmem => ⟨hmem, hother⟩⟩

theorem remove_of_invalid {name : Option Name} (h : validName name = none) (t : ThreadFields) :
    t.remove name = t := by
  rw [remove, h]

/-- The destructor puts back what the constructor copied, also nothing. -/
theorem restored_eq (t : ThreadFields) : (if t.fields = [] then .empty else t) = t := by
  split
  · next hnone =>
    rcases t with ⟨fields, nodup, printed⟩
    cases hnone
    rfl
  · rfl

end ThreadFields

namespace FieldRun

variable {φ ψ : Type}

def map (f : φ → ψ) (run : FieldRun φ) : FieldRun ψ where
  records := run.records.map f
  answers := run.answers
  fields := f run.fields
  thrown := run.thrown

theorem map_logging (f : φ → ψ) (record : φ) (run : FieldRun φ) :
    (run.logging record).map f = (run.map f).logging (f record) := rfl

theorem map_answering (f : φ → ψ) (answer : Option Name) (run : FieldRun φ) :
    (run.answering answer).map f = (run.map f).answering answer := rfl

theorem map_followedBy (f : φ → ψ) (inner rest : FieldRun φ) :
    (inner.followedBy rest).map f = (inner.map f).followedBy (rest.map f) := by
  simp only [followedBy, map, List.map_append]

theorem map_leaving (f : φ → ψ) (inner : FieldRun φ) (restored : φ) (rest : FieldRun φ) :
    (inner.leaving restored rest).map f = (inner.map f).leaving (f restored) (rest.map f) := by
  rcases inner with ⟨records, answers, fields, _ | _⟩
  · exact map_followedBy f _ rest
  · rfl

end FieldRun

namespace FieldProgram

open ThreadFields

/-- The array of a thread follows the lexical scopes, whatever blocks are left
by exceptions. -/
theorem run_follows_scopes (p : FieldProgram) (t : ThreadFields) :
    (p.run t).map toScope = p.denote t.toScope := by
  induction p generalizing t with
  | done => rfl
  | throws => rfl
  | record rest ih => rw [run, FieldRun.map_logging, ih, denote]
  | read name rest ih => rw [run, FieldRun.map_answering, ih, denote, get_eq]
  | set name value rest ih =>
      rw [run, ih, denote]
      cases h : validName name with
      | none => rw [set_of_invalid h]
      | some valid => rw [toScope_set h]
  | remove name rest ih =>
      rw [run, ih, denote]
      cases h : validName name with
      | none => rw [remove_of_invalid h]
      | some valid => rw [toScope_remove h]
  | clear rest ih => rw [run, ih, denote, toScope_empty]
  | install fields rest ih => rw [run, ih, denote]
  | scope fields body rest ihBody ihRest =>
      rw [run, restored_eq, FieldRun.map_leaving, ihBody, ihRest, denote]
  | attempt body rest ihBody ihRest =>
      rw [run, FieldRun.map_followedBy, ihRest, denote, ← ihBody]
      rfl

end FieldProgram

/-! ## JSON records -/

namespace Message

/-- Members under the names that the output fields have. -/
def NamedByFields (m : Message) (members : List (Name × Json.Value)) : Prop :=
  ∀ member ∈ members, ∃ key, m.fieldName key = member.1

theorem namedByFields_nil (m : Message) : m.NamedByFields [] := nofun

theorem NamedByFields.cons {m : Message} {members : List (Name × Json.Value)}
    (h : m.NamedByFields members) (key : OutputField) (value : Json.Value) :
    m.NamedByFields ((m.fieldName key, value) :: members) := by
  intro member hmember
  rcases List.mem_cons.mp hmember with rfl | hmember
  · exact ⟨key, rfl⟩
  · exact h member hmember

theorem NamedByFields.append {m : Message} {members more : List (Name × Json.Value)}
    (h : m.NamedByFields members) (hmore : m.NamedByFields more) :
    m.NamedByFields (members ++ more) :=
  fun member hmember => (List.mem_append.mp hmember).elim (h member) (hmore member)

theorem NamedByFields.when {m : Message} {members : List (Name × Json.Value)}
    (h : m.NamedByFields members) (p : Prop) [Decidable p] :
    m.NamedByFields (if p then members else []) := by
  split
  · exact h
  · exact m.namedByFields_nil

theorem namedByFields_toList (m : Message) (key : OutputField) (text : Option Name) :
    m.NamedByFields (text.map fun text => (m.fieldName key, Json.Value.string text)).toList := by
  cases text with
  | none => exact m.namedByFields_nil
  | some text => exact m.namedByFields_nil.cons key _

/-- The fields of the thread stand between those of the record. -/
theorem shownFields_split (m : Message) (s : ApplyState) (flags : OutputFlags) :
    ∃ before after, m.NamedByFields before ∧ m.NamedByFields after ∧
      m.shownFields s flags =
        before ++ (m.threadFields.map fun field => (field.1, .string field.2)) ++ after := by
  have hone : ∀ key value, m.NamedByFields [(m.fieldName key, value)] :=
    fun key value => m.namedByFields_nil.cons key value
  refine ⟨_, _, ?_, ?_, List.append_assoc _ _ _⟩
  · apply NamedByFields.append _ ((m.namedByFields_toList .method _).when _)
    apply NamedByFields.append _ (((hone .line _).cons .file _).when _)
    apply NamedByFields.append _ ((hone .subsystem _).when _)
    apply NamedByFields.append _ ((hone .channel _).when _)
    apply NamedByFields.append _ ((hone .threadId _).when _)
    apply NamedByFields.append _ ((hone .processId _).when _)
    apply NamedByFields.append _ ((hone .level _).when _)
    exact (hone .timestamp _).when _
  · exact (hone .message _).append (m.namedByFields_toList .duration _)

/-- Under a name of its own a field of the thread is found, and nothing else. -/
theorem mem_shownFields_iff (m : Message) (s : ApplyState) (flags : OutputFlags) {name : Name}
    (hname : ∀ key, m.fieldName key ≠ name) (value : Json.Value) :
    (name, value) ∈ m.shownFields s flags ↔
      ∃ text, value = .string text ∧ (name, text) ∈ m.threadFields := by
  rcases m.shownFields_split s flags with ⟨before, after, hbefore, hafter, hsplit⟩
  have hother : ∀ {members}, m.NamedByFields members → (name, value) ∉ members := by
    intro members hnamed hmem
    rcases hnamed _ hmem with ⟨key, hkey⟩
    exact hname key hkey
  rw [hsplit, List.mem_append, List.mem_append, List.mem_map]
  constructor
  · intro hmem
    rcases hmem with (hmem | ⟨field, hfield, hsame⟩) | hmem
    · exact absurd hmem (hother hbefore)
    · cases hsame
      exact ⟨field.2, rfl, hfield⟩
    · exact absurd hmem (hother hafter)
  · intro h
    rcases h with ⟨text, rfl, hfield⟩
    exact .inl (.inr ⟨(name, text), hfield, rfl⟩)

/-- A JSON line is read as the selected fields. -/
theorem json_line_read (m : Message) (memory : List UInt8) (calls : List ApplyCall)
    (ch : OutputChannel) {flags : OutputFlags} (hjson : (flags.override m.ovr).format = 1) :
    let before := m.applyAll (m.newContext memory) calls
    let shown := m.flagsOf before flags
    let after := m.apply before ch flags
    ∃ object, after.lastData = some (object ++ eolBytes shown) ∧
      Json.readObject object = some (m.shownFields after shown) := by
  intro before shown after
  have hshown : shown.format = 1 := (m.flagsOf_format before flags).trans hjson
  have hkeeps : m.KeepsJson after :=
    Message.keepsJson_apply before ch flags
      (Message.applyAll_invariant Message.keepsJson_apply (m.keepsJson_newContext memory) calls)
  have happlied : after.applied = shown := m.apply_applied before ch flags
  apply Exists.intro (Json.writeObject escapeJson (m.shownFields after shown))
  constructor
  · rw [hkeeps (happlied ▸ hshown), happlied, m.rendering_json after hshown]
  · have hread := escapeJson_faithful.readObject_writeObject (m.shownFields after shown) []
      (by simp)
    rwa [List.append_nil] at hread

end Message

namespace ThreadFields

/-- The printed pairs are the scope. -/
theorem mem_printed_iff (t : ThreadFields) (name text : Name) :
    (name, text) ∈ t.fields.map ThreadField.cStrings ↔ t.toScope name = some text := by
  rw [List.map_congr_left t.printed, List.mem_map, toScope_eq_some_iff]
  constructor
  · intro h
    rcases h with ⟨field, hfield, hsame⟩
    cases hsame
    exact hfield
  · exact fun h => ⟨_, h, rfl⟩

end ThreadFields

/-- What a JSON reader finds in the line of a record, under a name that is none
of the output fields, is the field of the thread that the scope has. -/
def ShowsScope (m : Message) (memory : List UInt8) (calls : List ApplyCall) (ch : OutputChannel)
    (flags : OutputFlags) (record : ThreadFields) (env : FieldScope) : Prop :=
  let printed := m.withThreadFields (record.fields.map ThreadField.cStrings)
  let before := printed.applyAll (printed.newContext memory) calls
  ∃ object members,
    (printed.apply before ch flags).lastData =
        some (object ++ Message.eolBytes (printed.flagsOf before flags)) ∧
      Json.readObject object = some members ∧
      ∀ name, (∀ key, m.fieldName key ≠ name) → ∀ value,
        (name, value) ∈ members ↔ ∃ text, value = .string text ∧ env name = some text

/-- Every JSON record of a thread shows the fields of the scope around it. -/
theorem json_records_follow_scopes (p : FieldProgram) (t : ThreadFields) (m : Message)
    (memory : List UInt8) (calls : List ApplyCall) (ch : OutputChannel) {flags : OutputFlags}
    (hjson : (flags.override m.ovr).format = 1) :
    List.Forall₂ (ShowsScope m memory calls ch flags) (p.run t).records
      (p.denote t.toScope).records := by
  have hrecords : (p.denote t.toScope).records =
      (p.run t).records.map ThreadFields.toScope := by
    rw [← p.run_follows_scopes t]
    rfl
  rw [hrecords, List.forall₂_map_right_iff, List.forall₂_same]
  intro record _
  let printed := m.withThreadFields (record.fields.map ThreadField.cStrings)
  rcases printed.json_line_read memory calls ch hjson with ⟨object, hline, hread⟩
  refine ⟨object, _, hline, hread, ?_⟩
  intro name hname value
  rw [printed.mem_shownFields_iff _ _ hname]
  apply exists_congr
  intro text
  exact and_congr_right fun _ => record.mem_printed_iff name text

/-- A block with fields of its own, and one without any in it that an exception
leaves. -/
def nestedScopes : FieldProgram :=
  .set (some [0x75]) (some [0x61]) <|
    .attempt
      (.scope (ThreadFields.empty.set (some [0x72]) (some [0x31]))
        (.set (some [0x75]) (some [0x62]) <| .record <| .scope .empty (.record .throws) .done)
        (.record .done))
      (.record .done)

theorem json_records_follow_scopes_nested :
    List.Forall₂ (ShowsScope shortMessage [] [] {} ⟨0x80000⟩) (nestedScopes.run .empty).records
      (nestedScopes.denote ThreadFields.empty.toScope).records :=
  json_records_follow_scopes nestedScopes .empty shortMessage [] [] {} (by decide)

end Logme
