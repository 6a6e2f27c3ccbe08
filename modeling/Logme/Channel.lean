import Mathlib.Data.List.Nodup
import Logme.OutputFlags
import Logme.SubsystemLevels

/-!
# Channels

A channel has a level filter, an enabled flag, at most one link and a list of
backends.  `Linked`, `BackendCount` and `Active` shadow these for readers that
do not take the lock; the operations keep them in step, which is part of the
type.  A channel pointer is a position in the heap of the logger.
-/

namespace Logme

/-- Names of channels, as the bytes before the final 0. -/
abbrev Name := List UInt8

/-- What `Display` and the display filters read from a context. -/
structure Record where
  level : Level
  subsystem : Nat
  ovr : Option Override
  text : List UInt8
  deriving DecidableEq

/-- A backend of a channel and its `Freezed` flag. -/
structure ChannelBackend where
  id : Nat
  freezed : Bool := false
  deriving DecidableEq

/-- The value that `UpdateActive` stores. -/
def isActive (linked enabled : Bool) (backendCount : Nat) : Bool :=
  linked || (enabled && decide (0 < backendCount))

structure Channel where
  name : Name
  flags : OutputFlags
  levelFilter : Level
  enabled : Bool
  linked : Bool
  backendCount : Nat
  active : Bool
  link : Option Name
  linkTo : Option Nat
  displayFilter : Option (Record → Bool)
  backends : List ChannelBackend
  counted : backendCount = backends.length
  activated : active = isActive linked enabled backendCount
  linkFlagged : link.isSome ∨ linkTo.isSome → linked = true
  distinct : (backends.map ChannelBackend.id).Nodup

namespace Channel

/-- The constructor. -/
def new (name : Name) (flags : OutputFlags) (level : Level) : Channel where
  name := name
  flags := flags
  levelFilter := level
  enabled := true
  linked := false
  backendCount := 0
  active := false
  link := none
  linkTo := none
  displayFilter := none
  backends := []
  counted := rfl
  activated := rfl
  linkFlagged := by simp
  distinct := List.nodup_nil

/-- `AddLink` by name: the pointer of an earlier link stays. -/
def addLinkID (c : Channel) (target : Name) : Channel :=
  { c with
    link := some target
    linked := true
    active := isActive true c.enabled c.backendCount
    activated := rfl
    linkFlagged := fun _ => rfl }

/-- `AddLink` by pointer, which may be null. -/
def addLinkPtr (c : Channel) (target : Option Nat) : Channel :=
  { c with
    linkTo := target
    linked := true
    active := isActive true c.enabled c.backendCount
    activated := rfl
    linkFlagged := fun _ => rfl }

def removeLink (c : Channel) : Channel :=
  { c with
    link := none
    linkTo := none
    linked := false
    active := isActive false c.enabled c.backendCount
    activated := rfl
    linkFlagged := by simp }

def setEnabled (c : Channel) (enable : Bool) : Channel :=
  { c with
    enabled := enable
    active := isActive c.linked enable c.backendCount
    activated := rfl }

def setFilterLevel (c : Channel) (level : Level) : Channel :=
  { c with levelFilter := level }

def setFlags (c : Channel) (flags : OutputFlags) : Channel :=
  { c with flags := flags }

def setDisplayFilter (c : Channel) (filter : Option (Record → Bool)) : Channel :=
  { c with displayFilter := filter }

/-- A backend that the channel has already is not added again. -/
def addBackend (c : Channel) (id : Nat) : Channel :=
  if h : id ∈ c.backends.map ChannelBackend.id then c
  else
    let added := c.backends.concat ⟨id, false⟩
    { c with
      backends := added
      backendCount := added.length
      active := isActive c.linked c.enabled added.length
      counted := rfl
      activated := rfl
      distinct := by
        change ((c.backends.concat ⟨id, false⟩).map ChannelBackend.id).Nodup
        rw [List.concat_eq_append, List.map_append, List.map_singleton]
        apply List.Nodup.append c.distinct (List.nodup_singleton _)
        simpa using h }

def removeBackend (c : Channel) (id : Nat) : Channel :=
  let rest := c.backends.filter fun backend => decide (backend.id ≠ id)
  { c with
    backends := rest
    backendCount := rest.length
    active := isActive c.linked c.enabled rest.length
    counted := rfl
    activated := rfl
    distinct := c.distinct.sublist (List.filter_sublist.map _) }

def removeBackends (c : Channel) : Channel :=
  { c with
    backends := []
    backendCount := 0
    active := isActive c.linked c.enabled 0
    counted := rfl
    activated := rfl
    distinct := List.nodup_nil }

/-- `Freeze` of every backend. -/
def freeze (c : Channel) : Channel :=
  { c with
    backends := c.backends.map fun backend => { backend with freezed := true }
    counted := by rw [List.length_map]; exact c.counted
    distinct := by
      rw [List.map_map]
      exact c.distinct }

/-- The backends whose `Display` is called. -/
def displayed (c : Channel) : List Nat :=
  (c.backends.filter fun backend => !backend.freezed).map ChannelBackend.id

theorem displayed_nodup (c : Channel) : c.displayed.Nodup :=
  c.distinct.sublist (List.filter_sublist.map _)

/-- The channel has a link and the flags for the record do not disable it. -/
def followsLink (c : Channel) (r : Record) : Bool :=
  (c.link.isSome || c.linkTo.isSome) && !(c.flags.override r.ovr).disableLink

/-- The display filter accepts the record. -/
def filterAccepts (c : Channel) (r : Record) : Bool :=
  match c.displayFilter with
  | some f => f r
  | none => true

/-- An inactive channel follows no link and displays to no backend. -/
theorem inactive_of {c : Channel} (h : c.active = false) :
    c.link = none ∧ c.linkTo = none ∧ (c.enabled = true → c.backends = []) := by
  have hactive := c.activated
  rw [h, isActive, eq_comm, Bool.or_eq_false_iff] at hactive
  rcases hactive with ⟨hlinked, hcount⟩
  have hnone : ¬ (c.link.isSome = true ∨ c.linkTo.isSome = true) := by
    intro hlink
    rw [c.linkFlagged hlink] at hlinked
    exact absurd hlinked (by decide)
  rw [not_or, Option.not_isSome_iff_eq_none, Option.not_isSome_iff_eq_none] at hnone
  refine ⟨hnone.1, hnone.2, ?_⟩
  intro henabled
  rw [henabled, Bool.true_and, decide_eq_false_iff_not, c.counted] at hcount
  exact List.length_eq_zero_iff.mp (by omega)

end Channel
end Logme
