import Logme.Channel
import Logme.ReentryGuard

/-!
# The logger

The heap holds every channel object; `channels` is the map from names to
registered ones.  The subsystem lists are kept sorted, and the active snapshot
of the level overrides is a copy of the vector, or null when it is empty; both
are part of the type.  `display` and `doLog` take the state of the reentry
guard of the calling thread, and fuel for the recursion through links.
-/

namespace Logme

/-- The snapshot that `PublishSubsystemLevelSnapshot` makes active. -/
def publishedLevels (levels : SubsystemLevels) : Option SubsystemLevels :=
  if levels = [] then none else some levels

structure Logger where
  shutdownCalled : Bool
  heap : List Channel
  channels : List (Name × Nat)
  default : Option Nat
  errorChannel : Option Name
  blockedSubsystems : List Nat
  allowedSubsystems : List Nat
  subsystems : List Nat
  blockReportedSubsystems : Bool
  subsystemLevels : SubsystemLevels
  activeSnapshot : Option SubsystemLevels
  blockedSorted : LowerBound.Sorted id blockedSubsystems
  allowedSorted : LowerBound.Sorted id allowedSubsystems
  reportedSorted : LowerBound.Sorted id subsystems
  levelsSorted : subsystemLevels.Sorted
  published : activeSnapshot = publishedLevels subsystemLevels

/-- One call of `Display` of a backend. -/
structure Delivery where
  channel : Nat
  backend : Nat
  deriving DecidableEq

namespace Logger

open LowerBound

/-- The constructor; the default channel gets a console backend. -/
def new (console : Nat) : Logger where
  shutdownCalled := false
  heap := [(Channel.new [] .default .default).addBackend console]
  channels := []
  default := some 0
  errorChannel := none
  blockedSubsystems := []
  allowedSubsystems := []
  subsystems := []
  blockReportedSubsystems := true
  subsystemLevels := []
  activeSnapshot := none
  blockedSorted := List.Pairwise.nil
  allowedSorted := List.Pairwise.nil
  reportedSorted := List.Pairwise.nil
  levelsSorted := SubsystemLevels.sorted_nil
  published := rfl

/-! ## Subsystem lists -/

def addSubsystemToList (list : List Nat) (sid : Nat) : List Nat :=
  insertNew id sid list

def removeSubsystemFromList (list : List Nat) (sid : Nat) : List Nat :=
  erase id sid list

theorem sorted_addSubsystemToList {list : List Nat} (h : Sorted id list)
    (sid : Nat) : Sorted id (addSubsystemToList list sid) := h.insertNew sid

theorem sorted_removeSubsystemFromList {list : List Nat} (h : Sorted id list)
    (sid : Nat) : Sorted id (removeSubsystemFromList list sid) := h.erase sid

theorem sorted_nil : Sorted id ([] : List Nat) := List.Pairwise.nil

/-- The loop of `SetBlockReportedSubsystems`. -/
def addAll (reported : List Nat) : List Nat :=
  reported.foldl addSubsystemToList []

theorem sorted_addAll (reported : List Nat) : Sorted id (addAll reported) := by
  have hfold : ∀ (list : List Nat), Sorted id list →
      Sorted id (reported.foldl addSubsystemToList list) := by
    induction reported with
    | nil => exact fun _ h => h
    | cons sid rest ih =>
        intro list h
        exact ih _ (sorted_addSubsystemToList h sid)
  exact hfold [] sorted_nil

def setBlocked (l : Logger) (list : List Nat) (h : Sorted id list) : Logger :=
  { l with blockedSubsystems := list, blockedSorted := h }

def setAllowed (l : Logger) (list : List Nat) (h : Sorted id list) : Logger :=
  { l with allowedSubsystems := list, allowedSorted := h }

def setReported (l : Logger) (list : List Nat) (h : Sorted id list) : Logger :=
  { l with subsystems := list, reportedSorted := h }

def addBlockedSubsystem (l : Logger) (sid : Nat) : Logger :=
  if l.shutdownCalled ∨ sid = 0 then l
  else l.setBlocked _ (sorted_addSubsystemToList l.blockedSorted sid)

def removeBlockedSubsystem (l : Logger) (sid : Nat) : Logger :=
  if sid = 0 then l
  else l.setBlocked _ (sorted_removeSubsystemFromList l.blockedSorted sid)

def addAllowedSubsystem (l : Logger) (sid : Nat) : Logger :=
  if l.shutdownCalled ∨ sid = 0 then l
  else l.setAllowed _ (sorted_addSubsystemToList l.allowedSorted sid)

def removeAllowedSubsystem (l : Logger) (sid : Nat) : Logger :=
  if sid = 0 then l
  else l.setAllowed _ (sorted_removeSubsystemFromList l.allowedSorted sid)

def clearBlockedSubsystems (l : Logger) : Logger := l.setBlocked [] sorted_nil

def clearAllowedSubsystems (l : Logger) : Logger := l.setAllowed [] sorted_nil

def clearSubsystemFilters (l : Logger) : Logger :=
  l.clearBlockedSubsystems.clearAllowedSubsystems.setReported [] sorted_nil

def setBlockReportedSubsystems (l : Logger) (block : Bool) : Logger :=
  if l.shutdownCalled then l
  else
    let cleared : Logger :=
      { l with blockReportedSubsystems := block }.clearBlockedSubsystems
        |>.clearAllowedSubsystems
    if block then cleared.setBlocked _ (sorted_addAll l.subsystems)
    else cleared.setAllowed _ (sorted_addAll l.subsystems)

def reportSubsystem (l : Logger) (sid : Nat) : Logger :=
  if l.shutdownCalled ∨ sid = 0 then l
  else
    let l := l.setReported _ (sorted_addSubsystemToList l.reportedSorted sid)
    if l.blockReportedSubsystems then
      l.setBlocked _ (sorted_addSubsystemToList l.blockedSorted sid)
    else l.setAllowed _ (sorted_addSubsystemToList l.allowedSorted sid)

def unreportSubsystem (l : Logger) (sid : Nat) : Logger :=
  if sid = 0 then l
  else
    let l := l.setReported _ (sorted_removeSubsystemFromList l.reportedSorted sid)
    if l.blockReportedSubsystems then
      l.setBlocked _ (sorted_removeSubsystemFromList l.blockedSorted sid)
    else l.setAllowed _ (sorted_removeSubsystemFromList l.allowedSorted sid)

/-! ## Subsystem levels -/

/-- An update of the vector followed by `PublishSubsystemLevelSnapshot`. -/
def publishLevels (l : Logger) (levels : SubsystemLevels)
    (h : levels.Sorted) : Logger :=
  { l with
    subsystemLevels := levels
    activeSnapshot := publishedLevels levels
    levelsSorted := h
    published := rfl }

def setSubsystemLevel (l : Logger) (sid : Nat) (level : Level) : Logger :=
  if l.shutdownCalled ∨ sid = 0 then l
  else l.publishLevels _ (l.levelsSorted.set sid level)

def removeSubsystemLevel (l : Logger) (sid : Nat) : Logger :=
  if sid = 0 then l
  else
    match h : l.subsystemLevels.remove sid with
    | some levels => l.publishLevels levels (l.levelsSorted.remove h)
    | none => l

def clearSubsystemLevels (l : Logger) : Logger :=
  l.publishLevels [] SubsystemLevels.sorted_nil

def hasSubsystemLevelOverrides (l : Logger) : Bool := l.activeSnapshot.isSome

def getSubsystemLevel (l : Logger) (sid : Nat) : Option Level :=
  if sid = 0 then none else l.activeSnapshot.bind fun levels => levels.get sid

/-! ## Channels by name -/

/-- A null name is an empty one. -/
def getExistingChannel (l : Logger) (name : Name) : Option Nat :=
  if name = [] then l.default else l.channels.lookup name

def createChannelInternal (l : Logger) (name : Name) (flags : OutputFlags)
    (level : Level) : Option Nat × Logger :=
  if l.shutdownCalled then (none, l)
  else
    match l.channels.lookup name with
    | some c => (some c, l)
    | none =>
        (some l.heap.length,
          { l with
            heap := l.heap.concat (.new name flags level)
            channels := l.channels.concat (name, l.heap.length) })

def getChannel (l : Logger) (name : Name) : Option Nat × Logger :=
  match l.getExistingChannel name with
  | some c => (some c, l)
  | none => l.createChannelInternal name .default .default

/-- The channel that a link points to; a link by name may create it. -/
def linkTarget (l : Logger) (channel : Channel) : Option Nat × Logger :=
  match channel.linkTo, channel.link with
  | some c, _ => (some c, l)
  | none, some name => l.getChannel name
  | none, none => (none, l)

def setErrorChannel (l : Logger) (name : Name) : Logger :=
  { l with errorChannel := some name }

/-- Apply an operation of a channel. -/
def modifyChannel (l : Logger) (c : Nat) (f : Channel → Channel) : Logger :=
  { l with heap := l.heap.modify c f }

/-! ## Display -/

/-- The level a record is compared with in a channel. -/
def effectiveLevel (l : Logger) (channel : Channel) (subsystem : Nat) : Level :=
  (l.getSubsystemLevel subsystem).getD channel.levelFilter

/-- The display filter and the level filter accept the record. -/
def accepts (l : Logger) (channel : Channel) (r : Record) : Bool :=
  channel.filterAccepts r &&
    decide (l.effectiveLevel channel r.subsystem ≤ r.level)

/-- The deliveries of the last loop of `Display`. -/
def ownDeliveries (c : Nat) (channel : Channel) : List Delivery :=
  channel.displayed.map fun backend => ⟨c, backend⟩

structure Displayed where
  logger : Logger
  guard : ReentryState Nat
  deliveries : List Delivery

/-- `Channel::Display`; `none` when the fuel is used up. -/
def display : Nat → Logger → ReentryState Nat → Nat → Record → Option Displayed
  | 0, _, _, _, _ => none
  | fuel + 1, l, guard, c, r =>
      match l.heap[c]? with
      | none => some ⟨l, guard, []⟩
      | some channel =>
          if l.shutdownCalled || !channel.enabled then some ⟨l, guard, []⟩
          else if (guard.enter c).1 = false then
            some ⟨l, (guard.enter c).2.leave false, []⟩
          else
            let inside := (guard.enter c).2
            if l.accepts channel r = false then some ⟨l, inside.leave true, []⟩
            else if channel.followsLink r = false then
              some ⟨l, inside.leave true, ownDeliveries c channel⟩
            else
              match l.linkTarget channel with
              | (none, l') =>
                  some ⟨l', inside.leave true, ownDeliveries c channel⟩
              | (some d, l') =>
                  (display fuel l' inside d r).map fun linked =>
                    ⟨linked.logger, linked.guard.leave true,
                      linked.deliveries ++ ownDeliveries c channel⟩

end Logger
end Logme
