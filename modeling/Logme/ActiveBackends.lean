import Logme.FileManager
import Logme.Library.DoublyLinkedList
import Logme.Library.StepSystem

/-!
# The pointers of the list of active backends

The list of active backends as the file manager keeps it: a head and a tail
pointer in the manager, and in every backend two pointers, a flag and the
flush time.  The flush time is an atomic of the backend that other threads
store into while the backend is linked, without the manager's lock.
-/

namespace Logme

structure ActiveBackends (ι : Type) where
  activeBackendsNext : Option ι
  activeBackendsPrev : Option ι
  activeNext : ι → Option ι
  activePrev : ι → Option ι
  activeLinked : ι → Bool
  flushTime : ι → Nat
  registered : ι → Bool
  backends : List ι

namespace ActiveBackends

variable {ι : Type}

def initial : ActiveBackends ι where
  activeBackendsNext := none
  activeBackendsPrev := none
  activeNext := fun _ => none
  activePrev := fun _ => none
  activeLinked := fun _ => false
  flushTime := fun _ => 0
  registered := fun _ => true
  backends := []

variable [DecidableEq ι]

/-- Store into `ActiveNext` of a backend, and into the head for `none`. -/
def setNext (m : ActiveBackends ι) (backend next : Option ι) :
    ActiveBackends ι :=
  match backend with
  | none => { m with activeBackendsNext := next }
  | some b => { m with activeNext := Function.update m.activeNext b next }

/-- Store into `ActivePrev` of a backend, and into the tail for `none`. -/
def setPrev (m : ActiveBackends ι) (backend prev : Option ι) :
    ActiveBackends ι :=
  match backend with
  | none => { m with activeBackendsPrev := prev }
  | some b => { m with activePrev := Function.update m.activePrev b prev }

def setLinked (m : ActiveBackends ι) (backend : ι) (linked : Bool) :
    ActiveBackends ι :=
  { m with activeLinked := Function.update m.activeLinked backend linked }

def linkBackendFront (m : ActiveBackends ι) (backend : ι) : ActiveBackends ι :=
  let m := m.setPrev (some backend) none
  let m := m.setNext (some backend) m.activeBackendsNext
  let m := m.setPrev m.activeBackendsNext (some backend)
  let m := m.setNext none (some backend)
  m.setLinked backend true

def linkBackendBack (m : ActiveBackends ι) (backend : ι) : ActiveBackends ι :=
  let m := m.setNext (some backend) none
  let m := m.setPrev (some backend) m.activeBackendsPrev
  let m := m.setNext m.activeBackendsPrev (some backend)
  let m := m.setPrev none (some backend)
  m.setLinked backend true

def linkBackendBefore (m : ActiveBackends ι) (backend : ι) (before : Option ι) :
    ActiveBackends ι :=
  match before with
  | none => m.linkBackendBack backend
  | some item =>
      let m := m.setPrev (some backend) (m.activePrev item)
      let m := m.setNext (some backend) (some item)
      let m := m.setNext (m.activePrev item) (some backend)
      let m := m.setPrev (some item) (some backend)
      m.setLinked backend true

def deactivateBackend (m : ActiveBackends ι) (backend : Option ι) :
    ActiveBackends ι :=
  match backend with
  | none => m
  | some b =>
      if m.activeLinked b = false then m
      else
        let m := m.setNext (m.activePrev b) (m.activeNext b)
        let m := m.setPrev (m.activeNext b) (m.activePrev b)
        let m := m.setNext (some b) none
        let m := m.setPrev (some b) none
        m.setLinked b false

/-- The loop of `ActivateBackend`: the first backend that is due later, if one
is.  Without fuel there is no result. -/
def firstLater (m : ActiveBackends ι) (time : Nat) :
    Nat → Option ι → Option (Option ι)
  | 0, _ => none
  | _ + 1, none => some none
  | fuel + 1, some item =>
      if m.flushTime item ≠ RIGHT_NOW ∧ m.flushTime item > time then
        some (some item)
      else firstLater m time fuel (m.activeNext item)

def activateBackend (m : ActiveBackends ι) (fuel : Nat) (backend : Option ι)
    (time : Nat) : Option (ActiveBackends ι) :=
  match backend with
  | none => some m
  | some b =>
      if time = 0 then some m
      else
        let m := m.deactivateBackend (some b)
        if time = RIGHT_NOW then some (m.linkBackendFront b)
        else
          match m.activeBackendsPrev with
          | none => some (m.linkBackendBack b)
          | some last =>
              if m.flushTime last ≠ RIGHT_NOW ∧ m.flushTime last ≤ time then
                some (m.linkBackendBack b)
              else
                (m.firstLater time fuel m.activeBackendsNext).map fun before =>
                  m.linkBackendBefore b before

def removeBackendLocked (m : ActiveBackends ι) (backend : Option ι) :
    Bool × ActiveBackends ι :=
  match backend with
  | none => (false, m)
  | some b =>
      let m := m.deactivateBackend (some b)
      let m := { m with
        registered := Function.update m.registered b false
        flushTime := Function.update m.flushTime b 0 }
      if b ∈ m.backends then (true, { m with backends := m.backends.erase b })
      else (false, m)

/-! ## Both directions, with the manager's own pointers -/

def forward (m : ActiveBackends ι) : Option ι → Option ι
  | none => m.activeBackendsNext
  | some b => m.activeNext b

def backward (m : ActiveBackends ι) : Option ι → Option ι
  | none => m.activeBackendsPrev
  | some b => m.activePrev b

@[simp] theorem setNext_forward (m : ActiveBackends ι) (backend next : Option ι) :
    (m.setNext backend next).forward = Function.update m.forward backend next := by
  funext u
  cases backend <;> cases u <;>
    simp [setNext, forward, Function.update_apply]

@[simp] theorem setNext_backward (m : ActiveBackends ι)
    (backend next : Option ι) :
    (m.setNext backend next).backward = m.backward := by
  cases backend <;> rfl

@[simp] theorem setPrev_forward (m : ActiveBackends ι) (backend prev : Option ι) :
    (m.setPrev backend prev).forward = m.forward := by
  cases backend <;> rfl

@[simp] theorem setPrev_backward (m : ActiveBackends ι)
    (backend prev : Option ι) :
    (m.setPrev backend prev).backward =
      Function.update m.backward backend prev := by
  funext u
  cases backend <;> cases u <;>
    simp [setPrev, backward, Function.update_apply]

@[simp] theorem setNext_flushTime (m : ActiveBackends ι)
    (backend next : Option ι) :
    (m.setNext backend next).flushTime = m.flushTime := by
  cases backend <;> rfl

@[simp] theorem setPrev_flushTime (m : ActiveBackends ι)
    (backend prev : Option ι) :
    (m.setPrev backend prev).flushTime = m.flushTime := by
  cases backend <;> rfl

@[simp] theorem setNext_activeLinked (m : ActiveBackends ι)
    (backend next : Option ι) :
    (m.setNext backend next).activeLinked = m.activeLinked := by
  cases backend <;> rfl

@[simp] theorem setPrev_activeLinked (m : ActiveBackends ι)
    (backend prev : Option ι) :
    (m.setPrev backend prev).activeLinked = m.activeLinked := by
  cases backend <;> rfl

@[simp] theorem setLinked_forward (m : ActiveBackends ι) (backend : ι)
    (linked : Bool) : (m.setLinked backend linked).forward = m.forward := rfl

@[simp] theorem setLinked_backward (m : ActiveBackends ι) (backend : ι)
    (linked : Bool) : (m.setLinked backend linked).backward = m.backward := rfl

@[simp] theorem setLinked_flushTime (m : ActiveBackends ι) (backend : ι)
    (linked : Bool) : (m.setLinked backend linked).flushTime = m.flushTime := rfl

@[simp] theorem setLinked_activeLinked (m : ActiveBackends ι) (backend : ι)
    (linked : Bool) :
    (m.setLinked backend linked).activeLinked =
      Function.update m.activeLinked backend linked := rfl

/-! ## The represented list -/

structure Holds (m : ActiveBackends ι) (l : List ι) : Prop where
  nodup : l.Nodup
  pointers : DoublyLinked.Represents m.forward m.backward l
  linked : ∀ b, m.activeLinked b = true ↔ b ∈ l

omit [DecidableEq ι] in
theorem initial_holds : (initial : ActiveBackends ι).Holds [] where
  nodup := List.nodup_nil
  pointers := DoublyLinked.represents_nil rfl rfl
  linked := by simp [initial]

/-- The three ways to link a backend end in the same four pointers. -/
structure LinkedIn (m t : ActiveBackends ι) (b : ι) (prev next : Option ι) :
    Prop where
  forward : t.forward =
    Function.update (Function.update m.forward (some b) next) prev (some b)
  backward : t.backward =
    Function.update (Function.update m.backward (some b) prev) next (some b)
  activeLinked : t.activeLinked = Function.update m.activeLinked b true

theorem LinkedIn.holds {m t : ActiveBackends ι} {b : ι} {l₁ l₂ : List ι}
    (h : m.LinkedIn t b l₁.getLast? l₂.head?) (hold : m.Holds (l₁ ++ l₂))
    (hb : b ∉ l₁ ++ l₂) : t.Holds (l₁ ++ b :: l₂) where
  nodup := List.nodup_middle.mpr (List.nodup_cons.mpr ⟨hb, hold.nodup⟩)
  pointers := by
    rw [h.forward, h.backward]
    exact hold.pointers.insert hold.nodup hb
  linked := by
    intro x
    rw [h.activeLinked]
    by_cases hx : x = b
    · simp [hx]
    · rw [Function.update_of_ne hx, hold.linked]
      simp [hx]

theorem linkBackendFront_eq (m : ActiveBackends ι) (b : ι) :
    m.linkBackendFront b =
      ((((m.setPrev (some b) none).setNext (some b) (m.forward none)).setPrev
        (m.forward none) (some b)).setNext none (some b)).setLinked b true := rfl

theorem linkBackendFront_linkedIn (m : ActiveBackends ι) (b : ι) :
    m.LinkedIn (m.linkBackendFront b) b none (m.forward none) := by
  rw [linkBackendFront_eq]
  constructor <;> simp

theorem linkBackendBack_eq (m : ActiveBackends ι) (b : ι) :
    m.linkBackendBack b =
      ((((m.setNext (some b) none).setPrev (some b) (m.backward none)).setNext
        (m.backward none) (some b)).setPrev none (some b)).setLinked b true := rfl

theorem linkBackendBack_linkedIn (m : ActiveBackends ι) (b : ι) :
    m.LinkedIn (m.linkBackendBack b) b (m.backward none) none := by
  rw [linkBackendBack_eq]
  constructor <;> simp

theorem linkBackendBefore_linkedIn (m : ActiveBackends ι) {b item : ι}
    (h : item ≠ b) :
    m.LinkedIn (m.linkBackendBefore b (some item)) b (m.backward (some item))
      (some item) := by
  have hread : ((m.setPrev (some b) (m.activePrev item)).setNext (some b)
      (some item)).activePrev item = m.activePrev item :=
    Function.update_of_ne h _ _
  have heq : m.linkBackendBefore b (some item) =
      ((((m.setPrev (some b) (m.activePrev item)).setNext (some b)
        (some item)).setNext (m.activePrev item) (some b)).setPrev
          (some item) (some b)).setLinked b true := by
    unfold linkBackendBefore
    dsimp only
    rw [hread]
  rw [heq]
  constructor <;> simp [backward]

/-- Linking before the head of the second part links between the parts. -/
theorem Holds.linkBackendBefore {m : ActiveBackends ι} {l₁ l₂ : List ι} {b : ι}
    (h : m.Holds (l₁ ++ l₂)) (hb : b ∉ l₁ ++ l₂) :
    (m.linkBackendBefore b l₂.head?).Holds (l₁ ++ b :: l₂) := by
  cases l₂ with
  | nil =>
      have hlinked := m.linkBackendBack_linkedIn b
      rw [h.pointers.tail, List.append_nil] at hlinked
      exact LinkedIn.holds hlinked h hb
  | cons item rest =>
      have hne : item ≠ b := by
        rintro rfl
        simp at hb
      have hlinked := m.linkBackendBefore_linkedIn hne
      rw [h.pointers.neighbours.2] at hlinked
      exact LinkedIn.holds hlinked h hb

theorem Holds.linkBackendFront {m : ActiveBackends ι} {l : List ι} {b : ι}
    (h : m.Holds l) (hb : b ∉ l) : (m.linkBackendFront b).Holds (b :: l) := by
  have hlinked : m.LinkedIn (m.linkBackendFront b) b ([] : List ι).getLast?
      l.head? := by
    rw [← h.pointers.head]
    exact m.linkBackendFront_linkedIn b
  exact hlinked.holds h hb

theorem Holds.linkBackendBack {m : ActiveBackends ι} {l : List ι} {b : ι}
    (h : m.Holds l) (hb : b ∉ l) :
    (m.linkBackendBack b).Holds (l ++ [b]) := by
  rw [← List.append_nil l] at h hb
  exact h.linkBackendBefore hb

/-! ## Taking a backend out -/

theorem deactivateBackend_eq {m : ActiveBackends ι} {b : ι}
    (hlinked : m.activeLinked b = true) (hself : m.activePrev b ≠ some b) :
    m.deactivateBackend (some b) =
      ((((m.setNext (m.backward (some b)) (m.forward (some b))).setPrev
        (m.forward (some b)) (m.backward (some b))).setNext (some b) none).setPrev
          (some b) none).setLinked b false := by
  have hnext : (m.setNext (m.activePrev b) (m.activeNext b)).activeNext b =
      m.activeNext b := by
    have h := congrFun (m.setNext_forward (m.activePrev b) (m.activeNext b))
      (some b)
    rw [Function.update_of_ne hself.symm] at h
    exact h
  have hprev : (m.setNext (m.activePrev b) (m.activeNext b)).activePrev b =
      m.activePrev b :=
    congrFun (m.setNext_backward (m.activePrev b) (m.activeNext b)) (some b)
  unfold deactivateBackend
  simp only [hlinked, Bool.true_eq_false, if_false, hnext, hprev]
  rfl

theorem Holds.deactivateBackend {m : ActiveBackends ι} {l : List ι}
    (h : m.Holds l) (b : ι) :
    (m.deactivateBackend (some b)).Holds (l.erase b) ∧
      (m.deactivateBackend (some b)).flushTime = m.flushTime := by
  by_cases hb : b ∈ l
  · obtain ⟨l₁, l₂, hnot, rfl, herase⟩ := List.exists_erase_eq hb
    have hflag : m.activeLinked b = true := (h.linked b).mpr hb
    have hself : m.activePrev b ≠ some b := by
      rw [show m.activePrev b = l₁.getLast? from h.pointers.neighbours.2]
      exact DoublyLinked.getLast?_ne_of_notMem hnot
    rw [herase, deactivateBackend_eq hflag hself]
    have hwithout := h.nodup
    rw [List.nodup_middle, List.nodup_cons] at hwithout
    refine ⟨⟨hwithout.2, ?_, ?_⟩, by simp⟩
    · simpa using h.pointers.unlink h.nodup
    · intro x
      by_cases hx : x = b
      · simpa [hx] using hwithout.1
      · simp [h.linked, hx]
  · have hflag : m.activeLinked b = false := by
      rw [← Bool.not_eq_true, h.linked]
      exact hb
    rw [List.erase_of_not_mem hb]
    unfold ActiveBackends.deactivateBackend
    simp only [hflag, if_true]
    exact ⟨h, trivial⟩

/-! ## Inserting by time -/

omit [DecidableEq ι] in
/-- What the loop finds with some fuel it finds with more. -/
theorem firstLater_mono {m : ActiveBackends ι} {time fuel more : Nat}
    {item : Option ι} {found : Option ι} (hfuel : fuel ≤ more)
    (h : m.firstLater time fuel item = some found) :
    m.firstLater time more item = some found := by
  induction fuel generalizing item more with
  | zero => simp [ActiveBackends.firstLater] at h
  | succ fuel ih =>
      obtain ⟨more, rfl⟩ := Nat.exists_eq_add_of_le' hfuel
      cases item with
      | none => exact h
      | some b =>
          rw [← Nat.add_assoc, ActiveBackends.firstLater] at *
          split at h
          next hstop => rw [if_pos hstop, h]
          next hpass =>
            rw [if_neg hpass]
            exact ih (by omega) h

omit [DecidableEq ι] in
/-- The loop finds the first backend of the rest of the list that is due later,
with fuel for every backend of the list. -/
theorem Holds.firstLater {m : ActiveBackends ι} {before after : List ι}
    (h : m.Holds (before ++ after)) {time fuel : Nat}
    (hfuel : after.length < fuel) :
    m.firstLater time fuel after.head? =
      some (after.find? (FileManager.stopsScan m.flushTime time)) := by
  induction after generalizing before fuel with
  | nil =>
      cases fuel with
      | zero => simp at hfuel
      | succ fuel => rfl
  | cons item rest ih =>
      cases fuel with
      | zero => simp at hfuel
      | succ fuel =>
          have hnext : m.activeNext item = rest.head? :=
            h.pointers.neighbours.1
          simp only [List.head?_cons, ActiveBackends.firstLater]
          rw [List.find?_cons, FileManager.stopsScan]
          by_cases hstop : m.flushTime item ≠ RIGHT_NOW ∧ m.flushTime item > time
          · simp [hstop]
          · rw [if_neg hstop, decide_eq_false hstop, hnext]
            rw [← List.singleton_append, ← List.append_assoc] at h
            exact ih h (by simpa using hfuel)

omit [DecidableEq ι] in
theorem Holds.firstLater_head {m : ActiveBackends ι} {l : List ι}
    (h : m.Holds l) {fuel : Nat} (hfuel : l.length < fuel) (time : Nat) :
    m.firstLater time fuel m.activeBackendsNext =
      some (l.find? (FileManager.stopsScan m.flushTime time)) := by
  rw [show m.activeBackendsNext = l.head? from h.pointers.head]
  rw [← List.nil_append l] at h
  exact h.firstLater hfuel

omit [DecidableEq ι] in
theorem linkByTime_find (flushTime : ι → Nat) (b : ι) (time : Nat)
    (active : List ι) :
    ∃ before after, active = before ++ after ∧
      FileManager.linkByTime flushTime b time active = before ++ b :: after ∧
      active.find? (FileManager.stopsScan flushTime time) = after.head? := by
  obtain ⟨before, after, hsplit, hlink, hpass, hstop⟩ :=
    FileManager.linkByTime_split flushTime b time active
  refine ⟨before, after, hsplit, hlink, ?_⟩
  cases after with
  | nil =>
      rw [hsplit, List.append_nil, List.head?_nil, List.find?_eq_none]
      intro x hx
      simp [hpass x hx]
  | cons item rest => exact hstop item rfl

/-- `ActivateBackend` inserts where the list itself says. -/
theorem Holds.activateBackend {m : ActiveBackends ι} {l : List ι}
    (h : m.Holds l) {b : ι} {time fuel : Nat} (htime : time ≠ 0)
    (hfuel : l.length < fuel) :
    ∃ t, m.activateBackend fuel (some b) time = some t ∧
      t.Holds (FileManager.link m.flushTime b time (l.erase b)) := by
  obtain ⟨hrest, hflush⟩ := h.deactivateBackend b
  have hb : b ∉ l.erase b := h.nodup.not_mem_erase
  have hlength : (l.erase b).length < fuel :=
    Nat.lt_of_le_of_lt List.length_erase_le hfuel
  rw [← hflush]
  simp only [ActiveBackends.activateBackend, if_neg htime]
  generalize m.deactivateBackend (some b) = m' at hrest
  generalize l.erase b = active at hrest hb hlength
  unfold FileManager.link
  by_cases hnow : time = RIGHT_NOW
  · simp only [if_pos hnow]
    exact ⟨_, rfl, hrest.linkBackendFront hb⟩
  · simp only [if_neg hnow]
    rw [show m'.activeBackendsPrev = active.getLast? from hrest.pointers.tail]
    cases hlast : active.getLast? with
    | none =>
        have hnil := List.getLast?_eq_none_iff.mp hlast
        subst active
        exact ⟨_, rfl, hrest.linkBackendBack hb⟩
    | some last =>
        dsimp only
        split
        next => exact ⟨_, rfl, hrest.linkBackendBack hb⟩
        next =>
          obtain ⟨before, after, rfl, hlink, hfind⟩ :=
            linkByTime_find m'.flushTime b time active
          rw [hrest.firstLater_head hlength, hfind, hlink]
          exact ⟨_, rfl, hrest.linkBackendBefore hb⟩

theorem activateBackend_mono {m t : ActiveBackends ι} {backend : Option ι}
    {time fuel more : Nat} (hfuel : fuel ≤ more)
    (h : m.activateBackend fuel backend time = some t) :
    m.activateBackend more backend time = some t := by
  cases backend with
  | none => exact h
  | some b =>
      simp only [ActiveBackends.activateBackend] at h ⊢
      split
      next htime => rwa [if_pos htime] at h
      next htime =>
        rw [if_neg htime] at h
        split
        next hnow => rwa [if_pos hnow] at h
        next hnow =>
          rw [if_neg hnow] at h
          split
          next hempty => rwa [hempty] at h
          next last hlast =>
            rw [hlast] at h
            dsimp only at h
            split
            next hearlier => rwa [if_pos hearlier] at h
            next hlater =>
              rw [if_neg hlater] at h
              obtain ⟨before, hfound, hlinked⟩ := Option.map_eq_some_iff.mp h
              rw [firstLater_mono hfuel hfound]
              exact congrArg some hlinked

/-- Activation always ends: the list has an end for the loop to reach. -/
theorem Holds.activateBackend_isSome {m : ActiveBackends ι} {l : List ι}
    (h : m.Holds l) (backend : Option ι) (time : Nat) {fuel : Nat}
    (hfuel : l.length < fuel) :
    (m.activateBackend fuel backend time).isSome := by
  cases backend with
  | none => rfl
  | some b =>
      by_cases htime : time = 0
      · simp [ActiveBackends.activateBackend, htime]
      · obtain ⟨t, ht, -⟩ := h.activateBackend htime hfuel
        rw [ht]
        rfl

theorem Holds.of_activateBackend {m t : ActiveBackends ι} {l : List ι} {b : ι}
    {time fuel : Nat} (h : m.Holds l) (htime : time ≠ 0)
    (hresult : m.activateBackend fuel (some b) time = some t) :
    t.Holds (FileManager.link m.flushTime b time (l.erase b)) := by
  have hmore := activateBackend_mono (Nat.le_add_right fuel (l.length + 1)) hresult
  obtain ⟨t', ht, hholds⟩ := h.activateBackend htime
    (show l.length < fuel + (l.length + 1) by omega)
  rw [hmore, Option.some.injEq] at ht
  exact ht ▸ hholds

/-! ## Removals -/

theorem Holds.deactivate {m : ActiveBackends ι} {l : List ι} (h : m.Holds l)
    (backend : Option ι) :
    ∃ l', (m.deactivateBackend backend).Holds l' ∧ l'.Sublist l := by
  cases backend with
  | none => exact ⟨l, h, .refl l⟩
  | some b => exact ⟨l.erase b, (h.deactivateBackend b).1, List.erase_sublist⟩

theorem Holds.removeBackendLocked {m : ActiveBackends ι} {l : List ι}
    (h : m.Holds l) (backend : Option ι) :
    ∃ l', (m.removeBackendLocked backend).2.Holds l' ∧ l'.Sublist l := by
  cases backend with
  | none => exact ⟨l, h, .refl l⟩
  | some b =>
      obtain ⟨hnodup, hpointers, hlinked⟩ := (h.deactivateBackend b).1
      refine ⟨l.erase b, ?_, List.erase_sublist⟩
      unfold ActiveBackends.removeBackendLocked
      dsimp only
      split
      next => exact ⟨hnodup, hpointers, hlinked⟩
      next => exact ⟨hnodup, hpointers, hlinked⟩

/-! ## The manager's list of backends -/

theorem activateBackend_refines {m t : ActiveBackends ι} {f : FileManager ι}
    {b : ι} {time fuel : Nat} (h : m.Holds f.active)
    (hresult : m.activateBackend fuel (some b) time = some t) :
    t.Holds (f.activateBackend m.flushTime b time).active := by
  unfold FileManager.activateBackend
  by_cases htime : time = 0
  · simp only [ActiveBackends.activateBackend, if_pos htime,
      Option.some.injEq] at hresult
    rw [if_pos htime, ← hresult]
    exact h
  · rw [if_neg htime]
    exact h.of_activateBackend htime hresult

theorem deactivateBackend_refines {m : ActiveBackends ι} {f : FileManager ι}
    (h : m.Holds f.active) (b : ι) :
    (m.deactivateBackend (some b)).Holds (f.deactivateBackend b).active :=
  (h.deactivateBackend b).1

end ActiveBackends

end Logme
