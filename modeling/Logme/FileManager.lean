import Mathlib.Algebra.Group.Nat.Defs
import Mathlib.Data.List.Nodup
import Mathlib.Tactic.SplitIfs

/-!
# The file manager's list of active backends

The manager keeps the backends that have asked for a worker run in a list
that is meant to be ordered by time, and looks at the head only.  The
intrusive doubly linked list of the source is a list of backend identifiers
here; the flush times belong to the backends and are given to the operations
that read them.
-/

namespace Logme

/-- The flush time that asks for a run at once. -/
def RIGHT_NOW : Nat := 1

def SCHEDULED_RUN_GAP_MS : Nat := 20

def UINT64_MAX : Nat := 2 ^ 64 - 1

structure FileManager (ι : Type) where
  backends : List ι
  active : List ι
  currentEarliestTime : Nat
  reschedule : Bool
  stopRequested : Bool

namespace FileManager

variable {ι : Type}

def new : FileManager ι where
  backends := []
  active := []
  currentEarliestTime := UINT64_MAX
  reschedule := false
  stopRequested := false

variable [DecidableEq ι]

def addBackend (m : FileManager ι) (backend : ι) : FileManager ι :=
  if backend ∈ m.backends then m
  else { m with backends := m.backends ++ [backend] }

/-- The last loop of `ActivateBackend`: link before the first backend with a
later time, else at the back. -/
def linkByTime (flushTime : ι → Nat) (backend : ι) (time : Nat) :
    List ι → List ι
  | [] => [backend]
  | item :: rest =>
      if flushTime item ≠ RIGHT_NOW ∧ flushTime item > time then
        backend :: item :: rest
      else item :: linkByTime flushTime backend time rest

/-- `ActivateBackend` after the backend has been unlinked. -/
def link (flushTime : ι → Nat) (backend : ι) (time : Nat)
    (active : List ι) : List ι :=
  if time = RIGHT_NOW then backend :: active
  else
    match active.getLast? with
    | none => [backend]
    | some last =>
        if flushTime last ≠ RIGHT_NOW ∧ flushTime last ≤ time then
          active ++ [backend]
        else linkByTime flushTime backend time active

def deactivateBackend (m : FileManager ι) (backend : ι) : FileManager ι :=
  { m with active := m.active.erase backend }

def activateBackend (m : FileManager ι) (flushTime : ι → Nat) (backend : ι)
    (time : Nat) : FileManager ι :=
  if time = 0 then m
  else
    { m with
      active := link flushTime backend time (m.active.erase backend) }

/-- `Notify`, with the value of the backend's `Registered`. -/
def notify (m : FileManager ι) (flushTime : ι → Nat) (registered : Bool)
    (backend : ι) (time : Nat) : FileManager ι :=
  if registered = false then m
  else
    let m := m.activateBackend flushTime backend time
    if m.active.head? = some backend ∨ time = RIGHT_NOW ∨
        time < m.currentEarliestTime then
      { m with reschedule := true }
    else m

/-- The manager's part of `RemoveBackendLocked`, and the self-stop that
follows it in `ManagementThread`. -/
def removeBackendLocked (m : FileManager ι) (backend : ι) : FileManager ι :=
  let m := m.deactivateBackend backend
  { m with backends := m.backends.erase backend }

def stopIfEmpty (m : FileManager ι) : FileManager ι :=
  if m.backends = [] then { m with stopRequested := true } else m

/-- Heads whose flush time is 0 are unlinked at the start of a round. -/
def dropStale (m : FileManager ι) (flushTime : ι → Nat) : FileManager ι :=
  { m with active := m.active.dropWhile fun b => flushTime b = 0 }

/-- What a round of `ManagementThread` decides about the head.  A selection
is early when the head's time is at most `SCHEDULED_RUN_GAP_MS` ahead; its
flush time is then set to `RIGHT_NOW`. -/
inductive Decision (ι : Type) where
  | wait
  | waitUntil (time : Nat)
  | select (backend : ι) (early : Bool)

omit [DecidableEq ι] in
def decideRound (m : FileManager ι) (flushTime : ι → Nat) (now : Nat) :
    Decision ι × FileManager ι :=
  let m := m.dropStale flushTime
  match m.active with
  | [] => (.wait, { m with currentEarliestTime := UINT64_MAX })
  | head :: _ =>
      let earliest := flushTime head
      if earliest ≠ RIGHT_NOW ∧ now < earliest then
        if earliest - now > SCHEDULED_RUN_GAP_MS then
          (.waitUntil earliest, { m with currentEarliestTime := earliest })
        else (.select head true, m)
      else (.select head false, m)

/-! ## Membership and duplicates -/

omit [DecidableEq ι] in
theorem linkByTime_perm (flushTime : ι → Nat) (backend : ι) (time : Nat)
    (active : List ι) :
    (linkByTime flushTime backend time active).Perm (backend :: active) := by
  induction active with
  | nil => rfl
  | cons item rest ih =>
      simp only [linkByTime]
      split
      next => rfl
      next => exact (ih.cons item).trans (.swap _ _ _)

omit [DecidableEq ι] in
theorem link_perm (flushTime : ι → Nat) (backend : ι) (time : Nat)
    (active : List ι) :
    (link flushTime backend time active).Perm (backend :: active) := by
  unfold link
  split
  next => rfl
  next =>
    split
    next hlast =>
      rw [List.getLast?_eq_none_iff] at hlast
      rw [hlast]
    next last _ =>
      split
      next => exact List.perm_append_singleton backend active
      next => exact linkByTime_perm flushTime backend time active

theorem mem_activateBackend {m : FileManager ι} {flushTime : ι → Nat}
    {backend other : ι} {time : Nat} (htime : time ≠ 0) :
    other ∈ (m.activateBackend flushTime backend time).active ↔
      other = backend ∨ other ∈ m.active := by
  rw [activateBackend, if_neg htime]
  rw [(link_perm flushTime backend time _).mem_iff, List.mem_cons]
  by_cases hother : other = backend
  · simp [hother]
  · simp [hother, List.mem_erase_of_ne hother]

theorem activateBackend_nodup {m : FileManager ι} (flushTime : ι → Nat)
    (backend : ι) (time : Nat) (h : m.active.Nodup) :
    (m.activateBackend flushTime backend time).active.Nodup := by
  unfold activateBackend
  split
  next => exact h
  next =>
    rw [(link_perm flushTime backend time _).nodup_iff, List.nodup_cons]
    exact ⟨h.not_mem_erase, h.erase backend⟩

@[simp] theorem activateBackend_backends (m : FileManager ι)
    (flushTime : ι → Nat) (backend : ι) (time : Nat) :
    (m.activateBackend flushTime backend time).backends = m.backends := by
  unfold activateBackend
  split <;> rfl

@[simp] theorem notify_backends (m : FileManager ι) (flushTime : ι → Nat)
    (registered : Bool) (backend : ι) (time : Nat) :
    (m.notify flushTime registered backend time).backends = m.backends := by
  unfold notify
  dsimp only
  split
  next => rfl
  next =>
    split
    next => exact activateBackend_backends m flushTime backend time
    next => exact activateBackend_backends m flushTime backend time

@[simp] theorem notify_stopRequested (m : FileManager ι)
    (flushTime : ι → Nat) (registered : Bool) (backend : ι) (time : Nat) :
    (m.notify flushTime registered backend time).stopRequested =
      m.stopRequested := by
  unfold notify activateBackend
  dsimp only
  split_ifs <;> rfl

@[simp] theorem notify_active (m : FileManager ι) (flushTime : ι → Nat)
    (backend : ι) (time : Nat) :
    (m.notify flushTime true backend time).active =
      (m.activateBackend flushTime backend time).active := by
  unfold notify
  dsimp only
  rw [if_neg (by simp)]
  split <;> rfl

omit [DecidableEq ι] in
/-- A backend with a flush time survives the removal of stale heads. -/
theorem mem_dropStale {m : FileManager ι} {flushTime : ι → Nat} {b : ι}
    (hmem : b ∈ m.active) (htime : flushTime b ≠ 0) :
    b ∈ (m.dropStale flushTime).active := by
  unfold dropStale
  generalize m.active = active at hmem ⊢
  induction active with
  | nil => simp at hmem
  | cons head rest ih =>
      dsimp only at ih ⊢
      rw [List.dropWhile_cons]
      split
      next hstale =>
        apply ih
        rcases List.mem_cons.mp hmem with rfl | hrest
        · simp [htime] at hstale
        · exact hrest
      next => exact hmem

omit [DecidableEq ι] in
theorem decideRound_frame (m : FileManager ι) (flushTime : ι → Nat)
    (now : Nat) :
    (m.decideRound flushTime now).2.active =
        (m.dropStale flushTime).active ∧
      (m.decideRound flushTime now).2.backends = m.backends ∧
      (m.decideRound flushTime now).2.stopRequested = m.stopRequested := by
  unfold decideRound
  dsimp only
  split
  next => exact ⟨rfl, rfl, rfl⟩
  next => split_ifs <;> exact ⟨rfl, rfl, rfl⟩

omit [DecidableEq ι] in
/-- The manager selects a backend at the head that has a flush time. -/
theorem decideRound_select {m : FileManager ι} {flushTime : ι → Nat}
    {now : Nat} {b : ι} {early : Bool}
    (h : (m.decideRound flushTime now).1 = .select b early) :
    flushTime b ≠ 0 ∧ (m.dropStale flushTime).active.head? = some b := by
  unfold decideRound at h
  dsimp only at h
  split at h
  next => simp at h
  next head rest hactive =>
    have hhead : head = b := by
      split_ifs at h
      · simp only [Decision.select.injEq] at h
        exact h.1
      · simp only [Decision.select.injEq] at h
        exact h.1
    subst head
    refine ⟨?_, by rw [hactive]; rfl⟩
    have hne : m.active.dropWhile (fun b => decide (flushTime b = 0)) ≠ [] := by
      intro hnil
      simp [dropStale, hnil] at hactive
    have hnot := List.head_dropWhile_not _ hne
    simp only [dropStale] at hactive
    simp only [hactive] at hnot
    exact of_decide_eq_false hnot

omit [DecidableEq ι] in
/-- The manager waits without a limit for an empty list, and else until the
time of the head. -/
theorem decideRound_waits (m : FileManager ι) (flushTime : ι → Nat)
    (now : Nat) :
    ((m.decideRound flushTime now).1 = .wait →
        (m.dropStale flushTime).active = []) ∧
      ∀ time, (m.decideRound flushTime now).1 = .waitUntil time →
        ∃ head rest, (m.dropStale flushTime).active = head :: rest ∧
          time = flushTime head ∧ time ≠ RIGHT_NOW := by
  unfold decideRound
  dsimp only
  split
  next hactive => exact ⟨fun _ => hactive, fun time h => by simp at h⟩
  next head rest hactive =>
    split_ifs with hlater
    · refine ⟨by simp, ?_⟩
      intro time h
      simp only [Decision.waitUntil.injEq] at h
      exact ⟨head, rest, hactive, h.symm, h ▸ hlater.1⟩
    · simp
    · simp

/-! ## Where a backend is linked -/

/-- The scan of `ActivateBackend` stops at this item. -/
def stopsScan (flushTime : ι → Nat) (time : Nat) (item : ι) : Bool :=
  decide (flushTime item ≠ RIGHT_NOW ∧ flushTime item > time)

omit [DecidableEq ι] in
theorem linkByTime_split (flushTime : ι → Nat) (backend : ι) (time : Nat)
    (active : List ι) :
    ∃ before after, active = before ++ after ∧
      linkByTime flushTime backend time active =
        before ++ backend :: after ∧
      (∀ x ∈ before, stopsScan flushTime time x = false) ∧
      ∀ stop, after.head? = some stop →
        active.find? (stopsScan flushTime time) = some stop := by
  induction active with
  | nil => exact ⟨[], [], rfl, rfl, by simp, by simp⟩
  | cons item rest ih =>
      simp only [linkByTime]
      split
      next hstop =>
        refine ⟨[], item :: rest, rfl, rfl, by simp, ?_⟩
        intro stop hhead
        simp only [List.head?_cons, Option.some.injEq] at hhead
        subst stop
        rw [List.find?_cons_of_pos]
        simpa [stopsScan] using hstop
      next hpass =>
        rcases ih with ⟨before, after, hsplit, hlink, hbefore, hafter⟩
        have hitem : stopsScan flushTime time item = false := by
          rw [stopsScan, decide_eq_false_iff_not]
          exact hpass
        refine ⟨item :: before, after, by rw [hsplit]; rfl,
          by rw [hlink]; rfl, ?_, ?_⟩
        · intro x hx
          rcases List.mem_cons.mp hx with rfl | hx
          · exact hitem
          · exact hbefore x hx
        · intro stop hhead
          rw [List.find?_cons_of_neg (by simp [hitem])]
          exact hafter stop hhead

/-- The three ways in which a backend is linked. -/
inductive LinkedBetween (flushTime : ι → Nat) (time : Nat)
    (before after : List ι) : Prop
  | front (htime : time = RIGHT_NOW) (hbefore : before = [])
  | back (last : ι) (htime : time ≠ RIGHT_NOW) (hafter : after = [])
      (hlast : before.getLast? = some last)
      (hearlier : flushTime last ≠ RIGHT_NOW ∧ flushTime last ≤ time)
  | scanned (htime : time ≠ RIGHT_NOW)
      (hlast : ∀ last, (before ++ after).getLast? = some last →
        ¬ (flushTime last ≠ RIGHT_NOW ∧ flushTime last ≤ time))
      (hbefore : ∀ x ∈ before, stopsScan flushTime time x = false)
      (hafter : ∀ stop, after.head? = some stop →
        (before ++ after).find? (stopsScan flushTime time) = some stop)

omit [DecidableEq ι] in
theorem link_split (flushTime : ι → Nat) (backend : ι) (time : Nat)
    (active : List ι) :
    ∃ before after, active = before ++ after ∧
      link flushTime backend time active = before ++ backend :: after ∧
      LinkedBetween flushTime time before after := by
  unfold link
  split
  next htime => exact ⟨[], active, rfl, rfl, .front htime rfl⟩
  next htime =>
    split
    next hlast =>
      rw [List.getLast?_eq_none_iff] at hlast
      subst active
      exact ⟨[], [], rfl, rfl, .scanned htime (by simp) (by simp) (by simp)⟩
    next last hlast =>
      split
      next hearlier =>
        exact ⟨active, [], by simp, rfl, .back last htime rfl hlast hearlier⟩
      next hlater =>
        rcases linkByTime_split flushTime backend time active with
          ⟨before, after, hsplit, hlink, hbefore, hafter⟩
        refine ⟨before, after, hsplit, hlink,
          .scanned htime ?_ hbefore ?_⟩
        · intro last' hlast'
          rw [← hsplit, hlast] at hlast'
          simp only [Option.some.injEq] at hlast'
          subst last'
          exact hlater
        · rw [← hsplit]
          exact hafter

end FileManager

end Logme
