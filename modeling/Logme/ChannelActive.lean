import Mathlib.Data.Fintype.Basic
import Logme.Channel
import Logme.Library.StepSystem
import Logme.Library.Threads

/-!
# The active flag of a shared channel

`UpdateActive` loads `Linked`, `Enabled` and `BackendCount` and stores `Active`.
The operations on links and backends call it inside `DataLock`, `SetEnabled`
outside.  The system below interleaves the atomic steps of any number of threads
that operate on one channel.
-/

namespace Logme

open StepSystem Threads

inductive ChannelCall where
  | setEnabled (enable : Bool)
  | addBackend (backend : Nat)
  | removeBackend (backend : Nat)
  | removeBackends
  | addLinkID (target : Name)
  | addLinkPtr (target : Option Nat)
  | removeLink
  deriving DecidableEq

/-- The atomic operation that a thread performs next; `locked` tells whether
`UpdateActive` runs inside the lock. -/
inductive ChannelPc where
  | idle
  | storeEnabled (enable : Bool)
  | lock (call : ChannelCall)
  | apply (call : ChannelCall)
  | storeLinked (linked : Bool)
  | storeBackendCount (count : Nat)
  | loadLinked (locked : Bool)
  | loadEnabled (locked linked : Bool)
  | loadBackendCount (locked linked enabled : Bool)
  | storeActive (locked linked enabled : Bool) (count : Nat)
  | unlock
  deriving DecidableEq

structure SharedChannel (τ : Type) where
  shutdownCalled : Bool
  link : Option Name
  linkTo : Option Nat
  backends : List Nat
  enabled : Bool
  linked : Bool
  backendCount : Nat
  active : Bool
  dataLock : Option τ
  pc : τ → ChannelPc

inductive ChannelStep (τ : Type) where
  | shutdown
  | call (t : τ) (call : ChannelCall)
  | step (t : τ)

namespace ChannelPc

def inLock : ChannelPc → Bool
  | apply _ | storeLinked _ | storeBackendCount _ | unlock => true
  | loadLinked locked | loadEnabled locked _ | loadBackendCount locked _ _
  | storeActive locked _ _ _ => locked
  | _ => false

/-- The thread is inside `UpdateActive`. -/
def updating : ChannelPc → Bool
  | loadLinked _ | loadEnabled .. | loadBackendCount .. | storeActive .. => true
  | _ => false

def storesLinked : ChannelPc → Bool
  | storeLinked _ => true
  | _ => false

def storesBackendCount : ChannelPc → Bool
  | storeBackendCount _ => true
  | _ => false

/-- `UpdateActive` has loaded the field already. -/
def readLinked : ChannelPc → Bool
  | loadEnabled .. | loadBackendCount .. | storeActive .. => true
  | _ => false

def readEnabled : ChannelPc → Bool
  | loadBackendCount .. | storeActive .. => true
  | _ => false

def readBackendCount : ChannelPc → Bool
  | storeActive .. => true
  | _ => false

end ChannelPc

namespace SharedChannel

variable {τ : Type} [DecidableEq τ]

/-- The constructor. -/
def initial : SharedChannel τ where
  shutdownCalled := false
  link := none
  linkTo := none
  backends := []
  enabled := true
  linked := false
  backendCount := 0
  active := false
  dataLock := none
  pc := fun _ => .idle

def setPc (s : SharedChannel τ) (t : τ) (pc : ChannelPc) : SharedChannel τ :=
  { s with pc := Function.update s.pc t pc }

def hasLink (s : SharedChannel τ) : Bool := s.link.isSome || s.linkTo.isSome

/-- The operations on the link and the backends, inside the lock; adding a
backend twice and removing an unknown one have no effect. -/
def applyCall (s : SharedChannel τ) (t : τ) : ChannelCall → SharedChannel τ
  | .setEnabled _ => s.setPc t .unlock
  | .addBackend backend =>
      if backend ∈ s.backends then s.setPc t .unlock
      else
        ({ s with backends := s.backends ++ [backend] }).setPc t
          (.storeBackendCount (s.backends ++ [backend]).length)
  | .removeBackend backend =>
      if backend ∈ s.backends then
        ({ s with backends := s.backends.erase backend }).setPc t
          (.storeBackendCount (s.backends.erase backend).length)
      else s.setPc t .unlock
  | .removeBackends =>
      ({ s with backends := [] }).setPc t (.storeBackendCount 0)
  | .addLinkID target =>
      ({ s with link := some target }).setPc t (.storeLinked true)
  | .addLinkPtr target =>
      ({ s with linkTo := target }).setPc t (.storeLinked true)
  | .removeLink =>
      ({ s with link := none, linkTo := none }).setPc t (.storeLinked false)

def stepThread (s : SharedChannel τ) (t : τ) : Option (SharedChannel τ) :=
  match s.pc t with
  | .idle => none
  | .storeEnabled enable =>
      some (({ s with enabled := enable }).setPc t (.loadLinked false))
  | .lock call =>
      match s.dataLock with
      | none => some (({ s with dataLock := some t }).setPc t (.apply call))
      | some _ => none
  | .apply call => some (s.applyCall t call)
  | .storeLinked linked =>
      some (({ s with linked := linked }).setPc t (.loadLinked true))
  | .storeBackendCount count =>
      some (({ s with backendCount := count }).setPc t (.loadLinked true))
  | .loadLinked locked => some (s.setPc t (.loadEnabled locked s.linked))
  | .loadEnabled locked linked =>
      some (s.setPc t (.loadBackendCount locked linked s.enabled))
  | .loadBackendCount locked linked enabled =>
      some (s.setPc t (.storeActive locked linked enabled s.backendCount))
  | .storeActive locked linked enabled count =>
      some (({ s with active := isActive linked enabled count }).setPc t
        (if locked then .unlock else .idle))
  | .unlock => some (({ s with dataLock := none }).setPc t .idle)

/-- Where a call starts; after `Shutdown` some calls return at once. -/
def begin (shutdownCalled : Bool) : ChannelCall → ChannelPc
  | .setEnabled enable => .storeEnabled enable
  | .addBackend backend =>
      if shutdownCalled then .idle else .lock (.addBackend backend)
  | .addLinkPtr target =>
      if shutdownCalled then .idle else .lock (.addLinkPtr target)
  | call => .lock call

def step (s : SharedChannel τ) : ChannelStep τ → Option (SharedChannel τ)
  | .shutdown => some { s with shutdownCalled := true }
  | .call t call =>
      if s.pc t = .idle then some (s.setPc t (begin s.shutdownCalled call))
      else none
  | .step t => s.stepThread t

/-- A step that stores a field stores the value that it has, or no thread inside
`UpdateActive` has loaded the field; and `AddLink` is not given a null pointer. -/
def StoresUnread (s : SharedChannel τ) : ChannelPc → Prop
  | .apply call => call ≠ .addLinkPtr none
  | .storeEnabled enable =>
      enable ≠ s.enabled → ∀ u, (s.pc u).readEnabled = false
  | .storeLinked linked =>
      linked ≠ s.linked → ∀ u, (s.pc u).readLinked = false
  | .storeBackendCount count =>
      count ≠ s.backendCount → ∀ u, (s.pc u).readBackendCount = false
  | _ => True

def NoStaleRead (s : SharedChannel τ) : ChannelStep τ → Prop
  | .step t => s.StoresUnread (s.pc t)
  | _ => True

instance [Fintype τ] (s : SharedChannel τ) (p : ChannelPc) :
    Decidable (s.StoresUnread p) := by
  unfold StoresUnread
  split <;> infer_instance

instance [Fintype τ] (s : SharedChannel τ) (a : ChannelStep τ) :
    Decidable (s.NoStaleRead a) := by
  unfold NoStaleRead
  split <;> infer_instance

/-! ## The invariant -/

/-- The loaded values are still those of the channel. -/
def Fresh (s : SharedChannel τ) : ChannelPc → Prop
  | .loadEnabled _ linked => linked = s.linked
  | .loadBackendCount _ linked enabled => linked = s.linked ∧ enabled = s.enabled
  | .storeActive _ linked enabled count =>
      linked = s.linked ∧ enabled = s.enabled ∧ count = s.backendCount
  | .storeLinked linked => linked = s.hasLink
  | .storeBackendCount count => count = s.backends.length
  | _ => True

/-- A field that lags behind is about to be stored, and a flag that lags behind
is about to be updated. -/
structure Inv (s : SharedChannel τ) : Prop where
  locked : Locked s.dataLock ChannelPc.inLock s.pc
  fresh : ∀ t, s.Fresh (s.pc t)
  linkStored : s.linked = s.hasLink ∨ ∃ t, (s.pc t).storesLinked = true
  countStored : s.backendCount = s.backends.length ∨
    ∃ t, (s.pc t).storesBackendCount = true
  settled : s.active = isActive s.linked s.enabled s.backendCount ∨
    ∃ t, (s.pc t).updating = true

omit [DecidableEq τ] in
theorem initial_inv : (initial : SharedChannel τ).Inv where
  locked := locked_none fun _ => rfl
  fresh _ := trivial
  linkStored := .inl rfl
  countStored := .inl rfl
  settled := .inl rfl

section Steps

variable {s s' : SharedChannel τ} {t : τ} {next : ChannelPc}

/-- A thread moves on without an effect on the channel. -/
theorem Inv.move (h : s.Inv) {dataLock : Option τ}
    (hlocked : Locked dataLock ChannelPc.inLock (Function.update s.pc t next))
    (hfresh : s.Fresh next) (hlinked : (s.pc t).storesLinked = false)
    (hcount : (s.pc t).storesBackendCount = false)
    (hupdating : (s.pc t).updating = true → next.updating = true) :
    Inv { (s.setPc t next) with dataLock := dataLock } where
  locked := hlocked
  fresh := forall_update (P := fun _ (p : ChannelPc) => s.Fresh p) hfresh
    fun u _ => h.fresh u
  linkStored := or_exists_update h.linkStored hlinked
  countStored := or_exists_update h.countStored hcount
  settled := by
    cases ht : (s.pc t).updating with
    | true => exact .inr (exists_update_self (hupdating ht))
    | false => exact or_exists_update h.settled ht

theorem lock_inv {call : ChannelCall} (h : s.Inv) (hpc : s.pc t = .lock call)
    (hfree : s.dataLock = none) :
    Inv (({ s with dataLock := some t }).setPc t (.apply call)) := by
  refine h.move ((hfree ▸ h.locked).acquire rfl) trivial ?_ ?_ ?_ <;>
    simp [hpc, ChannelPc.storesLinked, ChannelPc.storesBackendCount, ChannelPc.updating]

theorem unlock_inv (h : s.Inv) (hpc : s.pc t = .unlock) :
    Inv (({ s with dataLock := none }).setPc t .idle) := by
  refine h.move (h.locked.release ?_ rfl) trivial ?_ ?_ ?_ <;>
    simp [hpc, ChannelPc.inLock, ChannelPc.storesLinked, ChannelPc.storesBackendCount,
      ChannelPc.updating]

omit [DecidableEq τ] in
/-- Nobody else inside the lock is about to store. -/
theorem Inv.others (h : s.Inv) (hlock : (s.pc t).inLock = true) {u : τ} (hu : u ≠ t) :
    (s.pc u).storesLinked = false ∧ (s.pc u).storesBackendCount = false := by
  have hout := h.locked.outside hlock hu
  cases hpc : s.pc u <;> rw [hpc] at hout <;> first | exact ⟨rfl, rfl⟩ | contradiction

theorem loadLinked_inv {locked : Bool} (h : s.Inv) (hpc : s.pc t = .loadLinked locked) :
    (s.setPc t (.loadEnabled locked s.linked)).Inv := by
  refine h.move (h.locked.keep ?_) rfl ?_ ?_ (fun _ => rfl) <;> rw [hpc] <;> rfl

theorem loadEnabled_inv {locked linked : Bool} (h : s.Inv)
    (hpc : s.pc t = .loadEnabled locked linked) :
    (s.setPc t (.loadBackendCount locked linked s.enabled)).Inv := by
  have hfresh := h.fresh t
  rw [hpc] at hfresh
  refine h.move (h.locked.keep ?_) ⟨hfresh, rfl⟩ ?_ ?_ (fun _ => rfl) <;> rw [hpc] <;> rfl

theorem loadBackendCount_inv {locked linked enabled : Bool} (h : s.Inv)
    (hpc : s.pc t = .loadBackendCount locked linked enabled) :
    (s.setPc t (.storeActive locked linked enabled s.backendCount)).Inv := by
  have hfresh := h.fresh t
  rw [hpc] at hfresh
  refine h.move (h.locked.keep ?_) ⟨hfresh.1, hfresh.2, rfl⟩ ?_ ?_ (fun _ => rfl) <;>
    rw [hpc] <;> rfl

/-- The stored flag is right, since nothing that it depends on has changed. -/
theorem storeActive_inv {locked linked enabled : Bool} {count : Nat} (h : s.Inv)
    (hpc : s.pc t = .storeActive locked linked enabled count) :
    Inv (({ s with active := isActive linked enabled count }).setPc t
      (if locked then .unlock else .idle)) where
  locked := by
    refine h.locked.keep ?_
    rw [hpc]
    cases locked <;> rfl
  fresh := forall_update (P := fun _ (p : ChannelPc) => s.Fresh p)
    (by cases locked <;> trivial) fun u _ => h.fresh u
  linkStored := or_exists_update h.linkStored (by rw [hpc]; rfl)
  countStored := or_exists_update h.countStored (by rw [hpc]; rfl)
  settled := by
    have hfresh := h.fresh t
    rw [hpc] at hfresh
    obtain ⟨rfl, rfl, rfl⟩ := hfresh
    exact .inl rfl

theorem storeEnabled_inv {enable : Bool} (h : s.Inv) (hpc : s.pc t = .storeEnabled enable)
    (hread : enable ≠ s.enabled → ∀ u, (s.pc u).readEnabled = false) :
    Inv (({ s with enabled := enable }).setPc t (.loadLinked false)) where
  locked := h.locked.keep (by rw [hpc]; rfl)
  fresh := by
    refine forall_update (P := fun _ (p : ChannelPc) =>
      Fresh ({ s with enabled := enable } : SharedChannel τ) p) trivial fun u _ => ?_
    have hfresh := h.fresh u
    by_cases hsame : enable = s.enabled
    · rw [hsame]
      exact hfresh
    · have hnot := hread hsame u
      cases hpcu : s.pc u <;> rw [hpcu] at hfresh hnot <;>
        first | exact hfresh | contradiction
  linkStored := or_exists_update h.linkStored (by rw [hpc]; rfl)
  countStored := or_exists_update h.countStored (by rw [hpc]; rfl)
  settled := .inr (exists_update_self rfl)

theorem storeLinked_inv {linked : Bool} (h : s.Inv) (hpc : s.pc t = .storeLinked linked)
    (hread : linked ≠ s.linked → ∀ u, (s.pc u).readLinked = false) :
    Inv (({ s with linked := linked }).setPc t (.loadLinked true)) where
  locked := h.locked.keep (by rw [hpc]; rfl)
  fresh := by
    refine forall_update (P := fun _ (p : ChannelPc) =>
      Fresh ({ s with linked := linked } : SharedChannel τ) p) trivial fun u _ => ?_
    have hfresh := h.fresh u
    by_cases hsame : linked = s.linked
    · rw [hsame]
      exact hfresh
    · have hnot := hread hsame u
      cases hpcu : s.pc u <;> rw [hpcu] at hfresh hnot <;>
        first | exact hfresh | contradiction
  linkStored := by
    have hfresh := h.fresh t
    rw [hpc] at hfresh
    exact .inl hfresh
  countStored := or_exists_update h.countStored (by rw [hpc]; rfl)
  settled := .inr (exists_update_self rfl)

theorem storeBackendCount_inv {count : Nat} (h : s.Inv)
    (hpc : s.pc t = .storeBackendCount count)
    (hread : count ≠ s.backendCount → ∀ u, (s.pc u).readBackendCount = false) :
    Inv (({ s with backendCount := count }).setPc t (.loadLinked true)) where
  locked := h.locked.keep (by rw [hpc]; rfl)
  fresh := by
    refine forall_update (P := fun _ (p : ChannelPc) =>
      Fresh ({ s with backendCount := count } : SharedChannel τ) p) trivial fun u _ => ?_
    have hfresh := h.fresh u
    by_cases hsame : count = s.backendCount
    · rw [hsame]
      exact hfresh
    · have hnot := hread hsame u
      cases hpcu : s.pc u <;> rw [hpcu] at hfresh hnot <;>
        first | exact hfresh | contradiction
  linkStored := or_exists_update h.linkStored (by rw [hpc]; rfl)
  countStored := by
    have hfresh := h.fresh t
    rw [hpc] at hfresh
    exact .inl hfresh
  settled := .inr (exists_update_self rfl)

/-- The link changes, and the thread is to store whether there is one. -/
theorem changeLink_inv {link : Option Name} {linkTo : Option Nat} {linked : Bool}
    {call : ChannelCall} (h : s.Inv) (hpc : s.pc t = .apply call)
    (hlinked : linked = (link.isSome || linkTo.isSome)) :
    Inv (({ s with link := link, linkTo := linkTo }).setPc t (.storeLinked linked)) where
  locked := h.locked.keep (by rw [hpc]; rfl)
  fresh := by
    refine forall_update (P := fun _ (p : ChannelPc) =>
      Fresh ({ s with link := link, linkTo := linkTo } : SharedChannel τ) p) hlinked
        fun u hu => ?_
    have hfresh := h.fresh u
    have hnot := (h.others (t := t) (by rw [hpc]; rfl) hu).1
    cases hpcu : s.pc u <;> rw [hpcu] at hfresh hnot <;>
      first | exact hfresh | contradiction
  linkStored := .inr (exists_update_self rfl)
  countStored := or_exists_update h.countStored (by rw [hpc]; rfl)
  settled := or_exists_update h.settled (by rw [hpc]; rfl)

/-- The backends change, and the thread is to store their number. -/
theorem changeBackends_inv {backends : List Nat} {count : Nat} {call : ChannelCall}
    (h : s.Inv) (hpc : s.pc t = .apply call) (hcount : count = backends.length) :
    Inv (({ s with backends := backends }).setPc t (.storeBackendCount count)) where
  locked := h.locked.keep (by rw [hpc]; rfl)
  fresh := by
    refine forall_update (P := fun _ (p : ChannelPc) =>
      Fresh ({ s with backends := backends } : SharedChannel τ) p) hcount
        fun u hu => ?_
    have hfresh := h.fresh u
    have hnot := (h.others (t := t) (by rw [hpc]; rfl) hu).2
    cases hpcu : s.pc u <;> rw [hpcu] at hfresh hnot <;>
      first | exact hfresh | contradiction
  linkStored := or_exists_update h.linkStored (by rw [hpc]; rfl)
  countStored := .inr (exists_update_self rfl)
  settled := or_exists_update h.settled (by rw [hpc]; rfl)

theorem apply_inv {call : ChannelCall} (h : s.Inv) (hpc : s.pc t = .apply call)
    (hpointer : call ≠ .addLinkPtr none) : (s.applyCall t call).Inv := by
  have hunlock : (s.setPc t .unlock).Inv := by
    refine h.move (h.locked.keep ?_) trivial ?_ ?_ ?_ <;>
      simp [hpc, ChannelPc.inLock, ChannelPc.storesLinked,
        ChannelPc.storesBackendCount, ChannelPc.updating]
  unfold applyCall
  cases call with
  | setEnabled enable => exact hunlock
  | addBackend backend =>
      dsimp only
      split
      next => exact hunlock
      next => exact changeBackends_inv h hpc rfl
  | removeBackend backend =>
      dsimp only
      split
      next => exact changeBackends_inv h hpc rfl
      next => exact hunlock
  | removeBackends => exact changeBackends_inv h hpc rfl
  | addLinkID target => exact changeLink_inv h hpc rfl
  | addLinkPtr target =>
      cases target with
      | none => contradiction
      | some c => exact changeLink_inv h hpc (by simp)
  | removeLink => exact changeLink_inv h hpc rfl

theorem stepThread_inv (h : s.Inv) (hok : NoStaleRead s (.step t))
    (hstep : s.stepThread t = some s') : s'.Inv := by
  unfold stepThread at hstep
  change s.StoresUnread (s.pc t) at hok
  cases hpc : s.pc t with
  | idle =>
      rw [hpc] at hstep
      contradiction
  | storeEnabled enable =>
      rw [hpc] at hstep hok
      cases hstep
      exact storeEnabled_inv h hpc hok
  | lock call =>
      rw [hpc] at hstep
      dsimp only at hstep
      split at hstep
      next hfree =>
        cases hstep
        exact lock_inv h hpc hfree
      next => contradiction
  | apply call =>
      rw [hpc] at hstep hok
      cases hstep
      exact apply_inv h hpc hok
  | storeLinked linked =>
      rw [hpc] at hstep hok
      cases hstep
      exact storeLinked_inv h hpc hok
  | storeBackendCount count =>
      rw [hpc] at hstep hok
      cases hstep
      exact storeBackendCount_inv h hpc hok
  | loadLinked locked =>
      rw [hpc] at hstep
      cases hstep
      exact loadLinked_inv h hpc
  | loadEnabled locked linked =>
      rw [hpc] at hstep
      cases hstep
      exact loadEnabled_inv h hpc
  | loadBackendCount locked linked enabled =>
      rw [hpc] at hstep
      cases hstep
      exact loadBackendCount_inv h hpc
  | storeActive locked linked enabled count =>
      rw [hpc] at hstep
      cases hstep
      exact storeActive_inv h hpc
  | unlock =>
      rw [hpc] at hstep
      cases hstep
      exact unlock_inv h hpc

theorem step_inv {a : ChannelStep τ} (h : s.Inv) (hok : NoStaleRead s a)
    (hstep : step s a = some s') : s'.Inv := by
  cases a with
  | shutdown =>
      cases hstep
      exact ⟨h.locked, h.fresh, h.linkStored, h.countStored, h.settled⟩
  | call t call =>
      simp only [step] at hstep
      split at hstep
      next hidle =>
        cases hstep
        have hbegin : (begin s.shutdownCalled call).inLock = false ∧
            s.Fresh (begin s.shutdownCalled call) := by
          cases call <;> cases s.shutdownCalled <;> exact ⟨rfl, trivial⟩
        refine h.move (h.locked.keep ?_) hbegin.2 ?_ ?_ ?_
        · rw [hidle, hbegin.1]
          rfl
        all_goals simp [hidle, ChannelPc.storesLinked, ChannelPc.storesBackendCount,
          ChannelPc.updating]
      next => contradiction
  | step t => exact stepThread_inv h hok hstep

/-- Once all calls have returned the flag is right. -/
theorem active_of_quiescent (hrun : Run step NoStaleRead initial s)
    (hquiet : ∀ t, s.pc t = .idle) :
    s.active = (s.hasLink || (s.enabled && decide (s.backends ≠ []))) := by
  have hinv : s.Inv := hrun.invariant
    (fun _ _ _ hi hok hlast => step_inv hi hok hlast) initial_inv
  have hnobody : ∀ inside : ChannelPc → Bool, inside .idle = false →
      ¬ ∃ t, inside (s.pc t) = true := by
    rintro inside hidle ⟨t, ht⟩
    rw [hquiet t, hidle] at ht
    contradiction
  have hlink := hinv.linkStored.resolve_right (hnobody _ rfl)
  have hcount := hinv.countStored.resolve_right (hnobody _ rfl)
  have hactive := hinv.settled.resolve_right (hnobody _ rfl)
  have hpositive : decide (0 < s.backends.length) = decide (s.backends ≠ []) := by
    rw [decide_eq_decide]
    exact List.length_pos_iff
  rw [hactive, hlink, hcount, isActive, hpositive]

end Steps

/-! ## Runs of two threads -/

/-- A backend is added and then the channel is disabled. -/
def addThenDisable : List (ChannelStep Bool) :=
  .call true (.addBackend 7) :: List.replicate 8 (.step true) ++
    .call false (.setEnabled false) :: List.replicate 5 (.step false)

def quiescent (s : SharedChannel Bool) : Bool := s.pc false = .idle && s.pc true = .idle

theorem quiescent_iff {s : SharedChannel Bool} :
    s.quiescent = true ↔ ∀ t, s.pc t = .idle := by
  simp [quiescent]

theorem active_of_quiescent_disabled :
    ∃ s : SharedChannel Bool, Run step NoStaleRead initial s ∧ (∀ t, s.pc t = .idle) ∧
      s.active = (s.hasLink || (s.enabled && decide (s.backends ≠ []))) := by
  obtain ⟨s, hrun, hcheck⟩ := exists_run_of_exec step NoStaleRead
    (initial : SharedChannel Bool) addThenDisable quiescent (by decide +kernel)
  have hquiet := quiescent_iff.mp hcheck
  exact ⟨s, hrun, hquiet, active_of_quiescent hrun hquiet⟩

/-- The channel is enabled by one thread, which has loaded that there is no
backend when another thread adds one. -/
def enableWhileAdding : List (ChannelStep Bool) :=
  .call false (.setEnabled true) :: List.replicate 4 (.step false) ++
    .call true (.addBackend 7) :: List.replicate 8 (.step true) ++ [.step false]

/-- An enabled channel with a backend stays silent. -/
theorem enabled_channel_inactive :
    ∃ s : SharedChannel Bool, Reachable step initial s ∧ (∀ t, s.pc t = .idle) ∧
      s.active ≠ (s.hasLink || (s.enabled && decide (s.backends ≠ []))) := by
  obtain ⟨s, hreachable, hcheck⟩ := exists_reachable_of_exec step
    (initial : SharedChannel Bool) enableWhileAdding
    (fun s => s.quiescent &&
      s.active != (s.hasLink || (s.enabled && decide (s.backends ≠ []))))
    (by decide +kernel)
  rw [Bool.and_eq_true, bne_iff_ne] at hcheck
  exact ⟨s, hreachable, quiescent_iff.mp hcheck.1, hcheck.2⟩

end SharedChannel
end Logme
