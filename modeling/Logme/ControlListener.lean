import Mathlib.Algebra.Order.Group.Multiset
import Logme.Library.StepSystem

/-!
# The life of the control server

`StartControlServer` and `StopControlServer` are called one after another.  The
listener that they start and stop accepts connections, and gives each one to a
handler of its own.  A step of the system is a section under `DataLock`, a call
on a socket, or the end of a thread that is joined.

What a handler does with its connection, the certificate and the discovery
endpoint are not part of the system: a handler may end at any time.
-/

namespace Logme

open StepSystem

/-- An entry of `ControlThreads`, with the number of its handler. -/
structure ControlThread where
  socket : Nat
  stopped : Bool
  thread : Nat
  deriving DecidableEq

inductive HandlerPc where
  | notStarted
  | serving (socket : Nat)
  | ended
  deriving DecidableEq

/-- Where `ControlListener` is; `joiningLast` is behind its loop. -/
inductive ListenerPc where
  | ended
  | accepting
  | accepted (socket : Nat)
  | admitted (socket : Nat)
  | sweeping
  | joining (threads : List Nat)
  | leaving
  | joiningLast (threads : List Nat)
  deriving DecidableEq

/-- Where the one is that starts and stops the server; `restart` when
`StopControlServer` was called by `StartControlServer`. -/
inductive ControlCallerPc where
  | idle
  | joining (restart thread : Bool) (socketToClose : Option Nat)
  | closing (restart : Bool) (socketToClose : Option Nat)
  | starting
  deriving DecidableEq

/-- `misused` when a descriptor is closed that is not open, and `terminated`
when a thread is destroyed that could have been joined. -/
structure ControlListener where
  controlSocket : Option Nat
  listenSocket : Nat
  listenerThread : Bool
  controlThreads : List ControlThread
  listener : ListenerPc
  caller : ControlCallerPc
  spawned : Nat
  handlers : Nat → HandlerPc
  opened : List Nat
  misused : Bool
  terminated : Bool

/-- How `StartControlServer` ends. -/
inductive StartOutcome where
  /-- The server is not enabled, or there is no certificate or no socket. -/
  | returns
  /-- `setsockopt` fails. -/
  | notReused (socket : Nat)
  /-- `bind` or `listen` fails. -/
  | notBound (socket : Nat)
  | listens (socket : Nat)
  deriving DecidableEq

inductive ControlEvent where
  | stop (restart : Bool)
  | caller
  | start (outcome : StartOutcome)
  | accept (socket : Option Nat)
  | listener
  | handler (thread : Nat)
  deriving DecidableEq

namespace ControlCallerPc

def held : ControlCallerPc → List Nat
  | joining _ _ socket | closing _ socket => socket.toList
  | _ => []

end ControlCallerPc

namespace ListenerPc

def held : ListenerPc → List Nat
  | accepted socket | admitted socket => [socket]
  | _ => []

end ListenerPc

namespace ControlListener

def initial : ControlListener where
  controlSocket := none
  listenSocket := 0
  listenerThread := false
  controlThreads := []
  listener := .ended
  caller := .idle
  spawned := 0
  handlers := fun _ => .notStarted
  opened := []
  misused := false
  terminated := false

def closeSocket (s : ControlListener) (socket : Nat) : ControlListener :=
  { s with
    opened := s.opened.erase socket
    misused := s.misused || !s.opened.contains socket }

def closeSockets (s : ControlListener) : List Nat → ControlListener
  | [] => s
  | socket :: rest => (s.closeSocket socket).closeSockets rest

/-- The section of `StopControlServer` under the lock. -/
def stop (s : ControlListener) (restart : Bool) : ControlListener :=
  { s with
    caller := .joining restart s.listenerThread s.controlSocket
    controlSocket := none
    listenerThread := false }

/-- The rest of `StopControlServer`. -/
def stepCaller (s : ControlListener) : Option ControlListener :=
  match s.caller with
  | .idle | .starting => none
  | .joining restart thread socket =>
      if thread ∧ s.listener ≠ .ended then none
      else some { s with caller := .closing restart socket }
  | .closing restart socket =>
      some { s.closeSockets socket.toList with
        caller := if restart then .starting else .idle }

/-- `StartControlServer` behind `StopControlServer`. -/
def start (s : ControlListener) : StartOutcome → Option ControlListener
  | .returns | .notBound _ => some { s with caller := .idle }
  | .notReused socket =>
      if socket ∈ s.opened then none
      else some { s with
        caller := .idle
        opened := socket :: s.opened
        controlSocket := some socket }
  | .listens socket =>
      if socket ∈ s.opened then none
      else some { s with
        caller := .idle
        opened := socket :: s.opened
        controlSocket := some socket
        listenSocket := socket
        listenerThread := true
        terminated := s.terminated || s.listenerThread
        listener := .accepting }

/-- A descriptor that `accept` returns is new. -/
def accept (s : ControlListener) : Option Nat → Option ControlListener
  | none => some { s with listener := .leaving }
  | some socket =>
      if socket ∈ s.opened then none
      else some { s with opened := socket :: s.opened, listener := .accepted socket }

/-- `ControlThreads[accept_sock] = ct`, with a new handler. -/
def addThread (s : ControlListener) (socket : Nat) : ControlListener :=
  { s with
    controlThreads := ⟨socket, false, s.spawned⟩ ::
      s.controlThreads.filter fun ct => ct.socket ≠ socket
    terminated := s.terminated || s.controlThreads.any fun ct => ct.socket = socket
    handlers := Function.update s.handlers s.spawned (.serving socket)
    spawned := s.spawned + 1
    listener := .sweeping }

/-- Remove items for closed connections. -/
def sweep (s : ControlListener) : ControlListener :=
  let gone := s.controlThreads.filter fun ct => ct.stopped
  { s.closeSockets (gone.map (·.socket)) with
    controlThreads := s.controlThreads.filter fun ct => !ct.stopped
    listener := .joining (gone.map (·.thread)) }

/-- Shutdown action connections. -/
def leave (s : ControlListener) : ControlListener :=
  { s.closeSockets (s.controlThreads.map (·.socket)) with
    controlThreads := []
    listener := .joiningLast (s.controlThreads.map (·.thread)) }

def stepListener (s : ControlListener) : Option ControlListener :=
  match s.listener with
  | .ended | .accepting => none
  | .accepted socket =>
      if s.controlSocket ≠ some s.listenSocket then
        some { s.closeSocket socket with listener := .leaving }
      else some { s with listener := .admitted socket }
  | .admitted socket => some (s.addThread socket)
  | .sweeping => some s.sweep
  | .joining [] => some { s with listener := .accepting }
  | .joining (thread :: threads) =>
      if s.handlers thread = .ended then some { s with listener := .joining threads }
      else none
  | .leaving => some s.leave
  | .joiningLast [] => some { s with listener := .ended }
  | .joiningLast (thread :: threads) =>
      if s.handlers thread = .ended then some { s with listener := .joiningLast threads }
      else none

/-- The last section of `ControlHandler`. -/
def endHandler (s : ControlListener) (thread socket : Nat) : ControlListener :=
  { s with
    controlThreads := s.controlThreads.map fun ct =>
      if ct.socket = socket then { ct with stopped := true } else ct
    handlers := Function.update s.handlers thread .ended }

def step (s : ControlListener) : ControlEvent → Option ControlListener
  | .stop restart => if s.caller = .idle then some (s.stop restart) else none
  | .caller => s.stepCaller
  | .start outcome => if s.caller = .starting then s.start outcome else none
  | .accept socket => if s.listener = .accepting then s.accept socket else none
  | .listener => s.stepListener
  | .handler thread =>
      match s.handlers thread with
      | .serving socket => some (s.endHandler thread socket)
      | _ => none

/-! ## What is open -/

/-- The descriptors that somebody is to close. -/
def held (s : ControlListener) : Multiset Nat :=
  ↑s.controlSocket.toList + ↑s.caller.held + ↑s.listener.held +
    ↑(s.controlThreads.map (·.socket))

variable {s s' : ControlListener}

/-- Open descriptors, each of them once, can be closed in any order. -/
theorem closeSockets_opened {sockets : List Nat} :
    ∀ {s : ControlListener} {rest : Multiset Nat},
      (↑s.opened : Multiset Nat) = ↑sockets + rest → s.opened.Nodup →
      ∃ opened : List Nat, (↑opened : Multiset Nat) = rest ∧ opened.Nodup ∧
        s.closeSockets sockets = { s with opened := opened } := by
  induction sockets with
  | nil =>
      intro s rest hopened hnodup
      exact ⟨s.opened, by simpa using hopened, hnodup, rfl⟩
  | cons socket sockets ih =>
      intro s rest hopened hnodup
      rw [← Multiset.cons_coe, Multiset.cons_add] at hopened
      have hmem : socket ∈ s.opened := by
        rw [← Multiset.mem_coe, hopened]
        exact Multiset.mem_cons_self _ _
      have herased : (↑(s.opened.erase socket) : Multiset Nat) = ↑sockets + rest := by
        rw [← Multiset.coe_erase, hopened, Multiset.erase_cons_head]
      have hclosed : s.closeSocket socket = { s with opened := s.opened.erase socket } := by
        simp [closeSocket, hmem]
      rw [closeSockets, hclosed]
      exact ih herased (hnodup.erase socket)

/-! ## What the server keeps -/

structure Inv (s : ControlListener) : Prop where
  accounted : (↑s.opened : Multiset Nat) = s.held
  nodup : s.opened.Nodup
  sound : s.misused = false ∧ s.terminated = false
  entries : ∀ ct ∈ s.controlThreads,
    s.handlers ct.thread = if ct.stopped then .ended else .serving ct.socket
  serving : ∀ h socket, s.handlers h = .serving socket →
    (∃ ct ∈ s.controlThreads, ct.thread = h) ∨
      ∃ threads, s.listener = .joiningLast threads ∧ h ∈ threads
  fresh : ∀ h, s.spawned ≤ h → s.handlers h = .notStarted
  left : s.listener = .ended ∨ (∃ threads, s.listener = .joiningLast threads) →
    s.controlThreads = []
  joinable : s.listener ≠ .ended → s.listenerThread = true ∨
    ∃ restart socket, s.caller = .joining restart true socket
  owned : s.listenerThread = true → s.controlSocket = some s.listenSocket
  listening : s.controlSocket ≠ none → s.caller = .idle

theorem initial_inv : initial.Inv where
  accounted := rfl
  nodup := List.nodup_nil
  sound := ⟨rfl, rfl⟩
  entries := by simp [initial]
  serving := by simp [initial]
  fresh := fun _ _ => rfl
  left := fun _ => rfl
  joinable := by simp [initial]
  owned := by simp [initial]
  listening := by simp [initial]

/-- While a call to start or to stop the server is under way, nobody else owns
the listener. -/
theorem Inv.called (hinv : s.Inv) (hcaller : s.caller ≠ .idle) :
    s.controlSocket = none ∧ s.listenerThread = false := by
  have hsocket : s.controlSocket = none := by
    by_contra hsome
    exact hcaller (hinv.listening hsome)
  constructor
  · exact hsocket
  · cases hthread : s.listenerThread with
    | false => rfl
    | true =>
        have howned := hinv.owned hthread
        rw [hsocket] at howned
        cases howned

/-- No descriptor has two owners. -/
theorem Inv.held_nodup (hinv : s.Inv) : s.held.Nodup := by
  rw [← hinv.accounted]
  exact hinv.nodup

/-- Until the listener has dropped all connections. -/
theorem Inv.entry (hinv : s.Inv) (hlistener : ∀ threads, s.listener ≠ .joiningLast threads)
    {h socket : Nat} (hserving : s.handlers h = .serving socket) :
    ∃ ct ∈ s.controlThreads, ct.thread = h :=
  (hinv.serving h socket hserving).resolve_right
    fun ⟨threads, hlast, _⟩ => hlistener threads hlast

theorem Inv.stop (hinv : s.Inv) (hidle : s.caller = .idle) (restart : Bool) :
    (s.stop restart).Inv := by
  refine { hinv with accounted := ?_, joinable := ?_, owned := ?_, listening := ?_ }
  · rw [ControlListener.stop, hinv.accounted, held, held, hidle]
    simp [ControlCallerPc.held]
  · intro hlistener
    rcases hinv.joinable hlistener with hthread | ⟨restart', socket, hcaller⟩
    · exact .inr ⟨restart, s.controlSocket, by rw [ControlListener.stop, hthread]⟩
    · rw [hidle] at hcaller
      cases hcaller
  · simp [ControlListener.stop]
  · simp [ControlListener.stop]

theorem Inv.stepCaller (hinv : s.Inv) (hstep : s.stepCaller = some s') : s'.Inv := by
  unfold ControlListener.stepCaller at hstep
  cases hcaller : s.caller with
  | idle => simp [hcaller] at hstep
  | starting => simp [hcaller] at hstep
  | joining restart thread socket =>
      have hcalled := hinv.called (by simp [hcaller])
      rw [hcaller] at hstep
      dsimp only at hstep
      split at hstep
      next => cases hstep
      next hjoined =>
        cases hstep
        refine { hinv with
          accounted := ?_, joinable := ?_, listening := fun hsome => absurd hcalled.1 hsome }
        · rw [hinv.accounted, held, held, hcaller]
          rfl
        · intro hlistener
          rcases hinv.joinable hlistener with hthread | ⟨restart', socket', hsame⟩
          · exact .inl hthread
          · rw [hcaller] at hsame
            cases hsame
            exact absurd ⟨rfl, hlistener⟩ hjoined
  | closing restart socket =>
      have hcalled := hinv.called (by simp [hcaller])
      have hopened : (↑s.opened : Multiset Nat) = ↑socket.toList +
          (↑s.listener.held + ↑(s.controlThreads.map (·.socket))) := by
        rw [hinv.accounted, held, hcalled.1, hcaller]
        simp [ControlCallerPc.held]
      rcases closeSockets_opened hopened hinv.nodup with ⟨opened, hrest, hnodup, hclosed⟩
      simp only [hcaller, hclosed, Option.some.injEq] at hstep
      subst hstep
      refine { hinv with
        accounted := ?_, nodup := hnodup, joinable := ?_,
        listening := fun hsome => absurd hcalled.1 hsome }
      · simp only [hrest, held, hcalled.1]
        cases restart <;> simp [ControlCallerPc.held]
      · intro hlistener
        rcases hinv.joinable hlistener with hthread | ⟨restart', socket', hsame⟩
        · exact .inl hthread
        · rw [hcaller] at hsame
          cases hsame

theorem Inv.start {outcome : StartOutcome} (hinv : s.Inv) (hcaller : s.caller = .starting)
    (hstep : s.start outcome = some s') : s'.Inv := by
  have hcalled := hinv.called (by simp [hcaller])
  have hended : s.listener = .ended := by
    by_contra hlistener
    rcases hinv.joinable hlistener with hthread | ⟨restart, socket, hsame⟩
    · rw [hcalled.2] at hthread
      cases hthread
    · rw [hcaller] at hsame
      cases hsame
  have hempty := hinv.left (.inl hended)
  have hheld : (↑s.opened : Multiset Nat) = 0 := by
    rw [hinv.accounted, held, hcalled.1, hcaller, hended, hempty]
    rfl
  unfold ControlListener.start at hstep
  cases outcome with
  | returns | notBound =>
      cases hstep
      refine { hinv with
        accounted := ?_, joinable := fun hlistener => absurd hended hlistener,
        listening := fun _ => rfl }
      rw [hinv.accounted, held, held, hcaller]
      rfl
  | notReused socket =>
      dsimp only at hstep
      split at hstep
      next => cases hstep
      next hnew =>
        cases hstep
        refine { hinv with
          accounted := ?_, nodup := List.nodup_cons.mpr ⟨hnew, hinv.nodup⟩,
          joinable := fun hlistener => absurd hended hlistener, owned := ?_,
          listening := fun _ => rfl }
        · simp only [held, hended, hempty, ← Multiset.cons_coe, hheld]
          rfl
        · intro hthread
          rw [hcalled.2] at hthread
          cases hthread
  | listens socket =>
      dsimp only at hstep
      split at hstep
      next => cases hstep
      next hnew =>
        cases hstep
        refine { hinv with
          accounted := ?_, nodup := List.nodup_cons.mpr ⟨hnew, hinv.nodup⟩,
          sound := ⟨hinv.sound.1, by simp [hinv.sound.2, hcalled.2]⟩,
          serving := fun h socket' hserving => .inl (hinv.entry (by simp [hended]) hserving),
          left := by simp, joinable := fun _ => .inl rfl, owned := fun _ => rfl,
          listening := fun _ => rfl }
        simp only [held, hempty, ← Multiset.cons_coe, hheld]
        rfl

theorem Inv.accept {socket : Option Nat} (hinv : s.Inv) (haccepting : s.listener = .accepting)
    (hstep : s.accept socket = some s') : s'.Inv := by
  have hrunning : s.listener ≠ .ended := by simp [haccepting]
  have hserving : ∀ h socket, s.handlers h = .serving socket →
      ∃ ct ∈ s.controlThreads, ct.thread = h :=
    fun h socket => hinv.entry (by simp [haccepting])
  have haccounted := hinv.accounted
  simp only [held, haccepting, ListenerPc.held] at haccounted
  cases socket with
  | none =>
      cases hstep
      refine { hinv with
        accounted := ?_, serving := fun h socket hserves => .inl (hserving h socket hserves),
        left := by simp, joinable := fun _ => hinv.joinable hrunning }
      simp only [held, ListenerPc.held, haccounted]
  | some socket =>
      simp only [ControlListener.accept] at hstep
      split at hstep
      next => cases hstep
      next hnew =>
        cases hstep
        refine { hinv with
          accounted := ?_, nodup := List.nodup_cons.mpr ⟨hnew, hinv.nodup⟩,
          serving := fun h socket hserves => .inl (hserving h socket hserves),
          left := by simp, joinable := fun _ => hinv.joinable hrunning }
        simp only [held, ListenerPc.held, ← Multiset.cons_coe, haccounted]
        simp [add_comm]

/-- The listener goes on, and nothing else changes. -/
theorem Inv.listens {listener : ListenerPc} (hinv : s.Inv) (hrunning : s.listener ≠ .ended)
    (hheld : listener.held = s.listener.held)
    (hlast : ∀ threads, s.listener = .joiningLast threads →
      ∀ h ∈ threads, (∃ socket, s.handlers h = .serving socket) →
        ∃ threads', listener = .joiningLast threads' ∧ h ∈ threads')
    (hleft : listener = .ended ∨ (∃ threads, listener = .joiningLast threads) →
      s.controlThreads = []) :
    ({ s with listener := listener } : ControlListener).Inv := by
  refine { hinv with
    accounted := ?_, serving := ?_, left := hleft,
    joinable := fun _ => hinv.joinable hrunning }
  · simp only [held, hheld]
    exact hinv.accounted
  · intro h socket hserving
    rcases hinv.serving h socket hserving with hentry | ⟨threads, hthreads, hmem⟩
    · exact .inl hentry
    · exact .inr (hlast threads hthreads h hmem ⟨socket, hserving⟩)

theorem Inv.refuse {socket : Nat} (hinv : s.Inv) (haccepted : s.listener = .accepted socket) :
    ({ s.closeSocket socket with listener := .leaving } : ControlListener).Inv := by
  have hopened : (↑s.opened : Multiset Nat) = ↑[socket] +
      (↑s.controlSocket.toList + ↑s.caller.held +
        ↑(s.controlThreads.map (·.socket))) := by
    rw [hinv.accounted, held, haccepted, ListenerPc.held]
    ac_rfl
  rcases closeSockets_opened hopened hinv.nodup with ⟨opened, hrest, hnodup, hclosed⟩
  have hclosed' : s.closeSocket socket = { s with opened := opened } := hclosed
  rw [hclosed']
  refine { hinv with
    accounted := ?_, nodup := hnodup,
    serving := fun h socket' hserving => .inl (hinv.entry (by simp [haccepted]) hserving),
    left := by simp, joinable := fun _ => hinv.joinable (by simp [haccepted]) }
  simp only [hrest, held, ListenerPc.held, Multiset.coe_nil, add_zero]

theorem Inv.addThread {socket : Nat} (hinv : s.Inv) (hadmitted : s.listener = .admitted socket) :
    (s.addThread socket).Inv := by
  -- the descriptor is held once, by the listener
  have hother : ∀ ct ∈ s.controlThreads, ct.socket ≠ socket := by
    intro ct hmem hsame
    have hnodup := hinv.held_nodup
    rw [held, hadmitted, ListenerPc.held, add_right_comm] at hnodup
    have hentry : socket ∈ (↑s.controlSocket.toList + ↑s.caller.held +
        ↑(s.controlThreads.map (·.socket)) : Multiset Nat) := by
      rw [Multiset.mem_add, Multiset.mem_coe, List.mem_map]
      exact .inr ⟨ct, hmem, hsame⟩
    exact Multiset.disjoint_left.mp (Multiset.nodup_add.mp hnodup).2.2 hentry
      (by simp)
  have hkept : (s.controlThreads.filter fun ct => ct.socket ≠ socket) = s.controlThreads := by
    rw [List.filter_eq_self]
    intro ct hmem
    exact decide_eq_true (hother ct hmem)
  have hnone : (s.controlThreads.any fun ct => ct.socket = socket) = false := by
    rw [List.any_eq_false]
    intro ct hmem hsame
    exact hother ct hmem (of_decide_eq_true hsame)
  have hold : ∀ h, s.handlers h ≠ .notStarted → h ≠ s.spawned := by
    intro h hstarted hsame
    rw [hsame] at hstarted
    exact hstarted (hinv.fresh _ (Nat.le_refl _))
  unfold ControlListener.addThread
  rw [hkept, hnone]
  refine { hinv with
    accounted := ?_, sound := ⟨hinv.sound.1, by simp [hinv.sound.2]⟩, entries := ?_,
    serving := ?_, fresh := ?_, left := by simp,
    joinable := fun _ => hinv.joinable (by simp [hadmitted]) }
  · rw [hinv.accounted, held, held, hadmitted]
    simp only [ListenerPc.held, List.map_cons, ← Multiset.cons_coe, Multiset.coe_nil,
      add_zero, Multiset.add_cons, Multiset.cons_add]
  · intro ct hmem
    rcases List.mem_cons.mp hmem with rfl | hmem
    · simp
    · have hentry := hinv.entries ct hmem
      have hne := hold ct.thread (by rw [hentry]; split <;> simp)
      simp only [Function.update_of_ne hne]
      exact hentry
  · intro h socket' hserving
    by_cases hh : h = s.spawned
    · exact .inl ⟨_, List.mem_cons_self, hh.symm⟩
    · simp only [Function.update_of_ne hh] at hserving
      rcases hinv.entry (by simp [hadmitted]) hserving with ⟨ct, hmem, hct⟩
      exact .inl ⟨ct, List.mem_cons_of_mem _ hmem, hct⟩
  · intro h hle
    have hlt : s.spawned + 1 ≤ h := hle
    simp only [Function.update_of_ne (by omega : h ≠ s.spawned)]
    exact hinv.fresh h (by omega)

theorem Inv.sweep (hinv : s.Inv) (hsweeping : s.listener = .sweeping) : s.sweep.Inv := by
  have hsplit : (↑(s.controlThreads.map (·.socket)) : Multiset Nat) =
      ↑((s.controlThreads.filter fun ct => ct.stopped).map (·.socket)) +
        ↑((s.controlThreads.filter fun ct => !ct.stopped).map (·.socket)) := by
    rw [Multiset.coe_add, ← List.map_append, Multiset.coe_eq_coe]
    exact (List.filter_append_perm _ _).symm.map _
  have hopened : (↑s.opened : Multiset Nat) =
      ↑((s.controlThreads.filter fun ct => ct.stopped).map (·.socket)) +
        (↑s.controlSocket.toList + ↑s.caller.held +
          ↑((s.controlThreads.filter fun ct => !ct.stopped).map (·.socket))) := by
    rw [hinv.accounted, held, hsweeping, hsplit]
    simp only [ListenerPc.held, Multiset.coe_nil, add_zero]
    ac_rfl
  rcases closeSockets_opened hopened hinv.nodup with ⟨opened, hrest, hnodup, hclosed⟩
  simp only [ControlListener.sweep, hclosed]
  refine { hinv with
    accounted := ?_, nodup := hnodup,
    entries := fun ct hmem => hinv.entries ct (List.mem_filter.mp hmem).1,
    serving := ?_, left := by simp,
    joinable := fun _ => hinv.joinable (by simp [hsweeping]) }
  · simp only [hrest, held, ListenerPc.held, Multiset.coe_nil, add_zero]
  · intro h socket hserving
    rcases hinv.entry (by simp [hsweeping]) hserving with ⟨ct, hmem, hct⟩
    have hentry := hinv.entries ct hmem
    rw [hct, hserving] at hentry
    -- a handler that serves has not marked its entry
    have hmarked : ct.stopped = false := by
      cases hstopped : ct.stopped with
      | false => rfl
      | true => simp [hstopped] at hentry
    exact .inl ⟨ct, List.mem_filter.mpr ⟨hmem, by simp [hmarked]⟩, hct⟩

theorem Inv.leave (hinv : s.Inv) (hleaving : s.listener = .leaving) : s.leave.Inv := by
  have hopened : (↑s.opened : Multiset Nat) = ↑(s.controlThreads.map (·.socket)) +
      (↑s.controlSocket.toList + ↑s.caller.held) := by
    rw [hinv.accounted, held, hleaving]
    simp only [ListenerPc.held, Multiset.coe_nil, add_zero]
    exact add_comm _ _
  rcases closeSockets_opened hopened hinv.nodup with ⟨opened, hrest, hnodup, hclosed⟩
  simp only [ControlListener.leave, hclosed]
  refine { hinv with
    accounted := ?_, nodup := hnodup, entries := by simp, serving := ?_,
    left := fun _ => rfl, joinable := fun _ => hinv.joinable (by simp [hleaving]) }
  · simp only [hrest, held, ListenerPc.held, List.map_nil, Multiset.coe_nil, add_zero]
  · intro h socket hserving
    rcases hinv.entry (by simp [hleaving]) hserving with ⟨ct, hmem, hct⟩
    exact .inr ⟨_, rfl, List.mem_map.mpr ⟨ct, hmem, hct⟩⟩

theorem Inv.stepListener (hinv : s.Inv) (hstep : s.stepListener = some s') : s'.Inv := by
  unfold ControlListener.stepListener at hstep
  cases hlistener : s.listener with
  | ended => simp [hlistener] at hstep
  | accepting => simp [hlistener] at hstep
  | accepted socket =>
      rw [hlistener] at hstep
      dsimp only at hstep
      split at hstep
      next =>
        cases hstep
        exact hinv.refuse hlistener
      next =>
        cases hstep
        exact hinv.listens (by simp [hlistener]) (by rw [hlistener]; rfl)
          (by simp [hlistener]) (by simp)
  | admitted socket =>
      simp only [hlistener, Option.some.injEq] at hstep
      rw [← hstep]
      exact hinv.addThread hlistener
  | sweeping =>
      simp only [hlistener, Option.some.injEq] at hstep
      rw [← hstep]
      exact hinv.sweep hlistener
  | joining threads =>
      rw [hlistener] at hstep
      cases threads with
      | nil =>
          cases hstep
          exact hinv.listens (by simp [hlistener]) (by rw [hlistener]; rfl)
            (by simp [hlistener]) (by simp)
      | cons thread threads =>
          dsimp only at hstep
          split at hstep
          next =>
            cases hstep
            exact hinv.listens (by simp [hlistener]) (by rw [hlistener]; rfl)
              (by simp [hlistener]) (by simp)
          next => cases hstep
  | leaving =>
      simp only [hlistener, Option.some.injEq] at hstep
      rw [← hstep]
      exact hinv.leave hlistener
  | joiningLast threads =>
      have hempty := hinv.left (.inr ⟨threads, hlistener⟩)
      rw [hlistener] at hstep
      cases threads with
      | nil =>
          cases hstep
          apply hinv.listens (by simp [hlistener]) (by rw [hlistener]; rfl) _ fun _ => hempty
          intro threads hthreads h hmem
          rw [hlistener] at hthreads
          cases hthreads
          simp at hmem
      | cons thread threads =>
          dsimp only at hstep
          split at hstep
          next hended =>
            cases hstep
            apply hinv.listens (by simp [hlistener]) (by rw [hlistener]; rfl) _ fun _ => hempty
            intro threads' hthreads h hmem hserving
            rw [hlistener] at hthreads
            cases hthreads
            rcases List.mem_cons.mp hmem with rfl | hmem
            · rcases hserving with ⟨socket, hserving⟩
              rw [hended] at hserving
              cases hserving
            · exact ⟨threads, rfl, hmem⟩
          next => cases hstep

/-- The entries belong to different connections. -/
theorem Inv.entry_unique (hinv : s.Inv) {ct ct' : ControlThread}
    (hmem : ct ∈ s.controlThreads) (hmem' : ct' ∈ s.controlThreads)
    (hsocket : ct.socket = ct'.socket) : ct = ct' := by
  have hnodup := hinv.held_nodup
  rw [held] at hnodup
  have hkeys : (s.controlThreads.map (·.socket)).Nodup := (Multiset.nodup_add.mp hnodup).2.1
  exact List.inj_on_of_nodup_map hkeys hmem hmem' hsocket

/-- The entry of a handler that serves, until the listener has dropped all. -/
theorem Inv.entry_of_serving (hinv : s.Inv) {h socket : Nat}
    (hserving : s.handlers h = .serving socket) :
    (∃ threads, s.listener = .joiningLast threads ∧ h ∈ threads) ∨
      ⟨socket, false, h⟩ ∈ s.controlThreads := by
  rcases hinv.serving h socket hserving with ⟨ct, hmem, hct⟩ | hlast
  · have hentry := hinv.entries ct hmem
    rw [hct, hserving] at hentry
    cases hstopped : ct.stopped with
    | true => simp [hstopped] at hentry
    | false =>
        simp only [hstopped, Bool.false_eq_true, if_false, HandlerPc.serving.injEq] at hentry
        have hsame : ct = ⟨socket, false, h⟩ := by
          cases ct
          simp_all
        rw [← hsame]
        exact .inr hmem
  · exact .inl hlast

theorem Inv.endHandler {thread socket : Nat} (hinv : s.Inv)
    (hserving : s.handlers thread = .serving socket) : (s.endHandler thread socket).Inv := by
  have hkeys : ((s.controlThreads.map fun ct =>
      if ct.socket = socket then { ct with stopped := true } else ct).map (·.socket)) =
        s.controlThreads.map (·.socket) := by
    rw [List.map_map]
    apply List.map_congr_left
    intro ct _
    simp only [Function.comp_apply]
    split <;> rfl
  refine { hinv with accounted := ?_, entries := ?_, serving := ?_, fresh := ?_, left := ?_ }
  · simp only [held, ControlListener.endHandler, hkeys]
    exact hinv.accounted
  · intro ct' hmem'
    rcases List.mem_map.mp hmem' with ⟨ct, hmem, rfl⟩
    have hentry := hinv.entries ct hmem
    by_cases hsocket : ct.socket = socket
    · -- the connection is that of the handler
      rcases hinv.entry_of_serving hserving with ⟨threads, hlast, _⟩ | hown
      · rw [hinv.left (.inr ⟨threads, hlast⟩)] at hmem
        cases hmem
      · have hsame := hinv.entry_unique hmem hown hsocket
        simp [ControlListener.endHandler, hsame]
    · have hne : ct.thread ≠ thread := by
        intro hsame
        rw [hsame, hserving] at hentry
        split at hentry
        next => cases hentry
        next =>
          cases hentry
          exact hsocket rfl
      simp only [ControlListener.endHandler, if_neg hsocket, Function.update_of_ne hne]
      exact hentry
  · intro h socket' hserves
    have hne : h ≠ thread := by
      intro hsame
      simp [ControlListener.endHandler, hsame] at hserves
    simp only [ControlListener.endHandler, Function.update_of_ne hne] at hserves
    rcases hinv.serving h socket' hserves with ⟨ct, hmem, hct⟩ | hlast
    · apply Or.inl
      exact ⟨_, List.mem_map.mpr ⟨ct, hmem, rfl⟩, by split <;> exact hct⟩
    · exact .inr hlast
  · intro h hle
    have hne : h ≠ thread := by
      intro hsame
      have hfresh := hinv.fresh h hle
      rw [hsame, hserving] at hfresh
      cases hfresh
    simp only [ControlListener.endHandler, Function.update_of_ne hne]
    exact hinv.fresh h hle
  · intro hlistener
    simp only [ControlListener.endHandler]
    rw [hinv.left hlistener, List.map_nil]

theorem step_inv {a : ControlEvent} (hinv : s.Inv) (hstep : s.step a = some s') :
    s'.Inv := by
  cases a with
  | stop restart =>
      simp only [step] at hstep
      split at hstep
      next hidle =>
        cases hstep
        exact hinv.stop hidle restart
      next => cases hstep
  | caller => exact hinv.stepCaller hstep
  | start outcome =>
      simp only [step] at hstep
      split at hstep
      next hcaller => exact hinv.start hcaller hstep
      next => cases hstep
  | accept socket =>
      simp only [step] at hstep
      split at hstep
      next haccepting => exact hinv.accept haccepting hstep
      next => cases hstep
  | listener => exact hinv.stepListener hstep
  | handler thread =>
      simp only [step] at hstep
      split at hstep
      next hserving =>
        cases hstep
        exact hinv.endHandler hserving
      next => cases hstep

theorem reachable_inv (hreach : Reachable step initial s) : s.Inv :=
  hreach.invariant (fun _ _ _ hinv _ hstep => step_inv hinv hstep) initial_inv

/-- The server is started, and serves two connections; one of them ends. -/
def twoConnections : List ControlEvent :=
  [.stop true, .caller, .caller, .start (.listens 3), .accept (some 4), .listener, .listener,
    .listener, .listener, .accept (some 5), .listener, .listener, .handler 0, .listener]

/-- Every descriptor that is open is held once: as the listening socket, by the
listener, or by an entry of `ControlThreads`.  None is closed twice, and no
thread is destroyed before it is joined. -/
theorem sockets_accounted (hreach : Reachable step initial s) :
    s.opened.Nodup ∧
      (↑s.opened : Multiset Nat) = ↑s.controlSocket.toList + ↑s.caller.held +
        ↑s.listener.held + ↑(s.controlThreads.map (·.socket)) ∧
      s.misused = false ∧ s.terminated = false := by
  have hinv := reachable_inv hreach
  exact ⟨hinv.nodup, hinv.accounted, hinv.sound.1, hinv.sound.2⟩

theorem sockets_accounted_two_connections :
    ∃ s : ControlListener, s.opened = [5, 3] ∧
      (s.opened.Nodup ∧
        (↑s.opened : Multiset Nat) = ↑s.controlSocket.toList + ↑s.caller.held +
          ↑s.listener.held + ↑(s.controlThreads.map (·.socket)) ∧
        s.misused = false ∧ s.terminated = false) := by
  rcases exists_reachable_of_exec step initial twoConnections
      (fun s => decide (s.opened = [5, 3])) (by decide) with ⟨s, hreach, hcheck⟩
  exact ⟨s, of_decide_eq_true hcheck, sockets_accounted hreach⟩

/-- Until the listener drops the connections that are left, a handler that
serves has an open socket of its own and the entry for it. -/
theorem handler_keeps_socket {h socket : Nat} (hreach : Reachable step initial s)
    (hserving : s.handlers h = .serving socket) :
    (∃ threads, s.listener = .joiningLast threads ∧ h ∈ threads) ∨
      socket ∈ s.opened ∧ ⟨socket, false, h⟩ ∈ s.controlThreads ∧
        ∀ h', s.handlers h' = .serving socket → h' = h := by
  have hinv := reachable_inv hreach
  rcases hinv.entry_of_serving hserving with hlast | hentry
  · exact .inl hlast
  · apply Or.inr
    constructor
    · rw [← Multiset.mem_coe, hinv.accounted, held, Multiset.mem_add, Multiset.mem_coe,
        List.mem_map]
      exact .inr ⟨_, hentry, rfl⟩
    · constructor
      · exact hentry
      · intro h' hserving'
        rcases hinv.entry_of_serving hserving' with ⟨threads, hlast, _⟩ | hentry'
        · rw [hinv.left (.inr ⟨threads, hlast⟩)] at hentry
          cases hentry
        · have hsame := hinv.entry_unique hentry' hentry rfl
          cases hsame
          rfl

theorem handler_keeps_socket_two_connections :
    ∃ s : ControlListener, s.handlers 1 = .serving 5 ∧
      ((∃ threads, s.listener = .joiningLast threads ∧ 1 ∈ threads) ∨
        5 ∈ s.opened ∧ ⟨5, false, 1⟩ ∈ s.controlThreads ∧
          ∀ h', s.handlers h' = .serving 5 → h' = 1) := by
  rcases exists_reachable_of_exec step initial twoConnections
      (fun s => decide (s.handlers 1 = .serving 5)) (by decide) with ⟨s, hreach, hcheck⟩
  exact ⟨s, of_decide_eq_true hcheck,
    handler_keeps_socket hreach (of_decide_eq_true hcheck)⟩

/-- When `StopControlServer` has returned and the server has not been started
again, the listener and every handler have ended, and nothing is left open. -/
theorem stop_leaves_nothing (hreach : Reachable step initial s) (hidle : s.caller = .idle)
    (hstopped : s.controlSocket = none) :
    s.opened = [] ∧ s.controlThreads = [] ∧ s.listener = .ended ∧
      ∀ h socket, s.handlers h ≠ .serving socket := by
  have hinv := reachable_inv hreach
  have hended : s.listener = .ended := by
    by_contra hlistener
    rcases hinv.joinable hlistener with hthread | ⟨restart, socket, hcaller⟩
    · have howned := hinv.owned hthread
      rw [hstopped] at howned
      cases howned
    · rw [hidle] at hcaller
      cases hcaller
  have hempty := hinv.left (.inl hended)
  have hopened : (↑s.opened : Multiset Nat) = 0 := by
    rw [hinv.accounted, held, hstopped, hidle, hended, hempty]
    rfl
  constructor
  · exact (Multiset.coe_eq_zero _).mp hopened
  · constructor
    · exact hempty
    · constructor
      · exact hended
      · intro h socket hserving
        rcases hinv.entry_of_serving hserving with ⟨threads, hlast, _⟩ | hentry
        · rw [hended] at hlast
          cases hlast
        · rw [hempty] at hentry
          cases hentry

theorem stop_leaves_nothing_two_connections :
    ∃ s : ControlListener, s.spawned = 2 ∧
      (s.opened = [] ∧ s.controlThreads = [] ∧ s.listener = .ended ∧
        ∀ h socket, s.handlers h ≠ .serving socket) := by
  rcases exists_reachable_of_exec step initial
      (twoConnections ++ [.stop false, .listener, .listener, .accept none, .listener,
        .handler 1, .listener, .listener, .caller, .caller])
      (fun s => decide (s.spawned = 2) && (decide (s.caller = .idle) &&
        decide (s.controlSocket = none))) (by decide) with ⟨s, hreach, hcheck⟩
  rw [Bool.and_eq_true, Bool.and_eq_true, decide_eq_true_eq, decide_eq_true_eq,
    decide_eq_true_eq] at hcheck
  exact ⟨s, hcheck.1, stop_leaves_nothing hreach hcheck.2.1 hcheck.2.2⟩

end ControlListener
end Logme
