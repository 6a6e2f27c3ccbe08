import Logme.Library.StepSystem
import Logme.ContextApply
import Logme.LogOverloads

/-!
# Scoped settings of a thread

`ThreadChannel`, `ThreadSubsystem`, `ThreadOverride` and `ThreadName` read a
setting of the current thread in their constructor, install another one, and put
the first one back in their destructor.  What the constructor reads does not
tell a setting that was not installed from one with the default value, and the
destructor decides between the two from a part of the value.
-/

namespace Logme

open StepSystem

namespace ThreadSettings

/-- `SetThreadChannel`; an identifier without a name has the empty one. -/
def setThreadChannel (t : ThreadSettings) (id : Option Name) : ThreadSettings :=
  { t with channel := id }

def setThreadSubsystem (t : ThreadSettings) (sid : Option Nat) : ThreadSettings :=
  { t with subsystem := if sid.getD 0 = 0 then none else sid }

def setThreadOverride (t : ThreadSettings) (ovr : Option Override) : ThreadSettings :=
  { t with override := ovr }

def getDefaultChannel (t : ThreadSettings) : Name := t.channel.getD []

def getDefaultSubsystem (t : ThreadSettings) : Nat := t.subsystem.getD 0

end ThreadSettings

namespace Channel

/-- `SetThreadName` on the entry of the thread with number `thread`. -/
def setThreadName (entry : Option ThreadNameRecord) (thread : Nat) (name : Option Name)
    (log : Bool) : Option ThreadNameRecord :=
  match entry with
  | some record =>
      let prev := if log then record.name else none
      match name with
      | some name => some ⟨some name, prev⟩
      | none => if log then some ⟨none, prev⟩ else none
  | none =>
      name.map fun name => ⟨some name, if log then some (hexUpper thread) else none⟩

/-- The entry after `GetThreadName`. -/
def readThreadName (entry : Option ThreadNameRecord) (clear : Bool) :
    Option ThreadNameRecord :=
  entry.bind fun record =>
    if record.name = none ∧ record.prev = none then none
    else if clear then some { record with prev := none }
    else some record

theorem name_setThreadName (entry : Option ThreadNameRecord) (thread : Nat)
    (name : Option Name) (log : Bool) :
    (OutputChannel.getThreadName (setThreadName entry thread name log)).1 = name := by
  cases entry <;> cases name <;> cases log <;> rfl

theorem name_readThreadName (entry : Option ThreadNameRecord) (clear : Bool) :
    (OutputChannel.getThreadName (readThreadName entry clear)).1 =
      (OutputChannel.getThreadName entry).1 := by
  cases entry with
  | none => rfl
  | some record =>
      simp only [readThreadName, Option.bind_some]
      split
      next h => exact h.1.symm
      next => cases clear <;> rfl

end Channel

/-! ## The state of a thread -/

/-- The settings of the thread with number `thread` and its entries in the
thread names of the channels. -/
structure ThreadState (κ : Type) where
  thread : Nat
  settings : ThreadSettings
  names : κ → Option ThreadNameRecord
  subsystem_ne_zero : settings.subsystem ≠ some 0

/-- What an object keeps from its construction to its destruction. -/
inductive ScopeObject (κ : Type) where
  | threadChannel (prevChannel : Name)
  | threadSubsystem (prevSubsystem : Nat)
  | threadOverride (prevOverride : Override)
  | threadName (pch : Option κ) (previousName : Option Name) (log : Bool)

/-- The arguments of a constructor. -/
inductive ScopeCall (κ : Type) where
  | threadChannel (ch : Name)
  | threadSubsystem (sid : Nat)
  | threadOverride (ovr : Override)
  | threadName (pch : Option κ) (name : Option Name) (log : Bool)

namespace ThreadState

variable {κ : Type} [DecidableEq κ]

def setThreadChannel (s : ThreadState κ) (id : Option Name) : ThreadState κ :=
  { s with settings := s.settings.setThreadChannel id }

def setThreadSubsystem (s : ThreadState κ) (sid : Option Nat) : ThreadState κ where
  thread := s.thread
  settings := s.settings.setThreadSubsystem sid
  names := s.names
  subsystem_ne_zero := by
    unfold ThreadSettings.setThreadSubsystem
    split
    next => exact nofun
    next hsid =>
      intro hzero
      exact hsid (by rw [show sid = some 0 from hzero]; rfl)

def setThreadOverride (s : ThreadState κ) (ovr : Option Override) : ThreadState κ :=
  { s with settings := s.settings.setThreadOverride ovr }

def setThreadName (s : ThreadState κ) (pch : κ) (name : Option Name) (log : Bool) :
    ThreadState κ :=
  { s with
    names := Function.update s.names pch
      (Channel.setThreadName (s.names pch) s.thread name log) }

def readThreadName (s : ThreadState κ) (pch : κ) (clear : Bool) : ThreadState κ :=
  { s with
    names := Function.update s.names pch (Channel.readThreadName (s.names pch) clear) }

/-- The constructors. -/
def construct (s : ThreadState κ) : ScopeCall κ → ScopeObject κ × ThreadState κ
  | .threadChannel ch =>
      (.threadChannel s.settings.getDefaultChannel, s.setThreadChannel (some ch))
  | .threadSubsystem sid =>
      (.threadSubsystem s.settings.getDefaultSubsystem, s.setThreadSubsystem (some sid))
  | .threadOverride ovr =>
      (.threadOverride s.settings.getThreadOverride, s.setThreadOverride (some ovr))
  | .threadName none _ log => (.threadName none none log, s)
  | .threadName (some pch) name log =>
      (.threadName (some pch) (OutputChannel.getThreadName (s.names pch)).1 log,
        (s.readThreadName pch false).setThreadName pch name log)

/-- The destructors.  `printed` tells whether the transition to the name was
printed, `shown` whether the message that follows the way back shows the name. -/
def destroy (s : ThreadState κ) (printed shown : Bool) : ScopeObject κ → ThreadState κ
  | .threadChannel prev =>
      s.setThreadChannel (if prev = [] then none else some prev)
  | .threadSubsystem prev =>
      s.setThreadSubsystem (if prev = 0 then none else some prev)
  | .threadOverride prev =>
      s.setThreadOverride
        (if prev.add.value = 0 ∧ prev.remove.value = 0 then none else some prev)
  | .threadName none _ _ => s
  | .threadName (some pch) prev log =>
      let logReturn := log && printed
      let restored := s.setThreadName pch prev logReturn
      if logReturn && shown then restored.readThreadName pch true else restored

end ThreadState

/-! ## What is in force -/

/-- The settings as the thread observes them: the channel and the subsystem with
whether they are installed, the override that a record gets, and the current
name in each channel. -/
@[ext] structure InForce (κ : Type) where
  channel : Option Name
  subsystem : Option Nat
  override : Override
  names : κ → Option Name

namespace ThreadState

variable {κ : Type} [DecidableEq κ]

def inForce (s : ThreadState κ) : InForce κ where
  channel := s.settings.channel
  subsystem := s.settings.subsystem
  override := s.settings.getThreadOverride
  names := fun c => (OutputChannel.getThreadName (s.names c)).1

theorem inForce_setThreadName (s : ThreadState κ) (pch : κ) (name : Option Name)
    (log : Bool) :
    (s.setThreadName pch name log).inForce =
      { s.inForce with names := Function.update s.inForce.names pch name } := by
  apply InForce.ext
  · rfl
  · rfl
  · rfl
  · funext c
    simp only [setThreadName, inForce]
    by_cases hc : c = pch
    · subst hc
      simp only [Function.update_self, Channel.name_setThreadName]
    · simp only [Function.update_of_ne hc]

@[simp] theorem inForce_readThreadName (s : ThreadState κ) (pch : κ) (clear : Bool) :
    (s.readThreadName pch clear).inForce = s.inForce := by
  apply InForce.ext
  · rfl
  · rfl
  · rfl
  · funext c
    simp only [readThreadName, inForce]
    by_cases hc : c = pch
    · subst hc
      simp only [Function.update_self, Channel.name_readThreadName]
    · simp only [Function.update_of_ne hc]

end ThreadState

/-- The settings in force after the destructor. -/
def ScopeObject.restores {κ : Type} [DecidableEq κ] (now : InForce κ) :
    ScopeObject κ → InForce κ
  | .threadChannel prev => { now with channel := if prev = [] then none else some prev }
  | .threadSubsystem prev => { now with subsystem := if prev = 0 then none else some prev }
  | .threadOverride prev =>
      { now with
        override := if prev.add.value = 0 ∧ prev.remove.value = 0 then {} else prev }
  | .threadName none _ _ => now
  | .threadName (some pch) prev _ =>
      { now with names := Function.update now.names pch prev }

namespace ThreadState

variable {κ : Type} [DecidableEq κ]

theorem inForce_destroy (s : ThreadState κ) (printed shown : Bool)
    (object : ScopeObject κ) :
    (s.destroy printed shown object).inForce = object.restores s.inForce := by
  cases object with
  | threadChannel prev => rfl
  | threadSubsystem prev =>
      by_cases hprev : prev = 0
      · subst hprev
        rfl
      · simp [destroy, setThreadSubsystem, ThreadSettings.setThreadSubsystem, inForce,
          ScopeObject.restores, ThreadSettings.getThreadOverride, hprev]
  | threadOverride prev =>
      refine InForce.ext rfl rfl ?_ rfl
      exact apply_ite (fun ovr : Option Override => ovr.getD {})
        (prev.add.value = 0 ∧ prev.remove.value = 0) none (some prev)
  | threadName pch prev log =>
      cases pch with
      | none => rfl
      | some pch =>
          simp only [destroy, ScopeObject.restores]
          split
          next => rw [inForce_readThreadName, inForce_setThreadName]
          next => exact inForce_setThreadName _ _ _ _

/-- The settings that the destructor of the new object tells from the ones that
were not installed: no unnamed channel, and no override without flags that
limits records or shortens methods. -/
def Restorable (s : ThreadState κ) : ScopeCall κ → Prop
  | .threadChannel _ => s.settings.channel ≠ some []
  | .threadOverride _ =>
      s.settings.getThreadOverride.add.value ≠ 0 ∨
        s.settings.getThreadOverride.remove.value ≠ 0 ∨
          s.settings.getThreadOverride = {}
  | .threadSubsystem _ => True
  | .threadName _ _ _ => True

instance (s : ThreadState κ) : DecidablePred s.Restorable
  | .threadChannel _ => inferInstanceAs (Decidable (_ ≠ _))
  | .threadOverride _ => inferInstanceAs (Decidable (_ ∨ _))
  | .threadSubsystem _ => .isTrue trivial
  | .threadName _ _ _ => .isTrue trivial

/-- An object destroyed right after its construction restores the settings
exactly when they are restorable. -/
theorem restores_construct_iff (s : ThreadState κ) (call : ScopeCall κ) :
    (s.construct call).1.restores (s.construct call).2.inForce = s.inForce ↔
      s.Restorable call := by
  cases call with
  | threadChannel ch =>
      have hall : (s.construct (.threadChannel ch)).1.restores
          (s.construct (.threadChannel ch)).2.inForce = s.inForce ↔
            (if s.settings.getDefaultChannel = [] then none
              else some s.settings.getDefaultChannel) = s.settings.channel :=
        ⟨fun h => congrArg InForce.channel h, fun h => InForce.ext h rfl rfl rfl⟩
      rw [hall]
      unfold ThreadSettings.getDefaultChannel Restorable
      cases s.settings.channel with
      | none => simp
      | some name => by_cases hname : name = [] <;> simp [hname]
  | threadSubsystem sid =>
      have hprev : (if s.settings.getDefaultSubsystem = 0 then none
          else some s.settings.getDefaultSubsystem) = s.settings.subsystem := by
        have hne := s.subsystem_ne_zero
        unfold ThreadSettings.getDefaultSubsystem
        cases hsub : s.settings.subsystem with
        | none => rfl
        | some sid =>
            have hsid : sid ≠ 0 := fun h => hne (h ▸ hsub)
            simp [hsid]
      exact iff_of_true (InForce.ext rfl hprev rfl rfl) trivial
  | threadOverride ovr =>
      have hall : (s.construct (.threadOverride ovr)).1.restores
          (s.construct (.threadOverride ovr)).2.inForce = s.inForce ↔
            (if s.settings.getThreadOverride.add.value = 0 ∧
                s.settings.getThreadOverride.remove.value = 0 then {}
              else s.settings.getThreadOverride) = s.settings.getThreadOverride :=
        ⟨fun h => congrArg InForce.override h, fun h => InForce.ext rfl rfl h rfl⟩
      rw [hall]
      unfold Restorable
      split
      next hzero => simp [hzero.1, hzero.2, eq_comm]
      next hflags =>
        refine iff_of_true rfl ?_
        rw [not_and_or] at hflags
        exact hflags.imp_right .inl
  | threadName pch name log =>
      refine iff_of_true ?_ trivial
      cases pch with
      | none => rfl
      | some pch =>
          simp only [construct, ScopeObject.restores, inForce_setThreadName,
            inForce_readThreadName, Function.update_idem]
          exact InForce.ext rfl rfl rfl (Function.update_eq_self pch s.inForce.names)

end ThreadState

/-! ## Nested objects -/

/-- An object that is alive, with the settings in force before its construction. -/
structure ScopeFrame (κ : Type) where
  object : ScopeObject κ
  before : InForce κ

/-- A thread and its objects, the last constructed first. -/
structure ScopedThread (κ : Type) where
  state : ThreadState κ
  live : List (ScopeFrame κ)

/-- A record that shows the name of the thread in a channel reads the name and
the transition, which is then not printed again. -/
inductive ScopeStep (κ : Type) where
  | construct (call : ScopeCall κ)
  | destroy (printed shown : Bool)
  | display (pch : κ)

namespace ScopedThread

variable {κ : Type} [DecidableEq κ]

def step (s : ScopedThread κ) : ScopeStep κ → Option (ScopedThread κ)
  | .construct call =>
      some ⟨(s.state.construct call).2,
        ⟨(s.state.construct call).1, s.state.inForce⟩ :: s.live⟩
  | .destroy printed shown =>
      match s.live with
      | [] => none
      | frame :: rest => some ⟨s.state.destroy printed shown frame.object, rest⟩
  | .display pch => some { s with state := s.state.readThreadName pch true }

def Allowed (s : ScopedThread κ) : ScopeStep κ → Prop
  | .construct call => s.state.Restorable call
  | .destroy _ _ => True
  | .display _ => True

instance (s : ScopedThread κ) (a : ScopeStep κ) : Decidable (s.Allowed a) :=
  match a with
  | .construct call => inferInstanceAs (Decidable (s.state.Restorable call))
  | .destroy _ _ => .isTrue trivial
  | .display _ => .isTrue trivial

/-- Destroying the live objects one after another goes back through the settings
in force before each of them. -/
def Unwinds (now : InForce κ) : List (ScopeFrame κ) → Prop
  | [] => True
  | frame :: rest => frame.object.restores now = frame.before ∧ Unwinds frame.before rest

theorem unwinds_step {s t : ScopedThread κ} {a : ScopeStep κ}
    (hunwinds : Unwinds s.state.inForce s.live) (hallowed : s.Allowed a)
    (hstep : s.step a = some t) : Unwinds t.state.inForce t.live := by
  cases a with
  | construct call =>
      simp only [step, Option.some.injEq] at hstep
      subst hstep
      exact ⟨(s.state.restores_construct_iff call).mpr hallowed, hunwinds⟩
  | destroy printed shown =>
      cases hlive : s.live with
      | nil => simp [step, hlive] at hstep
      | cons frame rest =>
          simp only [step, hlive, Option.some.injEq] at hstep
          subst hstep
          rw [hlive] at hunwinds
          rw [ThreadState.inForce_destroy, hunwinds.1]
          exact hunwinds.2
  | display pch =>
      simp only [step, Option.some.injEq] at hstep
      subst hstep
      rw [ThreadState.inForce_readThreadName]
      exact hunwinds

theorem unwinds_of_run {start : ThreadState κ} {s : ScopedThread κ}
    (hrun : Run step Allowed ⟨start, []⟩ s) : Unwinds s.state.inForce s.live :=
  hrun.invariant (I := fun s => Unwinds s.state.inForce s.live)
    (fun _ _ _ hunwinds hallowed hstep => unwinds_step hunwinds hallowed hstep)
    (show Unwinds start.inForce [] from trivial)

theorem scoped_settings_restored {start : ThreadState κ} {s t : ScopedThread κ}
    {frame : ScopeFrame κ} {rest : List (ScopeFrame κ)} {printed shown : Bool}
    (hrun : Run step Allowed ⟨start, []⟩ s) (hlive : s.live = frame :: rest)
    (hstep : s.step (.destroy printed shown) = some t) :
    t.state.inForce = frame.before := by
  have hunwinds := unwinds_of_run hrun
  rw [hlive] at hunwinds
  simp only [step, hlive, Option.some.injEq] at hstep
  subst hstep
  rw [ThreadState.inForce_destroy]
  exact hunwinds.1

/-- A fresh thread with the channels of `Bool`. -/
def freshThread : ThreadState Bool where
  thread := 7
  settings := ⟨none, none, none⟩
  names := fun _ => none
  subsystem_ne_zero := nofun

def nestedScopes : List (ScopeStep Bool) :=
  [.construct (.threadChannel (ascii "net")), .construct (.threadSubsystem 65),
    .construct (.threadName (some true) (some (ascii "io")) true), .display true,
    .construct (.threadName (some true) none false)]

theorem scoped_settings_restored_nested :
    ∃ s t frame, Run step Allowed ⟨freshThread, []⟩ s ∧ s.live.head? = some frame ∧
      s.step (.destroy false false) = some t ∧ t.state.inForce = frame.before ∧
        frame.before.names true = some (ascii "io") := by
  have hrun : Run step Allowed ⟨freshThread, []⟩
      ((exec (restrict step Allowed) ⟨freshThread, []⟩ nestedScopes).get rfl) :=
    run_of_exec_restrict (Option.some_get _).symm
  exact ⟨_, _, _, hrun, rfl, rfl, scoped_settings_restored hrun rfl rfl, rfl⟩

/-- An override that limits repetitions and changes no flag is lost when the
object nested in it is destroyed. -/
theorem override_limit_lost :
    ¬ ∀ (start : ThreadState Bool) (s t : ScopedThread Bool) (frame : ScopeFrame Bool)
      (rest : List (ScopeFrame Bool)) (printed shown : Bool),
      Reachable step ⟨start, []⟩ s → s.live = frame :: rest →
        s.step (.destroy printed shown) = some t → t.state.inForce = frame.before := by
  intro hall
  have hreach : Reachable step ⟨freshThread, []⟩
      ((exec step ⟨freshThread, []⟩ [.construct (.threadOverride { maxRepetitions := 3 }),
        .construct (.threadOverride {})]).get rfl) :=
    (Run.refl.snoc (a := ScopeStep.construct (.threadOverride { maxRepetitions := 3 }))
      trivial rfl).snoc (a := .construct (.threadOverride {})) trivial rfl
  have hlost := congrArg (fun f => f.override.maxRepetitions)
    (hall _ _ _ _ _ false false hreach rfl rfl)
  exact absurd hlost (by decide)

end ScopedThread

end Logme
