import Logme.DoLog

/-!
# The overloads of `Logger::Log`

The arguments of a log statement select an overload.  The format overloads
prepare the context and call `DoLog`.  The stream overloads prepare a context
that is copied into a `Stream`; when the stream is destroyed its text is logged
through the format overload for a channel name and an override.
-/

namespace Logme

/-! ## Settings of a thread -/

/-- The thread channel, subsystem and override, where they are installed. -/
structure ThreadSettings where
  channel : Option Name
  subsystem : Option Nat
  override : Option Override

namespace ThreadSettings

def isSubsystemDefined (t : ThreadSettings) : Bool := t.subsystem.isSome

def getThreadOverride (t : ThreadSettings) : Override := t.override.getD {}

end ThreadSettings

namespace Context

def applyThreadChannel (context : Context) (t : ThreadSettings) : Context :=
  { context with channel := t.channel.getD context.channel }

def applyThreadSubsystem (context : Context) (t : ThreadSettings) : Context :=
  { context with subsystem := t.subsystem.getD context.subsystem }

def setChannel (context : Context) (id : Name) : Context :=
  { context with channel := id }

def setCh (context : Context) (ch : Option Nat) : Context :=
  { context with ch := ch }

def setSubsystem (context : Context) (sid : Nat) : Context :=
  { context with subsystem := sid }

def setOvr (context : Context) (ovr : Override) : Context :=
  { context with ovr := some ovr }

def setText (context : Context) (text : List UInt8) : Context :=
  { context with text := some text }

end Context

/-! ## Log statements -/

/-- What a log macro passes to `Dispatch` besides the arguments: the level, the
visible `CH` and `SUBSID`, and the cache of a collapse macro. -/
structure CallSite where
  level : Level
  channel : Name
  subsystem : Nat
  collapseCache : Option CollapseCache

/-- The arguments before the text, in any of the orders that are accepted. -/
inductive LogArguments where
  | none
  | ovr (ovr : Override)
  | ovrSid (ovr : Override) (sid : Nat)
  | id (name : Name)
  | ch (ch : Option Nat)
  | idSid (name : Name) (sid : Nat)
  | chSid (ch : Option Nat) (sid : Nat)
  | idOvr (name : Name) (ovr : Override)
  | chOvr (ch : Option Nat) (ovr : Override)
  | idSidOvr (name : Name) (sid : Nat) (ovr : Override)
  | chSidOvr (ch : Option Nat) (sid : Nat) (ovr : Override)

namespace LogArguments

/-- The explicit subsystem. -/
def sid : LogArguments → Option Nat
  | .ovrSid _ sid => some sid
  | .idSid _ sid => some sid
  | .chSid _ sid => some sid
  | .idSidOvr _ sid _ => some sid
  | .chSidOvr _ sid _ => some sid
  | _ => Option.none

/-- `MakeParams`: the channel and the subsystem it takes from the arguments. -/
def makeParams : LogArguments → Option Name × Nat
  | .id name => (some name, 0)
  | .idOvr name _ => (some name, 0)
  | .idSid name sid => (some name, sid)
  | .idSidOvr name sid _ => (some name, sid)
  | _ => (Option.none, 0)

end LogArguments

/-- The context that `Dispatch` and `DispatchCollapse` construct. -/
def CallSite.context (site : CallSite) (args : LogArguments) : Context where
  level := site.level
  subsystem :=
    if args.makeParams.2 = 0 then site.subsystem else args.makeParams.2
  ovr := none
  ch := none
  channel := args.makeParams.1.getD site.channel
  text := none
  collapseCache := site.collapseCache
  collapseRepeatCount := 0

/-! ## Format overloads -/

/-- The context that a format overload prepares. -/
def formatContext (t : ThreadSettings) (context : Context) : LogArguments → Context
  | .none =>
      ((context.setOvr t.getThreadOverride).applyThreadChannel t).applyThreadSubsystem t
  | .ovr ovr => ((context.setOvr ovr).applyThreadChannel t).applyThreadSubsystem t
  | .ovrSid ovr sid => ((context.setSubsystem sid).setOvr ovr).applyThreadChannel t
  | .id id =>
      ((context.setChannel id).setOvr t.getThreadOverride).applyThreadSubsystem t
  | .ch ch => ((context.setCh ch).setOvr t.getThreadOverride).applyThreadSubsystem t
  | .idSid id sid =>
      ((context.setChannel id).setSubsystem sid).setOvr t.getThreadOverride
  | .chSid ch sid => ((context.setCh ch).setSubsystem sid).setOvr t.getThreadOverride
  | .idOvr id ovr => ((context.setChannel id).setOvr ovr).applyThreadSubsystem t
  | .chOvr ch ovr => ((context.setCh ch).setOvr ovr).applyThreadSubsystem t
  | .idSidOvr id sid ovr => ((context.setChannel id).setSubsystem sid).setOvr ovr
  | .chSidOvr ch sid ovr => ((context.setCh ch).setSubsystem sid).setOvr ovr

/-- The early return of the overloads for a channel pointer without a
subsystem; `ShouldSkipStdFormat` is the same test. -/
def Logger.skips (l : Logger) (t : ThreadSettings) (context : Context)
    (ch : Option Nat) : Bool :=
  match ch.bind fun c => l.heap[c]? with
  | none => false
  | some channel =>
      decide (context.level < .error) &&
        !(l.hasSubsystemLevelOverrides &&
          (decide (context.subsystem ≠ 0) || t.isSubsystemDefined)) &&
        !l.isOutputActive channel context

def Logger.returnsEarly (l : Logger) (t : ThreadSettings) (context : Context) :
    LogArguments → Bool
  | .ch ch => l.skips t context ch
  | .chOvr ch _ => l.skips t context ch
  | _ => false

/-- The context with which a format overload calls `DoLog`, if it does. -/
def Logger.formatLog (l : Logger) (t : ThreadSettings) (context : Context)
    (args : LogArguments) (text : List UInt8) : Option Context :=
  if l.shutdownCalled || l.returnsEarly t context args then none
  else some ((formatContext t context args).setText text)

/-! ## Stream overloads -/

/-- The context that a stream overload prepares. -/
def streamContext (t : ThreadSettings) (context : Context) : LogArguments → Context
  | .none =>
      ((context.setOvr t.getThreadOverride).applyThreadChannel t).applyThreadSubsystem t
  | .ovr ovr => ((context.setOvr ovr).applyThreadChannel t).applyThreadSubsystem t
  | .ovrSid ovr sid => ((context.setOvr ovr).setSubsystem sid).applyThreadChannel t
  | .id id =>
      ((context.setChannel id).setOvr t.getThreadOverride).applyThreadSubsystem t
  | .ch ch => ((context.setCh ch).setOvr t.getThreadOverride).applyThreadSubsystem t
  | .idSid id sid =>
      ((context.setChannel id).setSubsystem sid).setOvr t.getThreadOverride
  | .chSid ch sid => ((context.setCh ch).setSubsystem sid).setOvr t.getThreadOverride
  | .idOvr id ovr => ((context.setChannel id).setOvr ovr).applyThreadSubsystem t
  | .chOvr ch ovr => ((context.setCh ch).setOvr ovr).applyThreadSubsystem t
  | .idSidOvr id sid ovr => ((context.setChannel id).setSubsystem sid).setOvr ovr
  | .chSidOvr ch sid ovr => ((context.setCh ch).setSubsystem sid).setOvr ovr

/-- The constructor of `Stream` with `InitStreamContext`: a new context that
takes over everything but the collapse cache. -/
def initStreamContext (src : Context) : Context :=
  { src with text := none, collapseCache := none, collapseRepeatCount := 0 }

/-- The destructor of `Stream`: the call it makes.  The channel of the context
is never null. -/
def streamArguments (context : Context) : LogArguments :=
  match context.ovr with
  | some ovr => .idOvr context.channel ovr
  | none => .id context.channel

/-- The context with which the destructor's overload calls `DoLog`, if it
does. -/
def Logger.streamLog (l : Logger) (t : ThreadSettings) (context : Context)
    (args : LogArguments) (text : List UInt8) : Option Context :=
  if text = [] then none
  else
    let output := initStreamContext (streamContext t context args)
    l.formatLog t output (streamArguments output) text

/-! ## Agreement -/

theorem streamContext_eq (t : ThreadSettings) (context : Context)
    (args : LogArguments) : streamContext t context args = formatContext t context args := by
  cases args <;> rfl

theorem formatContext_ovr (t : ThreadSettings) (context : Context)
    (args : LogArguments) : (formatContext t context args).ovr.isSome := by
  cases args <;> rfl

@[simp] theorem formatContext_collapseCache (t : ThreadSettings) (context : Context)
    (args : LogArguments) :
    (formatContext t context args).collapseCache = context.collapseCache := by
  cases args <;> rfl

/-- The subsystem of a format record: the explicit one, else the one of the
thread, else that of the context. -/
theorem formatContext_subsystem (t : ThreadSettings) (context : Context)
    (args : LogArguments) :
    (formatContext t context args).subsystem =
      args.sid.getD (t.subsystem.getD context.subsystem) := by
  cases args <;> rfl

@[simp] theorem formatContext_collapseRepeatCount (t : ThreadSettings)
    (context : Context) (args : LogArguments) :
    (formatContext t context args).collapseRepeatCount = context.collapseRepeatCount := by
  cases args <;> rfl

/-- What the destructor of a stream changes in the context that its overload
has prepared. -/
theorem streamLog_eq (l : Logger) (t : ThreadSettings) (context : Context)
    (args : LogArguments) {text : List UInt8} (htext : text ≠ [])
    (hrunning : l.shutdownCalled = false) :
    l.streamLog t context args text =
      some (((initStreamContext (formatContext t context args)).applyThreadSubsystem t).setText
        text) := by
  have hovr := formatContext_ovr t context args
  rw [← streamContext_eq] at hovr ⊢
  obtain ⟨ovr, hovr⟩ := Option.isSome_iff_exists.mp hovr
  have hargs : streamArguments (initStreamContext (streamContext t context args)) =
      .idOvr (streamContext t context args).channel ovr := by
    rw [streamArguments, initStreamContext]
    simp only [hovr]
  rw [Logger.streamLog, if_neg htext]
  dsimp only
  rw [hargs, Logger.formatLog, hrunning]
  simp [Logger.returnsEarly, formatContext, initStreamContext, Context.setOvr,
    Context.setChannel, hovr]

end Logme
