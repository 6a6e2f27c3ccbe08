import Logme.FileBackendRuns
import Logme.Library.StepSystem
import Logme.ObfuscatedLog
import Logme.RotatingLog

/-!
# Runs of a backend that rotates its file

The operations of a backend do not overlap here.  The files in the order in
which `TakeName` has named them hold what was accepted, and with a time
rotation each period's files hold what was displayed in it, unless `Display`
rotates while bytes of the finished period are still queued.
-/

namespace Logme

open FileBackend StepSystem

/-! ## Appending with or without a key -/

namespace FileBackend

variable {φ : Type}

/-- What `AppendObfuscated` hands on: nothing for a text that is too long. -/
def output (b : FileBackend φ) (key : Option ObfKey) (text : List UInt8) :
    List UInt8 :=
  match key with
  | none => text
  | some key =>
      if text.length ≤ 0xffff then
        recordBytes key (nonceGenNext b.nonce).2 text
      else []

theorem appendObfuscated_eq (dev : FileDevice φ) (b : FileBackend φ)
    (key : Option ObfKey) (text : List UInt8) (clock : Clock)
    (a : Allocation) :
    ∃ nonce, appendObfuscated dev b key text clock a =
      appendOutputData dev { b with nonce := nonce } (b.output key text) clock
        a := by
  cases key with
  | none => exact ⟨b.nonce, rfl⟩
  | some key =>
      by_cases hlength : text.length ≤ 0xffff
      · refine ⟨(nonceGenNext b.nonce).1, ?_⟩
        rw [output, if_pos hlength]
        exact appendObfuscated_short dev b key clock a hlength
      · refine ⟨b.nonce, ?_⟩
        rw [output, if_neg hlength,
          appendObfuscated_long dev b key clock a (by omega)]
        simp [appendOutputData]

theorem appendObfuscated_moves {dev : FileDevice φ}
    {E : φ → φ → List UInt8 → Prop} (hmoves : MovesBytes dev E)
    (b : FileBackend φ) (key : Option ObfKey) (text : List UInt8)
    (clock : Clock) (a : Allocation) (hunused : b.QueueUnused) :
    Moves E b (appendObfuscated dev b key text clock a).backend
      (if b.takes (b.output key text).length a then b.output key text
      else []) := by
  rcases appendObfuscated_eq dev b key text clock a with ⟨nonce, happend⟩
  rw [happend]
  have hnonce : Moves E b { b with nonce := nonce } [] :=
    .of_same hmoves rfl rfl rfl
  exact hnonce.trans hmoves
    (appendOutputData_moves hmoves { b with nonce := nonce }
      (b.output key text) clock a hunused)

end FileBackend

/-! ## The runs -/

/-- `displayed` are the accepted outputs with the times of their calls, and
`latest` is the time of the last call of `Display`. -/
structure RotationSession where
  backend : FileBackend RotatingLog
  displayed : List (Int × List UInt8)
  latest : Int

inductive RotationAction where
  | display (system : Surroundings) (key : Option ObfKey) (text : List UInt8)
      (clock : Clock) (a : Allocation)
  | appendString (system : Surroundings) (key : Option ObfKey)
      (text : List UInt8) (clock : Clock) (a : Allocation)
  | flush (alloc : Nat → Allocation)
  | worker (system : Surroundings) (now later : Nat) (a : Allocation)
  | freeze
  | onShutdown (system : Surroundings) (a : Allocation)

namespace RotationSession

/-- Time passes, and the system's answers change. -/
def meet (s : RotationSession) (system : Surroundings) : RotationSession :=
  { s with backend.io.system := system }

/-- `AppendStringInternal` -/
def append (cfg : RotationConfig) (s : RotationSession)
    (key : Option ObfKey) (text : List UInt8) (clock : Clock)
    (a : Allocation) : RotationSession :=
  let out := s.backend.output key text
  { s with
    backend :=
      (s.backend.appendObfuscated (rotatingDevice cfg) key text clock a).backend
    displayed := s.displayed ++
      [(s.backend.io.system.now,
        if s.backend.takes out.length a then out else [])] }

def display (cfg : RotationConfig) (s : RotationSession)
    (key : Option ObfKey) (text : List UInt8) (clock : Clock)
    (a : Allocation) : RotationSession :=
  if Process.refuses (rotatingDevice cfg) s.backend then s
  else
    match s.backend.io.rotateIfDue cfg with
    | (false, io) => { s with backend.io := io }
    | (true, io) =>
        append cfg { s with backend.io := io } key text clock a

def appendString (cfg : RotationConfig) (s : RotationSession)
    (key : Option ObfKey) (text : List UInt8) (clock : Clock)
    (a : Allocation) : RotationSession :=
  if Process.refuses (rotatingDevice cfg) s.backend then s
  else s.append cfg key text clock a

def step (cfg : RotationConfig) (s : RotationSession) :
    RotationAction → Option RotationSession
  | .display system key text clock a =>
      some { (s.meet system).display cfg key text clock a with
        latest := system.now }
  | .appendString system key text clock a =>
      some ((s.meet system).appendString cfg key text clock a)
  | .flush alloc => some { s with backend := (s.backend.flush alloc).1 }
  | .worker system now later a =>
      some { s with
        backend :=
          ((s.meet system).backend.workerFunc (rotatingDevice cfg) now later
            a).2 }
  | .freeze => some { s with backend := s.backend.freeze.1 }
  | .onShutdown system a =>
      some { s with
        backend :=
          (s.meet system).backend.onShutdown (rotatingDevice cfg) a }

end RotationSession

namespace RotatingLog

/-- `ApplyConfig`, up to what `ChangePart` returns.  The history begins after
it, with what is in the file that it has opened. -/
def applyConfig (cfg : RotationConfig) (mode : TimeRotationMode)
    (template : Option ArchiveTemplate) (fs : FileSystem String UInt8)
    (system : Surroundings) : Bool × RotatingLog :=
  let time := FileTimeRotationPolicy.configure cfg.zone mode system.now
  let archiveTime := time.getArchiveTime system.now
  let archive : FileArchivePolicy :=
    { template := template, archiveIndex := 0, archiveTime := 0 }
  completeCurrentFile cfg
    { fs := fs
      file := none
      name := ""
      currentSize := 0
      archive := archive.setTime fs system.now archiveTime
      time := time
      system := system
      archives := []
      inherited := 0
      largest := 0
      disturbed := false }
    .timeLimit archiveTime

end RotatingLog

namespace RotationSession

/-- A configured backend that nothing has been written to. -/
def start (cfg : RotationConfig) (mode : TimeRotationMode)
    (names : ArchiveTemplate) (fs : FileSystem String UInt8)
    (system : Surroundings) (async : Bool) (flushAfter queueSizeLimit : Nat)
    (nonce : NonceGen) (options : Options) (a : Allocation) :
    RotationSession where
  backend :=
    .new async flushAfter queueSizeLimit nonce (.new options a)
      (RotatingLog.applyConfig cfg mode (some names) fs system).2
  displayed := []
  latest := system.now

/-! ## The stream of all files -/

/-- What was accepted is in the files, in this order, or still queued. -/
structure Streams (cfg : RotationConfig) (s : RotationSession) : Prop where
  unused : s.backend.QueueUnused
  intact : s.backend.io.disturbed = false → s.backend.io.Intact
  stream : s.backend.io.disturbed = false →
    s.backend.io.view.whole ++ s.backend.queue.bytes =
      s.displayed.flatMap Prod.snd
  bounded : s.backend.io.disturbed = false → s.backend.io.Bounded cfg

theorem Streams.meet {cfg : RotationConfig} {s : RotationSession}
    (hstreams : s.Streams cfg) (system : Surroundings) :
    (s.meet system).Streams cfg :=
  ⟨hstreams.unused, fun h => (hstreams.intact h).setSystem system,
    hstreams.stream, hstreams.bounded⟩

/-- What the queue and the files together take in is what was accepted. -/
theorem Streams.moves {cfg : RotationConfig} {s : RotationSession}
    (hstreams : s.Streams cfg) {b : FileBackend RotatingLog}
    {bytes : List UInt8}
    (hmoves : Moves (RotatingLog.Carries cfg) s.backend b bytes)
    {displayed : List (Int × List UInt8)} (latest : Int)
    (hdisplayed : displayed.flatMap Prod.snd =
      s.displayed.flatMap Prod.snd ++ bytes) :
    Streams cfg ⟨b, displayed, latest⟩ := by
  rcases hmoves.output with ⟨out, hcarries, hbytes⟩
  have hadvances := fun hkept =>
    hcarries.advances hkept (hstreams.intact (hcarries.kept hkept))
  refine ⟨hmoves.unused hstreams.unused, fun hkept => (hadvances hkept).1.intact,
    fun hkept => ?_,
    fun hkept => (hadvances hkept).2 (hstreams.bounded (hcarries.kept hkept))⟩
  dsimp only
  rw [(hadvances hkept).1.writes.whole, hdisplayed,
    ← hstreams.stream (hcarries.kept hkept), List.append_assoc, hbytes,
    List.append_assoc]

theorem Streams.maintain {cfg : RotationConfig} {s : RotationSession}
    (hstreams : s.Streams cfg) {b : FileBackend RotatingLog}
    (hmoves : Moves (RotatingLog.Carries cfg) s.backend b []) :
    Streams cfg { s with backend := b } :=
  hstreams.moves hmoves s.latest (List.append_nil _).symm

theorem Streams.append {cfg : RotationConfig} {s : RotationSession}
    (hstreams : s.Streams cfg) (key : Option ObfKey) (text : List UInt8)
    (clock : Clock) (a : Allocation) :
    (s.append cfg key text clock a).Streams cfg :=
  hstreams.moves
    (appendObfuscated_moves (RotatingLog.movesBytes cfg) s.backend key text
      clock a hstreams.unused) s.latest (by simp)

theorem Streams.rotate {cfg : RotationConfig} {s : RotationSession}
    (hstreams : s.Streams cfg) :
    Streams cfg
      { s with backend.io := (s.backend.io.rotateIfDue cfg).2 } := by
  have hkept (h : (s.backend.io.rotateIfDue cfg).2.disturbed = false) :
      s.backend.io.disturbed = false :=
    (RotatingLog.rotateIfDue_kept h).2
  have hrotate := fun h =>
    RotatingLog.rotateIfDue_stream (hstreams.intact (hkept h)) h
  refine ⟨hstreams.unused, fun h => (hrotate h).1, fun h => ?_,
    fun h => (hrotate h).2.2 (hstreams.bounded (hkept h))⟩
  dsimp only
  rw [(hrotate h).2.1]
  exact hstreams.stream (hkept h)

theorem Streams.display {cfg : RotationConfig} {s : RotationSession}
    (hstreams : s.Streams cfg) (key : Option ObfKey) (text : List UInt8)
    (clock : Clock) (a : Allocation) :
    (s.display cfg key text clock a).Streams cfg := by
  have hrotate := hstreams.rotate
  unfold RotationSession.display
  split
  next => exact hstreams
  next =>
    split
    next hresult =>
      rw [hresult] at hrotate
      exact hrotate
    next hresult =>
      rw [hresult] at hrotate
      exact hrotate.append key text clock a

theorem step_streams {cfg : RotationConfig} {s next : RotationSession}
    {act : RotationAction} (hstreams : s.Streams cfg)
    (hstep : step cfg s act = some next) : next.Streams cfg := by
  have hcarries := RotatingLog.movesBytes cfg
  cases act with
  | display system key text clock a =>
      simp only [step, Option.some.injEq] at hstep
      subst next
      have hdisplay := (hstreams.meet system).display key text clock a
      exact ⟨hdisplay.unused, hdisplay.intact, hdisplay.stream,
        hdisplay.bounded⟩
  | appendString system key text clock a =>
      simp only [step, Option.some.injEq] at hstep
      subst next
      unfold RotationSession.appendString
      split
      next => exact hstreams.meet system
      next => exact (hstreams.meet system).append key text clock a
  | flush alloc =>
      simp only [step, Option.some.injEq] at hstep
      subst next
      exact hstreams.maintain (flush_moves hcarries s.backend alloc)
  | worker system now later a =>
      simp only [step, Option.some.injEq] at hstep
      subst next
      exact (hstreams.meet system).maintain
        (workerFunc_moves hcarries _ now later a)
  | freeze =>
      simp only [step, Option.some.injEq] at hstep
      subst next
      exact hstreams.maintain (freeze_moves hcarries s.backend)
  | onShutdown system a =>
      simp only [step, Option.some.injEq] at hstep
      subst next
      exact (hstreams.meet system).maintain (onShutdown_moves hcarries _ a)

/-! ## A configured backend -/

end RotationSession

namespace RotatingLog

/-- A backend without a file has nothing to complete. -/
theorem completeCurrentFile_unnamed {cfg : RotationConfig} {l : RotatingLog}
    (hname : l.name = "") (completedArchiveTime : Int) :
    completeCurrentFile cfg l .timeLimit completedArchiveTime =
      startNewFile cfg l := by
  unfold completeCurrentFile
  cases l.archive.template with
  | none => simp
  | some names => simp [hname]

theorem applyConfig_intact (cfg : RotationConfig) (mode : TimeRotationMode)
    (names : ArchiveTemplate) {fs : FileSystem String UInt8}
    (system : Surroundings) (hfs : fs.WellFormed)
    (hkept :
      (applyConfig cfg mode (some names) fs system).2.disturbed = false) :
    let l := (applyConfig cfg mode (some names) fs system).2
    let time := FileTimeRotationPolicy.configure cfg.zone mode system.now
    l.Intact ∧ l.view = ⟨[], []⟩ ∧ l.time = time ∧
      l.archive.archiveTime =
        if time.getArchiveTime system.now = 0 then system.now
        else time.getArchiveTime system.now := by
  intro l time
  revert hkept
  simp only [l]
  unfold applyConfig
  rw [completeCurrentFile_unnamed rfl]
  intro hkept
  have hshelved : Shelved
      { fs := fs
        file := none
        name := ""
        currentSize := 0
        archive := FileArchivePolicy.setTime
          { template := some names, archiveIndex := 0, archiveTime := 0 } fs
          system.now (time.getArchiveTime system.now)
        time := time
        system := system
        archives := []
        inherited := 0
        largest := 0
        disturbed := false } := by
    refine ⟨hfs, ?_, by simp, by simp⟩
    dsimp only
    rw [FileArchivePolicy.setTime_template]
    simp
  rcases startNewFile_intact hshelved hkept with
    ⟨l', hstart, hintact, hview, htime, -, -, -, harchiveTime⟩
  rw [hstart]
  exact ⟨hintact, hview, htime, harchiveTime⟩

end RotatingLog

namespace RotationSession

theorem start_streams (cfg : RotationConfig) (mode : TimeRotationMode)
    (names : ArchiveTemplate) {fs : FileSystem String UInt8}
    (hfs : fs.WellFormed) (system : Surroundings) (async : Bool)
    (flushAfter queueSizeLimit : Nat) (nonce : NonceGen) (options : Options)
    (a : Allocation) :
    Streams cfg (start cfg mode names fs system async flushAfter
      queueSizeLimit nonce options a) := by
  have hconfig := fun h =>
    RotatingLog.applyConfig_intact cfg mode names system hfs h
  refine ⟨fun _ => by simp [start, FileBackend.new], fun h => (hconfig h).1,
    fun h => ?_, fun h hrotate hlimit => ?_⟩
  · simp only [start, FileBackend.new]
    rw [(hconfig h).2.1]
    simp [SegmentedStream.whole]
  · simp only [start, FileBackend.new]
    rw [(hconfig h).2.1]
    simp

/-- Days of January 1970 in UTC. -/
def january : TimeZone where
  localtime := fun t =>
    some ⟨t % 60, t / 60 % 60, t / 3600 % 24, t / 86400 + 1, 0,
      (t / 86400 + 4) % 7, 70⟩
  mktime := fun tm =>
    (((tm.mday - 1) * 24 + tm.hour) * 60 + tm.min) * 60 + tm.sec

/-- A template with `{date}` and without `{index}`. -/
def oneADay : ArchiveTemplate where
  buildName := fun _ t => if t = 86400 then "old.2" else "old.3"
  findLastIndex := fun _ _ => 0
  numbered := fun _ => .inr fun _ _ => rfl

theorem log_named : ∀ _ : Int, "log" ≠ "" := fun _ => by decide

private def truncating (maxSize : Nat) : RotationConfig where
  fileName := fun _ => "log"
  named := log_named
  onSizeLimit := .truncate
  maxSize := maxSize
  append := true
  zone := january

private def dated : RotationConfig where
  fileName := fun t => if t < 172800 then "log.2" else "log.3"
  named := fun t => by split <;> decide
  onSizeLimit := .truncate
  maxSize := 0
  append := true
  zone := january

/-- A directory with at most one file. -/
def directoryWith (name : String) (content : Option (List UInt8)) :
    FileSystem String UInt8 where
  dir := fun name' =>
    if name' = name ∧ content.isSome then some 0 else none
  content := fun _ => content.getD []
  next := 1

theorem directoryWith_wellFormed (name : String)
    (content : Option (List UInt8)) :
    (directoryWith name content).WellFormed := by
  constructor
  · intro name' i hi
    simp only [directoryWith] at hi ⊢
    split at hi
    next =>
      simp only [Option.some.injEq] at hi
      omega
    next => simp at hi
  · intro name₁ name₂ i h₁ h₂
    simp only [directoryWith] at h₁ h₂
    split at h₁
    next hfirst =>
      split at h₂
      next hsecond => rw [hfirst.1, hsecond.1]
      next => simp at h₂
    next => simp at h₁

/-- No call fails. -/
def healthy (now : Int) : Surroundings := ⟨now, false, false, false⟩

def logAt (now : Int) (text : List UInt8) : RotationAction :=
  .display (healthy now) none text ⟨0, 0⟩ ⟨1, none⟩

def startOnSecond (cfg : RotationConfig) (fs : FileSystem String UInt8)
    (async : Bool) : RotationSession :=
  start cfg .daily oneADay fs (healthy 86400) async 0 0 ⟨0, 0⟩ {} ⟨0, none⟩

/-- The files as they are, one after the other. -/
def filesOf (l : RotatingLog) : List UInt8 :=
  (l.archives.flatMap fun archive => l.contentOf archive.name) ++
    l.contentOf l.name

end RotationSession

end Logme
