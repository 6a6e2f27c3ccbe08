import Logme.RotationRuns

/-!
# The files of a period

`Display` completes the file of a finished period before it appends.  The
bytes that an asynchronous backend has queued until then go to the next file.
If the queue is empty whenever `Display` rotates, then the archives of each
period, and for the current one also the active file and the queue, hold what
was displayed in it.
-/

namespace Logme

open FileBackend StepSystem

namespace RotationSession

/-- What was accepted in a period. -/
def displayedIn (cfg : RotationConfig) (mode : TimeRotationMode)
    (s : RotationSession) (period : Int) : List UInt8 :=
  (s.displayed.filter fun d =>
    periodOf cfg.zone mode d.1 = period).flatMap Prod.snd

/-- What is in the files of a period, each behind what was in it when it was
opened. -/
def storedIn (s : RotationSession) (period : Int) : List UInt8 :=
  s.backend.io.view.under period ++
    if period = s.backend.io.time.periodStart then
      s.backend.io.view.active ++ s.backend.queue.bytes
    else []

/-- The calls of `Display` are made in the order of their times, and there
are no other ones that append. -/
def InOrder (s : RotationSession) : RotationAction → Prop
  | .display system _ _ _ _ => s.latest ≤ system.now
  | .appendString _ _ _ _ _ => False
  | _ => True

/-- `Display` does not rotate while bytes are queued. -/
def QueueWritten (cfg : RotationConfig) (s : RotationSession) :
    RotationAction → Prop
  | .display system _ _ _ _ =>
      Process.refuses (rotatingDevice cfg) s.backend = false →
        (s.backend.io.time.shouldRotate cfg.zone system.now).1 ≠ none →
          s.backend.queue.bytes = []
  | _ => True

instance (s : RotationSession) : ∀ act, Decidable (s.InOrder act)
  | .display system _ _ _ _ =>
      inferInstanceAs (Decidable (s.latest ≤ system.now))
  | .appendString _ _ _ _ _ => inferInstanceAs (Decidable False)
  | .flush _ => inferInstanceAs (Decidable True)
  | .worker _ _ _ _ => inferInstanceAs (Decidable True)
  | .freeze => inferInstanceAs (Decidable True)
  | .onShutdown _ _ => inferInstanceAs (Decidable True)

instance (cfg : RotationConfig) (s : RotationSession) :
    ∀ act, Decidable (s.QueueWritten cfg act)
  | .display system _ _ _ _ =>
      inferInstanceAs (Decidable
        (Process.refuses (rotatingDevice cfg) s.backend = false →
          (s.backend.io.time.shouldRotate cfg.zone system.now).1 ≠ none →
            s.backend.queue.bytes = []))
  | .appendString _ _ _ _ _ => inferInstanceAs (Decidable True)
  | .flush _ => inferInstanceAs (Decidable True)
  | .worker _ _ _ _ => inferInstanceAs (Decidable True)
  | .freeze => inferInstanceAs (Decidable True)
  | .onShutdown _ _ => inferInstanceAs (Decidable True)

/-- The time at which the current period was determined. -/
structure Current (cfg : RotationConfig) (mode : TimeRotationMode)
    (start latest : Int) (l : RotatingLog) : Prop where
  intact : l.Intact
  inPeriod : l.InPeriod
  determined : ∃ t, start ≤ t ∧ t ≤ latest ∧
    l.time = .configure cfg.zone mode t

structure OnTime (cfg : RotationConfig) (mode : TimeRotationMode)
    (start latest : Int) (s : RotationSession) : Prop where
  unused : s.backend.QueueUnused
  current : s.backend.io.disturbed = false →
    Current cfg mode start latest s.backend.io
  placed : s.backend.io.disturbed = false →
    ∀ period, s.storedIn period = s.displayedIn cfg mode period

theorem Current.mono {cfg : RotationConfig} {mode : TimeRotationMode}
    {start latest latest' : Int} {l : RotatingLog}
    (hcurrent : Current cfg mode start latest l) (hle : latest ≤ latest') :
    Current cfg mode start latest' l := by
  rcases hcurrent.determined with ⟨t, hstart, hlatest, htime⟩
  exact ⟨hcurrent.intact, hcurrent.inPeriod,
    t, hstart, hlatest.trans hle, htime⟩

theorem Current.setSystem {cfg : RotationConfig} {mode : TimeRotationMode}
    {start latest : Int} {l : RotatingLog}
    (hcurrent : Current cfg mode start latest l) (system : Surroundings) :
    Current cfg mode start latest { l with system := system } :=
  ⟨hcurrent.intact.setSystem system,
    ⟨hcurrent.inPeriod.mode, hcurrent.inPeriod.started,
      hcurrent.inPeriod.archiveTime⟩, hcurrent.determined⟩

theorem OnTime.meet {cfg : RotationConfig} {mode : TimeRotationMode}
    {start latest : Int} {s : RotationSession}
    (honTime : s.OnTime cfg mode start latest) (system : Surroundings) :
    (s.meet system).OnTime cfg mode start latest :=
  ⟨honTime.unused, fun h => (honTime.current h).setSystem system,
    honTime.placed⟩

theorem OnTime.mono {cfg : RotationConfig} {mode : TimeRotationMode}
    {start latest latest' : Int} {s : RotationSession}
    (honTime : s.OnTime cfg mode start latest) (hle : latest ≤ latest') :
    s.OnTime cfg mode start latest' :=
  ⟨honTime.unused, fun h => (honTime.current h).mono hle, honTime.placed⟩

/-- What is taken in goes to the files of the current period. -/
theorem storedIn_advances {cfg : RotationConfig} {s : RotationSession}
    {b : FileBackend RotatingLog} {out bytes : List UInt8}
    (hperiod : s.backend.io.InPeriod)
    (hadvances : RotatingLog.Advances cfg s.backend.io b.io out)
    (hbytes : out ++ b.queue.bytes = s.backend.queue.bytes ++ bytes)
    (displayed : List (Int × List UInt8)) (latest period : Int) :
    storedIn ⟨b, displayed, latest⟩ period =
      s.storedIn period ++
        if period = s.backend.io.time.periodStart then bytes else [] := by
  have honly : ∀ t,
      (s.backend.io.InPeriod → t = s.backend.io.time.periodStart) →
        t = s.backend.io.time.periodStart := fun t h => h hperiod
  unfold storedIn
  dsimp only
  rw [hadvances.time]
  by_cases hsame : period = s.backend.io.time.periodStart
  · rw [if_pos hsame, if_pos hsame, if_pos hsame, hsame]
    have hself := hadvances.writes.under_self honly
    rw [← List.append_assoc, hself, List.append_assoc, hbytes]
    simp only [List.append_assoc]
  · rw [if_neg hsame, if_neg hsame, if_neg hsame, List.append_nil,
      List.append_nil, List.append_nil]
    exact hadvances.writes.under_of_ne fun h => hsame (h hperiod)

theorem OnTime.moves {cfg : RotationConfig} {mode : TimeRotationMode}
    {start latest : Int} {s : RotationSession}
    (honTime : s.OnTime cfg mode start latest) {b : FileBackend RotatingLog} {bytes : List UInt8}
    (hmoves : Moves (RotatingLog.Carries cfg) s.backend b bytes)
    {displayed : List (Int × List UInt8)}
    (hdisplayed : s.backend.io.disturbed = false → ∀ period,
      displayedIn cfg mode ⟨b, displayed, s.latest⟩ period =
        s.displayedIn cfg mode period ++
          if period = s.backend.io.time.periodStart then bytes else []) :
    OnTime cfg mode start latest ⟨b, displayed, s.latest⟩ := by
  rcases hmoves.output with ⟨out, hcarries, hbytes⟩
  have hcurrent := fun hkept => honTime.current (hcarries.kept hkept)
  have hadvances := fun hkept =>
    (hcarries.advances hkept (hcurrent hkept).intact).1
  refine ⟨hmoves.unused honTime.unused, fun hkept => ?_,
    fun hkept period => ?_⟩
  · refine ⟨(hadvances hkept).intact,
      (hadvances hkept).inPeriod (hcurrent hkept).inPeriod, ?_⟩
    dsimp only
    rw [(hadvances hkept).time]
    exact (hcurrent hkept).determined
  · rw [storedIn_advances (hcurrent hkept).inPeriod (hadvances hkept) hbytes,
      hdisplayed (hcarries.kept hkept),
      honTime.placed (hcarries.kept hkept)]

theorem OnTime.maintain {cfg : RotationConfig} {mode : TimeRotationMode}
    {start latest : Int} {s : RotationSession}
    (honTime : s.OnTime cfg mode start latest) {b : FileBackend RotatingLog}
    (hmoves : Moves (RotatingLog.Carries cfg) s.backend b []) :
    OnTime cfg mode start latest { s with backend := b } :=
  honTime.moves hmoves fun _ period => by
    rw [ite_self, List.append_nil]
    rfl

/-- An append in the current period. -/
theorem OnTime.append {cfg : RotationConfig} {mode : TimeRotationMode}
    {start latest : Int} {s : RotationSession}
    (honTime : s.OnTime cfg mode start latest)
    (hnow : s.backend.io.disturbed = false →
      periodOf cfg.zone mode s.backend.io.system.now =
        s.backend.io.time.periodStart)
    (key : Option ObfKey) (text : List UInt8) (clock : Clock)
    (a : Allocation) :
    (s.append cfg key text clock a).OnTime cfg mode start latest := by
  refine honTime.moves
    (appendObfuscated_moves (RotatingLog.movesBytes cfg) s.backend key text
      clock a honTime.unused) fun hkept period => ?_
  simp only [displayedIn, List.filter_append, List.flatMap_append]
  congr 1
  simp only [List.filter_cons, List.filter_nil, hnow hkept]
  by_cases hsame : s.backend.io.time.periodStart = period
  · simp [hsame]
  · simp [hsame, Ne.symm hsame]

/-- With an empty queue, the file that is completed is all that the current
period has. -/
theorem storedIn_cut {s : RotationSession} {l : RotatingLog}
    (hview : l.view = s.backend.io.view.cut s.backend.io.time.periodStart)
    (hempty : s.backend.queue.bytes = []) (period : Int) :
    storedIn { s with backend.io := l } period = s.storedIn period := by
  unfold storedIn
  dsimp only
  rw [hview, hempty]
  have hnothing : (if period = l.time.periodStart then
      (s.backend.io.view.cut s.backend.io.time.periodStart).active ++ []
      else []) = [] := by
    split <;> rfl
  rw [hnothing, List.append_nil]
  by_cases hsame : period = s.backend.io.time.periodStart
  · rw [if_pos hsame, hsame, SegmentedStream.under_cut_self, List.append_nil]
  · rw [if_neg hsame, SegmentedStream.under_cut_of_ne _ hsame,
      List.append_nil]

/-- After its rotation, `Display` appends in the period of its time. -/
theorem OnTime.rotate {cfg : RotationConfig} {mode : TimeRotationMode}
    {start : Int} {s : RotationSession}
    (honTime : s.OnTime cfg mode start s.backend.io.system.now)
    (hmode : mode ≠ .none)
    (hregular : RegularPeriods cfg.zone mode start)
    (hwritten :
      (s.backend.io.time.shouldRotate cfg.zone
          s.backend.io.system.now).1 ≠ none →
        s.backend.queue.bytes = [])
    (hkept : (s.backend.io.rotateIfDue cfg).2.disturbed = false) :
    Current cfg mode start s.backend.io.system.now
        (s.backend.io.rotateIfDue cfg).2 ∧
      periodOf cfg.zone mode (s.backend.io.rotateIfDue cfg).2.system.now =
        (s.backend.io.rotateIfDue cfg).2.time.periodStart ∧
      ∀ period,
        storedIn { s with backend.io := (s.backend.io.rotateIfDue cfg).2 }
            period =
          s.storedIn period := by
  have hcurrent :=
    honTime.current (RotatingLog.rotateIfDue_kept hkept).2
  rcases hcurrent.determined with ⟨t, hstart, hlatest, htime⟩
  have hmodeNow : s.backend.io.time.mode ≠ .none := hcurrent.inPeriod.mode
  have hnext : s.backend.io.time.nextPeriodStart ≠ 0 := by
    rw [htime]
    exact (hregular.nonzero t hstart).2
  by_cases hnow :
      s.backend.io.system.now < s.backend.io.time.nextPeriodStart
  · have hdue := FileTimeRotationPolicy.shouldRotate_before cfg.zone
      hmodeNow hnext hnow
    rw [RotatingLog.rotateIfDue_of_none hdue]
    refine ⟨hcurrent, ?_, fun _ => rfl⟩
    rw [htime] at hnow ⊢
    exact hregular.same t _ hstart hlatest hnow
  · have hperiodStart := hcurrent.inPeriod.started
    have hdue := FileTimeRotationPolicy.shouldRotate_after cfg.zone
      hmodeNow hnext hperiodStart (not_lt.mp hnow)
    have hempty := hwritten (by rw [hdue]; simp)
    rcases RotatingLog.rotateIfDue_of_some hcurrent.intact hdue hkept with
      ⟨l', hresult, hcompleted⟩
    have hmodeSame : s.backend.io.time.mode = mode := by
      rw [htime]
      exact FileTimeRotationPolicy.configure_mode _ _ _
    have hlast : start ≤ s.backend.io.system.now := hstart.trans hlatest
    have htime' : l'.time = .configure cfg.zone mode
        s.backend.io.system.now := by
      rw [hcompleted.time, ← hmodeSame]
    have hstarted' : l'.time.periodStart ≠ 0 := by
      rw [htime']
      exact (hregular.nonzero _ hlast).1
    have hmode' : l'.time.mode ≠ .none := by
      rw [htime', FileTimeRotationPolicy.configure_mode]
      exact hmode
    rw [hresult]
    refine ⟨⟨hcompleted.intact, ⟨hmode', hstarted', ?_⟩,
      _, hlast, le_refl _, htime'⟩, ?_, fun period => ?_⟩
    · have harchiveTime := hcompleted.archiveTime
      rw [← hcompleted.time,
        FileTimeRotationPolicy.getArchiveTime_eq hmode' hstarted',
        if_neg hstarted'] at harchiveTime
      exact harchiveTime
    · rw [htime', hcompleted.system]
      rfl
    · have hview := hcompleted.view
      rw [RotatingLog.completionTime, if_pos hperiodStart,
        if_neg hperiodStart] at hview
      exact storedIn_cut hview hempty period

theorem OnTime.display {cfg : RotationConfig} {mode : TimeRotationMode}
    {start : Int} {s : RotationSession}
    (honTime : s.OnTime cfg mode start s.backend.io.system.now)
    (hmode : mode ≠ .none)
    (hregular : RegularPeriods cfg.zone mode start)
    (hwritten : Process.refuses (rotatingDevice cfg) s.backend = false →
      (s.backend.io.time.shouldRotate cfg.zone
          s.backend.io.system.now).1 ≠ none →
        s.backend.queue.bytes = [])
    (key : Option ObfKey) (text : List UInt8) (clock : Clock)
    (a : Allocation) :
    (s.display cfg key text clock a).OnTime cfg mode start
      s.backend.io.system.now := by
  unfold RotationSession.display
  split
  next => exact honTime
  next hrefuses =>
    have hrotate :=
      honTime.rotate hmode hregular (hwritten (by simpa using hrefuses))
    have hafter : OnTime cfg mode start s.backend.io.system.now
        { s with backend.io := (s.backend.io.rotateIfDue cfg).2 } := by
      refine ⟨honTime.unused, fun hkept => (hrotate hkept).1,
        fun hkept period => ?_⟩
      rw [(hrotate hkept).2.2 period]
      exact honTime.placed (RotatingLog.rotateIfDue_kept hkept).2 period
    have hnow := fun hkept => (hrotate hkept).2.1
    split
    next hresult =>
      rw [hresult] at hafter
      exact hafter
    next hresult =>
      rw [hresult] at hafter hnow
      exact hafter.append hnow key text clock a

theorem step_onTime {cfg : RotationConfig} {mode : TimeRotationMode}
    {start : Int} {s next : RotationSession} {act : RotationAction}
    (hmode : mode ≠ .none)
    (hregular : RegularPeriods cfg.zone mode start)
    (honTime : s.OnTime cfg mode start s.latest)
    (hok : s.InOrder act ∧ s.QueueWritten cfg act)
    (hstep : step cfg s act = some next) :
    next.OnTime cfg mode start next.latest := by
  have hcarries := RotatingLog.movesBytes cfg
  cases act with
  | display system key text clock a =>
      simp only [step, Option.some.injEq] at hstep
      subst next
      have hdisplay := OnTime.display (s := s.meet system)
        ((honTime.mono hok.1).meet system) hmode hregular hok.2 key text clock
        a
      exact ⟨hdisplay.unused, hdisplay.current, hdisplay.placed⟩
  | appendString system key text clock a => exact hok.1.elim
  | flush alloc =>
      simp only [step, Option.some.injEq] at hstep
      subst next
      exact honTime.maintain (flush_moves hcarries s.backend alloc)
  | worker system now later a =>
      simp only [step, Option.some.injEq] at hstep
      subst next
      exact (honTime.meet system).maintain
        (workerFunc_moves hcarries _ now later a)
  | freeze =>
      simp only [step, Option.some.injEq] at hstep
      subst next
      exact honTime.maintain (freeze_moves hcarries s.backend)
  | onShutdown system a =>
      simp only [step, Option.some.injEq] at hstep
      subst next
      exact (honTime.meet system).maintain (onShutdown_moves hcarries _ a)

theorem start_onTime (cfg : RotationConfig) {mode : TimeRotationMode}
    (names : ArchiveTemplate) {fs : FileSystem String UInt8}
    (hfs : fs.WellFormed) (system : Surroundings) (async : Bool)
    (flushAfter queueSizeLimit : Nat) (nonce : NonceGen) (options : Options)
    (a : Allocation) (hmode : mode ≠ .none)
    (hregular : RegularPeriods cfg.zone mode system.now) :
    (start cfg mode names fs system async flushAfter queueSizeLimit nonce
      options a).OnTime cfg mode system.now system.now := by
  have hconfig := fun h =>
    RotatingLog.applyConfig_intact cfg mode names system hfs h
  have hstarted :
      (FileTimeRotationPolicy.configure cfg.zone mode
        system.now).periodStart ≠ 0 :=
    (hregular.nonzero system.now (le_refl _)).1
  have hmode' :
      (FileTimeRotationPolicy.configure cfg.zone mode system.now).mode ≠
        .none := by
    rw [FileTimeRotationPolicy.configure_mode]
    exact hmode
  have harchiveTime :=
    FileTimeRotationPolicy.getArchiveTime_eq hmode' hstarted system.now
  refine ⟨fun _ => by simp [start, FileBackend.new], fun h => ?_,
    fun h period => ?_⟩
  · rcases hconfig h with ⟨hintact, -, htime, harchive⟩
    rw [harchiveTime, if_neg hstarted] at harchive
    refine ⟨hintact, ⟨?_, ?_, ?_⟩, _, le_refl _, le_refl _, htime⟩
    · simp only [start, FileBackend.new]
      rw [htime]
      exact hmode'
    · simp only [start, FileBackend.new]
      rw [htime]
      exact hstarted
    · simp only [start, FileBackend.new]
      rw [harchive, htime]
  · rcases hconfig h with ⟨-, hview, -, -⟩
    simp only [storedIn, displayedIn, start, FileBackend.new]
    rw [hview]
    simp [SegmentedStream.under]

theorem january_configure (t : Int) :
    FileTimeRotationPolicy.configure january .daily t =
      ⟨.daily, t / 86400 * 86400, (t / 86400 + 1) * 86400⟩ := by
  have hstart : buildPeriodStart january .daily t = t / 86400 * 86400 := by
    simp [buildPeriodStart, january]
    omega
  have hnext : buildNextPeriodStart january .daily (t / 86400 * 86400) =
      (t / 86400 + 1) * 86400 := by
    simp [buildNextPeriodStart, january]
    omega
  unfold FileTimeRotationPolicy.configure FileTimeRotationPolicy.reset
  dsimp only
  rw [if_neg (by simp), hstart, if_neg (by omega), hnext, if_neg (by omega)]

theorem january_regular : RegularPeriods january .daily 86400 where
  same := by
    intro t u ht hle hlt
    rw [nextPeriodOf, january_configure] at hlt
    rw [periodOf, periodOf, january_configure, january_configure]
    dsimp only at hlt ⊢
    omega
  nonzero := by
    intro t ht
    rw [periodOf, nextPeriodOf, january_configure]
    dsimp only
    omega

private def daily : RotationConfig where
  fileName := fun _ => "log"
  named := log_named
  onSizeLimit := .truncate
  maxSize := 0
  append := true
  zone := january

private def writeAtNight : List RotationAction :=
  [.flush fun _ => ⟨2, none⟩, .worker (healthy 172799) 0 0 ⟨3, none⟩]

private def writeInTheMorning : List RotationAction :=
  [.flush fun _ => ⟨2, none⟩, .worker (healthy 172801) 0 0 ⟨3, none⟩]

end RotationSession

end Logme
