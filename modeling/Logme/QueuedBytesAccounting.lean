import Logme.BufferQueueThreads
import Logme.FileBackendInterleaving
import Mathlib.Data.List.Perm.Subperm

/-!
# `QueuedBytes` counts, and `Flush` waits for enough

The counter is raised after the bytes are visible to the worker and lowered
when a batch has been written.  The bytes that are in the queue and not yet
counted are a suffix of the current buffer, because the appender that is
about to count them still holds `DataLock`; so the worker retires counted
bytes only.
-/

namespace Logme

open StepSystem BufferQueue

variable {τ β : Type}

/-- Inside `AppendOutputData`, which holds `DataLock`. -/
def CallerPc.appends : CallerPc β → Bool
  | .loadFlushTime _ => true
  | .append _ _ => true
  | .appending _ => true
  | .count _ _ => true
  | .getUsedBuffers _ _ => true
  | .reloadFlushTime _ _ => true
  | .setFirstWriteTime _ _ => true
  | .requestFlush _ flush => flush.isNone
  | .exchange _ _ flush => flush.isNone
  | .unlock => true
  | _ => false

/-- The bytes that the caller has put into the queue and not counted yet. -/
def CallerPc.uncounted : CallerPc β → BufferQueue.Pc β → List β
  | .appending text, pc => if pc.appended then text else []
  | .count text _, _ => text
  | _, _ => []

/-- What had been counted when the caller's `Flush` started. -/
def CallerPc.flush? : CallerPc β → Option (List β)
  | .requestFlush _ flush => flush
  | .exchange _ _ flush => flush
  | .publish flush => some flush
  | .wait flush => some flush
  | _ => none

def CallerPc.runs : CallerPc β → Op β → Prop
  | .appending text, op => ∃ time, op = .append text time
  | .publish _, op => op = .publishCurrent
  | _, _ => False

def WorkerPc.runs : WorkerPc → Op β → Prop
  | .publish _, op => op = .publishCurrent
  | _, _ => False

/-- The worker neither holds a batch to retire nor is inside the queue. -/
def WorkerPc.apart : WorkerPc → Bool
  | .write _ => false
  | .retire _ => false
  | .publish _ => false
  | _ => true

theorem WorkerPc.apart_ite {p q : WorkerPc} (c : Prop) [Decidable c]
    (hp : p.apart = true) (hq : q.apart = true) :
    (if c then p else q).apart = true := by
  split
  next => exact hp
  next => exact hq

theorem WorkerPc.loop_apart (loops : Nat) (forceFlush : Bool) :
    (WorkerPc.loop loops forceFlush).apart = true := by
  cases loops <;> rfl

theorem WorkerPc.clearing_apart (expected : Nat) :
    (WorkerPc.clearing expected).apart = true := by
  exact WorkerPc.apart_ite _ rfl rfl

namespace SharedBackend

def runs (s : SharedBackend τ β) : Thread τ → Op β → Prop
  | .worker, op => s.worker.runs op
  | .client t, op => (s.caller t).runs op

def uncounted (s : SharedBackend τ β) : List β :=
  s.system.accepted.drop s.counted.length

/-- The batch that the worker has taken and not retired. -/
def batch (s : SharedBackend τ β) : List β :=
  match s.worker with
  | .write _ => s.inHandBytes
  | .retire _ => s.inHandBytes
  | _ => []

/-- The part of the batch that has been handed to a write. -/
def handed (s : SharedBackend τ β) : List β :=
  match s.worker with
  | .retire _ => s.inHandBytes
  | _ => []

/-! ## The invariant -/

structure CallersInv (s : SharedBackend τ β) : Prop where
  queue : s.system.Inv
  conserved : s.system.view.content.Perm s.system.accepted
  runs : ∀ x op, (s.system.pc x).op? = some op → s.runs x op
  releasing : ∀ x, (s.system.pc x).op? = some .publishCurrent →
    (s.system.pc x).releasing = true → s.system.dataLock = some x
  lock : ∀ t, (s.caller t).appends = true →
    s.system.dataLock = some (.client t)
  counted : s.counted.IsPrefix s.system.accepted
  suffix : s.uncounted.IsSuffix s.system.queue.current.data
  pending : ∀ t, (s.caller t).appends = true →
    s.uncounted = (s.caller t).uncounted (s.system.pc (.client t))
  settled : s.uncounted ≠ [] → ∃ t, (s.caller t).appends = true
  flushes : ∀ t flush, (s.caller t).flush? = some flush →
    flush.IsPrefix s.counted

structure WorkerInv (s : SharedBackend τ β) : Prop where
  exact : s.queuedBytes + s.retired.length = s.counted.length
  batch : s.system.handedOut = s.retired ++ s.batch
  written : s.written = s.retired ++ s.handed

structure Inv (s : SharedBackend τ β) : Prop where
  callers : s.CallersInv
  worker : s.WorkerInv

theorem initial_inv (options : Options) (a : Allocation)
    (flushAfter queueSizeLimit : Nat) :
    (initial options a flushAfter queueSizeLimit :
      SharedBackend τ β).Inv := by
  refine ⟨⟨System.initial_inv _, ?_, ?_, ?_, ?_, ?_, ?_, ?_, ?_, ?_⟩,
    ⟨?_, ?_, ?_⟩⟩
  · simp [HandoffPipeline.Pipeline.content, System.view, initial,
      System.initial, BufferQueue.new, Allocation.buffer]
  all_goals
    simp [initial, System.initial, Pc.op?, CallerPc.appends, CallerPc.flush?,
      uncounted, SharedBackend.batch, handed]

theorem CallersInv.accepted_eq {s : SharedBackend τ β} (h : s.CallersInv) :
    s.system.accepted = s.counted ++ s.uncounted :=
  (List.prefix_iff_eq_append.mp h.counted).symm

theorem uncounted_eq {s : SharedBackend τ β} {rest : List β}
    (h : s.system.accepted = s.counted ++ rest) : s.uncounted = rest := by
  rw [uncounted, h, List.drop_left]

/-- A batch holds counted bytes only. -/
theorem Inv.batch_le {s : SharedBackend τ β} (hinv : s.Inv) :
    s.batch.length ≤ s.queuedBytes := by
  have hlength := hinv.callers.conserved.length_eq
  have haccepted := congrArg List.length hinv.callers.accepted_eq
  have hhanded := congrArg List.length hinv.worker.batch
  have hsuffix := hinv.callers.suffix.length_le
  have hexact := hinv.worker.exact
  simp only [HandoffPipeline.Pipeline.content, System.view,
    List.length_append] at hlength haccepted hhanded
  omega

/-! ## Steps that move one thread on -/

/-- The new place of a caller says the same about the bytes and the lock. -/
structure CallerMove (s : SharedBackend τ β) (t : τ) (pc : CallerPc β) :
    Prop where
  appends : pc.appends = (s.caller t).appends
  uncounted : pc.uncounted (s.system.pc (.client t)) =
    (s.caller t).uncounted (s.system.pc (.client t))
  runs : ∀ op, (s.system.pc (.client t)).op? = some op → pc.runs op
  flush : ∀ flush, pc.flush? = some flush → flush.IsPrefix s.counted

theorem CallersInv.move_refl {s : SharedBackend τ β} (h : s.CallersInv)
    (t : τ) : s.CallerMove t (s.caller t) :=
  ⟨rfl, rfl, fun op hop => h.runs (.client t) op hop, h.flushes t⟩

/-- A step that moves callers and the worker on, and leaves the bytes, the
lock and the operations of the queue alone. -/
theorem CallersInv.keep {s next : SharedBackend τ β} (h : s.CallersInv)
    (hqueue : next.system.Inv)
    (hconserved : next.system.view.content.Perm next.system.accepted)
    (hpc : next.system.pc = s.system.pc)
    (hlock : next.system.dataLock = s.system.dataLock)
    (haccepted : next.system.accepted = s.system.accepted)
    (hcurrent : next.system.queue.current.data =
      s.system.queue.current.data)
    (hcounted : next.counted = s.counted)
    (hcaller : ∀ t, s.CallerMove t (next.caller t))
    (hworker : ∀ op, (s.system.pc .worker).op? = some op →
      next.worker.runs op) : next.CallersInv := by
  have huncounted : next.uncounted = s.uncounted := by
    rw [uncounted, uncounted, haccepted, hcounted]
  refine ⟨hqueue, hconserved, ?_, ?_, ?_, ?_, ?_, ?_, ?_, ?_⟩
  · intro x op hop
    rw [hpc] at hop
    cases x with
    | worker => exact hworker op hop
    | client t => exact (hcaller t).runs op hop
  · rw [hpc, hlock]
    exact h.releasing
  · intro t happends
    rw [hlock]
    exact h.lock t ((hcaller t).appends ▸ happends)
  · rw [hcounted, haccepted]
    exact h.counted
  · rw [huncounted, hcurrent]
    exact h.suffix
  · intro t happends
    rw [huncounted, hpc, (hcaller t).uncounted]
    exact h.pending t ((hcaller t).appends ▸ happends)
  · intro hpending
    rcases h.settled (huncounted ▸ hpending) with ⟨t, happends⟩
    exact ⟨t, (hcaller t).appends.trans happends⟩
  · intro t flush hflush
    rw [hcounted]
    exact (hcaller t).flush flush hflush

theorem WorkerInv.keep {s next : SharedBackend τ β} (h : s.WorkerInv)
    (hhanded : next.system.handedOut = s.system.handedOut)
    (hhand : next.system.inHand = s.system.inHand)
    (hworker : next.worker = s.worker)
    (hretired : next.retired = s.retired)
    (hwritten : next.written = s.written)
    (hexact : next.queuedBytes + s.retired.length = next.counted.length) :
    next.WorkerInv := by
  have hbatch : next.batch = s.batch := by
    rw [SharedBackend.batch, SharedBackend.batch, hworker, inHandBytes,
      inHandBytes, hhand]
  have hpart : next.handed = s.handed := by
    rw [handed, handed, hworker, inHandBytes, inHandBytes, hhand]
  exact ⟨by rw [hretired, hexact], by rw [hhanded, hretired, hbatch, h.batch],
    by rw [hwritten, hretired, hpart, h.written]⟩

variable [DecidableEq τ]

theorem CallersInv.of_update {s : SharedBackend τ β} {t : τ}
    {pc : CallerPc β} (h : s.CallersInv) (hmove : s.CallerMove t pc) :
    ∀ u, s.CallerMove u (Function.update s.caller t pc u) := by
  intro u
  by_cases hu : u = t
  · subst u
    rw [Function.update_self]
    exact hmove
  · rw [Function.update_of_ne hu]
    exact h.move_refl u

/-- A caller moves on and touches no byte; the flush time and the history of
requests are not part of the accounts. -/
theorem Inv.move_caller {s : SharedBackend τ β} (hinv : s.Inv) {t : τ}
    {pc : CallerPc β} (hmove : s.CallerMove t pc) (flushTime : Nat)
    (owed : Bool) :
    Inv { s.setCaller t pc with flushTime := flushTime, owed := owed } :=
  ⟨hinv.callers.keep hinv.callers.queue hinv.callers.conserved rfl rfl rfl rfl rfl
    (hinv.callers.of_update hmove)
    (fun op hop => hinv.callers.runs .worker op hop),
    hinv.worker.keep rfl rfl rfl rfl rfl hinv.worker.exact⟩

/-- The publisher of a buffer, which is a caller of `Flush` or the worker. -/
theorem CallersInv.publish {s : SharedBackend τ β}
    {system : System (Thread τ) β} {x : Thread τ} {a : Allocation}
    (h : s.CallersInv)
    (hruns : ∀ op, s.runs x op → op = .publishCurrent)
    (hstep : s.system.step (.step x a) = some system) :
    CallersInv { s with system := system } := by
  rcases System.step_conserves h.queue h.conserved hstep with
    ⟨hqueue, hconserved⟩
  have hop : (s.system.pc x).op? = some .publishCurrent := by
    cases hpc : (s.system.pc x).op? with
    | none =>
        exfalso
        simp only [System.step, System.stepThread] at hstep
        cases hx : s.system.pc x <;> simp [hx, Pc.op?] at hpc hstep
    | some op => rw [hruns op (h.runs x op hpc)]
  have hpublish := System.publish_step hop hstep
  -- whoever holds the lock inside an append is another thread
  have hholder : ∀ t, (s.caller t).appends = true →
      Thread.client t ≠ x ∧ system.dataLock = s.system.dataLock := by
    intro t happends
    have hlock := h.lock t happends
    have hne : Thread.client t ≠ x := by
      rintro rfl
      have hbad := h.runs (.client t) .publishCurrent hop
      simp only [SharedBackend.runs] at hbad
      cases hcaller : s.caller t <;>
        simp [hcaller, CallerPc.runs, CallerPc.appends] at hbad happends
    refine ⟨hne, ?_⟩
    rcases hpublish.lock (by simp [hlock]) with hsame | hreleasing
    · exact hsame
    · have hown := h.releasing x hop hreleasing
      rw [hlock, Option.some.injEq] at hown
      exact absurd hown hne
  have huncounted :
      SharedBackend.uncounted { s with system := system } = s.uncounted := by
    simp only [SharedBackend.uncounted, hpublish.accepted]
  refine ⟨hqueue, hconserved, ?_, ?_, ?_, ?_, ?_, ?_, ?_, h.flushes⟩
  · intro y op hopy
    by_cases hy : y = x
    · subst y
      exact h.runs x op (hpublish.op op hopy)
    · simp only [hpublish.others y hy] at hopy
      exact h.runs y op hopy
  · intro y hopy hreleasing
    by_cases hy : y = x
    · subst y
      exact hpublish.releasing hreleasing
    · simp only [hpublish.others y hy] at hopy hreleasing
      have hlock := h.releasing y hopy hreleasing
      rcases hpublish.lock (by simp [hlock]) with hsame | hown
      · exact hsame.trans hlock
      · have hx := h.releasing x hop hown
        rw [hlock, Option.some.injEq] at hx
        exact absurd hx hy
  · intro t happends
    exact (hholder t happends).2.trans (h.lock t happends)
  · simp only [hpublish.accepted]
    exact h.counted
  · rw [huncounted]
    by_cases hnone : s.uncounted = []
    · rw [hnone]
      exact List.nil_suffix
    · rcases h.settled hnone with ⟨t, happends⟩
      have hlock := h.lock t happends
      simp only [hpublish.current (by simp [hlock])]
      exact h.suffix
  · intro t happends
    rw [huncounted]
    simp only [hpublish.others _ (hholder t happends).1]
    exact h.pending t happends
  · rw [huncounted]
    exact h.settled

/-- The queue side of an append: its bytes enter the queue in one of its
steps and stay uncounted. -/
theorem CallersInv.append {s next : SharedBackend τ β} {t : τ}
    (text : List β) (h : s.CallersInv)
    (happends : (s.caller t).appends = true)
    (hcaller : next.caller = Function.update s.caller t (.appending text))
    (hworker : next.worker = s.worker) (hcounted : next.counted = s.counted)
    (hqueue : next.system.Inv)
    (hconserved : next.system.view.content.Perm next.system.accepted)
    (hothers : ∀ x, x ≠ .client t → next.system.pc x = s.system.pc x)
    (hlock : next.system.dataLock = s.system.dataLock)
    (hop : ∀ op, (next.system.pc (.client t)).op? = some op →
      ∃ time, op = .append text time)
    (hbytes :
      (s.uncounted =
          (if (next.system.pc (.client t)).appended then text else []) ∧
        next.system.accepted = s.system.accepted ∧
        next.system.queue.current.data = s.system.queue.current.data) ∨
      (s.uncounted = [] ∧
        (next.system.pc (.client t)).appended = true ∧
        next.system.accepted = s.system.accepted ++ text ∧
        text.IsSuffix next.system.queue.current.data)) :
    next.CallersInv := by
  have hholds := h.lock t happends
  have hself : next.caller t = .appending text := by
    rw [hcaller, Function.update_self]
  have hother : ∀ u, u ≠ t → next.caller u = s.caller u := by
    intro u hu
    rw [hcaller, Function.update_of_ne hu]
  have halone : ∀ u, (s.caller u).appends = true → u = t := by
    intro u hu
    have hsame := h.lock u hu
    rw [hholds, Option.some.injEq, Thread.client.injEq] at hsame
    exact hsame.symm
  have hnext : next.uncounted =
        (if (next.system.pc (.client t)).appended then text else []) ∧
      next.counted.IsPrefix next.system.accepted ∧
      next.uncounted.IsSuffix next.system.queue.current.data := by
    rcases hbytes with ⟨hphase, haccepted, hcurrent⟩ |
      ⟨hnone, happended, haccepted, hsuffix⟩
    · have hsame : next.uncounted = s.uncounted := by
        rw [SharedBackend.uncounted, SharedBackend.uncounted, haccepted,
          hcounted]
      rw [hsame, hcounted, haccepted, hcurrent]
      exact ⟨hphase, h.counted, h.suffix⟩
    · have htotal : next.system.accepted = next.counted ++ text := by
        rw [haccepted, h.accepted_eq, hnone, List.append_nil, hcounted]
      rw [uncounted_eq htotal, if_pos happended]
      exact ⟨rfl, ⟨text, htotal.symm⟩, hsuffix⟩
  refine ⟨hqueue, hconserved, ?_, ?_, ?_, hnext.2.1, hnext.2.2, ?_, ?_, ?_⟩
  · intro x op hopx
    by_cases hx : x = .client t
    · subst x
      simp only [SharedBackend.runs, hself]
      exact hop op hopx
    · rw [hothers x hx] at hopx
      have hold := h.runs x op hopx
      cases x with
      | worker =>
          simp only [SharedBackend.runs, hworker]
          exact hold
      | client u =>
          have hu : u ≠ t := fun heq => hx (congrArg Thread.client heq)
          simp only [SharedBackend.runs, hother u hu]
          exact hold
  · intro x hopx hreleasing
    by_cases hx : x = .client t
    · subst x
      rcases hop _ hopx with ⟨time, hbad⟩
      simp at hbad
    · rw [hothers x hx] at hopx hreleasing
      rw [hlock]
      exact h.releasing x hopx hreleasing
  · intro u hu
    rw [hlock]
    by_cases hut : u = t
    · subst u
      exact hholds
    · rw [hother u hut] at hu
      exact h.lock u hu
  · intro u hu
    have hut : u = t := by
      by_contra hne
      rw [hother u hne] at hu
      exact hne (halone u hu)
    subst u
    rw [hself]
    exact hnext.1
  · intro _
    exact ⟨t, by rw [hself]; rfl⟩
  · intro u flush hflush
    rw [hcounted]
    by_cases hut : u = t
    · subst u
      rw [hself] at hflush
      simp [CallerPc.flush?] at hflush
    · rw [hother u hut] at hflush
      exact h.flushes u flush hflush

/-- A publisher enters the queue. -/
theorem CallersInv.start {s next : SharedBackend τ β} {x : Thread τ}
    (h : s.CallersInv)
    (hsystem : s.system.step (.start x .publishCurrent) = some next.system)
    (hruns : next.runs x .publishCurrent)
    (hcounted : next.counted = s.counted)
    (hothers : ∀ y op, y ≠ x → s.runs y op → next.runs y op)
    (happends : ∀ t, (next.caller t).appends = true →
      Thread.client t ≠ x ∧ next.caller t = s.caller t)
    (hkept : ∀ t, (s.caller t).appends = true → next.caller t = s.caller t)
    (hflushes : ∀ t flush, (next.caller t).flush? = some flush →
      flush.IsPrefix s.counted) : next.CallersInv := by
  rcases System.step_conserves h.queue h.conserved hsystem with
    ⟨hqueue, hconserved⟩
  have hstart := System.start_publish hsystem
  have hpc : ∀ y, y ≠ x → next.system.pc y = s.system.pc y := by
    intro y hy
    rw [hstart]
    exact Function.update_of_ne hy _ _
  have hself : next.system.pc x = .takeFree .publishCurrent := by
    rw [hstart]
    exact Function.update_self _ _ _
  have huncounted : next.uncounted = s.uncounted := by
    rw [SharedBackend.uncounted, SharedBackend.uncounted, hcounted, hstart]
    rfl
  refine ⟨hqueue, hconserved, ?_, ?_, ?_, ?_, ?_, ?_, ?_, ?_⟩
  · intro y op hop
    by_cases hy : y = x
    · subst y
      rw [hself] at hop
      simp only [Pc.op?, Option.some.injEq] at hop
      subst op
      exact hruns
    · rw [hpc y hy] at hop
      exact hothers y op hy (h.runs y op hop)
  · intro y hop hreleasing
    by_cases hy : y = x
    · subst y
      simp [hself, Pc.releasing] at hreleasing
    · rw [hpc y hy] at hop hreleasing
      rw [hstart]
      exact h.releasing y hop hreleasing
  · intro t ht
    rw [hstart]
    exact h.lock t ((happends t ht).2 ▸ ht)
  · rw [hcounted, hstart]
    exact h.counted
  · rw [huncounted, hstart]
    exact h.suffix
  · intro t ht
    rcases happends t ht with ⟨hne, hsame⟩
    rw [huncounted, hpc _ hne, hsame]
    exact h.pending t (hsame ▸ ht)
  · intro hpending
    rcases h.settled (huncounted ▸ hpending) with ⟨t, ht⟩
    exact ⟨t, by rw [hkept t ht]; exact ht⟩
  · intro t flush hflush
    rw [hcounted]
    exact hflushes t flush hflush

/-! ## Callers -/

theorem queue_cases {s next : SharedBackend τ β}
    {action : Action (Thread τ) β} (h : s.queue action = some next) :
    ∃ system, s.system.step action = some system ∧
      next = { s with system := system } := by
  simp only [SharedBackend.queue, Option.map_eq_some_iff] at h
  rcases h with ⟨system, hstep, rfl⟩
  exact ⟨system, hstep, rfl⟩

omit [DecidableEq τ] in
/-- A caller outside the queue's operations moves on. -/
theorem CallersInv.move {s : SharedBackend τ β} (h : s.CallersInv) {t : τ}
    {pc : CallerPc β} (houtside : ∀ op, ¬ (s.caller t).runs op)
    (happends : pc.appends = (s.caller t).appends)
    (huncounted : pc.uncounted (s.system.pc (.client t)) =
      (s.caller t).uncounted (s.system.pc (.client t)))
    (hflush : ∀ flush, pc.flush? = some flush →
      (s.caller t).flush? = some flush) : s.CallerMove t pc :=
  ⟨happends, huncounted,
    fun op hop => absurd (h.runs (.client t) op hop) (houtside op),
    fun flush hpc => h.flushes t flush (hflush flush hpc)⟩

/-- A client that runs no operation can move on. -/
theorem CallersInv.runs_setCaller {s : SharedBackend τ β} (h : s.CallersInv) {t : τ}
    {pc : CallerPc β} (houtside : ∀ op, ¬ (s.caller t).runs op) (x : Thread τ) (op : Op β)
    (hop : (s.system.pc x).op? = some op) : (s.setCaller t pc).runs x op := by
  have hold := h.runs x op hop
  cases x with
  | worker => exact hold
  | client u =>
      by_cases hu : u = t
      · subst u
        exact absurd hold (houtside op)
      · simp only [SharedBackend.runs, setCaller, Function.update_of_ne hu]
        exact hold

theorem CallersInv.flushes_setCaller {s : SharedBackend τ β} (h : s.CallersInv) {t : τ}
    {pc : CallerPc β} (hflush : pc.flush? = none) (u : τ) (flush : List β)
    (hu : ((s.setCaller t pc).caller u).flush? = some flush) : flush.IsPrefix s.counted := by
  by_cases hut : u = t
  · subst u
    simp only [setCaller, Function.update_self, hflush, reduceCtorEq] at hu
  · simp only [setCaller, Function.update_of_ne hut] at hu
    exact h.flushes u flush hu

omit [DecidableEq τ] in
theorem CallersInv.alone {s : SharedBackend τ β} (h : s.CallersInv)
    {t u : τ} (ht : (s.caller t).appends = true)
    (hu : (s.caller u).appends = true) : u = t := by
  have hsame := h.lock u hu
  rw [h.lock t ht, Option.some.injEq, Thread.client.injEq] at hsame
  exact hsame.symm

omit [DecidableEq τ] in
/-- While nobody holds the lock every byte in the queue is counted. -/
theorem CallersInv.uncounted_of_unlocked {s : SharedBackend τ β}
    (h : s.CallersInv) (hlock : s.system.dataLock = none) :
    s.uncounted = [] := by
  by_contra hpending
  rcases h.settled hpending with ⟨t, happends⟩
  have hholds := h.lock t happends
  rw [hlock] at hholds
  simp at hholds

theorem lock_inv {s next : SharedBackend τ β} {t : τ} {text : List β}
    (hinv : s.Inv) (hcaller : s.caller t = .idle)
    (hstep : (s.setCaller t (.loadFlushTime text)).queue
      (.lockData (.client t)) = some next) : next.Inv := by
  rcases queue_cases hstep with ⟨system, hsystem, rfl⟩
  have h := hinv.callers
  rcases System.step_conserves (s := s.system) h.queue h.conserved hsystem with
    ⟨hqueue, hconserved⟩
  simp only [System.step] at hsystem
  split_ifs at hsystem with hfree
  simp only [Option.some.injEq] at hsystem
  subst system
  have hnone : s.system.dataLock = none := hfree.1
  have hcounted : s.uncounted = [] := h.uncounted_of_unlocked hnone
  have hself : Function.update s.caller t (.loadFlushTime text) t =
      .loadFlushTime text := Function.update_self _ _ _
  have hother : ∀ u, u ≠ t →
      Function.update s.caller t (.loadFlushTime text) u = s.caller u :=
    fun u hu => Function.update_of_ne hu _ _
  refine ⟨⟨hqueue, hconserved, ?_, ?_, ?_, h.counted, h.suffix, ?_, ?_, ?_⟩,
    hinv.worker.keep rfl rfl rfl rfl rfl hinv.worker.exact⟩
  · exact h.runs_setCaller fun op => by simp [hcaller, CallerPc.runs]
  · intro x hop hreleasing
    have hlock := h.releasing x hop hreleasing
    rw [hnone] at hlock
    simp at hlock
  · intro u hu
    by_cases hut : u = t
    · subst u
      rfl
    · simp only [setCaller, hother u hut] at hu
      have hlock := h.lock u hu
      rw [hnone] at hlock
      simp at hlock
  · intro u hu
    by_cases hut : u = t
    · subst u
      simp only [setCaller, hself]
      exact hcounted
    · simp only [setCaller, hother u hut] at hu
      have hlock := h.lock u hu
      rw [hnone] at hlock
      simp at hlock
  · intro hpending
    exact absurd hcounted hpending
  · exact h.flushes_setCaller rfl

theorem unlock_inv {s next : SharedBackend τ β} {t : τ} (hinv : s.Inv)
    (hcaller : s.caller t = .unlock)
    (hstep : (s.setCaller t .idle).queue (.unlockData (.client t)) =
      some next) : next.Inv := by
  rcases queue_cases hstep with ⟨system, hsystem, rfl⟩
  have h := hinv.callers
  rcases System.step_conserves (s := s.system) h.queue h.conserved hsystem with
    ⟨hqueue, hconserved⟩
  simp only [System.step] at hsystem
  split_ifs at hsystem
  simp only [Option.some.injEq] at hsystem
  subst system
  have happends : (s.caller t).appends = true := by rw [hcaller]; rfl
  have hholds := h.lock t happends
  have hcounted : s.uncounted = [] := by
    rw [h.pending t happends, hcaller]
    rfl
  have hother : ∀ u, u ≠ t →
      Function.update s.caller t .idle u = s.caller u :=
    fun u hu => Function.update_of_ne hu _ _
  -- nobody else is inside an append
  have hnone : ∀ u, (Function.update s.caller t .idle u).appends = false := by
    intro u
    by_cases hut : u = t
    · subst u
      rw [Function.update_self]
      rfl
    · rw [hother u hut]
      cases hu : (s.caller u).appends with
      | false => rfl
      | true => exact absurd (h.alone happends hu) hut
  refine ⟨⟨hqueue, hconserved, ?_, ?_, ?_, h.counted, h.suffix, ?_, ?_, ?_⟩,
    hinv.worker.keep rfl rfl rfl rfl rfl hinv.worker.exact⟩
  · exact h.runs_setCaller fun op => by simp [hcaller, CallerPc.runs]
  · intro x hop hreleasing
    have hlock := h.releasing x hop hreleasing
    rw [hholds, Option.some.injEq] at hlock
    subst x
    have hold := h.runs _ _ hop
    simp [SharedBackend.runs, hcaller, CallerPc.runs] at hold
  · intro u hu
    have hfalse := hnone u
    simp only [setCaller] at hu
    simp [hu] at hfalse
  · intro u hu
    have hfalse := hnone u
    simp only [setCaller] at hu
    simp [hu] at hfalse
  · intro hpending
    exact absurd hcounted hpending
  · exact h.flushes_setCaller rfl

/-- `QueuedBytes` is raised by exactly the bytes that were uncounted. -/
theorem count_inv {s : SharedBackend τ β} {t : τ} {text : List β}
    {firstData : Bool} (hinv : s.Inv)
    (hcaller : s.caller t = .count text firstData) (queued : Nat) :
    Inv
      { s.setCaller t (.getUsedBuffers firstData queued) with
        queuedBytes := s.queuedBytes + text.length
        counted := s.counted ++ text } := by
  have h := hinv.callers
  have happends : (s.caller t).appends = true := by rw [hcaller]; rfl
  have htext : s.uncounted = text := by
    rw [h.pending t happends, hcaller]
    rfl
  have htotal : s.system.accepted = (s.counted ++ text) ++ [] := by
    rw [List.append_nil, h.accepted_eq, htext]
  have hother : ∀ u, u ≠ t → Function.update s.caller t
      (.getUsedBuffers firstData queued) u = s.caller u :=
    fun u hu => Function.update_of_ne hu _ _
  have hnone : s.system.accepted.drop (s.counted ++ text).length = [] := by
    rw [htotal, List.drop_left]
  refine ⟨⟨h.queue, h.conserved, ?_, h.releasing, ?_, ⟨[], htotal.symm⟩, ?_,
    ?_, ?_, ?_⟩, hinv.worker.keep rfl rfl rfl rfl rfl ?_⟩
  · exact h.runs_setCaller fun op => by simp [hcaller, CallerPc.runs]
  · intro u hu
    by_cases hut : u = t
    · subst u
      exact h.lock t happends
    · simp only [setCaller, hother u hut] at hu
      exact h.lock u hu
  · simp only [uncounted, setCaller, hnone]
    exact List.nil_suffix
  · intro u hu
    simp only [uncounted, setCaller, hnone]
    by_cases hut : u = t
    · subst u
      rw [Function.update_self]
      rfl
    · simp only [setCaller, hother u hut] at hu
      exact absurd (h.alone happends hu) hut
  · intro hpending
    exact absurd hnone hpending
  · intro u flush hflush
    by_cases hut : u = t
    · subst u
      simp [setCaller, CallerPc.flush?] at hflush
    · simp only [setCaller, hother u hut] at hflush
      exact (h.flushes u flush hflush).trans (List.prefix_append _ _)
  · have hexact := hinv.worker.exact
    simp only [List.length_append]
    omega

theorem checkFlushTime_inv {s : SharedBackend τ β} {t : τ} {time : Nat}
    {flush : Option (List β)} (hinv : s.Inv)
    (houtside : ∀ op, ¬ (s.caller t).runs op)
    (happends : (s.caller t).appends = flush.isNone)
    (huncounted : (s.caller t).uncounted (s.system.pc (.client t)) = [])
    (hflush : (s.caller t).flush? = flush) :
    (s.checkFlushTime t time flush).Inv := by
  unfold checkFlushTime
  split
  next =>
    refine hinv.move_caller (hinv.callers.move houtside ?_ ?_ ?_) s.flushTime
      (s.owedBy time)
    · cases flush <;> exact happends.symm
    · cases flush <;> exact huncounted.symm
    · intro flush' hpc
      rw [hflush]
      cases flush with
      | none => simp [CallerPc.requested, CallerPc.flush?] at hpc
      | some flush => exact hpc
  next =>
    refine hinv.move_caller (hinv.callers.move houtside ?_ ?_ ?_) s.flushTime
      s.owed
    · exact happends.symm
    · exact huncounted.symm
    · intro flush' hpc
      rw [hflush]
      exact hpc

omit [DecidableEq τ] in
/-- After its second load of `FlushTime` an append is still an append. -/
theorem afterCount_appends (s : SharedBackend τ β) (firstData pressure : Bool)
    (now : Nat) (pc : BufferQueue.Pc β) :
    (s.afterCount firstData pressure now).appends = true ∧
      (s.afterCount firstData pressure now).uncounted pc = [] ∧
      (s.afterCount firstData pressure now).flush? = none := by
  unfold afterCount
  cases firstData <;> cases pressure <;> dsimp only <;> split_ifs <;>
    exact ⟨rfl, rfl, rfl⟩

theorem append_inv {s next : SharedBackend τ β} {t : τ} {text : List β}
    {time : Nat} (hinv : s.Inv) (hcaller : s.caller t = .append text time)
    (hstep : (s.setCaller t (.appending text)).queue
      (.start (.client t) (.append text time)) = some next) : next.Inv := by
  rcases queue_cases hstep with ⟨system, hsystem, rfl⟩
  have h := hinv.callers
  have happends : (s.caller t).appends = true := by rw [hcaller]; rfl
  have hnone : s.uncounted = [] := by
    rw [h.pending t happends, hcaller]
    rfl
  rcases System.step_conserves (s := s.system) h.queue h.conserved hsystem with
    ⟨hqueue, hconserved⟩
  rcases System.start_append hsystem with
    ⟨hothers, hhanded, hhand, hlock, hop, hbytes⟩
  refine ⟨h.append _ happends rfl rfl rfl hqueue hconserved hothers hlock
    (fun op h => ⟨time, hop op h⟩) ?_,
    hinv.worker.keep hhanded hhand rfl rfl rfl hinv.worker.exact⟩
  rcases hbytes with ⟨hphase, haccepted, hcurrent⟩ |
    ⟨hphase, haccepted, hsuffix⟩
  · exact .inl ⟨by simp [hphase, hnone], haccepted, hcurrent⟩
  · exact .inr ⟨hnone, hphase, haccepted, hsuffix⟩

theorem appending_inv {s next : SharedBackend τ β} {t : τ} {text : List β}
    {a : Allocation} (hinv : s.Inv)
    (hcaller : s.caller t = .appending text)
    (hstep : s.queue (.step (.client t) a) = some next) : next.Inv := by
  rcases queue_cases hstep with ⟨system, hsystem, rfl⟩
  have h := hinv.callers
  have happends : (s.caller t).appends = true := by rw [hcaller]; rfl
  have hphase := h.pending t happends
  rw [hcaller, CallerPc.uncounted] at hphase
  rcases System.step_conserves h.queue h.conserved hsystem with
    ⟨hqueue, hconserved⟩
  have hrunning : ∃ time,
      (s.system.pc (.client t)).op? = some (.append text time) := by
    cases hpc : (s.system.pc (.client t)).op? with
    | none =>
        exfalso
        simp only [System.step, System.stepThread] at hsystem
        cases hx : s.system.pc (.client t) <;>
          simp [hx, Pc.op?] at hpc hsystem
    | some op =>
        have hold := h.runs (.client t) op hpc
        rw [SharedBackend.runs, hcaller] at hold
        rcases hold with ⟨time, rfl⟩
        exact ⟨time, rfl⟩
  rcases hrunning with ⟨time, hop⟩
  have hqstep := System.append_step hop hsystem
  refine ⟨h.append text happends ?_ rfl rfl hqueue hconserved
    hqstep.others hqstep.dataLock ?_ ?_,
    hinv.worker.keep hqstep.handedOut hqstep.inHand rfl rfl rfl
      hinv.worker.exact⟩
  · rw [← hcaller, Function.update_eq_self]
  · intro op hnext
    have hsame := hqstep.op op hnext
    rw [hop, Option.some.injEq] at hsame
    exact ⟨time, hsame.symm⟩
  · rcases hqstep.bytes with ⟨hsame, haccepted, hcurrent⟩ |
      ⟨hbefore, hafter, haccepted, hsuffix⟩
    · exact .inl ⟨by simp only [hsame]; exact hphase, haccepted, hcurrent⟩
    · exact .inr ⟨by rw [hphase, hbefore]; rfl, hafter, haccepted, hsuffix⟩

theorem setFirstWriteTime_inv {s next : SharedBackend τ β} {t : τ}
    {pc : CallerPc β} {value : Nat} (hinv : s.Inv)
    (hmove : s.CallerMove t pc)
    (hstep : (s.setCaller t pc).queue
      (.setCurrentFirstWriteTime (.client t) value) = some next) :
    next.Inv := by
  rcases queue_cases hstep with ⟨system, hsystem, rfl⟩
  have h := hinv.callers
  rcases System.step_conserves (s := s.system) h.queue h.conserved hsystem with
    ⟨hqueue, hconserved⟩
  simp only [System.step] at hsystem
  split_ifs at hsystem
  simp only [Option.some.injEq] at hsystem
  subst system
  exact ⟨h.keep hqueue hconserved rfl rfl rfl
      (setCurrentFirstWriteTime_data _ _) rfl (h.of_update hmove)
      (fun op hop => h.runs .worker op hop),
    hinv.worker.keep rfl rfl rfl rfl rfl hinv.worker.exact⟩

/-- `Flush` enters `PublishCurrent`, for the first time or again. -/
theorem flush_start_inv {s next : SharedBackend τ β} {t : τ}
    {flush : List β} (hinv : s.Inv)
    (hcaller : (s.caller t).appends = false)
    (hflush : flush.IsPrefix s.counted)
    (hstep : (s.setCaller t (.publish flush)).queue
      (.start (.client t) .publishCurrent) = some next) : next.Inv := by
  rcases queue_cases hstep with ⟨system, hsystem, rfl⟩
  have hself : Function.update s.caller t (.publish flush) t =
      .publish flush := Function.update_self _ _ _
  have hother : ∀ u, u ≠ t →
      Function.update s.caller t (.publish flush) u = s.caller u :=
    fun u hu => Function.update_of_ne hu _ _
  have hstart := System.start_publish hsystem
  have hworker : WorkerInv
      { s.setCaller t (.publish flush) with system := system } := by
    subst system
    exact hinv.worker.keep rfl rfl rfl rfl rfl hinv.worker.exact
  refine ⟨hinv.callers.start (x := .client t) hsystem ?_ rfl ?_ ?_ ?_ ?_,
    hworker⟩
  · simp only [SharedBackend.runs, setCaller, hself]
    rfl
  · intro x op hx hold
    cases x with
    | worker => exact hold
    | client u =>
        have hu : u ≠ t := fun heq => hx (congrArg Thread.client heq)
        simp only [SharedBackend.runs, setCaller, hother u hu]
        exact hold
  · intro u hu
    by_cases hut : u = t
    · subst u
      simp [setCaller, CallerPc.appends] at hu
    · exact ⟨fun heq => hut (Thread.client.inj heq), hother u hut⟩
  · intro u hu
    by_cases hut : u = t
    · subst u
      simp [hcaller] at hu
    · exact hother u hut
  · intro u flush' hu
    by_cases hut : u = t
    · subst u
      simp only [setCaller, hself, CallerPc.flush?, Option.some.injEq] at hu
      exact hu ▸ hflush
    · simp only [setCaller, hother u hut] at hu
      exact hinv.callers.flushes u flush' hu

theorem publish_inv {s next : SharedBackend τ β} {x : Thread τ}
    {a : Allocation} (hinv : s.Inv)
    (hruns : ∀ op, s.runs x op → op = .publishCurrent)
    (hstep : s.queue (.step x a) = some next) : next.Inv := by
  rcases queue_cases hstep with ⟨system, hsystem, rfl⟩
  have hframe := System.stepThread_frame hsystem
  exact ⟨hinv.callers.publish hruns hsystem,
    hinv.worker.keep hframe.handedOut hframe.inHand rfl rfl rfl
      hinv.worker.exact⟩

theorem stepCaller_inv {s next : SharedBackend τ β} {t : τ} {now : Nat}
    {spurious : Bool} {a : Allocation} (hinv : s.Inv)
    (hstep : s.stepCaller t now spurious a = some next) : next.Inv := by
  have h := hinv.callers
  have hquiet : ∀ pc : CallerPc β, s.CallerMove t pc →
      (s.setCaller t pc).Inv :=
    fun pc hmove => hinv.move_caller hmove s.flushTime s.owed
  have hrequest : ∀ time flush,
      (∀ op, ¬ (s.caller t).runs op) →
      (s.caller t).appends = Option.isNone flush →
      (s.caller t).uncounted (s.system.pc (.client t)) = [] →
      (s.caller t).flush? = flush →
      (s.checkFlushTime t time flush).Inv :=
    fun _ _ houtside happends huncounted hflush =>
      checkFlushTime_inv hinv houtside happends huncounted hflush
  unfold stepCaller at hstep
  cases hcaller : s.caller t with
  | idle => simp [hcaller] at hstep
  | loadFlushTime text =>
      simp only [hcaller, Option.some.injEq] at hstep
      subst next
      refine hquiet _ (h.move ?_ ?_ ?_ ?_) <;>
        simp [hcaller, CallerPc.runs, CallerPc.appends, CallerPc.uncounted,
          CallerPc.flush?]
  | append text time =>
      simp only [hcaller] at hstep
      exact append_inv hinv hcaller hstep
  | appending text =>
      simp only [hcaller] at hstep
      cases hpc : s.system.pc (.client t) with
      | idle result =>
          simp only [hpc, Option.some.injEq] at hstep
          subst next
          refine hquiet _ ⟨?_, ?_, by simp [hpc, Pc.op?], ?_⟩
          · rw [hcaller]
            split <;> rfl
          · rw [hcaller, hpc]
            split
            next hok => simp [CallerPc.uncounted, Pc.appended, hok]
            next hok => simp [CallerPc.uncounted, Pc.appended, hok]
          · split <;> simp [CallerPc.flush?]
      | _ =>
          simp only [hpc] at hstep
          exact appending_inv hinv hcaller hstep
  | count text firstData =>
      simp only [hcaller, Option.some.injEq] at hstep
      subst next
      exact count_inv hinv hcaller _
  | getUsedBuffers firstData queued =>
      simp only [hcaller, Option.some.injEq] at hstep
      subst next
      refine hquiet _ (h.move ?_ ?_ ?_ ?_) <;>
        simp [hcaller, CallerPc.runs, CallerPc.appends, CallerPc.uncounted,
          CallerPc.flush?]
  | reloadFlushTime firstData pressure =>
      simp only [hcaller, Option.some.injEq] at hstep
      subst next
      rcases s.afterCount_appends firstData pressure now
          (s.system.pc (.client t)) with ⟨happends, huncounted, hflush⟩
      refine hquiet _ (h.move ?_ ?_ ?_ ?_)
      · simp [hcaller, CallerPc.runs]
      · rw [happends, hcaller]
        rfl
      · rw [huncounted, hcaller]
        rfl
      · simp [hflush]
  | setFirstWriteTime value request =>
      simp only [hcaller] at hstep
      apply setFirstWriteTime_inv hinv (h.move _ _ _ _) hstep
      · simp [hcaller, CallerPc.runs]
      · rw [hcaller]
        cases request <;> rfl
      · rw [hcaller]
        cases request <;> rfl
      · cases request <;> simp [CallerPc.flush?]
  | requestFlush time flush =>
      simp only [hcaller, Option.some.injEq] at hstep
      subst next
      apply hrequest <;> rw [hcaller]
      · exact fun _ => id
      · rfl
      · rfl
      · rfl
  | exchange time old flush =>
      simp only [hcaller] at hstep
      split_ifs at hstep
      · simp only [Option.some.injEq] at hstep
        subst next
        apply hrequest <;> rw [hcaller]
        · exact fun _ => id
        · rfl
        · rfl
        · rfl
      · simp only [Option.some.injEq] at hstep
        subst next
        refine hinv.move_caller (h.move ?_ ?_ ?_ ?_) time (s.owedBy time)
        · simp [hcaller, CallerPc.runs]
        · rw [hcaller]
          cases flush <;> rfl
        · rw [hcaller]
          cases flush <;> rfl
        · rw [hcaller]
          cases flush <;> simp [CallerPc.requested, CallerPc.flush?]
  | unlock =>
      simp only [hcaller] at hstep
      exact unlock_inv hinv hcaller hstep
  | publish flush =>
      have hrest : s.caller = Function.update s.caller t (.publish flush) := by
        rw [← hcaller, Function.update_eq_self]
      simp only [hcaller] at hstep
      cases hpc : s.system.pc (.client t) with
      | idle result =>
          simp only [hpc] at hstep
          split_ifs at hstep
          · have hsame : s = s.setCaller t (.publish flush) := by
              rw [setCaller, ← hrest]
            rw [hsame] at hstep
            exact flush_start_inv hinv (by rw [hcaller]; rfl)
              (h.flushes t flush (by rw [hcaller]; rfl)) hstep
          · simp only [Option.some.injEq] at hstep
            subst next
            refine hquiet _ ⟨?_, ?_, by simp [hpc, Pc.op?], ?_⟩
            · rw [hcaller]
              rfl
            · rw [hcaller]
              rfl
            · intro flush' hflush
              exact h.flushes t flush' (by rw [hcaller]; exact hflush)
      | _ =>
          simp only [hpc] at hstep
          refine publish_inv hinv ?_ hstep
          simp [SharedBackend.runs, hcaller, CallerPc.runs]
  | wait flush =>
      simp only [hcaller] at hstep
      split_ifs at hstep
      simp only [Option.some.injEq] at hstep
      subst next
      refine hquiet _ (h.move ?_ ?_ ?_ ?_) <;>
        simp [hcaller, CallerPc.runs, CallerPc.appends, CallerPc.uncounted,
          CallerPc.flush?]

/-! ## The worker -/

omit [DecidableEq τ] in
theorem apart_batch {s : SharedBackend τ β} (h : s.worker.apart = true) :
    s.batch = [] ∧ s.handed = [] := by
  cases hworker : s.worker <;>
    simp_all [WorkerPc.apart, batch, handed]

omit [DecidableEq τ] in
theorem apart_outside {s : SharedBackend τ β} (hinv : s.Inv)
    (h : s.worker.apart = true) : (s.system.pc .worker).op? = none := by
  cases hpc : (s.system.pc .worker).op? with
  | none => rfl
  | some op =>
      have hruns := hinv.callers.runs .worker op hpc
      cases hworker : s.worker <;>
        simp_all [WorkerPc.apart, SharedBackend.runs, WorkerPc.runs]

omit [DecidableEq τ] in
/-- The worker moves on outside the queue and without a batch. -/
theorem Inv.move_worker {s : SharedBackend τ β} (hinv : s.Inv)
    (hnone : (s.system.pc .worker).op? = none) (hbatch : s.batch = [])
    (hhanded : s.handed = []) {pc : WorkerPc} (hpc : pc.apart = true)
    (flushTime : Nat) (owed : Bool) :
    Inv { s.setWorker pc with flushTime := flushTime, owed := owed } := by
  have hnew := apart_batch (s := { s.setWorker pc with
    flushTime := flushTime, owed := owed }) hpc
  refine ⟨hinv.callers.keep hinv.callers.queue hinv.callers.conserved rfl rfl
      rfl rfl rfl hinv.callers.move_refl (by simp [hnone]),
    ⟨hinv.worker.exact, ?_, ?_⟩⟩
  · rw [hnew.1, ← hbatch]
    exact hinv.worker.batch
  · rw [hnew.2, ← hhanded]
    exact hinv.worker.written

theorem takeReady_inv {s middle : SharedBackend τ β} {pc : WorkerPc}
    (hinv : s.Inv) (hapart : s.worker.apart = true)
    (hstep : s.queue .takeReady = some middle)
    (htaken : (middle.setWorker pc).batch = middle.inHandBytes)
    (hnothing : (middle.setWorker pc).handed = []) :
    (middle.setWorker pc).Inv := by
  rcases queue_cases hstep with ⟨system, hsystem, rfl⟩
  have h := hinv.callers
  have hnone := apart_outside hinv hapart
  rcases apart_batch hapart with ⟨hbatch, hhanded⟩
  rcases System.step_conserves h.queue h.conserved hsystem with
    ⟨hqueue, hconserved⟩
  simp only [System.step] at hsystem
  split_ifs at hsystem
  simp only [Option.some.injEq] at hsystem
  subst system
  refine ⟨h.keep hqueue hconserved rfl rfl rfl rfl rfl h.move_refl
      (by simp [hnone]), ⟨hinv.worker.exact, ?_, ?_⟩⟩
  · rw [htaken]
    have hold := hinv.worker.batch
    rw [hbatch, List.append_nil] at hold
    simp only [setWorker, inHandBytes, hold]
  · rw [hnothing, ← hhanded]
    exact hinv.worker.written

/-- `Recycle` and `TrimFreeBuffersIfIdle`. -/
theorem freeList_inv {s next : SharedBackend τ β} {pc : WorkerPc}
    {action : Action (Thread τ) β} (hinv : s.Inv)
    (hapart : s.worker.apart = true) (hpc : pc.apart = true)
    (haction : action = .recycle ∨ action = .trimFreeBuffersIfIdle)
    (hstep : (s.setWorker pc).queue action = some next) : next.Inv := by
  rcases queue_cases hstep with ⟨system, hsystem, rfl⟩
  have h := hinv.callers
  have hnone := apart_outside hinv hapart
  rcases apart_batch hapart with ⟨hbatch, hhanded⟩
  have hnew :=
    apart_batch (s := { s.setWorker pc with system := system }) hpc
  rcases System.step_conserves (s := s.system) h.queue h.conserved hsystem with
    ⟨hqueue, hconserved⟩
  have hworker : system.handedOut = s.system.handedOut →
      WorkerInv { s.setWorker pc with system := system } := by
    intro hsame
    refine ⟨hinv.worker.exact, ?_, ?_⟩
    · rw [hnew.1, ← hbatch]
      exact hsame.trans hinv.worker.batch
    · rw [hnew.2, ← hhanded]
      exact hinv.worker.written
  rcases haction with rfl | rfl
  · simp only [System.step, Option.some.injEq] at hsystem
    subst system
    exact ⟨h.keep hqueue hconserved rfl rfl rfl rfl rfl h.move_refl
      (by simp [hnone]), hworker rfl⟩
  · simp only [System.step, Option.some.injEq] at hsystem
    subst system
    exact ⟨h.keep hqueue hconserved rfl rfl rfl rfl rfl h.move_refl
      (by simp [hnone]), hworker rfl⟩

theorem worker_start_inv {s next : SharedBackend τ β} {loops : Nat}
    (hinv : s.Inv) (hapart : s.worker.apart = true)
    (hstep : (s.setWorker (.publish loops)).queue
      (.start .worker .publishCurrent) = some next) : next.Inv := by
  rcases queue_cases hstep with ⟨system, hsystem, rfl⟩
  rcases apart_batch hapart with ⟨hbatch, hhanded⟩
  have hstart := System.start_publish hsystem
  refine ⟨hinv.callers.start (x := .worker) hsystem rfl rfl ?_ ?_
    (fun t _ => rfl) hinv.callers.flushes, ⟨hinv.worker.exact, ?_, ?_⟩⟩
  · intro x op hx hold
    cases x with
    | worker => exact absurd rfl hx
    | client t => exact hold
  · intro t _
    exact ⟨by simp, rfl⟩
  · have hold := hinv.worker.batch
    rw [hbatch] at hold
    subst system
    exact hold
  · have hold := hinv.worker.written
    rw [hhanded] at hold
    exact hold

omit [DecidableEq τ] in
theorem write_inv {s : SharedBackend τ β} {loops : Nat} (hinv : s.Inv)
    (hworker : s.worker = .write loops) :
    Inv
      { s with
        worker := .retire loops
        written := s.written ++ s.inHandBytes } := by
  refine ⟨hinv.callers.keep hinv.callers.queue hinv.callers.conserved rfl rfl
    rfl rfl rfl hinv.callers.move_refl ?_, ⟨hinv.worker.exact, ?_, ?_⟩⟩
  · intro op hop
    have hold := hinv.callers.runs .worker op hop
    rw [SharedBackend.runs, hworker] at hold
    exact hold
  · have hold := hinv.worker.batch
    simp only [batch, hworker] at hold
    exact hold
  · have hold := hinv.worker.written
    simp only [handed, hworker, List.append_nil] at hold
    simp [handed, hold, inHandBytes]

omit [DecidableEq τ] in
/-- The batch that is retired was counted, so `fetch_sub` does not wrap. -/
theorem retire_inv {s : SharedBackend τ β} {loops : Nat} (hinv : s.Inv)
    (hworker : s.worker = .retire loops) :
    Inv
      { s with
        worker := .recycle loops
        queuedBytes := fetchSub s.queuedBytes s.inHandBytes.length
        retired := s.retired ++ s.inHandBytes } := by
  have hbatch : s.batch = s.inHandBytes := by rw [batch, hworker]
  have hhanded : s.handed = s.inHandBytes := by rw [handed, hworker]
  have hle := hinv.batch_le
  rw [hbatch] at hle
  refine ⟨hinv.callers.keep hinv.callers.queue hinv.callers.conserved rfl rfl
    rfl rfl rfl hinv.callers.move_refl ?_, ⟨?_, ?_, ?_⟩⟩
  · intro op hop
    have hold := hinv.callers.runs .worker op hop
    rw [SharedBackend.runs, hworker] at hold
    exact hold
  · have hexact := hinv.worker.exact
    simp only [List.length_append]
    rw [fetchSub, if_pos hle]
    omega
  · have hold := hinv.worker.batch
    rw [hbatch] at hold
    simpa [SharedBackend.batch] using hold
  · have hold := hinv.worker.written
    rw [hhanded] at hold
    simpa [handed] using hold

theorem stepWorker_inv {s next : SharedBackend τ β} {now : Nat}
    {spurious : Bool} {a : Allocation} (hinv : s.Inv)
    (hstep : s.stepWorker now spurious a = some next) : next.Inv := by
  have hmove : ∀ pc : WorkerPc, s.worker.apart = true → pc.apart = true →
      ∀ flushTime owed,
        Inv { s.setWorker pc with flushTime := flushTime, owed := owed } :=
    fun pc hapart hpc flushTime owed =>
      hinv.move_worker (apart_outside hinv hapart) (apart_batch hapart).1
        (apart_batch hapart).2 hpc flushTime owed
  have hquiet : ∀ pc : WorkerPc, s.worker.apart = true → pc.apart = true →
      (s.setWorker pc).Inv :=
    fun pc hapart hpc => hmove pc hapart hpc s.flushTime s.owed
  unfold stepWorker at hstep
  cases hworker : s.worker with
  | idle =>
      simp only [hworker, Option.some.injEq] at hstep
      subst next
      exact hmove (.loop FileBackend.maxWriteLoops
          (decide (s.flushTime = RIGHT_NOW)))
        (by rw [hworker]; rfl) (WorkerPc.loop_apart _ _) s.flushTime false
  | takeReady loops forceFlush =>
      simp only [hworker, Option.map_eq_some_iff] at hstep
      rcases hstep with ⟨middle, hstep, rfl⟩
      have hapart : s.worker.apart = true := by rw [hworker]; rfl
      split_ifs with htaken hforce
      · exact takeReady_inv hinv hapart hstep rfl rfl
      · apply takeReady_inv hinv hapart hstep _ rfl
        simp at htaken
        simp [inHandBytes, batch, setWorker, htaken]
      · apply takeReady_inv hinv hapart hstep _ rfl
        simp at htaken
        simp [inHandBytes, batch, setWorker, htaken]
  | write loops =>
      simp only [hworker, Option.some.injEq] at hstep
      subst next
      exact write_inv hinv hworker
  | retire loops =>
      simp only [hworker, Option.some.injEq] at hstep
      subst next
      exact retire_inv hinv hworker
  | recycle loops =>
      simp only [hworker] at hstep
      exact freeList_inv hinv (by rw [hworker]; rfl) rfl (.inl rfl) hstep
  | checkFlagged loops =>
      simp only [hworker, Option.some.injEq] at hstep
      subst next
      exact hquiet _ (by rw [hworker]; rfl)
        (WorkerPc.apart_ite _ (WorkerPc.loop_apart _ _) rfl)
  | checkReady loops =>
      simp only [hworker, Option.some.injEq] at hstep
      subst next
      exact hquiet _ (by rw [hworker]; rfl)
        (WorkerPc.apart_ite _ (WorkerPc.loop_apart _ _) rfl)
  | trim loops =>
      simp only [hworker] at hstep
      exact freeList_inv hinv (by rw [hworker]; rfl) (WorkerPc.loop_apart _ _)
        (.inr rfl) hstep
  | startPublish loops =>
      simp only [hworker] at hstep
      exact worker_start_inv hinv (by rw [hworker]; rfl) hstep
  | publish loops =>
      simp only [hworker] at hstep
      cases hpc : s.system.pc .worker with
      | idle result =>
          simp only [hpc, Option.some.injEq] at hstep
          subst next
          exact hinv.move_worker
            (by rw [hpc]; rfl) (by rw [batch, hworker])
            (by rw [handed, hworker])
            (WorkerPc.apart_ite _ (WorkerPc.loop_apart _ _) rfl) s.flushTime s.owed
      | _ =>
          simp only [hpc] at hstep
          refine publish_inv hinv ?_ hstep
          simp [SharedBackend.runs, hworker, WorkerPc.runs]
  | oldestReady again =>
      simp only [hworker, Option.some.injEq] at hstep
      subst next
      exact hquiet _ (by rw [hworker]; rfl) rfl
  | oldestCurrent readyTime again =>
      simp only [hworker, Option.some.injEq] at hstep
      subst next
      exact hquiet _ (by rw [hworker]; rfl)
        (WorkerPc.apart_ite _ rfl (WorkerPc.apart_ite _ rfl rfl))
  | storeDeadline oldest =>
      simp only [hworker, Option.some.injEq] at hstep
      subst next
      exact hmove .idle (by rw [hworker]; rfl) rfl _ s.owed
  | flagged =>
      simp only [hworker, Option.some.injEq] at hstep
      subst next
      exact hquiet _ (by rw [hworker]; rfl) (WorkerPc.apart_ite _ rfl rfl)
  | loadExpected =>
      simp only [hworker, Option.some.injEq] at hstep
      subst next
      exact hquiet _ (by rw [hworker]; rfl) (WorkerPc.clearing_apart _)
  | clear expected =>
      simp only [hworker] at hstep
      split_ifs at hstep <;> simp only [Option.some.injEq] at hstep <;>
        subst next
      · exact hquiet _ (by rw [hworker]; rfl) (WorkerPc.clearing_apart _)
      · exact hmove (.oldestReady true) (by rw [hworker]; rfl) rfl 0 s.owed
  | hasReady =>
      simp only [hworker, Option.some.injEq] at hstep
      subst next
      exact hquiet _ (by rw [hworker]; rfl) (WorkerPc.apart_ite _ rfl rfl)
  | storeRightNow =>
      simp only [hworker, Option.some.injEq] at hstep
      subst next
      exact hmove .idle (by rw [hworker]; rfl) rfl RIGHT_NOW s.owed
  | flaggedAgain =>
      simp only [hworker, Option.some.injEq] at hstep
      subst next
      exact hquiet _ (by rw [hworker]; rfl) (WorkerPc.apart_ite _ rfl rfl)
  | storeLater =>
      simp only [hworker, Option.some.injEq] at hstep
      subst next
      exact hmove .idle (by rw [hworker]; rfl) rfl _ s.owed

/-! ## The counter and the barrier -/

theorem step_inv {s next : SharedBackend τ β} {action : SharedAction τ β}
    (hinv : s.Inv) (hstep : s.step action = some next) : next.Inv := by
  cases action with
  | appendOutputData t text =>
      simp only [step] at hstep
      cases hcaller : s.caller t <;> simp only [hcaller, reduceCtorEq] at hstep
      split_ifs at hstep
      exact lock_inv hinv hcaller hstep
  | flush t =>
      simp only [step] at hstep
      cases hcaller : s.caller t <;> simp only [hcaller, reduceCtorEq] at hstep
      exact flush_start_inv hinv (by rw [hcaller]; rfl) (List.prefix_refl _)
        hstep
  | caller t now spurious a => exact stepCaller_inv hinv hstep
  | selectEarly =>
      simp only [step] at hstep
      cases hworker : s.worker <;>
        simp only [hworker, reduceCtorEq, Option.some.injEq] at hstep
      subst next
      have hapart : s.worker.apart = true := by rw [hworker]; rfl
      have hsame : s = s.setWorker .idle := by rw [setWorker, ← hworker]
      rw [hsame]
      exact hinv.move_worker (apart_outside hinv hapart)
        (apart_batch hapart).1 (apart_batch hapart).2 rfl
        RIGHT_NOW s.owed
  | worker now spurious a => exact stepWorker_inv hinv hstep

omit [DecidableEq τ] in
def Quiescent (s : SharedBackend τ β) : Prop :=
  s.worker = .idle ∧ ∀ t, s.caller t = .idle

omit [DecidableEq τ] in
/-- `fetch_sub` finds at least the bytes of the batch. -/
def NeverWraps (s : SharedBackend τ β) : Prop :=
  ∀ loops, s.worker = .retire loops →
    s.inHandBytes.length ≤ s.queuedBytes

omit [DecidableEq τ] in
/-- `QueuedBytes` is what was accepted and not retired. -/
def Exact (s : SharedBackend τ β) : Prop :=
  s.queuedBytes + s.retired.length = s.system.accepted.length

omit [DecidableEq τ] in
/-- When the wait of a `Flush` may end, the bytes accepted before it started
are among the retired ones, all of which have been handed to a write. -/
def FlushSound (s : SharedBackend τ β) : Prop :=
  ∀ t flush, s.caller t = .wait flush → s.queuedBytes = 0 →
    flush.Subperm s.retired ∧ s.retired.IsPrefix s.written

omit [DecidableEq τ] in
theorem Inv.exact_of_quiescent {s : SharedBackend τ β} (hinv : s.Inv)
    (hquiet : s.Quiescent) : s.Exact := by
  have hcounted : s.uncounted = [] := by
    by_contra hpending
    rcases hinv.callers.settled hpending with ⟨t, happends⟩
    simp [hquiet.2 t, CallerPc.appends] at happends
  have haccepted := hinv.callers.accepted_eq
  rw [hcounted, List.append_nil] at haccepted
  unfold Exact
  rw [haccepted]
  exact hinv.worker.exact

omit [DecidableEq τ] in
/-- A counter of 0 means that exactly the counted bytes are retired. -/
theorem Inv.retired_perm {s : SharedBackend τ β} (hinv : s.Inv)
    (hzero : s.queuedBytes = 0) : s.retired.Perm s.counted := by
  have hconserved := hinv.callers.conserved
  rcases hinv.callers.suffix with ⟨front, hcurrent⟩
  have hexact := hinv.worker.exact
  rw [hzero, Nat.zero_add] at hexact
  -- the uncounted bytes end both sides
  have hsplit : (s.retired ++ (s.batch ++
      s.system.view.ready ++ s.system.view.detached.flatMap Prod.snd ++ front) ++
        s.uncounted).Perm (s.counted ++ s.uncounted) := by
    rw [← hinv.callers.accepted_eq]
    refine List.Perm.trans (.of_eq ?_) hconserved
    simp [HandoffPipeline.Pipeline.content, System.view, hinv.worker.batch,
      ← hcurrent]
  have hperm := (List.perm_append_right_iff s.uncounted).mp hsplit
  have hlength := hperm.length_eq
  rw [List.length_append] at hlength
  have hrest : (s.batch ++ s.system.view.ready ++
      s.system.view.detached.flatMap Prod.snd ++ front) = [] := by
    rw [← List.length_eq_zero_iff]
    omega
  rw [hrest, List.append_nil] at hperm
  exact hperm

omit [DecidableEq τ] in
theorem Inv.flushSound {s : SharedBackend τ β} (hinv : s.Inv) :
    s.FlushSound := by
  intro t flush hcaller hzero
  have hbefore : flush.IsPrefix s.counted :=
    hinv.callers.flushes t flush (by rw [hcaller]; rfl)
  refine ⟨?_, ?_⟩
  · exact hbefore.sublist.subperm.trans (hinv.retired_perm hzero).symm.subperm
  · rw [hinv.worker.written]
    exact List.prefix_append _ _

/-- In every reachable state `QueuedBytes` has room for the batch that is
about to be retired, equals the difference of the accepted and the retired
bytes when nothing is in progress, and is 0 for a waiting `Flush` only after
everything accepted before it has been written and retired. -/
theorem queued_bytes_exact (options : Options) (a : Allocation)
    (flushAfter queueSizeLimit : Nat) (s : SharedBackend τ β)
    (hrun : Reachable step
      (initial options a flushAfter queueSizeLimit) s) :
    s.NeverWraps ∧ (s.Quiescent → s.Exact) ∧ s.FlushSound := by
  have hinv : s.Inv :=
    hrun.invariant (fun _ _ _ hinv _ hstep => step_inv hinv hstep)
      (initial_inv options a flushAfter queueSizeLimit)
  refine ⟨?_, hinv.exact_of_quiescent, hinv.flushSound⟩
  intro loops hworker
  have hle := hinv.batch_le
  simp only [batch, hworker] at hle
  exact hle

private def isWaitingFor (pc : CallerPc UInt8) (bytes : List UInt8) : Bool :=
  match pc with
  | .wait flush => decide (flush = bytes)
  | _ => false

/-- One caller appends, another flushes, and the worker has retired the
batch. -/
theorem queued_bytes_exact_one_record :
    ∃ s : SharedBackend (Fin 2) UInt8,
      s.caller 1 = .wait [0x61] ∧ [0x61].Subperm s.retired := by
  rcases exists_reachable_of_exec step
      ((initial {} ⟨0, none⟩ 500 100000 : SharedBackend (Fin 2) UInt8))
      (.appendOutputData 0 [0x61] ::
        List.replicate 10 (.caller 0 1000 false ⟨1, none⟩) ++
        .flush 1 :: List.replicate 15 (.caller 1 1000 false ⟨2, none⟩) ++
        List.replicate 4 (.worker 1000 false ⟨3, none⟩))
      (fun s => isWaitingFor (s.caller 1) [0x61] &&
        decide (s.queuedBytes = 0)) (by decide) with ⟨s, hreach, hcheck⟩
  rw [Bool.and_eq_true, decide_eq_true_eq] at hcheck
  have hwait : s.caller 1 = .wait [0x61] := by
    have hpc := hcheck.1
    unfold isWaitingFor at hpc
    split at hpc
    next flush heq => rw [heq, of_decide_eq_true hpc]
    next => simp at hpc
  have hsound := (queued_bytes_exact {} ⟨0, none⟩ 500 100000 s hreach).2.2
  exact ⟨s, hwait, (hsound 1 _ hwait hcheck.2).1⟩

end SharedBackend

end Logme
