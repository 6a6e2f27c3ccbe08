import Logme.BufferQueueThreads
import Logme.BufferQueueAccounting
import Logme.Library.Threads

/-!
# Why `Append` fails

Threads, a consumer and the sections of one queue as before, now with an eye on
the capacities: every buffer of the queue is current, free, ready, in the hands
of the consumer or held by a thread, and no section changes a capacity.  Where
all of them are at least `BufferSize`, `Append` fails only for a record that is
longer or in a queue that has as many buffers as it may have.
-/

namespace Logme
namespace BufferQueue

open Threads

variable {τ β : Type}

/-! ## What a step does -/

/-- A call as far as it goes at once. -/
inductive Starts (q : BufferQueue β) : Op β → BufferQueue β → Pc β → Prop
  | nothing {p : List β} {time : Nat} :
      Starts q (.append p time) q (.idle ⟨true, false⟩)
  | appended {p : List β} {time : Nat} {firstData : Bool}
      (fits : q.current.canAppend p.length) :
      Starts q (.append p time) (q.appendCurrent p time fits)
        (.idle ⟨true, firstData⟩)
  | searching {op : Op β} : Starts q op q (.takeFree op)
  | unmatched {expected : Option Nat} :
      Starts q (.publishCurrentIfMatches expected) q (.idle ⟨false, false⟩)

/-- One section of a thread inside an operation, by the place where the thread
stands before and after it. -/
inductive Moves (q : BufferQueue β) (a : Allocation) :
    Pc β → BufferQueue β → Pc β → Prop
  | found {op : Op β} {buffer : DataBuffer β} {rest : List (DataBuffer β)}
      (free : q.freeList = buffer :: rest) :
      Moves q a (.takeFree op)
        { q with freeList := rest, usedBuffersCount := q.usedBuffersCount + 1 }
        (.install op buffer false)
  | missing {op : Op β} : Moves q a (.takeFree op) q (.createCheck op)
  | full {op : Op β} (limit : q.atBufferLimit = true) :
      Moves q a (.createCheck op) q (.idle ⟨false, false⟩)
  | create {op : Op β} (room : q.atBufferLimit = false) :
      Moves q a (.createCheck op) q (.createCount op (a.buffer q.options))
  | fullAgain {op : Op β} {buffer : DataBuffer β}
      (limit : q.atBufferLimit = true) :
      Moves q a (.createCount op buffer) q (.idle ⟨false, false⟩)
  | count {op : Op β} {buffer : DataBuffer β} (room : q.atBufferLimit = false) :
      Moves q a (.createCount op buffer) q.countCreated (.install op buffer true)
  | appended {p : List β} {time : Nat} {replacement : DataBuffer β}
      {allocated firstData : Bool} (fits : q.current.canAppend p.length) :
      Moves q a (.install (.append p time) replacement allocated)
        (q.appendCurrent p time fits)
        (.releaseReplacement (.append p time) replacement ⟨true, firstData⟩)
  | replaced {p : List β} {time : Nat} {replacement : DataBuffer β}
      {allocated : Bool} (fits : replacement.reset.canAppend p.length) :
      Moves q a (.install (.append p time) replacement allocated)
        (q.replaceAndAppend replacement.reset p time fits)
        (.grow (.append p time) q.current allocated)
  | tooLong {p : List β} {time : Nat} {replacement : DataBuffer β}
      {allocated : Bool} (long : ¬ replacement.reset.canAppend p.length) :
      Moves q a (.install (.append p time) replacement allocated) q
        (.releaseReplacement (.append p time) replacement ⟨false, false⟩)
  | refused {op : Op β} {replacement : DataBuffer β} {allocated : Bool}
      (publishes : ∀ p time, op ≠ .append p time) :
      Moves q a (.install op replacement allocated) q
        (.releaseReplacement op replacement ⟨false, false⟩)
  | detached {op : Op β} {replacement : DataBuffer β} {allocated : Bool} :
      Moves q a (.install op replacement allocated)
        (q.replaceCurrent replacement) (.grow op q.current allocated)
  | released {op : Op β} {replacement : DataBuffer β} {result : AppendResult} :
      Moves q a (.releaseReplacement op replacement result)
        (q.releaseBuffer replacement) (.idle result)
  | grown {op : Op β} {old : DataBuffer β} {allocated : Bool} :
      Moves q a (.grow op old allocated) (q.maybeGrowAdaptive allocated)
        (.enqueue op old)
  | enqueued {op : Op β} {old : DataBuffer β} {firstData : Bool} :
      Moves q a (.enqueue op old) (q.enqueueReady old) (.idle ⟨true, firstData⟩)

namespace System

/-- What a step does to the queue, the threads and the consumer. -/
inductive Steps [DecidableEq τ] (s : System τ β) :
    Action τ β → System τ β → Prop
  | still {action : Action τ β} {next : System τ β}
      (calls : ∀ t op, action ≠ .start t op) (queue : next.queue = s.queue)
      (pc : next.pc = s.pc) (inHand : next.inHand = s.inHand) : Steps s action next
  | started {t : τ} {op : Op β} {pc : Pc β} {next : System τ β}
      (idle : (s.pc t).isIdle = true) (starts : Starts s.queue op next.queue pc)
      (pcs : next.pc = Function.update s.pc t pc)
      (inHand : next.inHand = s.inHand) : Steps s (.start t op) next
  | moved {t : τ} {a : Allocation} {pc : Pc β} {next : System τ β}
      (moves : Moves s.queue a (s.pc t) next.queue pc)
      (pcs : next.pc = Function.update s.pc t pc)
      (inHand : next.inHand = s.inHand) : Steps s (.step t a) next
  | timed {t : τ} {value : Nat} :
      Steps s (.setCurrentFirstWriteTime t value)
        (s.setQueue (s.queue.setCurrentFirstWriteTime value))
  | marked :
      Steps s .prepareSoftFlushCurrent
        (s.setQueue s.queue.prepareSoftFlushCurrent.2.2)
  | taken {next : System τ β} (empty : s.inHand = [])
      (queue : next.queue = s.queue.takeReady.2) (pc : next.pc = s.pc)
      (inHand : next.inHand = s.queue.readyList) : Steps s .takeReady next
  | recycled :
      Steps s .recycle
        { s with queue := s.queue.recycle s.inHand, inHand := [] }
  | trimmed :
      Steps s .trimFreeBuffersIfIdle (s.setQueue s.queue.trimFreeBuffersIfIdle)

variable [DecidableEq τ]

theorem start_starts {s next : System τ β} {t : τ} {op : Op β}
    (hidle : (s.pc t).isIdle = true) (hstep : s.start t op = some next) :
    Steps s (.start t op) next := by
  cases op with
  | append p time =>
      simp only [start] at hstep
      split_ifs at hstep with hlock hempty hfits
      · cases hstep
        exact .started hidle .nothing rfl rfl
      · cases hstep
        exact .started hidle (.appended hfits) rfl rfl
      · cases hstep
        exact .started hidle .searching rfl rfl
  | publishCurrent =>
      simp only [start] at hstep
      split_ifs at hstep
      cases hstep
      exact .started hidle .searching rfl rfl
  | publishCurrentIfMatches expected =>
      simp only [start] at hstep
      split_ifs at hstep
      · cases hstep
        exact .started hidle .unmatched rfl rfl
      · cases hstep
        exact .started hidle .searching rfl rfl

theorem install_moves {s next : System τ β} {t : τ} {a : Allocation} {op : Op β}
    {replacement : DataBuffer β} {allocated : Bool}
    (hpc : s.pc t = .install op replacement allocated)
    (hstep : s.install t op replacement allocated = some next) :
    Steps s (.step t a) next := by
  cases op with
  | append p time =>
      simp only [install] at hstep
      split_ifs at hstep with hfits hreplace
      · cases hstep
        exact .moved (by rw [hpc]; exact .appended hfits) rfl rfl
      · cases hstep
        exact .moved (by rw [hpc]; exact .replaced hreplace) rfl rfl
      · cases hstep
        exact .moved (by rw [hpc]; exact .tooLong hreplace) rfl rfl
  | publishCurrent =>
      simp only [install] at hstep
      split_ifs at hstep
      · cases hstep
        exact .moved (by rw [hpc]; exact .refused (by simp)) rfl rfl
      · cases hstep
        exact .moved (by rw [hpc]; exact .detached) rfl rfl
  | publishCurrentIfMatches expected =>
      simp only [install] at hstep
      split_ifs at hstep
      · cases hstep
        exact .moved (by rw [hpc]; exact .refused (by simp)) rfl rfl
      · cases hstep
        exact .moved (by rw [hpc]; exact .detached) rfl rfl

theorem stepThread_moves {s next : System τ β} {t : τ} {a : Allocation}
    (hstep : s.stepThread t a = some next) : Steps s (.step t a) next := by
  unfold stepThread at hstep
  cases hpc : s.pc t with
  | idle result => simp [hpc] at hstep
  | takeFree op =>
      simp only [hpc, tryTakeFreeBuffer] at hstep
      cases hfree : s.queue.freeList with
      | nil =>
          rw [hfree] at hstep
          cases hstep
          exact .moved (by rw [hpc]; exact .missing) rfl rfl
      | cons buffer rest =>
          rw [hfree] at hstep
          cases hstep
          exact .moved (by rw [hpc]; exact .found hfree) rfl rfl
  | createCheck op =>
      simp only [hpc] at hstep
      split_ifs at hstep with hlock hlimit
      · cases hstep
        exact .moved (by rw [hpc]; exact .full hlimit) rfl rfl
      · cases hstep
        exact .moved (by rw [hpc]; exact .create (by simpa using hlimit)) rfl rfl
  | createCount op buffer =>
      simp only [hpc] at hstep
      split_ifs at hstep with hlimit
      · cases hstep
        exact .moved (by rw [hpc]; exact .fullAgain hlimit) rfl rfl
      · cases hstep
        exact .moved (by rw [hpc]; exact .count (by simpa using hlimit)) rfl rfl
  | install op replacement allocated =>
      simp only [hpc] at hstep
      exact install_moves hpc hstep
  | releaseReplacement op replacement result =>
      simp only [hpc, Option.some.injEq] at hstep
      subst next
      exact .moved (by rw [hpc]; exact .released) rfl rfl
  | grow op old allocated =>
      simp only [hpc, Option.some.injEq] at hstep
      subst next
      exact .moved (by rw [hpc]; exact .grown) rfl rfl
  | enqueue op old =>
      simp only [hpc, Option.some.injEq] at hstep
      subst next
      exact .moved (by rw [hpc]; exact .enqueued) rfl rfl

theorem step_steps {s next : System τ β} {action : Action τ β}
    (hstep : s.step action = some next) : Steps s action next := by
  cases action with
  | lockData t =>
      simp only [step] at hstep
      split_ifs at hstep
      cases hstep
      exact .still (by simp) rfl rfl rfl
  | unlockData t =>
      simp only [step] at hstep
      split_ifs at hstep
      cases hstep
      exact .still (by simp) rfl rfl rfl
  | start t op =>
      simp only [step] at hstep
      split_ifs at hstep with hidle
      exact start_starts hidle hstep
  | step t a => exact stepThread_moves hstep
  | setCurrentFirstWriteTime t value =>
      simp only [step] at hstep
      split_ifs at hstep
      cases hstep
      exact .timed
  | prepareSoftFlushCurrent =>
      simp only [step] at hstep
      split_ifs at hstep
      cases hstep
      exact .marked
  | takeReady =>
      simp only [step] at hstep
      split_ifs at hstep with hempty
      cases hstep
      exact .taken (by simpa using hempty) rfl rfl rfl
  | recycle =>
      simp only [step, Option.some.injEq] at hstep
      subst next
      exact .recycled
  | trimFreeBuffersIfIdle =>
      simp only [step, Option.some.injEq] at hstep
      subst next
      exact .trimmed

end System

/-! ## Dropping from the free list -/

/-- How many buffers `DecayFreeLocked` takes from the front of the free list. -/
def decayCount (q : BufferQueue β) : Nat :=
  q.freeList.length -
    lowerFreeLimit q.options.baseFreeLimit q.freeList.length q.adaptiveFreeLimit

/-- The buffers that `DecayFreeLocked` offers to the shared cache, in order. -/
def decayed (q : BufferQueue β) : List (DataBuffer β) :=
  q.freeList.take q.decayCount

theorem dropExcess_fst (limit : Nat) (free : List (DataBuffer β)) (total : Nat) :
    (dropExcess limit free total).1 = free.drop (free.length - limit) := by
  induction free generalizing total with
  | nil => simp [dropExcess]
  | cons buffer rest ih =>
      rw [dropExcess]
      split
      next hover =>
        have hcount : (buffer :: rest).length - limit =
            (rest.length - limit) + 1 := by
          simp only [List.length_cons]
          omega
        rw [ih, hcount, List.drop_succ_cons]
      next hwithin =>
        have hcount : (buffer :: rest).length - limit = 0 := by
          simp only [List.length_cons]
          omega
        rw [hcount, List.drop_zero]

theorem decayFreeLocked_freeList (q : BufferQueue β) :
    q.decayFreeLocked.freeList = q.freeList.drop q.decayCount :=
  dropExcess_fst _ _ _

/-! ## Capacities -/

/-- Every buffer in the queue has a capacity that satisfies `P`. -/
structure Sized (P : Nat → Prop) (q : BufferQueue β) : Prop where
  current : P q.current.capacity
  free : ∀ b ∈ q.freeList, P b.capacity
  ready : ∀ b ∈ q.readyList, P b.capacity

variable {P : Nat → Prop} {q : BufferQueue β}

theorem Sized.decay (h : q.Sized P) : q.decayFreeLocked.Sized P := by
  refine ⟨h.current, ?_, h.ready⟩
  rw [decayFreeLocked_freeList]
  exact fun b hb => h.free b (List.mem_of_mem_drop hb)

theorem Sized.pushFree (h : q.Sized P) {buffer : DataBuffer β}
    (hbuffer : P buffer.capacity) : (q.pushFree buffer).Sized P := by
  refine ⟨h.current, ?_, h.ready⟩
  intro b hb
  rcases List.mem_append.mp hb with hb | hb
  · exact h.free b hb
  · rw [List.mem_singleton.mp hb]
    exact hbuffer

theorem Sized.release (h : q.Sized P) {buffer : DataBuffer β}
    (hbuffer : P buffer.capacity) : (q.releaseBuffer buffer).Sized P :=
  (h.pushFree hbuffer).decay

theorem Sized.enqueue (h : q.Sized P) {buffer : DataBuffer β}
    (hbuffer : P buffer.capacity) : (q.enqueueReady buffer).Sized P := by
  unfold enqueueReady
  split
  · exact h.release hbuffer
  · refine ⟨h.current, h.free, ?_⟩
    intro b hb
    rcases List.mem_append.mp hb with hb | hb
    · exact h.ready b hb
    · rw [List.mem_singleton.mp hb]
      exact hbuffer

theorem Sized.recycle (h : q.Sized P) {buffers : List (DataBuffer β)}
    (hbuffers : ∀ b ∈ buffers, P b.capacity) : (q.recycle buffers).Sized P := by
  refine ⟨h.current, ?_, h.ready⟩
  intro b hb
  rcases List.mem_append.mp hb with hb | hb
  · exact h.free b hb
  · obtain ⟨c, hc, rfl⟩ := List.mem_map.mp hb
    exact hbuffers c hc

theorem Sized.maybeGrow (h : q.Sized P) (grown : Bool) :
    (q.maybeGrowAdaptive grown).Sized P := by
  unfold maybeGrowAdaptive
  split_ifs
  · exact h
  · exact h
  · exact ⟨h.current, h.free, h.ready⟩

theorem Sized.appendCurrent (h : q.Sized P) (p : List β) (time : Nat)
    (hfits : q.current.canAppend p.length) :
    (q.appendCurrent p time hfits).Sized P := by
  unfold BufferQueue.appendCurrent
  split
  · exact ⟨h.current, h.free, h.ready⟩
  · exact ⟨h.current, h.free, h.ready⟩

theorem Sized.setCurrentFirstWriteTime (h : q.Sized P) (value : Nat) :
    (q.setCurrentFirstWriteTime value).Sized P := by
  unfold BufferQueue.setCurrentFirstWriteTime
  split_ifs
  · exact h
  · exact ⟨h.current, h.free, h.ready⟩
  · exact ⟨h.current, h.free, h.ready⟩

theorem Sized.prepareSoftFlushCurrent (h : q.Sized P) :
    q.prepareSoftFlushCurrent.2.2.Sized P := by
  unfold BufferQueue.prepareSoftFlushCurrent
  split_ifs
  · exact h
  · exact ⟨h.current, h.free, h.ready⟩
  · exact h

/-- The buffer in the hands of a thread satisfies `P`; an `Append` that is about
to fail has found one of these too small. -/
def Pc.Sized (P : Nat → Prop) : Pc β → Prop
  | .idle _ => True
  | .takeFree _ => True
  | .createCheck _ => True
  | .createCount _ buffer => P buffer.capacity
  | .install _ replacement _ => P replacement.capacity
  | .releaseReplacement op replacement result =>
      P replacement.capacity ∧ ∀ p time, op = .append p time → result.ok = false →
        replacement.capacity < p.length
  | .grow _ old _ => P old.capacity
  | .enqueue _ old => P old.capacity

theorem canAppend_reset {buffer : DataBuffer β} {n : Nat} :
    buffer.reset.canAppend n ↔ n ≤ buffer.capacity := by
  simp [DataBuffer.canAppend, DataBuffer.size, DataBuffer.reset]

theorem Starts.sized {op : Op β} {next : BufferQueue β} {pc : Pc β}
    (h : Starts q op next pc) (hq : q.Sized P) : next.Sized P ∧ pc.Sized P := by
  cases h with
  | nothing => exact ⟨hq, trivial⟩
  | appended fits => exact ⟨hq.appendCurrent _ _ fits, trivial⟩
  | searching => exact ⟨hq, trivial⟩
  | unmatched => exact ⟨hq, trivial⟩

theorem Moves.sized {a : Allocation} {pc pc' : Pc β} {next : BufferQueue β}
    (h : Moves q a pc next pc') (hq : q.Sized P) (hpc : pc.Sized P)
    (hnew : ∀ op, pc = .createCheck op → q.atBufferLimit = false →
      P (a.cachedCapacity.getD q.options.bufferSize)) :
    next.Sized P ∧ pc'.Sized P := by
  cases h with
  | found free =>
      have hfree := hq.free
      rw [free] at hfree
      exact ⟨⟨hq.current, fun b hb => hfree b (List.mem_cons_of_mem _ hb), hq.ready⟩,
        hfree _ List.mem_cons_self⟩
  | missing => exact ⟨hq, trivial⟩
  | full limit => exact ⟨hq, trivial⟩
  | create room => exact ⟨hq, hnew _ rfl room⟩
  | fullAgain limit => exact ⟨hq, trivial⟩
  | count room => exact ⟨⟨hq.current, hq.free, hq.ready⟩, hpc⟩
  | appended fits => exact ⟨hq.appendCurrent _ _ fits, hpc, by simp⟩
  | replaced fits => exact ⟨⟨hpc, hq.free, hq.ready⟩, hq.current⟩
  | tooLong long =>
      refine ⟨hq, hpc, ?_⟩
      intro p time hop _
      cases hop
      rw [canAppend_reset] at long
      exact Nat.lt_of_not_le long
  | refused publishes =>
      exact ⟨hq, hpc, fun p time hop _ => absurd hop (publishes p time)⟩
  | detached => exact ⟨⟨hpc, hq.free, hq.ready⟩, hq.current⟩
  | released => exact ⟨hq.release hpc.1, trivial⟩
  | grown => exact ⟨hq.maybeGrow _, hpc⟩
  | enqueued => exact ⟨hq.enqueue hpc, trivial⟩

namespace System

/-- Every buffer of the queue, wherever it is, satisfies `P`. -/
structure Sized (P : Nat → Prop) (s : System τ β) : Prop where
  queue : s.queue.Sized P
  inHand : ∀ b ∈ s.inHand, P b.capacity
  threads : ∀ t, (s.pc t).Sized P

theorem initial_sized {options : Options} {a : Allocation}
    (h : P (a.cachedCapacity.getD options.bufferSize)) :
    (initial (BufferQueue.new options a) : System τ β).Sized P :=
  ⟨⟨h, by simp [initial, BufferQueue.new], by simp [initial, BufferQueue.new]⟩,
    by simp [initial], fun _ => trivial⟩

variable [DecidableEq τ]

/-- Thread `t` is about to ask for a new buffer. -/
def creates (s : System τ β) (t : τ) : Bool :=
  match s.pc t with
  | .createCheck _ => !s.queue.atBufferLimit
  | _ => false

omit [DecidableEq τ] in
theorem creates_of_check {s : System τ β} {t : τ} {op : Op β}
    (hpc : s.pc t = .createCheck op) (hroom : s.queue.atBufferLimit = false) :
    s.creates t = true := by
  simp [creates, hpc, hroom]

theorem Steps.sized {s next : System τ β} {action : Action τ β}
    (h : Steps s action next) (hs : s.Sized P)
    (hnew : ∀ t a, action = .step t a → s.creates t = true →
      P (a.cachedCapacity.getD s.queue.options.bufferSize)) :
    next.Sized P := by
  cases h with
  | still calls queue pc inHand =>
      refine ⟨?_, ?_, ?_⟩
      · rw [queue]
        exact hs.queue
      · rw [inHand]
        exact hs.inHand
      · rw [pc]
        exact hs.threads
  | started idle starts pcs inHand =>
      have hstarts := starts.sized hs.queue
      refine ⟨hstarts.1, ?_, ?_⟩
      · rw [inHand]
        exact hs.inHand
      · rw [pcs]
        exact forall_update hstarts.2 fun u _ => hs.threads u
  | moved moves pcs inHand =>
      have hmoves := moves.sized hs.queue (hs.threads _)
        fun op hpc hroom => hnew _ _ rfl (creates_of_check hpc hroom)
      refine ⟨hmoves.1, ?_, ?_⟩
      · rw [inHand]
        exact hs.inHand
      · rw [pcs]
        exact forall_update hmoves.2 fun u _ => hs.threads u
  | timed => exact ⟨hs.queue.setCurrentFirstWriteTime _, hs.inHand, hs.threads⟩
  | marked => exact ⟨hs.queue.prepareSoftFlushCurrent, hs.inHand, hs.threads⟩
  | taken empty queue pc inHand =>
      refine ⟨?_, ?_, ?_⟩
      · rw [queue]
        exact ⟨hs.queue.current, hs.queue.free, fun b hb => absurd hb List.not_mem_nil⟩
      · rw [inHand]
        exact hs.queue.ready
      · rw [pc]
        exact hs.threads
  | recycled =>
      exact ⟨hs.queue.recycle hs.inHand, fun b hb => absurd hb List.not_mem_nil,
        hs.threads⟩
  | trimmed => exact ⟨hs.queue.decay, hs.inHand, hs.threads⟩

end System

/-! ## How many buffers there are -/

/-- The thread holds a buffer that `TotalBuffers` counts. -/
def Pc.holding : Pc β → Bool
  | .idle _ => false
  | .takeFree _ => false
  | .createCheck _ => false
  | .createCount _ _ => false
  | .install _ _ _ => true
  | .releaseReplacement _ _ _ => true
  | .grow _ _ _ => true
  | .enqueue _ _ => true

theorem Pc.holding_of_isIdle {pc : Pc β} (h : pc.isIdle = true) :
    pc.holding = false := by
  cases pc <;> simp_all [Pc.isIdle, Pc.holding]

theorem Pc.op?_of_isIdle {pc : Pc β} (h : pc.isIdle = true) : pc.op? = none := by
  cases pc <;> simp_all [Pc.isIdle, Pc.op?]

theorem Starts.options {op : Op β} {next : BufferQueue β} {pc : Pc β}
    (h : Starts q op next pc) : next.options = q.options := by
  cases h with
  | nothing => rfl
  | appended fits =>
      unfold appendCurrent
      split <;> rfl
  | searching => rfl
  | unmatched => rfl

theorem Moves.options {a : Allocation} {pc pc' : Pc β} {next : BufferQueue β}
    (h : Moves q a pc next pc') : next.options = q.options := by
  cases h with
  | appended fits =>
      unfold appendCurrent
      split <;> rfl
  | grown =>
      unfold maybeGrowAdaptive
      split_ifs <;> rfl
  | enqueued =>
      unfold enqueueReady
      split <;> rfl
  | _ => rfl

theorem Starts.accounted {op : Op β} {next : BufferQueue β} {pc : Pc β} {m : Nat}
    (h : Starts q op next pc) (hq : Accounted False q m) :
    Accounted False next m ∧ pc.holding = false := by
  cases h with
  | nothing => exact ⟨hq, rfl⟩
  | appended fits => exact ⟨hq.appendCurrent _ _ fits, rfl⟩
  | searching => exact ⟨hq, rfl⟩
  | unmatched => exact ⟨hq, rfl⟩

/-- A section keeps the accounts of the buffers outside of the queue. -/
theorem Moves.accounted {a : Allocation} {pc pc' : Pc β} {next : BufferQueue β}
    {m : Nat} (h : Moves q a pc next pc')
    (hq : Accounted False q (m + pc.holding.toNat)) :
    Accounted False next (m + pc'.holding.toNat) := by
  cases h with
  | found free => exact hq.tryTakeFree free
  | missing => exact hq
  | full limit => exact hq
  | create room => exact hq
  | fullAgain limit => exact hq
  | count room => exact hq.countCreated room
  | appended fits => exact hq.appendCurrent _ _ fits
  | replaced fits => exact hq.of_current _ _ _
  | tooLong long => exact hq
  | refused publishes => exact hq
  | detached => exact hq.of_current _ _ _
  | released => exact hq.release _
  | grown => exact hq.maybeGrow nofun
  | enqueued => exact hq.enqueue _

namespace System

/-- The queue has `n` buffers: the current one, the free, the ready, those in
the hands of the consumer and those in the hands of threads. -/
def Holds (s : System τ β) (n : Nat) : Prop :=
  ∃ k, Counted k Pc.holding s.pc ∧
    n = 1 + s.queue.freeList.length + s.queue.readyList.length +
      (s.inHand.length + k)

/-- The queue already holds `MaxTotalBuffers` buffers. -/
def Full (s : System τ β) : Prop :=
  s.queue.options.maxTotalBuffers ≠ 0 ∧ s.Holds s.queue.options.maxTotalBuffers

/-- The counters agree with the buffers. -/
def Accounts (s : System τ β) : Prop :=
  ∃ k, Counted k Pc.holding s.pc ∧ Accounted False s.queue (s.inHand.length + k)

theorem initial_accounts (options : Options) (a : Allocation) :
    (initial (BufferQueue.new options a) : System τ β).Accounts := by
  refine ⟨0, counted_zero fun _ => rfl, rfl, rfl, ?_, False.elim⟩
  intro hmax
  exact Nat.one_le_iff_ne_zero.mpr hmax

theorem full_of_atBufferLimit {s : System τ β} (hs : s.Accounts)
    (hlimit : s.queue.atBufferLimit = true) : s.Full := by
  obtain ⟨k, hcount, haccounted⟩ := hs
  simp only [atBufferLimit, Bool.and_eq_true, bne_iff_ne, decide_eq_true_eq] at hlimit
  refine ⟨hlimit.1, k, hcount, ?_⟩
  rw [← haccounted.total]
  exact Nat.le_antisymm hlimit.2 (haccounted.bounded hlimit.1)

theorem atBufferLimit_of_full {s : System τ β} (hs : s.Accounts) (hfull : s.Full) :
    s.queue.atBufferLimit = true := by
  obtain ⟨k, hcount, haccounted⟩ := hs
  obtain ⟨hmax, j, hcount', hholds⟩ := hfull
  rw [hcount'.unique hcount, ← haccounted.total] at hholds
  simp only [atBufferLimit, Bool.and_eq_true, bne_iff_ne, decide_eq_true_eq]
  exact ⟨hmax, Nat.le_of_eq hholds⟩

variable [DecidableEq τ]

/-- One thread moves on, and the accounts follow it. -/
theorem Accounts.move {s next : System τ β} {t : τ} {pc : Pc β}
    (hs : s.Accounts) (hpcs : next.pc = Function.update s.pc t pc)
    (hinHand : next.inHand = s.inHand)
    (hmove : ∀ m, Accounted False s.queue (m + (s.pc t).holding.toNat) →
      Accounted False next.queue (m + pc.holding.toNat)) : next.Accounts := by
  obtain ⟨k, hcount, haccounted⟩ := hs
  unfold Accounts
  rw [hpcs, hinHand]
  cases hbefore : (s.pc t).holding with
  | false =>
      rw [hbefore] at hmove
      have hnext := hmove _ haccounted
      cases hafter : pc.holding with
      | false =>
          rw [hafter] at hnext
          exact ⟨k, hcount.keep (by rw [hbefore, hafter]), hnext⟩
      | true =>
          rw [hafter] at hnext
          exact ⟨k + 1, hcount.enter hbefore hafter, hnext⟩
  | true =>
      have hpos := hcount.pos hbefore
      have hsplit : s.inHand.length + k = s.inHand.length + (k - 1) + 1 := by omega
      rw [hbefore] at hmove
      rw [hsplit] at haccounted
      have hnext := hmove _ haccounted
      cases hafter : pc.holding with
      | false =>
          rw [hafter] at hnext
          exact ⟨k - 1, hcount.leave hbefore hafter, hnext⟩
      | true =>
          rw [hafter] at hnext
          refine ⟨k, hcount.keep (by rw [hbefore, hafter]), ?_⟩
          rw [hsplit]
          exact hnext

theorem Steps.accounts {s next : System τ β} {action : Action τ β}
    (h : Steps s action next) (hs : s.Accounts) : next.Accounts := by
  cases h with
  | still calls queue pc inHand =>
      unfold Accounts
      rw [queue, pc, inHand]
      exact hs
  | started idle starts pcs inHand =>
      refine hs.move pcs inHand fun m hm => ?_
      have hstarts := starts.accounted hm
      rw [Pc.holding_of_isIdle idle] at hstarts
      rw [hstarts.2]
      exact hstarts.1
  | moved moves pcs inHand => exact hs.move pcs inHand fun m hm => moves.accounted hm
  | timed =>
      obtain ⟨k, hcount, haccounted⟩ := hs
      refine ⟨k, hcount, ?_⟩
      unfold setQueue BufferQueue.setCurrentFirstWriteTime
      split_ifs
      · exact haccounted
      · exact haccounted.of_current _ _ _
      · exact haccounted.of_current _ _ _
  | marked =>
      obtain ⟨k, hcount, haccounted⟩ := hs
      refine ⟨k, hcount, ?_⟩
      unfold setQueue BufferQueue.prepareSoftFlushCurrent
      split_ifs
      · exact haccounted
      · exact haccounted.of_current _ _ _
      · exact haccounted
  | taken empty queue pc inHand =>
      obtain ⟨k, hcount, haccounted⟩ := hs
      refine ⟨k, ?_, ?_⟩
      · rw [pc]
        exact hcount
      · have htotal := haccounted.total
        rw [empty, List.length_nil] at htotal
        rw [queue, inHand]
        refine ⟨?_, haccounted.used, haccounted.bounded, haccounted.adaptive⟩
        simp only [takeReady, List.length_nil]
        omega
  | recycled =>
      obtain ⟨k, hcount, haccounted⟩ := hs
      refine ⟨k, hcount, ?_⟩
      rw [Nat.add_comm] at haccounted
      rw [List.length_nil, Nat.zero_add]
      exact haccounted.recycle
  | trimmed =>
      obtain ⟨k, hcount, haccounted⟩ := hs
      exact ⟨k, hcount, haccounted.decay⟩

theorem Steps.options {s next : System τ β} {action : Action τ β}
    (h : Steps s action next) : next.queue.options = s.queue.options := by
  cases h with
  | still calls queue pc inHand => rw [queue]
  | started idle starts pcs inHand => exact starts.options
  | moved moves pcs inHand => exact moves.options
  | timed =>
      unfold setQueue BufferQueue.setCurrentFirstWriteTime
      split_ifs <;> rfl
  | marked =>
      unfold setQueue BufferQueue.prepareSoftFlushCurrent
      split_ifs <;> rfl
  | taken empty queue pc inHand =>
      rw [queue]
      rfl
  | recycled => rfl
  | trimmed => rfl

/-! ## The reasons -/

/-- Thread `t` calls `Append` with `p` in this step or is inside that call. -/
def Calls (s : System τ β) (action : Action τ β) (t : τ) (p : List β) : Prop :=
  ∃ time, action = .start t (.append p time) ∨ (s.pc t).op? = some (.append p time)

/-- An `Append` that fails has met a full queue, or a buffer that is too small
for its record. -/
theorem Steps.rejects {s next : System τ β} {action : Action τ β} {t : τ}
    {p : List β} {firstData : Bool} (h : Steps s action next)
    (hsized : s.Sized P) (hs : s.Accounts) (hcalls : s.Calls action t p)
    (hfails : next.pc t = .idle ⟨false, firstData⟩) :
    s.Full ∨ ∃ capacity, P capacity ∧ capacity < p.length := by
  obtain ⟨time, hcalls⟩ := hcalls
  have hinside : (∀ t op, action ≠ .start t op) →
      (s.pc t).op? = some (.append p time) :=
    fun haction => hcalls.resolve_left (haction _ _)
  -- who is inside the call and has not moved is not idle
  have hstays : next.pc t = s.pc t → (s.pc t).op? ≠ some (.append p time) := by
    intro hpc hop
    rw [← hpc, hfails] at hop
    cases hop
  cases h with
  | still calls queue pc inHand => exact absurd (hinside calls) (hstays (by rw [pc]))
  | @started u op pc next idle starts pcs inHand =>
      rw [pcs] at hfails hstays
      by_cases ht : t = u
      · subst t
        rw [Function.update_self] at hfails
        subst hfails
        generalize next.queue = queue at starts
        cases starts with
        | unmatched =>
            rcases hcalls with hcalls | hcalls
            · cases hcalls
            · rw [Pc.op?_of_isIdle idle] at hcalls
              cases hcalls
      · refine absurd (hcalls.resolve_left ?_) (hstays (Function.update_of_ne ht _ _))
        rintro hstart
        cases hstart
        exact ht rfl
  | @moved u a pc next moves pcs inHand =>
      have hop := hinside (by simp)
      rw [pcs] at hfails hstays
      by_cases ht : t = u
      · subst t
        rw [Function.update_self] at hfails
        subst hfails
        have hthread := hsized.threads u
        generalize s.pc u = before at moves hop hthread
        generalize next.queue = queue at moves
        cases moves with
        | full limit => exact .inl (full_of_atBufferLimit hs limit)
        | fullAgain limit => exact .inl (full_of_atBufferLimit hs limit)
        | released =>
            rw [Pc.op?, Option.some.injEq] at hop
            exact .inr ⟨_, hthread.1, hthread.2 _ _ hop rfl⟩
      · exact absurd hop (hstays (Function.update_of_ne ht _ _))
  | timed => exact absurd (hinside (by simp)) (hstays rfl)
  | marked => exact absurd (hinside (by simp)) (hstays rfl)
  | taken empty queue pc inHand => exact absurd (hinside (by simp)) (hstays (by rw [pc]))
  | recycled => exact absurd (hinside (by simp)) (hstays rfl)
  | trimmed => exact absurd (hinside (by simp)) (hstays rfl)

end System
end BufferQueue
end Logme
