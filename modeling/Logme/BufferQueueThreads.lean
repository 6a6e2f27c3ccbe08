import Logme.BufferQueueInterleaving

/-!
# What one thread does to the queue

A thread inside a queue operation leaves the other threads and the consumer's
side alone.  A publisher touches the current buffer only when nobody holds
`DataLock`; an appender, which holds it, adds its bytes at the end of the
current buffer in exactly one of its steps.
-/

namespace Logme
namespace BufferQueue

open StepSystem

variable {τ β : Type}

def Pc.op? : Pc β → Option (Op β)
  | .idle _ => none
  | .takeFree op => some op
  | .createCheck op => some op
  | .createCount op _ => some op
  | .install op _ _ => some op
  | .releaseReplacement op _ _ => some op
  | .grow op _ _ => some op
  | .enqueue op _ => some op

/-- A publisher that was refused still holds `DataLock`. -/
def Pc.releasing : Pc β → Bool
  | .releaseReplacement _ _ _ => true
  | _ => false

/-- An append has put its bytes into the queue. -/
def Pc.appended : Pc β → Bool
  | .idle result => result.ok
  | .releaseReplacement _ _ result => result.ok
  | .grow _ _ _ => true
  | .enqueue _ _ => true
  | _ => false

def Pc.Installs (pc : Pc β) : Prop :=
  ∃ op replacement allocated, pc = .install op replacement allocated

namespace System

variable [DecidableEq τ]

theorem step_conserves {s next : System τ β} {action : Action τ β}
    (hinv : s.Inv) (hperm : s.view.content.Perm s.accepted)
    (hstep : s.step action = some next) :
    next.Inv ∧ next.view.content.Perm next.accepted := by
  rcases step_matches hinv hstep with ⟨hnext, hmoves⟩
  exact ⟨hnext, HandoffPipeline.run_conserves hmoves hperm⟩

/-- What one step of a thread inside a queue operation leaves alone. -/
structure ThreadFrame (s next : System τ β) (t : τ) : Prop where
  others : ∀ u, u ≠ t → next.pc u = s.pc u
  handedOut : next.handedOut = s.handedOut
  inHand : next.inHand = s.inHand
  op : ∀ op, (next.pc t).op? = some op → (s.pc t).op? = some op

/-- What a publisher can do to the rest: it replaces the current buffer only
while nobody holds `DataLock`. -/
structure PublishStep (s next : System τ β) (t : τ) : Prop extends
    ThreadFrame s next t where
  accepted : next.accepted = s.accepted
  current : s.dataLock ≠ none →
    next.queue.current.data = s.queue.current.data
  lock : s.dataLock ≠ none →
    next.dataLock = s.dataLock ∨ (s.pc t).releasing = true
  releasing : (next.pc t).releasing = true → next.dataLock = some t

/-- What an appender does, which holds `DataLock`. -/
structure AppendStep (s next : System τ β) (t : τ) (text : List β) : Prop
    extends ThreadFrame s next t where
  dataLock : next.dataLock = s.dataLock
  bytes :
    ((next.pc t).appended = (s.pc t).appended ∧
        next.accepted = s.accepted ∧
        next.queue.current.data = s.queue.current.data) ∨
      ((s.pc t).appended = false ∧ (next.pc t).appended = true ∧
        next.accepted = s.accepted ++ text ∧
        text.IsSuffix next.queue.current.data)

/-- What a step that installs nothing does: the current buffer stays, and only a
publisher that was refused gives `DataLock` back. -/
structure OwnStep (s next : System τ β) (t : τ) : Prop extends
    ThreadFrame s next t where
  accepted : next.accepted = s.accepted
  current : next.queue.current = s.queue.current
  appended : (next.pc t).appended = (s.pc t).appended
  lock : next.dataLock = s.dataLock ∨ ((s.pc t).releasing = true ∧
    ∀ text time, (s.pc t).op? ≠ some (.append text time))
  releasing : (next.pc t).releasing = false

theorem stepThread_own {s next : System τ β} {t : τ} {a : Allocation}
    (hinstalls : ¬ (s.pc t).Installs) (hstep : s.stepThread t a = some next) :
    OwnStep s next t := by
  have hset : ∀ (r : System τ β) (pc : Pc β), r.pc = Function.update s.pc t pc →
      r.handedOut = s.handedOut → r.inHand = s.inHand → r.accepted = s.accepted →
      r.queue.current = s.queue.current →
      (r.dataLock = s.dataLock ∨ ((s.pc t).releasing = true ∧
        ∀ text time, (s.pc t).op? ≠ some (.append text time))) →
      (∀ op, pc.op? = some op → (s.pc t).op? = some op) →
      pc.appended = (s.pc t).appended → pc.releasing = false → OwnStep s r t := by
    intro r pc hpc hhanded hhand haccepted hcurrent hlock hop happended hreleasing
    have hself : r.pc t = pc := by rw [hpc, Function.update_self]
    refine ⟨⟨fun u hu => ?_, hhanded, hhand, ?_⟩, haccepted, hcurrent, ?_, hlock, ?_⟩
    · rw [hpc, Function.update_of_ne hu]
    · rw [hself]
      exact hop
    · rw [hself]
      exact happended
    · rw [hself]
      exact hreleasing
  unfold stepThread at hstep
  cases hpc : s.pc t with
  | idle result => simp [hpc] at hstep
  | takeFree op =>
      have hcurrent := tryTakeFreeBuffer_current s.queue
      simp only [hpc] at hstep
      split at hstep
      next htake =>
        rw [htake] at hcurrent
        cases hstep
        exact hset _ _ rfl rfl rfl rfl hcurrent (.inl rfl) (by rw [hpc]; exact fun _ h => h)
          (by rw [hpc]; rfl) rfl
      next htake =>
        rw [htake] at hcurrent
        cases hstep
        exact hset _ _ rfl rfl rfl rfl hcurrent (.inl rfl) (by rw [hpc]; exact fun _ h => h)
          (by rw [hpc]; rfl) rfl
  | createCheck op =>
      simp only [hpc] at hstep
      split_ifs at hstep
      · cases hstep
        exact hset _ _ rfl rfl rfl rfl rfl (.inl rfl) nofun (by rw [hpc]; rfl) rfl
      · cases hstep
        exact hset _ _ rfl rfl rfl rfl rfl (.inl rfl) (by rw [hpc]; exact fun _ h => h)
          (by rw [hpc]; rfl) rfl
  | createCount op buffer =>
      simp only [hpc] at hstep
      split_ifs at hstep
      · cases hstep
        exact hset _ _ rfl rfl rfl rfl rfl (.inl rfl) nofun (by rw [hpc]; rfl) rfl
      · cases hstep
        exact hset _ _ rfl rfl rfl rfl rfl (.inl rfl) (by rw [hpc]; exact fun _ h => h)
          (by rw [hpc]; rfl) rfl
  | install op replacement allocated => exact absurd ⟨_, _, _, hpc⟩ hinstalls
  | releaseReplacement op replacement result =>
      simp only [hpc, Option.some.injEq] at hstep
      subst next
      refine hset _ _ rfl rfl rfl rfl rfl ?_ nofun (by rw [hpc]; rfl) rfl
      cases op with
      | append text time => exact .inl rfl
      | publishCurrent => exact .inr ⟨by rw [hpc]; rfl, by rw [hpc]; exact nofun⟩
      | publishCurrentIfMatches expected =>
          exact .inr ⟨by rw [hpc]; rfl, by rw [hpc]; exact nofun⟩
  | grow op old allocated =>
      simp only [hpc, Option.some.injEq] at hstep
      subst next
      exact hset _ _ rfl rfl rfl rfl (maybeGrowAdaptive_current _ _) (.inl rfl)
        (by rw [hpc]; exact fun _ h => h) (by rw [hpc]; rfl) rfl
  | enqueue op old =>
      simp only [hpc, Option.some.injEq] at hstep
      subst next
      exact hset _ _ rfl rfl rfl rfl (enqueueReady_current _ _) (.inl rfl) nofun
        (by rw [hpc]; rfl) rfl

theorem stepThread_frame {s next : System τ β} {t : τ} {a : Allocation}
    (hstep : s.stepThread t a = some next) : ThreadFrame s next t := by
  by_cases hinstalls : (s.pc t).Installs
  · obtain ⟨op, replacement, allocated, hpc⟩ := hinstalls
    have hset : ∀ (r : System τ β) (pc : Pc β),
        r.pc = Function.update s.pc t pc → r.handedOut = s.handedOut →
        r.inHand = s.inHand → pc.op? = some op → ThreadFrame s r t := by
      intro r pc hupdate hhanded hhand hop
      refine ⟨fun u hu => ?_, hhanded, hhand, ?_⟩
      · rw [hupdate, Function.update_of_ne hu]
      · rw [hupdate, Function.update_self, hop, hpc]
        exact fun _ h => h
    unfold stepThread at hstep
    simp only [hpc, install] at hstep
    cases op <;> simp only at hstep <;> split_ifs at hstep <;> cases hstep <;>
      exact hset _ _ rfl rfl rfl rfl
  · exact (stepThread_own hinstalls hstep).toThreadFrame

theorem publish_step {s next : System τ β} {t : τ} {a : Allocation}
    (hop : (s.pc t).op? = some .publishCurrent)
    (hstep : s.stepThread t a = some next) : PublishStep s next t := by
  by_cases hinstalls : (s.pc t).Installs
  · have hframe := stepThread_frame hstep
    obtain ⟨op, replacement, allocated, hpc⟩ := hinstalls
    simp only [hpc, Pc.op?, Option.some.injEq] at hop
    subst op
    unfold stepThread at hstep
    simp only [hpc, install] at hstep
    split_ifs at hstep with hlock hrefused
    · cases hstep
      exact ⟨hframe, rfl, fun _ => rfl, fun h => absurd h hlock, fun _ => rfl⟩
    · cases hstep
      exact ⟨hframe, rfl, fun h => absurd h hlock, fun _ => .inl rfl,
        by simp [setPc, Pc.releasing]⟩
  · have hown := stepThread_own hinstalls hstep
    refine ⟨hown.toThreadFrame, hown.accepted, fun _ => congrArg _ hown.current,
      fun _ => hown.lock.imp_right And.left, fun hreleasing => ?_⟩
    rw [hown.releasing] at hreleasing
    contradiction

theorem append_step {s next : System τ β} {t : τ} {a : Allocation}
    {text : List β} {time : Nat}
    (hop : (s.pc t).op? = some (.append text time))
    (hstep : s.stepThread t a = some next) : AppendStep s next t text := by
  by_cases hinstalls : (s.pc t).Installs
  · have hframe := stepThread_frame hstep
    obtain ⟨op, replacement, allocated, hpc⟩ := hinstalls
    simp only [hpc, Pc.op?, Option.some.injEq] at hop
    subst op
    unfold stepThread at hstep
    simp only [hpc, install] at hstep
    split_ifs at hstep with happend hreplace
    · cases hstep
      refine ⟨hframe, rfl, .inr ⟨by rw [hpc]; rfl, by simp [setPc, Pc.appended], rfl, ?_⟩⟩
      exact ⟨s.queue.current.data, by simp⟩
    · cases hstep
      refine ⟨hframe, rfl, .inr ⟨by rw [hpc]; rfl, by simp [setPc, Pc.appended], rfl, ?_⟩⟩
      exact ⟨[], by simp [replaceAndAppend]⟩
    · cases hstep
      exact ⟨hframe, rfl, .inl ⟨by simp [hpc, setPc, Pc.appended, failed], rfl, rfl⟩⟩
  · have hown := stepThread_own hinstalls hstep
    refine ⟨hown.toThreadFrame, hown.lock.resolve_right fun h => h.2 text time hop,
      .inl ⟨hown.appended, hown.accepted, congrArg _ hown.current⟩⟩

/-- `Append` at its entry: the bytes fit, or the search for a replacement
starts. -/
theorem start_append {s next : System τ β} {t : τ} {text : List β}
    {time : Nat} (hstep : s.step (.start t (.append text time)) = some next) :
    (∀ u, u ≠ t → next.pc u = s.pc u) ∧ next.handedOut = s.handedOut ∧
      next.inHand = s.inHand ∧ next.dataLock = s.dataLock ∧
      (∀ op, (next.pc t).op? = some op → op = .append text time) ∧
      (((next.pc t).appended = false ∧ next.accepted = s.accepted ∧
          next.queue.current.data = s.queue.current.data) ∨
        ((next.pc t).appended = true ∧
          next.accepted = s.accepted ++ text ∧
          text.IsSuffix next.queue.current.data)) := by
  simp only [step, start] at hstep
  split_ifs at hstep with hidle hlock hempty happend
  · simp only [Option.some.injEq] at hstep
    subst next
    rw [List.length_eq_zero_iff] at hempty
    subst text
    refine ⟨fun u hu => Function.update_of_ne hu _ _, rfl, rfl, rfl, ?_,
      .inr ⟨?_, (List.append_nil _).symm, List.nil_suffix⟩⟩
    · simp [setPc, Pc.op?]
    · simp [setPc, Pc.appended]
  · simp only [Option.some.injEq] at hstep
    subst next
    refine ⟨fun u hu => Function.update_of_ne hu _ _, rfl, rfl, rfl, ?_,
      .inr ⟨?_, rfl, s.queue.current.data, by simp⟩⟩
    · simp [setPc, Pc.op?]
    · simp [setPc, Pc.appended]
  · simp only [Option.some.injEq] at hstep
    subst next
    refine ⟨fun u hu => Function.update_of_ne hu _ _, rfl, rfl, rfl, ?_,
      .inl ⟨?_, rfl, rfl⟩⟩
    · simp only [setPc, Function.update_self, Pc.op?, Option.some.injEq]
      exact fun op h => h.symm
    · simp [setPc, Pc.appended]

theorem start_publish {s next : System τ β} {t : τ}
    (hstep : s.step (.start t .publishCurrent) = some next) :
    next = s.setPc t (.takeFree .publishCurrent) := by
  simp only [step, start] at hstep
  split_ifs at hstep
  simp only [Option.some.injEq] at hstep
  exact hstep.symm

end System
end BufferQueue
end Logme
