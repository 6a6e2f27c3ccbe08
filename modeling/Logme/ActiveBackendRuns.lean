import Logme.ActiveBackends

/-!
# Runs of the list of active backends

Insertions, removals and pops in any order, while the backends' flush times
change at any moment.  The pointers stay those of a list in every run.  Its
order is that of the times the backends were inserted with, as long as every
insertion reads these times.
-/

namespace Logme

namespace ActiveBackends

variable {ι : Type} [DecidableEq ι]

/-! ## Order -/

/-- Requests to run at once come first, the others in ascending time. -/
def InOrder (time : ι → Nat) (l : List ι) : Prop :=
  ∃ urgent later, l = urgent ++ later ∧
    (∀ b ∈ urgent, time b = RIGHT_NOW) ∧ (∀ b ∈ later, time b ≠ RIGHT_NOW) ∧
    later.Pairwise fun a b => time a ≤ time b

omit [DecidableEq ι] in
theorem inOrder_of_pairwise {time : ι → Nat} {l : List ι}
    (hne : ∀ b ∈ l, time b ≠ 0)
    (h : l.Pairwise fun a b => time a ≤ time b) : InOrder time l := by
  induction l with
  | nil => exact ⟨[], [], rfl, by simp, by simp, .nil⟩
  | cons b l ih =>
      have hb := hne b List.mem_cons_self
      have hall := h
      rw [List.pairwise_cons] at h
      by_cases hnow : time b = RIGHT_NOW
      · obtain ⟨urgent, later, rfl, hurgent, hlater, hsorted⟩ :=
          ih (fun x hx => hne x (List.mem_cons_of_mem b hx)) h.2
        refine ⟨b :: urgent, later, rfl, ?_, hlater, hsorted⟩
        intro x hx
        rcases List.mem_cons.mp hx with rfl | hx
        · exact hnow
        · exact hurgent x hx
      · refine ⟨[], b :: l, rfl, by simp, ?_, hall⟩
        intro x hx
        rcases List.mem_cons.mp hx with rfl | hx
        · exact hnow
        · have hle := h.1 x hx
          unfold RIGHT_NOW at hnow ⊢
          omega

/-- Where `ActivateBackend` links is in order when the flush times it reads
are the ones the list is ordered by. -/
theorem link_pairwise {flushTime key : ι → Nat} {active : List ι} {b : ι}
    {time : Nat} (htime : time ≠ 0) (hb : b ∉ active)
    (hread : time ≠ RIGHT_NOW → ∀ x ∈ active, flushTime x = key x)
    (hne : ∀ x ∈ active, key x ≠ 0)
    (hsorted : active.Pairwise fun x y => key x ≤ key y) :
    (FileManager.link flushTime b time active).Pairwise fun x y =>
      Function.update key b time x ≤ Function.update key b time y := by
  obtain ⟨before, after, rfl, hlink, how⟩ :=
    FileManager.link_split flushTime b time active
  have hparts := List.pairwise_append.mp hsorted
  have hbefore : ∀ x ∈ before, key x ≤ time := by
    intro x hx
    cases how with
    | front _ hnone => simp [hnone] at hx
    | back last hscheduled hnone hlast hearlier =>
        obtain ⟨front, rfl⟩ := List.getLast?_eq_some_iff.mp hlast
        have hle := hearlier.2
        rw [hread hscheduled last (by simp)] at hle
        rcases List.mem_append.mp hx with hx | hx
        · have hprev := (List.pairwise_append.mp hparts.1).2.2 x hx last (by simp)
          omega
        · rw [List.mem_singleton.mp hx]
          exact hle
    | scanned hscheduled _ hpass _ =>
        have hkey := hread hscheduled x (List.mem_append_left after hx)
        have hpassed := of_decide_eq_false (hpass x hx)
        unfold RIGHT_NOW at hpassed
        omega
  have hafter : ∀ y ∈ after, time ≤ key y := by
    intro y hy
    cases how with
    | front hnow _ =>
        have hpos := hne y (List.mem_append_right before hy)
        unfold RIGHT_NOW at hnow
        omega
    | back _ _ hnone _ _ => simp [hnone] at hy
    | scanned hscheduled _ _ hstops =>
        cases after with
        | nil => simp at hy
        | cons stop rest =>
            have hlate := List.find?_some (hstops stop rfl)
            rw [FileManager.stopsScan, decide_eq_true_eq,
              hread hscheduled stop (by simp)] at hlate
            rcases List.mem_cons.mp hy with rfl | hy
            · omega
            · have hle := (List.pairwise_cons.mp hparts.2.1).1 y hy
              omega
  have hsame : ∀ x ∈ before ++ after, Function.update key b time x = key x := by
    intro x hx
    rw [Function.update_of_ne]
    rintro rfl
    exact hb hx
  have hnew : (before ++ after).Pairwise fun x y =>
      Function.update key b time x ≤ Function.update key b time y := by
    apply hsorted.imp_of_mem
    intro x y hx hy hle
    rw [hsame x hx, hsame y hy]
    exact hle
  rw [List.pairwise_append] at hnew
  rw [hlink, List.pairwise_append, List.pairwise_cons]
  refine ⟨hnew.1, ⟨?_, hnew.2.1⟩, ?_⟩
  · intro y hy
    rw [Function.update_self, hsame y (List.mem_append_right before hy)]
    exact hafter y hy
  · intro x hx y hy
    rcases List.mem_cons.mp hy with rfl | hy
    · rw [Function.update_self, hsame x (List.mem_append_left after hx)]
      exact hbefore x hx
    · exact hnew.2.2 x hx y hy

omit [DecidableEq ι] in
theorem InOrder.congr {time time' : ι → Nat} {l : List ι} (h : InOrder time l)
    (heq : ∀ b ∈ l, time' b = time b) : InOrder time' l := by
  obtain ⟨urgent, later, rfl, hurgent, hlater, hsorted⟩ := h
  refine ⟨urgent, later, rfl, ?_, ?_, ?_⟩
  · intro b hb
    rw [heq b (List.mem_append_left later hb)]
    exact hurgent b hb
  · intro b hb
    rw [heq b (List.mem_append_right urgent hb)]
    exact hlater b hb
  · apply hsorted.imp_of_mem
    intro a b ha hb hle
    rw [heq a (List.mem_append_right urgent ha),
      heq b (List.mem_append_right urgent hb)]
    exact hle

end ActiveBackends

/-! ## Runs -/

/-- The manager's list, with the time each backend was last inserted with. -/
structure ActiveRun (ι : Type) where
  manager : ActiveBackends ι
  insertedWith : ι → Nat

inductive ActiveAction (ι : Type) where
  | activate (backend : Option ι) (time fuel : Nat)
  | deactivate (backend : Option ι)
  | remove (backend : Option ι)
  | pop
  | storeFlushTime (backend : ι) (time : Nat)

namespace ActiveRun

variable {ι : Type}

def start : ActiveRun ι where
  manager := .initial
  insertedWith := fun _ => 0

variable [DecidableEq ι]

def inserted (s : ActiveRun ι) (backend : Option ι) (time : Nat) : ι → Nat :=
  match backend with
  | none => s.insertedWith
  | some b =>
      if time = 0 then s.insertedWith
      else Function.update s.insertedWith b time

def step (s : ActiveRun ι) : ActiveAction ι → Option (ActiveRun ι)
  | .activate backend time fuel =>
      (s.manager.activateBackend fuel backend time).map fun m =>
        { manager := m, insertedWith := s.inserted backend time }
  | .deactivate backend =>
      some { s with manager := s.manager.deactivateBackend backend }
  | .remove backend =>
      some { s with manager := (s.manager.removeBackendLocked backend).2 }
  | .pop =>
      some { s with
        manager := s.manager.deactivateBackend s.manager.activeBackendsNext }
  | .storeFlushTime backend time =>
      some { s with
        manager := { s.manager with
          flushTime := Function.update s.manager.flushTime backend time } }

/-- An insertion by time finds every other linked backend with the flush time
that it was inserted with. -/
def ReadsInsertionTimes (s : ActiveRun ι) : ActiveAction ι → Prop
  | .activate (some backend) time _ =>
      time ≠ 0 → time ≠ RIGHT_NOW → ∀ b, s.manager.activeLinked b = true →
        b ≠ backend → s.manager.flushTime b = s.insertedWith b
  | _ => True

/-- What one action does to the list. -/
inductive ListStep (s t : ActiveRun ι) (l : List ι) : ActiveAction ι → Prop
  | inserted (b : ι) (time fuel : Nat) (htime : time ≠ 0)
      (holds : t.manager.Holds
        (FileManager.link s.manager.flushTime b time (l.erase b)))
      (htimes : t.insertedWith = Function.update s.insertedWith b time) :
      ListStep s t l (.activate (some b) time fuel)
  | kept {action : ActiveAction ι} (l' : List ι) (holds : t.manager.Holds l')
      (hsub : l'.Sublist l) (htimes : t.insertedWith = s.insertedWith) :
      ListStep s t l action

theorem step_listStep {s t : ActiveRun ι} {action : ActiveAction ι} {l : List ι}
    (h : s.manager.Holds l) (hstep : s.step action = some t) :
    s.ListStep t l action := by
  cases action with
  | activate backend time fuel =>
      obtain ⟨m, hm, rfl⟩ := Option.map_eq_some_iff.mp hstep
      cases backend with
      | none =>
          simp only [ActiveBackends.activateBackend, Option.some.injEq] at hm
          exact .kept l (hm ▸ h) (.refl l) rfl
      | some b =>
          by_cases htime : time = 0
          · simp only [ActiveBackends.activateBackend, htime, if_true,
              Option.some.injEq] at hm
            exact .kept l (hm ▸ h) (.refl l) (if_pos htime)
          · exact .inserted b time fuel htime (h.of_activateBackend htime hm)
              (if_neg htime)
  | deactivate backend =>
      simp only [step, Option.some.injEq] at hstep
      subst t
      obtain ⟨l', hholds, hsub⟩ := h.deactivate backend
      exact .kept l' hholds hsub rfl
  | remove backend =>
      simp only [step, Option.some.injEq] at hstep
      subst t
      obtain ⟨l', hholds, hsub⟩ := h.removeBackendLocked backend
      exact .kept l' hholds hsub rfl
  | pop =>
      simp only [step, Option.some.injEq] at hstep
      subst t
      obtain ⟨l', hholds, hsub⟩ := h.deactivate s.manager.activeBackendsNext
      exact .kept l' hholds hsub rfl
  | storeFlushTime backend time =>
      simp only [step, Option.some.injEq] at hstep
      subst t
      exact .kept l ⟨h.nodup, h.pointers, h.linked⟩ (.refl l) rfl

theorem holds_of_reachable {s : ActiveRun ι}
    (h : StepSystem.Reachable step start s) : ∃ l, s.manager.Holds l := by
  apply h.invariant (I := fun s => ∃ l, s.manager.Holds l)
  · rintro s action t ⟨l, hl⟩ - hstep
    cases step_listStep hl hstep with
    | inserted b time fuel htime holds htimes => exact ⟨_, holds⟩
    | kept l' holds hsub htimes => exact ⟨l', holds⟩
  · exact ⟨[], ActiveBackends.initial_holds⟩

/-- The list and the order of the times in it. -/
structure Ordered (s : ActiveRun ι) (l : List ι) : Prop where
  holds : s.manager.Holds l
  timed : ∀ b ∈ l, s.insertedWith b ≠ 0
  sorted : l.Pairwise fun a b => s.insertedWith a ≤ s.insertedWith b

theorem Ordered.step {s t : ActiveRun ι} {action : ActiveAction ι} {l : List ι}
    (h : s.Ordered l) (hreads : s.ReadsInsertionTimes action)
    (hstep : s.step action = some t) : ∃ l', t.Ordered l' := by
  cases step_listStep h.holds hstep with
  | inserted b time fuel htime holds htimes =>
      have hmem : ∀ x, x ∈ l.erase b → x ∈ l ∧ x ≠ b := fun x hx =>
        ⟨List.mem_of_mem_erase hx,
          ((h.holds.nodup.mem_erase_iff).mp hx).1⟩
      refine ⟨_, holds, ?_, ?_⟩
      · intro x hx
        rw [(FileManager.link_perm _ b time _).mem_iff, List.mem_cons] at hx
        rw [htimes]
        by_cases hxb : x = b
        · rw [hxb, Function.update_self]
          exact htime
        · rw [Function.update_of_ne hxb]
          exact h.timed x (hmem x (hx.resolve_left hxb)).1
      · rw [htimes]
        apply ActiveBackends.link_pairwise htime h.holds.nodup.not_mem_erase
        · intro hscheduled x hx
          obtain ⟨hxl, hxb⟩ := hmem x hx
          exact hreads htime hscheduled x ((h.holds.linked x).mpr hxl) hxb
        · exact fun x hx => h.timed x (hmem x hx).1
        · exact h.sorted.sublist List.erase_sublist
  | kept l' holds hsub htimes =>
      refine ⟨l', holds, ?_, ?_⟩
      · rw [htimes]
        exact fun b hb => h.timed b (hsub.mem hb)
      · rw [htimes]
        exact h.sorted.sublist hsub

theorem ordered_of_run {s : ActiveRun ι}
    (h : StepSystem.Run step ReadsInsertionTimes start s) :
    ∃ l, s.Ordered l := by
  apply h.invariant (I := fun s => ∃ l, s.Ordered l)
  · rintro s action t ⟨l, hl⟩ hreads hstep
    exact hl.step hreads hstep
  · exact ⟨[], ActiveBackends.initial_holds, by simp, .nil⟩

/-- The pointers are those of a list in every run, and inserting ends; the list
is in the order of the insertion times when these are what insertions read. -/
theorem active_list_well_formed :
    (∀ s : ActiveRun ι, StepSystem.Reachable step start s →
      ∃ l, s.manager.Holds l ∧ ∀ backend time, ∃ fuel, ∀ more, fuel ≤ more →
        (s.manager.activateBackend more backend time).isSome) ∧
    ∀ s : ActiveRun ι, StepSystem.Run step ReadsInsertionTimes start s →
      ∃ l, s.manager.Holds l ∧ ActiveBackends.InOrder s.insertedWith l ∧
        ((∀ b ∈ l, s.manager.flushTime b = s.insertedWith b) →
          ActiveBackends.InOrder s.manager.flushTime l) := by
  constructor
  · intro s hs
    obtain ⟨l, hl⟩ := holds_of_reachable hs
    refine ⟨l, hl, fun backend time => ⟨l.length + 1, ?_⟩⟩
    exact fun more hmore => hl.activateBackend_isSome backend time hmore
  · intro s hs
    obtain ⟨l, hl⟩ := ordered_of_run hs
    have horder := ActiveBackends.inOrder_of_pairwise hl.timed hl.sorted
    exact ⟨l, hl.holds, horder, horder.congr⟩

theorem active_list_well_formed_two :
    ∃ s : ActiveRun Bool, StepSystem.Run step ReadsInsertionTimes start s ∧
      s.manager.activeBackendsNext = some true ∧ s.insertedWith false = 500 ∧
      ∃ l, s.manager.Holds l ∧ ActiveBackends.InOrder s.insertedWith l := by
  have hurgent : StepSystem.Run step ReadsInsertionTimes (start : ActiveRun Bool) _ :=
    (StepSystem.Run.refl.snoc (a := .storeFlushTime true 1) trivial rfl).snoc
      (a := .activate (some true) 1 0) (fun _ h => absurd rfl h) rfl
  have hrun := hurgent.snoc (a := .activate (some false) 500 2)
    (by
      rintro - - (_ | _) - hb
      · exact absurd rfl hb
      · rfl)
    rfl
  obtain ⟨l, hl, horder, -⟩ := active_list_well_formed.2 _ hrun
  exact ⟨_, hrun, by decide, by decide, l, hl, horder⟩

/-- A flush time that changes and changes back while its backend is linked:
another backend has been inserted in front of it in between. -/
def changedBack : List (ActiveAction Bool) :=
  [.storeFlushTime true 1, .activate (some true) 1 0,
    .storeFlushTime true 1000, .storeFlushTime false 500,
    .activate (some false) 500 1, .storeFlushTime true 1]

def aheadOfUrgent (s : ActiveRun Bool) : Bool :=
  s.manager.activeBackendsNext == some false && s.manager.activeLinked true &&
    s.manager.flushTime true == 1 && s.insertedWith true == 1 &&
    s.manager.flushTime false == 500 && s.insertedWith false == 500

theorem current_times_do_not_order :
    ¬ ∀ s : ActiveRun Bool, StepSystem.Reachable step start s →
      ∃ l, s.manager.Holds l ∧
        ((∀ b ∈ l, s.manager.flushTime b = s.insertedWith b) →
          ActiveBackends.InOrder s.manager.flushTime l) := by
  intro hall
  obtain ⟨s, hs, hcheck⟩ := StepSystem.exists_reachable_of_exec step start
    changedBack aheadOfUrgent (by decide)
  simp only [aheadOfUrgent, Bool.and_eq_true, beq_iff_eq] at hcheck
  obtain ⟨⟨⟨⟨⟨hhead, hlinked⟩, htrue⟩, htrue'⟩, hfalse⟩, hfalse'⟩ := hcheck
  obtain ⟨l, hl, himp⟩ := hall s hs
  obtain ⟨urgent, later, rfl, hurgent, hlater, -⟩ := himp (by
    intro b _
    cases b
    · rw [hfalse, hfalse']
    · rw [htrue, htrue'])
  have hfirst : (urgent ++ later).head? = some false := by
    rw [← hl.pointers.head]
    exact hhead
  cases urgent with
  | nil => exact hlater true ((hl.linked true).mp hlinked) htrue
  | cons b urgent =>
      simp only [List.cons_append, List.head?_cons, Option.some.injEq] at hfirst
      have hnow := hurgent b List.mem_cons_self
      rw [hfirst, hfalse] at hnow
      simp [RIGHT_NOW] at hnow

end ActiveRun

end Logme
