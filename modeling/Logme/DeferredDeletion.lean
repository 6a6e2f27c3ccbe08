import Logme.LoadConfiguration

/-!
# Deferred deletion of channels

`Autodelete` takes a channel out of the map and lets it wait in `ToDelete`
until its backends are idle.  `DoAutodelete` looks for channels to release on
every log call and, forced, in `DeleteAllChannels`, but not more often than
every 100 milliseconds.  Whether a channel is idle depends on its backends: the
answers are given to the operations, for each round of the search.

`deleted` and `released` are history variables: the channels taken out of the
map and those whose backends and link the logger has removed.
-/

namespace Logme

open StepSystem

structure DeferredDeletion where
  logger : Logger
  toDelete : List Nat
  lastDoAutodelete : Nat
  numDeleting : Int
  deleted : List Nat
  released : List Nat

namespace DeferredDeletion

def start (console : Nat) (shutdownCalled : Bool) : DeferredDeletion where
  logger := { Logger.new console with shutdownCalled := shutdownCalled }
  toDelete := []
  lastDoAutodelete := 0
  numDeleting := 0
  deleted := []
  released := []

/-- The channels that the logger can hand out. -/
def live (s : DeferredDeletion) : List Nat :=
  s.logger.default.toList ++ s.logger.channels.map Prod.snd

/-- `CreateChannel`; without a name the logger picks one that is free. -/
def createChannel (s : DeferredDeletion) (name : Name) (flags : OutputFlags)
    (level : Level) : DeferredDeletion :=
  { s with logger := (s.logger.createChannelInternal name flags level).2 }

/-- `Channels.erase` -/
def unregister (s : DeferredDeletion) (name : Name) : DeferredDeletion :=
  { s with
    logger := { s.logger with
      channels := s.logger.channels.filter fun entry => entry.1 ≠ name } }

def releaseChannel (s : DeferredDeletion) (c : Nat) : DeferredDeletion :=
  { s with
    logger := (s.logger.modifyChannel c Channel.removeBackends).modifyChannel c
      Channel.removeLink
    released := s.released ++ [c] }

def deleteChannel (s : DeferredDeletion) (name : Name) : DeferredDeletion :=
  match s.logger.channels.lookup name with
  | none => s
  | some c => { s.unregister name with deleted := s.deleted ++ [c] }.releaseChannel c

def autodelete (s : DeferredDeletion) (name : Name) : DeferredDeletion :=
  match s.logger.channels.lookup name with
  | none => s
  | some c =>
      let s := s.unregister name
      { s with
        logger := s.logger.modifyChannel c Channel.freeze
        toDelete := s.toDelete ++ [c]
        numDeleting := s.numDeleting + 1
        deleted := s.deleted ++ [c] }

/-- The loop of `DoAutodelete`: the channel that a round has found is released
at the start of the next round. -/
def autodeleteLoop (force : Bool) (idle : Nat → Nat → Bool) :
    Nat → DeferredDeletion → Option DeferredDeletion
  | 0, _ => none
  | round + 1, s =>
      match s.toDelete.find? fun c => force || idle round c with
      | none => some s
      | some c =>
          autodeleteLoop force idle round
            ({ s with
              toDelete := s.toDelete.erase c
              numDeleting := s.numDeleting - 1 }.releaseChannel c)

def doAutodelete (s : DeferredDeletion) (force : Bool) (now : Nat)
    (idle : Nat → Nat → Bool) : Option DeferredDeletion :=
  if s.numDeleting = 0 ∧ force = false then some s
  else if elapsed now s.lastDoAutodelete < 100 then some s
  else
    autodeleteLoop force idle (s.toDelete.length + 1)
      { s with lastDoAutodelete := now }

/-- Backends keep their channel alive; those of the default channel go first. -/
def clearDefault (s : DeferredDeletion) : DeferredDeletion :=
  match s.logger.default with
  | none => s
  | some c =>
      { s with logger := s.logger.modifyChannel c Channel.removeBackends }

def clearEntry (l : Logger) (entry : Name × Nat) : Logger :=
  (l.modifyChannel entry.2 Channel.removeLink).modifyChannel entry.2
    Channel.removeBackends

/-- The loop over the map, and the end of `DeleteAllChannels`. -/
def clearChannels (s : DeferredDeletion) : DeferredDeletion :=
  { s with
    logger := { s.logger.channels.foldl clearEntry s.logger with
      channels := []
      default := none }
    deleted := s.deleted ++ s.live
    released := s.released ++ s.live }

def deleteAllChannels (s : DeferredDeletion) (now : Nat)
    (idle : Nat → Nat → Bool) : Option DeferredDeletion :=
  (s.clearDefault.doAutodelete true now idle).map clearChannels

end DeferredDeletion

inductive DeletionAction where
  | createChannel (name : Name) (flags : OutputFlags) (level : Level)
  | deleteChannel (name : Name)
  | autodelete (name : Name)
  | log (now : Nat) (idle : Nat → Nat → Bool)
  | deleteAllChannels (now : Nat) (idle : Nat → Nat → Bool)

namespace DeferredDeletion

def step (s : DeferredDeletion) : DeletionAction → Option DeferredDeletion
  | .createChannel name flags level => some (s.createChannel name flags level)
  | .deleteChannel name => some (s.deleteChannel name)
  | .autodelete name => some (s.autodelete name)
  | .log now idle => s.doAutodelete false now idle
  | .deleteAllChannels now idle => s.deleteAllChannels now idle

/-! ## The accounts -/

/-- The object is there and has no backends. -/
def Cleared (l : Logger) (c : Nat) : Prop :=
  ∃ channel, l.heap[c]? = some channel ∧ channel.backends = []

structure Accounted (s : DeferredDeletion) : Prop where
  counted : s.numDeleting = s.toDelete.length
  separate : (s.live ++ s.toDelete ++ s.released).Nodup
  deleted : s.deleted.Perm (s.toDelete ++ s.released)
  cleared : ∀ c ∈ s.released, Cleared s.logger c
  allocated : ∀ c ∈ s.live ++ s.toDelete ++ s.released, c < s.logger.heap.length
  named : (s.logger.channels.map Prod.fst).Nodup

theorem start_accounted (console : Nat) (shutdownCalled : Bool) :
    (start console shutdownCalled).Accounted := by
  constructor <;> simp [start, live, Logger.new]

/-! ## Channel objects -/

/-- The objects stay, and those without backends get none. -/
structure Tidies (l l' : Logger) : Prop where
  length : l'.heap.length = l.heap.length
  cleared : ∀ c, Cleared l c → Cleared l' c

theorem Tidies.refl (l : Logger) : Tidies l l := ⟨rfl, fun _ h => h⟩

theorem Tidies.trans {l₁ l₂ l₃ : Logger} (h : Tidies l₁ l₂) (h' : Tidies l₂ l₃) :
    Tidies l₁ l₃ :=
  ⟨h'.length.trans h.length, fun c hc => h'.cleared c (h.cleared c hc)⟩

theorem tidies_modifyChannel {f : Channel → Channel}
    (hf : ∀ channel, channel.backends = [] → (f channel).backends = [])
    (l : Logger) (c : Nat) : Tidies l (l.modifyChannel c f) := by
  refine ⟨List.length_modify _ _ _, ?_⟩
  rintro d ⟨channel, hd, hnone⟩
  unfold Cleared Logger.modifyChannel
  rw [List.getElem?_modify, hd]
  by_cases hcd : c = d
  · exact ⟨f channel, by simp [hcd], hf channel hnone⟩
  · exact ⟨channel, by simp [hcd], hnone⟩

theorem cleared_modifyChannel {f : Channel → Channel}
    (hf : ∀ channel, (f channel).backends = []) {l : Logger} {c : Nat}
    (hc : c < l.heap.length) : Cleared (l.modifyChannel c f) c := by
  refine ⟨f l.heap[c], ?_, hf _⟩
  unfold Logger.modifyChannel
  rw [List.getElem?_modify, List.getElem?_eq_getElem hc]
  simp

theorem freeze_backends (channel : Channel) (h : channel.backends = []) :
    channel.freeze.backends = [] := by
  simp [Channel.freeze, h]

theorem tidies_removeBackends (l : Logger) (c : Nat) :
    Tidies l (l.modifyChannel c Channel.removeBackends) :=
  tidies_modifyChannel (f := Channel.removeBackends) (fun _ _ => rfl) l c

theorem tidies_removeLink (l : Logger) (c : Nat) :
    Tidies l (l.modifyChannel c Channel.removeLink) :=
  tidies_modifyChannel (f := Channel.removeLink) (fun _ h => h) l c

theorem releaseChannel_tidies (s : DeferredDeletion) (c : Nat) :
    Tidies s.logger (s.releaseChannel c).logger :=
  (tidies_removeBackends s.logger c).trans (tidies_removeLink _ c)

theorem releaseChannel_cleared {s : DeferredDeletion} {c : Nat}
    (hc : c < s.logger.heap.length) : Cleared (s.releaseChannel c).logger c :=
  (tidies_removeLink _ c).cleared c (cleared_modifyChannel (fun _ => rfl) hc)

/-! ## Taking a channel out of the map -/

theorem perm_of_lookup {channels : List (Name × Nat)} {name : Name} {c : Nat}
    (hnamed : (channels.map Prod.fst).Nodup)
    (h : channels.lookup name = some c) :
    channels.Perm ((name, c) :: channels.filter fun entry => entry.1 ≠ name) := by
  obtain ⟨before, after, rfl, hbefore⟩ := List.lookup_eq_some_iff.mp h
  rw [List.map_append, List.map_cons, List.nodup_middle, List.nodup_cons,
    List.mem_append, not_or] at hnamed
  have hkept : ∀ part : List (Name × Nat), name ∉ part.map Prod.fst →
      part.filter (fun entry => entry.1 ≠ name) = part := by
    intro part hpart
    rw [List.filter_eq_self]
    intro entry hentry
    have hne : entry.1 ≠ name := by
      rintro rfl
      exact hpart (List.mem_map_of_mem hentry)
    simpa using hne
  rw [List.filter_append, List.filter_cons_of_neg (by simp), hkept before hnamed.1.1,
    hkept after hnamed.1.2]
  exact List.perm_middle

/-! ## The operations keep the accounts -/

/-- Moving channels between the map, `ToDelete` and the released ones. -/
theorem Accounted.moved {s t : DeferredDeletion} (h : s.Accounted)
    (hperm : (t.live ++ t.toDelete ++ t.released).Perm
      (s.live ++ s.toDelete ++ s.released))
    (htidies : Tidies s.logger t.logger)
    (hcounted : t.numDeleting = t.toDelete.length)
    (hdeleted : t.deleted.Perm (t.toDelete ++ t.released))
    (hreleased : ∀ c ∈ t.released, c ∈ s.released ∨ Cleared t.logger c)
    (hnamed : (t.logger.channels.map Prod.fst).Sublist
      (s.logger.channels.map Prod.fst)) : t.Accounted where
  counted := hcounted
  separate := hperm.nodup_iff.mpr h.separate
  deleted := hdeleted
  cleared := fun c hc =>
    (hreleased c hc).elim (fun hold => htidies.cleared c (h.cleared c hold)) id
  allocated := fun c hc => by
    rw [htidies.length]
    exact h.allocated c (hperm.mem_iff.mp hc)
  named := h.named.sublist hnamed

/-- A created channel is a new object under a new name. -/
theorem register_accounted {s : DeferredDeletion} (h : s.Accounted) {name : Name}
    (hfree : s.logger.channels.lookup name = none) (channel : Channel) :
    { s with logger := { s.logger with
        heap := s.logger.heap.concat channel
        channels := s.logger.channels.concat
          (name, s.logger.heap.length) } }.Accounted := by
  have hperm : (s.logger.default.toList ++
      (s.logger.channels.concat (name, s.logger.heap.length)).map Prod.snd ++
        s.toDelete ++ s.released).Perm
      (s.logger.heap.length :: (s.live ++ s.toDelete ++ s.released)) := by
    simp only [live, List.concat_eq_append, List.map_append, List.map_singleton,
      List.append_assoc, List.singleton_append]
    rw [← List.append_assoc, ← List.append_assoc (s.logger.default.toList)]
    exact List.perm_middle
  refine ⟨h.counted, hperm.nodup_iff.mpr (List.nodup_cons.mpr ⟨?_, h.separate⟩),
    h.deleted, ?_, ?_, ?_⟩
  · exact fun hmem => absurd (h.allocated _ hmem) (Nat.lt_irrefl _)
  · intro c hc
    obtain ⟨old, hold, hnone⟩ := h.cleared c hc
    refine ⟨old, ?_, hnone⟩
    have hlt := (List.getElem?_eq_some_iff.mp hold).1
    rw [List.concat_eq_append, List.getElem?_append_left hlt]
    exact hold
  · intro c hc
    rw [List.concat_eq_append, List.length_append, List.length_singleton]
    rcases List.mem_cons.mp (hperm.mem_iff.mp hc) with rfl | hc
    · exact Nat.lt_succ_self _
    · exact Nat.lt_succ_of_lt (h.allocated c hc)
  · dsimp only
    rw [List.concat_eq_append, List.map_append, List.map_singleton,
      List.nodup_append]
    refine ⟨h.named, List.nodup_singleton _, ?_⟩
    rintro other hother new hnew rfl
    rw [List.mem_singleton] at hnew
    subst hnew
    obtain ⟨entry, hentry, hname⟩ := List.mem_map.mp hother
    have hne := List.lookup_eq_none_iff.mp hfree entry hentry
    simp [hname] at hne

theorem createChannel_accounted {s : DeferredDeletion} (h : s.Accounted)
    (name : Name) (flags : OutputFlags) (level : Level) :
    (s.createChannel name flags level).Accounted := by
  unfold createChannel Logger.createChannelInternal
  split
  next => exact h
  next =>
    split
    next => exact h
    next hfree => exact register_accounted h hfree _

theorem unregister_live {s : DeferredDeletion} (h : s.Accounted) {name : Name}
    {c : Nat} (hc : s.logger.channels.lookup name = some c) :
    s.live.Perm (c :: (s.unregister name).live) := by
  have hperm := (perm_of_lookup h.named hc).map Prod.snd
  rw [List.map_cons] at hperm
  exact (hperm.append_left _).trans List.perm_middle

theorem lt_length_of_lookup {s : DeferredDeletion} (h : s.Accounted) {name : Name}
    {c : Nat} (hc : s.logger.channels.lookup name = some c) :
    c < s.logger.heap.length := by
  apply h.allocated
  rw [List.append_assoc]
  exact List.mem_append_left _
    ((unregister_live h hc).mem_iff.mpr List.mem_cons_self)

theorem unregister_tidies (s : DeferredDeletion) (name : Name) :
    Tidies s.logger (s.unregister name).logger := ⟨rfl, fun _ h => h⟩

theorem perm_release {l rest released : List Nat} {c : Nat}
    (h : l.Perm (c :: rest)) :
    (rest ++ (released ++ [c])).Perm (l ++ released) := by
  rw [← List.append_assoc]
  exact (List.perm_append_singleton c _).trans (h.symm.append_right released)

theorem deleteChannel_accounted {s : DeferredDeletion} (h : s.Accounted)
    (name : Name) : (s.deleteChannel name).Accounted := by
  unfold deleteChannel
  split
  next => exact h
  next c hc =>
    apply h.moved
    · exact perm_release ((unregister_live h hc).append_right s.toDelete)
    · exact (s.unregister_tidies name).trans (releaseChannel_tidies _ c)
    · exact h.counted
    · change (s.deleted ++ [c]).Perm (s.toDelete ++ (s.released ++ [c]))
      rw [← List.append_assoc]
      exact h.deleted.append_right [c]
    · intro d hd
      rcases List.mem_append.mp hd with hd | hd
      · exact .inl hd
      · rw [List.mem_singleton.mp hd]
        exact .inr (releaseChannel_cleared (lt_length_of_lookup h hc))
    · exact List.filter_sublist.map _

theorem autodelete_accounted {s : DeferredDeletion} (h : s.Accounted)
    (name : Name) : (s.autodelete name).Accounted := by
  unfold autodelete
  split
  next => exact h
  next c hc =>
    apply h.moved
    · exact (perm_release (unregister_live h hc)).append_right s.released
    · exact (s.unregister_tidies name).trans
        (tidies_modifyChannel freeze_backends _ c)
    · change s.numDeleting + 1 = ((s.toDelete ++ [c]).length : Int)
      rw [h.counted]
      simp
    · change (s.deleted ++ [c]).Perm (s.toDelete ++ [c] ++ s.released)
      have hback := h.deleted.append_right [c]
      rw [List.append_assoc] at hback ⊢
      exact hback.trans (List.perm_append_comm.append_left _)
    · exact fun d hd => .inl hd
    · exact List.filter_sublist.map _

/-! ## The search for channels to release -/

/-- A round of the loop that finds a channel. -/
theorem round_accounted {s : DeferredDeletion} (h : s.Accounted) {c : Nat}
    (hc : c ∈ s.toDelete) :
    ({ s with
      toDelete := s.toDelete.erase c
      numDeleting := s.numDeleting - 1 }.releaseChannel c).Accounted := by
  have hwaiting := List.perm_cons_erase hc
  have hin : c < s.logger.heap.length := by
    apply h.allocated
    exact List.mem_append_left _ (List.mem_append_right _ hc)
  apply h.moved
  · exact perm_release ((hwaiting.append_left s.live).trans List.perm_middle)
  · exact releaseChannel_tidies _ c
  · change s.numDeleting - 1 = ((s.toDelete.erase c).length : Int)
    rw [h.counted, hwaiting.length_eq]
    simp
  · exact h.deleted.trans (perm_release hwaiting).symm
  · intro d hd
    rcases List.mem_append.mp hd with hd | hd
    · exact .inl hd
    · rw [List.mem_singleton.mp hd]
      exact .inr (releaseChannel_cleared hin)
  · exact .refl _

/-- What `DoAutodelete` leaves alone. -/
structure Searched (s t : DeferredDeletion) : Prop where
  accounted : t.Accounted
  tidies : Tidies s.logger t.logger
  channels : t.logger.channels = s.logger.channels
  default : t.logger.default = s.logger.default

theorem autodeleteLoop_spec (force : Bool) (idle : Nat → Nat → Bool) {fuel : Nat}
    {s : DeferredDeletion} (h : s.Accounted) (hfuel : s.toDelete.length < fuel) :
    ∃ t, autodeleteLoop force idle fuel s = some t ∧ Searched s t ∧
      (force = true → t.toDelete = []) := by
  induction fuel generalizing s with
  | zero => omega
  | succ round ih =>
      unfold autodeleteLoop
      cases hfound : s.toDelete.find? fun c => force || idle round c with
      | none =>
          refine ⟨s, rfl, ⟨h, .refl _, rfl, rfl⟩, ?_⟩
          intro hforce
          rw [List.find?_eq_none, hforce] at hfound
          exact List.eq_nil_iff_forall_not_mem.mpr fun c hc => hfound c hc rfl
      | some c =>
          have hc := List.mem_of_find?_eq_some hfound
          have hlength := List.length_erase_of_mem hc
          have hpos := List.length_pos_of_mem hc
          obtain ⟨t, ht, hsearched, hempty⟩ := ih (round_accounted h hc)
            (show (s.toDelete.erase c).length < round by omega)
          refine ⟨t, ht, ⟨hsearched.accounted, ?_, hsearched.channels,
            hsearched.default⟩, hempty⟩
          exact (releaseChannel_tidies _ c).trans hsearched.tidies

theorem doAutodelete_spec {s : DeferredDeletion} (h : s.Accounted) (force : Bool)
    (now : Nat) (idle : Nat → Nat → Bool) :
    ∃ t, s.doAutodelete force now idle = some t ∧ Searched s t ∧
      (force = true → (t.toDelete = [] ↔
        s.toDelete = [] ∨ 100 ≤ elapsed now s.lastDoAutodelete)) := by
  unfold doAutodelete
  split
  next hnone =>
    refine ⟨s, rfl, ⟨h, .refl _, rfl, rfl⟩, ?_⟩
    intro hforce
    simp [hnone.2] at hforce
  next =>
    split
    next hearly =>
      refine ⟨s, rfl, ⟨h, .refl _, rfl, rfl⟩, ?_⟩
      intro _
      rw [or_iff_left (Nat.not_le.mpr hearly)]
    next hlate =>
      have hnow : { s with lastDoAutodelete := now }.Accounted :=
        ⟨h.counted, h.separate, h.deleted, h.cleared, h.allocated, h.named⟩
      obtain ⟨t, ht, hsearched, hempty⟩ :=
        autodeleteLoop_spec force idle hnow (Nat.lt_succ_self s.toDelete.length)
      refine ⟨t, ht, ⟨hsearched.accounted, hsearched.tidies, hsearched.channels,
        hsearched.default⟩, ?_⟩
      intro hforce
      exact iff_of_true (hempty hforce) (.inr (Nat.not_lt.mp hlate))

/-! ## Deleting all channels -/

theorem clearEntry_tidies (l : Logger) (entry : Name × Nat) :
    Tidies l (clearEntry l entry) :=
  (tidies_removeLink l entry.2).trans (tidies_removeBackends _ entry.2)

theorem foldl_clearEntry_tidies (channels : List (Name × Nat)) (l : Logger) :
    Tidies l (channels.foldl clearEntry l) := by
  induction channels generalizing l with
  | nil => exact .refl l
  | cons entry rest ih => exact (clearEntry_tidies l entry).trans (ih _)

theorem foldl_clearEntry_cleared {channels : List (Name × Nat)} {l : Logger}
    {c : Nat} (hc : c ∈ channels.map Prod.snd) (hin : c < l.heap.length) :
    Cleared (channels.foldl clearEntry l) c := by
  induction channels generalizing l with
  | nil => simp at hc
  | cons entry rest ih =>
      have hsame : c < (clearEntry l entry).heap.length := by
        rw [(clearEntry_tidies l entry).length]
        exact hin
      rcases List.mem_cons.mp hc with rfl | hc
      · apply (foldl_clearEntry_tidies rest _).cleared
        apply cleared_modifyChannel (fun _ => rfl)
        rw [(tidies_removeLink l entry.2).length]
        exact hin
      · exact ih hc hsame

theorem clearDefault_searched {s : DeferredDeletion} (h : s.Accounted) :
    Searched s s.clearDefault ∧ s.clearDefault.toDelete = s.toDelete ∧
      s.clearDefault.lastDoAutodelete = s.lastDoAutodelete ∧
      ∀ c, s.logger.default = some c → Cleared s.clearDefault.logger c := by
  unfold clearDefault
  split
  next hnone =>
    refine ⟨⟨h, .refl _, rfl, rfl⟩, rfl, rfl, fun c hc => ?_⟩
    simp [hnone] at hc
  next c hc =>
    have htidies := tidies_removeBackends s.logger c
    refine ⟨⟨?_, htidies, rfl, rfl⟩, rfl, rfl, ?_⟩
    · exact h.moved (.refl _) htidies h.counted h.deleted (fun _ => .inl)
        (.refl _)
    · intro d hd
      rw [hc, Option.some.injEq] at hd
      subst d
      apply cleared_modifyChannel (fun _ => rfl)
      apply h.allocated
      simp [live, hc]

theorem deleteAllChannels_spec {s : DeferredDeletion} (h : s.Accounted) (now : Nat)
    (idle : Nat → Nat → Bool) :
    ∃ t, s.deleteAllChannels now idle = some t ∧ t.Accounted ∧
      (t.toDelete = [] ↔
        s.toDelete = [] ∨ 100 ≤ elapsed now s.lastDoAutodelete) := by
  obtain ⟨hcleared, hwaiting, hlast, hdefault⟩ := clearDefault_searched h
  obtain ⟨u, hu, hsearched, hempty⟩ :=
    doAutodelete_spec hcleared.accounted true now idle
  rw [hwaiting, hlast] at hempty
  refine ⟨u.clearChannels, by rw [deleteAllChannels, hu]; rfl, ?_, hempty rfl⟩
  have haccounts := hsearched.accounted
  have hfold := foldl_clearEntry_tidies u.logger.channels u.logger
  apply haccounts.moved
  · change (u.toDelete ++ (u.released ++ u.live)).Perm _
    rw [← List.append_assoc, List.append_assoc u.live]
    exact List.perm_append_comm
  · exact ⟨hfold.length, hfold.cleared⟩
  · exact haccounts.counted
  · change (u.deleted ++ u.live).Perm (u.toDelete ++ (u.released ++ u.live))
    rw [← List.append_assoc]
    exact haccounts.deleted.append_right u.live
  · intro c hc
    rcases List.mem_append.mp hc with hc | hc
    · exact .inl hc
    · right
      have hin : c < u.logger.heap.length := haccounts.allocated c
        (List.mem_append_left _ (List.mem_append_left _ hc))
      rcases List.mem_append.mp hc with hc | hc
      · rw [hsearched.default, hcleared.default, Option.mem_toList] at hc
        exact hfold.cleared c (hsearched.tidies.cleared c (hdefault c hc))
      · exact foldl_clearEntry_cleared hc hin
  · exact List.nil_sublist _

/-! ## Runs -/

theorem step_accounted {s t : DeferredDeletion} {action : DeletionAction}
    (h : s.Accounted) (hstep : s.step action = some t) : t.Accounted := by
  cases action with
  | createChannel name flags level =>
      simp only [step, Option.some.injEq] at hstep
      exact hstep ▸ createChannel_accounted h name flags level
  | deleteChannel name =>
      simp only [step, Option.some.injEq] at hstep
      exact hstep ▸ deleteChannel_accounted h name
  | autodelete name =>
      simp only [step, Option.some.injEq] at hstep
      exact hstep ▸ autodelete_accounted h name
  | log now idle =>
      obtain ⟨u, hu, hsearched, -⟩ := doAutodelete_spec h false now idle
      rw [step, hu, Option.some.injEq] at hstep
      exact hstep ▸ hsearched.accounted
  | deleteAllChannels now idle =>
      obtain ⟨u, hu, haccounts, -⟩ := deleteAllChannels_spec h now idle
      rw [step, hu, Option.some.injEq] at hstep
      exact hstep ▸ haccounts

theorem step_isSome {s : DeferredDeletion} (h : s.Accounted)
    (action : DeletionAction) : (s.step action).isSome := by
  cases action with
  | createChannel => rfl
  | deleteChannel => rfl
  | autodelete => rfl
  | log now idle =>
      obtain ⟨u, hu, -⟩ := doAutodelete_spec h false now idle
      rw [step, hu]
      rfl
  | deleteAllChannels now idle =>
      obtain ⟨u, hu, -⟩ := deleteAllChannels_spec h now idle
      rw [step, hu]
      rfl

theorem accounted_of_reachable {console : Nat} {shutdownCalled : Bool}
    {s : DeferredDeletion}
    (h : Reachable step (start console shutdownCalled) s) : s.Accounted :=
  h.invariant (fun _ _ _ hs _ hstep => step_accounted hs hstep)
    (start_accounted console shutdownCalled)

theorem Accounted.not_waiting {s : DeferredDeletion} (h : s.Accounted) {c : Nat}
    (hc : c ∈ s.live) : c ∉ s.toDelete := by
  have hseparate := h.separate
  rw [List.append_assoc] at hseparate
  intro hwaiting
  exact (List.nodup_append.mp hseparate).2.2 c hc c
    (List.mem_append_left _ hwaiting) rfl

/-- A deleted channel waits or has been released, and only once. -/
theorem Accounted.count_eq_one {s : DeferredDeletion} (h : s.Accounted) {c : Nat}
    (hc : c ∈ s.deleted) : s.toDelete.count c + s.released.count c = 1 := by
  have hseparate := h.separate
  rw [List.append_assoc] at hseparate
  have hnodup := (List.nodup_append.mp hseparate).2.1
  rw [← List.count_append]
  exact List.count_eq_one_of_mem hnodup (h.deleted.mem_iff.mp hc)

/-- The accounts hold in every run, and every operation ends.  What waits when
`DeleteAllChannels` is called is released unless the last search was less than
100 milliseconds before. -/
theorem deferred_deletion {console : Nat} {shutdownCalled : Bool}
    {s : DeferredDeletion}
    (hreach : Reachable step (start console shutdownCalled) s) :
    s.numDeleting = s.toDelete.length ∧ (∀ c ∈ s.live, c ∉ s.toDelete) ∧
      (∀ c ∈ s.deleted, s.toDelete.count c + s.released.count c = 1) ∧
      (∀ c ∈ s.released, c ∈ s.deleted ∧ Cleared s.logger c) ∧
      (∀ action, (s.step action).isSome) ∧
      ∀ now idle t, s.step (.deleteAllChannels now idle) = some t →
        (t.toDelete = [] ↔
          s.toDelete = [] ∨ 100 ≤ elapsed now s.lastDoAutodelete) := by
  have h := accounted_of_reachable hreach
  refine ⟨h.counted, fun c hc => h.not_waiting hc, fun c hc => h.count_eq_one hc,
    fun c hc => ?_, step_isSome h, fun now idle t hstep => ?_⟩
  · exact ⟨h.deleted.mem_iff.mpr (List.mem_append_right _ hc), h.cleared c hc⟩
  · obtain ⟨u, hu, -, hempty⟩ := deleteAllChannels_spec h now idle
    rw [step, hu, Option.some.injEq] at hstep
    exact hstep ▸ hempty

/-- A channel is deleted while its backends are busy; a log call looks for
channels to release and finds none. -/
def busyChannel : List DeletionAction :=
  [.createChannel [65] .default .default, .autodelete [65],
    .log 1000 fun _ _ => false]

theorem deferred_deletion_later :
    ∃ s t, Reachable step (start 0 false) s ∧ s.toDelete = [1] ∧
      s.step (.deleteAllChannels 1100 fun _ _ => false) = some t ∧
      s.numDeleting = s.toDelete.length ∧ t.toDelete = [] := by
  have hreach : Reachable step (start 0 false) _ :=
    reachable_of_exec busyChannel rfl
  have hlast := (deferred_deletion hreach).2.2.2.2.2 1100 (fun _ _ => false) _ rfl
  exact ⟨_, _, hreach, rfl, rfl, (deferred_deletion hreach).1,
    hlast.mpr (.inr (by decide))⟩

/-- Half of the period after the search, the forced one is skipped. -/
theorem deleteAllChannels_leaves_waiting :
    ¬ ∀ s, Reachable step (start 0 false) s → ∀ now idle t,
      s.step (.deleteAllChannels now idle) = some t → t.toDelete = [] := by
  intro hall
  have hreach : Reachable step (start 0 false) _ :=
    reachable_of_exec busyChannel rfl
  have hempty := hall _ hreach 1050 (fun _ _ => false) _ rfl
  exact absurd hempty (by decide)

end DeferredDeletion

end Logme
