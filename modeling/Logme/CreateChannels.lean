import Logme.BackendConfigs

/-!
# Creating the configured channels

`CreateChannels` builds one object for each configuration of a channel, with its
backends, and then links the objects.  A link is set by the names in the
configurations, which are looked up among the objects as C strings.
-/

namespace Logme

structure ChannelConfig where
  enabled : Bool := true
  name : Name
  flags : OutputFlags := .default
  filter : Level := .info
  backend : List TypedBackend := []
  link : Option Name := none

/-- A backend object; for a `FileBackend` the name of its file and the home
directory of its archives. -/
structure CreatedBackend where
  config : LoadedBackend
  name : Name
  archiveHome : Name

/-- What is created from a configuration and where relative names of files are
taken from. -/
structure ConfigState where
  logger : Logger
  backends : List CreatedBackend
  home : Name

/-- How messages are written, what `ProcessTemplate` makes of a text, and whether
a file can be opened and what the library reports about it. -/
structure ConfigEnvironment where
  setting : Logger.MessageSetting
  template : Name → Name
  openFile : FileBackendConfig → Name → Bool × List Logger.InternalMessage

/-- `TYPE_ID`, where `ApplyConfig` checks it. -/
def LoadedBackend.checkedType : LoadedBackend → Option Name
  | .file _ => some (ascii "FileBackend")
  | .sharedFile _ => some (ascii "SharedFileBackend")
  | .console _ => some (ascii "ConsoleBackend")
  | .buffer _ => some (ascii "BufferBackend")
  | .ringBuffer _ => some (ascii "RingBufferBackend")
  | .callback _ => some (ascii "CallbackBackend")
  | .windowsEventLog _ | .debug _ => none

/-- `IsAbsolutePath`. -/
def isAbsoluteName (name : Name) : Bool :=
  name.head? = some 0x2F || name.head? = some 0x5C

/-- A relative name is taken from the home directory. -/
def resolveName (home name : Name) : Name :=
  if isAbsoluteName name then name else home ++ name

/-- A channel object that is not registered under its name. -/
def Logger.withObject (l : Logger) (channel : Channel) : Logger :=
  { l with heap := l.heap ++ [channel] }

namespace ConfigState

variable (env : ConfigEnvironment)

/-- `Create` and `ApplyConfig`: the backend, if it could be created. -/
def applyConfig (s : ConfigState) (b : TypedBackend) :
    Option CreatedBackend × ConfigState :=
  if s.logger.shutdownCalled ∨ b.config.checkedType.any (· ≠ b.type) then (none, s)
  else
    match b.config with
    | .file config =>
        let name := resolveName s.home (env.template config.filename)
        let opened := env.openFile config name
        (if opened.1 then some ⟨b.config, name, s.home⟩ else none,
          { s with logger := opened.2.foldl (Logger.report env.setting) s.logger })
    | _ => (some ⟨b.config, [], []⟩, s)

def addBackend (s : ConfigState) (object : Nat) (backend : CreatedBackend) :
    ConfigState :=
  { s with
    logger := s.logger.modifyChannel object (Channel.addBackend · s.backends.length)
    backends := s.backends ++ [backend] }

/-- One round of the loop over the backends. -/
def createBackend (object : Nat) (s : ConfigState) (b : TypedBackend) :
    Bool × ConfigState :=
  match s.applyConfig env b with
  | (none, s) => (false, s)
  | (some backend, s) => (true, s.addBackend object backend)

def createBackends (object : Nat) : ConfigState → List TypedBackend → Bool × ConfigState
  | s, [] => (true, s)
  | s, b :: rest =>
      let created := s.createBackend env object b
      let later := createBackends object created.2 rest
      (created.1 && later.1, later.2)

/-- The object is the next one of the heap. -/
def createObject (s : ConfigState) (c : ChannelConfig) : Bool × ConfigState :=
  let channel := (Channel.new (cString c.name) c.flags c.filter).setEnabled c.enabled
  createBackends env s.logger.heap.length
    { s with logger := s.logger.withObject channel } c.backend

/-- The first loop of `CreateChannels`, with the objects. -/
def createObjects : ConfigState → List ChannelConfig →
    Bool × ConfigState × List (ChannelConfig × Nat)
  | s, [] => (true, s, [])
  | s, c :: rest =>
      let created := s.createObject env c
      let later := createObjects created.2 rest
      (created.1 && later.1, later.2.1, (c, s.logger.heap.length) :: later.2.2)

/-! ## The objects before they are linked -/

section Objects

variable {env} {s : ConfigState}

/-- An object without a link. -/
def Unlinked (l : Logger) (object : Nat) : Prop :=
  ∃ channel, l.heap[object]? = some channel ∧ channel.link = none ∧ channel.linkTo = none

theorem lt_of_unlinked {l : Logger} {object : Nat} (h : Unlinked l object) :
    object < l.heap.length := by
  obtain ⟨channel, hchannel, -⟩ := h
  exact (List.getElem?_eq_some_iff.mp hchannel).1

theorem Unlinked.withObject {l : Logger} {object : Nat} (h : Unlinked l object)
    (channel : Channel) : Unlinked (l.withObject channel) object := by
  have hlt := lt_of_unlinked h
  obtain ⟨old, hold, hnone⟩ := h
  exact ⟨old, by rwa [Logger.withObject, List.getElem?_append_left hlt], hnone⟩

theorem Unlinked.modifyChannel {l : Logger} {object c : Nat} {f : Channel → Channel}
    (h : Unlinked l object)
    (hf : ∀ channel, (f channel).link = channel.link ∧ (f channel).linkTo = channel.linkTo) :
    Unlinked (l.modifyChannel c f) object := by
  obtain ⟨old, hold, hlink, hlinkTo⟩ := h
  rw [Unlinked, Logger.modifyChannel, List.getElem?_modify, hold]
  by_cases hc : c = object
  · refine ⟨f old, by simp [hc], ?_, ?_⟩
    · rw [(hf old).1, hlink]
    · rw [(hf old).2, hlinkTo]
  · exact ⟨old, by simp [hc], hlink, hlinkTo⟩

theorem Unlinked.reports {l : Logger} {object : Nat}
    {messages : List Logger.InternalMessage} {setting : Logger.MessageSetting}
    (h : Unlinked l object) : Unlinked (messages.foldl (Logger.report setting) l) object := by
  induction messages generalizing l with
  | nil => exact h
  | cons message rest ih =>
      refine ih ?_
      have hgrows := Logger.report_grows setting message
        (.inl rfl : l.messageNames Logger.internalChannel) l.linksNamed_messageNames
      obtain ⟨channel, hchannel, hnone⟩ := h
      exact ⟨channel, hgrows.extends'.kept object channel hchannel, hnone⟩

theorem addBackend_links (channel : Channel) (id : Nat) :
    (channel.addBackend id).link = channel.link ∧
      (channel.addBackend id).linkTo = channel.linkTo := by
  unfold Channel.addBackend
  split <;> exact ⟨rfl, rfl⟩

theorem applyConfig_unlinked (env : ConfigEnvironment) (b : TypedBackend) {object : Nat}
    (h : Unlinked s.logger object) : Unlinked (s.applyConfig env b).2.logger object := by
  unfold applyConfig
  split
  next => exact h
  next =>
    split
    next => exact h.reports
    next => exact h

theorem createBackend_unlinked {b : TypedBackend} {object c : Nat}
    (h : Unlinked s.logger object) :
    Unlinked (s.createBackend env c b).2.logger object := by
  have happlied := applyConfig_unlinked env b h
  unfold createBackend
  split
  next s' heq =>
    rw [heq] at happlied
    exact happlied
  next backend s' heq =>
    rw [heq] at happlied
    exact happlied.modifyChannel fun channel => addBackend_links channel _

theorem createBackends_unlinked {backends : List TypedBackend} {object c : Nat}
    (h : Unlinked s.logger object) :
    Unlinked (createBackends env c s backends).2.logger object := by
  induction backends generalizing s with
  | nil => exact h
  | cons b rest ih => exact ih (createBackend_unlinked h)

theorem createObject_unlinked {c : ChannelConfig} {object : Nat}
    (h : Unlinked s.logger object) : Unlinked (s.createObject env c).2.logger object :=
  createBackends_unlinked (h.withObject _)

/-- The new object. -/
theorem createObject_new (env : ConfigEnvironment) (s : ConfigState) (c : ChannelConfig) :
    Unlinked (s.createObject env c).2.logger s.logger.heap.length := by
  refine createBackends_unlinked ⟨_, List.getElem?_concat_length, ?_⟩
  exact ⟨rfl, rfl⟩

/-- The objects are new ones, in the order of the configurations. -/
structure Objects (s s' : ConfigState) (arr : List ChannelConfig)
    (objects : List (ChannelConfig × Nat)) : Prop where
  configs : objects.map Prod.fst = arr
  fresh : ∀ q ∈ objects, s.logger.heap.length ≤ q.2
  distinct : (objects.map Prod.snd).Nodup
  unlinked : ∀ q ∈ objects, Unlinked s'.logger q.2
  kept : ∀ object, Unlinked s.logger object → Unlinked s'.logger object

theorem createObjects_spec (env : ConfigEnvironment) (s : ConfigState) (arr : List ChannelConfig) :
    Objects s (s.createObjects env arr).2.1 arr (s.createObjects env arr).2.2 := by
  induction arr generalizing s with
  | nil => exact ⟨rfl, nofun, List.nodup_nil, nofun, fun _ h => h⟩
  | cons c rest ih =>
      obtain ⟨hconfigs, hfresh, hdistinct, hunlinked, hkept⟩ := ih (s.createObject env c).2
      have hnew := createObject_new env s c
      have hlt := lt_of_unlinked hnew
      have hlater : ∀ q ∈ ((s.createObject env c).2.createObjects env rest).2.2,
          s.logger.heap.length < q.2 := fun q hq => hlt.trans_le (hfresh q hq)
      refine ⟨?_, ?_, ?_, ?_, fun object h => hkept object (createObject_unlinked h)⟩
      · rw [createObjects, List.map_cons, hconfigs]
      · intro q hq
        rcases List.mem_cons.mp hq with rfl | hq
        · exact Nat.le_refl _
        · exact (hlater q hq).le
      · rw [createObjects, List.map_cons, List.nodup_cons]
        refine ⟨fun hmem => ?_, hdistinct⟩
        obtain ⟨q, hq, heq⟩ := List.mem_map.mp hmem
        exact (hlater q hq).ne' heq
      · intro q hq
        rcases List.mem_cons.mp hq with rfl | hq
        · exact hkept _ hnew
        · exact hunlinked q hq

end Objects

end ConfigState

def lookupChannel : List (ChannelConfig × Nat) → Name → Option Nat
  | [], _ => none
  | (c, object) :: rest, name =>
      if name = [] ∨ c.name = name then some object else lookupChannel rest name

/-- One round of the loop over the links. -/
def createLink (arr : List (ChannelConfig × Nat)) (l : Logger) (c : ChannelConfig) :
    Logger :=
  match c.link with
  | none => l
  | some link =>
      match lookupChannel arr (cString c.name), lookupChannel arr (cString link) with
      | some object, some _ => l.modifyChannel object (Channel.addLinkID · (cString link))
      | _, _ => l

/-- `CreateChannels`: whether everything could be created, the state, and the
objects of the configurations. -/
def createChannels (env : ConfigEnvironment) (s : ConfigState)
    (arr : List ChannelConfig) : Bool × ConfigState × List (ChannelConfig × Nat) :=
  let created := s.createObjects env arr
  (created.1,
    { created.2.1 with
      logger := created.2.2.foldl (fun l c => createLink created.2.2 l c.1)
        created.2.1.logger },
    created.2.2)

/-! ## The links -/

/-- The object has the link of its configuration and no other. -/
def LinkedAs (l : Logger) (q : ChannelConfig × Nat) : Prop :=
  ∃ channel, l.heap[q.2]? = some channel ∧ channel.link = q.1.link ∧ channel.linkTo = none

/-- A configuration with a link that `CreateChannels` can follow: neither text
is cut at a 0, and only the first configuration may be the unnamed one. -/
def LinkPlain (first : Bool) (c : ChannelConfig) : Prop :=
  ∀ link, c.link = some link →
    0 ∉ link ∧ (if cString c.name = [] then first = true else 0 ∉ c.name)

/-- All links can be followed. -/
def LinksPlain : List ChannelConfig → Prop
  | [] => True
  | c :: rest => LinkPlain true c ∧ ∀ d ∈ rest, LinkPlain false d

theorem zero_not_mem_cString (s : Name) : 0 ∉ cString s := by
  intro h
  have := List.mem_takeWhile_imp h
  simp at this

section Links

variable {objects : List (ChannelConfig × Nat)} {q : ChannelConfig × Nat}

/-- The unnamed name stands for the first object. -/
theorem lookupChannel_nil (q : ChannelConfig × Nat) (rest : List (ChannelConfig × Nat)) :
    lookupChannel (q :: rest) [] = some q.2 := by
  rw [lookupChannel, if_pos (.inl rfl)]

theorem lookupChannel_name (hnames : (objects.map fun q => q.1.name).Nodup)
    (hq : q ∈ objects) (hname : q.1.name ≠ []) :
    lookupChannel objects q.1.name = some q.2 := by
  induction objects with
  | nil => contradiction
  | cons head rest ih =>
      rw [List.map_cons, List.nodup_cons] at hnames
      rw [lookupChannel]
      rcases List.mem_cons.mp hq with rfl | hrest
      · rw [if_pos (.inr rfl)]
      · have hne : head.1.name ≠ q.1.name := fun heq =>
          hnames.1 (heq ▸ List.mem_map_of_mem (f := fun q => q.1.name) hrest)
        rw [if_neg (by simp [hname, hne]), ih hnames.2 hrest]

/-- What a name is found for: the first object, or the one of that name. -/
theorem lookupChannel_some {head : ChannelConfig × Nat}
    {rest : List (ChannelConfig × Nat)} {name : Name} {object : Nat}
    (h : lookupChannel (head :: rest) name = some object) :
    (name = [] ∧ object = head.2) ∨
      name ≠ [] ∧ ∃ q ∈ head :: rest, q.2 = object ∧ q.1.name = name := by
  by_cases hname : name = []
  · rw [hname, lookupChannel_nil, Option.some.injEq] at h
    exact .inl ⟨hname, h.symm⟩
  · right
    refine ⟨hname, ?_⟩
    generalize head :: rest = objects at h ⊢
    induction objects with
    | nil => contradiction
    | cons first later ih =>
        rw [lookupChannel] at h
        rcases ite_eq_iff.mp h with ⟨hfound, h⟩ | ⟨-, h⟩
        · exact ⟨first, List.mem_cons_self, Option.some.inj h,
            hfound.resolve_left hname⟩
        · obtain ⟨q, hq, hfound⟩ := ih h
          exact ⟨q, List.mem_cons_of_mem _ hq, hfound⟩

theorem lookupChannel_isSome {name : Name} (hq : q ∈ objects)
    (hname : name = [] ∨ q.1.name = name) : (lookupChannel objects name).isSome := by
  induction objects with
  | nil => contradiction
  | cons head rest ih =>
      rw [lookupChannel]
      split
      next => rfl
      next hnot =>
        rcases List.mem_cons.mp hq with rfl | hrest
        · exact absurd hname hnot
        · exact ih hrest

/-- A link that can be followed is set on the object of its configuration. -/
theorem createLink_plain {l : Logger} {head : ChannelConfig × Nat}
    {rest : List (ChannelConfig × Nat)} {link : Name}
    (hnames : ((head :: rest).map fun q => q.1.name).Nodup)
    (hlinks : ∀ q ∈ head :: rest, ∀ link, q.1.link = some link →
      link = [] ∨ ∃ r ∈ head :: rest, r.1.name = link)
    (hplain : LinksPlain ((head :: rest).map Prod.fst)) (hq : q ∈ head :: rest)
    (hlink : q.1.link = some link) :
    createLink (head :: rest) l q.1 =
      l.modifyChannel q.2 (Channel.addLinkID · link) := by
  have hself : 0 ∉ link ∧ lookupChannel (head :: rest) (cString q.1.name) = some q.2 := by
    rcases List.mem_cons.mp hq with rfl | hrest
    · obtain ⟨hzero, hname⟩ := hplain.1 link hlink
      refine ⟨hzero, ?_⟩
      by_cases hempty : cString q.1.name = []
      · rw [hempty, lookupChannel_nil]
      · rw [if_neg hempty] at hname
        rw [cString_eq_self hname] at hempty ⊢
        exact lookupChannel_name hnames hq hempty
    · obtain ⟨hzero, hname⟩ := hplain.2 q.1 (List.mem_map_of_mem hrest) link hlink
      refine ⟨hzero, ?_⟩
      by_cases hempty : cString q.1.name = []
      · rw [if_pos hempty] at hname
        contradiction
      · rw [if_neg hempty] at hname
        rw [cString_eq_self hname] at hempty ⊢
        exact lookupChannel_name hnames hq hempty
  have htarget : (lookupChannel (head :: rest) link).isSome := by
    rcases hlinks q hq link hlink with hempty | ⟨r, hr, hname⟩
    · exact lookupChannel_isSome List.mem_cons_self (.inl hempty)
    · exact lookupChannel_isSome hr (.inr hname)
  obtain ⟨target, htarget⟩ := Option.isSome_iff_exists.mp htarget
  rw [createLink, hlink]
  dsimp only
  rw [cString_eq_self hself.1, hself.2, htarget]

/-- Half way through the second loop: the configurations in `done` have their
links, the others none. -/
structure PartlyLinked (l : Logger) (objects done : List (ChannelConfig × Nat)) : Prop where
  linked : ∀ q ∈ objects, q ∈ done → LinkedAs l q
  unlinked : ∀ q ∈ objects, q ∉ done → ConfigState.Unlinked l q.2

theorem PartlyLinked.link {l : Logger} {objects done : List (ChannelConfig × Nat)}
    (h : PartlyLinked l objects done) (hq : q ∈ objects)
    (hdistinct : (objects.map Prod.snd).Nodup) {l' : Logger}
    (hl' : l' = match q.1.link with
      | none => l
      | some link => l.modifyChannel q.2 (Channel.addLinkID · link)) :
    PartlyLinked l' objects (done ++ [q]) := by
  have hother : ∀ r ∈ objects, r ≠ q → l'.heap[r.2]? = l.heap[r.2]? := by
    intro r hr hne
    have hne' : q.2 ≠ r.2 := fun heq =>
      hne (List.inj_on_of_nodup_map hdistinct hr hq heq.symm)
    rw [hl']
    split
    next => rfl
    next => simp [Logger.modifyChannel, hne']
  have hlinkTo : ∃ channel, l.heap[q.2]? = some channel ∧ channel.linkTo = none ∧
      (channel.link = none ∨ channel.link = q.1.link) := by
    by_cases hdone : q ∈ done
    · obtain ⟨channel, hchannel, hlink, hlinkTo⟩ := h.linked q hq hdone
      exact ⟨channel, hchannel, hlinkTo, .inr hlink⟩
    · obtain ⟨channel, hchannel, hlink, hlinkTo⟩ := h.unlinked q hq hdone
      exact ⟨channel, hchannel, hlinkTo, .inl hlink⟩
  have hself : LinkedAs l' q := by
    obtain ⟨channel, hchannel, hlinkTo, hlink⟩ := hlinkTo
    rw [hl']
    cases hconfig : q.1.link with
    | none =>
        rw [hconfig, or_self] at hlink
        exact ⟨channel, hchannel, hlink.trans hconfig.symm, hlinkTo⟩
    | some link =>
        refine ⟨channel.addLinkID link, ?_, ?_, ?_⟩
        · simp [Logger.modifyChannel, hchannel]
        · rw [hconfig]
          rfl
        · exact hlinkTo
  refine ⟨fun r hr hdone => ?_, fun r hr hnot => ?_⟩
  · by_cases hrq : r = q
    · rw [hrq]
      exact hself
    · have hdone' : r ∈ done := by simpa [hrq] using hdone
      obtain ⟨channel, hchannel, hlinked⟩ := h.linked r hr hdone'
      exact ⟨channel, by rwa [hother r hr hrq], hlinked⟩
  · have hrq : r ≠ q := fun heq => hnot (by simp [heq])
    have hnot' : r ∉ done := fun hmem => hnot (List.mem_append_left _ hmem)
    obtain ⟨channel, hchannel, hlinked⟩ := h.unlinked r hr hnot'
    exact ⟨channel, by rwa [hother r hr hrq], hlinked⟩

/-- Only texts without a 0 become links, and each on an object that the name of
some configuration with a link is found for. -/
theorem createLinks_only {l : Logger} (objects todo : List (ChannelConfig × Nat))
    {p : Nat} {channel : Channel} {link : Name}
    (hnone : ∀ channel, l.heap[p]? = some channel → channel.link = none)
    (hchannel : (todo.foldl (fun l q => createLink objects l q.1) l).heap[p]? = some channel)
    (hlink : channel.link = some link) :
    0 ∉ link ∧ ∃ r ∈ todo, r.1.link.isSome ∧
      lookupChannel objects (cString r.1.name) = some p := by
  induction todo using List.reverseRecOn generalizing channel with
  | nil =>
      rw [List.foldl_nil] at hchannel
      rw [hnone channel hchannel] at hlink
      contradiction
  | append_singleton todo q ih =>
      have hkept : (todo.foldl (fun l q => createLink objects l q.1) l).heap[p]? =
          some channel → 0 ∉ link ∧ ∃ r ∈ todo ++ [q], r.1.link.isSome ∧
            lookupChannel objects (cString r.1.name) = some p := by
        intro hold
        obtain ⟨hzero, r, hr, hfound⟩ := ih hold hlink
        exact ⟨hzero, r, List.mem_append_left _ hr, hfound⟩
      rw [List.foldl_append, List.foldl_cons, List.foldl_nil, createLink] at hchannel
      split at hchannel
      next => exact hkept hchannel
      next text htext =>
        split at hchannel
        next object target hobject htarget =>
          by_cases hobject' : object = p
          · rw [Logger.modifyChannel, hobject', List.getElem?_modify_eq,
              Option.map_eq_map, Option.map_eq_some_iff] at hchannel
            obtain ⟨old, -, rfl⟩ := hchannel
            cases hlink
            refine ⟨zero_not_mem_cString text, q, by simp, ?_, hobject' ▸ hobject⟩
            rw [htext]
            rfl
          · refine hkept ?_
            rw [← hchannel]
            simp [Logger.modifyChannel, hobject']
        next => exact hkept hchannel

end Links

/-- Every configuration has its object, with exactly the link it asks for. -/
structure LinkGraph (arr : List ChannelConfig)
    (created : Bool × ConfigState × List (ChannelConfig × Nat)) : Prop where
  configs : created.2.2.map Prod.fst = arr
  linked : ∀ q ∈ created.2.2, LinkedAs created.2.1.logger q

section Graph

variable {objects : List (ChannelConfig × Nat)} {q : ChannelConfig × Nat}

/-- Every configuration with a link is the first one, and then some
configuration with a link is unnamed, or has a name without a 0. -/
theorem named_of_linked {l l' : Logger} {head : ChannelConfig × Nat}
    {rest : List (ChannelConfig × Nat)} {link : Name}
    (hdistinct : ((head :: rest).map Prod.snd).Nodup)
    (hunlinked : ∀ q ∈ head :: rest, ConfigState.Unlinked l q.2)
    (hl' : l' = (head :: rest).foldl (fun l q => createLink (head :: rest) l q.1) l)
    (hlinked : LinkedAs l' q) (hq : q ∈ head :: rest) (hlink : q.1.link = some link) :
    0 ∉ link ∧ ((q = head ∧ ∃ r ∈ head :: rest, r.1.link.isSome ∧ cString r.1.name = []) ∨
      0 ∉ q.1.name ∧ q.1.name ≠ []) := by
  obtain ⟨channel, hchannel, hlink', -⟩ := hlinked
  have hnone : ∀ channel, l.heap[q.2]? = some channel → channel.link = none := by
    intro old hold
    obtain ⟨channel, hchannel, hnone, -⟩ := hunlinked q hq
    rw [hold, Option.some.injEq] at hchannel
    rw [hchannel, hnone]
  rw [hl'] at hchannel
  obtain ⟨hzero, r, hr, hsome, hfound⟩ := createLinks_only (head :: rest) (head :: rest)
    hnone hchannel (hlink'.trans hlink)
  refine ⟨hzero, ?_⟩
  rcases lookupChannel_some hfound with ⟨hname, hobject⟩ | ⟨hname, o, ho, hobject, hsame⟩
  · exact .inl ⟨List.inj_on_of_nodup_map hdistinct hq List.mem_cons_self hobject,
      r, hr, hsome, hname⟩
  · right
    have hoq : o = q := List.inj_on_of_nodup_map hdistinct ho hq hobject
    rw [← hoq, hsame]
    exact ⟨zero_not_mem_cString r.1.name, hname⟩

/-- The objects are linked as configured only if the links can be followed. -/
theorem linksPlain_of_linked {l l' : Logger} {head : ChannelConfig × Nat}
    {rest : List (ChannelConfig × Nat)}
    (hdistinct : ((head :: rest).map Prod.snd).Nodup)
    (hunlinked : ∀ q ∈ head :: rest, ConfigState.Unlinked l q.2)
    (hl' : l' = (head :: rest).foldl (fun l q => createLink (head :: rest) l q.1) l)
    (hlinked : ∀ q ∈ head :: rest, LinkedAs l' q) :
    LinksPlain ((head :: rest).map Prod.fst) := by
  have hunnamed : ∀ q ∈ head :: rest, q.1.link.isSome → cString q.1.name = [] →
      q = head := by
    intro q hq hsome hname
    obtain ⟨link, hlink⟩ := Option.isSome_iff_exists.mp hsome
    obtain ⟨-, ⟨hhead, -⟩ | ⟨hzero, hne⟩⟩ :=
      named_of_linked hdistinct hunlinked hl' (hlinked q hq) hq hlink
    · exact hhead
    · rw [cString_eq_self hzero] at hname
      exact absurd hname hne
  have hnamed : ∀ q ∈ head :: rest, ∀ link, q.1.link = some link →
      0 ∉ link ∧ (cString q.1.name ≠ [] → 0 ∉ q.1.name) := by
    intro q hq link hlink
    obtain ⟨hzero, ⟨hhead, r, hr, hsome, hname⟩ | ⟨hname, -⟩⟩ :=
      named_of_linked hdistinct hunlinked hl' (hlinked q hq) hq hlink
    · refine ⟨hzero, fun hne => absurd ?_ hne⟩
      rw [hhead, ← hunnamed r hr hsome hname, hname]
    · exact ⟨hzero, fun _ => hname⟩
  refine ⟨fun link hlink => ?_, fun d hd link hlink => ?_⟩
  · obtain ⟨hzero, hname⟩ := hnamed head List.mem_cons_self link hlink
    refine ⟨hzero, ?_⟩
    split
    next => rfl
    next hne => exact hname hne
  · obtain ⟨q, hq, rfl⟩ := List.mem_map.mp hd
    have hq' := List.mem_cons_of_mem head hq
    obtain ⟨hzero, hname⟩ := hnamed q hq' link hlink
    refine ⟨hzero, ?_⟩
    split
    next hempty =>
      have hhead := hunnamed q hq' (by rw [hlink]; rfl) hempty
      rw [List.map_cons, List.nodup_cons] at hdistinct
      exact absurd (hhead ▸ List.mem_map_of_mem hq) hdistinct.1
    next hne => exact hname hne

/-- When the links can be followed, the second loop sets them all. -/
theorem linked_of_linksPlain {l : Logger} {head : ChannelConfig × Nat}
    {rest : List (ChannelConfig × Nat)}
    (hdistinct : ((head :: rest).map Prod.snd).Nodup)
    (hunlinked : ∀ q ∈ head :: rest, ConfigState.Unlinked l q.2)
    (hnames : ((head :: rest).map fun q => q.1.name).Nodup)
    (hlinks : ∀ q ∈ head :: rest, ∀ link, q.1.link = some link →
      link = [] ∨ ∃ r ∈ head :: rest, r.1.name = link)
    (hplain : LinksPlain ((head :: rest).map Prod.fst)) :
    ∀ q ∈ head :: rest,
      LinkedAs ((head :: rest).foldl (fun l q => createLink (head :: rest) l q.1) l) q := by
  have hloop : ∀ (todo done : List (ChannelConfig × Nat)) (l : Logger),
      todo ⊆ head :: rest → PartlyLinked l (head :: rest) done →
        PartlyLinked (todo.foldl (fun l q => createLink (head :: rest) l q.1) l)
          (head :: rest) (done ++ todo) := by
    intro todo
    induction todo with
    | nil =>
        intro done l _ h
        rwa [List.append_nil]
    | cons q todo ih =>
        intro done l hsub h
        have hq := hsub List.mem_cons_self
        have hstep : createLink (head :: rest) l q.1 = match q.1.link with
            | none => l
            | some link => l.modifyChannel q.2 (Channel.addLinkID · link) := by
          cases hlink : q.1.link with
          | none =>
              rw [createLink, hlink]
          | some link => exact createLink_plain hnames hlinks hplain hq hlink
        rw [List.foldl_cons, List.append_cons]
        exact ih _ _ (fun r hr => hsub (List.mem_cons_of_mem q hr))
          (h.link hq hdistinct hstep)
  have hstart : PartlyLinked l (head :: rest) [] :=
    ⟨fun _ _ hmem => absurd hmem List.not_mem_nil, fun q hq _ => hunlinked q hq⟩
  have hend := hloop (head :: rest) [] l (List.Subset.refl _) hstart
  exact fun q hq => hend.linked q hq hq

end Graph

/-- The objects get exactly the configured links if and only if no text with a
link is cut at a 0 and an unnamed configuration with a link is the first. -/
theorem createChannels_linked_iff (env : ConfigEnvironment) (s : ConfigState)
    (arr : List ChannelConfig) (hnames : (arr.map ChannelConfig.name).Nodup)
    (hlinks : ∀ c ∈ arr, ∀ link, c.link = some link →
      link = [] ∨ ∃ d ∈ arr, d.name = link) :
    LinkGraph arr (createChannels env s arr) ↔ LinksPlain arr := by
  have hspec := ConfigState.createObjects_spec env s arr
  cases hobjects : (s.createObjects env arr).2.2 with
  | nil =>
      have hnil : arr = [] := by rw [← hspec.configs, hobjects]; rfl
      refine ⟨fun _ => hnil ▸ trivial, fun _ => ⟨hspec.configs, fun q hq => ?_⟩⟩
      have hq' : q ∈ (s.createObjects env arr).2.2 := hq
      rw [hobjects] at hq'
      contradiction
  | cons head rest =>
      have hlogger : (createChannels env s arr).2.1.logger = (head :: rest).foldl
          (fun l q => createLink (head :: rest) l q.1)
          (s.createObjects env arr).2.1.logger := by
        rw [← hobjects]
        rfl
      have hmem : ∀ q, q ∈ (createChannels env s arr).2.2 ↔ q ∈ head :: rest := by
        intro q
        rw [← hobjects]
        rfl
      have hunlinked := hspec.unlinked
      have hdistinct := hspec.distinct
      have hconfigs := hspec.configs
      rw [hobjects] at hunlinked hdistinct hconfigs
      refine ⟨fun h => ?_, fun hplain => ⟨hspec.configs, fun q hq => ?_⟩⟩
      · rw [← hconfigs]
        exact linksPlain_of_linked hdistinct hunlinked hlogger
          fun q hq => h.linked q ((hmem q).mpr hq)
      · rw [hlogger]
        refine linked_of_linksPlain hdistinct hunlinked ?_ ?_ (hconfigs ▸ hplain) q
          ((hmem q).mp hq)
        · rwa [← hconfigs, List.map_map] at hnames
        · intro r hr link hlink
          rw [← hconfigs] at hlinks
          refine (hlinks r.1 (List.mem_map_of_mem hr) link hlink).imp_right ?_
          rintro ⟨d, hd, hname⟩
          obtain ⟨o, ho, rfl⟩ := List.mem_map.mp hd
          exact ⟨o, ho, hname⟩

/-! ## Two configurations -/

/-- No message is written, no text is a template, and every file can be opened. -/
def plainConfigEnvironment : ConfigEnvironment where
  setting := ⟨true, 0, .initial, 8⟩
  template := id
  openFile := fun _ _ => (true, [])

def freshConfigState (home : Name) : ConfigState where
  logger := .new 0
  backends := [⟨.console {}, [], []⟩]
  home := home

/-- A channel is linked to the unnamed one before it. -/
def unnamedFirst : List ChannelConfig :=
  [{ name := [] }, { name := ascii "net", link := some [] }]

theorem createChannels_linked_unnamedFirst :
    LinkGraph unnamedFirst
      (createChannels plainConfigEnvironment (freshConfigState []) unnamedFirst) := by
  refine (createChannels_linked_iff plainConfigEnvironment (freshConfigState []) unnamedFirst
    (by decide) (by decide)).mpr ⟨nofun, fun d hd link hlink => ?_⟩
  rw [List.mem_singleton.mp hd, Option.some.injEq] at hlink
  rw [List.mem_singleton.mp hd, ← hlink]
  decide

/-- The unnamed channel is linked to the one before it. -/
def unnamedSecond : List ChannelConfig :=
  [{ name := ascii "net" }, { name := [], link := some (ascii "net") }]

/-- The link of the unnamed channel goes to the first object, which is linked to
itself. -/
theorem unnamed_channel_unlinked :
    (unnamedSecond.map ChannelConfig.name).Nodup ∧
      (∀ c ∈ unnamedSecond, ∀ link, c.link = some link →
        link = [] ∨ ∃ d ∈ unnamedSecond, d.name = link) ∧
      ¬ LinkGraph unnamedSecond
        (createChannels plainConfigEnvironment (freshConfigState []) unnamedSecond) := by
  refine ⟨by decide, by decide, fun h => ?_⟩
  obtain ⟨channel, hchannel, hlink, -⟩ := h.linked
    ({ name := [], link := some (ascii "net") }, 2) (List.mem_cons_of_mem _ List.mem_cons_self)
  have hnone : ((createChannels plainConfigEnvironment (freshConfigState [])
      unnamedSecond).2.1.logger.heap[2]?).map Channel.link = some none := rfl
  rw [hchannel, Option.map_some, hlink] at hnone
  contradiction

end Logme
