import Logme.Library.SlotTable
import Logme.Library.StepSystem
import Logme.StructuredOutput
import Mathlib.Logic.Function.Basic

/-!
# Log-site statistics

The collector keeps one `LogSiteStatistics` for each call site, found through
the cache of the site, with slots for the first channels and backends of the
site.  A slot of a channel is found by the address of the channel object, and
keeps the name that the channel had when the slot was made; the address of a
deleted channel may be used again.  Positions in `sites` stand for pointers,
and time is left out.
-/

namespace Logme

open SlotTable (Counters Slot Table Entry SharesOut)

/-- Addresses of objects. -/
abbrev Address := Nat

/-- `CHANNEL_SLOT_COUNT`. -/
def channelSlotCount : Nat := 4

/-- `BACKEND_SLOT_COUNT`. -/
def backendSlotCount : Nat := 8

/-- What `Record` reads of a context; `cache` is the site key. -/
structure SiteContext where
  cache : Address
  file : Name
  method : Name
  line : Int
  errorLevel : Level

/-- The part of a context cache that belongs to the statistics. -/
structure SiteCache where
  generation : Nat := 0
  statistics : Option Nat := none

def copyMetadata (text : Name) (maximumLength : Nat) : Name :=
  if maximumLength < text.length then text.take maximumLength ++ ascii "..." else text

structure LogSiteStatistics where
  siteKey : Address
  file : Name
  method : Name
  format : Name
  line : Int
  errorLevel : Level
  channels : Table (Option Address) Name channelSlotCount
  backends : Table Nat (Name × Name) backendSlotCount

/-- The part of `BackendRuntimeStatistics` that `RecordBackend` writes. -/
structure RuntimeStatistics where
  backendId : Nat
  acceptedRecords : Nat
  acceptedBytes : Nat

structure LogStatisticsCollector where
  generation : Nat
  siteByKey : Address → Option Nat
  sites : List LogSiteStatistics
  runtimeBackends : List RuntimeStatistics

/-- A live backend: its owner is kept alive. -/
structure StatisticsBackend where
  owner : Address
  type : Name
  async : Bool := false

namespace LogSiteStatistics

def new (context : SiteContext) (format : Name) : LogSiteStatistics where
  siteKey := context.cache
  file := copyMetadata context.file 1024
  method := copyMetadata context.method 512
  format := copyMetadata format 1024
  line := context.line
  errorLevel := context.errorLevel
  channels := .empty channelSlotCount
  backends := .empty backendSlotCount

def reset (site : LogSiteStatistics) : LogSiteStatistics :=
  { site with channels := site.channels.reset, backends := site.backends.reset }

def isFor (site : LogSiteStatistics) (context : SiteContext) : Bool :=
  site.line == context.line && site.file == context.file && site.method == context.method

end LogSiteStatistics

/-! ## Snapshots -/

def otherChannels : Name := ascii "<other channels>"

def otherDestinations : Name × Name := (ascii "<other destinations>", ascii "<other backends>")

structure EntrySnapshot where
  file : Name
  method : Name
  format : Name
  channel : Name
  line : Int
  errorLevel : Level
  counters : Counters

structure BackendEntrySnapshot where
  file : Name
  method : Name
  format : Name
  destination : Name × Name
  line : Int
  errorLevel : Level
  counters : Counters

namespace LogSiteStatistics

def entry (site : LogSiteStatistics) (channel : Name) (counters : Counters) : EntrySnapshot :=
  ⟨site.file, site.method, site.format, channel, site.line, site.errorLevel, counters⟩

def backendEntry (site : LogSiteStatistics) (destination : Name × Name) (counters : Counters) :
    BackendEntrySnapshot :=
  ⟨site.file, site.method, site.format, destination, site.line, site.errorLevel, counters⟩

end LogSiteStatistics

namespace LogStatisticsCollector

def snapshotEntries (c : LogStatisticsCollector) : List EntrySnapshot :=
  c.sites.flatMap fun site =>
    site.channels.rows (fun slot => site.entry slot.label slot.counters)
      (site.entry otherChannels)

def snapshotChannels (c : LogStatisticsCollector) : List (Name × Counters) :=
  SlotTable.aggregate EntrySnapshot.channel EntrySnapshot.counters c.snapshotEntries

/-- An empty type selects every backend; the others are left out with a type. -/
def snapshotBackendEntries (c : LogStatisticsCollector) (backendType : Name) :
    List BackendEntrySnapshot :=
  c.sites.flatMap fun site =>
    (site.backends.slots.flatMap fun slot =>
      if backendType ≠ [] ∧ slot.label.2 ≠ backendType then []
      else if slot.counters.records = 0 then []
      else [site.backendEntry slot.label slot.counters]) ++
    if site.backends.overflow.records ≠ 0 ∧ backendType = [] then
      [site.backendEntry otherDestinations site.backends.overflow]
    else []

def snapshotBackends (c : LogStatisticsCollector) (backendType : Name) :
    List ((Name × Name) × Counters) :=
  SlotTable.aggregate BackendEntrySnapshot.destination BackendEntrySnapshot.counters
    (c.snapshotBackendEntries backendType)

theorem snapshotBackendEntries_all (c : LogStatisticsCollector) :
    c.snapshotBackendEntries [] = c.sites.flatMap fun site =>
      site.backends.rows (fun slot => site.backendEntry slot.label slot.counters)
        (site.backendEntry otherDestinations) := by
  unfold snapshotBackendEntries Table.rows
  simp only [ne_eq, not_true_eq_false, false_and, if_false, and_true, ite_not]

/-! ## Recording -/

/-- The site that the map has for the key, when it is the site of the context. -/
def knownSite (c : LogStatisticsCollector) (context : SiteContext) : Option Nat :=
  (c.siteByKey context.cache).filter fun i => c.sites[i]?.any fun site => site.isFor context

def getOrCreateSite (c : LogStatisticsCollector) (context : SiteContext) (format : Name) :
    Nat × LogStatisticsCollector :=
  match c.knownSite context with
  | some i => (i, c)
  | none =>
      (c.sites.length,
        { c with
          sites := c.sites ++ [.new context format]
          siteByKey := Function.update c.siteByKey context.cache (some c.sites.length) })

def setSite (c : LogStatisticsCollector) (i : Nat) (site : LogSiteStatistics) :
    LogStatisticsCollector :=
  { c with sites := c.sites.set i site }

/-- `RecordAccepted` of the runtime statistics of a backend. -/
def recordAccepted (c : LogStatisticsCollector) (backendId outputBytes : Nat) :
    LogStatisticsCollector :=
  if c.runtimeBackends.any fun runtime => runtime.backendId = backendId then
    { c with
      runtimeBackends := c.runtimeBackends.map fun runtime =>
        if runtime.backendId = backendId then
          { runtime with
            acceptedRecords := runtime.acceptedRecords + 1
            acceptedBytes := runtime.acceptedBytes + outputBytes }
        else runtime }
  else { c with runtimeBackends := c.runtimeBackends ++ [⟨backendId, 1, outputBytes⟩] }

def reset (c : LogStatisticsCollector) : LogStatisticsCollector :=
  { c with
    sites := c.sites.map LogSiteStatistics.reset
    runtimeBackends := c.runtimeBackends.map fun runtime => ⟨runtime.backendId, 0, 0⟩ }

end LogStatisticsCollector

/-- The collector with what it is used with: the caches of the call sites, the
channel objects by address and the backends by their statistics id.  `logged`
and `sent` are the records since the last reset. -/
structure LogStatistics where
  collector : LogStatisticsCollector
  caches : Address → SiteCache
  channels : Address → Option Name
  backends : Nat → Option StatisticsBackend
  nextBackendId : Nat
  logged : List (Entry Name)
  sent : List (Entry (Name × Name))

inductive StatisticsAction where
  | createChannel (address : Address) (name : Name)
  | deleteChannel (address : Address)
  | createBackend (owner : Address) (type : Name)
  | deleteBackend (id : Nat)
  | setAsync (id : Nat) (async : Bool)
  | storeCache (key : Address) (cache : SiteCache)
  | record (context : SiteContext) (channel : Option Address) (format : Name)
      (messageBytes : Nat)
  | recordBackend (site : Option Nat) (backend : Nat) (outputBytes : Nat)
  -- `Start` and `Reset`: a start is a reset with a new session time
  | reset

namespace LogStatistics

/-- A collector that has recorded nothing. -/
def new (generation : Nat) (caches : Address → SiteCache) : LogStatistics where
  collector := ⟨generation, fun _ => none, [], []⟩
  caches := caches
  channels := fun _ => none
  backends := fun _ => none
  nextBackendId := 1
  logged := []
  sent := []

def displayName (name : Name) : Name := if name = [] then ascii "<default>" else name

/-- The name that is stored for a channel pointer; there is none for an address
without a channel. -/
def channelName (s : LogStatistics) : Option Address → Option Name
  | none => some (ascii "<none>")
  | some address => (s.channels address).map displayName

def backendType (type : Name) : Name := if type = [] then ascii "<unknown>" else type

def loadCachedSite (s : LogStatistics) (context : SiteContext) : Option Nat :=
  if (s.caches context.cache).generation = s.collector.generation then
    (s.caches context.cache).statistics
  else none

/-- The site of a record, as `Record` finds or makes it. -/
def site (s : LogStatistics) (context : SiteContext) (format : Name) : Nat × LogStatistics :=
  match s.loadCachedSite context with
  | some i => (i, s)
  | none =>
      let found := s.collector.getOrCreateSite context format
      (found.1,
        { s with
          collector := found.2
          caches := Function.update s.caches context.cache
            ⟨found.2.generation, some found.1⟩ })

/-- `Record`, for a live channel or a null pointer. -/
def record (s : LogStatistics) (context : SiteContext) (channel : Option Address)
    (format : Name) (messageBytes : Nat) : Option LogStatistics := do
  let name ← s.channelName channel
  let found := s.site context format
  let site ← found.2.collector.sites[found.1]?
  let located := site.channels.locate channel name
  return { found.2 with
    collector := found.2.collector.setSite found.1
      { site with channels := located.2.count located.1 messageBytes }
    logged := found.2.logged ++ [⟨found.1, located.1, name, messageBytes⟩] }

/-- `RecordBackend`, for a live backend and the channel that owns it, which is
what every backend passes.  A null site records nothing. -/
def recordBackend (s : LogStatistics) (site : Option Nat) (backend outputBytes : Nat) :
    Option LogStatistics := do
  let object ← s.backends backend
  let name ← s.channelName (some object.owner)
  match site with
  | none => return s
  | some i =>
      let site ← s.collector.sites[i]?
      let collector :=
        if object.async ∧ object.type = ascii "FileBackend" then
          s.collector.recordAccepted backend outputBytes
        else s.collector
      let destination := (name, backendType object.type)
      let located := site.backends.locate backend destination
      return { s with
        collector := collector.setSite i
          { site with backends := located.2.count located.1 outputBytes }
        sent := s.sent ++ [⟨i, located.1, destination, outputBytes⟩] }

/-- One call or one event.  A channel object is made at a free address, and
goes when it owns no backend; a cache that another collector fills, or that is
made anew, has another generation. -/
def step (s : LogStatistics) : StatisticsAction → Option LogStatistics
  | .createChannel address name =>
      if s.channels address = none then
        some { s with channels := Function.update s.channels address (some name) }
      else none
  | .deleteChannel address =>
      if (List.range s.nextBackendId).any fun id =>
          (s.backends id).any fun backend => backend.owner = address then none
      else some { s with channels := Function.update s.channels address none }
  | .createBackend owner type =>
      if (s.channels owner).isSome then
        some { s with
          backends := Function.update s.backends s.nextBackendId (some ⟨owner, type, false⟩)
          nextBackendId := s.nextBackendId + 1 }
      else none
  | .deleteBackend id => some { s with backends := Function.update s.backends id none }
  | .setAsync id async =>
      some { s with
        backends := Function.update s.backends id
          ((s.backends id).map fun backend => { backend with async := async }) }
  | .storeCache key cache =>
      if cache.generation = s.collector.generation then none
      else some { s with caches := Function.update s.caches key cache }
  | .record context channel format messageBytes =>
      s.record context channel format messageBytes
  | .recordBackend site backend outputBytes => s.recordBackend site backend outputBytes
  | .reset => some { s with collector := s.collector.reset, logged := [], sent := [] }

/-! ## The claim of a snapshot -/

/-- The rows of the snapshots sum to the records since the last reset, and
share them out; `fits` tells the records that a row with a name may count. -/
structure Accounts (s : LogStatistics) (fits : Name → Entry Name → Prop) : Prop where
  entries : SharesOut EntrySnapshot.counters Entry.size (fun row => fits row.channel)
    s.collector.snapshotEntries s.logged
  channels : SharesOut Prod.snd Entry.size (fun total => fits total.1)
    s.collector.snapshotChannels s.logged
  backendEntries : SharesOut BackendEntrySnapshot.counters Entry.size
    (fun row entry => row.destination = entry.shown otherDestinations)
    (s.collector.snapshotBackendEntries []) s.sent
  backends : SharesOut Prod.snd Entry.size
    (fun total entry => total.1 = entry.shown otherDestinations)
    (s.collector.snapshotBackends []) s.sent
  records : (s.collector.snapshotEntries.map fun row => row.counters.records).sum =
    s.logged.length
  messageBytes : (s.collector.snapshotEntries.map fun row => row.counters.bytes).sum =
    (s.logged.map Entry.size).sum
  backendRecords : ((s.collector.snapshotBackendEntries []).map
    fun row => row.counters.records).sum = s.sent.length
  outputBytes : ((s.collector.snapshotBackendEntries []).map
    fun row => row.counters.bytes).sum = (s.sent.map Entry.size).sum
  maxima : ∀ row ∈ s.collector.snapshotEntries, ∃ entry ∈ s.logged,
    fits row.channel entry ∧ entry.size = row.counters.maxBytes
  bounded : ∀ entry ∈ s.logged, ∃ row ∈ s.collector.snapshotEntries,
    fits row.channel entry ∧ entry.size ≤ row.counters.maxBytes

/-- Every record is in the row of the channel that was logged to, or in the
row of the other channels when it is counted in the overflow. -/
def Accounted (s : LogStatistics) : Prop :=
  s.Accounts fun name entry => name = entry.shown otherChannels

/-! ## The invariant -/

/-- The label of a slot for the backend. -/
def destination (s : LogStatistics) (backend : StatisticsBackend) : Option (Name × Name) :=
  (s.channelName (some backend.owner)).map fun name => (name, backendType backend.type)

structure Inv (s : LogStatistics) : Prop where
  cached : ∀ key i, (s.caches key).generation = s.collector.generation →
    (s.caches key).statistics = some i → i < s.collector.sites.length
  keyed : ∀ key i, s.collector.siteByKey key = some i → i < s.collector.sites.length
  logged : Table.AllTallied (s.collector.sites.map LogSiteStatistics.channels) s.logged
  sent : Table.AllTallied (s.collector.sites.map LogSiteStatistics.backends) s.sent
  destinations : Table.AllLabelled (s.collector.sites.map LogSiteStatistics.backends) s.sent
  slots : ∀ site ∈ s.collector.sites, ∀ slot ∈ site.backends.slots,
    slot.key < s.nextBackendId ∧
      ∀ backend, s.backends slot.key = some backend → s.destination backend = some slot.label
  owners : ∀ id backend, s.backends id = some backend →
    id < s.nextBackendId ∧ (s.channels backend.owner).isSome

/-- The slots of the channels have the names that were logged to. -/
def Attributed (s : LogStatistics) : Prop :=
  Table.AllLabelled (s.collector.sites.map LogSiteStatistics.channels) s.logged

theorem Inv.accounts {s : LogStatistics} (h : s.Inv) {fits : Name → Entry Name → Prop}
    (hentries : SharesOut EntrySnapshot.counters Entry.size (fun row => fits row.channel)
      s.collector.snapshotEntries s.logged) : s.Accounts fits := by
  have hbackends : SharesOut BackendEntrySnapshot.counters Entry.size
      (fun row entry => row.destination = entry.shown otherDestinations)
      (s.collector.snapshotBackendEntries []) s.sent := by
    rw [LogStatisticsCollector.snapshotBackendEntries_all]
    exact h.sent.sharesOut_shown h.destinations (fun _ _ _ => rfl) (fun _ _ _ => rfl)
  constructor
  · exact hentries
  · exact hentries.aggregate fits fun _ _ hfits => hfits
  · exact hbackends
  · exact hbackends.aggregate
      (fun destination entry => destination = entry.shown otherDestinations)
      fun _ _ hfits => hfits
  · exact hentries.sum_eq.1
  · exact hentries.sum_eq.2
  · exact hbackends.sum_eq.1
  · exact hbackends.sum_eq.2
  · exact hentries.max_exact.1
  · exact hentries.max_exact.2

theorem Inv.accounted {s : LogStatistics} (h : s.Inv) (hattributed : s.Attributed) :
    s.Accounted :=
  h.accounts (h.logged.sharesOut_shown hattributed (fun _ _ _ => rfl) (fun _ _ _ => rfl))

theorem Inv.conserved {s : LogStatistics} (h : s.Inv) : s.Accounts fun _ _ => True :=
  h.accounts (h.logged.sharesOut (fun _ _ => rfl) (fun _ _ => rfl)
    (fun _ _ _ _ _ _ _ _ => trivial) (fun _ _ _ _ _ => trivial))

/-! ## Every step keeps the invariant -/

theorem inv_new {generation : Nat} {caches : Address → SiteCache}
    (hcaches : ∀ key, (caches key).generation ≠ generation) :
    (new generation caches).Inv where
  cached := fun key _ hgeneration => absurd hgeneration (hcaches key)
  keyed := fun _ _ hkey => by cases hkey
  logged := Table.allTallied_nil
  sent := Table.allTallied_nil
  destinations := Table.allLabelled_nil _
  slots := fun _ hsite => by cases hsite
  owners := fun _ _ hbackend => by cases hbackend

/-- What the search for a site leaves as it was. -/
structure SiteFound (s : LogStatistics) (i : Nat) (s' : LogStatistics) : Prop where
  inv : s'.Inv
  valid : i < s'.collector.sites.length
  attributed : s.Attributed → s'.Attributed
  logged : s'.logged = s.logged
  channels : s'.channels = s.channels

theorem Inv.siteFound {s : LogStatistics} (h : s.Inv) (context : SiteContext) (format : Name) :
    SiteFound s (s.site context format).1 (s.site context format).2 := by
  unfold site
  split
  next i hcached =>
    refine ⟨h, ?_, id, rfl, rfl⟩
    unfold loadCachedSite at hcached
    split at hcached
    next hgeneration => exact h.cached _ i hgeneration hcached
    next => cases hcached
  next =>
    unfold LogStatisticsCollector.getOrCreateSite
    split
    next i hknown =>
      have hlt : i < s.collector.sites.length := by
        rw [LogStatisticsCollector.knownSite, Option.filter_eq_some_iff] at hknown
        exact h.keyed _ i hknown.1
      refine ⟨⟨?_, h.keyed, h.logged, h.sent, h.destinations, h.slots, h.owners⟩, hlt, id, rfl,
        rfl⟩
      intro key j hgeneration hj
      by_cases hkey : key = context.cache
      · subst hkey
        simp only [Function.update_self, Option.some.injEq] at hj
        exact hj ▸ hlt
      · simp only [Function.update_of_ne hkey] at hgeneration hj
        exact h.cached key j hgeneration hj
    next =>
      have hchannels : (s.collector.sites ++ [LogSiteStatistics.new context format]).map
          LogSiteStatistics.channels =
            s.collector.sites.map LogSiteStatistics.channels ++ [.empty channelSlotCount] :=
        List.map_append
      have hbackends : (s.collector.sites ++ [LogSiteStatistics.new context format]).map
          LogSiteStatistics.backends =
            s.collector.sites.map LogSiteStatistics.backends ++ [.empty backendSlotCount] :=
        List.map_append
      have hlength : (s.collector.sites ++ [LogSiteStatistics.new context format]).length =
          s.collector.sites.length + 1 := List.length_append
      refine ⟨⟨?_, ?_, ?_, ?_, ?_, ?_, h.owners⟩, ?_, ?_, rfl, rfl⟩
      · intro key j hgeneration hj
        change j < (s.collector.sites ++ [LogSiteStatistics.new context format]).length
        rw [hlength]
        by_cases hkey : key = context.cache
        · subst hkey
          simp only [Function.update_self, Option.some.injEq] at hj
          omega
        · simp only [Function.update_of_ne hkey] at hgeneration hj
          have hlt := h.cached key j hgeneration hj
          omega
      · intro key j hj
        change j < (s.collector.sites ++ [LogSiteStatistics.new context format]).length
        rw [hlength]
        by_cases hkey : key = context.cache
        · subst hkey
          simp only [Function.update_self, Option.some.injEq] at hj
          omega
        · simp only [Function.update_of_ne hkey] at hj
          have hlt := h.keyed key j hj
          omega
      · exact hchannels ▸ h.logged.concat_empty
      · exact hbackends ▸ h.sent.concat_empty
      · exact hbackends ▸ h.destinations.concat_empty h.sent
      · intro site hsite slot hslot
        rcases List.mem_append.mp hsite with hold | hnew
        · exact h.slots site hold slot hslot
        · rw [List.mem_singleton] at hnew
          subst hnew
          cases hslot
      · change s.collector.sites.length <
          (s.collector.sites ++ [LogSiteStatistics.new context format]).length
        omega
      · intro hattributed
        change Table.AllLabelled ((s.collector.sites ++ [LogSiteStatistics.new context format]).map
          LogSiteStatistics.channels) s.logged
        rw [hchannels]
        exact Table.AllLabelled.concat_empty hattributed h.logged

/-- An update of one site that keeps a part of it. -/
theorem map_set_of_eq {β : Type} {sites : List LogSiteStatistics} {i : Nat}
    {site : LogSiteStatistics} (hsite : sites[i]? = some site) (site' : LogSiteStatistics)
    (part : LogSiteStatistics → β) (hpart : part site' = part site) :
    (sites.set i site').map part = sites.map part := by
  rw [List.map_set, hpart]
  apply List.ext_getElem?
  intro j
  rw [List.getElem?_set]
  split
  next hij =>
    subst hij
    rw [List.getElem?_map, hsite, List.length_map, if_pos (List.getElem?_eq_some_iff.mp hsite).1]
    rfl
  next => rfl

/-- No slot of the site has the address of the channel under another name. -/
def staleSlot (s : LogStatistics) (context : SiteContext) (channel : Option Address) : Bool :=
  match (s.loadCachedSite context <|> s.collector.knownSite context).bind
      (s.collector.sites[·]?), s.channelName channel with
  | some site, some name =>
      site.channels.slots.any fun slot => slot.key = channel ∧ slot.label ≠ name
  | _, _ => false

theorem known_of_staleSlot {s : LogStatistics} {context : SiteContext} {channel : Option Address}
    {name : Name} (format : Name) {site : LogSiteStatistics}
    (hsite : (s.site context format).2.collector.sites[(s.site context format).1]? = some site)
    (hname : s.channelName channel = some name) (hstale : s.staleSlot context channel = false) :
    site.channels.Known channel name := by
  have hold : ∀ i, (s.loadCachedSite context <|> s.collector.knownSite context) = some i →
      s.collector.sites[i]? = some site → site.channels.Known channel name := by
    intro i hi hold slot hslot hkey
    simp only [staleSlot, hi, Option.bind_some, hold, hname, List.any_eq_false,
      decide_eq_true_eq, not_and, not_not] at hstale
    exact hstale slot hslot hkey
  unfold LogStatistics.site LogStatisticsCollector.getOrCreateSite at hsite
  cases hcached : s.loadCachedSite context with
  | some i =>
      rw [hcached] at hsite
      exact hold i (by rw [hcached]; rfl) hsite
  | none =>
      rw [hcached] at hsite
      cases hknown : s.collector.knownSite context with
      | some i =>
          rw [hknown] at hsite
          exact hold i (by rw [hcached, hknown]; rfl) hsite
      | none =>
          rw [hknown] at hsite
          simp only [List.getElem?_append_right (Nat.le_refl _), Nat.sub_self,
            List.getElem?_cons_zero, Option.some.injEq] at hsite
          subst hsite
          intro slot hslot
          cases hslot

theorem Inv.record {s t : LogStatistics} (h : s.Inv) {context : SiteContext}
    {channel : Option Address} {format : Name} {messageBytes : Nat}
    (hstep : s.record context channel format messageBytes = some t) :
    t.Inv ∧ (s.staleSlot context channel = false → s.Attributed → t.Attributed) := by
  simp only [LogStatistics.record, Option.bind_eq_bind, Option.bind_eq_some_iff,
    Option.pure_def, Option.some.injEq] at hstep
  rcases hstep with ⟨name, hname, site, hsite, rfl⟩
  have hfound := h.siteFound context format
  revert hfound hsite
  generalize hs : s.site context format = found
  rcases found with ⟨i, s'⟩
  intro hsite hfound
  have hinv := hfound.inv
  have hchannels : (s'.collector.sites.map LogSiteStatistics.channels)[i]? =
      some site.channels := by
    rw [List.getElem?_map, hsite]
    rfl
  constructor
  · refine ⟨?_, ?_, ?_, ?_, ?_, ?_, hinv.owners⟩
    · intro key j hgeneration hj
      change j < (s'.collector.sites.set i _).length
      rw [List.length_set]
      exact hinv.cached key j hgeneration hj
    · intro key j hj
      change j < (s'.collector.sites.set i _).length
      rw [List.length_set]
      exact hinv.keyed key j hj
    · change Table.AllTallied ((s'.collector.sites.set i _).map LogSiteStatistics.channels) _
      rw [List.map_set]
      exact hinv.logged.record hchannels channel name messageBytes
    · change Table.AllTallied ((s'.collector.sites.set i _).map LogSiteStatistics.backends) _
      rw [map_set_of_eq hsite _ LogSiteStatistics.backends (by rfl)]
      exact hinv.sent
    · change Table.AllLabelled ((s'.collector.sites.set i _).map LogSiteStatistics.backends) _
      rw [map_set_of_eq hsite _ LogSiteStatistics.backends (by rfl)]
      exact hinv.destinations
    · intro site' hsite' slot hslot
      rcases List.mem_or_eq_of_mem_set hsite' with hold | rfl
      · exact hinv.slots site' hold slot hslot
      · exact hinv.slots site (List.mem_of_getElem? hsite) slot hslot
  · intro hstale hattributed
    change Table.AllLabelled ((s'.collector.sites.set i _).map LogSiteStatistics.channels) _
    rw [List.map_set]
    apply (hfound.attributed hattributed).record hinv.logged hchannels
    apply known_of_staleSlot format _ hname hstale
    rw [hs]
    exact hsite

@[simp] theorem sites_recordAccepted (c : LogStatisticsCollector) (backendId outputBytes : Nat) :
    (c.recordAccepted backendId outputBytes).sites = c.sites := by
  unfold LogStatisticsCollector.recordAccepted
  split <;> rfl

@[simp] theorem siteByKey_recordAccepted (c : LogStatisticsCollector)
    (backendId outputBytes : Nat) :
    (c.recordAccepted backendId outputBytes).siteByKey = c.siteByKey := by
  unfold LogStatisticsCollector.recordAccepted
  split <;> rfl

@[simp] theorem generation_recordAccepted (c : LogStatisticsCollector)
    (backendId outputBytes : Nat) :
    (c.recordAccepted backendId outputBytes).generation = c.generation := by
  unfold LogStatisticsCollector.recordAccepted
  split <;> rfl

/-- A slot of the table is one from before or carries the new key and label. -/
theorem mem_slots_record {t : Table Nat (Name × Name) backendSlotCount} {key size : Nat}
    {label : Name × Name} {slot : Slot Nat (Name × Name)}
    (hslot : slot ∈ ((t.locate key label).2.count (t.locate key label).1 size).slots) :
    (∃ old ∈ t.slots, slot.key = old.key ∧ slot.label = old.label) ∨
      slot.key = key ∧ slot.label = label := by
  have hbefore : ∃ old ∈ (t.locate key label).2.slots,
      slot.key = old.key ∧ slot.label = old.label := by
    rcases List.getElem?_of_mem hslot with ⟨j, hj⟩
    cases hplace : (t.locate key label).1 with
    | none =>
        rw [hplace] at hj
        exact ⟨slot, List.mem_of_getElem? hj, rfl, rfl⟩
    | some i =>
        rw [hplace] at hj
        rcases Table.getElem?_count _ i size hj with ⟨old, hold, hkey, hlabel, -⟩
        exact ⟨old, List.mem_of_getElem? hold, hkey, hlabel⟩
  rcases hbefore with ⟨old, hold, hkey, hlabel⟩
  rcases (Table.located_locate t key label).slots with hslots | hslots
  · exact Or.inl ⟨old, hslots ▸ hold, hkey, hlabel⟩
  · rw [hslots, List.mem_append, List.mem_singleton] at hold
    rcases hold with hold | rfl
    · exact Or.inl ⟨old, hold, hkey, hlabel⟩
    · exact Or.inr ⟨hkey, hlabel⟩

theorem Inv.recordBackend {s t : LogStatistics} (h : s.Inv) {site : Option Nat}
    {backend outputBytes : Nat} (hstep : s.recordBackend site backend outputBytes = some t) :
    t.Inv ∧ (s.Attributed → t.Attributed) := by
  simp only [LogStatistics.recordBackend, Option.bind_eq_bind, Option.bind_eq_some_iff] at hstep
  rcases hstep with ⟨object, hobject, name, hname, hstep⟩
  cases site with
  | none =>
      simp only [Option.pure_def, Option.some.injEq] at hstep
      exact hstep ▸ ⟨h, id⟩
  | some i =>
      simp only [Option.bind_eq_some_iff, Option.pure_def, Option.some.injEq] at hstep
      rcases hstep with ⟨site, hsite, rfl⟩
      generalize hcollector : (if object.async ∧ object.type = ascii "FileBackend" then
        s.collector.recordAccepted backend outputBytes else s.collector) = collector
      have hsame : collector.sites = s.collector.sites ∧
          collector.siteByKey = s.collector.siteByKey ∧
          collector.generation = s.collector.generation := by
        rw [← hcollector]
        split <;> simp
      rcases collector with ⟨generation, siteByKey, sites, runtimeBackends⟩
      rcases hsame with ⟨hsites, hkeys, hgenerations⟩
      change sites = _ at hsites
      change siteByKey = _ at hkeys
      change generation = _ at hgenerations
      subst hsites hkeys hgenerations
      have hbackends : (s.collector.sites.map LogSiteStatistics.backends)[i]? =
          some site.backends := by
        rw [List.getElem?_map, hsite]
        rfl
      have hdestination : s.destination object = some (name, backendType object.type) := by
        rw [destination, hname]
        rfl
      have hknown : site.backends.Known backend (name, backendType object.type) := by
        intro slot hslot hkey
        have hlabel := (h.slots site (List.mem_of_getElem? hsite) slot hslot).2 object
          (hkey.symm ▸ hobject)
        rw [hdestination, Option.some.injEq] at hlabel
        exact hlabel.symm
      constructor
      · refine ⟨?_, ?_, ?_, ?_, ?_, ?_, h.owners⟩
        · intro key j hgeneration hj
          change j < (s.collector.sites.set i _).length
          rw [List.length_set]
          exact h.cached key j hgeneration hj
        · intro key j hj
          change j < (s.collector.sites.set i _).length
          rw [List.length_set]
          exact h.keyed key j hj
        · change Table.AllTallied ((s.collector.sites.set i _).map LogSiteStatistics.channels) _
          rw [map_set_of_eq hsite _ LogSiteStatistics.channels (by rfl)]
          exact h.logged
        · change Table.AllTallied ((s.collector.sites.set i _).map LogSiteStatistics.backends) _
          rw [List.map_set]
          exact h.sent.record hbackends backend _ outputBytes
        · change Table.AllLabelled ((s.collector.sites.set i _).map LogSiteStatistics.backends) _
          rw [List.map_set]
          exact h.destinations.record h.sent hbackends hknown outputBytes
        · intro site' hsite' slot hslot
          rcases List.mem_or_eq_of_mem_set hsite' with hold | rfl
          · exact h.slots site' hold slot hslot
          · rcases mem_slots_record hslot with ⟨old, hold, hkey, hlabel⟩ | ⟨hkey, hlabel⟩
            · rw [hkey, hlabel]
              exact h.slots site (List.mem_of_getElem? hsite) old hold
            · rw [hkey, hlabel]
              refine ⟨(h.owners backend object hobject).1, ?_⟩
              intro other hother
              change s.backends backend = some other at hother
              rw [hobject, Option.some.injEq] at hother
              exact hother ▸ hdestination
      · intro hattributed
        change Table.AllLabelled ((s.collector.sites.set i _).map LogSiteStatistics.channels) _
        rw [map_set_of_eq hsite _ LogSiteStatistics.channels (by rfl)]
        exact hattributed

theorem Inv.reset {s : LogStatistics} (h : s.Inv) :
    ({ s with collector := s.collector.reset, logged := [], sent := [] } : LogStatistics).Inv := by
  have hchannels : (s.collector.sites.map LogSiteStatistics.reset).map
      LogSiteStatistics.channels =
        (s.collector.sites.map LogSiteStatistics.channels).map Table.reset := by
    rw [List.map_map, List.map_map]
    rfl
  have hbackends : (s.collector.sites.map LogSiteStatistics.reset).map
      LogSiteStatistics.backends =
        (s.collector.sites.map LogSiteStatistics.backends).map Table.reset := by
    rw [List.map_map, List.map_map]
    rfl
  refine ⟨?_, ?_, ?_, ?_, Table.allLabelled_nil _, ?_, h.owners⟩
  · intro key i hgeneration hi
    change i < (s.collector.sites.map LogSiteStatistics.reset).length
    rw [List.length_map]
    exact h.cached key i hgeneration hi
  · intro key i hi
    change i < (s.collector.sites.map LogSiteStatistics.reset).length
    rw [List.length_map]
    exact h.keyed key i hi
  · exact hchannels ▸ Table.allTallied_reset _
  · exact hbackends ▸ Table.allTallied_reset _
  · intro site hsite slot hslot
    rcases List.mem_map.mp hsite with ⟨old, hold, rfl⟩
    rcases List.mem_map.mp hslot with ⟨oldSlot, holdSlot, rfl⟩
    exact h.slots old hold oldSlot holdSlot

/-- Channels and backends come and go while every live backend keeps its owner. -/
theorem Inv.withObjects {s : LogStatistics} (h : s.Inv) {channels : Address → Option Name}
    {backends : Nat → Option StatisticsBackend} {next : Nat} (hnext : s.nextBackendId ≤ next)
    (hbackends : ∀ id backend, backends id = some backend →
      (∃ before, s.backends id = some before ∧ before.type = backend.type ∧
          before.owner = backend.owner ∧ channels backend.owner = s.channels backend.owner) ∨
        s.nextBackendId ≤ id ∧ id < next ∧ (channels backend.owner).isSome) :
    ({ s with channels := channels, backends := backends, nextBackendId := next } :
      LogStatistics).Inv := by
  refine ⟨h.cached, h.keyed, h.logged, h.sent, h.destinations, ?_, ?_⟩
  · intro site hsite slot hslot
    have hold := h.slots site hsite slot hslot
    refine ⟨Nat.lt_of_lt_of_le hold.1 hnext, ?_⟩
    intro backend hbackend
    rcases hbackends _ backend hbackend with ⟨before, hbefore, htype, howner, hchannel⟩ | hnew
    · have hlabel := hold.2 before hbefore
      rw [destination, channelName, howner, htype] at hlabel
      change ((channels backend.owner).map displayName).map _ = _
      rw [hchannel]
      exact hlabel
    · exact absurd hold.1 (Nat.not_lt.mpr hnew.1)
  · intro id backend hbackend
    rcases hbackends id backend hbackend with ⟨before, hbefore, -, howner, hchannel⟩ | hnew
    · have hold := h.owners id before hbefore
      rw [howner, ← hchannel] at hold
      exact ⟨Nat.lt_of_lt_of_le hold.1 hnext, hold.2⟩
    · exact hnew.2

/-- The action is no record at a call site with a stale slot. -/
def addressKnown (s : LogStatistics) : StatisticsAction → Bool
  | .record context channel _ _ => !s.staleSlot context channel
  | _ => true

theorem Inv.step {s t : LogStatistics} (h : s.Inv) {action : StatisticsAction}
    (hstep : s.step action = some t) :
    t.Inv ∧ (s.addressKnown action = true → s.Attributed → t.Attributed) := by
  cases action with
  | createChannel address name =>
      simp only [LogStatistics.step, Option.ite_none_right_eq_some, Option.some.injEq] at hstep
      rcases hstep with ⟨hfree, rfl⟩
      refine ⟨h.withObjects (Nat.le_refl _) ?_, fun _ => id⟩
      intro id backend hbackend
      have hne : backend.owner ≠ address := by
        rintro rfl
        have halive := (h.owners id backend hbackend).2
        rw [hfree] at halive
        cases halive
      exact Or.inl ⟨backend, hbackend, rfl, rfl, Function.update_of_ne hne _ _⟩
  | deleteChannel address =>
      simp only [LogStatistics.step, Option.ite_none_left_eq_some, Option.some.injEq] at hstep
      rcases hstep with ⟨howned, rfl⟩
      refine ⟨h.withObjects (Nat.le_refl _) ?_, fun _ => id⟩
      intro id backend hbackend
      have hne : backend.owner ≠ address := by
        rintro rfl
        apply howned
        rw [List.any_eq_true]
        refine ⟨id, List.mem_range.mpr (h.owners id backend hbackend).1, ?_⟩
        rw [hbackend]
        exact decide_eq_true rfl
      exact Or.inl ⟨backend, hbackend, rfl, rfl, Function.update_of_ne hne _ _⟩
  | createBackend owner type =>
      simp only [LogStatistics.step, Option.ite_none_right_eq_some, Option.some.injEq] at hstep
      rcases hstep with ⟨halive, rfl⟩
      refine ⟨h.withObjects (Nat.le_succ _) ?_, fun _ => id⟩
      intro id backend hbackend
      by_cases hid : id = s.nextBackendId
      · subst hid
        rw [Function.update_self, Option.some.injEq] at hbackend
        subst hbackend
        exact Or.inr ⟨Nat.le_refl _, Nat.lt_succ_self _, halive⟩
      · rw [Function.update_of_ne hid] at hbackend
        exact Or.inl ⟨backend, hbackend, rfl, rfl, rfl⟩
  | deleteBackend id =>
      simp only [LogStatistics.step, Option.some.injEq] at hstep
      subst hstep
      refine ⟨h.withObjects (Nat.le_refl _) ?_, fun _ hattributed => hattributed⟩
      intro other backend hbackend
      by_cases hid : other = id
      · subst hid
        rw [Function.update_self] at hbackend
        cases hbackend
      · rw [Function.update_of_ne hid] at hbackend
        exact Or.inl ⟨backend, hbackend, rfl, rfl, rfl⟩
  | setAsync id async =>
      simp only [LogStatistics.step, Option.some.injEq] at hstep
      subst hstep
      refine ⟨h.withObjects (Nat.le_refl _) ?_, fun _ hattributed => hattributed⟩
      intro other backend hbackend
      by_cases hid : other = id
      · subst hid
        rw [Function.update_self, Option.map_eq_some_iff] at hbackend
        rcases hbackend with ⟨before, hbefore, rfl⟩
        exact Or.inl ⟨before, hbefore, rfl, rfl, rfl⟩
      · rw [Function.update_of_ne hid] at hbackend
        exact Or.inl ⟨backend, hbackend, rfl, rfl, rfl⟩
  | storeCache key cache =>
      simp only [LogStatistics.step, Option.ite_none_left_eq_some, Option.some.injEq] at hstep
      rcases hstep with ⟨hgeneration, rfl⟩
      refine ⟨⟨?_, h.keyed, h.logged, h.sent, h.destinations, h.slots, h.owners⟩, fun _ => id⟩
      intro other i hother hi
      by_cases hkey : other = key
      · subst hkey
        simp only [Function.update_self] at hother
        exact absurd hother hgeneration
      · simp only [Function.update_of_ne hkey] at hother hi
        exact h.cached other i hother hi
  | record context channel format messageBytes =>
      refine ⟨(h.record hstep).1, ?_⟩
      intro hknown
      exact (h.record hstep).2 ((Bool.not_eq_true' _).mp hknown)
  | recordBackend site backend outputBytes =>
      exact ⟨(h.recordBackend hstep).1, fun _ => (h.recordBackend hstep).2⟩
  | reset =>
      simp only [LogStatistics.step, Option.some.injEq] at hstep
      subst hstep
      exact ⟨h.reset, fun _ _ => Table.allLabelled_nil _⟩

/-! ## Runs -/

open StepSystem (Run Reachable)

/-- In every run the snapshots account for the records since the last reset.
When no record is made at a call site that has a slot for the address of the
channel under another name, they are in the rows of the channels logged to. -/
theorem snapshots_account {generation : Nat} {caches : Address → SiteCache}
    (hcaches : ∀ key, (caches key).generation ≠ generation) :
    (∀ s, Reachable step (new generation caches) s → s.Accounts fun _ _ => True) ∧
      ∀ s, Run step (fun s action => s.addressKnown action = true) (new generation caches) s →
        s.Accounted := by
  constructor
  · intro s hrun
    have hinv : s.Inv := by
      apply Run.invariant hrun _ (inv_new hcaches)
      intro s action t hinv _ hstep
      exact (hinv.step hstep).1
    exact hinv.conserved
  · intro s hrun
    have hboth : s.Inv ∧ s.Attributed := by
      apply Run.invariant (I := fun s => s.Inv ∧ s.Attributed) hrun _
        ⟨inv_new hcaches, Table.allLabelled_nil _⟩
      intro s action t hboth hknown hstep
      exact ⟨(hboth.1.step hstep).1, (hboth.1.step hstep).2 hknown hboth.2⟩
    exact hboth.1.accounted hboth.2

/-- A call site that logs to a channel `a`, which is then deleted. -/
def deletion : List StatisticsAction :=
  [.createChannel 16 (ascii "a"),
    .record ⟨32, ascii "main.cpp", ascii "main", 7, .info⟩ (some 16) (ascii "%i") 5,
    .deleteChannel 16]

/-- The same call site, after a new channel `b` was made at the address. -/
def addressReused : List StatisticsAction :=
  deletion ++ [.createChannel 16 (ascii "b"),
    .record ⟨32, ascii "main.cpp", ascii "main", 7, .info⟩ (some 16) (ascii "%i") 7]

theorem snapshots_account_deletion :
    ∃ s, Run step (fun s action => s.addressKnown action = true) (new 1 fun _ => {}) s ∧
      s.collector.snapshotChannels = [(ascii "a", ⟨1, 5, 5⟩)] ∧ s.Accounted := by
  rcases StepSystem.exists_run_of_exec step (fun s action => s.addressKnown action = true)
    (new 1 fun _ => {}) deletion
    (fun s => s.collector.snapshotChannels = [(ascii "a", ⟨1, 5, 5⟩)]) (by decide +kernel)
    with ⟨s, hrun, hrows⟩
  exact ⟨s, hrun, of_decide_eq_true hrows,
    (snapshots_account fun _ => by decide).2 s hrun⟩

/-- Both records are shown in the row of the deleted channel. -/
theorem deleted_channel_counts :
    ∃ s, StepSystem.exec step (new 1 fun _ => {}) addressReused = some s ∧
      s.collector.snapshotChannels = [(ascii "a", ⟨2, 12, 7⟩)] ∧ ¬ s.Accounted := by
  refine ⟨_, rfl, rfl, ?_⟩
  intro haccounted
  rcases haccounted.channels with ⟨groups, hperm, hgroups⟩
  change List.Forall₂ _ [(ascii "a", _)] groups at hgroups
  rcases hgroups with _ | ⟨hgroup, hrest⟩
  rcases hrest with _ | _
  rw [List.flatten_singleton] at hperm
  have hmem := hperm.mem_iff.mpr (List.mem_cons_of_mem _ List.mem_cons_self)
  exact absurd (hgroup.fitting _ hmem) (by decide)

end LogStatistics
end Logme
