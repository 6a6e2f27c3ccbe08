import Logme.FastFormat
import Logme.Library.StepSystem
import Mathlib.Logic.Function.Basic

/-!
# The cache of fast formats

An entry is built when `TryFastFormat` meets a format and is kept in a small
cache of the thread and in the cache of the call site.  Both are searched by
the address of the format, while the text is read anew from that address at
each use.  The calls of one thread are a run whose state is the caches and
the transcript of the calls.
-/

namespace Logme

open StepSystem

inductive ContextCacheState where
  | empty
  | ready
  | disabled
  deriving DecidableEq

structure ContextCache where
  state : ContextCacheState
  ffe : FastFormatEntry

/-- The caches as one thread sees them; `κ` are the call sites. -/
structure FastFormatCaches (κ : Type) where
  fastFormatCache : List FastFormatEntry
  fastFormatCachePos : Nat
  context : κ → ContextCache

def fastFormatCacheSize : Nat := 2

/-- A call of `TryFastFormat`; `buffer` is an address. -/
structure FormatCall (κ : Type) where
  site : κ
  buffer : Nat
  bufferSize : Nat
  format : FormatString
  args : Nat → VaArg

namespace FastFormatCaches

variable {κ : Type} [DecidableEq κ]

omit [DecidableEq κ] in
def initial : FastFormatCaches κ where
  fastFormatCache := List.replicate fastFormatCacheSize .zero
  fastFormatCachePos := 0
  context := fun _ => ⟨.empty, .zero⟩

omit [DecidableEq κ] in
def storeFastFormat (c : FastFormatCaches κ) (entry : FastFormatEntry) :
    FastFormatCaches κ :=
  { c with
    fastFormatCache := c.fastFormatCache.set c.fastFormatCachePos entry
    fastFormatCachePos := (c.fastFormatCachePos + 1) % fastFormatCacheSize }

def setContext (c : FastFormatCaches κ) (site : κ) (cache : ContextCache) :
    FastFormatCaches κ :=
  { c with context := Function.update c.context site cache }

/-- Keep an entry at the call site, where there is none yet. -/
def fillContext (c : FastFormatCaches κ) (site : κ)
    (entry : FastFormatEntry) : FastFormatCaches κ :=
  if (c.context site).state = .empty then
    c.setContext site ⟨.ready, entry⟩
  else c

def findFastFormat (c : FastFormatCaches κ) (site : κ) (format : Nat) :
    FastFormatCaches κ × Option FastFormatEntry :=
  let cache := c.context site
  if cache.state = .ready ∧ cache.ffe.format = format then
    (c, some cache.ffe)
  else
    let c :=
      if cache.state = .ready then
        c.setContext site { cache with state := .disabled }
      else c
    match c.fastFormatCache.find? fun entry => entry.format = format with
    | some entry => (c.fillContext site entry, some entry)
    | none => (c, none)

def tryFastFormat (c : FastFormatCaches κ) (call : FormatCall κ) :
    FastFormatCaches κ × Option Formatted :=
  if call.format.address = 0 ∨ call.buffer = 0 ∨ call.bufferSize = 0 then
    (c, none)
  else
    match c.findFastFormat call.site call.format.address with
    | (c, some cached) =>
        (c, executeFastFormat cached call.format call.bufferSize call.args)
    | (c, none) =>
        let entry := buildFastFormat call.format.address call.format.chars
        ((c.storeFastFormat entry).fillContext call.site entry,
          executeFastFormat entry call.format call.bufferSize call.args)

end FastFormatCaches

/-- The calls of one thread, with what they returned. -/
structure FormatSession (κ : Type) where
  caches : FastFormatCaches κ
  transcript : List (FormatCall κ × Option Formatted)

namespace FormatSession

variable {κ : Type} [DecidableEq κ]

omit [DecidableEq κ] in
def initial : FormatSession κ := ⟨.initial, []⟩

def step (s : FormatSession κ) (call : FormatCall κ) :
    Option (FormatSession κ) :=
  some
    ⟨(s.caches.tryFastFormat call).1,
      s.transcript ++ [(call, (s.caches.tryFastFormat call).2)]⟩

/-- The entry found for the address of the format, if any, rejects formats or
is what the text at this address would give now. -/
def HitsFresh (s : FormatSession κ) (call : FormatCall κ) : Prop :=
  ∀ entry ∈ (s.caches.findFastFormat call.site call.format.address).2,
    entry.kind1 = .none ∨
      entry = buildFastFormat call.format.address call.format.chars

instance (s : FormatSession κ) (call : FormatCall κ) :
    Decidable (s.HitsFresh call) :=
  inferInstanceAs (Decidable (∀ entry ∈ _, _))

/-- Success means what `vsnprintf` does. -/
def Agrees (other : List Char → (Nat → VaArg) → List Char)
    (call : FormatCall κ) (result : Option Formatted) : Prop :=
  ∀ r ∈ result,
    textOf r.buffer =
        vsnprintf other call.bufferSize call.format.chars call.args ∧
      r.outLen = (textOf r.buffer).length

omit [DecidableEq κ] in
/-- An entry built from the text at hand agrees. -/
theorem executeBuilt_agrees
    (other : List Char → (Nat → VaArg) → List Char) (call : FormatCall κ)
    (hpointer : usesPointer call.format.chars = false)
    (hsize : 0 < call.bufferSize) :
    Agrees other call
      (executeFastFormat
        (buildFastFormat call.format.address call.format.chars)
        call.format call.bufferSize call.args) := by
  rcases buildFastFormat_cases call.format.address call.format.chars with
    hnone | hlayout
  · simp [Agrees, executeFastFormat_none hnone]
  · intro r' hr'
    rcases executeFastFormat_agrees other rfl hlayout hpointer hsize with
      ⟨r, hexecute, hagrees⟩
    rw [hexecute] at hr'
    simp only [Option.mem_def, Option.some.injEq] at hr'
    exact hr' ▸ hagrees

theorem tryFastFormat_agrees
    (other : List Char → (Nat → VaArg) → List Char) {s : FormatSession κ}
    {call : FormatCall κ} (hfresh : s.HitsFresh call)
    (hpointer : usesPointer call.format.chars = false) :
    Agrees other call (s.caches.tryFastFormat call).2 := by
  have hbuilt := executeBuilt_agrees other call hpointer
  unfold FastFormatCaches.tryFastFormat
  split_ifs with hnull
  · simp [Agrees]
  · have hsize : 0 < call.bufferSize := by omega
    split
    next c cached hfind =>
      rcases hfresh cached (by simp [hfind]) with hnone | rfl
      · simp [Agrees, executeFastFormat_none hnone]
      · exact hbuilt hsize
    next => exact hbuilt hsize

/-- As long as no call hits an entry of a different text, every call that
succeeds leaves the text of `vsnprintf` in the buffer and reports its
length. -/
theorem fast_format_agrees
    (other : List Char → (Nat → VaArg) → List Char) {s : FormatSession κ}
    (hrun : Run step HitsFresh initial s) :
    ∀ call result, (call, result) ∈ s.transcript →
      usesPointer call.format.chars = false → Agrees other call result := by
  refine hrun.invariant (I := fun s => ∀ call result,
    (call, result) ∈ s.transcript →
      usesPointer call.format.chars = false → Agrees other call result) ?_ ?_
  · intro s call t hbefore hfresh hstep call' result hmem hpointer
    simp only [step, Option.some.injEq] at hstep
    subst t
    simp only [List.mem_append, List.mem_singleton, Prod.mk.injEq] at hmem
    rcases hmem with hmem | ⟨rfl, rfl⟩
    · exact hbefore call' result hmem hpointer
    · exact tryFastFormat_agrees other hfresh hpointer
  · simp [initial]

private def noArgs : Nat → VaArg := fun _ => ⟨none, 0, 0⟩

private def abc : CString := ⟨['a', 'b', 'c'], by decide⟩

private def abcdef : CString := ⟨['a', 'b', 'c', 'd', 'e', 'f'], by decide⟩

/-- A call with a text at address 1. -/
private def callWith (text : CString) : FormatCall Unit where
  site := ()
  buffer := 1
  bufferSize := 16
  format := ⟨text, 1, fun _ => nul⟩
  args := noArgs

/-- The second text at the same address is cut to the length of the first. -/
theorem stale_entry_truncates :
    ¬ ∀ (other : List Char → (Nat → VaArg) → List Char)
        (s : FormatSession Unit), Reachable step initial s →
      ∀ call result, (call, result) ∈ s.transcript →
        usesPointer call.format.chars = false → Agrees other call result := by
  intro hall
  have hresult : ((FastFormatCaches.initial.tryFastFormat
      (callWith abc)).1.tryFastFormat (callWith abcdef)).2 =
        some ⟨['a', 'b', 'c', nul], 3⟩ := by decide
  have hagrees := hall (fun _ _ => []) _
    (reachable_of_exec [callWith abc, callWith abcdef] rfl)
    (callWith abcdef) _ (List.mem_append_right _ (List.mem_singleton_self _))
    (by decide)
  have htext := (hagrees _ hresult).1
  exact absurd htext (by decide)

/-- The second call hits the entry of the first, for the same text. -/
theorem fast_format_agrees_two_calls :
    ∃ s : FormatSession Unit, s.transcript.length = 2 ∧
      ∀ call result, (call, result) ∈ s.transcript →
        usesPointer call.format.chars = false →
          Agrees (fun _ _ => []) call result := by
  rcases exists_run_of_exec step HitsFresh
      (initial : FormatSession Unit)
      [callWith abc, callWith abc]
      (fun s => decide (s.transcript.length = 2)) (by decide) with
    ⟨s, hrun, hcheck⟩
  exact ⟨s, of_decide_eq_true hcheck, fast_format_agrees _ hrun⟩

/-! ## What all entries of the caches are -/

/-- Every entry in the caches of the thread and of the call sites. -/
structure AllEntries (P : FastFormatEntry → Prop) (c : FastFormatCaches κ) : Prop where
  thread : ∀ entry ∈ c.fastFormatCache, P entry
  site : ∀ site, P (c.context site).ffe

section AllEntries

variable {P : FastFormatEntry → Prop} {c : FastFormatCaches κ}

omit [DecidableEq κ] in
theorem allEntries_initial (hzero : P .zero) :
    AllEntries P (FastFormatCaches.initial : FastFormatCaches κ) := by
  constructor
  · intro entry hentry
    rw [List.eq_of_mem_replicate hentry]
    exact hzero
  · exact fun _ => hzero

theorem AllEntries.setContext (h : AllEntries P c) (site : κ) {cache : ContextCache}
    (hcache : P cache.ffe) : AllEntries P (c.setContext site cache) := by
  refine ⟨h.thread, fun site' => ?_⟩
  simp only [FastFormatCaches.setContext, Function.update_apply]
  split_ifs
  · exact hcache
  · exact h.site site'

theorem AllEntries.fillContext (h : AllEntries P c) (site : κ) {entry : FastFormatEntry}
    (hentry : P entry) : AllEntries P (c.fillContext site entry) := by
  unfold FastFormatCaches.fillContext
  split_ifs
  · exact h.setContext site hentry
  · exact h

theorem AllEntries.find (h : AllEntries P c) (site : κ) (format : Nat) :
    AllEntries P (c.findFastFormat site format).1 ∧
      ∀ entry ∈ (c.findFastFormat site format).2, P entry ∧ entry.format = format := by
  have hsite := h.site site
  have hdisabled : AllEntries P
      (if (c.context site).state = .ready then
        c.setContext site { c.context site with state := .disabled }
      else c) := by
    split_ifs
    · exact h.setContext site hsite
    · exact h
  unfold FastFormatCaches.findFastFormat
  dsimp only
  split_ifs with hready hdisable
  · refine ⟨h, fun entry hentry => ?_⟩
    simp only [Option.mem_def, Option.some.injEq] at hentry
    exact hentry ▸ ⟨hsite, hready.2⟩
  all_goals
    simp only [hdisable, if_true, if_false] at hdisabled
    split
    next entry hfind =>
      have hentry := hdisabled.thread entry (List.mem_of_find?_eq_some hfind)
      refine ⟨hdisabled.fillContext site hentry, fun entry' hentry' => ?_⟩
      simp only [Option.mem_def, Option.some.injEq] at hentry'
      subst entry'
      exact ⟨hentry, by simpa using List.find?_some hfind⟩
    next => exact ⟨hdisabled, by simp⟩

theorem AllEntries.tryFastFormat (h : AllEntries P c) {call : FormatCall κ}
    (hbuilt : P (buildFastFormat call.format.address call.format.chars)) :
    AllEntries P (c.tryFastFormat call).1 := by
  have hfind := h.find call.site call.format.address
  unfold FastFormatCaches.tryFastFormat
  split_ifs
  · exact h
  · split
    next c' cached heq =>
      rw [heq] at hfind
      exact hfind.1
    next c' heq =>
      rw [heq] at hfind
      have hstored : AllEntries P (c'.storeFastFormat
          (buildFastFormat call.format.address call.format.chars)) := by
        refine ⟨fun entry hentry => ?_, hfind.1.site⟩
        rcases List.mem_or_eq_of_mem_set hentry with hentry | rfl
        · exact hfind.1.thread entry hentry
        · exact hbuilt
      exact hstored.fillContext call.site hbuilt

/-- What holds of every entry that is built holds of every entry in reach. -/
theorem allEntries_of_reachable {s : FormatSession κ} (hreach : Reachable step initial s)
    (hbuilt : ∀ format text, P (buildFastFormat format text)) : AllEntries P s.caches := by
  refine hreach.invariant (I := fun s => AllEntries P s.caches) ?_
    (allEntries_initial (hbuilt 0 []))
  intro s call t hbefore _ hstep
  obtain rfl := Option.some.inj hstep
  exact hbefore.tryFastFormat (hbuilt _ _)

end AllEntries

/-! ## Formats that keep their text -/

/-- The entry rejects formats or was built from the text at its address. -/
def KnownEntry (textAt : Nat → List Char) (entry : FastFormatEntry) : Prop :=
  entry.kind1 = .none ∨
    entry = buildFastFormat entry.format (textAt entry.format)

structure KnownCaches (textAt : Nat → List Char) (c : FastFormatCaches κ) :
    Prop where
  thread : ∀ entry ∈ c.fastFormatCache, KnownEntry textAt entry
  site : ∀ site, KnownEntry textAt (c.context site).ffe

omit [DecidableEq κ] in
theorem knownCaches_iff {textAt : Nat → List Char} {c : FastFormatCaches κ} :
    KnownCaches textAt c ↔ AllEntries (KnownEntry textAt) c :=
  ⟨fun h => ⟨h.thread, h.site⟩, fun h => ⟨h.thread, h.site⟩⟩

theorem KnownCaches.tryFastFormat {textAt : Nat → List Char}
    {c : FastFormatCaches κ} (hknown : KnownCaches textAt c)
    {call : FormatCall κ}
    (hsame : call.format.chars = textAt call.format.address) :
    KnownCaches textAt (c.tryFastFormat call).1 := by
  rw [knownCaches_iff] at hknown ⊢
  apply hknown.tryFastFormat
  right
  rw [buildFastFormat_format, hsame]

/-- Where the text at an address never changes, as with string literals,
every call that succeeds agrees with `vsnprintf`. -/
theorem agrees_of_constant_texts
    (other : List Char → (Nat → VaArg) → List Char)
    (textAt : Nat → List Char) {s : FormatSession κ}
    (hrun : Run step (fun _ call =>
      call.format.chars = textAt call.format.address) initial s) :
    ∀ call result, (call, result) ∈ s.transcript →
      usesPointer call.format.chars = false → Agrees other call result := by
  have hfresh : KnownCaches textAt s.caches ∧ Run step HitsFresh initial s := by
    refine hrun.simulate id (fun s => KnownCaches textAt s.caches) ?_
      (knownCaches_iff.mpr (allEntries_initial (.inl rfl)))
    intro s call t hknown hsame hstep
    have hnext := hstep
    simp only [step, Option.some.injEq] at hnext
    subst t
    refine ⟨hknown.tryFastFormat hsame, .single ?_ hstep⟩
    intro entry hentry
    rcases ((knownCaches_iff.mp hknown).find call.site call.format.address).2 entry hentry with
      ⟨hnone | hbuilt, hformat⟩
    · exact .inl hnone
    · exact .inr (by rw [hsame, ← hformat]; exact hbuilt)
  exact fast_format_agrees other hfresh.2

theorem agrees_of_constant_texts_two_calls :
    ∃ s : FormatSession Unit, s.transcript.length = 2 ∧
      ∀ call result, (call, result) ∈ s.transcript →
        usesPointer call.format.chars = false → Agrees (fun _ _ => []) call result := by
  rcases exists_run_of_exec step (fun _ call => call.format.chars = abc.chars)
      (initial : FormatSession Unit) [callWith abc, callWith abc]
      (fun s => decide (s.transcript.length = 2)) (by decide) with ⟨s, hrun, hcheck⟩
  exact ⟨s, of_decide_eq_true hcheck, agrees_of_constant_texts _ (fun _ => abc.chars) hrun⟩

end FormatSession

end Logme
