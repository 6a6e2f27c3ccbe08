import Logme.BufferQueueAccounting
import Logme.DataBufferCache
import Logme.Library.StepSystem
import Mathlib.Data.List.Nodup

/-!
# The limits of the buffer cache

The cache never holds more than its hard limit, and the time from which it
holds more than the soft one is set exactly while it does.  Every operation
restores both, so that a buffer that is given back is in the cache once or
destroyed, and an excess that has lasted for the retention time is dropped by
the next buffer that is taken or given back.
-/

namespace Logme

open StepSystem

/-- The arguments of the cache operations, the same in all calls. -/
structure CacheLimits where
  cacheLimit : Nat
  cacheMaxLimit : Nat
  retainOverLimitMs : Nat
  pos : 0 < cacheLimit
  le : cacheLimit ≤ cacheMaxLimit

namespace DataBufferCache

variable {β : Type} {c : DataBufferCache β} {L : CacheLimits} {now : Nat}

/-- What every operation restores. -/
structure Within (L : CacheLimits) (c : DataBufferCache β) : Prop where
  length_le : c.buffers.length ≤ L.cacheMaxLimit
  since_iff : c.overLimitSince ≠ 0 ↔ L.cacheLimit < c.buffers.length
  retained : L.retainOverLimitMs = 0 → c.buffers.length ≤ L.cacheLimit

/-- The excess has lasted for the retention time. -/
def Elapsed (L : CacheLimits) (c : DataBufferCache β) (now : Nat) : Prop :=
  L.cacheLimit < c.buffers.length ∧ L.retainOverLimitMs ≤ fetchSub now c.overLimitSince

theorem Within.since_eq_zero (h : c.Within L) (hle : c.buffers.length ≤ L.cacheLimit) :
    c.overLimitSince = 0 := by
  by_contra hne
  have hover := h.since_iff.mp hne
  omega

/-! ## Erasing -/

theorem length_eraseOldest (c : DataBufferCache β) (limit : Nat) :
    (c.eraseOldest limit).buffers.length = min c.buffers.length limit := by
  rw [eraseOldest, List.length_drop]
  omega

theorem eraseOldest_suffix (c : DataBufferCache β) (limit : Nat) :
    (c.eraseOldest limit).buffers <:+ c.buffers :=
  List.drop_suffix _ _

theorem trimMaxLimitLocked_of_le {limit : Nat} (hle : c.buffers.length ≤ limit) :
    c.trimMaxLimitLocked limit = c :=
  if_pos (Or.inr hle)

theorem length_trimDataBufferCache (c : DataBufferCache β) (limit : Nat) :
    (c.trimDataBufferCache limit).buffers.length = min c.buffers.length limit :=
  length_eraseOldest c limit

theorem trimDataBufferCache_suffix (c : DataBufferCache β) (limit : Nat) :
    (c.trimDataBufferCache limit).buffers <:+ c.buffers :=
  eraseOldest_suffix c limit

/-- A cache that is over its limit is cut back to it or left alone. -/
theorem trimOverLimitLocked_cases {limit retain : Nat} (hover : limit < c.buffers.length)
    (hsince : c.overLimitSince ≠ 0) :
    c.trimOverLimitLocked limit now retain =
      if retain ≤ fetchSub now c.overLimitSince then c.trimDataBufferCache limit else c := by
  unfold trimOverLimitLocked
  rw [if_neg (by omega), if_neg hsince]
  by_cases helapsed : retain ≤ fetchSub now c.overLimitSince
  · rw [if_neg (by omega), if_pos helapsed]
    rfl
  · rw [if_pos (by omega), if_neg helapsed]

theorem within_trim (L : CacheLimits) (c : DataBufferCache β) :
    (c.trimDataBufferCache L.cacheLimit).Within L := by
  have hlength := length_trimDataBufferCache c L.cacheLimit
  have hle := L.le
  refine ⟨by omega, ?_, fun _ => by omega⟩
  have hsince : (c.trimDataBufferCache L.cacheLimit).overLimitSince = 0 := rfl
  rw [hsince]
  omega

/-! ## Taking a buffer -/

/-- The cache without its newest buffer. -/
def popped (c : DataBufferCache β) : DataBufferCache β :=
  { c with buffers := c.buffers.dropLast }

theorem length_popped (c : DataBufferCache β) :
    c.popped.buffers.length = c.buffers.length - 1 :=
  List.length_dropLast

/-- What is left of the cache is cut back to the limit or kept. -/
theorem takeDataBuffer_of_ne_nil (h : c.Within L) (hne : c.buffers ≠ [])
    (capacity now : Nat) :
    (c.takeDataBuffer capacity L.cacheLimit L.cacheMaxLimit L.retainOverLimitMs now).2 =
      if L.cacheLimit < c.popped.buffers.length then
        if L.retainOverLimitMs ≤ fetchSub now c.overLimitSince then
          c.popped.trimDataBufferCache L.cacheLimit
        else c.popped
      else { c.popped with overLimitSince := 0 } := by
  obtain ⟨buffer, hlast⟩ : ∃ buffer, c.buffers.getLast? = some buffer :=
    ⟨_, List.getLast?_eq_some_getLast hne⟩
  have hlength := length_popped c
  have hmax := h.length_le
  have hbounded : ¬ (L.cacheMaxLimit ≠ 0 ∧ L.cacheMaxLimit < c.buffers.dropLast.length) := by
    rw [List.length_dropLast]
    omega
  simp only [takeDataBuffer, hlast, if_neg hbounded]
  change (if L.cacheLimit < c.popped.buffers.length then
    c.popped.trimOverLimitLocked L.cacheLimit now L.retainOverLimitMs else _) = _
  by_cases hover : L.cacheLimit < c.popped.buffers.length
  · have hsince : c.overLimitSince ≠ 0 := h.since_iff.mpr (by omega)
    rw [if_pos hover, if_pos hover, trimOverLimitLocked_cases hover hsince]
    rfl
  · rw [if_neg hover, if_neg hover]
    rfl

theorem Within.popped_of_lt (h : c.Within L) (hover : L.cacheLimit < c.popped.buffers.length) :
    c.popped.Within L := by
  have hlength := length_popped c
  have hmax := h.length_le
  have hretained := h.retained
  exact ⟨by omega, ⟨fun _ => hover, fun _ => h.since_iff.mpr (by omega)⟩, fun hzero => by
    have hle := hretained hzero
    omega⟩

theorem within_popped (hle : c.popped.buffers.length ≤ L.cacheLimit) :
    ({ c.popped with overLimitSince := 0 } : DataBufferCache β).Within L := by
  have hmax := L.le
  refine ⟨by dsimp only; omega, ?_, fun _ => hle⟩
  dsimp only
  omega

/-- One buffer is taken from the back, and the excess is dropped where it has
lasted. -/
theorem takeDataBuffer_within (h : c.Within L) (capacity now : Nat) :
    let c' := (c.takeDataBuffer capacity L.cacheLimit L.cacheMaxLimit
      L.retainOverLimitMs now).2
    c'.buffers <:+ c.buffers.dropLast ∧ c'.Within L ∧
      (L.cacheLimit < c'.buffers.length → c'.overLimitSince = c.overLimitSince) ∧
      (c.Elapsed L now → c'.buffers.length ≤ L.cacheLimit) := by
  intro c'
  by_cases hne : c.buffers = []
  · have hsame : c' = c := by
      simp only [c', takeDataBuffer, hne, List.getLast?_nil]
    rw [hsame]
    refine ⟨by simp [hne], h, fun _ => rfl, fun _ => ?_⟩
    simp [hne]
  · have hlength := length_popped c
    have hcut := length_trimDataBufferCache c.popped L.cacheLimit
    have hleft := takeDataBuffer_of_ne_nil h hne capacity now
    change c' = _ at hleft
    rw [hleft]
    split_ifs with hover helapsed
    · exact ⟨trimDataBufferCache_suffix _ _, within_trim L _, fun _ => by omega,
        fun _ => by omega⟩
    · exact ⟨List.suffix_rfl, h.popped_of_lt hover, fun _ => rfl,
        fun hlasted => absurd hlasted.2 helapsed⟩
    · exact ⟨List.suffix_rfl, within_popped (by omega), fun h => absurd h hover,
        fun _ => by dsimp only; omega⟩

/-! ## Giving a buffer back -/

/-- The excess is dropped where it has lasted; else the oldest buffer makes
room in a full cache. -/
theorem makeRoom_cases (h : c.Within L) :
    c.makeRoom L.cacheLimit L.cacheMaxLimit L.retainOverLimitMs now =
      if L.cacheLimit < c.buffers.length ∧
          L.retainOverLimitMs ≤ fetchSub now c.overLimitSince then
        c.trimDataBufferCache L.cacheLimit
      else if L.cacheMaxLimit ≤ c.buffers.length then
        c.trimMaxLimitLocked (L.cacheMaxLimit - 1)
      else c := by
  have hpos := L.pos
  have hle := L.le
  have hmax := h.length_le
  unfold makeRoom
  by_cases hover : L.cacheLimit < c.buffers.length
  · have hcut := length_trimDataBufferCache c L.cacheLimit
    rw [if_pos hover, trimOverLimitLocked_cases hover (h.since_iff.mpr hover)]
    by_cases helapsed : L.retainOverLimitMs ≤ fetchSub now c.overLimitSince
    · dsimp only
      rw [if_pos helapsed, if_neg (by omega), if_pos ⟨hover, helapsed⟩]
    · have hlasted : ¬ (L.cacheLimit < c.buffers.length ∧
          L.retainOverLimitMs ≤ fetchSub now c.overLimitSince) := fun h => helapsed h.2
      rw [if_neg helapsed, if_neg hlasted]
      exact if_congr (by omega) rfl rfl
  · have hlasted : ¬ (L.cacheLimit < c.buffers.length ∧
        L.retainOverLimitMs ≤ fetchSub now c.overLimitSince) := fun h => hover h.1
    rw [if_neg hover, if_neg hlasted]
    exact if_congr (by omega) rfl rfl

/-- What a cache is before a buffer is added: cut back to the limit, with the
oldest buffer erased, or as it was. -/
structure Roomy (L : CacheLimits) (c : DataBufferCache β) (now : Nat)
    (roomy : DataBufferCache β) : Prop where
  suffix : roomy.buffers <:+ c.buffers
  length_le : roomy.buffers.length ≤ L.cacheMaxLimit
  retained : L.retainOverLimitMs = 0 → roomy.buffers.length ≤ L.cacheLimit
  elapsed : c.Elapsed L now → roomy.buffers.length ≤ L.cacheLimit
  since_of_lt : L.cacheLimit < roomy.buffers.length →
    roomy.overLimitSince = c.overLimitSince
  since_cases : roomy.overLimitSince = c.overLimitSince ∨ roomy.overLimitSince = 0
  full : L.cacheMaxLimit ≤ roomy.buffers.length → roomy = c ∧ c.buffers.length ≤ L.cacheLimit

theorem makeRoom_roomy (h : c.Within L) (now : Nat) :
    Roomy L c now (c.makeRoom L.cacheLimit L.cacheMaxLimit L.retainOverLimitMs now) := by
  have hpos := L.pos
  have hle := L.le
  have hmax := h.length_le
  have hretained := h.retained
  rw [makeRoom_cases h]
  split_ifs with hlasted hfull
  · have hcut := length_trimDataBufferCache c L.cacheLimit
    exact ⟨trimDataBufferCache_suffix _ _, by omega, fun _ => by omega, fun _ => by omega,
      fun _ => by omega, Or.inr rfl, fun _ => by omega⟩
  · unfold trimMaxLimitLocked
    split_ifs with hone
    · exact ⟨List.suffix_rfl, hmax, hretained, fun helapsed => absurd helapsed hlasted,
        fun _ => rfl, Or.inl rfl, fun _ => ⟨rfl, by omega⟩⟩
    · have hcut := length_eraseOldest c (L.cacheMaxLimit - 1)
      exact ⟨eraseOldest_suffix _ _, by omega, fun hzero => by have := hretained hzero; omega,
        fun helapsed => absurd helapsed hlasted, fun _ => rfl, Or.inl rfl, fun _ => by omega⟩
  · exact ⟨List.suffix_rfl, hmax, hretained, fun helapsed => absurd helapsed hlasted,
      fun _ => rfl, Or.inl rfl, fun hle => absurd hle hfull⟩

/-- Without a retention time there is never an excess. -/
theorem Roomy.within_of_retain {roomy : DataBufferCache β} (hroomy : Roomy L c now roomy)
    (h : c.Within L) (hzero : L.retainOverLimitMs = 0) : roomy.Within L := by
  have hshort := hroomy.retained hzero
  have hsince : roomy.overLimitSince = 0 := by
    rcases hroomy.since_cases with hsame | hreset
    · rw [hsame]
      exact h.since_eq_zero (h.retained hzero)
    · exact hreset
  exact ⟨hroomy.length_le, ⟨fun hne => absurd hsince hne, fun hover => by omega⟩,
    fun _ => hshort⟩

theorem Roomy.length_le_of_since {roomy : DataBufferCache β} (hroomy : Roomy L c now roomy)
    (h : c.Within L) (hsince : roomy.overLimitSince = 0) :
    roomy.buffers.length ≤ L.cacheLimit := by
  by_contra hover
  have hlength := hroomy.suffix.length_le
  have hne := h.since_iff.mpr (by omega : L.cacheLimit < c.buffers.length)
  rw [← hroomy.since_of_lt (by omega)] at hne
  exact hne hsince

/-- The time is set by the buffer that goes over the limit. -/
theorem within_push {roomy : DataBufferCache β} (hnow : now ≠ 0)
    (hmax : roomy.buffers.length < L.cacheMaxLimit)
    (hretained : L.retainOverLimitMs = 0 → roomy.buffers.length < L.cacheLimit)
    (buffer : DataBuffer β) :
    Within L {
      buffers := roomy.buffers ++ [buffer.reset]
      overLimitSince :=
        if L.cacheLimit < (roomy.buffers ++ [buffer.reset]).length then
          if roomy.overLimitSince = 0 then now else roomy.overLimitSince
        else 0 } := by
  constructor
  · simp only [List.length_append, List.length_singleton]
    omega
  · simp only [List.length_append, List.length_singleton]
    split_ifs with hover hsince
    · exact ⟨fun _ => hover, fun _ => hnow⟩
    · exact ⟨fun _ => hover, fun _ => hsince⟩
    · exact ⟨fun h => absurd rfl h, fun h => absurd h hover⟩
  · simp only [List.length_append, List.length_singleton]
    intro hzero
    have hshort := hretained hzero
    omega

/-- The buffer is pushed behind what was kept, or nothing is kept of it. -/
theorem returnDataBuffer_within (h : c.Within L) (hnow : now ≠ 0) (buffer : DataBuffer β) :
    let r := c.returnDataBuffer buffer L.cacheLimit L.cacheMaxLimit L.retainOverLimitMs now
    (∃ kept, kept <:+ c.buffers ∧
        r.2.buffers = if r.1 then kept ++ [buffer.reset] else kept) ∧
      r.2.Within L ∧
      (L.cacheLimit < r.2.buffers.length → r.1 ∧
        (r.2.overLimitSince = c.overLimitSince ∨
          r.2.overLimitSince = now ∧ r.2.buffers.length = L.cacheLimit + 1)) ∧
      (c.Elapsed L now → r.2.buffers.length ≤ L.cacheLimit + 1) := by
  have hpos := L.pos
  have hle := L.le
  have hroomy := makeRoom_roomy h now
  unfold returnDataBuffer
  rw [if_neg (by omega)]
  dsimp only
  generalize c.makeRoom L.cacheLimit L.cacheMaxLimit L.retainOverLimitMs now = roomy at hroomy ⊢
  have hfits := hroomy.length_le
  by_cases hfull : L.cacheMaxLimit ≠ 0 ∧ L.cacheMaxLimit ≤ roomy.buffers.length
  · obtain ⟨rfl, hshort⟩ := hroomy.full hfull.2
    simp only [if_pos hfull]
    exact ⟨⟨_, hroomy.suffix, by simp⟩, h, fun hover => by omega, fun _ => by omega⟩
  · simp only [if_neg hfull]
    by_cases hretain : L.retainOverLimitMs = 0 ∧ L.cacheLimit ≤ roomy.buffers.length
    · simp only [if_pos hretain]
      have hshort := hroomy.retained hretain.1
      exact ⟨⟨roomy.buffers, hroomy.suffix, by simp⟩, hroomy.within_of_retain h hretain.1,
        fun hover => by omega, fun _ => by omega⟩
    · simp only [if_neg hretain]
      refine ⟨⟨roomy.buffers, hroomy.suffix, by simp⟩, ?_, fun hover => ⟨trivial, ?_⟩,
        fun helapsed => ?_⟩
      · exact within_push hnow (by omega) (fun hzero => by omega) buffer
      · simp only [List.length_append, List.length_singleton] at hover ⊢
        rw [if_pos hover]
        by_cases hsince : roomy.overLimitSince = 0
        · have hle := hroomy.length_le_of_since h hsince
          rw [if_pos hsince]
          exact Or.inr ⟨rfl, by omega⟩
        · rw [if_neg hsince]
          exact Or.inl (hroomy.since_cases.resolve_right hsince)
      · have hshort := hroomy.elapsed helapsed
        simp only [List.length_append, List.length_singleton]
        omega

/-! ## Trimming and clearing -/

theorem trimDataBufferCacheMaxLimit_within (h : c.Within L) :
    c.trimMaxLimitLocked L.cacheMaxLimit = c :=
  trimMaxLimitLocked_of_le h.length_le

theorem clearDataBufferCache_within (h : c.Within L) :
    c.clearDataBufferCache.Within L ∧ c.clearDataBufferCache.buffers = [] := by
  unfold clearDataBufferCache
  split
  next hempty => exact ⟨h, List.isEmpty_iff.mp hempty⟩
  next => exact ⟨⟨by simp, by simp, by simp⟩, rfl⟩

end DataBufferCache

/-! ## Any sequence of calls -/

/-- The cache and the buffers around it, by the numbers of their allocations:
all that were made, those that the callers own, and those that are destroyed.
`overFrom` is the last time at which a buffer brought the cache over its
limit. -/
structure CacheUse (β : Type) where
  cache : DataBufferCache β := {}
  made : List Nat := []
  held : List Nat := []
  released : List Nat := []
  now : Nat := 0
  overFrom : Nat := 0

inductive CacheCall (β : Type) where
  | allocate (address : Nat)
  | take (capacity now : Nat)
  | giveBack (buffer : DataBuffer β) (now : Nat)
  | trim
  | trimMaxLimit
  | clear

namespace CacheUse

variable {β : Type}

def cached (s : CacheUse β) : List Nat := s.cache.buffers.map DataBuffer.address

/-- The buffers in front of those that are left are destroyed. -/
def keep (s : CacheUse β) (before : List (DataBuffer β)) (cache : DataBufferCache β) :
    CacheUse β :=
  { s with
    cache := cache
    released := s.released ++
      (before.take (before.length - cache.buffers.length)).map DataBuffer.address }

/-- A call, with the time at which it reads the clock.  A caller gives back
what it owns; the clock is positive and does not go back. -/
def step (L : CacheLimits) (s : CacheUse β) : CacheCall β → Option (CacheUse β)
  | .allocate address =>
      if address ∈ s.made then none
      else some { s with made := address :: s.made, held := address :: s.held }
  | .take capacity now =>
      if now < s.now ∨ now = 0 then none
      else
        let taken := s.cache.takeDataBuffer capacity L.cacheLimit L.cacheMaxLimit
          L.retainOverLimitMs now
        let left := { s.keep s.cache.buffers.dropLast taken.2 with now := now }
        match taken.1 with
        | none => some left
        | some buffer => some { left with held := buffer.address :: s.held }
  | .giveBack buffer now =>
      if now < s.now ∨ now = 0 ∨ buffer.address ∉ s.held then none
      else
        let returned := s.cache.returnDataBuffer buffer L.cacheLimit L.cacheMaxLimit
          L.retainOverLimitMs now
        let owned := { s with held := s.held.erase buffer.address, now := now }
        if returned.1 then
          some { owned.keep (s.cache.buffers ++ [buffer.reset]) returned.2 with
            overFrom :=
              if returned.2.buffers.length = L.cacheLimit + 1 then now else s.overFrom }
        else
          let left := owned.keep s.cache.buffers returned.2
          some { left with released := buffer.address :: left.released }
  | .trim => some (s.keep s.cache.buffers (s.cache.trimDataBufferCache L.cacheLimit))
  | .trimMaxLimit => some (s.keep s.cache.buffers (s.cache.trimMaxLimitLocked L.cacheMaxLimit))
  | .clear => some (s.keep s.cache.buffers s.cache.clearDataBufferCache)

/-- Every buffer is with its caller, in the cache or destroyed, and in one
place only; the time is not later than the last crossing of the limit. -/
structure Accounted (L : CacheLimits) (s : CacheUse β) : Prop where
  within : s.cache.Within L
  nodup : s.made.Nodup
  places : (s.held ++ s.cached ++ s.released).Perm s.made
  since_le : s.cache.overLimitSince ≤ s.overFrom
  overFrom_le : s.overFrom ≤ s.now

variable {L : CacheLimits} {s t : CacheUse β}

theorem keep_places (s : CacheUse β) {before : List (DataBuffer β)} {cache : DataBufferCache β}
    (hsuffix : cache.buffers <:+ before) :
    ((s.keep before cache).cached ++ (s.keep before cache).released).Perm
      (before.map DataBuffer.address ++ s.released) := by
  obtain ⟨gone, rfl⟩ := hsuffix
  have hlength : (gone ++ cache.buffers).length - cache.buffers.length = gone.length := by
    rw [List.length_append]
    omega
  simp only [cached, keep, hlength, List.take_left, List.map_append]
  generalize gone.map DataBuffer.address = front
  generalize cache.buffers.map DataBuffer.address = back
  rw [← List.append_assoc, List.append_assoc front]
  exact List.perm_append_comm

/-- A call that takes nothing out and puts nothing in. -/
theorem Accounted.keep (h : s.Accounted L) {cache : DataBufferCache β}
    (hsuffix : cache.buffers <:+ s.cache.buffers) (hwithin : cache.Within L)
    (hsince : cache.overLimitSince ≤ s.overFrom) :
    (s.keep s.cache.buffers cache).Accounted L := by
  refine ⟨hwithin, h.nodup, ?_, hsince, h.overFrom_le⟩
  have hplaces := (s.keep_places hsuffix).append_left s.held
  rw [← List.append_assoc, ← List.append_assoc] at hplaces
  exact hplaces.trans h.places

theorem Accounted.allocate (h : s.Accounted L) {address : Nat} (hnew : address ∉ s.made) :
    Accounted L { s with made := address :: s.made, held := address :: s.held } :=
  ⟨h.within, List.nodup_cons.mpr ⟨hnew, h.nodup⟩, h.places.cons address, h.since_le,
    h.overFrom_le⟩

theorem since_le_of_within {c : DataBufferCache β} (hwithin : c.Within L) {time : Nat}
    (hover : L.cacheLimit < c.buffers.length → c.overLimitSince ≤ time) :
    c.overLimitSince ≤ time := by
  by_cases hsince : c.overLimitSince = 0
  · omega
  · exact hover (hwithin.since_iff.mp hsince)

/-- The newest buffer goes to the caller. -/
theorem take_places (s : CacheUse β) {buffer : DataBuffer β} {cache : DataBufferCache β}
    (hlast : s.cache.buffers.getLast? = some buffer)
    (hsuffix : cache.buffers <:+ s.cache.buffers.dropLast) :
    (buffer.address :: s.held ++ (s.keep s.cache.buffers.dropLast cache).cached ++
        (s.keep s.cache.buffers.dropLast cache).released).Perm
      (s.held ++ s.cached ++ s.released) := by
  obtain ⟨front, hfront⟩ := List.getLast?_eq_some_iff.mp hlast
  have hkept := s.keep_places hsuffix
  rw [hfront, List.dropLast_concat] at hkept ⊢
  have hcached : s.cached = front.map DataBuffer.address ++ [buffer.address] := by
    rw [cached, hfront, List.map_append, List.map_singleton]
  rw [hcached, List.append_assoc]
  refine (hkept.append_left (buffer.address :: s.held)).trans ?_
  have hmiddle : (s.held ++ (front.map DataBuffer.address ++ [buffer.address]) ++ s.released) =
      (s.held ++ front.map DataBuffer.address) ++ buffer.address :: s.released := by
    simp
  rw [hmiddle, List.cons_append, ← List.append_assoc]
  exact List.perm_middle.symm

theorem Accounted.take (h : s.Accounted L) {capacity now : Nat}
    (hstep : s.step L (.take capacity now) = some t) : t.Accounted L := by
  rw [step] at hstep
  split_ifs at hstep with hclock
  have hwithin := DataBufferCache.takeDataBuffer_within h.within capacity now
  have hfst := s.cache.takeDataBuffer_fst capacity L.cacheLimit L.cacheMaxLimit
    L.retainOverLimitMs now
  dsimp only at hstep hwithin
  generalize s.cache.takeDataBuffer capacity L.cacheLimit L.cacheMaxLimit
    L.retainOverLimitMs now = taken at hstep hwithin hfst
  obtain ⟨hsuffix, hwithin, hsince, -⟩ := hwithin
  have hsince' : taken.2.overLimitSince ≤ s.overFrom :=
    since_le_of_within hwithin fun hover => by
      rw [hsince hover]
      exact h.since_le
  have hnow := h.overFrom_le
  cases hlast : s.cache.buffers.getLast? with
  | none =>
      rw [hfst, hlast] at hstep
      simp only [Option.map_none, Option.some.injEq] at hstep
      subst hstep
      have hnil := List.getLast?_eq_none_iff.mp hlast
      have hkept := (s.keep_places hsuffix).append_left s.held
      rw [hnil, List.dropLast_nil, List.map_nil, List.nil_append, ← List.append_assoc] at hkept
      have hplaces := h.places
      rw [cached, hnil, List.map_nil, List.append_nil] at hplaces
      rw [hnil]
      exact ⟨hwithin, h.nodup, hkept.trans hplaces, hsince', (by omega : s.overFrom ≤ now)⟩
  | some buffer =>
      rw [hfst, hlast] at hstep
      simp only [Option.map_some, Option.some.injEq] at hstep
      subst hstep
      exact ⟨hwithin, h.nodup, (s.take_places hlast hsuffix).trans h.places, hsince',
        (by omega : s.overFrom ≤ now)⟩

/-- The buffer goes from its caller into the cache. -/
theorem push_places (s : CacheUse β) {buffer : DataBuffer β}
    (hheld : buffer.address ∈ s.held) {now : Nat} {kept : List (DataBuffer β)}
    {cache : DataBufferCache β} (hkept : kept <:+ s.cache.buffers)
    (hcache : cache.buffers = kept ++ [buffer.reset]) :
    let owned := { s with held := s.held.erase buffer.address, now := now }
    let next := owned.keep (s.cache.buffers ++ [buffer.reset]) cache
    (next.held ++ next.cached ++ next.released).Perm (s.held ++ s.cached ++ s.released) := by
  intro owned next
  have hsuffix : cache.buffers <:+ s.cache.buffers ++ [buffer.reset] := by
    obtain ⟨gone, hgone⟩ := hkept
    exact ⟨gone, by rw [hcache, ← hgone, List.append_assoc]⟩
  have hplaces := (owned.keep_places hsuffix).append_left next.held
  rw [← List.append_assoc] at hplaces
  refine hplaces.trans ?_
  have hmiddle : next.held ++ ((s.cache.buffers ++ [buffer.reset]).map DataBuffer.address ++
      owned.released) =
        (s.held.erase buffer.address ++ s.cached) ++ buffer.address :: s.released := by
    simp [next, owned, keep, cached, DataBuffer.reset]
  rw [hmiddle]
  refine List.perm_middle.trans ?_
  rw [← List.cons_append, ← List.cons_append]
  exact ((List.perm_cons_erase hheld).symm.append_right s.cached).append_right s.released

/-- The buffer goes from its caller to those that are destroyed. -/
theorem drop_places (s : CacheUse β) {buffer : DataBuffer β}
    (hheld : buffer.address ∈ s.held) {now : Nat} {cache : DataBufferCache β}
    (hsuffix : cache.buffers <:+ s.cache.buffers) :
    let owned := { s with held := s.held.erase buffer.address, now := now }
    let left := owned.keep s.cache.buffers cache
    (left.held ++ left.cached ++ buffer.address :: left.released).Perm
      (s.held ++ s.cached ++ s.released) := by
  intro owned left
  have hplaces := (owned.keep_places hsuffix).append_left left.held
  rw [← List.append_assoc] at hplaces
  refine List.perm_middle.trans ((hplaces.cons buffer.address).trans ?_)
  change (buffer.address :: (s.held.erase buffer.address ++ (s.cached ++ s.released))).Perm _
  rw [← List.append_assoc, ← List.cons_append, ← List.cons_append]
  exact ((List.perm_cons_erase hheld).symm.append_right s.cached).append_right s.released

theorem Accounted.giveBack (h : s.Accounted L) {buffer : DataBuffer β} {now : Nat}
    (hstep : s.step L (.giveBack buffer now) = some t) : t.Accounted L := by
  rw [step] at hstep
  split_ifs at hstep with hclock
  simp only [not_or, Nat.not_lt, not_not] at hclock
  obtain ⟨hlater, hnow, hheld⟩ := hclock
  have hwithin := DataBufferCache.returnDataBuffer_within h.within hnow buffer
  dsimp only at hstep hwithin
  generalize s.cache.returnDataBuffer buffer L.cacheLimit L.cacheMaxLimit
    L.retainOverLimitMs now = returned at hstep hwithin
  obtain ⟨⟨kept, hkept, hbuffers⟩, hwithin, hover, -⟩ := hwithin
  have hsince := h.since_le
  have hfrom := h.overFrom_le
  cases hreturned : returned.1 with
  | true =>
      rw [hreturned] at hstep hbuffers
      simp only [if_true, Option.some.injEq] at hstep hbuffers
      subst hstep
      have hcrossed : returned.2.overLimitSince ≤
          if returned.2.buffers.length = L.cacheLimit + 1 then now else s.overFrom := by
        refine since_le_of_within hwithin fun hmore => ?_
        rcases (hover hmore).2 with hsame | ⟨htime, hlength⟩
        · split_ifs <;> omega
        · rw [if_pos hlength]
          omega
      refine ⟨hwithin, h.nodup, (s.push_places hheld hkept hbuffers).trans h.places,
        hcrossed, ?_⟩
      change (if returned.2.buffers.length = L.cacheLimit + 1 then now else s.overFrom) ≤ now
      split_ifs <;> omega
  | false =>
      rw [hreturned] at hstep hbuffers
      simp only [Bool.false_eq_true, if_false, Option.some.injEq] at hstep hbuffers
      subst hstep
      have hkept' : returned.2.buffers <:+ s.cache.buffers := hbuffers ▸ hkept
      refine ⟨hwithin, h.nodup, (s.drop_places hheld hkept').trans h.places, ?_,
        (by omega : s.overFrom ≤ now)⟩
      exact since_le_of_within hwithin fun hmore => by
        rw [hreturned] at hover
        exact absurd (hover hmore).1 (by simp)

theorem Accounted.step (h : s.Accounted L) {call : CacheCall β}
    (hstep : s.step L call = some t) : t.Accounted L := by
  cases call with
  | allocate address =>
      rw [CacheUse.step] at hstep
      split_ifs at hstep with hmade
      simp only [Option.some.injEq] at hstep
      exact hstep ▸ h.allocate hmade
  | take capacity now => exact h.take hstep
  | giveBack buffer now => exact h.giveBack hstep
  | trim =>
      simp only [CacheUse.step, Option.some.injEq] at hstep
      exact hstep ▸ h.keep (DataBufferCache.trimDataBufferCache_suffix _ _)
        (DataBufferCache.within_trim L _) (Nat.zero_le _)
  | trimMaxLimit =>
      simp only [CacheUse.step, Option.some.injEq] at hstep
      rw [DataBufferCache.trimDataBufferCacheMaxLimit_within h.within] at hstep
      exact hstep ▸ h.keep List.suffix_rfl h.within h.since_le
  | clear =>
      simp only [CacheUse.step, Option.some.injEq] at hstep
      obtain ⟨hwithin, hnil⟩ := DataBufferCache.clearDataBufferCache_within h.within
      refine hstep ▸ h.keep (hnil ▸ List.nil_suffix) hwithin ?_
      exact since_le_of_within hwithin fun hmore => by
        rw [hnil] at hmore
        exact absurd hmore (by simp)

theorem accounted_initial : ({} : CacheUse β).Accounted L :=
  ⟨⟨Nat.zero_le _, by simp, by simp⟩, List.nodup_nil, List.Perm.refl _, Nat.le_refl _,
    Nat.le_refl _⟩

theorem accounted_of_reachable (hrun : Reachable (CacheUse.step L) {} s) : s.Accounted L :=
  hrun.invariant (fun _ _ _ h _ hstep => h.step hstep) accounted_initial

theorem giveBack_address (h : s.Accounted L) {buffer : DataBuffer β} {now : Nat}
    (hstep : s.step L (.giveBack buffer now) = some t) :
    buffer.address ∈ t.made ∧ buffer.address ∉ t.held := by
  have hnodup := h.places.nodup_iff.mpr h.nodup
  rw [List.append_assoc, List.nodup_append] at hnodup
  rw [step] at hstep
  split_ifs at hstep with hclock
  simp only [not_or, Nat.not_lt, not_not] at hclock
  have hmade : buffer.address ∈ s.made :=
    h.places.mem_iff.mp (by simp only [List.mem_append]; exact Or.inl (Or.inl hclock.2.2))
  have hheld : buffer.address ∉ s.held.erase buffer.address := hnodup.1.not_mem_erase
  dsimp only at hstep
  split at hstep <;> simp only [Option.some.injEq] at hstep <;> subst hstep <;>
    exact ⟨hmade, hheld⟩

/-- A buffer that is given back has one place in the cache or none. -/
theorem giveBack_once (h : s.Accounted L) {buffer : DataBuffer β} {now : Nat}
    (hstep : s.step L (.giveBack buffer now) = some t) :
    (t.cached.count buffer.address = 1 ∧ buffer.address ∉ t.released) ∨
      (buffer.address ∉ t.cached ∧ buffer.address ∈ t.released) := by
  obtain ⟨hmade, hheld⟩ := giveBack_address h hstep
  have hnext := h.step hstep
  have hmem := hnext.places.mem_iff.mpr hmade
  have hnodup := hnext.places.nodup_iff.mpr hnext.nodup
  rw [List.append_assoc, List.nodup_append] at hnodup
  obtain ⟨-, hnodup, -⟩ := hnodup
  rw [List.nodup_append] at hnodup
  obtain ⟨hcached, -, hapart⟩ := hnodup
  simp only [List.mem_append, hheld, false_or] at hmem
  rcases hmem with hmem | hmem
  · refine Or.inl ⟨List.count_eq_one_of_mem hcached hmem, fun hreleased => ?_⟩
    exact hapart _ hmem _ hreleased rfl
  · exact Or.inr ⟨fun hcached => hapart _ hcached _ hmem rfl, hmem⟩

/-- The calls that look at the excess. -/
def CacheCall.time : CacheCall β → Option Nat
  | .take _ now => some now
  | .giveBack _ now => some now
  | _ => none

theorem step_elapsed (h : s.Accounted L) {call : CacheCall β} {now : Nat}
    (htime : CacheCall.time call = some now) (hstep : s.step L call = some t)
    (hover : L.cacheLimit < s.cache.buffers.length)
    (hlasted : L.retainOverLimitMs ≤ now - s.cache.overLimitSince) :
    t.cache.buffers.length ≤ L.cacheLimit + 1 := by
  have hsince := h.since_le
  have hfrom := h.overFrom_le
  cases call with
  | take capacity time =>
      obtain rfl : time = now := Option.some.inj htime
      rw [step] at hstep
      split_ifs at hstep with hclock
      have helapsed : s.cache.Elapsed L time :=
        ⟨hover, by rw [BufferQueue.fetchSub_of_le (by omega)]; exact hlasted⟩
      have hshort := (DataBufferCache.takeDataBuffer_within h.within capacity time).2.2.2
        helapsed
      dsimp only at hstep
      split at hstep <;> simp only [Option.some.injEq] at hstep <;> subst hstep <;>
        exact Nat.le_succ_of_le hshort
  | giveBack buffer time =>
      obtain rfl : time = now := Option.some.inj htime
      rw [step] at hstep
      split_ifs at hstep with hclock
      simp only [not_or, Nat.not_lt, not_not] at hclock
      have helapsed : s.cache.Elapsed L time :=
        ⟨hover, by rw [BufferQueue.fetchSub_of_le (by omega)]; exact hlasted⟩
      have hshort := (DataBufferCache.returnDataBuffer_within h.within hclock.2.1 buffer).2.2.2
        helapsed
      dsimp only at hstep
      split at hstep <;> simp only [Option.some.injEq] at hstep <;> subst hstep <;> exact hshort
  | allocate address => cases htime
  | trim => cases htime
  | trimMaxLimit => cases htime
  | clear => cases htime

/-- The bounds of the cache in every run. -/
theorem cache_bounds (hrun : Reachable (CacheUse.step L) {} s) :
    s.cache.buffers.length ≤ L.cacheMaxLimit ∧
      (s.cache.overLimitSince ≠ 0 ↔ L.cacheLimit < s.cache.buffers.length) ∧
      s.cache.overLimitSince ≤ s.overFrom ∧
      (∀ buffer now t, s.step L (.giveBack buffer now) = some t →
        (t.cached.count buffer.address = 1 ∧ buffer.address ∉ t.released) ∨
          (buffer.address ∉ t.cached ∧ buffer.address ∈ t.released)) ∧
      (s.made.Nodup ∧ (s.held ++ s.cached ++ s.released).Perm s.made) ∧
      ∀ call now t, CacheCall.time call = some now → s.step L call = some t →
        L.cacheLimit < s.cache.buffers.length →
        L.retainOverLimitMs ≤ now - s.cache.overLimitSince →
          t.cache.buffers.length ≤ L.cacheLimit + 1 := by
  have h := accounted_of_reachable hrun
  exact ⟨h.within.length_le, h.within.since_iff, h.since_le,
    fun _ _ _ hstep => giveBack_once h hstep, ⟨h.nodup, h.places⟩,
    fun _ _ _ htime hstep hover hlasted => step_elapsed h htime hstep hover hlasted⟩

/-- Two buffers in a cache for one are dropped to one after the retention
time, before the third is added. -/
theorem cache_bounds_excess :
    let L : CacheLimits := ⟨1, 3, 5, by decide, by decide⟩
    ∃ s : CacheUse UInt8, Reachable (CacheUse.step L) {} s ∧
      s.cache.buffers.length = 2 ∧ s.cache.overLimitSince = 8 ∧
      ∃ t, s.step L (.giveBack (.new 3 64) 13) = some t ∧ t.cache.buffers.length ≤ 2 := by
  intro L
  obtain ⟨s, hrun, hcheck⟩ := exists_reachable_of_exec (@CacheUse.step UInt8 L) {}
    [.allocate 1, .allocate 2, .allocate 3, .giveBack (.new 1 64) 7, .giveBack (.new 2 64) 8]
    (fun s => s.cache.buffers.length == 2 && s.cache.overLimitSince == 8 &&
      (s.step L (.giveBack (.new 3 64) 13)).isSome) (by decide)
  simp only [Bool.and_eq_true, beq_iff_eq, Option.isSome_iff_exists] at hcheck
  obtain ⟨⟨hlength, hsince⟩, t, hstep⟩ := hcheck
  refine ⟨s, hrun, hlength, hsince, t, hstep, ?_⟩
  exact (cache_bounds hrun).2.2.2.2.2 _ 13 t rfl hstep (by rw [hlength]; decide)
    (hsince.symm ▸ (by decide : 5 ≤ 13 - 8))

end CacheUse

end Logme
