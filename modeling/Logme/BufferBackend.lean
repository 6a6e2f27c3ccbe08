import Logme.BackendConfigs

/-!
# The buffer backend

`BufferBackend` keeps the latest texts in a vector with a final 0.  When a text
does not fit, the policy `DELETE_OLDEST` removes whole lines from the front.
The length of a text is an `int`; a length of -1 stands for that of a C string,
whose `strlen` is cut to an `int`.
-/

namespace Logme

/-- A call of `Append`: with the length of the text, or with -1. -/
inductive AppendCall where
  | counted (text : List UInt8) (fits : text.length < 2 ^ 31)
  | terminated (text : List UInt8) (noNul : 0 ∉ text)

namespace AppendCall

def text : AppendCall → List UInt8
  | counted text _ => text
  | terminated text _ => text

/-- `(int)strlen(str)`. -/
def toInt (n : Nat) : Int :=
  if n % 2 ^ 32 < 2 ^ 31 then (n % 2 ^ 32 : Nat) else (n % 2 ^ 32 : Nat) - 2 ^ 32

/-- The length that `Append` works with. -/
def nc : AppendCall → Int
  | counted text _ => text.length
  | terminated text _ => toInt text.length

end AppendCall

/-- The vector, and the texts that have been accepted so far. -/
structure BufferBackend where
  buffer : List UInt8
  capacity : Nat
  memoryUsage : Nat
  accepted : List (List UInt8)

namespace BufferBackend

def initial : BufferBackend := ⟨[], 0, 0, []⟩

/-- `size_t(n)`. -/
def toSize (n : Int) : Nat := (n % 2 ^ 64).toNat

/-- `BufferBackend::GROW`. -/
def grow : Nat := 4 * 1024

/-- `std::vector<char>::max_size`. -/
def maxCapacity : Nat := 2 ^ 63 - 1

/-- The position of the final 0, or 0. -/
def endPosition (buffer : List UInt8) : Nat := buffer.length - 1

/-- The loop of `DELETE_OLDEST`; there is no result when it is not at its end
after these rounds. -/
def deleteOldest (maxSize : Nat) (nc : Int) : Nat → List UInt8 → Option (List UInt8)
  | 0, _ => none
  | rounds + 1, buffer =>
      let buffer :=
        if 0x0A ∈ buffer then (buffer.dropWhile (· ≠ 0x0A)).drop 1 else []
      if maxSize < toSize (endPosition buffer + nc + 1) then
        deleteOldest maxSize nc rounds buffer
      else some buffer

/-- The end of `Append`.  A vector that cannot grow throws; a negative length
makes `memcpy` copy more than there is, which has no result. -/
def store (call : AppendCall) (s : BufferBackend) : Option BufferBackend :=
  let pos := endPosition s.buffer
  let size := toSize (pos + call.nc + 1)
  let capacity :=
    if s.capacity < size then (size + grow - 1) / grow * grow else s.capacity
  if maxCapacity < capacity then some s
  else if call.nc < 0 then none
  else
    some {
      buffer := s.buffer.take pos ++ call.text.take call.nc.toNat ++ [0]
      capacity := capacity
      memoryUsage := s.memoryUsage + (capacity - s.capacity)
      accepted := s.accepted ++ [call.text] }

/-- `Append`. -/
def append (config : BufferBackendConfig) (call : AppendCall) (s : BufferBackend) :
    Option BufferBackend :=
  if call.nc = 0 then some s
  else if config.maxSize ≠ 2 ^ 64 - 1 ∧
      config.maxSize < toSize (endPosition s.buffer + call.nc + 1) then
    match config.policy with
    | .stopAppending => some s
    | .deleteOldest =>
        if config.maxSize < toSize (toSize call.nc + 1) then some s
        else
          match deleteOldest config.maxSize call.nc (s.buffer.length + 1) s.buffer with
          | none => none
          | some buffer => store call { s with buffer := buffer }
  else store call s

/-- One append after the other. -/
def appendAll (config : BufferBackendConfig) :
    List AppendCall → BufferBackend → Option BufferBackend
  | [], s => some s
  | call :: calls, s => (append config call s).bind (appendAll config calls)

/-- What a reader of the buffer finds before the final 0. -/
def text (s : BufferBackend) : List UInt8 := s.buffer.dropLast

/-! ## Lines -/

/-- The text is what follows a line end or the start of an accepted text. -/
def Aligned (accepted : List (List UInt8)) (text : List UInt8) : Prop :=
  text = [] ∨ ∃ before, accepted.flatten = before ++ text ∧
    (before.getLast? = some 0x0A ∨ ∃ k, before = (accepted.take k).flatten)

theorem Aligned.add {accepted : List (List UInt8)} {text : List UInt8}
    (h : Aligned accepted text) (more : List UInt8) :
    Aligned (accepted ++ [more]) (text ++ more) := by
  right
  rcases h with rfl | ⟨before, hflatten, hstart⟩
  · refine ⟨accepted.flatten, by simp, .inr ⟨accepted.length, ?_⟩⟩
    rw [List.take_left' rfl]
  · refine ⟨before, ?_, hstart.imp_right ?_⟩
    · rw [List.flatten_append, hflatten, List.flatten_singleton, List.append_assoc]
    · rintro ⟨k, rfl⟩
      refine ⟨min k accepted.length, ?_⟩
      rw [List.take_append_of_le_length (Nat.min_le_right ..), List.take_eq_take_min]

theorem Aligned.cut {accepted : List (List UInt8)} {before text : List UInt8}
    (h : Aligned accepted (before ++ 0x0A :: text)) : Aligned accepted text := by
  rcases h with hnil | ⟨first, hflatten, -⟩
  · exact absurd hnil (by simp)
  · refine .inr ⟨first ++ before ++ [0x0A], ?_, .inl (by simp)⟩
    rw [hflatten]
    simp

/-- Some lines may have been removed from the front, or everything. -/
def Cut (buffer rest : List UInt8) : Prop :=
  rest = [] ∨ ∃ before, buffer = before ++ 0x0A :: rest

theorem Cut.trans {buffer rest last : List UInt8} (h : Cut buffer rest)
    (h' : Cut rest last) : Cut buffer last := by
  rcases h' with rfl | ⟨before', rfl⟩
  · exact .inl rfl
  · rcases h with hnil | ⟨before, rfl⟩
    · exact absurd hnil (by simp)
    · exact .inr ⟨before ++ 0x0A :: before', by simp⟩

/-- Nothing, or a text with its final 0. -/
def Terminated (buffer : List UInt8) : Prop :=
  buffer = [] ∨ buffer.getLast? = some 0

theorem Cut.terminated {buffer rest : List UInt8} (h : Cut buffer rest)
    (hbuffer : Terminated buffer) : Terminated rest := by
  rcases h with rfl | ⟨before, rfl⟩
  · exact .inl rfl
  · rcases hbuffer with hnil | hlast
    · exact absurd hnil (by simp)
    · rcases List.eq_nil_or_concat rest with rfl | ⟨first, c, rfl⟩
      · exact .inl rfl
      · right
        have hconcat : before ++ 0x0A :: first.concat c =
            (before ++ 0x0A :: first) ++ [c] := by simp
        rw [hconcat, List.getLast?_concat] at hlast
        rwa [List.concat_eq_append, List.getLast?_concat]

theorem Cut.aligned {accepted : List (List UInt8)} {buffer rest : List UInt8}
    (h : Cut buffer rest) (hbuffer : Aligned accepted buffer.dropLast) :
    Aligned accepted rest.dropLast := by
  rcases h with rfl | ⟨before, rfl⟩
  · exact .inl rfl
  · by_cases hnil : rest = []
    · rw [hnil]
      exact .inl rfl
    · rw [List.dropLast_append_of_ne_nil (by simp),
        List.dropLast_cons_of_ne_nil hnil] at hbuffer
      exact hbuffer.cut

/-- One round of the loop. -/
theorem cut_round (buffer : List UInt8) :
    Cut buffer
      (if 0x0A ∈ buffer then (buffer.dropWhile (· ≠ 0x0A)).drop 1 else []) := by
  split
  next hmem =>
    obtain ⟨before, rest, rfl, hbefore⟩ := List.eq_append_cons_of_mem hmem
    have hother : ∀ c ∈ before, decide (c ≠ 0x0A) = true :=
      fun c hc => decide_eq_true fun heq => hbefore (heq ▸ hc)
    refine .inr ⟨before, ?_⟩
    rw [List.dropWhile_append_of_pos hother, List.dropWhile_cons_of_neg (by decide)]
    rfl
  next => exact .inl rfl

theorem Cut.length_lt {buffer rest : List UInt8} (h : Cut buffer rest)
    (hne : buffer ≠ []) : rest.length < buffer.length := by
  rcases h with rfl | ⟨before, rfl⟩
  · exact List.length_pos_iff.mpr hne
  · rw [List.length_append, List.length_cons]
    omega

theorem toSize_end {pos n : Nat} (h : pos + n + 1 < 2 ^ 64) :
    toSize ((pos : Int) + n + 1) = pos + n + 1 := by
  rw [toSize]
  omega

/-- The loop comes to an end, with space for the text. -/
theorem deleteOldest_ends {maxSize n rounds : Nat} {buffer : List UInt8}
    (hfits : n + 1 ≤ maxSize) (hn : n < 2 ^ 31) (hlength : buffer.length ≤ maxCapacity)
    (hrounds : buffer.length < rounds) :
    ∃ rest, deleteOldest maxSize n rounds buffer = some rest ∧ Cut buffer rest ∧
      endPosition rest + n + 1 ≤ maxSize ∧ rest.length ≤ buffer.length := by
  induction rounds generalizing buffer with
  | zero => omega
  | succ rounds ih =>
      have hcut := cut_round buffer
      rw [deleteOldest]
      revert hcut
      generalize (if 0x0A ∈ buffer then (buffer.dropWhile (· ≠ 0x0A)).drop 1
        else []) = rest
      intro hcut
      have hle : rest.length ≤ buffer.length := by
        by_cases hnil : buffer = []
        · rcases hcut with rfl | ⟨before, hbefore⟩
          · exact Nat.zero_le _
          · exact absurd (hbefore.symm.trans hnil) (by simp)
        · exact (hcut.length_lt hnil).le
      have hsize : toSize (endPosition rest + n + 1) = endPosition rest + n + 1 := by
        rw [maxCapacity] at hlength
        refine toSize_end ?_
        rw [endPosition]
        omega
      rw [hsize]
      split
      next hmore =>
        have hne : buffer ≠ [] := by
          rintro rfl
          rw [endPosition, List.eq_nil_of_length_eq_zero (Nat.le_zero.mp hle)] at hmore
          simp at hmore
          omega
        have hless := hcut.length_lt hne
        obtain ⟨last, hlast, hcut', hroom, hle'⟩ := ih (hle.trans hlength) (by omega)
        exact ⟨last, hlast, hcut.trans hcut', hroom, hle'.trans hle⟩
      next hroom => exact ⟨rest, rfl, hcut, Nat.not_lt.mp hroom, hle⟩

/-! ## Every append -/

/-- What holds of the buffer between two calls. -/
structure LineAligned (config : BufferBackendConfig) (s : BufferBackend) : Prop where
  size : s.buffer.length ≤ config.maxSize
  terminated : Terminated s.buffer
  aligned : Aligned s.accepted s.text

structure Invariant (config : BufferBackendConfig) (s : BufferBackend) : Prop where
  lines : LineAligned config s
  reserved : s.buffer.length ≤ s.capacity
  bounded : s.capacity ≤ maxCapacity
  memory : s.memoryUsage = s.capacity

theorem nc_of_measured {call : AppendCall} (h : call.text.length < 2 ^ 31) :
    call.nc = call.text.length := by
  cases call with
  | counted text fits => rfl
  | terminated text noNul =>
      have hmod : text.length % 2 ^ 32 = text.length :=
        Nat.mod_eq_of_lt (Nat.lt_trans h (by decide))
      have hshort : text.length < 2 ^ 31 := h
      rw [AppendCall.nc, AppendCall.toInt, hmod, if_pos hshort]
      rfl

theorem store_invariant {config : BufferBackendConfig} {call : AppendCall}
    {s : BufferBackend} (h : Invariant config s) (hcall : call.text.length < 2 ^ 31)
    (hroom : endPosition s.buffer + call.text.length + 1 ≤ config.maxSize ∨
      config.maxSize = 2 ^ 64 - 1) :
    ∃ s', store call s = some s' ∧ Invariant config s' := by
  have hlength : s.buffer.length ≤ maxCapacity := h.reserved.trans h.bounded
  have hsize : toSize (endPosition s.buffer + call.nc + 1) =
      endPosition s.buffer + call.text.length + 1 := by
    rw [maxCapacity] at hlength
    rw [nc_of_measured hcall]
    refine toSize_end ?_
    rw [endPosition]
    omega
  have hgrown (n : Nat) : n ≤ (n + grow - 1) / grow * grow := by
    rw [grow]
    omega
  rw [store, hsize]
  generalize hcapacity : (if s.capacity < endPosition s.buffer + call.text.length + 1
    then (endPosition s.buffer + call.text.length + 1 + grow - 1) / grow * grow
    else s.capacity) = capacity
  have hfits : endPosition s.buffer + call.text.length + 1 ≤ capacity ∧
      s.capacity ≤ capacity := by
    rw [← hcapacity]
    split
    next hless => exact ⟨hgrown _, hless.le.trans (hgrown _)⟩
    next hless => exact ⟨Nat.not_lt.mp hless, Nat.le_refl _⟩
  split
  next => exact ⟨s, rfl, h⟩
  next hbounded =>
    have hpositive : ¬ call.nc < 0 := by
      rw [nc_of_measured hcall]
      omega
    have htake : s.buffer.take (endPosition s.buffer) = s.buffer.dropLast :=
      (List.dropLast_eq_take ..).symm
    have hall : call.text.take call.nc.toNat = call.text := by
      rw [nc_of_measured hcall, Int.toNat_natCast, List.take_length]
    have hnew : (s.buffer.dropLast ++ call.text ++ [0]).length =
        endPosition s.buffer + call.text.length + 1 := by
      simp only [List.length_append, List.length_dropLast, List.length_singleton,
        endPosition]
    rw [if_neg hpositive, htake, hall]
    refine ⟨_, rfl, ⟨?_, .inr (by simp), ?_⟩, ?_, ?_, ?_⟩
    · rw [hnew]
      rcases hroom with hroom | hunlimited
      · exact hroom
      · rw [maxCapacity] at hbounded
        omega
    · rw [text, List.dropLast_concat]
      exact h.lines.aligned.add call.text
    · rw [hnew]
      exact hfits.1
    · exact Nat.not_lt.mp hbounded
    · dsimp only
      rw [h.memory]
      omega

theorem Invariant.cut {config : BufferBackendConfig} {s : BufferBackend}
    (h : Invariant config s) {rest : List UInt8} (hcut : Cut s.buffer rest)
    (hle : rest.length ≤ s.buffer.length) :
    Invariant config { s with buffer := rest } where
  lines := ⟨hle.trans h.lines.size, hcut.terminated h.lines.terminated,
    hcut.aligned h.lines.aligned⟩
  reserved := hle.trans h.reserved
  bounded := h.bounded
  memory := h.memory

theorem append_invariant {maxSize : Nat} {call : AppendCall} {s : BufferBackend}
    (h : Invariant ⟨maxSize, .deleteOldest⟩ s) (hcall : call.text.length < 2 ^ 31) :
    ∃ s', append ⟨maxSize, .deleteOldest⟩ call s = some s' ∧
      Invariant ⟨maxSize, .deleteOldest⟩ s' := by
  have hlength : s.buffer.length ≤ maxCapacity := h.reserved.trans h.bounded
  have hbound : s.buffer.length < 2 ^ 63 := by
    rw [maxCapacity] at hlength
    omega
  have hend : toSize (endPosition s.buffer + call.text.length + 1) =
      endPosition s.buffer + call.text.length + 1 := by
    refine toSize_end ?_
    rw [endPosition]
    omega
  have hown : toSize (toSize call.text.length + 1) = call.text.length + 1 := by
    rw [toSize, toSize]
    omega
  rw [append, nc_of_measured hcall, hend, hown]
  dsimp only
  split
  next => exact ⟨s, rfl, h⟩
  next =>
    split
    next hfull =>
      split
      next => exact ⟨s, rfl, h⟩
      next hfits =>
        obtain ⟨rest, hrest, hcut, hroom, hle⟩ :=
          deleteOldest_ends (Nat.not_lt.mp hfits) hcall hlength (Nat.lt_succ_self _)
        rw [hrest]
        exact store_invariant (h.cut hcut hle) hcall (.inl hroom)
    next hroom =>
      refine store_invariant h hcall ?_
      dsimp only
      omega

theorem initial_invariant (config : BufferBackendConfig) : Invariant config initial where
  lines := ⟨Nat.zero_le _, .inl rfl, .inl rfl⟩
  reserved := Nat.le_refl _
  bounded := Nat.zero_le _
  memory := rfl

theorem appendAll_invariant {maxSize : Nat} {calls : List AppendCall}
    (hcalls : ∀ call ∈ calls, call.text.length < 2 ^ 31) {s : BufferBackend}
    (h : Invariant ⟨maxSize, .deleteOldest⟩ s) :
    ∃ s', appendAll ⟨maxSize, .deleteOldest⟩ calls s = some s' ∧
      Invariant ⟨maxSize, .deleteOldest⟩ s' := by
  induction calls generalizing s with
  | nil => exact ⟨s, rfl, h⟩
  | cons call calls ih =>
      obtain ⟨hcall, hrest⟩ := List.forall_mem_cons.mp hcalls
      obtain ⟨s', hs', h'⟩ := append_invariant h hcall
      obtain ⟨last, hlast, hend⟩ := ih hrest h'
      exact ⟨last, by rw [appendAll, hs', Option.bind_some, hlast], hend⟩

/-- After every append whose length is not cut, in any run of such appends, the
call has returned, and the buffer holds whole lines or whole texts. -/
theorem appendAll_lineAligned {maxSize : Nat} {calls : List AppendCall}
    (hcalls : ∀ call ∈ calls, call.text.length < 2 ^ 31) :
    ∃ s, appendAll ⟨maxSize, .deleteOldest⟩ calls initial = some s ∧
      LineAligned ⟨maxSize, .deleteOldest⟩ s := by
  obtain ⟨s, hs, h⟩ := appendAll_invariant hcalls (initial_invariant ⟨maxSize, .deleteOldest⟩)
  exact ⟨s, hs, h.lines⟩

theorem appendAll_lineAligned_short :
    ∃ s, appendAll ⟨8, .deleteOldest⟩
        [.terminated [0x61, 0x0A, 0x62] (by decide), .counted [0x63, 0x64, 0x65, 0x0A]
          (by decide)] initial = some s ∧
      LineAligned ⟨8, .deleteOldest⟩ s :=
  appendAll_lineAligned (by decide)

/-! ## A length that is cut -/

/-- Of a text that is one byte longer than `int` can tell only the first byte is
stored. -/
theorem appendAll_long {c : UInt8} {rest : List UInt8} (hlength : rest.length = 2 ^ 32)
    (noNul : 0 ∉ c :: rest) :
    appendAll ⟨16, .deleteOldest⟩ [.terminated (c :: rest) noNul] initial =
      some ⟨[c, 0], 4096, 4096, [c :: rest]⟩ := by
  have hnc : (AppendCall.terminated (c :: rest) noNul).nc = 1 := by
    rw [AppendCall.nc, AppendCall.toInt, List.length_cons, hlength]
    rfl
  have htext : (AppendCall.terminated (c :: rest) noNul).text = c :: rest := rfl
  rw [appendAll, append, hnc, if_neg (by decide), if_neg (by decide), store, hnc, htext]
  rfl

def longText : List UInt8 := 0x62 :: List.replicate (2 ^ 32) 0x61

theorem nul_notMem_longText : 0 ∉ longText := by
  rw [longText, List.mem_cons, List.mem_replicate]
  rintro (h | ⟨-, h⟩)
  · exact absurd h (by decide)
  · exact absurd h (by decide)

/-- The first byte of a text that ends in another one is not the end of the text. -/
theorem not_aligned_first {c : UInt8} {rest : List UInt8}
    (hlast : (c :: rest).getLast? ≠ some c) : ¬ Aligned [c :: rest] [c] := by
  rintro (hnil | ⟨before, hflatten, -⟩)
  · exact absurd hnil (List.cons_ne_nil c [])
  · rw [List.flatten_singleton] at hflatten
    rw [hflatten, List.getLast?_concat] at hlast
    exact hlast rfl

/-- The text that is left is not the end of what was accepted. -/
theorem not_lineAligned_longText :
    ∃ s, appendAll ⟨16, .deleteOldest⟩ [.terminated longText nul_notMem_longText]
        initial = some s ∧
      ¬ LineAligned ⟨16, .deleteOldest⟩ s := by
  refine ⟨_, appendAll_long List.length_replicate nul_notMem_longText, fun h => ?_⟩
  refine not_aligned_first ?_ h.aligned
  rw [List.getLast?_cons, List.getLast?_replicate, if_neg (by decide)]
  exact fun hlast => absurd (Option.some.inj hlast) (by decide)

end BufferBackend
end Logme
