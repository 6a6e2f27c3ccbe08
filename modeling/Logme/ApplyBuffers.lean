import Logme.ContextApply

/-!
# The buffers of `Context::Apply`

A text is written into a buffer as long as the lengths of its parts say, or it
is completed in the buffer of the message, where `GetText` finds it.  All bytes
that are written stay inside their buffer; the message stays as it was unless
a call completes it in place with a duration or a line end.
-/

namespace Logme

namespace ApplyState

/-- The two states have the same memory. -/
structure SameMemory (s s' : ApplyState) : Prop where
  buffer : s.buffer = s'.buffer
  extBuffer : s.extBuffer = s'.extBuffer
  inPlace : s.inPlace = s'.inPlace

theorem SameMemory.trans {s₁ s₂ s₃ : ApplyState} (h : SameMemory s₁ s₂)
    (h' : SameMemory s₂ s₃) : SameMemory s₁ s₃ :=
  ⟨h.buffer.trans h'.buffer, h.extBuffer.trans h'.extBuffer, h.inPlace.trans h'.inPlace⟩

theorem withTimestamp_memory (s : ApplyState) (m : Message) (flags : OutputFlags) :
    (s.withTimestamp m flags).SameMemory s := by
  unfold withTimestamp
  split <;> exact ⟨rfl, rfl, rfl⟩

theorem withSignature_memory (s : ApplyState) (m : Message) (flags : OutputFlags) :
    (s.withSignature m flags).SameMemory s := by
  unfold withSignature
  split <;> exact ⟨rfl, rfl, rfl⟩

theorem withThreadProcessID_memory (s : ApplyState) (m : Message) (ch : OutputChannel)
    (flags : OutputFlags) : (s.withThreadProcessID m ch flags).SameMemory s := by
  unfold withThreadProcessID initThreadProcessID
  repeat' split
  all_goals exact ⟨rfl, rfl, rfl⟩

theorem withMethod_memory (s : ApplyState) (m : Message) (ch : OutputChannel)
    (flags : OutputFlags) : (s.withMethod m ch flags).SameMemory s := by
  unfold withMethod
  split <;> exact ⟨rfl, rfl, rfl⟩

/-- The block that `required` bytes are written to. -/
def block (s : ApplyState) (required : Nat) : List UInt8 :=
  if 2048 < required then
    if s.extBuffer.length < required then List.replicate required 0 else s.extBuffer
  else s.buffer

theorem length_block {s : ApplyState} (h : s.buffer.length = 2048) (required : Nat) :
    required ≤ (s.block required).length := by
  unfold block
  split
  next =>
    split
    next => rw [List.length_replicate]
    next => omega
  next => omega

theorem store_inPlace (s : ApplyState) (required : Nat) (flags : OutputFlags)
    (write : List UInt8 → List UInt8) : (s.store required flags write).inPlace = s.inPlace := by
  unfold store
  split <;> rfl

/-- A writer that stays inside its block leaves `Buffer` as long as it was. -/
theorem store_buffer {s : ApplyState} {required : Nat} {flags : OutputFlags}
    {write : List UInt8 → List UInt8}
    (h : (write (s.block required)).length = (s.block required).length) :
    (s.store required flags write).buffer.length = s.buffer.length := by
  unfold block at h
  unfold store
  split
  next => rfl
  next hfits =>
    rw [if_neg hfits] at h
    exact h

end ApplyState

namespace Message

/-! ## What a call does -/

section Calls

variable (m : Message) (s : ApplyState) (call : ApplyCall)

/-- The context with the parts of the text. -/
def textState (ch : OutputChannel) (flags : OutputFlags) : ApplyState :=
  ((({ s with buffer := s.buffer.set 0 0 }.withTimestamp m flags).withSignature
    m flags).withThreadProcessID m ch flags).withMethod m ch flags

/-- The call renders a text, other than the one it has rendered last. -/
def RendersText : Prop :=
  (m.flagsOf s call.flags).isText = true ∧ s.applied ≠ m.flagsOf s call.flags

def callPieces : List (List UInt8) :=
  let flags := m.flagsOf s call.flags
  m.prefixPieces (m.textState s call.channel flags) flags

/-- What follows the message. -/
def completion : List UInt8 :=
  let flags := m.flagsOf s call.flags
  (m.appendText flags).getD [] ++ eolBytes flags

/-- The bytes that the call needs. -/
def callSize : Nat := (m.callPieces s call).flatten.length + m.text.length +
  (m.completion s call).length + 1

/-- The text is completed behind the message. -/
def InPlace : Prop :=
  m.RendersText s call ∧ (m.callPieces s call).flatten = [] ∧ m.callSize s call ≤ m.capacity

/-- `GetText`. -/
def getText : List UInt8 := BufferCursor.cString (m.text ++ s.inPlace)

/-- An unsigned size in an `int`. -/
def intSize (n : Nat) : Int := (n : Int).bmod (2 ^ 32)

/-- What the text branch writes to its block. -/
def callWrite (block : List UInt8) : List UInt8 :=
  let flags := m.flagsOf s call.flags
  let shown := m.textState s call.channel flags
  m.writeText (m.prefixPieces shown flags) shown.inPlace ((m.appendText flags).getD []) flags
    block

/-- A call that renders a text computes its size, writes inside the buffer that it
has chosen, and leaves the message as it was. -/
structure Keeps : Prop where
  size : m.RendersText s call → intSize (m.callSize s call) = m.callSize s call
  reused : m.InPlace s call → m.text.length + (m.completion s call).length + 1 ≤ m.capacity
  block : m.RendersText s call → ¬ m.InPlace s call →
    let shown := m.textState s call.channel (m.flagsOf s call.flags)
    (m.callWrite s call (shown.block (m.callSize s call))).length =
      (shown.block (m.callSize s call)).length
  text : m.getText (m.apply s call.channel call.flags) = m.text

/-- The call completes the message in place, and with something. -/
def ChangesText : Prop :=
  m.InPlace s call ∧ BufferCursor.cString (m.completion s call) ≠ []

end Calls

variable {m : Message} {s : ApplyState} {call : ApplyCall}

theorem textState_memory (m : Message) (s : ApplyState) (ch : OutputChannel)
    (flags : OutputFlags) :
    (m.textState s ch flags).SameMemory { s with buffer := s.buffer.set 0 0 } :=
  (((ApplyState.withMethod_memory _ m ch flags).trans
    (ApplyState.withThreadProcessID_memory _ m ch flags)).trans
      (ApplyState.withSignature_memory _ m flags)).trans
        (ApplyState.withTimestamp_memory _ m flags)

theorem callSize_eq (m : Message) (s : ApplyState) (call : ApplyCall) :
    m.callSize s call = m.textSize (m.callPieces s call)
      ((m.appendText (m.flagsOf s call.flags)).getD []) (m.flagsOf s call.flags) := by
  rw [callSize, completion, textSize, List.length_append]
  omega

/-- The text branch, with the names of this file. -/
theorem apply_of_rendersText (h : m.RendersText s call) :
    m.apply s call.channel call.flags =
      let flags := m.flagsOf s call.flags
      let shown := m.textState s call.channel flags
      if (m.callPieces s call).flatten = [] ∧ m.callSize s call ≤ m.capacity then
        { shown with
          inPlace := m.completion s call
          applied := flags
          lastData := some (m.text ++ (m.appendText flags).getD [] ++ eolBytes flags) }
      else shown.store (m.callSize s call) flags (m.callWrite s call) := by
  have htext : (m.flagsOf s call.flags).format ≠ 1 ∧ (m.flagsOf s call.flags).format ≠ 2 := by
    simpa [OutputFlags.isText] using h.1
  rw [callSize_eq]
  unfold apply
  dsimp only
  rw [if_neg htext.1, if_neg htext.2, applyText, if_neg h.2]
  rfl

/-- A call that renders no text returns the last rendering again, or it stores the
output of a structured format. -/
theorem apply_of_not_rendersText (h : ¬ m.RendersText s call) :
    m.apply s call.channel call.flags = s ∨ ∃ (shown : ApplyState) (output : List UInt8),
      shown.SameMemory s ∧ m.apply s call.channel call.flags =
        shown.storeOutput (m.flagsOf s call.flags) output := by
  rcases m.apply_cases s call.channel call.flags with ⟨-, hsame⟩ | ⟨hnew, -⟩
  · exact .inl hsame
  · right
    have hformat : (m.flagsOf s call.flags).isText = false := by
      by_contra htext
      exact h ⟨by simpa using htext, hnew⟩
    have hmemory := (ApplyState.withMethod_memory (s.withTimestamp m (m.flagsOf s call.flags))
      m call.channel (m.flagsOf s call.flags)).trans
        (ApplyState.withTimestamp_memory s m (m.flagsOf s call.flags))
    unfold apply
    dsimp only
    split
    next =>
      rw [applyJson, if_neg hnew]
      exact ⟨_, _, hmemory, rfl⟩
    next hjson =>
      have hxml : (m.flagsOf s call.flags).format = 2 := by
        simp only [OutputFlags.isText, Bool.and_eq_false_iff, bne_eq_false_iff_eq] at hformat
        exact hformat.resolve_left hjson
      rw [if_pos hxml, applyXml, if_neg hnew]
      exact ⟨_, _, hmemory, rfl⟩

/-- The message is touched only by a text that is completed in place. -/
theorem apply_inPlace (h : m.InPlace s call) :
    (m.apply s call.channel call.flags).inPlace = m.completion s call := by
  rw [apply_of_rendersText h.1]
  dsimp only
  rw [if_pos h.2]

theorem apply_not_inPlace (h : ¬ m.InPlace s call) :
    (m.apply s call.channel call.flags).inPlace = s.inPlace := by
  by_cases hrenders : m.RendersText s call
  · rw [apply_of_rendersText hrenders]
    dsimp only
    rw [if_neg fun hplain => h ⟨hrenders, hplain⟩, ApplyState.store_inPlace]
    exact (m.textState_memory s call.channel _).inPlace
  · rcases apply_of_not_rendersText hrenders with hsame | ⟨shown, output, hmemory, hstored⟩
    · rw [hsame]
    · rw [hstored, ApplyState.storeOutput, ApplyState.store_inPlace]
      exact hmemory.inPlace

/-! ## Writing -/

/-- All that is written of a text lies inside a block that is long enough. -/
theorem length_writeText (m : Message) (pieces : List (List UInt8))
    (behind append : List UInt8) (flags : OutputFlags) {block : List UInt8}
    (h : m.textSize pieces append flags ≤ block.length) :
    (m.writeText pieces behind append flags block).length = block.length := by
  let size := m.textSize pieces append flags
  have hsize : size = pieces.flatten.length + m.text.length + append.length +
      (eolBytes flags).length + 1 := rfl
  let c₁ := pieces.foldl (BufferCursor.copyPiece size) (.start block)
  let c₂ := c₁.copy size (BufferCursor.cString (m.text ++ behind)) m.text.length
  let c₃ := c₂.copyPiece size append
  change (if flags.eol then c₃.store [0x0A, 0] else c₃).bytes.length = block.length
  have hstart : size ≤ (BufferCursor.start block).bytes.length := h
  obtain ⟨hbytes₁, hwritten₁⟩ := BufferCursor.length_foldl_copyPiece pieces hstart
  have hwritten : (BufferCursor.start block).written.length = 0 := rfl
  have hbytes₂ : c₂.bytes.length = c₁.bytes.length :=
    BufferCursor.length_copy (hbytes₁ ▸ hstart) _ _
  have hwritten₂ : c₂.written.length ≤ c₁.written.length + m.text.length :=
    BufferCursor.length_written_copy_le ..
  have hbytes₃ : c₃.bytes.length = c₂.bytes.length :=
    BufferCursor.length_copyPiece (by rw [hbytes₂, hbytes₁]; exact hstart) append
  have hwritten₃ : c₃.written.length ≤ c₂.written.length + append.length :=
    BufferCursor.length_written_copyPiece_le ..
  have hblock : c₃.bytes.length = block.length := hbytes₃.trans (hbytes₂.trans hbytes₁)
  cases heol : flags.eol with
  | false => exact hblock
  | true =>
      have hone : (eolBytes flags).length = 1 := by simp [eolBytes, heol]
      rw [if_pos rfl, BufferCursor.length_store, hblock]
      rw [hblock, List.length_cons, List.length_singleton]
      change c₁.written.length ≤ _ at hwritten₁
      change size ≤ block.length at h
      omega

theorem callWrite_length (hbuffer : s.buffer.length = 2048) :
    let shown := m.textState s call.channel (m.flagsOf s call.flags)
    (m.callWrite s call (shown.block (m.callSize s call))).length =
      (shown.block (m.callSize s call)).length := by
  have hshown : (m.textState s call.channel (m.flagsOf s call.flags)).buffer.length = 2048 := by
    rw [(m.textState_memory s call.channel _).buffer, List.length_set, hbuffer]
  refine m.length_writeText _ _ _ _ ?_
  exact (callSize_eq m s call).symm.le.trans (ApplyState.length_block hshown _)

/-- `Buffer` is as long after a call as before it. -/
theorem apply_buffer (hbuffer : s.buffer.length = 2048) :
    (m.apply s call.channel call.flags).buffer.length = 2048 := by
  by_cases hrenders : m.RendersText s call
  · have hshown : (m.textState s call.channel (m.flagsOf s call.flags)).buffer.length = 2048 := by
      rw [(m.textState_memory s call.channel _).buffer, List.length_set, hbuffer]
    rw [apply_of_rendersText hrenders]
    dsimp only
    split
    next => exact hshown
    next => rw [ApplyState.store_buffer (callWrite_length hbuffer), hshown]
  · rcases apply_of_not_rendersText hrenders with hsame | ⟨shown, output, hmemory, hstored⟩
    · rw [hsame, hbuffer]
    · have hshown : shown.buffer.length = 2048 := by rw [hmemory.buffer, hbuffer]
      rw [hstored, ApplyState.storeOutput, ApplyState.store_buffer, hshown]
      refine BufferCursor.length_store ?_
      rw [List.length_append, List.length_singleton]
      exact (Nat.zero_add _).le.trans (ApplyState.length_block hshown _)

/-! ## Runs of calls -/

theorem applyAll_buffer {s : ApplyState} (hbuffer : s.buffer.length = 2048)
    (calls : List ApplyCall) : (m.applyAll s calls).buffer.length = 2048 :=
  applyAll_invariant (P := fun s => s.buffer.length = 2048)
    (fun s ch flags h => @apply_buffer m s ⟨ch, flags⟩ h) hbuffer calls

theorem applyAll_concat (m : Message) (s : ApplyState) (calls : List ApplyCall)
    (call : ApplyCall) : m.applyAll s (calls ++ [call]) =
      m.apply (m.applyAll s calls) call.channel call.flags := by
  rw [applyAll, List.foldl_append]
  rfl

theorem intSize_eq {n : Nat} (h : n < 2 ^ 31) : intSize n = n := by
  unfold intSize
  rw [Int.bmod_eq_of_le] <;> omega

theorem getText_eq_iff (htext : 0 ∉ m.text) :
    m.getText s = m.text ↔ BufferCursor.cString s.inPlace = [] := by
  have hwhole : BufferCursor.cString m.text = m.text := by
    refine List.takeWhile_eq_self_iff.mpr fun c hc => ?_
    rw [bne_iff_ne]
    rintro rfl
    exact htext hc
  rw [getText]
  conv_lhs => rw [← hwhole, BufferCursor.cString_append, hwhole]
  exact List.append_right_eq_self

section Runs

variable (m : Message) (memory : Vector UInt8 2048) (calls : List ApplyCall)

/-- A property of every call of a run, with the context before it. -/
def EachCall (P : ApplyState → ApplyCall → Prop) : Prop :=
  ∀ before call after, calls = before ++ call :: after →
    P (m.applyAll (m.newContext memory.toList) before) call

/-- The sizes of all texts fit an `int`. -/
def Fits : Prop :=
  m.EachCall memory calls fun s call => m.RendersText s call → m.callSize s call < 2 ^ 31

end Runs

/-- If the sizes fit an `int`, the calls keep their buffers and the message exactly
if the text has no 0 and no call completes it in place with something. -/
theorem apply_keeps_iff (m : Message) (memory : Vector UInt8 2048) (calls : List ApplyCall)
    (hfits : m.Fits memory calls) :
    (m.getText (m.newContext memory.toList) = m.text ∧ m.EachCall memory calls m.Keeps) ↔
      0 ∉ m.text ∧ m.EachCall memory calls fun s call => ¬ m.ChangesText s call := by
  have hbuffer : ∀ before,
      (m.applyAll (m.newContext memory.toList) before).buffer.length = 2048 := by
    intro before
    refine applyAll_buffer ?_ before
    rw [newContext, List.length_set, Vector.length_toList]
  constructor
  · rintro ⟨hstart, hkeeps⟩
    have htext : 0 ∉ m.text := by
      intro hzero
      have hmem : (0 : UInt8) ∈ BufferCursor.cString (m.text ++ []) := by
        rw [show BufferCursor.cString (m.text ++ []) = m.text from hstart]
        exact hzero
      have hne := List.mem_takeWhile_imp hmem
      simp at hne
    refine ⟨htext, fun before call after hcalls ⟨hplace, hsome⟩ => hsome ?_⟩
    have hafter := (hkeeps before call after hcalls).text
    rwa [getText_eq_iff htext, apply_inPlace hplace] at hafter
  · rintro ⟨htext, hsteps⟩
    have hintact : ∀ before after, calls = before ++ after →
        m.getText (m.applyAll (m.newContext memory.toList) before) = m.text := by
      intro before
      induction before using List.reverseRecOn with
      | nil =>
          intro after _
          rw [getText_eq_iff htext]
          rfl
      | append_singleton before call ih =>
          intro after hcalls
          rw [List.append_assoc] at hcalls
          have hbefore := ih _ hcalls
          have hstep := hsteps before call after hcalls
          rw [getText_eq_iff htext] at hbefore ⊢
          rw [applyAll_concat]
          by_cases hplace : m.InPlace
              (m.applyAll (m.newContext memory.toList) before) call
          · rw [apply_inPlace hplace]
            by_contra hsome
            exact hstep ⟨hplace, hsome⟩
          · rw [apply_not_inPlace hplace, hbefore]
    refine ⟨hintact [] calls rfl, fun before call after hcalls => ⟨?_, ?_, ?_, ?_⟩⟩
    · exact fun hrenders => intSize_eq (hfits before call after hcalls hrenders)
    · intro hplace
      have hroom := hplace.2.2
      rw [callSize, hplace.2.1, List.length_nil, Nat.zero_add] at hroom
      exact hroom
    · exact fun _ _ => callWrite_length (hbuffer before)
    · rw [← applyAll_concat]
      refine hintact (before ++ [call]) after ?_
      rw [hcalls, List.append_assoc]
      rfl

/-! ### A message with a line end of its channel -/

def greeting : Message where
  level := .info
  channelName := []
  subsystem := 0
  method := none
  fullName := []
  line := 0
  procPrint := false
  procPrintIn := false
  appendProc := none
  ovr := none
  repeatCount := 0
  text := ascii "hi"
  capacity := 18
  time := ⟨⟨2024, 1, 2, 3, 4, 5, 6⟩, ⟨2024, 1, 2, 1, 4, 5, 6⟩, 7200⟩
  process := 1
  thread := 2
  threadFields := []
  fieldName := defaultFieldNames

def freshMemory : Vector UInt8 2048 := Vector.replicate 2048 0

theorem eachCall_singleton {memory : Vector UInt8 2048} {call : ApplyCall}
    {P : ApplyState → ApplyCall → Prop} (h : P (m.newContext memory.toList) call) :
    m.EachCall memory [call] P := by
  intro before next after hcalls
  cases before with
  | nil =>
      obtain ⟨rfl, -⟩ := List.cons.inj hcalls
      exact h
  | cons first rest => simp at hcalls

/-- With the signature before it the message is copied. -/
theorem apply_keeps_signature :
    greeting.getText (greeting.newContext freshMemory.toList) = greeting.text ∧
      greeting.EachCall freshMemory [⟨{}, ⟨0x44⟩⟩] greeting.Keeps :=
  (apply_keeps_iff greeting freshMemory [⟨{}, ⟨0x44⟩⟩]
    (eachCall_singleton fun _ => by decide)).mpr
      ⟨by decide, eachCall_singleton fun h => absurd h.1.2.1 (by decide)⟩

/-- With the line end only, the message gets the line end. -/
theorem line_end_joins_message :
    greeting.getText (greeting.newContext freshMemory.toList) = ascii "hi" ∧
      greeting.getText (greeting.apply (greeting.newContext freshMemory.toList) {} ⟨0x40⟩) =
        ascii "hi\n" ∧
      ¬ greeting.EachCall freshMemory [⟨{}, ⟨0x40⟩⟩] greeting.Keeps := by
  have htext : greeting.getText
      (greeting.apply (greeting.newContext freshMemory.toList) {} ⟨0x40⟩) = ascii "hi\n" := by
    decide
  refine ⟨by decide, htext, fun h => ?_⟩
  have hkept := (h [] ⟨{}, ⟨0x40⟩⟩ [] rfl).text
  rw [show greeting.applyAll (greeting.newContext freshMemory.toList) [] =
    greeting.newContext freshMemory.toList from rfl, htext] at hkept
  exact absurd hkept (by decide)

end Message

end Logme
