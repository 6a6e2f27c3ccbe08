import Logme.ContextApply

/-!
# What a context keeps between renderings

A message that is forwarded from channel to channel keeps the time stamp, the
process and thread prefix and the method name of its earlier renderings;
`Channel::Display` renders it before it forwards it, so that the settings of
the first channel are used.  Nothing else of an earlier rendering shows: the
signature, the buffers and a text completed in place are those of a new
context.  A call that selects the flags of the last rendering returns it again.
-/

namespace Logme

namespace Message

/-- The flags that a call selects. -/
def shownFlags (m : Message) (flags : OutputFlags) : OutputFlags :=
  (flags.override m.ovr).withControl m.initialApplied

/-- The control flags of a context and its signature never change. -/
structure Steady (m : Message) (s : ApplyState) : Prop where
  control : s.applied.value &&& 0x60000000 = m.initialApplied.value &&& 0x60000000
  signature : s.signature = 0 ∨ s.signature = m.signature

theorem Steady.flagsOf {m : Message} {s : ApplyState} (h : m.Steady s)
    (flags : OutputFlags) : m.flagsOf s flags = m.shownFlags flags :=
  OutputFlags.withControl_congr _ h.control

theorem steady_newContext (m : Message) (memory : List UInt8) :
    m.Steady (m.newContext memory) := ⟨rfl, .inl rfl⟩

theorem steady_apply {m : Message} (s : ApplyState) (ch : OutputChannel)
    (flags : OutputFlags) (h : m.Steady s) : m.Steady (m.apply s ch flags) := by
  rcases m.apply_cases s ch flags with ⟨-, hagain⟩ | ⟨-, hrendered⟩
  · rw [hagain]
    exact h
  · constructor
    · rw [hrendered.applied, Message.flagsOf, OutputFlags.withControl_control]
      exact h.control
    · rw [hrendered.parts.signature, ApplyState.prepare_signature]
      split
      next => exact .inr rfl
      next => exact h.signature

theorem steady_applyAll (m : Message) (memory : List UInt8) (calls : List ApplyCall) :
    m.Steady (m.applyAll (m.newContext memory) calls) :=
  applyAll_invariant steady_apply (m.steady_newContext memory) calls

/-! ## The parts that a rendering uses -/

/-- The contexts agree on the parts that the flags select. -/
structure SameShown (m : Message) (flags : OutputFlags) (s s' : ApplyState) : Prop where
  timestamp : flags.timestamp ≠ 0 → s.timestamp = s'.timestamp
  threadProcessID : flags.isText = true → flags.printsID = true →
    s.threadProcessID = s'.threadProcessID
  signature : flags.isText = true → flags.signature = true →
    s.signature = s'.signature
  method : flags.printsMethod = true → s.method = s'.method

theorem rendering_timestamp {m : Message} {flags : OutputFlags}
    (hunused : flags.timestamp = 0) (s : ApplyState) (timestamp : Name) :
    m.rendering { s with timestamp := timestamp } flags = m.rendering s flags := by
  simp [rendering, jsonOutput, xmlOutput, prefixPieces, JsonOutput.when, hunused]

theorem rendering_method {m : Message} {flags : OutputFlags}
    (hunused : flags.printsMethod = false) (s : ApplyState)
    (method : Option MethodName) :
    m.rendering { s with method := method } flags = m.rendering s flags := by
  simp [rendering, jsonOutput, xmlOutput, prefixPieces, JsonOutput.when, hunused]

theorem format_of_isText {flags : OutputFlags} (h : flags.isText = false) :
    flags.format = 1 ∨ flags.format = 2 := by
  unfold OutputFlags.isText at h
  simp only [Bool.and_eq_false_iff, bne_eq_false_iff_eq] at h
  exact h

/-- The structured formats print the process and the thread themselves. -/
theorem rendering_threadProcessID {m : Message} {flags : OutputFlags}
    (hunused : flags.isText = false ∨ flags.printsID = false) (s : ApplyState)
    (text : Name) :
    m.rendering { s with threadProcessID := text } flags = m.rendering s flags := by
  rcases hunused with htext | hprints
  · rcases format_of_isText htext with hformat | hformat <;>
      simp [rendering, jsonOutput, xmlOutput, hformat]
  · simp [rendering, jsonOutput, xmlOutput, prefixPieces, hprints]

theorem rendering_signature {m : Message} {flags : OutputFlags}
    (hunused : flags.isText = false ∨ flags.signature = false) (s : ApplyState)
    (signature : UInt8) :
    m.rendering { s with signature := signature } flags = m.rendering s flags := by
  rcases hunused with htext | hprints
  · rcases format_of_isText htext with hformat | hformat <;>
      simp [rendering, jsonOutput, xmlOutput, hformat]
  · simp [rendering, jsonOutput, xmlOutput, prefixPieces, hprints]

theorem rendering_of_sameShown {m : Message} {flags : OutputFlags}
    {s s' : ApplyState} (h : m.SameShown flags s s') :
    m.rendering s flags = m.rendering s' flags := by
  let s₁ : ApplyState := { s with timestamp := s'.timestamp }
  let s₂ : ApplyState := { s₁ with method := s'.method }
  let s₃ : ApplyState := { s₂ with threadProcessID := s'.threadProcessID }
  let s₄ : ApplyState := { s₃ with signature := s'.signature }
  have h₁ : m.rendering s₁ flags = m.rendering s flags := by
    by_cases hused : flags.timestamp = 0
    · exact rendering_timestamp hused s s'.timestamp
    · have hsame : s₁.SameParts s := ⟨(h.timestamp hused).symm, rfl, rfl, rfl⟩
      exact rendering_congr hsame flags
  have h₂ : m.rendering s₂ flags = m.rendering s₁ flags := by
    cases hused : flags.printsMethod with
    | false => exact rendering_method hused s₁ s'.method
    | true =>
        have hsame : s₂.SameParts s₁ := ⟨rfl, rfl, rfl, (h.method hused).symm⟩
        exact rendering_congr hsame flags
  have h₃ : m.rendering s₃ flags = m.rendering s₂ flags := by
    by_cases hused : flags.isText = true ∧ flags.printsID = true
    · have hsame : s₃.SameParts s₂ :=
        ⟨rfl, (h.threadProcessID hused.1 hused.2).symm, rfl, rfl⟩
      exact rendering_congr hsame flags
    · rw [not_and_or, Bool.not_eq_true, Bool.not_eq_true] at hused
      exact rendering_threadProcessID hused s₂ s'.threadProcessID
  have h₄ : m.rendering s₄ flags = m.rendering s₃ flags := by
    by_cases hused : flags.isText = true ∧ flags.signature = true
    · have hsame : s₄.SameParts s₃ :=
        ⟨rfl, rfl, (h.signature hused.1 hused.2).symm, rfl⟩
      exact rendering_congr hsame flags
    · rw [not_and_or, Bool.not_eq_true, Bool.not_eq_true] at hused
      exact rendering_signature hused s₃ s'.signature
  have hsame : s₄.SameParts s' := ⟨rfl, rfl, rfl, rfl⟩
  calc
    m.rendering s flags = m.rendering s₄ flags := by rw [h₄, h₃, h₂, h₁]
    _ = m.rendering s' flags := rendering_congr hsame flags

/-! ## The kept parts -/

/-- A new context that starts with the parts kept in another one. -/
def keptContext (m : Message) (memory : List UInt8) (s : ApplyState) : ApplyState :=
  { m.newContext memory with
    timestamp := s.timestamp
    threadProcessID := s.threadProcessID
    method := s.method }

theorem steady_keptContext (m : Message) (memory : List UInt8) (s : ApplyState) :
    m.Steady (m.keptContext memory s) := ⟨rfl, .inl rfl⟩

/-- A call that renders shows the parts that it has prepared. -/
theorem Steady.lastData {m : Message} {s : ApplyState} (h : m.Steady s)
    {ch : OutputChannel} {flags : OutputFlags} (hnew : s.applied ≠ m.shownFlags flags)
    (hrenders : m.Renders (m.shownFlags flags)) :
    (m.apply s ch flags).lastData =
      some (m.rendering (s.prepare m ch (m.shownFlags flags)) (m.shownFlags flags)) := by
  have hcases := m.apply_cases s ch flags
  rw [h.flagsOf] at hcases
  rcases hcases with ⟨hagain, -⟩ | ⟨-, hrendered⟩
  · exact absurd hagain hnew
  · rw [hrendered.lastData hrenders]
    exact congrArg some (rendering_congr hrendered.parts _)

theorem Steady.prepare_signature {m : Message} {s : ApplyState} (h : m.Steady s)
    (ch : OutputChannel) {flags : OutputFlags} (htext : flags.isText = true)
    (hsignature : flags.signature = true) :
    (s.prepare m ch flags).signature = m.signature := by
  rw [ApplyState.prepare_signature]
  split
  next => rfl
  next hfilled =>
    rcases h.signature with hzero | hset
    · exact absurd ⟨htext, hsignature, hzero⟩ hfilled
    · exact hset

theorem sameShown_keptContext {m : Message} {s : ApplyState} (h : m.Steady s)
    (memory : List UInt8) (ch : OutputChannel) (flags : OutputFlags) :
    m.SameShown flags (s.prepare m ch flags)
      ((m.keptContext memory s).prepare m ch flags) where
  timestamp _ := by
    rw [ApplyState.prepare_timestamp, ApplyState.prepare_timestamp]
    rfl
  threadProcessID _ _ := by
    rw [ApplyState.prepare_threadProcessID, ApplyState.prepare_threadProcessID]
    rfl
  signature htext hsignature := by
    rw [h.prepare_signature ch htext hsignature,
      (m.steady_keptContext memory s).prepare_signature ch htext hsignature]
  method _ := by
    rw [ApplyState.prepare_method, ApplyState.prepare_method]
    rfl

/-! ## Calls that agree -/

/-- The method name that a new context prints for the channel. -/
def freshMethod (m : Message) (ch : OutputChannel) : Option MethodName :=
  (m.method.map fun text => ⟨text, false⟩).map (ch.shortenMethod m.ovr)

/-- What an earlier call leaves is what the later one would fill in: the time
format, the prefix and the method name, which neither channel shortens
further. -/
structure Agrees (m : Message) (earlier later : ApplyCall) : Prop where
  time : (m.shownFlags earlier.flags).timestamp ≠ 0 →
    (m.shownFlags later.flags).timestamp ≠ 0 →
    (m.shownFlags earlier.flags).timestamp = (m.shownFlags later.flags).timestamp
  threadProcess : (m.shownFlags earlier.flags).isText = true →
    (m.shownFlags earlier.flags).printsID = true →
    (m.shownFlags later.flags).isText = true →
    (m.shownFlags later.flags).printsID = true →
    m.threadProcessText earlier.channel (m.shownFlags earlier.flags) =
      m.threadProcessText later.channel (m.shownFlags later.flags)
  method : (m.shownFlags earlier.flags).printsMethod = true →
    (m.shownFlags later.flags).printsMethod = true →
    m.freshMethod earlier.channel = m.freshMethod later.channel ∧
      (m.freshMethod later.channel).map (earlier.channel.shortenMethod m.ovr) =
        m.freshMethod later.channel ∧
      (m.freshMethod later.channel).map (later.channel.shortenMethod m.ovr) =
        m.freshMethod later.channel

/-- The context that a new one is in when it renders the call. -/
def freshParts (m : Message) (call : ApplyCall) : ApplyState :=
  (m.newContext []).prepare m call.channel (m.shownFlags call.flags)

/-- Each part that the call prints is empty or what the call would fill in. -/
structure FilledFor (m : Message) (call : ApplyCall) (s : ApplyState) : Prop where
  timestamp : (m.shownFlags call.flags).timestamp ≠ 0 → s.timestamp = [] ∨
    s.timestamp = m.time.initTimestamp (m.shownFlags call.flags).timestamp
  threadProcessID : (m.shownFlags call.flags).isText = true →
    (m.shownFlags call.flags).printsID = true → s.threadProcessID = [] ∨
      s.threadProcessID = m.threadProcessText call.channel (m.shownFlags call.flags)
  method : (m.shownFlags call.flags).printsMethod = true →
    s.method = (m.method.map fun text => ⟨text, false⟩) ∨
      s.method = m.freshMethod call.channel ∧
        (m.freshMethod call.channel).map (call.channel.shortenMethod m.ovr) =
          m.freshMethod call.channel
  lastData : s.applied = m.shownFlags call.flags →
    s.lastData = some (m.rendering (m.freshParts call) (m.shownFlags call.flags))

theorem filledFor_newContext {m : Message} {call : ApplyCall}
    (hvalid : m.shownFlags call.flags ≠ m.initialApplied) (memory : List UInt8) :
    m.FilledFor call (m.newContext memory) where
  timestamp _ := .inl rfl
  threadProcessID _ _ := .inl rfl
  method _ := .inl rfl
  lastData happlied := absurd happlied.symm hvalid

/-- A context filled for the call shows what a new one does, when the prefix
and the method name that `ch` gives are those of the channel of the call. -/
theorem FilledFor.sameShown {m : Message} {call : ApplyCall} {s : ApplyState}
    (h : m.FilledFor call s) (hs : m.Steady s) {ch : OutputChannel}
    (hlabel : (m.shownFlags call.flags).isText = true →
      (m.shownFlags call.flags).printsID = true →
      m.threadProcessText ch (m.shownFlags call.flags) =
        m.threadProcessText call.channel (m.shownFlags call.flags))
    (hmethod : (m.shownFlags call.flags).printsMethod = true →
      s.method.map (ch.shortenMethod m.ovr) = m.freshMethod call.channel) :
    m.SameShown (m.shownFlags call.flags) (s.prepare m ch (m.shownFlags call.flags))
      (m.freshParts call) where
  timestamp hused := by
    rw [freshParts, ApplyState.prepare_timestamp, ApplyState.prepare_timestamp,
      if_pos (show _ ∧ (m.newContext []).timestamp = [] from ⟨hused, rfl⟩)]
    split
    next => rfl
    next hfilled =>
      rcases h.timestamp hused with hempty | hset
      · exact absurd ⟨hused, hempty⟩ hfilled
      · exact hset
  threadProcessID htext hused := by
    rw [freshParts, ApplyState.prepare_threadProcessID,
      ApplyState.prepare_threadProcessID,
      if_pos (show _ ∧ _ ∧ (m.newContext []).threadProcessID = [] from
        ⟨htext, hused, rfl⟩)]
    split
    next => exact hlabel htext hused
    next hfilled =>
      rcases h.threadProcessID htext hused with hempty | hset
      · exact absurd ⟨htext, hused, hempty⟩ hfilled
      · exact hset
  signature htext hused := by
    rw [hs.prepare_signature ch htext hused, freshParts,
      (m.steady_newContext []).prepare_signature call.channel htext hused]
  method hused := by
    rw [freshParts, ApplyState.prepare_method, ApplyState.prepare_method,
      if_pos hused, if_pos hused, hmethod hused]
    rfl

theorem FilledFor.shortened {m : Message} {call earlier : ApplyCall} {s : ApplyState}
    (h : m.FilledFor call s) (hagrees : m.Agrees earlier call)
    (hearlier : (m.shownFlags earlier.flags).printsMethod = true)
    (hlater : (m.shownFlags call.flags).printsMethod = true) :
    s.method.map (earlier.channel.shortenMethod m.ovr) = m.freshMethod call.channel := by
  rcases hagrees.method hearlier hlater with ⟨hsame, hearlierKeeps, -⟩
  rcases h.method hlater with horiginal | ⟨hshort, -⟩
  · rw [horiginal]
    exact hsame
  · rw [hshort]
    exact hearlierKeeps

theorem FilledFor.apply {m : Message} {call earlier : ApplyCall} {s : ApplyState}
    (h : m.FilledFor call s) (hs : m.Steady s)
    (hrenders : m.Renders (m.shownFlags call.flags)) (hagrees : m.Agrees earlier call) :
    m.FilledFor call (m.apply s earlier.channel earlier.flags) := by
  have hcases := m.apply_cases s earlier.channel earlier.flags
  rw [hs.flagsOf] at hcases
  rcases hcases with ⟨-, hagain⟩ | ⟨hnew, hrendered⟩
  · rw [hagain]
    exact h
  · refine ⟨?_, ?_, ?_, ?_⟩
    · intro hused
      rw [hrendered.parts.timestamp, ApplyState.prepare_timestamp]
      split
      next hfills => exact .inr (by rw [hagrees.time hfills.1 hused])
      next => exact h.timestamp hused
    · intro htext hused
      rw [hrendered.parts.threadProcessID, ApplyState.prepare_threadProcessID]
      split
      next hfills =>
        exact .inr (hagrees.threadProcess hfills.1 hfills.2.1 htext hused)
      next => exact h.threadProcessID htext hused
    · intro hused
      rw [hrendered.parts.method, ApplyState.prepare_method]
      split
      next hprints =>
        exact .inr ⟨h.shortened hagrees hprints hused, (hagrees.method hprints hused).2.2⟩
      next => exact h.method hused
    · intro happlied
      have hflags : m.shownFlags earlier.flags = m.shownFlags call.flags :=
        hrendered.applied.symm.trans happlied
      have hshown : m.SameShown (m.shownFlags call.flags)
          (s.prepare m earlier.channel (m.shownFlags call.flags)) (m.freshParts call) := by
        apply h.sameShown hs
        · intro htext hused
          have hlabel := hagrees.threadProcess (hflags ▸ htext) (hflags ▸ hused) htext hused
          rwa [hflags] at hlabel
        · intro hused
          exact h.shortened hagrees (hflags ▸ hused) hused
      have hrendering : (m.apply s earlier.channel earlier.flags).lastData =
          some (m.rendering
            (s.prepare m earlier.channel (m.shownFlags earlier.flags))
            (m.shownFlags earlier.flags)) :=
        hs.lastData hnew (hflags ▸ hrenders)
      rw [hrendering, hflags]
      exact congrArg some (rendering_of_sameShown hshown)

theorem FilledFor.applyAll {m : Message} {call : ApplyCall} {s : ApplyState}
    (h : m.FilledFor call s) (hs : m.Steady s)
    (hrenders : m.Renders (m.shownFlags call.flags)) {calls : List ApplyCall}
    (hagree : ∀ earlier ∈ calls, m.Agrees earlier call) :
    m.FilledFor call (m.applyAll s calls) := by
  induction calls generalizing s with
  | nil => exact h
  | cons earlier calls ih =>
      exact ih (h.apply hs hrenders (hagree earlier (by simp)))
        (steady_apply s earlier.channel earlier.flags hs)
        fun other hother => hagree other (List.mem_cons_of_mem _ hother)

/-- The text of the call in a context that is filled for it. -/
theorem FilledFor.text {m : Message} {call : ApplyCall} {s : ApplyState}
    (h : m.FilledFor call s) (hs : m.Steady s)
    (hrenders : m.Renders (m.shownFlags call.flags)) :
    (m.apply s call.channel call.flags).lastData =
      some (m.rendering (m.freshParts call) (m.shownFlags call.flags)) := by
  by_cases hagain : s.applied = m.shownFlags call.flags
  · rcases m.apply_cases s call.channel call.flags with ⟨-, hsame⟩ | ⟨hnew, -⟩
    · rw [hsame]
      exact h.lastData hagain
    · rw [hs.flagsOf] at hnew
      exact absurd hagain hnew
  · rw [hs.lastData hagain hrenders]
    apply congrArg some
    apply rendering_of_sameShown
    apply h.sameShown hs
    · intro _ _
      rfl
    · intro hused
      rcases h.method hused with horiginal | ⟨hshort, hkeeps⟩
      · rw [horiginal]
        rfl
      · rw [hshort, hkeeps]

end Message

/-- After any calls on a context, a call that selects the flags of the last
rendering returns it again, and every other call produces what a new context
with the time stamp, the prefix and the method name kept in this one produces.
When what the earlier calls leave agrees with the call, the text is that of a
new context. -/
theorem Message.caching_keeps_three_parts (m : Message) (memory memory' : List UInt8)
    (calls : List ApplyCall) (ch : OutputChannel) (flags : OutputFlags)
    (hvalid : m.shownFlags flags ≠ m.initialApplied)
    (hrenders : m.Renders (m.shownFlags flags)) :
    let before := m.applyAll (m.newContext memory) calls
    let text := (m.apply before ch flags).lastData
    (before.applied = m.shownFlags flags → text = before.lastData) ∧
      (before.applied ≠ m.shownFlags flags →
        text = (m.apply (m.keptContext memory' before) ch flags).lastData) ∧
      ((∀ earlier ∈ calls, m.Agrees earlier ⟨ch, flags⟩) →
        text = (m.apply (m.newContext memory') ch flags).lastData) := by
  intro before text
  have hsteady : m.Steady before := m.steady_applyAll memory calls
  refine ⟨?_, ?_, ?_⟩
  · intro hagain
    rcases m.apply_cases before ch flags with ⟨-, hsame⟩ | ⟨hnew, -⟩
    · exact congrArg ApplyState.lastData hsame
    · rw [hsteady.flagsOf] at hnew
      exact absurd hagain hnew
  · intro hnew
    have hkept : (m.apply (m.keptContext memory' before) ch flags).lastData =
        some (m.rendering ((m.keptContext memory' before).prepare m ch (m.shownFlags flags))
          (m.shownFlags flags)) :=
      (m.steady_keptContext memory' before).lastData (Ne.symm hvalid) hrenders
    rw [hkept]
    exact (hsteady.lastData hnew hrenders).trans (congrArg some
      (rendering_of_sameShown (sameShown_keptContext hsteady memory' ch _)))
  · intro hagree
    let call : ApplyCall := ⟨ch, flags⟩
    have hnewFilled : ∀ memory, m.FilledFor call (m.newContext memory) :=
      fun memory => filledFor_newContext hvalid memory
    have hfilled : m.FilledFor call before :=
      (hnewFilled memory).applyAll (m.steady_newContext memory) hrenders hagree
    have hfresh := (hnewFilled memory').text (m.steady_newContext memory') hrenders
    exact (hfilled.text hsteady hrenders).trans hfresh.symm

/-- A message of thread 42 with the given text. -/
private def forwardedMessage (text : List UInt8) : Message where
  level := .info
  channelName := ascii "main"
  subsystem := 0
  method := none
  fullName := []
  line := 0
  procPrint := false
  procPrintIn := false
  appendProc := none
  ovr := none
  repeatCount := 0
  text := text
  capacity := 4
  time := ⟨⟨2024, 1, 2, 3, 4, 5, 6⟩, ⟨2024, 1, 2, 1, 4, 5, 6⟩, 7200⟩
  process := 1
  thread := 42
  threadFields := []
  fieldName := defaultFieldNames

private def namedThread : OutputChannel where
  threadName := some ⟨some (ascii "worker"), none⟩

/-- A channel that names the thread prints its identifier; the channel it
forwards to prints the signature as well. -/
theorem Message.caching_keeps_three_parts_forwarded :
    let m := forwardedMessage (ascii "hi")
    let before := m.applyAll (m.newContext []) [⟨namedThread, ⟨0x200⟩⟩]
    (m.apply before {} ⟨0x204⟩).lastData =
      (m.apply (m.keptContext [] before) {} ⟨0x204⟩).lastData := by
  let m := forwardedMessage (ascii "hi")
  exact (m.caching_keeps_three_parts [] [] [⟨namedThread, ⟨0x200⟩⟩] {} ⟨0x204⟩
    (by decide) fun _ => .inl (by decide)).2.1 (by decide)

/-- The forwarded message shows the thread name of the first channel.  Beyond
that, the invalid flags of a new context show no text in a new context only,
and a text with a byte behind a 0 shows a byte of an earlier rendering. -/
theorem Message.earlier_calls_show :
    let m := forwardedMessage (ascii "hi")
    let m₀ := forwardedMessage [0x61, 0, 0x62]
    let memory := List.replicate 2048 0
    (m.apply (m.applyAll (m.newContext memory) [⟨namedThread, ⟨0x200⟩⟩]) {}
          ⟨0x204⟩).lastData ≠
        (m.apply (m.newContext memory) {} ⟨0x204⟩).lastData ∧
      (m.apply (m.applyAll (m.newContext memory) [⟨{}, ⟨0x200⟩⟩]) {}
          m.initialApplied).lastData ≠
        (m.apply (m.newContext memory) {} m.initialApplied).lastData ∧
      (m₀.apply (m₀.applyAll (m₀.newContext memory) [⟨{}, ⟨0x80000⟩⟩]) {}
          ⟨0x4⟩).lastData ≠
        (m₀.apply (m₀.newContext memory) {} ⟨0x4⟩).lastData := by
  decide +kernel

end Logme
