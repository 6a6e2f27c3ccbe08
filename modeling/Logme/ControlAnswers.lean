import Logme.CommandWords
import Logme.Control

/-!
# Commands without an answer

The server sends no empty answer.  Only the control extension, and the tail of a
log file in which nothing follows, can leave a command with one.
-/

namespace Logme

/-- The reports of the environment are never empty texts. -/
structure ControlEnvironment.Reports (env : ControlEnvironment) : Prop where
  help : ∀ response, env.help response ≠ []
  shows : ∀ s items, env.shows s items ≠ []

/-! ## Handlers -/

@[simp] theorem ascii_eq_nil_iff (text : String) : ascii text = [] ↔ text = "" := by
  rw [ascii, List.map_eq_nil_iff, String.toList_eq_nil_iff]

theorem errorReply_ne_nil (error : Name) : errorReply error ≠ [] := by simp [errorReply]

theorem okReply_ne_nil : okReply ≠ [] := by decide

section Handlers

variable {env : ControlEnvironment} {s : ControlState} {arr : List Name} {response : Name}

theorem commandVersion_answers : (commandVersion s response).2 ≠ [] := by
  simp [commandVersion]

theorem exists_mem_splitBytes {d : UInt8 → Bool} {c : UInt8} (hd : d c = false) {text : Name}
    (hc : c ∈ text) : ∃ piece ∈ splitBytes d text, c ∈ piece := by
  induction text with
  | nil => contradiction
  | cons first rest ih =>
      rw [splitBytes]
      rcases List.mem_cons.mp hc with rfl | hrest
      · rw [if_neg (by simp [hd])]
        split
        next => exact ⟨[c], List.mem_cons_self, List.mem_cons_self⟩
        next word words _ => exact ⟨c :: word, List.mem_cons_self, List.mem_cons_self⟩
      · obtain ⟨piece, hpiece, hmem⟩ := ih hrest
        split
        next => exact ⟨piece, List.mem_cons_of_mem _ hpiece, hmem⟩
        next =>
          split
          next hnil =>
            rw [hnil] at hpiece
            contradiction
          next word words hwords =>
            rw [hwords] at hpiece
            rcases List.mem_cons.mp hpiece with rfl | hpiece
            · exact ⟨first :: piece, List.mem_cons_self, List.mem_cons_of_mem _ hmem⟩
            · exact ⟨piece, List.mem_cons_of_mem _ hpiece, hmem⟩

/-- A visible byte that is no delimiter is part of a word. -/
theorem wordSplitBy_ne_nil {d : UInt8 → Bool} {c : UInt8} {text : Name} (hc : c ∈ text)
    (hd : d c = false) (hspace : isSpaceByte c = false) : wordSplitBy d text ≠ [] := by
  obtain ⟨piece, hpiece, hmem⟩ := exists_mem_splitBytes hd hc
  have hword : trimSpaces piece ≠ [] := fun hnil => by
    have hall := trimmed_eq_nil_iff.mp hnil c hmem
    rw [hspace] at hall
    contradiction
  refine List.ne_nil_of_mem (a := trimSpaces piece) ?_
  exact List.mem_filter.mpr ⟨List.mem_map_of_mem hpiece, by simpa using hword⟩

theorem sortLines_ne_nil {text : Name} (h : wordSplitBy (· = 0x0A) text ≠ []) :
    sortLines text ≠ [] := by
  obtain ⟨line, hline⟩ := List.exists_mem_of_ne_nil _ h
  have hsorted := (List.mem_insertionSort (· ≤ ·)).mpr hline
  intro hnil
  have hempty := List.flatMap_eq_nil_iff.mp hnil line hsorted
  simp [CmdLogs.newline] at hempty

theorem commandList_answers : (commandList s response).2 ≠ [] := by
  refine sortLines_ne_nil (wordSplitBy_ne_nil (c := 0x3C) ?_ (by decide) (by decide))
  simp only [List.mem_append]
  exact .inl (.inl (.inr (by decide)))

theorem commandChannel_answers (hreports : env.Reports) :
    (commandChannel env s arr response).2 ≠ [] := by
  have hinformation : ∀ name found,
      (commandChannel.information env s arr response name found).2 ≠ [] := by
    intro name found
    unfold commandChannel.information
    cases found with
    | none => exact errorReply_ne_nil _
    | some c => exact List.append_ne_nil_of_right_ne_nil _ (hreports.shows s arr)
  have hoperation : ∀ opt name arguments,
      (channelOperation s opt name arguments).2 ≠ [] := by
    intro opt name arguments
    unfold channelOperation deleteChannelCommand bindChannelCommand noSuchChannel
    dsimp only
    repeat' split
    all_goals first | exact errorReply_ne_nil _ | exact okReply_ne_nil
  unfold commandChannel
  split
  next => exact hinformation _ _
  next =>
    split
    next =>
      split
      next => exact okReply_ne_nil
      next =>
        split
        next => exact errorReply_ne_nil _
        next => exact hoperation _ _ _
    next => exact hinformation _ _

theorem commandSubsystem_answers : (commandSubsystem env s arr response).2 ≠ [] := by
  have hoperation : ∀ s opt name sid,
      (subsystemOperation s opt name sid response).2 ≠ [] := by
    intro s opt name sid
    unfold subsystemOperation
    dsimp only
    repeat' split
    all_goals simp [errorReply, okReply]
  have hnamed : ∀ opt name arguments,
      (namedSubsystem env s opt name arguments response).2 ≠ [] := by
    intro opt name arguments
    unfold namedSubsystem setLevelCommand removeLevelCommand
    dsimp only
    repeat' split
    all_goals first | exact hoperation _ _ _ _ | simp [errorReply, okReply]
  unfold commandSubsystem
  dsimp only
  split
  next => simp [printSubsystemLevels, ite_eq_iff]
  next =>
    repeat' split
    all_goals simp [errorReply, okReply]
  next => exact hnamed _ _ _

theorem commandBackend_answers : (commandBackend env s arr).2 ≠ [] := by
  unfold commandBackend addBackendCommand deleteBackendCommand
  dsimp only
  repeat' split
  all_goals first | exact errorReply_ne_nil _ | exact okReply_ne_nil

theorem commandFlags_answers : (commandFlags s arr).2 ≠ [] := by
  unfold commandFlags formatFlags
  dsimp only
  repeat' split
  all_goals simp [errorReply, okReply]

theorem commandLevel_answers : (commandLevel s arr).2 ≠ [] := by
  unfold commandLevel levelReply
  dsimp only
  repeat' split
  all_goals simp [errorReply, okReply]

theorem commandTrace_answers : (commandTrace s arr).2 ≠ [] := by
  have hdump : ∀ pattern, dumpTracePoints s pattern ≠ [] := by
    intro pattern
    unfold dumpTracePoints
    dsimp only
    split
    next => simp
    next hpoints =>
      obtain ⟨point, hpoint⟩ := List.exists_mem_of_ne_nil _ hpoints
      intro hnil
      have hempty := List.flatMap_eq_nil_iff.mp hnil point hpoint
      simp at hempty
  unfold commandTrace
  dsimp only
  repeat' split
  all_goals first | exact hdump _ | exact errorReply_ne_nil _ | simp

theorem commandLogStatistics_answers (hreports : env.Reports) :
    (commandLogStatistics env s arr).2 ≠ [] := by
  unfold commandLogStatistics
  dsimp only
  repeat' split
  all_goals first | exact hreports.shows s arr | simp

end Handlers

/-! ## The tail of a file -/

namespace CmdLogs

/-- Nothing follows in the last bytes of a content: it is empty, or no line ends
in them before their last byte. -/
def NothingFollows (content : List UInt8) (bytes : Nat) : Prop :=
  content = [] ∨
    bytes < content.length ∧ 0x0A ∉ (content.drop (content.length - bytes)).dropLast

/-- The arguments ask for the tail of a log file in which nothing follows. -/
def EmptyTail (t : Disk) (home : HomeDirectory) (configured : List Name)
    (arr : List Name) : Prop :=
  arr[1]? = some (ascii "--tail") ∧ 3 ≤ arr.length ∧ ∃ file real content,
    validateLogFile t home configured (tailArguments arr).1 = .ok file ∧
      openInput t file = some (real, content) ∧
        NothingFollows content (capped (tailArguments arr).2 defaultTailBytes)

theorem afterLine_eq_nil_iff (rest : List UInt8) :
    afterLine rest = [] ↔ 0x0A ∉ rest.dropLast := by
  unfold afterLine
  induction rest with
  | nil => simp
  | cons c rest ih =>
      cases rest with
      | nil => by_cases hc : c = 0x0A <;> simp [hc]
      | cons second more =>
          rw [List.dropLast_cons_cons, List.mem_cons, not_or]
          by_cases hc : c = 0x0A
          · simp [hc]
          · rw [List.dropWhile_cons_of_pos (by simpa using hc), ih]
            exact ⟨fun h => ⟨Ne.symm hc, h⟩, And.right⟩

variable {t : Disk} {home : HomeDirectory} {configured arr : List Name}

theorem refuse_ne_nil (error : Name) : (refuse error).response ≠ [] := by simp [refuse]

theorem commandTail_eq_nil_iff (htail : arr[1]? = some (ascii "--tail")) :
    (commandTail t home configured arr).response = [] ↔ EmptyTail t home configured arr := by
  unfold commandTail EmptyTail
  by_cases hlength : arr.length < 3
  · rw [if_pos hlength]
    exact iff_of_false (refuse_ne_nil _) fun h => by omega
  rw [if_neg hlength]
  dsimp only
  cases hfile : validateLogFile t home configured (tailArguments arr).1 with
  | error error => exact iff_of_false (refuse_ne_nil _) (by simp)
  | ok file =>
      dsimp only
      cases hopen : openInput t file with
      | none => exact iff_of_false (refuse_ne_nil _) (by simp [hopen])
      | some found =>
          obtain ⟨real, content⟩ := found
          rw [(openInput_some hopen).2.2]
          dsimp only
          generalize capped (tailArguments arr).2 defaultTailBytes = bytes
          have hshown : (if content.length - bytes ≠ 0 then
              afterLine (content.drop (content.length - bytes))
            else content.drop (content.length - bytes)) = [] ↔
              NothingFollows content bytes := by
            unfold NothingFollows
            split
            next hlong =>
              have hcontent : content ≠ [] := by
                rintro rfl
                simp at hlong
              rw [afterLine_eq_nil_iff, or_iff_right hcontent, and_iff_right (by omega)]
            next hshort =>
              rw [not_not.mp hshort, List.drop_zero, or_iff_left fun h => by omega]
          rw [hshown]
          constructor
          · exact fun h => ⟨htail, by omega, file, real, content, rfl, hopen, h⟩
          · rintro ⟨-, -, file', real', content', hfile', hopen', h⟩
            cases hfile'
            rw [hopen] at hopen'
            cases hopen'
            exact h

theorem commandInfo_ne_nil : (commandInfo home configured).response ≠ [] := by
  simp [commandInfo]

theorem commandTree_ne_nil : (commandTree t home configured arr).response ≠ [] := by
  unfold commandTree
  dsimp only
  repeat' split
  all_goals first | exact refuse_ne_nil _ | simp

theorem commandRead_ne_nil : (commandRead t home configured arr).response ≠ [] := by
  unfold commandRead
  dsimp only
  repeat' split
  all_goals first | exact refuse_ne_nil _ | simp

theorem commandDownload_ne_nil : (commandDownload t home configured arr).response ≠ [] := by
  unfold commandDownload
  repeat' split
  all_goals first | exact refuse_ne_nil _ | simp

theorem commandLogs_eq_nil_iff :
    (commandLogs t home configured arr).response = [] ↔ EmptyTail t home configured arr := by
  by_cases htail : arr[1]? = some (ascii "--tail")
  · rw [← commandTail_eq_nil_iff htail]
    unfold commandLogs
    rw [htail]
    rfl
  · refine iff_of_false ?_ fun h => htail h.1
    unfold commandLogs
    split
    next => exact commandInfo_ne_nil
    next command hcommand =>
      have hother : command ≠ ascii "--tail" := fun h => htail (by rw [hcommand, h])
      rw [if_neg hother]
      repeat' split
      · exact commandInfo_ne_nil
      · exact commandTree_ne_nil
      · exact commandRead_ne_nil
      · exact commandDownload_ne_nil
      · exact refuse_ne_nil _

end CmdLogs

/-! ## Whole commands -/

section Commands

variable {env : ControlEnvironment} {extension : Option ControlExtension}
  {policy : ControlPolicy} {s : ControlState}

/-- Every handler but that of `logs` answers. -/
theorem builtin_answers (hreports : env.Reports) {c response : Name} {items : List Name}
    (hlogs : c ≠ ascii "logs") {handled : ControlState × Name}
    (h : builtin env s c items response = some handled) : handled.2 ≠ [] := by
  unfold builtin at h
  rw [if_neg hlogs] at h
  rcases ite_eq_iff.mp h with ⟨-, h⟩ | ⟨-, h⟩
  · cases h
    exact hreports.help response
  rcases ite_eq_iff.mp h with ⟨-, h⟩ | ⟨-, h⟩
  · cases h
    exact commandVersion_answers
  rcases ite_eq_iff.mp h with ⟨-, h⟩ | ⟨-, h⟩
  · cases h
    exact commandList_answers
  rcases ite_eq_iff.mp h with ⟨-, h⟩ | ⟨-, h⟩
  · cases h
    exact commandChannel_answers hreports
  rcases ite_eq_iff.mp h with ⟨-, h⟩ | ⟨-, h⟩
  · cases h
    exact commandSubsystem_answers
  rcases ite_eq_iff.mp h with ⟨-, h⟩ | ⟨-, h⟩
  · cases h
    exact commandBackend_answers
  rcases ite_eq_iff.mp h with ⟨-, h⟩ | ⟨-, h⟩
  · cases h
    exact commandFlags_answers
  rcases ite_eq_iff.mp h with ⟨-, h⟩ | ⟨-, h⟩
  · cases h
    exact commandLevel_answers
  rcases ite_eq_iff.mp h with ⟨-, h⟩ | ⟨-, h⟩
  · cases h
    exact commandTrace_answers
  rcases ite_eq_iff.mp h with ⟨-, h⟩ | ⟨-, h⟩
  · cases h
    exact commandLogStatistics_answers hreports
  rcases ite_eq_iff.mp h with ⟨-, h⟩ | ⟨-, h⟩
  · cases h
    exact List.append_ne_nil_of_right_ne_nil _ (hreports.shows s items)
  contradiction

theorem runBuiltin_eq_nil_iff (hreports : env.Reports) (items : List Name)
    (calls : List ControlCall) (response : Name) :
    (runBuiltin env s items calls response).response = [] ↔
      items.head? = some (ascii "logs") ∧ response = [] ∧
        CmdLogs.EmptyTail env.disk env.home env.extensions items := by
  have hunsupported : unsupportedReply items ≠ [] := by simp [unsupportedReply]
  unfold runBuiltin
  cases items with
  | nil => exact iff_of_false hunsupported nofun
  | cons c rest =>
      dsimp only
      by_cases hlogs : c = ascii "logs"
      · subst hlogs
        have hbuiltin : builtin env s (ascii "logs") (ascii "logs" :: rest) response =
            some (logsCommand env s (ascii "logs" :: rest) response) := rfl
        rw [hbuiltin]
        dsimp only [logsCommand]
        rw [List.append_eq_nil_iff, CmdLogs.commandLogs_eq_nil_iff]
        exact (and_iff_right rfl).symm
      · refine iff_of_false ?_ fun h => hlogs (Option.some.inj h.1)
        cases hhandled : builtin env s c (c :: rest) response with
        | none => exact hunsupported
        | some handled => exact builtin_answers hreports hlogs hhandled

/-- What the extension answers to a command, if it is asked. -/
def extensionAnswer (extension : Option ControlExtension) (policy : ControlPolicy)
    (s : ControlState) (command : Name) : Bool × Name :=
  match extension with
  | none => (false, [])
  | some extension =>
      if policy.allowExtensions then (extension command s).1 else (false, [])

/-- Nothing answers the command: the policy admits it, the extension writes no
answer, and it has either handled the command or is followed by an empty tail. -/
structure Unanswered (env : ControlEnvironment) (extension : Option ControlExtension)
    (policy : ControlPolicy) (s : ControlState) (command : Name) : Prop where
  admitted : checkControlPolicy (controlItems command) policy = .ok ()
  silent : (extensionAnswer extension policy s command).2 = []
  handled : ((extensionAnswer extension policy s command).1 = true ∧
      (controlItems command).head? ≠ some (ascii "help")) ∨
    ((controlItems command).head? = some (ascii "logs") ∧
      CmdLogs.EmptyTail env.disk env.home env.extensions (controlItems command))

theorem controlInternal_eq_nil_iff (hreports : env.Reports) (command : Name) :
    (controlInternal env extension policy s command).response = [] ↔
      Unanswered env extension policy s command := by
  have hunanswered : ∀ {answer : Bool × Name} (s' : ControlState) (calls : List ControlCall),
      extensionAnswer extension policy s command = answer →
      checkControlPolicy (controlItems command) policy = .ok () →
      ¬ (answer.1 = true ∧ (controlItems command).head? ≠ some (ascii "help")) →
      ((runBuiltin env s' (controlItems command) calls answer.2).response = [] ↔
        Unanswered env extension policy s command) := by
    rintro answer s' calls rfl hadmitted hnot
    rw [runBuiltin_eq_nil_iff hreports]
    constructor
    · exact fun ⟨hlogs, hempty, htail⟩ => ⟨hadmitted, hempty, .inr ⟨hlogs, htail⟩⟩
    · rintro ⟨-, hempty, hhandled⟩
      obtain ⟨hlogs, htail⟩ := hhandled.resolve_left hnot
      exact ⟨hlogs, hempty, htail⟩
  unfold controlInternal
  dsimp only
  cases hadmitted : checkControlPolicy (controlItems command) policy with
  | error reason =>
      refine iff_of_false (by simp [rejectedReply]) fun h => ?_
      have h := h.admitted
      rw [hadmitted] at h
      contradiction
  | ok _ =>
      dsimp only
      cases extension with
      | none =>
          have hanswer : extensionAnswer none policy s command = (false, []) := rfl
          have hbuiltin := hunanswered s [] hanswer hadmitted nofun
          exact hbuiltin
      | some extension =>
          dsimp only
          by_cases hallowed : policy.allowExtensions = true
          · have hanswer : extensionAnswer (some extension) policy s command =
                (extension command s).1 := by rw [extensionAnswer, if_pos hallowed]
            rw [if_pos hallowed]
            split
            next hhandled =>
              constructor
              · intro hempty
                refine ⟨hadmitted, by rw [hanswer]; exact hempty, .inl ?_⟩
                rw [hanswer]
                exact hhandled
              · intro h
                rw [← hanswer]
                exact h.silent
            next hhandled => exact hunanswered _ _ hanswer hadmitted hhandled
          · have hanswer : extensionAnswer (some extension) policy s command = (false, []) := by
              rw [extensionAnswer, if_neg hallowed]
            rw [if_neg hallowed]
            have hbuiltin := hunanswered s [] hanswer hadmitted nofun
            exact hbuiltin

/-- The command that is executed for its plain text. -/
def plainCommand (policy : ControlPolicy) (command : Name) : Option Name :=
  match wordSplit (toLowerAscii command) with
  | first :: format :: _ =>
      if first = ascii "format" then
        if policy.allowFormatCommand = true ∧ (format = ascii "text" ∨
            format = ascii "plain" ∨ format = ascii "plain/text") then
          some (splitRemainderAfterWords command 2)
        else none
      else some command
  | _ => some command

theorem jsonReply_ne_nil (remainder text : Name) : jsonReply remainder text ≠ [] := by
  simp [jsonReply]

theorem control_eq_nil_iff (hreports : env.Reports) (command : Name) :
    (control env extension policy s command).response = [] ↔
      ∃ plain, plainCommand policy command = some plain ∧
        Unanswered env extension policy s plain := by
  have hplain : ∀ plain, (controlInternal env extension policy s plain).response = [] ↔
      ∃ p, some plain = some p ∧ Unanswered env extension policy s p := by
    intro plain
    rw [controlInternal_eq_nil_iff hreports]
    simp
  unfold control plainCommand
  rcases wordSplit (toLowerAscii command) with _ | ⟨first, _ | ⟨format, more⟩⟩
  · exact hplain command
  · exact hplain command
  · dsimp only
    by_cases hfirst : first = ascii "format"
    · rw [if_pos hfirst, if_pos hfirst]
      by_cases hallowed : policy.allowFormatCommand = true
      · rw [if_neg (by simp [hallowed])]
        by_cases hjson : format = ascii "json"
        · subst hjson
          rw [if_pos rfl, if_neg fun h => absurd h.2 (by decide)]
          exact iff_of_false (jsonReply_ne_nil _ _) nofun
        · rw [if_neg hjson]
          by_cases htext : format = ascii "text" ∨ format = ascii "plain" ∨
              format = ascii "plain/text"
          · rw [if_pos htext, if_pos ⟨hallowed, htext⟩]
            exact hplain _
          · rw [if_neg htext, if_neg fun h => htext h.2]
            exact iff_of_false (by simp) nofun
      · rw [if_pos (by simpa using hallowed), if_neg fun h => hallowed h.1]
        exact iff_of_false (by simp [rejectedReply]) nofun
    · rw [if_neg hfirst, if_neg hfirst]
      exact hplain command

end Commands

end Logme
