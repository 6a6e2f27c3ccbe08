import Logme.ReplyBranches

/-!
# The texts of the branches

The text of each handler begins as its branch has it: a success does not begin with
`error:`, an error does.  So the response of a command is one of its branch.
-/

namespace Logme

open SlotTable (Counters)

/-! ## Handlers -/

section Handlers

variable {env : ControlEnvironment} {s : ControlState} {arr : List Name} {left : Name}

theorem isOk_deleteChannel (name : Name) :
    isOk (deleteChannelCommand s name).2 = deleteChannelSucceeds s name := by
  unfold deleteChannelCommand deleteChannelSucceeds
  refine isOk_ite (fun _ => isOk_errorReply _) fun _ => ?_
  refine isOk_ite (fun _ => isOk_errorReply _) fun _ => ?_
  cases getChannelByControlName s.logger name with
  | none => exact isOk_errorReply _
  | some c =>
      dsimp only
      cases (s.logger.heap[c]?).any fun channel => channel.name = [] with
      | true => exact isOk_errorReply _
      | false => exact isOk_okReply

theorem isOk_bindChannel (name : Name) (arguments : List Name) :
    isOk (bindChannelCommand s name arguments).2 = bindChannelSucceeds s name arguments := by
  unfold bindChannelCommand bindChannelSucceeds
  cases arguments with
  | nil => exact isOk_errorReply _
  | cons targetName arguments =>
      dsimp only
      cases getChannelByControlName s.logger name with
      | none => exact isOk_errorReply _
      | some source =>
          dsimp only
          cases getChannelByControlName s.logger targetName with
          | none => exact isOk_errorReply _
          | some target => exact isOk_okReply

theorem isOk_channelOperation (opt name : Name) (arguments : List Name) :
    isOk (channelOperation s opt name arguments).2 =
      channelOperationSucceeds s opt name arguments := by
  unfold channelOperation channelOperationSucceeds
  cases getChannelByControlName s.logger name with
  | none =>
      refine isOk_ite (fun _ => isOk_errorReply _) fun _ => ?_
      refine isOk_ite (fun _ => isOk_okReply) fun _ => ?_
      refine isOk_ite (fun _ => isOk_deleteChannel name) fun _ => ?_
      refine isOk_ite (fun _ => isOk_bindChannel name arguments) fun _ => ?_
      refine isOk_ite (fun _ => isOk_errorReply _) fun _ => ?_
      exact isOk_ite (fun _ => isOk_errorReply _) fun _ => isOk_errorReply _
  | some c =>
      refine isOk_ite (fun _ => isOk_okReply) fun _ => ?_
      refine isOk_ite (fun _ => isOk_errorReply _) fun _ => ?_
      refine isOk_ite (fun _ => isOk_deleteChannel name) fun _ => ?_
      refine isOk_ite (fun _ => isOk_bindChannel name arguments) fun _ => ?_
      refine isOk_ite (fun _ => isOk_okReply) fun _ => ?_
      exact isOk_ite (fun _ => isOk_okReply) fun _ => isOk_errorReply _

/-- An answer that depends on a test. -/
theorem gives_tested (b : Bool) (s s' : ControlState) (error : Name) :
    (ReplyBranch.ofSuccess b).Gives left
      (if b then (s, okReply) else (s', errorReply error)).2 := by
  cases b with
  | true => exact .ofOk
  | false => exact .ofError error

theorem gives_refuted (b : Bool) (s s' : ControlState) (error : Name) :
    (ReplyBranch.ofSuccess !b).Gives left
      (if b then (s', errorReply error) else (s, okReply)).2 := by
  cases b with
  | true => exact .ofError error
  | false => exact .ofOk

theorem subsystemOperation_gives (opt name : Name) (sid : Nat) :
    (subsystemOperationBranch s opt sid).Gives left
      (subsystemOperation s opt name sid left).2 := by
  unfold subsystemOperation subsystemOperationBranch
  dsimp only
  refine .ite (fun _ => gives_refuted _ _ _ _) fun _ => ?_
  refine .ite (fun _ => gives_tested _ _ _ _) fun _ => ?_
  refine .ite (fun _ => gives_refuted _ _ _ _) fun _ => ?_
  refine .ite (fun _ => gives_tested _ _ _ _) fun _ => ?_
  refine .ite (fun _ => ?_) fun _ => .refuses _
  simp only [List.append_assoc]
  exact .reports (.append (by decide) _)

theorem namedSubsystem_gives (opt name : Name) (arguments : List Name) :
    (namedSubsystemBranch env s opt name arguments).Gives left
      (namedSubsystem env s opt name arguments left).2 := by
  unfold namedSubsystem namedSubsystemBranch
  dsimp only
  generalize (if 8 < (cString name).length then s.report env.setting (truncatedName name)
    else s) = s
  refine .ite (fun _ => .ite (fun _ => .ofError _) fun _ => .refuses _) fun _ => ?_
  rcases arguments with _ | ⟨levelText, _ | ⟨more, arguments⟩⟩
  · refine .ite (fun _ => ?_) fun _ => subsystemOperation_gives opt name _
    unfold removeLevelCommand
    cases s.removeLevel (buildSid name) with
    | none => exact .ofError _
    | some s => exact .ofOk
  · refine .ite (fun _ => ?_) fun _ => subsystemOperation_gives opt name _
    unfold setLevelCommand
    cases parseLevelName levelText with
    | none => exact .ofError _
    | some level => exact .ofOk
  · exact subsystemOperation_gives opt name _

theorem apart_printSubsystemList {title : String} (htitle : ApartFromError (ascii title))
    (list : List Nat) : ApartFromError (printSubsystemList (ascii title) list) := by
  unfold printSubsystemList
  split
  all_goals
    simp only [List.append_assoc]
    exact htitle.append _

theorem commandSubsystem_gives :
    (subsystemBranch env s arr).Gives left (commandSubsystem env s arr left).2 := by
  unfold commandSubsystem subsystemBranch
  dsimp only
  rcases arr.drop 1 with _ | ⟨opt, _ | ⟨name, arguments⟩⟩
  · simp only [List.append_assoc]
    exact .reports ((apart_printSubsystemList (by decide) _).append _)
  · refine .ite (fun _ => .ofOk) fun _ => ?_
    refine .ite (fun _ => .ofOk) fun _ => ?_
    refine .ite (fun _ => .ofOk) fun _ => ?_
    exact .ite (fun _ => .ofOk) fun _ => .refuses _
  · exact namedSubsystem_gives opt name arguments

theorem isOk_addBackend (c : Nat) (type : BackendType) (typeInput : Name)
    (options : List Name) : isOk (addBackendCommand env s c type typeInput options).2 =
      addBackendSucceeds env s c type options := by
  unfold addBackendCommand addBackendSucceeds
  refine isOk_ite (fun _ => isOk_errorReply _) fun _ => ?_
  refine isOk_ite (fun _ => isOk_errorReply _) fun _ => ?_
  cases parseBackendOptions (createConfig env type) options with
  | error error => exact isOk_errorReply error
  | ok config =>
      dsimp only
      cases (s.applyConfig env config).1 with
      | true => exact isOk_okReply
      | false => exact isOk_errorReply _

theorem isOk_commandBackend :
    isOk (commandBackend env s arr).2 = backendSucceeds env s arr := by
  unfold commandBackend backendSucceeds
  cases getChannelFromArgs s arr 1 with
  | error error => exact isOk_errorReply error
  | ok found =>
      obtain ⟨c, index⟩ := found
      dsimp only
      rcases arr.drop index with _ | ⟨op, _ | ⟨typeInput, options⟩⟩
      · exact isOk_errorReply _
      · exact isOk_errorReply _
      refine isOk_ite (fun _ => isOk_errorReply _) fun _ => ?_
      refine isOk_ite (fun _ => isOk_errorReply _) fun _ => ?_
      cases normalizeBackendType typeInput with
      | none => exact isOk_errorReply _
      | some type =>
          refine isOk_ite (fun _ => isOk_addBackend c type typeInput options) fun _ => ?_
          unfold deleteBackendCommand
          cases s.findFirstBackend c type with
          | none => exact isOk_errorReply _
          | some backend => exact isOk_okReply

theorem isOk_formatFlags (f : OutputFlags) (rest : Name) :
    isOk (formatFlags f ++ rest) = true := by
  unfold formatFlags
  simp only [List.append_assoc]
  exact ApartFromError.isOk (.append (by decide) _)

theorem isOk_commandFlags : isOk (commandFlags s arr).2 = flagsSucceeds s arr := by
  unfold commandFlags flagsSucceeds
  cases getChannelFromArgs s arr 1 with
  | error error => exact isOk_errorReply error
  | ok found =>
      obtain ⟨c, index⟩ := found
      dsimp only
      cases arr.drop index with
      | nil =>
          rw [← List.append_nil (formatFlags _)]
          exact isOk_formatFlags _ []
      | cons word words =>
          dsimp only
          cases readFlags (((s.logger.heap[c]?).map Channel.flags).getD .zero)
              (word :: words) with
          | error error => exact isOk_errorReply error
          | ok f =>
              dsimp only
              rw [List.append_assoc]
              exact isOk_formatFlags f _

theorem isOk_levelReply (s : ControlState) (c : Nat) (rest : Name) :
    isOk (levelReply s c ++ rest) = true :=
  have happart : ApartFromError (ascii "Level: ") := by decide
  ((happart.append _).append rest).isOk

theorem isOk_commandLevel : isOk (commandLevel s arr).2 = levelSucceeds s arr := by
  unfold commandLevel levelSucceeds
  cases getChannelFromArgs s arr 1 with
  | error error => exact isOk_errorReply error
  | ok found =>
      obtain ⟨c, index⟩ := found
      dsimp only
      cases arr.drop index with
      | nil =>
          rw [← List.append_nil (levelReply s c)]
          exact isOk_levelReply s c []
      | cons word words =>
          dsimp only
          cases findNamed levelValues word with
          | none => exact isOk_errorReply _
          | some level =>
              dsimp only
              rw [List.append_assoc]
              exact isOk_levelReply _ c _

theorem isOk_dumpTracePoints (pattern : Name) : isOk (dumpTracePoints s pattern) = true := by
  unfold dumpTracePoints
  dsimp only
  split
  next => decide
  next hpoints =>
    obtain ⟨point, points, hcons⟩ := List.exists_cons_of_ne_nil hpoints
    rw [hcons, List.flatMap_cons]
    simp only [List.append_assoc]
    refine isOk_of_head (c := 0x6F) ?_ (by decide)
    cases point.enabled <;> rfl

theorem isOk_commandTrace : isOk (commandTrace s arr).2 = traceSucceeds arr := by
  have hok : ∀ rest : Name, isOk (ascii "ok: " ++ rest) = true :=
    fun rest => isOk_of_head (c := 0x6F) rfl (by decide)
  unfold commandTrace traceSucceeds
  cases arr[1]? with
  | none => exact isOk_dumpTracePoints _
  | some operation =>
      refine isOk_ite (fun _ => isOk_dumpTracePoints _) fun _ => ?_
      refine isOk_ite (fun _ => ?_) fun _ => ?_
      · by_cases hshort : arr.length < 3
        · rw [if_pos hshort, decide_eq_true hshort]
          exact isOk_errorReply _
        · rw [if_neg hshort, decide_eq_false hshort]
          dsimp only
          rw [List.append_assoc]
          exact hok _
      refine isOk_ite (fun _ => ?_) fun _ => isOk_errorReply _
      dsimp only
      rw [List.append_assoc]
      exact hok _

/-! ### Reports -/

theorem apart_snprintf {size : Nat} {text : Name} (hsize : 1 < size)
    (h : ApartFromError text) : ApartFromError (snprintf size text) :=
  h.take (by omega)

theorem isOk_dump {session : StatisticsSession} {unused : Name}
    {format : LogStatisticsCollector → Name} (hunused : ApartFromError unused)
    (h : ∀ c, ApartFromError (format c)) : isOk (session.dump unused format) = true := by
  unfold StatisticsSession.dump
  cases session.collector with
  | none => exact hunused.isOk
  | some c => exact (h c).isOk

theorem isOk_replyOf {ε : Type} {options : Except Name ε} {dump : ε → Name}
    (h : ∀ o, isOk (dump o) = true) :
    isOk (CmdLogStatistics.replyOf options dump) = options.isOk := by
  cases options with
  | error error => exact isOk_errorReply error
  | ok o => exact h o

theorem apart_entryHeader (active : Bool) (numbers : FloatTexts) (sort : LogStatisticsSort)
    (total : Counters) : ApartFromError (entryHeader active numbers sort total) := by
  unfold entryHeader
  simp only [List.append_assoc]
  exact apart_snprintf (by decide) (.append (by decide) _)

theorem apart_outputHeader (active : Bool) (numbers : FloatTexts) (sort : LogStatisticsSort)
    (total : Counters) (backendType : Name) :
    ApartFromError (outputHeader active numbers sort total backendType) := by
  unfold outputHeader
  simp only [List.append_assoc]
  exact apart_snprintf (by decide) (.append (by decide) _)

theorem apart_stopped {title : String} (h : ApartFromError (ascii title)) (rest : Name) :
    ApartFromError (stoppedHeader title ++ rest) := by
  unfold stoppedHeader
  simp only [List.append_assoc]
  exact h.append _

section Dumps

variable {session : StatisticsSession} {numbers : FloatTexts}
  {fileBackends : List FileBackendSnapshot}

theorem isOk_dumpStatus :
    isOk (session.dumpLogStatisticsStatus numbers fileBackends) = true := by
  have hline : ∀ value rest : Name,
      ApartFromError (statusLine "Log statistics" value ++ rest) := by
    intro value rest
    unfold statusLine
    simp only [List.append_assoc]
    exact .append (by decide) _
  refine isOk_dump ?_ fun c => ?_
  · unfold notStarted notStarted.stoppedStatus
    simp only [List.append_assoc]
    exact hline _ _
  · unfold LogStatisticsCollector.formatStatus
    simp only [List.append_assoc]
    exact apart_snprintf (by decide) (hline _ _)

theorem isOk_dumpEntries (o : CmdLogStatistics.ReportOptions) :
    isOk (session.dumpLogStatisticsTop numbers o) = true ∧
      isOk (session.dumpLogStatisticsChannels numbers o) = true := by
  constructor
  · refine isOk_dump (apart_stopped (by decide) _) fun c => ?_
    unfold LogStatisticsCollector.formatTop
    exact (apart_entryHeader _ _ _ _).append _
  · refine isOk_dump (apart_stopped (by decide) _) fun c => ?_
    unfold LogStatisticsCollector.formatChannels
    exact (apart_entryHeader _ _ _ _).append _

theorem isOk_dumpOutputs (o : CmdLogStatistics.ReportOptions) :
    isOk (session.dumpLogStatisticsOutputs numbers o) = true ∧
      isOk (session.dumpLogStatisticsBackends numbers o) = true := by
  constructor
  · refine isOk_dump (apart_stopped (by decide) _) fun c => ?_
    unfold LogStatisticsCollector.formatOutputs
    exact (apart_outputHeader _ _ _ _ _).append _
  · refine isOk_dump (apart_stopped (by decide) _) fun c => ?_
    unfold LogStatisticsCollector.formatBackends
    exact (apart_outputHeader _ _ _ _ _).append _

theorem isOk_dumpFiles (o : CmdLogStatistics.FileReportOptions) :
    isOk (session.dumpLogStatisticsFileBackends numbers fileBackends o) = true := by
  refine isOk_dump (apart_stopped (by decide) _) fun c => ?_
  unfold formatFileBackends
  dsimp only
  simp only [List.append_assoc]
  exact (apart_snprintf (by decide) (.append (by decide) _)).append _

end Dumps

theorem isOk_commandLogStatistics (figures : RuntimeFigures)
    (hhead : arr.head? = some (ascii "logstat")) :
    isOk (commandLogStatistics (env.reporting figures) s arr).2 = logStatisticsSucceeds arr := by
  have hshows : (env.reporting figures).shows s arr =
      CmdLogStatistics.report s.statistics figures.numbers figures.fileBackends arr := by
    change reportText env.home figures s arr = _
    rw [reportText, hhead, if_neg (by decide), if_neg (by decide)]
  unfold commandLogStatistics logStatisticsSucceeds
  refine isOk_ite (fun _ => isOk_of_head (c := 0x6F) rfl (by decide)) fun _ => ?_
  refine isOk_ite (fun _ => isOk_of_head (c := 0x6F) rfl (by decide)) fun _ => ?_
  refine isOk_ite (fun _ => isOk_of_head (c := 0x6F) rfl (by decide)) fun _ => ?_
  dsimp only
  rw [hshows]
  unfold CmdLogStatistics.report
  refine isOk_iteText (fun _ => isOk_dumpStatus) fun _ => ?_
  refine isOk_iteText (fun _ => isOk_replyOf fun o => (isOk_dumpEntries o).1) fun _ => ?_
  refine isOk_iteText (fun _ => isOk_replyOf fun o => (isOk_dumpEntries o).2) fun _ => ?_
  refine isOk_iteText (fun _ => isOk_replyOf fun o => (isOk_dumpOutputs o).1) fun _ => ?_
  refine isOk_iteText (fun _ => isOk_replyOf fun o => (isOk_dumpOutputs o).2) fun _ => ?_
  refine isOk_iteText (fun _ => isOk_replyOf isOk_dumpFiles) fun _ => ?_
  exact isOk_iteText (fun _ => isOk_of_head (c := 0x6C) rfl (by decide)) fun _ =>
    isOk_errorReply _


/-! ### Channels, logs and lines -/

theorem channelInformation_eq (figures : RuntimeFigures)
    (hhead : arr.head? = some (ascii "channel")) :
    (env.reporting figures).shows s arr = channelInformation figures s arr := by
  change reportText env.home figures s arr = _
  rw [reportText, hhead, if_neg (by decide), if_pos rfl]

theorem commandChannel_gives (figures : RuntimeFigures)
    (hhead : arr.head? = some (ascii "channel")) :
    (channelBranch s arr).Gives left
      (commandChannel (env.reporting figures) s arr left).2 := by
  have hinformation : ∀ name, getChannelByControlName s.logger ((arr[1]?).getD defaultName) =
        getChannelByControlName s.logger name →
      (channelInformationBranch s (getChannelByControlName s.logger name)).Gives left
        (commandChannel.information (env.reporting figures) s arr left name
          (getChannelByControlName s.logger name)).2 := by
    intro name hname
    unfold channelInformationBranch commandChannel.information
    rw [channelInformation_eq figures hhead]
    unfold channelInformation
    dsimp only
    rw [hname]
    cases getChannelByControlName s.logger name with
    | none => exact .ofError _
    | some c =>
        cases hchannel : s.logger.heap[c]? with
        | none =>
            simp only [Option.bind_some, hchannel, Option.map_none, Option.isSome_none]
            exact .refuses _
        | some channel =>
            simp only [Option.bind_some, hchannel, Option.map_some, Option.isSome_some, if_true]
            refine .reports ?_
            unfold channelText statusLine
            simp only [List.append_assoc]
            exact .append (by decide) _
  unfold commandChannel channelBranch
  have hsecond : arr[1]? = (arr.drop 1).head? := List.head?_drop.symm
  cases harr : arr.drop 1 with
  | nil =>
      rw [harr] at hsecond
      have hdefault : getChannelByControlName s.logger defaultName =
          s.logger.getExistingChannel [] := if_pos rfl
      have hgives := hinformation defaultName (by rw [hsecond]; rfl)
      rw [hdefault] at hgives
      exact hgives
  | cons opt rest =>
      rw [harr] at hsecond
      dsimp only
      refine .ite (fun _ => .ite (fun _ => .ofOk) fun _ => ?_) fun _ => ?_
      · cases rest with
        | nil => exact .ofError _
        | cons name arguments => exact .ofSuccess (isOk_channelOperation opt name arguments)
      · exact hinformation opt (by rw [hsecond]; rfl)

end Handlers

namespace CmdLogs

variable {t : Disk} {home : HomeDirectory} {configured arr : List Name}

theorem commandInfo_apart : ApartFromError (commandInfo home configured).response := by
  unfold commandInfo
  simp only [List.append_assoc]
  exact .append (by decide) _

theorem commandTree_cases :
    ((commandTree t home configured arr).returned = true ∧
        ApartFromError (commandTree t home configured arr).response) ∨
      ∃ error, commandTree t home configured arr = refuse error := by
  unfold commandTree
  dsimp only
  cases resolvePath t home (joinWords (arr.drop 2)) with
  | error error => exact .inr ⟨error, rfl⟩
  | ok root =>
      dsimp only
      split
      next => exact .inr ⟨_, rfl⟩
      split
      next => exact .inr ⟨_, rfl⟩
      next =>
        refine .inl ⟨rfl, ?_⟩
        simp only [List.append_assoc]
        exact .append (by decide) _

theorem commandDownload_cases :
    ((commandDownload t home configured arr).returned = true ∧
        ApartFromError (commandDownload t home configured arr).response) ∨
      ∃ error, commandDownload t home configured arr = refuse error := by
  unfold commandDownload
  split
  next => exact .inr ⟨_, rfl⟩
  cases validateLogFile t home configured (joinWords (arr.drop 2)) with
  | error error => exact .inr ⟨error, rfl⟩
  | ok file =>
      dsimp only
      split
      next => exact .inr ⟨_, rfl⟩
      cases openInput t file with
      | none => exact .inr ⟨_, rfl⟩
      | some found =>
          refine .inl ⟨rfl, ?_⟩
          simp only [List.append_assoc]
          exact .append (by decide) _

theorem commandTail_cases :
    (commandTail t home configured arr).returned = true ∨
      ∃ error, commandTail t home configured arr = refuse error := by
  unfold commandTail
  split
  next => exact .inr ⟨_, rfl⟩
  dsimp only
  cases validateLogFile t home configured (tailArguments arr).1 with
  | error error => exact .inr ⟨error, rfl⟩
  | ok file =>
      dsimp only
      cases openInput t file with
      | none => exact .inr ⟨_, rfl⟩
      | some found => exact .inl rfl

theorem commandRead_cases :
    (readsRange t home configured arr = false ∧
        ∃ error, commandRead t home configured arr = refuse error) ∨
      (readsRange t home configured arr = true ∧ ∃ header rest, ApartFromError header ∧
        (commandRead t home configured arr).response = header ++ rest ∧
        ((commandRead t home configured arr).returned = false →
          ∃ error, rest = errorReply error)) := by
  unfold commandRead readsRange
  by_cases hlength : arr.length < 3
  · rw [if_pos hlength, decide_eq_true hlength]
    exact .inl ⟨rfl, _, rfl⟩
  rw [if_neg hlength, decide_eq_false hlength]
  dsimp only
  cases validateLogFile t home configured (readArguments arr).1 with
  | error error => exact .inl ⟨rfl, error, rfl⟩
  | ok file =>
      refine .inr ⟨rfl, ?_⟩
      dsimp only
      have happart : ∀ rest : Name, ApartFromError (ascii "LOGMEWEB-RANGE" ++ rest) :=
        fun rest => .append (by decide) rest
      cases openInput t file with
      | none =>
          refine ⟨_, _, ?_, rfl, fun _ => ⟨ascii "unable to open file", by decide⟩⟩
          simp only [List.append_assoc]
          exact happart _
      | some found =>
          refine ⟨_, _, ?_, rfl, nofun⟩
          simp only [List.append_assoc]
          exact happart _

end CmdLogs

section Logs

variable {env : ControlEnvironment} {s : ControlState} {arr : List Name} {left : Name}

theorem logsReply_refuses {reply : CmdLogs.Reply} {error : Name}
    (h : reply = CmdLogs.refuse error)
    (hrange : arr[1]? = some (ascii "--read") →
      CmdLogs.readsRange env.disk env.home env.extensions arr = false) :
    (logsReplyBranch env arr left reply).Gives left (left ++ reply.response) := by
  subst h
  have hnot : ¬ (arr[1]? = some (ascii "--read") ∧
      CmdLogs.readsRange env.disk env.home env.extensions arr = true) := by
    rintro ⟨hread, htrue⟩
    rw [hrange hread] at htrue
    cases htrue
  rw [logsReplyBranch, if_neg hnot]
  exact .refuses error

theorem logsReply_succeeds {reply : CmdLogs.Reply} (h : reply.returned = true)
    (hshown : arr[1]? = some (ascii "--tail") ∨ ApartFromError reply.response) :
    (logsReplyBranch env arr left reply).Gives left (left ++ reply.response) := by
  rw [logsReplyBranch, if_pos h]
  split
  next => exact .shows _
  next htail => exact .reports (hshown.resolve_left htail)

theorem logs_gives : (logsBranch env arr left).Gives left (logsCommand env s arr left).2 := by
  have hreply : ∀ reply : CmdLogs.Reply, arr[1]? ≠ some (ascii "--read") →
      ((reply.returned = true ∧ ApartFromError reply.response) ∨
        ∃ error, reply = CmdLogs.refuse error) →
      (logsReplyBranch env arr left reply).Gives left (left ++ reply.response) := by
    rintro reply hread (⟨hreturned, happart⟩ | ⟨error, herror⟩)
    · exact logsReply_succeeds hreturned (.inr happart)
    · exact logsReply_refuses herror fun h => absurd h hread
  unfold logsBranch logsCommand CmdLogs.commandLogs
  cases hcommand : arr[1]? with
  | none => exact hreply _ (by simp [hcommand]) (.inl ⟨rfl, CmdLogs.commandInfo_apart⟩)
  | some command =>
      dsimp only
      split
      next h =>
        exact hreply _ (by rw [hcommand, h]; decide) (.inl ⟨rfl, CmdLogs.commandInfo_apart⟩)
      split
      next h =>
        exact hreply _ (by rw [hcommand, h]; decide) CmdLogs.commandTree_cases
      split
      next h =>
        have htail : arr[1]? = some (ascii "--tail") := by rw [hcommand, h]
        rcases CmdLogs.commandTail_cases with hreturned | ⟨error, herror⟩
        · exact logsReply_succeeds hreturned (.inl htail)
        · exact logsReply_refuses herror fun hread => by
            rw [htail] at hread
            exact absurd hread (by decide)
      split
      next h =>
        have hread : arr[1]? = some (ascii "--read") := by rw [hcommand, h]
        rcases CmdLogs.commandRead_cases with ⟨hrange, error, herror⟩ |
          ⟨hrange, header, rest, happart, hresponse, hfailed⟩
        · exact logsReply_refuses herror fun _ => hrange
        · cases hreturned : (CmdLogs.commandRead env.disk env.home env.extensions arr).returned with
          | true => exact logsReply_succeeds hreturned (.inr (hresponse ▸ happart.append rest))
          | false =>
              obtain ⟨error, rfl⟩ := hfailed hreturned
              rw [logsReplyBranch, if_neg (by simp [hreturned]), if_pos ⟨hread, hrange⟩,
                hresponse]
              exact .breaksOff happart error
      split
      next h =>
        exact hreply _ (by rw [hcommand, h]; decide) CmdLogs.commandDownload_cases
      next hread _ =>
        exact hreply _ (by rw [hcommand]; simpa using hread) (.inr ⟨_, rfl⟩)

end Logs

/-! ### Help -/

/-- The text begins with a byte before `e`. -/
def BeginsLow (text : Name) : Prop := ∃ c ∈ text.head?, c < 0x65

instance : DecidablePred BeginsLow := fun text =>
  inferInstanceAs (Decidable (∃ c ∈ text.head?, c < 0x65))

theorem BeginsLow.append {text : Name} (h : BeginsLow text) (rest : Name) :
    BeginsLow (text ++ rest) := by
  obtain ⟨c, hhead, hc⟩ := h
  exact ⟨c, by simp [Option.mem_def.mp hhead], hc⟩

theorem BeginsLow.isOk {text : Name} (h : BeginsLow text) : isOk text = true := by
  obtain ⟨c, hhead, hc⟩ := h
  refine isOk_of_head hhead ?_
  rintro rfl
  exact absurd hc (by decide)

theorem BeginsLow.of_le {line word : Name} (h : BeginsLow word) (hle : line ≤ word)
    (hne : line ≠ []) : BeginsLow line := by
  obtain ⟨c, rest, rfl⟩ := List.exists_cons_of_ne_nil hne
  obtain ⟨d, hhead, hd⟩ := h
  obtain ⟨more, rfl⟩ := List.head?_eq_some_iff.mp hhead
  refine ⟨c, rfl, ?_⟩
  by_contra hc
  exact hle (List.Lex.rel (UInt8.lt_of_lt_of_le hd (UInt8.not_lt.mp hc)))

/-- The first of the sorted lines begins low if one of the lines does. -/
theorem sortedLines_first {text word : Name} (hword : word ∈ wordSplitBy (· = 0x0A) text)
    (hlow : BeginsLow word) :
    ∃ first lines, (wordSplitBy (· = 0x0A) text).insertionSort (· ≤ ·) = first :: lines ∧
      BeginsLow first := by
  have hmem := (List.mem_insertionSort (· ≤ ·)).mpr hword
  have hsorted := List.pairwise_insertionSort (· ≤ ·) (wordSplitBy (· = 0x0A) text)
  cases hlines : (wordSplitBy (· = 0x0A) text).insertionSort (· ≤ ·) with
  | nil =>
      rw [hlines] at hmem
      contradiction
  | cons first lines =>
      rw [hlines] at hmem hsorted
      have hfirst : first ∈ wordSplitBy (· = 0x0A) text :=
        (List.mem_insertionSort (· ≤ ·)).mp (hlines ▸ List.mem_cons_self)
      refine ⟨first, lines, rfl, ?_⟩
      rcases List.mem_cons.mp hmem with rfl | hrest
      · exact hlow
      · exact hlow.of_le ((List.pairwise_cons.mp hsorted).1 _ hrest) (mem_wordSplitBy hfirst).1

theorem head?_trimmed {space : UInt8 → Bool} {s : Name}
    (h : ∀ c ∈ s.head?, space c = false) (hne : trimmed space s ≠ []) :
    (trimmed space s).head? = s.head? := by
  have hstart : s.dropWhile space = s := by
    cases s with
    | nil => rfl
    | cons c s => exact List.dropWhile_cons_of_neg (by simp [h c rfl])
  have hprefix : trimmed space s <+: s := by
    rw [← List.reverse_suffix, trimmed, List.reverse_reverse, hstart]
    exact List.dropWhile_suffix _
  obtain ⟨rest, hrest⟩ := hprefix
  conv_rhs => rw [← hrest, List.head?_append_of_ne_nil _ hne]

namespace CmdHelp

theorem beginsLow_helpColumns {line before after : Name}
    (hline : ∀ c ∈ line.head?, isSpaceByte c = false) (hlow : BeginsLow line)
    (h : helpColumns line = some (before, after)) : BeginsLow before := by
  unfold helpColumns at h
  split at h
  next => cases h
  next split _ =>
    dsimp only at h
    split at h
    next => cases h
    next hne =>
      cases h
      obtain ⟨hbefore, -⟩ := not_or.mp hne
      cases split with
      | zero => exact absurd rfl hbefore
      | succ split =>
          have hhead : (line.take (split + 1)).head? = line.head? := by
            rw [List.head?_take, if_neg (Nat.succ_ne_zero split)]
          obtain ⟨c, hc, hlt⟩ := hlow
          refine ⟨c, ?_, hlt⟩
          rw [trimSpaces, head?_trimmed (hhead ▸ hline) hbefore, hhead]
          exact hc

theorem beginsLow_alignHelpColumns {s line : Name} {lines : List Name} (hs : BeginsLow s)
    (hlines : textLines s = line :: lines) (hline : ∀ c ∈ line.head?, isSpaceByte c = false)
    (hlow : BeginsLow line) : BeginsLow (alignHelpColumns s) := by
  unfold alignHelpColumns
  dsimp only
  split
  next => exact hs
  next =>
    rw [hlines, List.flatMap_cons]
    refine BeginsLow.append ?_ _
    split
    next => exact hlow.append _
    next hcolumns =>
      simp only [List.append_assoc]
      exact (beginsLow_helpColumns hline hlow hcolumns).append _

theorem textLines_lines {lines : List Name}
    (h : ∀ line ∈ lines, 0x0A ∉ line ∧ trimSpaces line = line) :
    textLines (lines.flatMap (· ++ CmdLogs.newline)) = lines := by
  have hpieces : splitBytes (· = 0x0A) (lines.flatMap (· ++ CmdLogs.newline)) = lines ++ [[]] := by
    have hone : ∀ line ∈ lines, splitBytes (· = 0x0A) line = [line] := fun line hline =>
      splitBytes_of_notMem fun c hc => decide_eq_false fun heq =>
        (h line hline).1 (heq ▸ hc)
    rw [splitBytes_flatMap, List.flatMap_congr hone, List.flatMap_singleton']
  unfold textLines
  rw [hpieces]
  dsimp only
  rw [if_pos List.getLast?_concat, List.dropLast_concat]
  refine (List.map_congr_left fun line hline => if_neg fun hreturn => ?_).trans (List.map_id lines)
  have hlast := (trimmed_eq_self_iff.mp (h line hline).2).2 _ hreturn
  exact absurd hlast (by decide)

theorem mem_wordSplitBy_line {line : Name} (h : LineName line) (htrimmed : trimSpaces line = line)
    (before after : Name) :
    line ∈ wordSplitBy (· = 0x0A) (before ++ 0x0A :: (line ++ 0x0A :: after)) := by
  refine List.mem_filter.mpr ⟨List.mem_map.mpr ⟨line, ?_, htrimmed⟩, by simpa using h.nonempty⟩
  rw [splitBytes_terminated (by decide), splitBytes_terminated (by decide), h.pieces]
  simp

/-- Whatever stands before the help, the first line is not an error. -/
theorem isOk_commandHelp (left : Name) : isOk (commandHelp left) = true := by
  have hword : ∃ word ∈ wordSplitBy (· = 0x0A) (left ++ helpText), BeginsLow word := by
    have hlines : ∃ before after, helpText = before ++ 0x0A ::
        (ascii "backend [--channel name] --delete type        Delete backend from a channel" ++
          0x0A :: after) := by
      unfold helpText helpLines CmdLogs.newline
      rw [List.map_cons, List.map_cons, List.map_cons, List.intercalate_cons_cons,
        List.intercalate_cons_cons]
      simp only [List.append_assoc, List.singleton_append]
      exact ⟨_, _, rfl⟩
    obtain ⟨before, after, hafter⟩ := hlines
    rw [hafter, ← List.append_assoc]
    exact ⟨_, mem_wordSplitBy_line ⟨by decide, by decide, by decide⟩ (by decide) _ _, by decide⟩
  obtain ⟨word, hword, hlow⟩ := hword
  obtain ⟨first, lines, hsorted, hfirst⟩ := sortedLines_first hword hlow
  have hall : ∀ line ∈ first :: lines, 0x0A ∉ line ∧ trimSpaces line = line := by
    intro line hline
    exact (mem_wordSplitBy ((List.mem_insertionSort (· ≤ ·)).mp (hsorted ▸ hline))).2
  have hspace := (trimmed_eq_self_iff.mp (hall first List.mem_cons_self).2).1
  have htext : sortLines (left ++ helpText) =
      (first :: lines).flatMap (· ++ CmdLogs.newline) := by
    rw [sortLines, hsorted]
  rw [commandHelp, htext]
  refine (beginsLow_alignHelpColumns ?_ (textLines_lines hall) hspace hfirst).isOk
  rw [List.flatMap_cons, List.append_assoc]
  exact hfirst.append _

end CmdHelp

/-! ## Commands -/

section Commands

variable {env : ControlEnvironment} {figures : RuntimeFigures} {s : ControlState}
  {items : List Name} {left : Name}

/-- The branch of a command that is handled, and an error for one that is not. -/
def GivesHandled (left : Name) (branch : ReplyBranch) :
    Option (ControlState × Name) → Prop
  | some handled => branch.Gives left handled.2
  | none => branch = .fails

theorem GivesHandled.ite {p : Prop} [Decidable p] {b b' : ReplyBranch}
    {handled : ControlState × Name} {rest : Option (ControlState × Name)}
    (h : p → b.Gives left handled.2) (hrest : GivesHandled left b' rest) :
    GivesHandled left (if p then b else b') (if p then some handled else rest) := by
  split
  next hp => exact h hp
  next => exact hrest

theorem commandVersion_gives : ReplyBranch.reports.Gives left (commandVersion s left).2 := by
  unfold commandVersion
  simp only [List.append_assoc]
  exact .reports (.append (by decide) _)

theorem overview_gives (hhead : items.head? = some (ascii "overview")) :
    ReplyBranch.reports.Gives left (left ++ (env.reporting figures).shows s items) := by
  refine .reports ?_
  change ApartFromError (reportText env.home figures s items)
  rw [reportText, if_pos hhead]
  unfold commandOverview statusLine
  simp only [List.append_assoc]
  exact .append (by decide) _

theorem builtin_gives {c : Name} (hhead : items.head? = some c) :
    GivesHandled left (builtinBranch (env.reporting figures) s c items left)
      (builtin (env.reporting figures) s c items left) := by
  unfold builtin builtinBranch
  refine .ite (fun _ => .answers (CmdHelp.isOk_commandHelp left)) ?_
  refine .ite (fun _ => commandVersion_gives) ?_
  refine .ite (fun _ => .shows _) ?_
  refine .ite (fun hc => commandChannel_gives figures (hc ▸ hhead)) ?_
  refine .ite (fun _ => commandSubsystem_gives) ?_
  refine .ite (fun _ => .ofSuccess isOk_commandBackend) ?_
  refine .ite (fun _ => .ofSuccess isOk_commandFlags) ?_
  refine .ite (fun _ => .ofSuccess isOk_commandLevel) ?_
  refine .ite (fun _ => .ofSuccess isOk_commandTrace) ?_
  refine .ite (fun hc => .ofSuccess (isOk_commandLogStatistics figures (hc ▸ hhead))) ?_
  refine .ite (fun hc => overview_gives (hc ▸ hhead)) ?_
  exact .ite (fun _ => logs_gives) rfl

theorem isOk_unsupportedReply (items : List Name) : isOk (unsupportedReply items) = false := by
  simp [unsupportedReply, isOk, startsWith, ascii, List.isPrefixOf]

theorem isOk_rejectedReply (reason : Name) : isOk (rejectedReply reason) = false := by
  simp [rejectedReply, isOk, startsWith, ascii, List.isPrefixOf]

theorem runBuiltin_gives (calls : List ControlCall) :
    (runBuiltinBranch (env.reporting figures) s items left).Gives left
      (runBuiltin (env.reporting figures) s items calls left).response := by
  unfold runBuiltinBranch runBuiltin
  cases items with
  | nil => exact .fails (isOk_unsupportedReply [])
  | cons c items =>
      have hgives : GivesHandled left
          (builtinBranch (env.reporting figures) s c (c :: items) left)
          (builtin (env.reporting figures) s c (c :: items) left) := builtin_gives rfl
      dsimp only
      cases hhandled : builtin (env.reporting figures) s c (c :: items) left with
      | none =>
          rw [hhandled] at hgives
          rw [show builtinBranch _ s c (c :: items) left = .fails from hgives]
          exact .fails (isOk_unsupportedReply _)
      | some handled =>
          rw [hhandled] at hgives
          exact hgives

/-- The response of a command is one of its branch. -/
theorem controlInternal_gives (extension : Option ControlExtension) (policy : ControlPolicy)
    (command : Name) :
    (controlBranch (env.reporting figures) extension policy s command).1.Gives
      (controlBranch (env.reporting figures) extension policy s command).2
      (controlInternal (env.reporting figures) extension policy s command).response := by
  unfold controlBranch controlInternal
  dsimp only
  cases checkControlPolicy (controlItems command) policy with
  | error reason => exact .fails (isOk_rejectedReply reason)
  | ok =>
      cases extension with
      | none => exact runBuiltin_gives []
      | some extension =>
          dsimp only
          split
          next =>
            split
            next => exact .ofSuccess rfl
            next => exact runBuiltin_gives _
          next => exact runBuiltin_gives []

end Commands

end Logme
