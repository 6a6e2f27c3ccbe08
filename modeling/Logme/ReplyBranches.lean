import Logme.ControlReports
import Logme.StructuredLists

/-!
# The branches of the commands

A command ends in a success or in an error, and its text takes the place of the
response or is added to it.  The response can hold what an extension has left that
did not handle the command.  From the branch follows whether the response begins
with `error:`.
-/

namespace Logme

inductive ReplyBranch where
  /-- A success whose text takes the place of the response. -/
  | answers
  /-- An error whose text takes the place of the response. -/
  | fails
  /-- A success whose text is added. -/
  | reports
  /-- A success with a response that can begin with anything. -/
  | shows (response : Name)
  /-- An error whose text is added. -/
  | refuses
  /-- An error whose text is added after a header. -/
  | breaksOff

namespace ReplyBranch

def failed : ReplyBranch → Bool
  | .answers | .reports | .shows _ => false
  | .fails | .refuses | .breaksOff => true

def ofSuccess (succeeds : Bool) : ReplyBranch := if succeeds then .answers else .fails

/-- The beginning of the response tells the branch, if `left` stands in the response
before. -/
def Told (left : Name) : ReplyBranch → Prop
  | .answers | .fails => True
  | .reports => isOk left = true
  | .shows response => isOk response = true
  | .refuses => left = [] ∨ isOk left = false
  | .breaksOff => isOk left = false

end ReplyBranch

/-! ## Texts and the word `error:` -/

/-- The text begins with a byte that is not in `error:`. -/
def ApartFromError (text : Name) : Prop := ∃ c ∈ text.head?, c ∉ ascii "error:"

theorem ApartFromError.append {text : Name} (h : ApartFromError text) (rest : Name) :
    ApartFromError (text ++ rest) := by
  obtain ⟨c, hhead, hc⟩ := h
  exact ⟨c, by simp [Option.mem_def.mp hhead], hc⟩

theorem ApartFromError.take {text : Name} (h : ApartFromError text) {n : Nat} (hn : 0 < n) :
    ApartFromError (text.take n) := by
  obtain ⟨c, hhead, hc⟩ := h
  exact ⟨c, by rwa [List.head?_take, if_neg (by omega)], hc⟩

theorem startsWith_append_of_notMem {pattern : Name} {c : UInt8} (hc : c ∉ pattern)
    (left rest : Name) : startsWith pattern (left ++ c :: rest) = startsWith pattern left := by
  induction left generalizing pattern with
  | nil =>
      cases pattern with
      | nil => rfl
      | cons x pattern =>
          have hx : x ≠ c := fun heq => hc (heq ▸ List.mem_cons_self)
          simp [startsWith, List.isPrefixOf, hx]
  | cons l left ih =>
      cases pattern with
      | nil => rfl
      | cons x pattern =>
          have hmore := ih fun hmem => hc (List.mem_cons_of_mem x hmem)
          unfold startsWith at hmore ⊢
          rw [List.cons_append, List.isPrefixOf, List.isPrefixOf, hmore]

theorem isOk_append_of_apart (left : Name) {text : Name} (h : ApartFromError text) :
    isOk (left ++ text) = isOk left := by
  obtain ⟨c, hhead, hc⟩ := h
  obtain ⟨rest, rfl⟩ := List.head?_eq_some_iff.mp hhead
  rw [isOk, isOk, startsWith_append_of_notMem hc]

theorem ApartFromError.isOk {text : Name} (h : ApartFromError text) : isOk text = true :=
  isOk_append_of_apart [] h

theorem isOk_errorReply (error : Name) : isOk (errorReply error) = false := by
  simp [isOk, errorReply, startsWith, ascii, List.isPrefixOf]

/-- An error that is added shows unless something else stands before it. -/
theorem isOk_append_errorReply_iff (left error : Name) :
    isOk (left ++ errorReply error) = false ↔ left = [] ∨ isOk left = false := by
  cases left with
  | nil => exact iff_of_true (isOk_errorReply error) (.inl rfl)
  | cons c left =>
      rw [or_iff_right (List.cons_ne_nil c left)]
      have hsame : startsWith (ascii "rror:") (left ++ errorReply error) =
          startsWith (ascii "rror:") left :=
        startsWith_append_of_notMem (by decide) left _
      unfold isOk startsWith at *
      change (!(0x65 == c && (ascii "rror:").isPrefixOf (left ++ errorReply error))) = false ↔
        (!(0x65 == c && (ascii "rror:").isPrefixOf left)) = false
      rw [hsame]

/-! ## Texts of a branch -/

/-- What the response can be after a branch. -/
inductive ReplyBranch.Gives (left : Name) : ReplyBranch → Name → Prop
  | answers {text : Name} (h : isOk text = true) : Gives left .answers text
  | fails {text : Name} (h : isOk text = false) : Gives left .fails text
  | reports {text : Name} (h : ApartFromError text) : Gives left .reports (left ++ text)
  | shows (response : Name) : Gives left (.shows response) response
  | refuses (error : Name) : Gives left .refuses (left ++ errorReply error)
  | breaksOff {header : Name} (h : ApartFromError header) (error : Name) :
      Gives left .breaksOff (left ++ (header ++ errorReply error))

/-- The response tells the branch exactly if nothing misleading stands before its text. -/
theorem ReplyBranch.Gives.isOk_iff {left text : Name} {branch : ReplyBranch}
    (h : branch.Gives left text) : isOk text = !branch.failed ↔ branch.Told left := by
  cases h with
  | answers h => exact iff_of_true h trivial
  | fails h => exact iff_of_true h trivial
  | reports h =>
      rw [isOk_append_of_apart left h]
      rfl
  | shows response => rfl
  | refuses error => exact isOk_append_errorReply_iff left error
  | breaksOff h error =>
      rw [isOk_append_of_apart left (h.append _)]
      rfl

theorem ReplyBranch.Gives.ofError {left : Name} (error : Name) :
    ReplyBranch.fails.Gives left (errorReply error) := .fails (isOk_errorReply error)

theorem ReplyBranch.Gives.ofOk {left : Name} : ReplyBranch.answers.Gives left okReply :=
  .answers (by decide)

instance : DecidablePred ApartFromError := fun text =>
  inferInstanceAs (Decidable (∃ c ∈ text.head?, c ∉ ascii "error:"))

theorem isOk_of_head {text : Name} {c : UInt8} (h : text.head? = some c) (hc : c ≠ 0x65) :
    isOk text = true := by
  obtain ⟨rest, rfl⟩ := List.head?_eq_some_iff.mp h
  simp [isOk, startsWith, ascii, List.isPrefixOf, Ne.symm hc]

theorem isOk_okReply : isOk okReply = true := by decide

theorem isOk_iteText {p : Prop} [Decidable p] {text text' : Name} {b b' : Bool}
    (h : p → isOk text = b) (h' : ¬ p → isOk text' = b') :
    isOk (if p then text else text') = if p then b else b' := by
  split
  next hp => exact h hp
  next hp => exact h' hp

theorem isOk_ite {p : Prop} [Decidable p] {r r' : ControlState × Name} {b b' : Bool}
    (h : p → isOk r.2 = b) (h' : ¬ p → isOk r'.2 = b') :
    isOk (if p then r else r').2 = if p then b else b' := by
  rw [apply_ite Prod.snd]
  exact isOk_iteText h h'

namespace ReplyBranch.Gives

variable {left : Name}

theorem ite {p : Prop} [Decidable p] {r r' : ControlState × Name} {b b' : ReplyBranch}
    (h : p → b.Gives left r.2) (h' : ¬ p → b'.Gives left r'.2) :
    (if p then b else b').Gives left (if p then r else r').2 := by
  split
  next hp => exact h hp
  next hp => exact h' hp

theorem ofSuccess {succeeds : Bool} {text : Name}
    (h : isOk text = succeeds) : (ReplyBranch.ofSuccess succeeds).Gives left text := by
  cases succeeds with
  | true => exact .answers h
  | false => exact .fails h

end ReplyBranch.Gives

/-! ## The branch of each handler -/

def deleteChannelSucceeds (s : ControlState) (name : Name) : Bool :=
  if name = [] then false
  else if name = defaultName then false
  else
    match getChannelByControlName s.logger name with
    | none => false
    | some c => !(s.logger.heap[c]?).any fun channel => channel.name = []

def bindChannelSucceeds (s : ControlState) (name : Name) (arguments : List Name) : Bool :=
  match arguments with
  | [] => false
  | targetName :: _ =>
      (getChannelByControlName s.logger name).isSome &&
        (getChannelByControlName s.logger targetName).isSome

def channelOperationSucceeds (s : ControlState) (opt name : Name) (arguments : List Name) :
    Bool :=
  let found := (getChannelByControlName s.logger name).isSome
  if opt = ascii "--enable" ∨ opt = ascii "--disable" then found
  else if opt = ascii "--create" then !found
  else if opt = ascii "--delete" then deleteChannelSucceeds s name
  else if opt = ascii "--bind" then bindChannelSucceeds s name arguments
  else if opt = ascii "--unbind" then found
  else if opt = ascii "--error" then found
  else false

/-- A logger has no number without a channel. -/
def channelInformationBranch (s : ControlState) (found : Option Nat) : ReplyBranch :=
  match found with
  | none => .fails
  | some c => if (s.logger.heap[c]?).isSome then .reports else .refuses

def channelBranch (s : ControlState) (arr : List Name) : ReplyBranch :=
  match arr.drop 1 with
  | [] => channelInformationBranch s (s.logger.getExistingChannel [])
  | opt :: rest =>
      if startsWith (ascii "--") opt then
        if opt = ascii "--clear-error" then .answers
        else
          match rest with
          | [] => .fails
          | name :: arguments => .ofSuccess (channelOperationSucceeds s opt name arguments)
      else channelInformationBranch s (getChannelByControlName s.logger opt)

def subsystemOperationBranch (s : ControlState) (opt : Name) (sid : Nat) : ReplyBranch :=
  let blocked := LowerBound.contains sid s.logger.blockedSubsystems
  let allowed := LowerBound.contains sid s.logger.allowedSubsystems
  if opt = ascii "--block" then .ofSuccess (!blocked)
  else if opt = ascii "--unblock" then .ofSuccess blocked
  else if opt = ascii "--allow" then .ofSuccess (!allowed)
  else if opt = ascii "--disallow" then .ofSuccess allowed
  else if opt = ascii "--check" then .reports
  else .refuses

def namedSubsystemBranch (env : ControlEnvironment) (s : ControlState) (opt name : Name)
    (arguments : List Name) : ReplyBranch :=
  let sid := buildSid name
  let s :=
    if 8 < (cString name).length then s.report env.setting (truncatedName name)
    else s
  if sid = 0 then
    if (opt = ascii "--set-level" ∧ arguments.length = 1) ∨
        (opt = ascii "--remove-level" ∧ arguments = []) then .fails
    else .refuses
  else
    match arguments with
    | [levelText] =>
        if opt = ascii "--set-level" then .ofSuccess (parseLevelName levelText).isSome
        else subsystemOperationBranch s opt sid
    | [] =>
        if opt = ascii "--remove-level" then .ofSuccess (s.removeLevel sid).isSome
        else subsystemOperationBranch s opt sid
    | _ => subsystemOperationBranch s opt sid

def subsystemBranch (env : ControlEnvironment) (s : ControlState) (arr : List Name) :
    ReplyBranch :=
  match arr.drop 1 with
  | [] => .reports
  | [opt] =>
      if opt = ascii "--clear" then .answers
      else if opt = ascii "--clear-blocked" then .answers
      else if opt = ascii "--clear-allowed" then .answers
      else if opt = ascii "--clear-levels" then .answers
      else .refuses
  | opt :: name :: arguments => namedSubsystemBranch env s opt name arguments

def addBackendSucceeds (env : ControlEnvironment) (s : ControlState) (c : Nat)
    (type : BackendType) (options : List Name) : Bool :=
  if type.isFile = false ∧ (s.findFirstBackend c type).isSome then false
  else if s.logger.shutdownCalled then false
  else
    match parseBackendOptions (createConfig env type) options with
    | .error _ => false
    | .ok config => (s.applyConfig env config).1

def backendSucceeds (env : ControlEnvironment) (s : ControlState) (arr : List Name) : Bool :=
  match getChannelFromArgs s arr 1 with
  | .error _ => false
  | .ok (c, index) =>
      match arr.drop index with
      | op :: typeInput :: options =>
          if op ≠ ascii "--add" ∧ op ≠ ascii "--delete" then false
          else if typeInput = [] then false
          else
            match normalizeBackendType typeInput with
            | none => false
            | some type =>
                if op = ascii "--add" then addBackendSucceeds env s c type options
                else (s.findFirstBackend c type).isSome
      | _ => false

def flagsSucceeds (s : ControlState) (arr : List Name) : Bool :=
  match getChannelFromArgs s arr 1 with
  | .error _ => false
  | .ok (c, index) =>
      let flags := ((s.logger.heap[c]?).map Channel.flags).getD .zero
      match arr.drop index with
      | [] => true
      | words => (readFlags flags words).isOk

def levelSucceeds (s : ControlState) (arr : List Name) : Bool :=
  match getChannelFromArgs s arr 1 with
  | .error _ => false
  | .ok (_, index) =>
      match arr.drop index with
      | [] => true
      | word :: _ => (findNamed levelValues word).isSome

def traceSucceeds (arr : List Name) : Bool :=
  match arr[1]? with
  | none => true
  | some operation =>
      if operation = ascii "list" ∨ operation = ascii "stat" ∨
          operation = ascii "stats" then true
      else if operation = ascii "enable" ∨ operation = ascii "disable" then
        !decide (arr.length < 3)
      else if operation = ascii "reset" then true
      else false

def logStatisticsSucceeds (arr : List Name) : Bool :=
  let operation := (arr[1]?).getD (ascii "status")
  let arguments := arr.drop 2
  if operation = ascii "start" then true
  else if operation = ascii "stop" then true
  else if operation = ascii "reset" then true
  else if operation = ascii "status" ∨ operation = ascii "stat" ∨
      operation = ascii "stats" then true
  else if operation = ascii "top" ∨ operation = ascii "sites" then
    (CmdLogStatistics.parseReportOptions false {} arguments).isOk
  else if operation = ascii "channels" then
    (CmdLogStatistics.parseReportOptions false {} arguments).isOk
  else if operation = ascii "outputs" ∨ operation = ascii "output" then
    (CmdLogStatistics.parseReportOptions true {} arguments).isOk
  else if operation = ascii "backends" then
    (CmdLogStatistics.parseReportOptions true {} arguments).isOk
  else if operation = ascii "files" ∨ operation = ascii "file" ∨
      operation = ascii "file-backends" then
    (CmdLogStatistics.parseFileReportOptions {} arguments).isOk
  else if operation = ascii "help" then true
  else false

/-- The arguments of `logs --read` name a log file, so that the range is printed. -/
def CmdLogs.readsRange (t : Disk) (home : HomeDirectory) (configured arr : List Name) : Bool :=
  !decide (arr.length < 3) && (validateLogFile t home configured (readArguments arr).1).isOk

/-- The branch of a reply of the `logs` command, whose success is the value that its
function returns. -/
def logsReplyBranch (env : ControlEnvironment) (arr : List Name) (left : Name)
    (reply : CmdLogs.Reply) : ReplyBranch :=
  if reply.returned then
    if arr[1]? = some (ascii "--tail") then .shows (left ++ reply.response) else .reports
  else if arr[1]? = some (ascii "--read") ∧
      CmdLogs.readsRange env.disk env.home env.extensions arr then .breaksOff
  else .refuses

def logsBranch (env : ControlEnvironment) (arr : List Name) (left : Name) : ReplyBranch :=
  logsReplyBranch env arr left
    (CmdLogs.commandLogs env.disk env.home env.extensions arr)

/-- The branch of a built-in command, with `left` in the response. -/
def builtinBranch (env : ControlEnvironment) (s : ControlState) (c : Name)
    (items : List Name) (left : Name) : ReplyBranch :=
  if c = ascii "help" then .answers
  else if c = ascii "version" then .reports
  else if c = ascii "list" then .shows (commandList s left).2
  else if c = ascii "channel" then channelBranch s items
  else if c = ascii "subsystem" then subsystemBranch env s items
  else if c = ascii "backend" then .ofSuccess (backendSucceeds env s items)
  else if c = ascii "flags" then .ofSuccess (flagsSucceeds s items)
  else if c = ascii "level" then .ofSuccess (levelSucceeds s items)
  else if c = ascii "trace" then .ofSuccess (traceSucceeds items)
  else if c = ascii "logstat" then .ofSuccess (logStatisticsSucceeds items)
  else if c = ascii "overview" then .reports
  else if c = ascii "logs" then logsBranch env items left
  else .fails

/-! ## Whole commands -/

/-- The branch of a command that no extension has handled. -/
def runBuiltinBranch (env : ControlEnvironment) (s : ControlState) (items : List Name)
    (left : Name) : ReplyBranch :=
  match items with
  | [] => .fails
  | c :: _ => builtinBranch env s c items left

/-- What an extension answers is an error if it begins with `error:`, as the protocol
has it. -/
def handledBranch (response : Name) : ReplyBranch := .ofSuccess (isOk response)

/-- The branch of a command in the lambda `ControlInternal`, and what stands in the
response before it. -/
def controlBranch (env : ControlEnvironment) (extension : Option ControlExtension)
    (policy : ControlPolicy) (s : ControlState) (command : Name) : ReplyBranch × Name :=
  let items := controlItems command
  match checkControlPolicy items policy with
  | .error _ => (.fails, [])
  | .ok () =>
      match extension with
      | none => (runBuiltinBranch env s items [], [])
      | some extension =>
          if policy.allowExtensions then
            let answer := extension command s
            if answer.1.1 ∧ items.head? ≠ some (ascii "help") then
              (handledBranch answer.1.2, [])
            else (runBuiltinBranch env answer.2 items answer.1.2, answer.1.2)
          else (runBuiltinBranch env s items [], [])

end Logme
