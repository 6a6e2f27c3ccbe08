import Logme.CommandWords
import Logme.ControlPermissions
import Logme.Library.EarlyExit

/-!
# Control commands from the environment

`Logger::ApplyEnvironmentControl` executes the commands that it finds in
environment variables.  Two nested loops over the variables and their commands
share the counters of the limits; they are one loop over what is considered,
and that loop keeps an account of everything that happens.
-/

namespace Logme
namespace EnvironmentControl

inductive ErrorMode where
  | ignoreErrors
  | continueOnError
  | stopOnError
  deriving DecidableEq

structure Options where
  namePrefix : Name := ascii "LOGME"
  policy : ControlPolicy := .safe
  errorMode : ErrorMode := .continueOnError
  maxVariables : Nat := 32
  maxCommands : Nat := 64
  maxVariableLength : Nat := 8192
  maxCommandLength : Nat := 2048
  maxTotalLength : Nat := 32768
  logAppliedCommands : Bool := true

/-- What happens to a variable or to a command. -/
inductive Event where
  | processed (name value : Name)
  | variableTooLong (name value : Name)
  | totalExceeded (name value : Name)
  | tooManyCommands (name command : Name)
  | commandTooLong (name command : Name)
  | executed (name command response : Name)
  deriving DecidableEq

/-- The logger, the locals of the functions, and what has happened. -/
structure Run where
  state : ControlState
  totalLength : Nat
  commandCount : Nat
  success : Bool
  events : List Event

/-- What the functions are called with. -/
structure Setting where
  env : ControlEnvironment
  extension : Option ControlExtension
  getenv : Name → Option Name
  options : Options

/-! ## The functions -/

/-- The loop of `SplitEnvironmentControlCommands`, from `pos`; the rounds are
enough when there are more than separators. -/
def splitLoop : Nat → Name → List Name → List Name
  | 0, _, commands => commands
  | rounds + 1, rest, commands =>
      let command := trimSpaces (rest.takeWhile (· ≠ 0x3B))
      let commands := if command = [] then commands else commands ++ [command]
      if 0x3B ∈ rest then
        splitLoop rounds ((rest.dropWhile (· ≠ 0x3B)).drop 1) commands
      else commands

def splitEnvironmentControlCommands (value : Name) : List Name :=
  splitLoop (value.length + 1) value []

def getControlCommandName (command : Name) : Name :=
  match wordSplit command with
  | [] => ascii "<empty>"
  | first :: _ => toLowerAscii first

def isControlErrorResponse (response : Name) : Bool :=
  startsWith (ascii "error:") response ||
    startsWith (ascii "\x7b\"ok\":false") response

/-- Each `%s` of the format is the next value, as a C string. -/
def formatText : Name → List Name → Name
  | 0x25 :: 0x73 :: rest, value :: values =>
      cString value ++ formatText rest values
  | c :: rest, values => c :: formatText rest values
  | [], _ => []

/-- The values that are not left out. -/
def givenValues (value1 value2 : Name) : List Name :=
  if value1 = [] ∧ value2 = [] then []
  else if value2 = [] then [value1]
  else [value1, value2]

namespace Setting

variable (m : Setting)

def getProcessEnvironmentVariable (name : Name) : Name :=
  (m.getenv (cString name)).getD []

def log (level : Level) (text : Name) (run : Run) : Run :=
  { run with
    state := run.state.report m.env.setting
      { level := level, subsystem := 0, text := text } }

/-- Whether to go on, with the flag of the result. -/
def handleEnvironmentControlError (format value1 value2 : Name) (run : Run) :
    Bool × Run :=
  let run := m.log .error (formatText format (givenValues value1 value2)) run
  (decide (m.options.errorMode ≠ .stopOnError),
    { run with
      success := run.success && decide (m.options.errorMode = .ignoreErrors) })

/-- One round of the loop over the commands of a variable. -/
def processCommand (name command : Name) (run : Run) : Bool × Run :=
  if m.options.maxCommands ≠ 0 ∧ m.options.maxCommands ≤ run.commandCount then
    let run := { run with events := run.events ++ [.tooManyCommands name command] }
    (false, (m.handleEnvironmentControlError
      (ascii "environment control: too many commands") [] [] run).2)
  else
    let run := { run with commandCount := run.commandCount + 1 }
    if m.options.maxCommandLength ≠ 0 ∧
        m.options.maxCommandLength < command.length then
      let run := { run with events := run.events ++ [.commandTooLong name command] }
      m.handleEnvironmentControlError
        (ascii "environment control: command is too long in variable: %s")
        name [] run
    else
      let executed := control m.env m.extension m.options.policy run.state command
      let commandName := getControlCommandName command
      let run := { run with
        state := executed.state
        events := run.events ++ [.executed name command executed.response] }
      if isControlErrorResponse executed.response then
        m.handleEnvironmentControlError
          (ascii "environment control: command failed: %s: %s")
          commandName executed.response run
      else
        let level := if m.options.logAppliedCommands then .info else .debug
        (true, m.log level (formatText
          (ascii "environment control: command applied: %s") [commandName]) run)

def processCommands (name : Name) : List Name → Run → Bool × Run
  | [], run => (true, run)
  | command :: rest, run =>
      match m.processCommand name command run with
      | (true, run) => processCommands name rest run
      | (false, run) => (false, run)

def processEnvironmentControlVariable (name value : Name) (run : Run) :
    Bool × Run :=
  if m.options.maxVariableLength ≠ 0 ∧
      m.options.maxVariableLength < value.length then
    let run := { run with events := run.events ++ [.variableTooLong name value] }
    m.handleEnvironmentControlError
      (ascii "environment control: variable is too long: %s") name [] run
  -- Lengths of strings in memory, whose sum does not wrap.
  else if m.options.maxTotalLength ≠ 0 ∧
      m.options.maxTotalLength < run.totalLength + value.length then
    let run := { run with events := run.events ++ [.totalExceeded name value] }
    m.handleEnvironmentControlError (ascii
      "environment control: total command length limit exceeded at variable: %s")
      name [] run
  else
    let run := { run with
      totalLength := run.totalLength + value.length
      events := run.events ++ [.processed name value] }
    m.processCommands name (splitEnvironmentControlCommands value) run

def baseVariable : Name := m.options.namePrefix ++ ascii "_CONTROL"

def numberedVariable (i : Nat) : Name :=
  m.options.namePrefix ++ ascii "_CONTROL_" ++ decimalBytes i

/-- The loop over the numbered variables.  The counter is a `size_t`. -/
def numberedLoop : Nat → Nat → Run → Option Run
  | 0, _, _ => none
  | rounds + 1, i, run =>
      if i ≤ m.options.maxVariables then
        let name := m.numberedVariable i
        let value := m.getProcessEnvironmentVariable name
        if value = [] then numberedLoop rounds ((i + 1) % 2 ^ 64) run
        else
          match m.processEnvironmentControlVariable name value run with
          | (true, run) => numberedLoop rounds ((i + 1) % 2 ^ 64) run
          | (false, run) => some run
      else some run

def start (s : ControlState) : Run := ⟨s, 0, 0, true, []⟩

/-- Without a result when the loop is not at its end after these rounds. -/
def applyEnvironmentControl (rounds : Nat) (s : ControlState) : Option Run :=
  if m.options.namePrefix = [] then
    some (m.handleEnvironmentControlError
      (ascii "environment control: prefix is empty") [] [] (start s)).2
  else
    let value := m.getProcessEnvironmentVariable m.baseVariable
    if value = [] then m.numberedLoop rounds 1 (start s)
    else
      match m.processEnvironmentControlVariable m.baseVariable value (start s) with
      | (true, run) => m.numberedLoop rounds 1 run
      | (false, run) => some run

end Setting

/-! ## What is considered -/

/-- A limit of 0 is none. -/
def Within (limit size : Nat) : Prop := limit = 0 ∨ size ≤ limit

instance (limit size : Nat) : Decidable (Within limit size) :=
  inferInstanceAs (Decidable (_ ∨ _))

theorem not_within_iff {limit size : Nat} :
    ¬ Within limit size ↔ limit ≠ 0 ∧ limit < size := by
  rw [Within, not_or, Nat.not_le]

inductive Item where
  | environmentVariable (name value : Name)
  | command (name text : Name)
  deriving DecidableEq

/-- The commands of a value: the pieces between the semicolons, trimmed, that
are not empty. -/
def commandsOf (value : Name) : List Name :=
  ((splitBytes (· = 0x3B) value).map trimSpaces).filter (· ≠ [])

namespace Event

def item : Event → Item
  | processed name value => .environmentVariable name value
  | variableTooLong name value => .environmentVariable name value
  | totalExceeded name value => .environmentVariable name value
  | tooManyCommands name command => .command name command
  | commandTooLong name command => .command name command
  | executed name command _ => .command name command

/-- The length of a processed variable. -/
def length : Event → Nat
  | processed _ value => value.length
  | _ => 0

/-- A command that the count of the limit covers. -/
def counted : Event → Nat
  | commandTooLong _ _ => 1
  | executed _ _ _ => 1
  | _ => 0

/-- A variable or a command failed or was refused. -/
def failed : Event → Bool
  | processed _ _ => false
  | executed _ _ response => isControlErrorResponse response
  | _ => true

def tooMany : Event → Bool
  | tooManyCommands _ _ => true
  | _ => false

def command : Event → Option Name
  | executed _ command _ => some command
  | _ => none

end Event

def processedLength (events : List Event) : Nat :=
  (events.map Event.length).sum

def countedCommands (events : List Event) : Nat :=
  (events.map Event.counted).sum

def executedCommands (events : List Event) : List Name :=
  events.filterMap Event.command

namespace Setting

variable (m : Setting)

/-- The items of the variables, in order, when variables of this length have
been processed before. -/
def itemsOf : Nat → List (Name × Name) → List Item
  | _, [] => []
  | total, (name, value) :: rest =>
      if Within m.options.maxVariableLength value.length ∧
          Within m.options.maxTotalLength (total + value.length) then
        .environmentVariable name value :: (commandsOf value).map (.command name) ++
          itemsOf (total + value.length) rest
      else .environmentVariable name value :: itemsOf total rest

/-- The variables that may be set, from `PREFIX_CONTROL` on. -/
def variableNames : List Name :=
  m.baseVariable ::
    (List.range' 1 m.options.maxVariables).map m.numberedVariable

/-- The variables that are set, with their values. -/
def setVariables (names : List Name) : List (Name × Name) :=
  (names.map fun name => (name, m.getProcessEnvironmentVariable name)).filter
    fun entry => entry.2 ≠ []

def consideredItems : List Item :=
  m.itemsOf 0 (m.setVariables m.variableNames)

/-- The message about what has happened. -/
def message : Event → Option (Level × Name)
  | .processed _ _ => none
  | .variableTooLong name _ => some (.error, formatText
      (ascii "environment control: variable is too long: %s")
      (givenValues name []))
  | .totalExceeded name _ => some (.error, formatText (ascii
      "environment control: total command length limit exceeded at variable: %s")
      (givenValues name []))
  | .tooManyCommands _ _ =>
      some (.error, formatText (ascii "environment control: too many commands") [])
  | .commandTooLong name _ => some (.error, formatText
      (ascii "environment control: command is too long in variable: %s")
      (givenValues name []))
  | .executed _ command response =>
      if isControlErrorResponse response then
        some (.error, formatText
          (ascii "environment control: command failed: %s: %s")
          (givenValues (getControlCommandName command) response))
      else
        some (if m.options.logAppliedCommands then .info else .debug, formatText
          (ascii "environment control: command applied: %s")
          [getControlCommandName command])

/-- What an event does to the logger. -/
def effect (s : ControlState) (e : Event) : ControlState :=
  let s :=
    match e with
    | .executed _ command _ =>
        (control m.env m.extension m.options.policy s command).state
    | _ => s
  match m.message e with
  | none => s
  | some (level, text) =>
      s.report m.env.setting { level := level, subsystem := 0, text := text }

def account (run : Run) (e : Event) : Run where
  state := m.effect run.state e
  totalLength := run.totalLength + e.length
  commandCount := run.commandCount + e.counted
  success := run.success && (!e.failed || decide (m.options.errorMode = .ignoreErrors))
  events := run.events ++ [e]

/-- What the events come to, from the beginning. -/
def accountOf (s : ControlState) (events : List Event) : Run :=
  events.foldl m.account (start s)

/-- What has to happen to a variable or a command after these events. -/
def Judged (s : ControlState) (before : List Event) : Event → Prop
  | .processed _ value =>
      Within m.options.maxVariableLength value.length ∧
        Within m.options.maxTotalLength (processedLength before + value.length)
  | .variableTooLong _ value =>
      ¬ Within m.options.maxVariableLength value.length
  | .totalExceeded _ value =>
      Within m.options.maxVariableLength value.length ∧
        ¬ Within m.options.maxTotalLength (processedLength before + value.length)
  | .tooManyCommands _ _ =>
      ¬ Within m.options.maxCommands (countedCommands before + 1)
  | .commandTooLong _ command =>
      Within m.options.maxCommands (countedCommands before + 1) ∧
        ¬ Within m.options.maxCommandLength command.length
  | .executed _ command response =>
      Within m.options.maxCommands (countedCommands before + 1) ∧
        Within m.options.maxCommandLength command.length ∧
          response = (control m.env m.extension m.options.policy
            (m.accountOf s before).state command).response

/-- Nothing is considered after it. -/
def Last (e : Event) : Prop :=
  e.tooMany = true ∨ m.options.errorMode = .stopOnError ∧ e.failed = true

instance (e : Event) : Decidable (m.Last e) := inferInstanceAs (Decidable (_ ∨ _))

/-! ## One item -/

/-- What happens to an item. -/
def verdict (run : Run) : Item → Event
  | .environmentVariable name value =>
      if ¬ Within m.options.maxVariableLength value.length then
        .variableTooLong name value
      else if ¬ Within m.options.maxTotalLength
          (run.totalLength + value.length) then .totalExceeded name value
      else .processed name value
  | .command name text =>
      if ¬ Within m.options.maxCommands (run.commandCount + 1) then
        .tooManyCommands name text
      else if ¬ Within m.options.maxCommandLength text.length then
        .commandTooLong name text
      else .executed name text
        (control m.env m.extension m.options.policy run.state text).response

/-- One round: whether to go on, and the account with the event. -/
def consider (item : Item) (run : Run) : Bool × Run :=
  (decide (¬ m.Last (m.verdict run item)), m.account run (m.verdict run item))

theorem item_verdict (run : Run) (item : Item) :
    (m.verdict run item).item = item := by
  cases item <;> rw [verdict] <;> split_ifs <;> rfl

/-- The report of a failure completes the account of its event. -/
theorem handleEnvironmentControlError_snd {format value1 value2 : Name}
    {run before : Run} {e : Event} (hfailed : e.failed = true)
    (hstate : m.effect before.state e = run.state.report m.env.setting
      { level := .error, subsystem := 0
        text := formatText format (givenValues value1 value2) })
    (htotal : run.totalLength = before.totalLength + e.length)
    (hcount : run.commandCount = before.commandCount + e.counted)
    (hsuccess : run.success = before.success)
    (hevents : run.events = before.events ++ [e]) :
    (m.handleEnvironmentControlError format value1 value2 run).2 =
      m.account before e := by
  simp only [handleEnvironmentControlError, log, account, hstate, htotal, hcount,
    hsuccess, hevents, hfailed, Bool.not_true, Bool.false_or]

theorem last_iff_of_failed {e : Event} (hmany : e.tooMany = false)
    (hfailed : e.failed = true) :
    m.Last e ↔ m.options.errorMode = .stopOnError := by
  rw [Last, hmany, hfailed]
  simp

theorem not_last_of_not_failed {e : Event} (hmany : e.tooMany = false)
    (hfailed : e.failed = false) : ¬ m.Last e := by
  rw [Last, hmany, hfailed]
  simp

theorem last_tooManyCommands (name command : Name) :
    m.Last (.tooManyCommands name command) := .inl rfl

theorem handleEnvironmentControlError_eq {format value1 value2 : Name}
    {run before : Run} {e : Event} (hmany : e.tooMany = false)
    (hfailed : e.failed = true)
    (hstate : m.effect before.state e = run.state.report m.env.setting
      { level := .error, subsystem := 0
        text := formatText format (givenValues value1 value2) })
    (htotal : run.totalLength = before.totalLength + e.length)
    (hcount : run.commandCount = before.commandCount + e.counted)
    (hsuccess : run.success = before.success)
    (hevents : run.events = before.events ++ [e]) :
    m.handleEnvironmentControlError format value1 value2 run =
      (decide (¬ m.Last e), m.account before e) := by
  refine Prod.ext ?_ (m.handleEnvironmentControlError_snd hfailed hstate htotal
    hcount hsuccess hevents)
  rw [handleEnvironmentControlError]
  exact decide_eq_decide.mpr (not_congr (m.last_iff_of_failed hmany hfailed).symm)

theorem effect_applied (s : ControlState) (name command : Name) {response : Name}
    (hfailed : ¬ isControlErrorResponse response = true) :
    m.effect s (.executed name command response) =
      ControlState.report m.env.setting
        (control m.env m.extension m.options.policy s command).state
        { level := if m.options.logAppliedCommands then .info else .debug
          subsystem := 0
          text := formatText (ascii "environment control: command applied: %s")
            [getControlCommandName command] } := by
  simp only [effect, message, if_neg hfailed]

theorem processCommand_eq (name command : Name) (run : Run) :
    m.processCommand name command run =
      m.consider (.command name command) run := by
  have hmany : (m.options.maxCommands ≠ 0 ∧
      m.options.maxCommands ≤ run.commandCount) ↔
      ¬ Within m.options.maxCommands (run.commandCount + 1) := by
    rw [not_within_iff, Nat.lt_succ_iff]
  have hlong : (m.options.maxCommandLength ≠ 0 ∧
      m.options.maxCommandLength < command.length) ↔
      ¬ Within m.options.maxCommandLength command.length := not_within_iff.symm
  rw [processCommand, consider, verdict]
  simp only [hmany, hlong]
  split
  next =>
    refine Prod.ext ?_ (m.handleEnvironmentControlError_snd rfl rfl rfl rfl rfl rfl)
    exact (decide_eq_false (not_not_intro (m.last_tooManyCommands name command))).symm
  next =>
    split
    next => exact m.handleEnvironmentControlError_eq rfl rfl rfl rfl rfl rfl rfl
    next =>
      split
      next hfailed =>
        refine m.handleEnvironmentControlError_eq rfl hfailed ?_ rfl rfl rfl rfl
        simp only [effect, message, if_pos hfailed]
      next hfailed =>
        have hdone := m.not_last_of_not_failed (e := .executed name command
          (control m.env m.extension m.options.policy run.state command).response)
          rfl (Bool.eq_false_iff.mpr hfailed)
        refine Prod.ext (decide_eq_true hdone).symm ?_
        have hstate := m.effect_applied run.state name command hfailed
        simp only [log, account, hstate, Event.length, Event.counted, Event.failed,
          Bool.eq_false_iff.mpr hfailed, Nat.add_zero, Bool.not_false, Bool.true_or,
          Bool.and_true]

theorem processCommands_eq (name : Name) (commands : List Name) (run : Run) :
    m.processCommands name commands run =
      EarlyExit.run m.consider (commands.map (.command name)) run := by
  induction commands generalizing run with
  | nil => rfl
  | cons command rest ih =>
      rw [processCommands, processCommand_eq, List.map_cons, EarlyExit.run]
      cases hgo : m.consider (.command name command) run with
      | mk goesOn next => cases goesOn <;> simp [ih]

/-! ## The variables -/

theorem commandsOf_append (piece rest : Name) :
    commandsOf (piece ++ 0x3B :: rest) = commandsOf piece ++ commandsOf rest := by
  rw [commandsOf, splitBytes_terminated (by decide), List.map_append,
    List.filter_append]
  rfl

theorem commandsOf_of_notMem {piece : Name} (h : 0x3B ∉ piece) :
    commandsOf piece = if trimSpaces piece = [] then [] else [trimSpaces piece] := by
  have hpiece : ∀ c ∈ piece, decide (c = 0x3B) = false :=
    fun c hc => decide_eq_false fun heq => h (heq ▸ hc)
  rw [commandsOf, splitBytes_of_notMem hpiece, List.map_singleton]
  split_ifs with hnil <;> simp [hnil]

theorem splitLoop_eq {rounds : Nat} {rest : Name} (commands : List Name)
    (hrounds : rest.length < rounds) :
    splitLoop rounds rest commands = commands ++ commandsOf rest := by
  induction rounds generalizing rest commands with
  | zero => omega
  | succ rounds ih =>
      have hnext {piece : Name} (hpiece : 0x3B ∉ piece) :
          (if trimSpaces piece = [] then commands
            else commands ++ [trimSpaces piece]) = commands ++ commandsOf piece := by
        rw [commandsOf_of_notMem hpiece]
        split_ifs
        · rw [List.append_nil]
        · rfl
      have hother {piece : Name} (hpiece : 0x3B ∉ piece) :
          ∀ c ∈ piece, decide (c ≠ 0x3B) = true :=
        fun c hc => decide_eq_true fun heq => hpiece (heq ▸ hc)
      rw [splitLoop]
      by_cases hmem : 0x3B ∈ rest
      · obtain ⟨piece, more, rfl, hpiece⟩ := List.eq_append_cons_of_mem hmem
        rw [if_pos hmem, List.takeWhile_append_of_pos (hother hpiece),
          List.dropWhile_append_of_pos (hother hpiece),
          List.takeWhile_cons_of_neg (by decide), List.append_nil,
          List.dropWhile_cons_of_neg (by decide), List.drop_succ_cons, List.drop_zero,
          hnext hpiece, commandsOf_append, ← List.append_assoc]
        simp only [List.length_append, List.length_cons] at hrounds
        exact ih _ (by omega)
      · rw [if_neg hmem, List.takeWhile_eq_self_iff.mpr (hother hmem)]
        exact hnext hmem

theorem splitEnvironmentControlCommands_eq (value : Name) :
    splitEnvironmentControlCommands value = commandsOf value :=
  splitLoop_eq [] (Nat.lt_succ_self _)

theorem processEnvironmentControlVariable_eq (name value : Name) (run : Run) :
    m.processEnvironmentControlVariable name value run =
      EarlyExit.run m.consider (m.itemsOf run.totalLength [(name, value)]) run := by
  have hvariable : (m.options.maxVariableLength ≠ 0 ∧
      m.options.maxVariableLength < value.length) ↔
      ¬ Within m.options.maxVariableLength value.length := not_within_iff.symm
  have htotal : (m.options.maxTotalLength ≠ 0 ∧
      m.options.maxTotalLength < run.totalLength + value.length) ↔
      ¬ Within m.options.maxTotalLength (run.totalLength + value.length) :=
    not_within_iff.symm
  have hone {e : Event} (he : m.verdict run (.environmentVariable name value) = e) :
      m.consider (.environmentVariable name value) run =
        (decide (¬ m.Last e), m.account run e) := by
    rw [consider, he]
  rw [processEnvironmentControlVariable, itemsOf, itemsOf, itemsOf]
  simp only [hvariable, htotal, splitEnvironmentControlCommands_eq]
  split
  next hlong =>
    rw [if_neg fun h => hlong h.1, EarlyExit.run_singleton,
      hone (by rw [verdict, if_pos hlong])]
    exact m.handleEnvironmentControlError_eq rfl rfl rfl rfl rfl rfl rfl
  next hfits =>
    split
    next hexceeded =>
      rw [if_neg fun h => hexceeded h.2, EarlyExit.run_singleton,
        hone (by rw [verdict, if_neg hfits, if_pos hexceeded])]
      exact m.handleEnvironmentControlError_eq rfl rfl rfl rfl rfl rfl rfl
    next hleft =>
      have hprocessed := hone (e := .processed name value)
        (by rw [verdict, if_neg hfits, if_neg hleft])
      have hgoes : (m.consider (.environmentVariable name value) run).1 = true := by
        rw [hprocessed]
        exact decide_eq_true (m.not_last_of_not_failed rfl rfl)
      rw [if_pos ⟨not_not.mp hfits, not_not.mp hleft⟩, List.append_nil,
        EarlyExit.run_cons_of_goesOn _ hgoes, hprocessed, processCommands_eq]
      simp only [account, effect, message, Event.length, Event.counted, Event.failed,
        Nat.add_zero, Bool.not_false, Bool.true_or, Bool.and_true]

/-- The length of the processed variables after one more. -/
def totalAfter (total : Nat) (value : Name) : Nat :=
  if Within m.options.maxVariableLength value.length ∧
      Within m.options.maxTotalLength (total + value.length) then
    total + value.length
  else total

theorem itemsOf_cons (total : Nat) (entry : Name × Name)
    (rest : List (Name × Name)) :
    m.itemsOf total (entry :: rest) =
      m.itemsOf total [entry] ++ m.itemsOf (m.totalAfter total entry.2) rest := by
  obtain ⟨name, value⟩ := entry
  rw [itemsOf, itemsOf, totalAfter]
  split_ifs
  · rw [itemsOf, List.append_nil]
  · rw [itemsOf]
    rfl

theorem verdict_command_length (run : Run) (name text : Name) :
    (m.verdict run (.command name text)).length = 0 := by
  rw [verdict]
  split_ifs <;> rfl

/-- Commands leave the length as it is. -/
theorem run_commands_totalLength (name : Name) (commands : List Name) (run : Run) :
    (EarlyExit.run m.consider (commands.map (.command name)) run).2.totalLength =
      run.totalLength := by
  induction commands generalizing run with
  | nil => rfl
  | cons command rest ih =>
      have hlength : (m.consider (.command name command) run).2.totalLength =
          run.totalLength := by
        rw [consider, account, verdict_command_length, Nat.add_zero]
      rw [List.map_cons, EarlyExit.run]
      split
      next => rw [ih, hlength]
      next => exact hlength

theorem run_variable_totalLength (entry : Name × Name) (run : Run) :
    (EarlyExit.run m.consider (m.itemsOf run.totalLength [entry]) run).2.totalLength =
      m.totalAfter run.totalLength entry.2 := by
  obtain ⟨name, value⟩ := entry
  rw [itemsOf, totalAfter]
  split_ifs with hfits
  · have hprocessed : m.verdict run (.environmentVariable name value) = .processed name value := by
      rw [verdict, if_neg (not_not_intro hfits.1), if_neg (not_not_intro hfits.2)]
    have hgoes : (m.consider (.environmentVariable name value) run).1 = true := by
      rw [consider, hprocessed]
      exact decide_eq_true (m.not_last_of_not_failed rfl rfl)
    rw [itemsOf, List.append_nil, EarlyExit.run_cons_of_goesOn _ hgoes,
      run_commands_totalLength, consider, hprocessed]
    rfl
  · rw [itemsOf, EarlyExit.run_singleton, consider, verdict]
    by_cases hlong : Within m.options.maxVariableLength value.length
    · rw [if_neg (not_not_intro hlong), if_pos fun h => hfits ⟨hlong, h⟩]
      rfl
    · rw [if_pos hlong]
      rfl

/-- One variable after the other is one loop over their items. -/
theorem run_itemsOf_cons (entry : Name × Name) (rest : List (Name × Name))
    (run : Run) :
    EarlyExit.run m.consider (m.itemsOf run.totalLength (entry :: rest)) run =
      let next := m.processEnvironmentControlVariable entry.1 entry.2 run
      if next.1 then
        EarlyExit.run m.consider (m.itemsOf next.2.totalLength rest) next.2
      else (false, next.2) := by
  rw [itemsOf_cons, EarlyExit.run_append, processEnvironmentControlVariable_eq,
    ← run_variable_totalLength]

theorem setVariables_cons (name : Name) (names : List Name) :
    m.setVariables (name :: names) =
      if m.getProcessEnvironmentVariable name = [] then m.setVariables names
      else (name, m.getProcessEnvironmentVariable name) :: m.setVariables names := by
  rw [setVariables, List.map_cons, List.filter_cons]
  by_cases hnil : m.getProcessEnvironmentVariable name = []
  · rw [if_pos hnil, if_neg (by simp [hnil])]
    rfl
  · rw [if_neg hnil, if_pos (by simp [hnil])]
    rfl

theorem numberedLoop_eq (hmax : m.options.maxVariables + 1 < 2 ^ 64)
    {rounds i left : Nat} (hleft : i + left = m.options.maxVariables + 1)
    (hrounds : left < rounds) (run : Run) :
    m.numberedLoop rounds i run =
      some (EarlyExit.run m.consider (m.itemsOf run.totalLength
        (m.setVariables ((List.range' i left).map m.numberedVariable))) run).2 := by
  induction left generalizing rounds i run with
  | zero =>
      obtain ⟨rounds, rfl⟩ := Nat.exists_eq_add_one_of_ne_zero hrounds.ne'
      rw [numberedLoop, if_neg (by omega)]
      rfl
  | succ left ih =>
      obtain ⟨rounds, rfl⟩ := Nat.exists_eq_add_one_of_ne_zero (by omega : rounds ≠ 0)
      have hnext : (i + 1) % 2 ^ 64 = i + 1 := Nat.mod_eq_of_lt (by omega)
      rw [numberedLoop, if_pos (by omega), hnext, List.range'_succ, List.map_cons,
        setVariables_cons]
      dsimp only
      split_ifs with hset
      · exact ih (by omega) (by omega) run
      · rw [run_itemsOf_cons]
        cases hprocess : m.processEnvironmentControlVariable (m.numberedVariable i)
            (m.getProcessEnvironmentVariable (m.numberedVariable i)) run with
        | mk goesOn next =>
            cases goesOn with
            | true => exact ih (by omega) (by omega) next
            | false => rfl

/-- The function is one loop over what is considered. -/
theorem applyEnvironmentControl_eq (hnamed : m.options.namePrefix ≠ [])
    (hmax : m.options.maxVariables + 1 < 2 ^ 64) {rounds : Nat}
    (hrounds : m.options.maxVariables < rounds) (s : ControlState) :
    m.applyEnvironmentControl rounds s =
      some (EarlyExit.run m.consider m.consideredItems (start s)).2 := by
  have hnumbered (run : Run) := m.numberedLoop_eq hmax (Nat.add_comm 1 _) hrounds run
  rw [applyEnvironmentControl, if_neg hnamed, consideredItems, variableNames,
    setVariables_cons]
  dsimp only
  split_ifs with hset
  · exact hnumbered (start s)
  · have hstart := m.run_itemsOf_cons
      (m.baseVariable, m.getProcessEnvironmentVariable m.baseVariable)
      (m.setVariables ((List.range' 1 m.options.maxVariables).map m.numberedVariable))
      (start s)
    rw [show (start s).totalLength = 0 from rfl] at hstart
    rw [hstart]
    cases hprocess : m.processEnvironmentControlVariable m.baseVariable
        (m.getProcessEnvironmentVariable m.baseVariable) (start s) with
    | mk goesOn next =>
        cases goesOn with
        | true => exact hnumbered next
        | false => rfl

/-! ## The account -/

theorem accountOf_concat (s : ControlState) (events : List Event) (e : Event) :
    m.accountOf s (events ++ [e]) = m.account (m.accountOf s events) e := by
  rw [accountOf, List.foldl_append]
  rfl

theorem accountOf_events (s : ControlState) (events : List Event) :
    (m.accountOf s events).events = events := by
  induction events using List.reverseRecOn with
  | nil => rfl
  | append_singleton events e ih => rw [accountOf_concat, account, ih]

theorem accountOf_totalLength (s : ControlState) (events : List Event) :
    (m.accountOf s events).totalLength = processedLength events := by
  induction events using List.reverseRecOn with
  | nil => rfl
  | append_singleton events e ih =>
      rw [accountOf_concat, account, ih, processedLength, processedLength,
        List.map_append, List.sum_append, List.map_singleton, List.sum_singleton]

theorem accountOf_commandCount (s : ControlState) (events : List Event) :
    (m.accountOf s events).commandCount = countedCommands events := by
  induction events using List.reverseRecOn with
  | nil => rfl
  | append_singleton events e ih =>
      rw [accountOf_concat, account, ih, countedCommands, countedCommands,
        List.map_append, List.sum_append, List.map_singleton, List.sum_singleton]

theorem accountOf_success (s : ControlState) (events : List Event) :
    (m.accountOf s events).success = false ↔
      m.options.errorMode ≠ .ignoreErrors ∧ ∃ e ∈ events, e.failed = true := by
  induction events using List.reverseRecOn with
  | nil => simp [accountOf, start]
  | append_singleton events e ih =>
      rw [accountOf_concat, account, Bool.and_eq_false_iff, ih, Bool.or_eq_false_iff,
        Bool.not_eq_false', decide_eq_false_iff_not]
      simp only [List.mem_append, List.mem_singleton]
      constructor
      · rintro (⟨hmode, e', he', hfailed⟩ | ⟨hfailed, hmode⟩)
        · exact ⟨hmode, e', .inl he', hfailed⟩
        · exact ⟨hmode, e, .inr rfl, hfailed⟩
      · rintro ⟨hmode, e', he' | rfl, hfailed⟩
        · exact .inl ⟨hmode, e', he', hfailed⟩
        · exact .inr ⟨hfailed, hmode⟩

theorem judged_verdict (s : ControlState) (events : List Event) (item : Item) :
    m.Judged s events (m.verdict (m.accountOf s events) item) := by
  cases item with
  | environmentVariable name value =>
      rw [verdict, accountOf_totalLength]
      split
      next hlong => exact hlong
      next hlong =>
        split
        next hexceeded => exact ⟨not_not.mp hlong, hexceeded⟩
        next hleft => exact ⟨not_not.mp hlong, not_not.mp hleft⟩
  | command name text =>
      rw [verdict, accountOf_commandCount]
      split
      next hmany => exact hmany
      next hmany =>
        split
        next hlong => exact ⟨not_not.mp hmany, hlong⟩
        next hfits => exact ⟨not_not.mp hmany, not_not.mp hfits, rfl⟩

/-- Each event is what had to happen after those before it. -/
def AllJudged (s : ControlState) (events : List Event) : Prop :=
  ∀ before e after, events = before ++ e :: after → m.Judged s before e

variable {m}

theorem allJudged_concat_iff {s : ControlState} {events : List Event} {e : Event} :
    m.AllJudged s (events ++ [e]) ↔ m.AllJudged s events ∧ m.Judged s events e := by
  constructor
  · intro h
    refine ⟨?_, h events e [] rfl⟩
    rintro before e' after rfl
    exact h before e' (after ++ [e]) (by simp)
  · rintro ⟨hall, hlast⟩ before e' after heq
    rcases List.eq_nil_or_concat after with rfl | ⟨after, last, rfl⟩
    · obtain ⟨rfl, he⟩ := List.append_inj' heq rfl
      cases he
      exact hlast
    · rw [List.concat_eq_append, ← List.cons_append, ← List.append_assoc] at heq
      exact hall before e' after (List.append_inj' heq rfl).1

theorem AllJudged.total_within {s : ControlState} {events : List Event}
    (h : m.AllJudged s events) :
    Within m.options.maxTotalLength (processedLength events) := by
  induction events using List.reverseRecOn with
  | nil => exact .inr (Nat.zero_le _)
  | append_singleton events e ih =>
      rw [allJudged_concat_iff] at h
      have hbefore := ih h.1
      have hlast := h.2
      rw [processedLength, List.map_append, List.sum_append, List.map_singleton,
        List.sum_singleton]
      cases e with
      | processed name value => exact hlast.2
      | _ => exact hbefore

theorem AllJudged.commands_within {s : ControlState} {events : List Event}
    (h : m.AllJudged s events) :
    Within m.options.maxCommands (countedCommands events) := by
  induction events using List.reverseRecOn with
  | nil => exact .inr (Nat.zero_le _)
  | append_singleton events e ih =>
      rw [allJudged_concat_iff] at h
      have hbefore := ih h.1
      have hlast := h.2
      rw [countedCommands, List.map_append, List.sum_append, List.map_singleton,
        List.sum_singleton]
      cases e with
      | commandTooLong name command => exact hlast.1
      | executed name command response => exact hlast.1
      | _ => exact hbefore

theorem AllJudged.command_within {s : ControlState} {events : List Event}
    (h : m.AllJudged s events) {command : Name}
    (hmem : command ∈ executedCommands events) :
    Within m.options.maxCommandLength command.length := by
  obtain ⟨e, he, hcommand⟩ := List.mem_filterMap.mp hmem
  obtain ⟨before, after, rfl⟩ := List.append_of_mem he
  have hjudged := h before e after rfl
  cases e with
  | executed name text response =>
      cases hcommand
      exact hjudged.2.1
  | _ => cases hcommand

theorem length_executedCommands_le (events : List Event) :
    (executedCommands events).length ≤ countedCommands events := by
  induction events with
  | nil => exact Nat.le_refl _
  | cons e rest ih =>
      rw [countedCommands, List.map_cons, List.sum_cons]
      cases e with
      | executed name command response =>
          exact (Nat.succ_le_succ ih).trans (Nat.add_comm _ 1).le
      | _ => exact ih.trans (Nat.le_add_left _ _)

/-! ## The run -/

/-- The variables and commands are considered in their order up to the one that
ends the run, to each happens what the limits say, and the result tells of
failures unless errors are ignored. -/
structure ObeysLimits (m : Setting) (s : ControlState) (run : Run) : Prop where
  accounted : run = m.accountOf s run.events
  considered : ∃ rest, m.consideredItems = run.events.map Event.item ++ rest ∧
    (rest ≠ [] → ∃ e ∈ run.events, m.Last e)
  judged : ∀ before e after, run.events = before ++ e :: after → m.Judged s before e
  total : Within m.options.maxTotalLength (processedLength run.events)
  commands : Within m.options.maxCommands (executedCommands run.events).length
  command : ∀ c ∈ executedCommands run.events,
    Within m.options.maxCommandLength c.length
  stops : m.options.errorMode = .stopOnError → ∀ before e after,
    run.events = before ++ e :: after → e.failed = true → after = []
  result : run.success = false ↔
    m.options.errorMode ≠ .ignoreErrors ∧ ∃ e ∈ run.events, e.failed = true

theorem obeysLimits_of_account {s : ControlState} {events : List Event}
    (hconsidered : ∃ rest, m.consideredItems = events.map Event.item ++ rest ∧
      (rest ≠ [] → ∃ e ∈ events, m.Last e))
    (hjudged : m.AllJudged s events)
    (hends : ∀ before e after, events = before ++ e :: after → m.Last e → after = []) :
    ObeysLimits m s (m.accountOf s events) := by
  have hevents := m.accountOf_events s events
  constructor
  · rw [hevents]
  · rw [hevents]
    exact hconsidered
  · rw [hevents]
    exact hjudged
  · rw [hevents]
    exact hjudged.total_within
  · rw [hevents]
    exact hjudged.commands_within.imp_right
      (Nat.le_trans (length_executedCommands_le events))
  · rw [hevents]
    intro c hc
    exact hjudged.command_within hc
  · rw [hevents]
    intro hmode before e after heq hfailed
    exact hends before e after heq (.inr ⟨hmode, hfailed⟩)
  · rw [hevents]
    exact m.accountOf_success s events

/-- The items passed are those of the events, and none of these was the last. -/
def GoingOn (m : Setting) (s : ControlState) (passed : List Item) (run : Run) : Prop :=
  ∃ events, run = m.accountOf s events ∧ events.map Event.item = passed ∧
    m.AllJudged s events ∧ ∀ e ∈ events, ¬ m.Last e

/-- The last event was the first of its kind. -/
def EndedEarly (m : Setting) (s : ControlState) (passed : List Item) (run : Run) :
    Prop :=
  ∃ events e, run = m.accountOf s (events ++ [e]) ∧
    (events ++ [e]).map Event.item = passed ∧ m.AllJudged s (events ++ [e]) ∧
      (∀ e' ∈ events, ¬ m.Last e') ∧ m.Last e

/-- One round adds the event of its item. -/
theorem GoingOn.consider {s : ControlState} {passed : List Item} {run : Run}
    (h : GoingOn m s passed run) (item : Item) :
    ∃ events e, (m.consider item run).2 = m.accountOf s (events ++ [e]) ∧
      (events ++ [e]).map Event.item = passed ++ [item] ∧
      m.AllJudged s (events ++ [e]) ∧ (∀ e' ∈ events, ¬ m.Last e') ∧
      (m.consider item run).1 = decide (¬ m.Last e) := by
  obtain ⟨events, rfl, hitems, hjudged, hgoing⟩ := h
  refine ⟨events, m.verdict (m.accountOf s events) item, ?_, ?_, ?_, hgoing, rfl⟩
  · rw [accountOf_concat]
    rfl
  · rw [List.map_append, hitems, List.map_singleton, item_verdict]
  · exact allJudged_concat_iff.mpr ⟨hjudged, m.judged_verdict s events item⟩

theorem run_considered (s : ControlState) (items : List Item) :
    ∃ events, (EarlyExit.run m.consider items (start s)).2 = m.accountOf s events ∧
      m.AllJudged s events ∧
      (∃ rest, items = events.map Event.item ++ rest ∧
        (rest ≠ [] → ∃ e ∈ events, m.Last e)) ∧
      ∀ before e after, events = before ++ e :: after → m.Last e → after = [] := by
  have hgo : ∀ passed item run, GoingOn m s passed run →
      (m.consider item run).1 = true →
        GoingOn m s (passed ++ [item]) (m.consider item run).2 := by
    intro passed item run h htrue
    obtain ⟨events, e, hrun, hitems, hjudged, hbefore, hgoes⟩ := h.consider item
    have he : ¬ m.Last e := of_decide_eq_true (hgoes.symm.trans htrue)
    refine ⟨events ++ [e], hrun, hitems, hjudged, ?_⟩
    intro e' he'
    rcases List.mem_append.mp he' with hold | hnew
    · exact hbefore e' hold
    · rwa [List.mem_singleton.mp hnew]
  have hleave : ∀ passed item run, GoingOn m s passed run →
      (m.consider item run).1 = false →
        EndedEarly m s (passed ++ [item]) (m.consider item run).2 := by
    intro passed item run h hfalse
    obtain ⟨events, e, hrun, hitems, hjudged, hbefore, hgoes⟩ := h.consider item
    have he : ¬ ¬ m.Last e := of_decide_eq_false (hgoes.symm.trans hfalse)
    exact ⟨events, e, hrun, hitems, hjudged, hbefore, not_not.mp he⟩
  have hstart : GoingOn m s [] (start s) :=
    ⟨[], rfl, rfl, fun before e after h => by simp at h, by simp⟩
  rcases EarlyExit.run_rule hgo hleave items [] (start s) hstart with
    ⟨-, events, hrun, hitems, hjudged, hgoing⟩ |
    ⟨-, passed, rest, rfl, events, e, hrun, hitems, hjudged, hbefore, hlast⟩
  · refine ⟨events, hrun, hjudged, ⟨[], ?_, fun h => absurd rfl h⟩, ?_⟩
    · rw [hitems, List.nil_append, List.append_nil]
    · rintro before e after rfl he
      exact absurd he (hgoing e (by simp))
  · refine ⟨events ++ [e], hrun, hjudged, ⟨rest, ?_, fun _ => ⟨e, by simp, hlast⟩⟩, ?_⟩
    · rw [hitems, List.nil_append]
    · intro before e' after heq he'
      rcases List.eq_nil_or_concat after with rfl | ⟨after, last, rfl⟩
      · rfl
      · rw [List.concat_eq_append, ← List.cons_append, ← List.append_assoc] at heq
        have hmem : e' ∈ events := by
          rw [(List.append_inj' heq rfl).1]
          simp
        exact absurd he' (hbefore e' hmem)

end Setting

/-- With a name for the variables the run obeys its limits; without one nothing
is considered, and the result says so unless errors are ignored. -/
theorem applyEnvironmentControl_obeysLimits (m : Setting) (s : ControlState)
    (hmax : m.options.maxVariables + 1 < 2 ^ 64) :
    ∃ enough, ∀ rounds, enough ≤ rounds → ∃ run,
      m.applyEnvironmentControl rounds s = some run ∧
        (m.options.namePrefix ≠ [] → m.ObeysLimits s run) ∧
        (m.options.namePrefix = [] → run.events = [] ∧
          (run.success = false ↔ m.options.errorMode ≠ .ignoreErrors)) := by
  refine ⟨m.options.maxVariables + 1, fun rounds hrounds => ?_⟩
  by_cases hnamed : m.options.namePrefix = []
  · refine ⟨_, if_pos hnamed, fun h => absurd hnamed h, fun _ => ⟨rfl, ?_⟩⟩
    simp [Setting.handleEnvironmentControlError, Setting.log, Setting.start]
  · obtain ⟨events, hrun, hjudged, hconsidered, hends⟩ :=
      Setting.run_considered (m := m) s m.consideredItems
    refine ⟨_, m.applyEnvironmentControl_eq hnamed hmax hrounds s, fun _ => ?_,
      fun h => absurd h hnamed⟩
    rw [hrun]
    exact Setting.obeysLimits_of_account hconsidered hjudged hends

/-- One variable is set, with two commands and a piece of spaces. -/
def twoCommands : Setting where
  env := plainEnvironment
  extension := none
  getenv := fun name =>
    if name = ascii "LOGME_CONTROL" then some (ascii "version; ;nothing") else none
  options := {}

theorem applyEnvironmentControl_obeysLimits_twoCommands :
    ∃ enough, ∀ rounds, enough ≤ rounds → ∃ run,
      twoCommands.applyEnvironmentControl rounds consoleState = some run ∧
        (twoCommands.options.namePrefix ≠ [] →
          twoCommands.ObeysLimits consoleState run) ∧
        (twoCommands.options.namePrefix = [] → run.events = [] ∧
          (run.success = false ↔ twoCommands.options.errorMode ≠ .ignoreErrors)) :=
  applyEnvironmentControl_obeysLimits twoCommands consoleState (by decide)

def withoutName : Setting :=
  { twoCommands with options := { namePrefix := [] } }

/-- Nothing failed, and the result is false. -/
theorem not_obeysLimits_withoutName :
    ∃ run, withoutName.applyEnvironmentControl 33 consoleState = some run ∧
      ¬ withoutName.ObeysLimits consoleState run := by
  refine ⟨_, rfl, fun h => ?_⟩
  obtain ⟨-, e, he, -⟩ := h.result.mp rfl
  exact List.not_mem_nil he

end EnvironmentControl
end Logme
