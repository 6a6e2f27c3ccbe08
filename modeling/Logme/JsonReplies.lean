import Logme.ControlBranches
import Logme.SubsystemAnswers

/-!
# Faithful JSON answers

An answer to `format json` holds the text of the plain answer.  It is faithful if its
objects have no name twice and `ok` tells the branch of the command.  It is UTF-8
exactly if the text is.
-/

namespace Logme

open Json

/-! ## UTF-8 -/

theorem lt_of_isSpaceByte : ∀ b, isSpaceByte b = true → b < 0x80 :=
  Unicode.forall_byte <| by decide +kernel

theorem lt_of_isBlankByte (b : UInt8) (h : isBlankByte b = true) : b < 0x80 :=
  lt_of_isSpaceByte b (isSpaceByte_of_isBlankByte h)

theorem utf8_trimmed {space : UInt8 → Bool} (hspace : ∀ b, space b = true → b < 0x80)
    {s : Name} (h : Utf8 s) : Utf8 (trimmed space s) := by
  have hfront := h.dropWhile hspace
  have hback := List.takeWhile_append_dropWhile (p := space) (l := (s.dropWhile space).reverse)
  rw [← List.reverse_inj, List.reverse_append, List.reverse_reverse] at hback
  rw [← hback, utf8_append_ascii_iff] at hfront
  · exact hfront
  · exact fun b hb => hspace b (List.mem_takeWhile_imp (List.mem_reverse.mp hb))

theorem utf8_splitBytes {separator : UInt8 → Bool}
    (hseparator : ∀ b, separator b = true → b < 0x80) {s : Name} (h : Utf8 s) :
    ∀ piece ∈ splitBytes separator s, Utf8 piece := by
  -- `raw` is what the first piece has before `s`.
  suffices hraw : ∀ raw piece pieces, Utf8 (raw ++ s) → splitBytes separator s = piece :: pieces →
      Utf8 (raw ++ piece) ∧ ∀ piece ∈ pieces, Utf8 piece by
    obtain ⟨piece, pieces, hs⟩ := List.exists_cons_of_ne_nil (splitBytes_ne_nil separator s)
    rw [hs, List.forall_mem_cons]
    exact hraw [] piece pieces h hs
  clear h
  induction s with
  | nil =>
      intro raw piece pieces h hs
      obtain ⟨rfl, rfl⟩ := List.cons.inj hs
      exact ⟨h, nofun⟩
  | cons b s ih =>
      intro raw piece pieces h hs
      obtain ⟨first, others, hrest⟩ := List.exists_cons_of_ne_nil (splitBytes_ne_nil separator s)
      cases hb : separator b with
      | true =>
          rw [splitBytes_delimiter hb, hrest] at hs
          obtain ⟨rfl, rfl⟩ := List.cons.inj hs
          rw [utf8_append_cons_iff (hseparator b hb)] at h
          rw [List.append_nil, List.forall_mem_cons]
          exact ⟨h.1, ih [] first others h.2 hrest⟩
      | false =>
          have hcons : splitBytes separator (b :: s) = (b :: first) :: others :=
            splitBytes_append (List.forall_mem_singleton.mpr hb) hrest
          rw [hcons] at hs
          obtain ⟨rfl, rfl⟩ := List.cons.inj hs
          rw [List.append_cons] at h ⊢
          exact ih _ first others h hrest

theorem utf8_wordSplit {s : Name} (h : Utf8 s) : ∀ word ∈ wordSplit s, Utf8 word := by
  have hdelimiter : ∀ b, isDelimiterByte b = true → b < 0x80 :=
    fun b hb => lt_of_isBlankByte b (isBlankByte_of_isDelimiterByte hb)
  intro word hword
  obtain ⟨piece, hpiece, rfl⟩ := List.mem_map.mp (List.mem_filter.mp hword).1
  exact utf8_trimmed lt_of_isSpaceByte (utf8_splitBytes hdelimiter h piece hpiece)

theorem utf8_replyLines {text : Name} (h : Utf8 text) : ∀ line ∈ replyLines text, Utf8 line := by
  intro line hline
  rw [replyLines, map_trimBlanks_splitReplyLines] at hline
  obtain ⟨piece, hpiece, rfl⟩ := List.mem_map.mp hline
  refine utf8_trimmed lt_of_isBlankByte (utf8_splitBytes ?_ h piece hpiece)
  rintro b hb
  rw [of_decide_eq_true hb]
  decide

/-- What follows a title of the source. -/
theorem utf8_drop {title line : Name} (htitle : isAscii title = true)
    (hline : startsWith title line = true) (h : Utf8 line) : Utf8 (line.drop title.length) := by
  obtain ⟨rest, rfl⟩ := List.isPrefixOf_iff_prefix.mp hline
  rw [List.drop_left]
  exact (utf8_ascii_append_iff (isAscii_iff.mp htitle) rest).mp h

/-- The texts of a value. -/
def Utf8Value (value : DataValue) : Prop := value.tree.AllTexts Utf8

theorem utf8Value_stringArray {values : List Name} (h : ∀ value ∈ values, Utf8 value) :
    Utf8Value (.stringArray values) := by
  rw [Utf8Value, DataValue.tree, Tree.AllTexts, Tree.All, Tree.allItems_iff, List.forall_mem_map]
  exact h

theorem utf8Value_stringMap {values : List (Name × Name)}
    (h : ∀ value ∈ values, Utf8 value.1 ∧ Utf8 value.2) : Utf8Value (.stringMap values) := by
  rw [Utf8Value, DataValue.tree, Tree.AllTexts, Tree.All, Tree.allMembers_iff,
    List.forall_mem_map]
  exact h

/-- The reader has gathered texts in UTF-8. -/
structure SubsystemData.Utf8Texts (d : SubsystemData) : Prop where
  blocked : ∀ name ∈ d.blocked.getD [], Utf8 name
  allowed : ∀ name ∈ d.allowed.getD [], Utf8 name
  levels : ∀ item ∈ d.levels.getD [], Utf8 item.1 ∧ Utf8 item.2
  members : ∀ member ∈ d.members, Utf8Value member.2

theorem SubsystemData.Utf8Texts.readLine {d : SubsystemData} (h : d.Utf8Texts) {line : Name}
    (hline : Utf8 line) : (d.readLine line).Utf8Texts := by
  have hsingle : ∀ {name : Name} {value : DataValue}, Utf8Value value →
      Utf8Texts { d with members := d.members ++ [(name, value)], inSection := .none } :=
    fun hvalue => ⟨h.blocked, h.allowed, h.levels,
      List.forall_mem_append.mpr ⟨h.members, List.forall_mem_singleton.mpr hvalue⟩⟩
  unfold SubsystemData.readLine
  dsimp only
  refine iteInduction (fun _ => h) fun _ => ?_
  refine iteInduction (fun _ => ⟨nofun, h.allowed, h.levels, h.members⟩) fun _ => ?_
  refine iteInduction (fun _ => ⟨h.blocked, nofun, h.levels, h.members⟩) fun _ => ?_
  refine iteInduction (fun _ => ⟨h.blocked, h.allowed, nofun, h.members⟩) fun _ => ?_
  refine iteInduction (fun _ => ⟨nofun, h.allowed, h.levels, h.members⟩) fun _ => ?_
  refine iteInduction (fun _ => ⟨h.blocked, nofun, h.levels, h.members⟩) fun _ => ?_
  refine iteInduction (fun _ => ⟨h.blocked, h.allowed, nofun, h.members⟩) fun _ => ?_
  refine iteInduction (fun _ => hsingle trivial) fun _ => ?_
  refine iteInduction (fun _ => hsingle trivial) fun _ => ?_
  refine iteInduction (fun hlevel => hsingle (utf8_drop (by decide) hlevel hline)) fun _ => ?_
  cases d.inSection with
  | blocked => exact ⟨List.forall_mem_append.mpr ⟨h.blocked, List.forall_mem_singleton.mpr hline⟩,
      h.allowed, h.levels, h.members⟩
  | allowed => exact ⟨h.blocked,
      List.forall_mem_append.mpr ⟨h.allowed, List.forall_mem_singleton.mpr hline⟩,
      h.levels, h.members⟩
  | levels =>
      refine iteInduction (fun _ => h) fun _ => ?_
      have hcut := hline.cut (by decide : (0x3A : UInt8) < 0x80)
      exact ⟨h.blocked, h.allowed, List.forall_mem_append.mpr ⟨h.levels,
        List.forall_mem_singleton.mpr ⟨utf8_trimmed lt_of_isBlankByte hcut.1,
          utf8_trimmed lt_of_isBlankByte hcut.2⟩⟩, h.members⟩
  | none => exact h

theorem SubsystemData.utf8Texts_empty : Utf8Texts {} where
  blocked := List.forall_mem_nil _
  allowed := List.forall_mem_nil _
  levels := List.forall_mem_nil _
  members := List.forall_mem_nil _

theorem utf8Value_subsystemMembers {text : Name} (h : Utf8 text) :
    ∀ member ∈ subsystemMembers text, Utf8Value member.2 := by
  unfold subsystemMembers
  dsimp only
  rw [← List.foldl_map (f := trimBlanks) (g := SubsystemData.readLine), ← replyLines]
  have hlines := utf8_replyLines h
  have hdata : ((replyLines text).foldl SubsystemData.readLine {}).Utf8Texts := by
    have hrun : ∀ (lines : List Name) (d : SubsystemData), (∀ line ∈ lines, Utf8 line) →
        d.Utf8Texts → (lines.foldl SubsystemData.readLine d).Utf8Texts := by
      intro lines
      induction lines with
      | nil => exact fun d _ hd => hd
      | cons line lines ih =>
          intro d hlines hd
          rw [List.forall_mem_cons] at hlines
          exact ih _ hlines.2 (hd.readLine hlines.1)
    exact hrun _ {} hlines SubsystemData.utf8Texts_empty
  generalize (replyLines text).foldl SubsystemData.readLine {} = d at hdata ⊢
  intro member hmember
  simp only [List.mem_append, Option.mem_toList, Option.map_eq_some_iff] at hmember
  rcases hmember with ((hmember | ⟨_, hlist, rfl⟩) | ⟨_, hlist, rfl⟩) | ⟨_, hlist, rfl⟩
  · exact hdata.members member hmember
  · exact utf8Value_stringArray fun name hname => hdata.blocked name (by rwa [hlist])
  · exact utf8Value_stringArray fun name hname => hdata.allowed name (by rwa [hlist])
  · exact utf8Value_stringMap fun item hitem => hdata.levels item (by rwa [hlist])

theorem utf8Value_listMembers {text : Name} (h : Utf8 text) :
    ∀ member ∈ listMembers text, Utf8Value member.2 := by
  refine List.forall_mem_singleton.mpr (utf8Value_stringArray fun name hname => ?_)
  obtain ⟨line, hline, rfl⟩ := List.mem_map.mp hname
  split
  next => exact utf8_nil
  next => exact utf8_replyLines h line (List.mem_filter.mp hline).1

/-- What follows a title in the first line. -/
theorem utf8_firstLine {title text : Name} (htitle : isAscii title = true) (h : Utf8 text)
    (hline : startsWith title (trimBlanks (firstLine text)) = true) :
    Utf8 (trimBlanks ((trimBlanks (firstLine text)).drop title.length)) := by
  have hcut := h.cut (by decide : (0x0A : UInt8) < 0x80)
  exact utf8_trimmed lt_of_isBlankByte
    (utf8_drop htitle hline (utf8_trimmed lt_of_isBlankByte hcut.1))

theorem utf8Value_flagsMembers {text : Name} (h : Utf8 text) :
    ∀ member ∈ flagsMembers text, Utf8Value member.2 := by
  have hpair : ∀ (value : Nat) (names : List Name), (∀ name ∈ names, Utf8 name) →
      ∀ member ∈ [(ascii "value", DataValue.int value), (ascii "names", .stringArray names)],
        Utf8Value member.2 :=
    fun value names hnames => List.forall_mem_cons.mpr
      ⟨trivial, List.forall_mem_singleton.mpr (utf8Value_stringArray hnames)⟩
  unfold flagsMembers
  dsimp only
  split
  next hline =>
    have hrest := utf8_firstLine (by decide) h hline
    have hcut := hrest.cut (by decide : (0x20 : UInt8) < 0x80)
    exact hpair _ _ (utf8_wordSplit (utf8_trimmed lt_of_isBlankByte hcut.2))
  next => exact nofun

theorem utf8Value_levelMembers {text : Name} (h : Utf8 text) :
    ∀ member ∈ levelMembers text, Utf8Value member.2 := by
  unfold levelMembers
  dsimp only
  split
  next hline =>
    split
    next => exact nofun
    next => exact List.forall_mem_singleton.mpr (utf8_firstLine (by decide) h hline)
  next => exact nofun

theorem utf8Value_dataMembers (remainder : Name) {text : Name} (h : Utf8 text) :
    ∀ member ∈ dataMembers remainder text, Utf8Value member.2 := by
  unfold dataMembers
  split
  next => exact nofun
  split
  next => exact utf8Value_subsystemMembers h
  split
  next => exact utf8Value_listMembers h
  split
  next => exact utf8Value_flagsMembers h
  split
  next => exact utf8Value_levelMembers h
  next => exact nofun

theorem utf8_errorText {text : Name} (hfailed : isOk text = false) (h : Utf8 text) :
    Utf8 (errorText text) := by
  have htitle : isAscii (ascii "error:") = true := by decide
  have hrest := utf8_drop htitle (by simpa [isOk] using hfailed) h
  exact hrest.dropWhile fun b hb => lt_of_isBlankByte b (by grind [isBlankByte])

/-- An answer is UTF-8 exactly if the text is. -/
theorem utf8_jsonReply_iff (remainder text : Name) :
    Utf8 (jsonReply remainder text) ↔ Utf8 text := by
  rw [jsonReply_eq_writeTree, controlEscape_faithful.utf8_writeTree_iff controlEscape_keepsUtf8]
  have hdata : (Tree.object (dataTree remainder text)).AllTexts Utf8 ↔ Utf8 text := by
    rw [Tree.AllTexts, Tree.All, Tree.allMembers_iff]
    constructor
    · intro h
      have hmem : memberTree (ascii "text", .string text) ∈ dataTree remainder text := by
        rw [dataTree, List.map_append]
        exact List.mem_append_right _ List.mem_cons_self
      exact (h _ hmem).2
    · intro h member hmember
      rw [dataTree] at hmember
      obtain ⟨value, hvalue, rfl⟩ := List.mem_map.mp hmember
      rcases List.mem_append.mp hvalue with hvalue | hvalue
      · split at hvalue
        next =>
          refine ⟨utf8_of_isAscii ?_, utf8Value_dataMembers remainder h value hvalue⟩
          have hnames : ∀ name ∈ dataNames, isAscii name = true := by decide
          exact hnames _ (dataMembers_names remainder text value hvalue)
        next => cases hvalue
      · rw [List.mem_singleton.mp hvalue]
        have htitle : isAscii (ascii "text") = true := by decide
        exact ⟨utf8_of_isAscii htitle, h⟩
  have htitles : ∀ name ∈ [ascii "ok", ascii "error", ascii "data"], Utf8 name :=
    fun name hname => utf8_of_isAscii
      ((by decide : ∀ name ∈ [ascii "ok", ascii "error", ascii "data"], isAscii name = true)
        name hname)
  rw [Tree.AllTexts, Tree.All, Tree.allMembers_iff, ← hdata]
  constructor
  · intro h
    exact (h (ascii "data", .object (dataTree remainder text)) (by simp [replyTree])).2
  · intro h
    have herror : (if isOk text then Tree.null else .string (errorText text)).All
        (fun _ => True) Utf8 := by
      split
      next => trivial
      next hfailed => exact utf8_errorText (by simpa using hfailed) (hdata.mp h)
    simp only [List.forall_mem_cons, List.not_mem_nil, false_implies, implies_true, and_true]
      at htitles
    unfold replyTree
    rw [List.forall_mem_cons, List.forall_mem_cons, List.forall_mem_singleton]
    exact ⟨⟨htitles.1, trivial⟩, ⟨htitles.2.1, herror⟩, htitles.2.2, h⟩

/-! ## Faithful answers -/

/-- The answer is an object with distinct names, `ok` tells whether the command has
failed, and the text in the data is the plain answer. -/
def FaithfulReply (reply plain : Name) (failed : Bool) : Prop :=
  ∃ members data, IsObject reply members ∧ (Tree.object members).DistinctNames ∧
    (ascii "ok", Tree.bool !failed) ∈ members ∧ (ascii "data", Tree.object data) ∈ members ∧
    (ascii "text", Tree.string plain) ∈ data

theorem faithfulReply_iff (remainder text : Name) (failed : Bool) :
    FaithfulReply (jsonReply remainder text) text failed ↔
      (isOk text = true → AsksSubsystem remainder → DistinctAnswers text) ∧
        isOk text = !failed := by
  have hobject := @isObject_jsonReply remainder text [] nofun
  rw [List.append_nil] at hobject
  rw [← distinctNames_replyTree_iff]
  constructor
  · rintro ⟨members, data, hread, hdistinct, hok, -, -⟩
    rw [hread.unique hobject] at hdistinct hok
    refine ⟨hdistinct, ?_⟩
    simp only [replyTree, List.mem_cons, List.not_mem_nil, or_false, Prod.mk.injEq,
      Tree.bool.injEq] at hok
    rcases hok with ⟨-, hok⟩ | ⟨hname, -⟩ | ⟨hname, -⟩
    · exact hok.symm
    · exact absurd hname (by decide)
    · exact absurd hname (by decide)
  · rintro ⟨hdistinct, hok⟩
    refine ⟨_, dataTree remainder text, hobject, hdistinct, ?_, ?_, ?_⟩
    · rw [← hok]
      exact List.mem_cons_self
    · exact List.mem_cons_of_mem _ (List.mem_cons_of_mem _ List.mem_cons_self)
    · rw [dataTree, List.map_append]
      exact List.mem_append_right _ List.mem_cons_self

/-! ## The two formats -/

section Formats

variable {env : ControlEnvironment} {extension : Option ControlExtension}
  {policy : ControlPolicy} {s : ControlState}

theorem splitRemainderAfterWords_zero (command : Name) :
    splitRemainderAfterWords command 0 = command.dropWhile isBlankByte := by
  unfold splitRemainderAfterWords
  induction command with
  | nil => rfl
  | cons c command ih =>
      cases hc : isBlankByte c with
      | true => rw [remainderFrom_blank _ _ _ hc, List.dropWhile_cons_of_pos hc, ih]
      | false => rw [remainderFrom_zero _ hc, List.dropWhile_cons_of_neg (by simp [hc])]

theorem control_formatText (hallowed : policy.allowFormatCommand = true) (command : Name) :
    control env extension policy s (ascii "format text " ++ command) =
      controlInternal env extension policy s (command.dropWhile isBlankByte) := by
  have hwords : wordSplit (toLowerAscii (ascii "format text " ++ command)) =
      ascii "format" :: ascii "text" :: wordSplit (toLowerAscii command) := rfl
  have hrest : splitRemainderAfterWords (ascii "format text " ++ command) 2 =
      splitRemainderAfterWords command 0 := rfl
  have hreject : ¬ policy.allowFormatCommand = false := by simp [hallowed]
  have hjson : ascii "text" ≠ ascii "json" := by decide
  rw [control, hwords]
  dsimp only
  rw [if_pos rfl, if_neg hreject, if_neg hjson, if_pos (.inl rfl), hrest,
    splitRemainderAfterWords_zero]

/-- `format json` and `format text` pass the same command on. -/
theorem control_formatJson (hallowed : policy.allowFormatCommand = true) (command : Name) :
    (control env extension policy s (ascii "format json " ++ command)).response =
      jsonReply (command.dropWhile isBlankByte)
        (control env extension policy s (ascii "format text " ++ command)).response := by
  have hwords : wordSplit (toLowerAscii (ascii "format json " ++ command)) =
      ascii "format" :: ascii "json" :: wordSplit (toLowerAscii command) := rfl
  have hrest : splitRemainderAfterWords (ascii "format json " ++ command) 2 =
      splitRemainderAfterWords command 0 := rfl
  have hreject : ¬ policy.allowFormatCommand = false := by simp [hallowed]
  rw [control_formatText hallowed, control, hwords]
  dsimp only
  rw [if_pos rfl, if_neg hreject, if_pos rfl, hrest, splitRemainderAfterWords_zero]

/-- A command that asks for no format, with no blanks before it. -/
structure AsksPlainly (command : Name) : Prop where
  format : (wordSplit (toLowerAscii command)).head? ≠ some (ascii "format")
  blank : ∀ c ∈ command.head?, isBlankByte c = false

theorem control_plain (hallowed : policy.allowFormatCommand = true) {command : Name}
    (hplainly : AsksPlainly command) :
    control env extension policy s command =
      control env extension policy s (ascii "format text " ++ command) := by
  obtain ⟨hformat, hblank⟩ := hplainly
  have hsame : command.dropWhile isBlankByte = command := by
    cases command with
    | nil => rfl
    | cons c command => exact List.dropWhile_cons_of_neg (by simp [hblank c rfl])
  rw [control_formatText hallowed, hsame, control]
  split
  next first format words hwords =>
    rw [hwords] at hformat
    rw [if_neg fun hfirst => hformat (congrArg some hfirst)]
  next => rfl

end Formats

theorem asksSubsystem_dropWhile (command : Name) :
    AsksSubsystem (command.dropWhile isBlankByte) ↔ AsksSubsystem command := by
  have hblanks : ∀ c ∈ command.takeWhile isBlankByte, isSpaceByte c = true :=
    fun c hc => isSpaceByte_of_isBlankByte (List.mem_takeWhile_imp hc)
  have hwords : wordSplit command = wordSplit (command.dropWhile isBlankByte) := by
    conv_lhs => rw [← List.takeWhile_append_dropWhile (p := isBlankByte) (l := command)]
    exact wordSplit_spaces hblanks _
  rw [AsksSubsystem, AsksSubsystem, wordSplit_toLowerAscii, wordSplit_toLowerAscii, hwords]

section Answers

variable (env : ControlEnvironment) (extension : Option ControlExtension)
  (policy : ControlPolicy) (s : ControlState) (command : Name)

def jsonAnswer : Name :=
  (control env extension policy s (ascii "format json " ++ command)).response

def plainAnswer : Name :=
  (control env extension policy s (ascii "format text " ++ command)).response

/-- The branch of a command after `format`, and what stands in the response before. -/
def formatBranch : ReplyBranch × Name :=
  controlBranch env extension policy s (command.dropWhile isBlankByte)

end Answers

/-- The JSON answer of a command is faithful exactly if the beginning of the response
tells the branch, and a `subsystem` that succeeds has distinct names in its text. -/
theorem json_answer_iff (env : ControlEnvironment) (figures : RuntimeFigures)
    (extension : Option ControlExtension) (policy : ControlPolicy) (s : ControlState)
    (command : Name) (hallowed : policy.allowFormatCommand = true) :
    let environment := env.reporting figures
    let answer := jsonAnswer environment extension policy s command
    let plain := plainAnswer environment extension policy s command
    let branch := formatBranch environment extension policy s command
    (FaithfulReply answer plain branch.1.failed ↔
      branch.1.Told branch.2 ∧
        (branch.1.failed = false → AsksSubsystem command → DistinctAnswers plain)) ∧
      (Utf8 answer ↔ Utf8 plain) ∧
      (AsksPlainly command →
        (control environment extension policy s command).response = plain) := by
  intro environment answer plain branch
  have htold : isOk plain = !branch.1.failed ↔ branch.1.Told branch.2 := by
    have hgives := @controlInternal_gives env figures s extension policy
      (command.dropWhile isBlankByte)
    rw [← control_formatText hallowed] at hgives
    exact hgives.isOk_iff
  have hanswer : answer = jsonReply (command.dropWhile isBlankByte) plain :=
    control_formatJson hallowed command
  rw [hanswer, faithfulReply_iff, asksSubsystem_dropWhile, ← htold]
  refine ⟨?_, utf8_jsonReply_iff _ plain,
    fun hplainly => congrArg Executed.response (control_plain hallowed hplainly)⟩
  rw [and_comm]
  refine and_congr_right fun hok => ?_
  rw [hok, Bool.not_eq_true']

/-- The answer to `version` is faithful. -/
theorem json_answer_iff_version :
    ControlPolicy.full.allowFormatCommand = true ∧
      FaithfulReply
        (jsonAnswer (plainEnvironment.reporting freshFigures) none .full consoleState
          (ascii "version"))
        (plainAnswer (plainEnvironment.reporting freshFigures) none .full consoleState
          (ascii "version"))
        (formatBranch (plainEnvironment.reporting freshFigures) none .full consoleState
          (ascii "version")).1.failed :=
  ⟨rfl, (json_answer_iff plainEnvironment freshFigures none .full consoleState
    (ascii "version") rfl).1.mpr ⟨rfl, fun _ hasks => absurd hasks (by decide)⟩⟩

/-- A home directory with a log file that begins with an error. -/
def errorLogEnvironment : ControlEnvironment :=
  { plainEnvironment with
    disk := ⟨[(ascii "h", .directory
      [(ascii "a.log", .file (ascii "error: disk full") 0 true)])], [ascii "h"], by decide⟩
    home := CmdLogs.setHomeDirectory (ascii "/h") }

/-- The tail of this file is shown, and `ok` is false. -/
theorem tail_of_error_not_ok :
    ¬ FaithfulReply
      (jsonAnswer (errorLogEnvironment.reporting freshFigures) none .full consoleState
        (ascii "logs --tail a.log"))
      (plainAnswer (errorLogEnvironment.reporting freshFigures) none .full consoleState
        (ascii "logs --tail a.log"))
      (formatBranch (errorLogEnvironment.reporting freshFigures) none .full consoleState
        (ascii "logs --tail a.log")).1.failed := by
  intro h
  rw [jsonAnswer, control_formatJson rfl] at h
  have hok := ((faithfulReply_iff _ _ _).mp h).2
  revert hok
  decide +kernel

end Logme
