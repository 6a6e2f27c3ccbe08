import Logme.ControlAnswers
import Logme.ControlJson
import Logme.ControlPermissions

/-!
# The lists in structured answers

For JSON the text of an answer is read again: its lines are trimmed, and a line
is a name, a title or a marker.  A structured answer therefore has the lists of
the logger for names that are lines of their own and that the reader does not
take for something else.
-/

namespace Logme

open Json

/-! ## Lines -/

/-- The lines of a text, each of which may contain line ends itself. -/
theorem splitBytes_flatMap (lines : List Name) :
    splitBytes (· = 0x0A) (lines.flatMap (· ++ CmdLogs.newline)) =
      lines.flatMap (splitBytes (· = 0x0A)) ++ [[]] := by
  induction lines with
  | nil => rfl
  | cons line lines ih =>
      rw [List.flatMap_cons, List.flatMap_cons, CmdLogs.newline, List.append_assoc,
        List.singleton_append, splitBytes_terminated (by decide), ← CmdLogs.newline, ih,
        List.append_assoc]

theorem notMem_of_mem_splitBytes {d : UInt8 → Bool} {s piece : Name}
    (h : piece ∈ splitBytes d s) : ∀ c ∈ piece, d c = false := by
  induction s generalizing piece with
  | nil =>
      rw [List.mem_singleton.mp h]
      exact fun c hc => absurd hc List.not_mem_nil
  | cons b s ih =>
      obtain ⟨first, pieces, hs⟩ := List.exists_cons_of_ne_nil (splitBytes_ne_nil d s)
      have hall : ∀ piece ∈ first :: pieces, ∀ c ∈ piece, d c = false :=
        fun piece hpiece => ih (hs ▸ hpiece)
      rw [splitBytes, hs] at h
      split at h
      next =>
        rcases List.mem_cons.mp h with rfl | h
        · exact fun c hc => absurd hc List.not_mem_nil
        · exact hall piece h
      next hb =>
        rcases List.mem_cons.mp h with rfl | h
        · intro c hc
          rcases List.mem_cons.mp hc with rfl | hc
          · simpa using hb
          · exact hall first List.mem_cons_self c hc
        · exact hall piece (List.mem_cons_of_mem _ h)

/-! ## Trimming -/

/-- What begins and ends with something else than spaces stays as it is. -/
theorem trimmed_eq_self_iff {space : UInt8 → Bool} {s : Name} :
    trimmed space s = s ↔
      (∀ c ∈ s.head?, space c = false) ∧ ∀ c ∈ s.getLast?, space c = false := by
  have hdrop : ∀ s : Name, s.dropWhile space = s ↔ ∀ c ∈ s.head?, space c = false := by
    intro s
    cases s with
    | nil => simp
    | cons c s =>
        rw [List.dropWhile_cons]
        cases hc : space c with
        | false => simp [hc]
        | true =>
            refine iff_of_false (fun heq => ?_) (by simp [hc])
            have hle := (List.dropWhile_sublist (l := s) space).length_le
            rw [if_pos rfl] at heq
            rw [heq, List.length_cons] at hle
            omega
  rw [← hdrop, trimmed]
  constructor
  · intro h
    have hlength := congrArg List.length h
    rw [List.length_reverse] at hlength
    have hback := (List.dropWhile_sublist (l := (s.dropWhile space).reverse) space).length_le
    have hfront := (List.dropWhile_sublist (l := s) space)
    rw [List.length_reverse] at hback
    have hs : s.dropWhile space = s := hfront.eq_of_length_le (by omega)
    refine ⟨hs, fun c hc => ?_⟩
    rw [hs] at h
    have hreverse : s.reverse.dropWhile space = s.reverse := by
      rw [← List.reverse_inj, List.reverse_reverse, h]
    exact (hdrop s.reverse).mp hreverse c (by rwa [List.head?_reverse])
  · rintro ⟨hs, hlast⟩
    rw [hs, (hdrop s.reverse).mpr (by rwa [List.head?_reverse]), List.reverse_reverse]

theorem trimmed_subset (space : UInt8 → Bool) (s : Name) : trimmed space s ⊆ s := by
  intro c hc
  have hback := List.mem_reverse.mp (List.dropWhile_subset _ (List.mem_reverse.mp hc))
  exact List.dropWhile_subset _ hback

theorem trimmed_trimmed (space : UInt8 → Bool) (s : Name) :
    trimmed space (trimmed space s) = trimmed space s := by
  have hfirst : ∀ (l : Name), ∀ c ∈ (l.dropWhile space).head?, space c = false := by
    intro l c hc
    have hnot := List.head?_dropWhile_not space l
    rw [Option.mem_def.mp hc] at hnot
    exact hnot
  rw [trimmed_eq_self_iff]
  constructor
  · intro c hc
    have hprefix : trimmed space s <+: s.dropWhile space := by
      rw [← List.reverse_suffix, trimmed, List.reverse_reverse]
      exact List.dropWhile_suffix _
    obtain ⟨rest, hrest⟩ := hprefix
    refine hfirst s c ?_
    rw [← hrest, List.head?_append, Option.mem_def.mp hc]
    rfl
  · intro c hc
    rw [trimmed, List.getLast?_reverse] at hc
    exact hfirst _ c hc

theorem trimmed_concat {space : UInt8 → Bool} {c : UInt8} (hc : space c = true) (s : Name) :
    trimmed space (s ++ [c]) = trimmed space s := by
  rw [trimmed, trimmed, List.dropWhile_append]
  split
  next hall =>
    rw [List.isEmpty_iff.mp hall]
    simp [hc]
  next => rw [List.reverse_append, List.reverse_singleton, List.singleton_append,
    List.dropWhile_cons_of_pos hc]

theorem trimmed_append_left {space : UInt8 → Bool} {run : Name}
    (hrun : run.all space = true) (s : Name) :
    trimmed space (run ++ s) = trimmed space s := by
  induction run with
  | nil => rfl
  | cons c run ih =>
      rw [List.all_cons, Bool.and_eq_true] at hrun
      rw [List.cons_append, trimmed_cons hrun.1, ih hrun.2]

/-- The return that `SplitLines` removes would be trimmed as well. -/
theorem map_trimBlanks_splitReplyLines (s : Name) :
    (splitReplyLines s).map trimBlanks = (splitBytes (· = 0x0A) s).map trimBlanks := by
  rw [splitReplyLines, List.map_map]
  refine List.map_congr_left fun line _ => ?_
  rw [Function.comp]
  split
  next hreturn =>
    conv_rhs => rw [← List.dropLast_append_getLast? _ hreturn]
    exact (trimmed_concat (by decide) _).symm
  next => rfl

/-- What the reader gets from the lines of a text: the last one is empty. -/
theorem readLines_eq (lines : List Name) :
    (splitReplyLines (lines.flatMap (· ++ CmdLogs.newline))).map trimBlanks =
      (lines.flatMap fun line => (splitBytes (· = 0x0A) line).map trimBlanks) ++ [[]] := by
  rw [map_trimBlanks_splitReplyLines, splitBytes_flatMap, List.map_append, List.map_flatMap]
  rfl

/-- A name that is a line of its own. -/
structure LineName (name : Name) : Prop where
  nonempty : name ≠ []
  oneLine : 0x0A ∉ name
  trimmed : trimBlanks name = name

/-- A piece of a text, trimmed, is a name unless nothing is left. -/
theorem lineName_of_piece {text piece : Name} (h : piece ∈ splitBytes (· = 0x0A) text)
    (hne : trimBlanks piece ≠ []) : LineName (trimBlanks piece) where
  nonempty := hne
  oneLine hmem := by
    have hnot := notMem_of_mem_splitBytes h 0x0A (trimmed_subset _ _ hmem)
    simp at hnot
  trimmed := trimmed_trimmed _ _

theorem LineName.pieces {name : Name} (h : LineName name) :
    splitBytes (· = 0x0A) name = [name] :=
  splitBytes_of_notMem fun c hc => by
    simp only [decide_eq_false_iff_not]
    rintro rfl
    exact h.oneLine hc

theorem LineName.of_trimSpaces {name : Name} (hne : name ≠ []) (hline : 0x0A ∉ name)
    (h : trimSpaces name = name) : LineName name where
  nonempty := hne
  oneLine := hline
  trimmed := by
    obtain ⟨hhead, hlast⟩ := trimmed_eq_self_iff.mp h
    have hblank : ∀ c, isSpaceByte c = false → isBlankByte c = false := by
      intro c hc
      by_contra hblank
      rw [isSpaceByte_of_isBlankByte (by simpa using hblank)] at hc
      cases hc
    exact trimmed_eq_self_iff.mpr
      ⟨fun c hc => hblank c (hhead c hc), fun c hc => hblank c (hlast c hc)⟩

theorem readLines_of_lineNames {lines : List Name} (h : ∀ line ∈ lines, LineName line) :
    (splitReplyLines (lines.flatMap (· ++ CmdLogs.newline))).map trimBlanks = lines ++ [[]] := by
  have hlines : ∀ line ∈ lines, (splitBytes (· = 0x0A) line).map trimBlanks = [line] := by
    intro line hline
    rw [(h line hline).pieces, List.map_singleton, (h line hline).trimmed]
  rw [readLines_eq, List.flatMap_congr hlines, List.flatMap_singleton']

/-! ## The channels -/

/-- A channel name that is read as it is: a line that has no spaces to trim and is
not the name of the default channel. -/
structure ReadableChannel (name : Name) : Prop where
  nonempty : name ≠ []
  oneLine : 0x0A ∉ name
  trimmed : trimSpaces name = name
  notDefault : name ≠ defaultName

/-- The channel that a line of `list` is read as. -/
def channelOfLine (line : Name) : Name := if line = defaultName then [] else line

theorem mem_wordSplitBy {s word : Name} (h : word ∈ wordSplitBy (· = 0x0A) s) :
    word ≠ [] ∧ 0x0A ∉ word ∧ trimSpaces word = word := by
  obtain ⟨hpieces, hne⟩ := List.mem_filter.mp h
  obtain ⟨piece, hpiece, rfl⟩ := List.mem_map.mp hpieces
  refine ⟨by simpa using hne, fun hmem => ?_, trimmed_trimmed _ _⟩
  have hnot := notMem_of_mem_splitBytes hpiece 0x0A (trimmed_subset _ _ hmem)
  simp at hnot

theorem wordSplitBy_flatMap (lines : List Name) :
    wordSplitBy (· = 0x0A) (lines.flatMap (· ++ CmdLogs.newline)) =
      lines.flatMap (wordSplitBy (· = 0x0A)) := by
  unfold wordSplitBy
  rw [splitBytes_flatMap, List.map_append, List.filter_append, List.map_flatMap,
    List.filter_flatMap]
  exact List.append_nil _

theorem ReadableChannel.words {name : Name} (h : ReadableChannel name) :
    wordSplitBy (· = 0x0A) name = [name] := by
  have hline := LineName.of_trimSpaces h.nonempty h.oneLine h.trimmed
  rw [wordSplitBy, hline.pieces, List.map_singleton, h.trimmed]
  simp [h.nonempty]

/-- The lines of `list`: the default channel and the lines of all names. -/
def channelLines (names : List Name) : List Name :=
  defaultName :: names.flatMap (wordSplitBy (· = 0x0A))

theorem wordSplitBy_channels (names : List Name) :
    wordSplitBy (· = 0x0A) ((defaultName :: names).flatMap (· ++ CmdLogs.newline)) =
      channelLines names := by
  rw [wordSplitBy_flatMap, List.flatMap_cons]
  rfl

theorem commandList_eq (s : ControlState) :
    (commandList s []).2 =
      sortLines ((defaultName :: s.logger.channels.map Prod.fst).flatMap
        (· ++ CmdLogs.newline)) := by
  rw [commandList, List.flatMap_cons, List.flatMap_map, List.nil_append]

theorem lineName_of_mem_channelLines {names : List Name} {line : Name}
    (h : line ∈ channelLines names) : LineName line := by
  rcases List.mem_cons.mp h with rfl | h
  · exact ⟨by decide, by decide, by decide⟩
  · obtain ⟨name, _, hword⟩ := List.mem_flatMap.mp h
    obtain ⟨hne, hline, htrimmed⟩ := mem_wordSplitBy hword
    exact .of_trimSpaces hne hline htrimmed

/-- The values of `channels`. -/
theorem listMembers_eq (s : ControlState) :
    listMembers (commandList s []).2 = [(ascii "channels", .stringArray
      (((channelLines (s.logger.channels.map Prod.fst)).insertionSort (· ≤ ·)).map
        channelOfLine))] := by
  have hsorted : ∀ line ∈ (channelLines (s.logger.channels.map Prod.fst)).insertionSort (· ≤ ·),
      LineName line :=
    fun line hline => lineName_of_mem_channelLines ((List.mem_insertionSort _).mp hline)
  rw [commandList_eq, sortLines, wordSplitBy_channels, listMembers,
    readLines_of_lineNames hsorted, List.filter_append, List.filter_eq_self.mpr,
    List.filter_cons_of_neg (by simp), List.filter_nil, List.append_nil]
  · rfl
  · exact fun line hline => by simpa using (hsorted line hline).nonempty

/-- The first line of `list` does not come after the default channel. -/
theorem isOk_commandList (s : ControlState) : isOk (commandList s []).2 = true := by
  rw [commandList_eq, sortLines, wordSplitBy_channels]
  generalize hlines : (channelLines (s.logger.channels.map Prod.fst)).insertionSort (· ≤ ·) = lines
  have hmem : defaultName ∈ lines := by
    rw [← hlines, List.mem_insertionSort]
    exact List.mem_cons_self
  have hpairwise : lines.Pairwise (· ≤ ·) := by
    rw [← hlines]
    exact List.pairwise_insertionSort _ _
  have hnames : ∀ line ∈ lines, line ≠ [] := by
    intro line hline
    rw [← hlines, List.mem_insertionSort] at hline
    exact (lineName_of_mem_channelLines hline).nonempty
  cases lines with
  | nil => cases hmem
  | cons first rest =>
      have hle : first ≤ defaultName := by
        rcases List.mem_cons.mp hmem with heq | hrest
        · exact heq ▸ List.le_refl _
        · exact (List.pairwise_cons.mp hpairwise).1 _ hrest
      obtain ⟨c, tail, rfl⟩ := List.exists_cons_of_ne_nil (hnames first List.mem_cons_self)
      have hc : c ≤ 0x3C := by
        by_contra hgt
        exact hle (List.Lex.rel (UInt8.not_le.mp hgt))
      have hne : c ≠ 0x65 := by
        rintro rfl
        exact absurd hc (by decide)
      rw [isOk, startsWith, List.flatMap_cons, List.cons_append, List.cons_append]
      simp [ascii, List.isPrefixOf, Ne.symm hne]

/-- A name that comes back is readable, unless it is empty. -/
theorem readable_of_mem_channelLines {names : List Name} {name : Name} (hne : name ≠ [])
    (h : name ∈ (names.flatMap (wordSplitBy (· = 0x0A))).map channelOfLine) :
    ReadableChannel name := by
  obtain ⟨line, hline, hname⟩ := List.mem_map.mp h
  obtain ⟨_, _, hword⟩ := List.mem_flatMap.mp hline
  obtain ⟨_, honeLine, htrimmed⟩ := mem_wordSplitBy hword
  unfold channelOfLine at hname
  split at hname
  next => exact absurd hname.symm hne
  next hdefault =>
    subst hname
    exact ⟨hne, honeLine, htrimmed, hdefault⟩

theorem words_of_readable {names : List Name} (h : ∀ name ∈ names, ReadableChannel name) :
    (names.flatMap (wordSplitBy (· = 0x0A))).map channelOfLine = names := by
  rw [List.flatMap_congr fun name hname => (h name hname).words, List.flatMap_singleton']
  refine (List.map_congr_left fun name hname => ?_).trans (List.map_id names)
  exact if_neg (h name hname).notDefault

/-- The channels are exactly the channels of the logger if all names are
readable. -/
theorem channels_perm_iff (names : List Name) :
    (((channelLines names).insertionSort (· ≤ ·)).map channelOfLine).Perm ([] :: names) ↔
      ∀ name ∈ names, ReadableChannel name := by
  have hsorted : (((channelLines names).insertionSort (· ≤ ·)).map channelOfLine).Perm
      ([] :: (names.flatMap (wordSplitBy (· = 0x0A))).map channelOfLine) :=
    (List.perm_insertionSort (· ≤ ·) (channelLines names)).map channelOfLine
  rw [List.Perm.congr_left hsorted, List.perm_cons]
  constructor
  · intro hperm
    have hnonempty : ∀ name ∈ names.filter (· ≠ []), ReadableChannel name := by
      intro name hname
      obtain ⟨hmem, hne⟩ := List.mem_filter.mp hname
      exact readable_of_mem_channelLines (by simpa using hne) (hperm.mem_iff.mpr hmem)
    -- The empty names have no line at all.
    have hwords : names.flatMap (wordSplitBy (· = 0x0A)) =
        (names.filter (· ≠ [])).flatMap (wordSplitBy (· = 0x0A)) := by
      clear hperm hnonempty hsorted
      induction names with
      | nil => rfl
      | cons name names ih =>
          by_cases hne : name = []
          · subst hne
            rw [List.flatMap_cons, ih, List.filter_cons_of_neg (by simp)]
            rfl
          · rw [List.flatMap_cons, ih, List.filter_cons_of_pos (by simpa using hne),
              List.flatMap_cons]
    rw [hwords, words_of_readable hnonempty] at hperm
    have hall := List.filter_sublist.eq_of_length hperm.length_eq
    rwa [hall] at hnonempty
  · intro h
    rw [words_of_readable h]

/-! ## The lists of subsystems -/

/-- A subsystem name that is read as it is in a list. -/
structure ReadableSubsystem (name : Name) : Prop extends LineName name where
  notLevel : ¬ startsWith (ascii "Level: ") name = true

/-- A subsystem name that is read as it is before its level. -/
structure ReadableLevelName (name : Name) : Prop extends LineName name where
  noColon : 0x3A ∉ name

/-- The names that make a line with a level look like the answer of a check. -/
def markers : List Name := [ascii "Blocked", ascii "Allowed", ascii "Level"]

/-- What one line does. -/
inductive SubsystemData.Reads (d : SubsystemData) (line : Name) : SubsystemData → Prop
  | same : Reads d line d
  | blockedTitle (sec : SubsystemSection) :
      Reads d line { d with blocked := some [], inSection := sec }
  | allowedTitle (sec : SubsystemSection) :
      Reads d line { d with allowed := some [], inSection := sec }
  | levelsTitle (sec : SubsystemSection) :
      Reads d line { d with levels := some [], inSection := sec }
  | single (name : Name) (value : DataValue)
      (hname : name ∈ [ascii "blocked", ascii "allowed", ascii "level"]) :
      Reads d line { d with members := d.members ++ [(name, value)], inSection := .none }
  | blocked (hline : line ≠ []) (hlevel : ¬ startsWith (ascii "Level: ") line = true) :
      Reads d line { d with blocked := some (d.blocked.getD [] ++ [line]), inSection := .blocked }
  | allowed (hline : line ≠ []) (hlevel : ¬ startsWith (ascii "Level: ") line = true) :
      Reads d line { d with allowed := some (d.allowed.getD [] ++ [line]), inSection := .allowed }
  | level (level : Name) (hname : trimBlanks (line.takeWhile (· ≠ 0x3A)) ≠ []) :
      Reads d line { d with
        levels := some (d.levels.getD [] ++ [(trimBlanks (line.takeWhile (· ≠ 0x3A)), level)])
        inSection := .levels }

theorem SubsystemData.reads_readLine (d : SubsystemData) (line : Name) :
    d.Reads line (d.readLine line) := by
  generalize hread : d.readLine line = d'
  unfold readLine at hread
  dsimp only at hread
  rcases ite_eq_iff.mp hread with ⟨-, rfl⟩ | ⟨hline, hread⟩
  · exact .same
  rcases ite_eq_iff.mp hread with ⟨-, rfl⟩ | ⟨-, hread⟩
  · exact .blockedTitle .none
  rcases ite_eq_iff.mp hread with ⟨-, rfl⟩ | ⟨-, hread⟩
  · exact .allowedTitle .none
  rcases ite_eq_iff.mp hread with ⟨-, rfl⟩ | ⟨-, hread⟩
  · exact .levelsTitle .none
  rcases ite_eq_iff.mp hread with ⟨-, rfl⟩ | ⟨-, hread⟩
  · exact .blockedTitle .blocked
  rcases ite_eq_iff.mp hread with ⟨-, rfl⟩ | ⟨-, hread⟩
  · exact .allowedTitle .allowed
  rcases ite_eq_iff.mp hread with ⟨-, rfl⟩ | ⟨-, hread⟩
  · exact .levelsTitle .levels
  rcases ite_eq_iff.mp hread with ⟨-, rfl⟩ | ⟨-, hread⟩
  · exact .single _ _ (by simp)
  rcases ite_eq_iff.mp hread with ⟨-, rfl⟩ | ⟨-, hread⟩
  · exact .single _ _ (by simp)
  rcases ite_eq_iff.mp hread with ⟨-, rfl⟩ | ⟨hlevel, hread⟩
  · exact .single _ _ (by simp)
  rcases hsection : d.inSection with _ | _ | _ | _
  all_goals
    rw [hsection] at hread
    subst hread
  · exact .same
  · exact .blocked hline (by simpa using hlevel)
  · exact .allowed hline (by simpa using hlevel)
  · dsimp only
    split
    next => exact .same
    next hboth => exact .level _ (not_or.mp hboth).1

/-- What the reader has gathered is readable. -/
structure SubsystemData.Readable (d : SubsystemData) : Prop where
  blocked : ∀ name ∈ d.blocked.getD [], ReadableSubsystem name
  allowed : ∀ name ∈ d.allowed.getD [], ReadableSubsystem name
  levels : ∀ item ∈ d.levels.getD [], ReadableLevelName item.1
  members : ∀ member ∈ d.members,
    member.1 ∈ [ascii "blocked", ascii "allowed", ascii "level"]

theorem readableLevelName_of_line {line : Name} (h : LineName line)
    (hne : trimBlanks (line.takeWhile (· ≠ 0x3A)) ≠ []) :
    ReadableLevelName (trimBlanks (line.takeWhile (· ≠ 0x3A))) where
  nonempty := hne
  oneLine hmem :=
    h.oneLine ((List.takeWhile_sublist _).subset (trimmed_subset _ _ hmem))
  trimmed := trimmed_trimmed _ _
  noColon hmem := by
    have hcolon := List.mem_takeWhile_imp (trimmed_subset _ _ hmem)
    simp at hcolon

theorem SubsystemData.Readable.readLine {d : SubsystemData} (h : d.Readable) {line : Name}
    (hline : line ≠ [] → LineName line) : (d.readLine line).Readable := by
  have hempty : ∀ (β : Type) (p : β → Prop), ∀ b ∈ (some ([] : List β)).getD [], p b :=
    fun β p b hb => absurd hb List.not_mem_nil
  have hpush : ∀ {β : Type} {p : β → Prop} {l : Option (List β)} {b : β},
      (∀ a ∈ l.getD [], p a) → p b → ∀ a ∈ (some (l.getD [] ++ [b])).getD [], p a := by
    intro β p l b hl hb a ha
    rcases List.mem_append.mp ha with hold | hnew
    · exact hl a hold
    · rw [List.mem_singleton.mp hnew]
      exact hb
  generalize hread : d.readLine line = d'
  have hreads := d.reads_readLine line
  rw [hread] at hreads
  cases hreads with
  | same => exact h
  | blockedTitle => exact ⟨hempty _ _, h.allowed, h.levels, h.members⟩
  | allowedTitle => exact ⟨h.blocked, hempty _ _, h.levels, h.members⟩
  | levelsTitle => exact ⟨h.blocked, h.allowed, hempty _ _, h.members⟩
  | single name value hname =>
      refine ⟨h.blocked, h.allowed, h.levels, fun member hmember => ?_⟩
      rcases List.mem_append.mp hmember with hold | hnew
      · exact h.members member hold
      · rw [List.mem_singleton.mp hnew]
        exact hname
  | blocked hne hlevel =>
      exact ⟨hpush h.blocked ⟨hline hne, hlevel⟩, h.allowed, h.levels, h.members⟩
  | allowed hne hlevel =>
      exact ⟨h.blocked, hpush h.allowed ⟨hline hne, hlevel⟩, h.levels, h.members⟩
  | level level hname =>
      have hne : line ≠ [] := by
        rintro rfl
        exact hname rfl
      exact ⟨h.blocked, h.allowed,
        hpush h.levels (readableLevelName_of_line (hline hne) hname), h.members⟩

/-! ### The lines of the answer -/

def sectionLines (title : Name) (items : List Name) : List Name :=
  if items = [] then [title ++ ascii ": none"]
  else (title ++ ascii ":") :: items.map (ascii "  " ++ ·)

def levelLine (item : SubsystemLevel) : Name :=
  sidToString item.subsystem ++ ascii ": " ++ levelName item.filterLevel

/-- The lines that `subsystem` prints. -/
def subsystemLines (l : Logger) : List Name :=
  sectionLines (ascii "Blocked subsystems") (l.blockedSubsystems.map sidToString) ++
    sectionLines (ascii "Allowed subsystems") (l.allowedSubsystems.map sidToString) ++
    sectionLines (ascii "Subsystem levels") (l.subsystemLevels.map levelLine)

theorem flatMap_sectionLines (title : Name) (items : List Name) :
    (sectionLines title items).flatMap (· ++ CmdLogs.newline) =
      if items = [] then title ++ ascii ": none" ++ CmdLogs.newline
      else title ++ ascii ":" ++ CmdLogs.newline ++
        items.flatMap fun item => ascii "  " ++ item ++ CmdLogs.newline := by
  unfold sectionLines
  split
  next => exact List.flatMap_singleton _ _
  next => rw [List.flatMap_cons, List.flatMap_map]

theorem printSubsystemList_eq (title : Name) (sids : List Nat) :
    printSubsystemList title sids =
      (sectionLines title (sids.map sidToString)).flatMap (· ++ CmdLogs.newline) := by
  rw [flatMap_sectionLines, List.flatMap_map]
  simp only [List.map_eq_nil_iff]
  rfl

theorem printSubsystemLevels_eq (levels : SubsystemLevels) :
    printSubsystemLevels levels =
      (sectionLines (ascii "Subsystem levels") (levels.map levelLine)).flatMap
        (· ++ CmdLogs.newline) := by
  rw [flatMap_sectionLines, List.flatMap_map]
  simp only [List.map_eq_nil_iff, levelLine, ← List.append_assoc]
  rfl

theorem commandSubsystem_eq (env : ControlEnvironment) (s : ControlState) :
    (commandSubsystem env s [ascii "subsystem"] []).2 =
      (subsystemLines s.logger).flatMap (· ++ CmdLogs.newline) := by
  rw [subsystemLines, List.flatMap_append, List.flatMap_append, ← printSubsystemList_eq,
    ← printSubsystemList_eq, ← printSubsystemLevels_eq]
  rfl

/-- The lines as they are read. -/
def trimmedLines (lines : List Name) : List Name :=
  lines.flatMap fun line => (splitBytes (· = 0x0A) line).map trimBlanks

/-- What the reader has gathered at the end. -/
def subsystemData (l : Logger) : SubsystemData :=
  (trimmedLines (subsystemLines l)).foldl SubsystemData.readLine {}

theorem subsystemData_eq (env : ControlEnvironment) (s : ControlState) :
    (splitReplyLines (commandSubsystem env s [ascii "subsystem"] []).2).foldl
      (fun d line => d.readLine (trimBlanks line)) {} = subsystemData s.logger := by
  rw [commandSubsystem_eq, ← List.foldl_map (f := trimBlanks) (g := SubsystemData.readLine),
    readLines_eq, List.foldl_append]
  rfl

theorem subsystemData_readable (l : Logger) : (subsystemData l).Readable := by
  have hfold : ∀ (lines : List Name) (d : SubsystemData), d.Readable →
      (∀ line ∈ lines, line ≠ [] → LineName line) →
      (lines.foldl SubsystemData.readLine d).Readable := by
    intro lines
    induction lines with
    | nil => exact fun d h _ => h
    | cons line lines ih =>
        intro d h hlines
        exact ih _ (h.readLine (hlines line List.mem_cons_self))
          fun other hother => hlines other (List.mem_cons_of_mem _ hother)
  refine hfold _ _ ?_ fun line hline hne => ?_
  · constructor <;> exact fun b hb => absurd hb List.not_mem_nil
  · obtain ⟨text, _, hpiece⟩ := List.mem_flatMap.mp hline
    obtain ⟨piece, hmem, rfl⟩ := List.mem_map.mp hpiece
    exact lineName_of_piece hmem hne

/-! ### What is read of readable names -/

/-- A line that is no title and no answer of a check. -/
structure Unmarked (line : Name) : Prop where
  nonempty : line ≠ []
  noTitle : line ∉ [ascii "Blocked subsystems: none", ascii "Allowed subsystems: none",
    ascii "Subsystem levels: none", ascii "Blocked subsystems:", ascii "Allowed subsystems:",
    ascii "Subsystem levels:"]
  noAnswer : ∀ marker ∈ markers, ¬ startsWith (marker ++ ascii ": ") line = true

theorem SubsystemData.readLine_unmarked (d : SubsystemData) {line : Name} (h : Unmarked line) :
    d.readLine line =
      match d.inSection with
      | .blocked => { d with blocked := some (d.blocked.getD [] ++ [line]) }
      | .allowed => { d with allowed := some (d.allowed.getD [] ++ [line]) }
      | .levels =>
          let name := trimBlanks (line.takeWhile (· ≠ 0x3A))
          let level := trimBlanks ((line.dropWhile (· ≠ 0x3A)).drop 1)
          if name = [] ∨ level = [] then d
          else { d with levels := some (d.levels.getD [] ++ [(name, level)]) }
      | .none => d := by
  have htitles := h.noTitle
  simp only [List.mem_cons, List.not_mem_nil, or_false, not_or] at htitles
  obtain ⟨h₁, h₂, h₃, h₄, h₅, h₆⟩ := htitles
  have h₇ : ¬ startsWith (ascii "Blocked: ") line = true := h.noAnswer (ascii "Blocked") (by decide)
  have h₈ : ¬ startsWith (ascii "Allowed: ") line = true :=
    h.noAnswer (ascii "Allowed") (by decide)
  have h₉ : ¬ startsWith (ascii "Level: ") line = true := h.noAnswer (ascii "Level") (by decide)
  unfold readLine
  dsimp only
  rw [if_neg h.nonempty, if_neg h₁, if_neg h₂, if_neg h₃, if_neg h₄, if_neg h₅, if_neg h₆,
    if_neg h₇, if_neg h₈, if_neg h₉]
  all_goals rfl

theorem length_sidToString_le (sid : Nat) : (sidToString sid).length ≤ 8 := by
  have hle := (List.takeWhile_sublist (· ≠ 0)
    (l := (List.range 8).map fun i => UInt8.ofNat (sid / 256 ^ i % 256))).length_le
  rwa [List.length_map, List.length_range] at hle

theorem length_le_of_startsWith {text s : Name} (h : startsWith text s = true) :
    text.length ≤ s.length :=
  (List.isPrefixOf_iff_prefix.mp h).length_le

/-- A readable name is too short for a title. -/
theorem ReadableSubsystem.unmarked {name : Name} (h : ReadableSubsystem name)
    (hlength : name.length ≤ 8) : Unmarked name where
  nonempty := h.nonempty
  noTitle hmem := by
    have htitles : ∀ title ∈ [ascii "Blocked subsystems: none",
        ascii "Allowed subsystems: none", ascii "Subsystem levels: none",
        ascii "Blocked subsystems:", ascii "Allowed subsystems:", ascii "Subsystem levels:"],
        8 < title.length := by decide
    have hlong := htitles name hmem
    omega
  noAnswer marker hmarker hstarts := by
    have hlong := length_le_of_startsWith hstarts
    simp only [markers, List.mem_cons, List.not_mem_nil, or_false] at hmarker
    rcases hmarker with rfl | rfl | rfl
    · exact absurd (hlong.trans hlength) (by decide)
    · exact absurd (hlong.trans hlength) (by decide)
    · exact h.notLevel hstarts

/-- The line of a name and a level. -/
def namedLine (name : Name) (level : Level) : Name := name ++ ascii ": " ++ levelName level

theorem takeWhile_namedLine {name : Name} (h : 0x3A ∉ name) (level : Level) :
    (namedLine name level).takeWhile (· ≠ 0x3A) = name := by
  have hall : ∀ c ∈ name, decide (c ≠ 0x3A) = true := by
    intro c hc
    rw [decide_eq_true_iff]
    rintro rfl
    exact h hc
  rw [namedLine, List.append_assoc, List.takeWhile_append_of_pos hall]
  exact List.append_nil name

theorem dropWhile_namedLine {name : Name} (h : 0x3A ∉ name) (level : Level) :
    ((namedLine name level).dropWhile (· ≠ 0x3A)).drop 1 = ascii " " ++ levelName level := by
  have hall : ∀ c ∈ name, decide (c ≠ 0x3A) = true := by
    intro c hc
    rw [decide_eq_true_iff]
    rintro rfl
    exact h hc
  rw [namedLine, List.append_assoc, List.dropWhile_append_of_pos hall]
  rfl

theorem ReadableLevelName.unmarked {name : Name} (h : ReadableLevelName name)
    (hlength : name.length ≤ 8) (hmarker : name ∉ markers) (level : Level) :
    Unmarked (namedLine name level) where
  nonempty := by simp [namedLine, ascii]
  noTitle hmem := by
    have htitles : ∀ title ∈ [ascii "Blocked subsystems: none",
        ascii "Allowed subsystems: none", ascii "Subsystem levels: none",
        ascii "Blocked subsystems:", ascii "Allowed subsystems:", ascii "Subsystem levels:"],
        8 < (title.takeWhile (· ≠ 0x3A)).length := by decide
    have hlong := htitles _ hmem
    rw [takeWhile_namedLine h.noColon] at hlong
    omega
  noAnswer marker hmem hstarts := by
    obtain ⟨rest, hrest⟩ := List.isPrefixOf_iff_prefix.mp hstarts
    have hname := takeWhile_namedLine h.noColon level
    rw [← hrest] at hname
    refine hmarker ?_
    rw [← hname]
    simp only [markers, List.mem_cons, List.not_mem_nil, or_false] at hmem
    rcases hmem with rfl | rfl | rfl
    · exact (by decide : ascii "Blocked" ∈ markers)
    · exact (by decide : ascii "Allowed" ∈ markers)
    · exact (by decide : ascii "Level" ∈ markers)

/-- A marker before a level ends the section. -/
theorem SubsystemData.readLine_marked (d : SubsystemData) {name : Name} (h : name ∈ markers)
    (level : Level) : ∃ member, d.readLine (namedLine name level) =
      { d with members := d.members ++ [member], inSection := .none } := by
  simp only [markers, List.mem_cons, List.not_mem_nil, or_false] at h
  rcases h with rfl | rfl | rfl <;> cases level <;> exact ⟨_, rfl⟩

/-- A loop that appends one item for each line. -/
theorem foldl_appends {σ : Type} {step : σ → Name → σ} {state : List Name → σ}
    {names : List Name}
    (hstep : ∀ name ∈ names, ∀ l, step (state l) name = state (l ++ [name])) (l : List Name) :
    names.foldl step (state l) = state (l ++ names) := by
  induction names generalizing l with
  | nil => rw [List.append_nil, List.foldl_nil]
  | cons name names ih =>
      rw [List.foldl_cons, hstep name List.mem_cons_self,
        ih fun other hother => hstep other (List.mem_cons_of_mem _ hother), List.append_assoc]
      rfl

theorem trimmedLines_section {title : Name} {items : List Name}
    (hempty : LineName (title ++ ascii ": none")) (htitle : LineName (title ++ ascii ":"))
    (h : ∀ item ∈ items, LineName item) :
    trimmedLines (sectionLines title items) =
      if items = [] then [title ++ ascii ": none"] else (title ++ ascii ":") :: items := by
  have hitem : ∀ item ∈ items,
      (splitBytes (· = 0x0A) (ascii "  " ++ item)).map trimBlanks = [item] := by
    intro item hmem
    have hline : ∀ c ∈ ascii "  " ++ item, decide (c = 0x0A) = false := by
      intro c hc
      rw [decide_eq_false_iff_not]
      rintro rfl
      rcases List.mem_append.mp hc with hblank | hname
      · exact absurd hblank (by decide)
      · exact (h item hmem).oneLine hname
    rw [splitBytes_of_notMem hline, List.map_singleton, trimBlanks,
      trimmed_append_left (by decide), ← trimBlanks, (h item hmem).trimmed]
  unfold trimmedLines sectionLines
  split
  next =>
    rw [List.flatMap_singleton, hempty.pieces, List.map_singleton, hempty.trimmed]
  next =>
    rw [List.flatMap_cons, htitle.pieces, List.map_singleton, htitle.trimmed,
      List.flatMap_map, List.flatMap_congr hitem, List.flatMap_singleton']
    rfl

/-- The section of a list of names; `state` is what the reader has with a part of
the list. -/
theorem foldl_section {d : SubsystemData} {title : Name} {names : List Name}
    {state : SubsystemSection → List Name → SubsystemData} {sec : SubsystemSection}
    (hempty : LineName (title ++ ascii ": none")) (htitle : LineName (title ++ ascii ":"))
    (hnames : ∀ name ∈ names, LineName name)
    (hnone : d.readLine (title ++ ascii ": none") = state .none [])
    (hstart : d.readLine (title ++ ascii ":") = state sec [])
    (hitem : ∀ name ∈ names, ∀ l, (state sec l).readLine name = state sec (l ++ [name])) :
    ∃ sec', (trimmedLines (sectionLines title names)).foldl SubsystemData.readLine d =
      state sec' names := by
  rw [trimmedLines_section hempty htitle hnames]
  split
  next hnil =>
    subst hnil
    exact ⟨.none, hnone⟩
  next =>
    refine ⟨sec, ?_⟩
    rw [List.foldl_cons, hstart, foldl_appends hitem, List.nil_append]

theorem foldl_blocked (d : SubsystemData) {names : List Name}
    (h : ∀ name ∈ names, ReadableSubsystem name ∧ name.length ≤ 8) :
    ∃ sec, (trimmedLines (sectionLines (ascii "Blocked subsystems") names)).foldl
      SubsystemData.readLine d = { d with blocked := some names, inSection := sec } := by
  refine @foldl_section d (ascii "Blocked subsystems") names
    (fun sec l => { d with blocked := some l, inSection := sec }) .blocked
    ⟨by decide, by decide, by decide⟩ ⟨by decide, by decide, by decide⟩
    (fun name hname => (h name hname).1.toLineName) rfl rfl fun name hname l => ?_
  rw [SubsystemData.readLine_unmarked _ ((h name hname).1.unmarked (h name hname).2)]
  rfl

theorem foldl_allowed (d : SubsystemData) {names : List Name}
    (h : ∀ name ∈ names, ReadableSubsystem name ∧ name.length ≤ 8) :
    ∃ sec, (trimmedLines (sectionLines (ascii "Allowed subsystems") names)).foldl
      SubsystemData.readLine d = { d with allowed := some names, inSection := sec } := by
  refine @foldl_section d (ascii "Allowed subsystems") names
    (fun sec l => { d with allowed := some l, inSection := sec }) .allowed
    ⟨by decide, by decide, by decide⟩ ⟨by decide, by decide, by decide⟩
    (fun name hname => (h name hname).1.toLineName) rfl rfl fun name hname l => ?_
  rw [SubsystemData.readLine_unmarked _ ((h name hname).1.unmarked (h name hname).2)]
  rfl

/-! ### The levels -/

theorem levelLine_eq (item : SubsystemLevel) :
    levelLine item = namedLine (sidToString item.subsystem) item.filterLevel := rfl

theorem lineName_levelName (level : Level) : LineName (levelName level) := by
  cases level <;> exact ⟨by decide, by decide, by decide⟩

theorem ReadableLevelName.lineName {name : Name} (h : ReadableLevelName name) (level : Level) :
    LineName (namedLine name level) where
  nonempty := by simp [namedLine, ascii]
  oneLine hmem := by
    rw [namedLine, List.mem_append, List.mem_append] at hmem
    rcases hmem with (hname | hcolon) | hlevel
    · exact h.oneLine hname
    · exact absurd hcolon (by decide)
    · exact (lineName_levelName level).oneLine hlevel
  trimmed := by
    have hfirst := (trimmed_eq_self_iff.mp h.trimmed).1
    have hlast := (trimmed_eq_self_iff.mp (lineName_levelName level).trimmed).2
    refine trimmed_eq_self_iff.mpr ⟨?_, ?_⟩
    · obtain ⟨c, rest, rfl⟩ := List.exists_cons_of_ne_nil h.nonempty
      exact hfirst
    · rw [namedLine, List.getLast?_append_of_ne_nil _ (lineName_levelName level).nonempty]
      exact hlast

/-- A name of the levels is none of the markers. -/
def unmarkedItem (item : SubsystemLevel) : Bool :=
  !markers.contains (sidToString item.subsystem)

theorem unmarkedItem_iff (item : SubsystemLevel) :
    unmarkedItem item = true ↔ sidToString item.subsystem ∉ markers := by
  simp [unmarkedItem]

/-- A member of the object of levels. -/
def levelEntry (item : SubsystemLevel) : Name × Name :=
  (sidToString item.subsystem, levelName item.filterLevel)

/-- Outside the sections the line of a level adds nothing to the lists. -/
theorem foldl_ignored {items : SubsystemLevels}
    (h : ∀ item ∈ items, ReadableLevelName (sidToString item.subsystem)) (d : SubsystemData)
    (members : List (Name × DataValue)) :
    ∃ members', (items.map levelLine).foldl SubsystemData.readLine
      { d with inSection := .none, members := members } =
        { d with inSection := .none, members := members' } := by
  induction items generalizing members with
  | nil => exact ⟨members, rfl⟩
  | cons item items ih =>
      have hrest := fun other hother => h other (List.mem_cons_of_mem item hother)
      rw [List.map_cons, List.foldl_cons, levelLine_eq]
      by_cases hmarker : sidToString item.subsystem ∈ markers
      · obtain ⟨member, hread⟩ := SubsystemData.readLine_marked
          { d with inSection := .none, members := members } hmarker item.filterLevel
        rw [hread]
        exact ih hrest _
      · rw [SubsystemData.readLine_unmarked _ ((h item List.mem_cons_self).unmarked
          (length_sidToString_le _) hmarker item.filterLevel)]
        exact ih hrest _

theorem readLine_level (d : SubsystemData) (l : List (Name × Name)) {item : SubsystemLevel}
    (h : ReadableLevelName (sidToString item.subsystem))
    (hmarker : sidToString item.subsystem ∉ markers) :
    ({ d with levels := some l, inSection := .levels } : SubsystemData).readLine
        (levelLine item) =
      { d with levels := some (l ++ [levelEntry item]), inSection := .levels } := by
  have hlevel : trimBlanks (ascii " " ++ levelName item.filterLevel) =
      levelName item.filterLevel := by
    rw [trimBlanks, trimmed_append_left (by decide)]
    exact (lineName_levelName item.filterLevel).trimmed
  rw [levelLine_eq, SubsystemData.readLine_unmarked _
    (h.unmarked (length_sidToString_le _) hmarker item.filterLevel)]
  dsimp only
  rw [takeWhile_namedLine h.noColon, dropWhile_namedLine h.noColon, hlevel, h.trimmed,
    if_neg (not_or.mpr ⟨h.nonempty, (lineName_levelName _).nonempty⟩)]
  rfl

/-- The levels up to the first marker are read. -/
theorem foldl_levels {items : SubsystemLevels}
    (h : ∀ item ∈ items, ReadableLevelName (sidToString item.subsystem)) (d : SubsystemData)
    (l : List (Name × Name)) :
    ∃ sec members, (items.map levelLine).foldl SubsystemData.readLine
      { d with levels := some l, inSection := .levels } =
        { d with
          levels := some (l ++ (items.takeWhile unmarkedItem).map levelEntry)
          inSection := sec
          members := members } := by
  induction items generalizing l with
  | nil => exact ⟨.levels, d.members, by simp⟩
  | cons item items ih =>
      have hrest := fun other hother => h other (List.mem_cons_of_mem item hother)
      rw [List.map_cons, List.foldl_cons]
      by_cases hmarker : sidToString item.subsystem ∈ markers
      · obtain ⟨member, hread⟩ := SubsystemData.readLine_marked
          { d with levels := some l, inSection := .levels } hmarker item.filterLevel
        obtain ⟨members, hignored⟩ := foldl_ignored hrest { d with levels := some l }
          (d.members ++ [member])
        have hstops : ¬ unmarkedItem item = true := by simpa [unmarkedItem_iff] using hmarker
        rw [levelLine_eq, hread, List.takeWhile_cons_of_neg hstops]
        exact ⟨.none, members, by simpa using hignored⟩
      · rw [readLine_level d l (h item List.mem_cons_self) hmarker,
          List.takeWhile_cons_of_pos (by simpa [unmarkedItem_iff] using hmarker)]
        obtain ⟨sec, members, hread⟩ := ih hrest (l ++ [levelEntry item])
        exact ⟨sec, members, by simpa using hread⟩

/-- What is read where all names are lines of their own. -/
theorem subsystemData_of_readable {l : Logger}
    (hblocked : ∀ sid ∈ l.blockedSubsystems, ReadableSubsystem (sidToString sid))
    (hallowed : ∀ sid ∈ l.allowedSubsystems, ReadableSubsystem (sidToString sid))
    (hlevels : ∀ item ∈ l.subsystemLevels, ReadableLevelName (sidToString item.subsystem)) :
    (subsystemData l).blocked = some (l.blockedSubsystems.map sidToString) ∧
      (subsystemData l).allowed = some (l.allowedSubsystems.map sidToString) ∧
      (subsystemData l).levels =
        some ((l.subsystemLevels.takeWhile unmarkedItem).map levelEntry) := by
  have hnames : ∀ {sids : List Nat}, (∀ sid ∈ sids, ReadableSubsystem (sidToString sid)) →
      ∀ name ∈ sids.map sidToString, ReadableSubsystem name ∧ name.length ≤ 8 := by
    intro sids hsids name hname
    obtain ⟨sid, hsid, rfl⟩ := List.mem_map.mp hname
    exact ⟨hsids sid hsid, length_sidToString_le sid⟩
  have hlines : ∀ line ∈ l.subsystemLevels.map levelLine, LineName line := by
    intro line hline
    obtain ⟨item, hitem, rfl⟩ := List.mem_map.mp hline
    exact (hlevels item hitem).lineName item.filterLevel
  obtain ⟨sec, hread⟩ := foldl_blocked {} (hnames hblocked)
  obtain ⟨sec', hread'⟩ := foldl_allowed
    { blocked := some (l.blockedSubsystems.map sidToString), inSection := sec }
    (hnames hallowed)
  rw [subsystemData, subsystemLines, trimmedLines, List.flatMap_append, List.flatMap_append,
    ← trimmedLines, ← trimmedLines, ← trimmedLines, List.foldl_append, List.foldl_append, hread,
    hread', trimmedLines_section ⟨by decide, by decide, by decide⟩
      ⟨by decide, by decide, by decide⟩ hlines]
  split
  next hnil =>
    rw [List.map_eq_nil_iff.mp hnil]
    exact ⟨rfl, rfl, rfl⟩
  next =>
    rw [List.foldl_cons]
    obtain ⟨sec'', members, hread''⟩ := foldl_levels hlevels
      { blocked := some (l.blockedSubsystems.map sidToString)
        allowed := some (l.allowedSubsystems.map sidToString)
        inSection := sec' } []
    have htitle : ({ blocked := some (l.blockedSubsystems.map sidToString)
                     allowed := some (l.allowedSubsystems.map sidToString)
                     inSection := sec' } : SubsystemData).readLine
        (ascii "Subsystem levels" ++ ascii ":") =
          { blocked := some (l.blockedSubsystems.map sidToString)
            allowed := some (l.allowedSubsystems.map sidToString)
            levels := some []
            inSection := .levels } := rfl
    rw [htitle, hread'']
    exact ⟨rfl, rfl, rfl⟩

/-- The names that the reader gives back: channels, blocked and allowed
subsystems, and subsystems with levels. -/
structure ReadableNames (l : Logger) : Prop where
  channels : ∀ name ∈ l.channels.map Prod.fst, ReadableChannel name
  blocked : ∀ sid ∈ l.blockedSubsystems, ReadableSubsystem (sidToString sid)
  allowed : ∀ sid ∈ l.allowedSubsystems, ReadableSubsystem (sidToString sid)
  levels : ∀ item ∈ l.subsystemLevels, ReadableLevelName (sidToString item.subsystem) ∧
    sidToString item.subsystem ∉ markers

/-- The lists of the reader are those of the logger exactly for readable names. -/
theorem subsystemData_iff (l : Logger) :
    ((subsystemData l).blocked = some (l.blockedSubsystems.map sidToString) ∧
      (subsystemData l).allowed = some (l.allowedSubsystems.map sidToString) ∧
      (subsystemData l).levels = some (l.subsystemLevels.map levelEntry)) ↔
      (∀ sid ∈ l.blockedSubsystems, ReadableSubsystem (sidToString sid)) ∧
      (∀ sid ∈ l.allowedSubsystems, ReadableSubsystem (sidToString sid)) ∧
      ∀ item ∈ l.subsystemLevels, ReadableLevelName (sidToString item.subsystem) ∧
        sidToString item.subsystem ∉ markers := by
  have hreadable := subsystemData_readable l
  constructor
  · rintro ⟨hblocked, hallowed, hlevels⟩
    have hb : ∀ sid ∈ l.blockedSubsystems, ReadableSubsystem (sidToString sid) := by
      intro sid hsid
      refine hreadable.blocked _ ?_
      rw [hblocked]
      exact List.mem_map_of_mem hsid
    have ha : ∀ sid ∈ l.allowedSubsystems, ReadableSubsystem (sidToString sid) := by
      intro sid hsid
      refine hreadable.allowed _ ?_
      rw [hallowed]
      exact List.mem_map_of_mem hsid
    have hl : ∀ item ∈ l.subsystemLevels, ReadableLevelName (sidToString item.subsystem) := by
      intro item hitem
      refine hreadable.levels (levelEntry item) ?_
      rw [hlevels]
      exact List.mem_map_of_mem hitem
    -- A marker would end the section, and the rest would be missing.
    have htaken := (subsystemData_of_readable hb ha hl).2.2
    rw [hlevels] at htaken
    have hlength := congrArg List.length (Option.some.inj htaken)
    rw [List.length_map, List.length_map] at hlength
    have hall := (List.takeWhile_sublist unmarkedItem).eq_of_length hlength.symm
    refine ⟨hb, ha, fun item hitem => ⟨hl item hitem, ?_⟩⟩
    exact (unmarkedItem_iff item).mp (List.takeWhile_eq_self_iff.mp hall item hitem)
  · rintro ⟨hblocked, hallowed, hlevels⟩
    obtain ⟨hb, ha, hl⟩ := subsystemData_of_readable hblocked hallowed
      fun item hitem => (hlevels item hitem).1
    have hall : l.subsystemLevels.takeWhile unmarkedItem = l.subsystemLevels :=
      List.takeWhile_eq_self_iff.mpr fun item hitem =>
        (unmarkedItem_iff item).mpr (hlevels item hitem).2
    exact ⟨hb, ha, by rw [hl, hall]⟩

/-! ## The structured answers -/

/-- The text is an object in whose `data` exactly one member has this name, with
this value. -/
def HasData (reply name : Name) (value : Tree) : Prop :=
  ∃ members data, IsObject reply members ∧ (ascii "data", Tree.object data) ∈ members ∧
    data.filter (fun member => member.1 = name) = [(name, value)]

def textArray (values : List Name) : Tree := .array (values.map .string)

def textObject (values : List (Name × Name)) : Tree :=
  .object (values.map fun value => (value.1, .string value.2))

/-- `format json list` answers with the channels of the logger. -/
def ListsChannels (env : ControlEnvironment) (s : ControlState) : Prop :=
  ∃ values, HasData (control env none .full s (ascii "format json list")).response
      (ascii "channels") (textArray values) ∧
    values.Perm ([] :: s.logger.channels.map Prod.fst)

/-- `format json subsystem` answers with the three lists of the logger. -/
structure ListsSubsystems (s : ControlState) (reply : Name) : Prop where
  blocked : HasData reply (ascii "blockedSubsystems")
    (textArray (s.logger.blockedSubsystems.map sidToString))
  allowed : HasData reply (ascii "allowedSubsystems")
    (textArray (s.logger.allowedSubsystems.map sidToString))
  levels : HasData reply (ascii "subsystemLevels")
    (textObject (s.logger.subsystemLevels.map levelEntry))

/-- What the answer has under a name is what the reader has gathered under it. -/
theorem hasData_jsonReply_iff {remainder text name : Name} {value : Tree} :
    HasData (jsonReply remainder text) name value ↔
      (dataTree remainder text).filter (fun member => member.1 = name) = [(name, value)] := by
  have hobject := @isObject_jsonReply remainder text []
    fun b hb => absurd hb List.not_mem_nil
  rw [List.append_nil] at hobject
  constructor
  · rintro ⟨members, data, hread, hdata, hfilter⟩
    rw [hread.unique hobject, replyTree] at hdata
    simp only [List.mem_cons, List.not_mem_nil, or_false, Prod.mk.injEq, Tree.object.injEq] at hdata
    rcases hdata with ⟨hok, -⟩ | ⟨herror, -⟩ | ⟨-, rfl⟩
    · exact absurd hok (by decide)
    · exact absurd herror (by decide)
    · exact hfilter
  · intro hfilter
    exact ⟨_, _, hobject, by simp [replyTree], hfilter⟩

theorem listsChannels_iff (env : ControlEnvironment) (s : ControlState) :
    ListsChannels env s ↔ ∀ name ∈ s.logger.channels.map Prod.fst, ReadableChannel name := by
  have hreply : (control env none .full s (ascii "format json list")).response =
      jsonReply (ascii "list") (commandList s []).2 := rfl
  have hmembers : dataMembers (ascii "list") (commandList s []).2 =
      listMembers (commandList s []).2 := rfl
  have hdata : (dataTree (ascii "list") (commandList s []).2).filter
      (fun member => member.1 = ascii "channels") =
        [(ascii "channels", textArray
          (((channelLines (s.logger.channels.map Prod.fst)).insertionSort (· ≤ ·)).map
            channelOfLine))] := by
    rw [dataTree, isOk_commandList, if_pos rfl, hmembers, listMembers_eq]
    rfl
  rw [← channels_perm_iff]
  unfold ListsChannels
  rw [hreply]
  constructor
  · rintro ⟨values, hvalues, hperm⟩
    rw [hasData_jsonReply_iff, hdata] at hvalues
    have harray := (Prod.mk.inj (List.cons.inj hvalues).1).2
    have hstrings := List.map_injective_iff.mpr (fun _ _ h => Tree.string.inj h)
      (Tree.array.inj harray)
    rwa [← hstrings] at hperm
  · exact fun hperm => ⟨_, hasData_jsonReply_iff.mpr hdata, hperm⟩

section Subsystems

variable {env : ControlEnvironment} {s : ControlState}

theorem isOk_commandSubsystem :
    isOk (commandSubsystem env s [ascii "subsystem"] []).2 = true := by
  have htext : (commandSubsystem env s [ascii "subsystem"] []).2 =
      printSubsystemList (ascii "Blocked subsystems") s.logger.blockedSubsystems ++
        printSubsystemList (ascii "Allowed subsystems") s.logger.allowedSubsystems ++
        printSubsystemLevels s.logger.subsystemLevels := rfl
  rw [htext, printSubsystemList]
  split <;> rfl

/-- The members that the reader has gathered, with the text. -/
theorem dataTree_subsystem :
    dataTree (ascii "subsystem") (commandSubsystem env s [ascii "subsystem"] []).2 =
      ((subsystemData s.logger).members ++
        ((subsystemData s.logger).blocked.map fun l =>
          (ascii "blockedSubsystems", DataValue.stringArray l)).toList ++
        ((subsystemData s.logger).allowed.map fun l =>
          (ascii "allowedSubsystems", DataValue.stringArray l)).toList ++
        ((subsystemData s.logger).levels.map fun l =>
          (ascii "subsystemLevels", DataValue.stringMap l)).toList ++
        [(ascii "text", DataValue.string
          (commandSubsystem env s [ascii "subsystem"] []).2)]).map memberTree := by
  have hmembers : ∀ text, dataMembers (ascii "subsystem") text = subsystemMembers text :=
    fun _ => rfl
  rw [dataTree, isOk_commandSubsystem, if_pos rfl, hmembers, subsystemMembers, subsystemData_eq]

/-- Single answers have other names than the lists. -/
theorem filter_single {name : Name}
    (hname : name ∉ [ascii "blocked", ascii "allowed", ascii "level"]) :
    ((subsystemData s.logger).members.map memberTree).filter
      (fun member => member.1 = name) = [] := by
  rw [List.filter_eq_nil_iff]
  intro member hmember
  obtain ⟨single, hsingle, rfl⟩ := List.mem_map.mp hmember
  have hmem := (subsystemData_readable s.logger).members single hsingle
  simp only [decide_eq_true_eq]
  rintro rfl
  exact hname hmem

theorem toList_map_eq_singleton_iff {β γ : Type} {l : Option β} {f : β → γ}
    (hf : Function.Injective f) {b : β} : (l.map f).toList = [f b] ↔ l = some b := by
  cases l with
  | none => simp
  | some a => simp [hf.eq_iff]

theorem textArray_injective : Function.Injective textArray := fun _ _ h =>
  List.map_injective_iff.mpr (fun _ _ h => Tree.string.inj h) (Tree.array.inj h)

theorem textObject_injective : Function.Injective textObject := fun _ _ h =>
  List.map_injective_iff.mpr
    (fun _ _ h => Prod.ext (Prod.mk.inj h).1 (Tree.string.inj (Prod.mk.inj h).2))
    (Tree.object.inj h)

/-- A list is in the answer as the reader has gathered it. -/
theorem hasData_subsystem_iff {name : Name} {value : Tree}
    (hname : name ∉ [ascii "blocked", ascii "allowed", ascii "level"]) :
    HasData (control env none .full s (ascii "format json subsystem")).response name value ↔
      ((((subsystemData s.logger).blocked.map fun l =>
          (ascii "blockedSubsystems", DataValue.stringArray l)).toList ++
        ((subsystemData s.logger).allowed.map fun l =>
          (ascii "allowedSubsystems", DataValue.stringArray l)).toList ++
        ((subsystemData s.logger).levels.map fun l =>
          (ascii "subsystemLevels", DataValue.stringMap l)).toList ++
        [(ascii "text", DataValue.string
          (commandSubsystem env s [ascii "subsystem"] []).2)]).map memberTree).filter
        (fun member => member.1 = name) = [(name, value)] := by
  have hreply : (control env none .full s (ascii "format json subsystem")).response =
      jsonReply (ascii "subsystem") (commandSubsystem env s [ascii "subsystem"] []).2 := rfl
  rw [hreply, hasData_jsonReply_iff, dataTree_subsystem]
  simp only [List.append_assoc]
  rw [List.map_append, List.filter_append, filter_single hname, List.nil_append]

theorem listsSubsystems_iff :
    ListsSubsystems s (control env none .full s (ascii "format json subsystem")).response ↔
      (subsystemData s.logger).blocked = some (s.logger.blockedSubsystems.map sidToString) ∧
      (subsystemData s.logger).allowed = some (s.logger.allowedSubsystems.map sidToString) ∧
      (subsystemData s.logger).levels = some (s.logger.subsystemLevels.map levelEntry) := by
  rw [← toList_map_eq_singleton_iff (f := fun l => (ascii "blockedSubsystems", textArray l))
      fun _ _ h => textArray_injective (Prod.mk.inj h).2,
    ← toList_map_eq_singleton_iff (f := fun l => (ascii "allowedSubsystems", textArray l))
      fun _ _ h => textArray_injective (Prod.mk.inj h).2,
    ← toList_map_eq_singleton_iff (f := fun l => (ascii "subsystemLevels", textObject l))
      fun _ _ h => textObject_injective (Prod.mk.inj h).2]
  have hblocked := @hasData_subsystem_iff env s (ascii "blockedSubsystems")
    (textArray (s.logger.blockedSubsystems.map sidToString)) (by decide)
  have hallowed := @hasData_subsystem_iff env s (ascii "allowedSubsystems")
    (textArray (s.logger.allowedSubsystems.map sidToString)) (by decide)
  have hlevels := @hasData_subsystem_iff env s (ascii "subsystemLevels")
    (textObject (s.logger.subsystemLevels.map levelEntry)) (by decide)
  revert hblocked hallowed hlevels
  cases (subsystemData s.logger).blocked <;> cases (subsystemData s.logger).allowed <;>
    cases (subsystemData s.logger).levels <;> intro hblocked hallowed hlevels <;>
    exact ⟨fun h => ⟨hblocked.mp h.blocked, hallowed.mp h.allowed, hlevels.mp h.levels⟩,
      fun ⟨hb, ha, hl⟩ => ⟨hblocked.mpr hb, hallowed.mpr ha, hlevels.mpr hl⟩⟩

end Subsystems

/-- The structured answers have the lists of the logger exactly if all names are
readable. -/
theorem structured_lists_iff (env : ControlEnvironment) (s : ControlState) :
    (ListsChannels env s ∧
      ListsSubsystems s (control env none .full s (ascii "format json subsystem")).response) ↔
      ReadableNames s.logger := by
  rw [listsChannels_iff, listsSubsystems_iff, subsystemData_iff]
  exact ⟨fun ⟨hchannels, hblocked, hallowed, hlevels⟩ =>
      ⟨hchannels, hblocked, hallowed, hlevels⟩,
    fun h => ⟨h.channels, h.blocked, h.allowed, h.levels⟩⟩

/-- A logger with a level for a subsystem named `Level`. -/
def levelNamedLevel : ControlState :=
  (control plainEnvironment none .full consoleState
    (ascii "subsystem --set-level Level WARN")).state

/-- Its level is lost: the line is taken for the answer of a check. -/
theorem level_named_level_is_lost :
    levelNamedLevel.logger.subsystemLevels.map levelEntry =
      [(ascii "Level", ascii "WARN")] ∧
    ¬ ListsSubsystems levelNamedLevel
      (control plainEnvironment none .full levelNamedLevel
        (ascii "format json subsystem")).response := by
  have hentries : levelNamedLevel.logger.subsystemLevels.map levelEntry =
      [(ascii "Level", ascii "WARN")] := by decide +kernel
  refine ⟨hentries, fun h => ?_⟩
  have hread := listsSubsystems_iff.mp h
  have hlevels : (subsystemData levelNamedLevel.logger).levels = some [] := by decide +kernel
  rw [hentries, hlevels] at hread
  cases hread.2.2

end Logme
