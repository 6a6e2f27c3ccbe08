import Logme.StructuredLists
import Logme.Library.JsonBuilding

/-!
# The names in a JSON answer

The members of `data` have names of the source, and all are distinct but for the
answers of `subsystem`: a line that answers a question is a member, and the names of
the levels are what stands before the first colon of a line.
-/

namespace Logme

open Json

/-! ## The names in a text of `subsystem` -/

/-- The member of a line that answers one question. -/
def answerTitle (line : Name) : Option Name :=
  if startsWith (ascii "Blocked: ") line then some (ascii "blocked")
  else if startsWith (ascii "Allowed: ") line then some (ascii "allowed")
  else if startsWith (ascii "Level: ") line then some (ascii "level")
  else none

def isLevelsTitle (line : Name) : Bool :=
  line = ascii "Subsystem levels:" || line = ascii "Subsystem levels: none"

def isListTitle (line : Name) : Bool :=
  line = ascii "Blocked subsystems: none" || line = ascii "Allowed subsystems: none" ||
    line = ascii "Blocked subsystems:" || line = ascii "Allowed subsystems:"

/-- A list ends before such a line. -/
def endsList (line : Name) : Bool :=
  isLevelsTitle line || isListTitle line || (answerTitle line).isSome

/-- The name and the level of a line, parted by the first colon. -/
def entryOfLine (line : Name) : Option (Name × Name) :=
  let name := trimBlanks (line.takeWhile (· ≠ 0x3A))
  let level := trimBlanks ((line.dropWhile (· ≠ 0x3A)).drop 1)
  if name = [] ∨ level = [] then none else some (name, level)

def listedLevels (lines : List Name) : List (Name × Name) :=
  (lines.takeWhile (!endsList ·)).filterMap entryOfLine

/-- The entries of the last list of levels. -/
def lastLevels : List Name → List (Name × Name)
  | [] => []
  | line :: lines =>
      if lines.any isLevelsTitle then lastLevels lines
      else if line = ascii "Subsystem levels:" then listedLevels lines
      else []

namespace SubsystemData

/-- What a line does to the names of the members and to the levels: a title begins a
list, an answer is a member, and any other line belongs to the list that it stands in. -/
structure Takes (d : SubsystemData) (line : Name) (d' : SubsystemData) : Prop where
  values : ∀ member ∈ d'.members, member ∈ d.members ∨ member.2.tree.DistinctNames
  names : d'.members.map Prod.fst = d.members.map Prod.fst ++ (answerTitle line).toList
  inSection : d'.inSection = .levels ↔
    if endsList line then line = ascii "Subsystem levels:" else d.inSection = .levels
  levels : d'.levels.getD [] =
    if isLevelsTitle line then []
    else if endsList line ∨ d.inSection ≠ .levels then d.levels.getD []
    else d.levels.getD [] ++ (entryOfLine line).toList

theorem takes_title {d d' : SubsystemData} {line : Name} (hanswer : answerTitle line = none)
    (hends : endsList line = true) (hmembers : d'.members = d.members)
    (hsection : d'.inSection = .levels ↔ line = ascii "Subsystem levels:")
    (hlevels : d'.levels.getD [] = if isLevelsTitle line then [] else d.levels.getD []) :
    d.Takes line d' where
  values member hmember := .inl (hmembers ▸ hmember)
  names := by rw [hmembers, hanswer, Option.toList_none, List.append_nil]
  inSection := by rw [if_pos hends, hsection]
  levels := by
    rw [hlevels, if_pos (show endsList line = true ∨ d.inSection ≠ .levels from .inl hends)]

theorem takes_answer {d : SubsystemData} {line title : Name} {value : DataValue}
    (hvalue : value.tree.DistinctNames) (hanswer : answerTitle line = some title)
    (htitle : isLevelsTitle line = false) :
    d.Takes line
      { d with members := d.members ++ [(title, value)], inSection := .none } where
  values member hmember := by
    refine (List.mem_append.mp hmember).imp id fun hnew => ?_
    rw [List.mem_singleton.mp hnew]
    exact hvalue
  names := by rw [hanswer, List.map_append]; rfl
  inSection := by
    have hne : line ≠ ascii "Subsystem levels:" := by
      rintro rfl
      cases htitle
    rw [if_pos (by simp [endsList, hanswer])]
    exact iff_of_false nofun hne
  levels := by rw [htitle, if_neg Bool.false_ne_true, if_pos (.inl (by simp [endsList, hanswer]))]

/-- A line inside a list. -/
theorem takes_item {d d' : SubsystemData} {line : Name} (hanswer : answerTitle line = none)
    (hends : endsList line = false) (hmembers : d'.members = d.members)
    (hsection : d'.inSection = d.inSection)
    (hlevels : d'.levels.getD [] = if d.inSection = .levels then
      d.levels.getD [] ++ (entryOfLine line).toList else d.levels.getD []) :
    d.Takes line d' where
  values member hmember := .inl (hmembers ▸ hmember)
  names := by rw [hmembers, hanswer, Option.toList_none, List.append_nil]
  inSection := by rw [hends, if_neg Bool.false_ne_true, hsection]
  levels := by
    have htitle : isLevelsTitle line = false := by
      simp only [endsList, Bool.or_eq_false_iff] at hends
      exact hends.1.1
    rw [hlevels, htitle, hends]
    simp only [Bool.false_eq_true, if_false, false_or, ne_eq, ite_not]

theorem takes_readLine (d : SubsystemData) (line : Name) : d.Takes line (d.readLine line) := by
  generalize hread : d.readLine line = d'
  unfold readLine at hread
  dsimp only at hread
  rcases ite_eq_iff.mp hread with ⟨rfl, rfl⟩ | ⟨-, hread⟩
  · exact takes_item (by decide) (by decide) rfl rfl (by
      rw [show entryOfLine [] = none by decide, Option.toList_none, List.append_nil, ite_self])
  rcases ite_eq_iff.mp hread with ⟨rfl, rfl⟩ | ⟨hblockedNone, hread⟩
  · exact takes_title (by decide) (by decide) rfl (iff_of_false nofun (by decide)) rfl
  rcases ite_eq_iff.mp hread with ⟨rfl, rfl⟩ | ⟨hallowedNone, hread⟩
  · exact takes_title (by decide) (by decide) rfl (iff_of_false nofun (by decide)) rfl
  rcases ite_eq_iff.mp hread with ⟨rfl, rfl⟩ | ⟨hlevelsNone, hread⟩
  · exact takes_title (by decide) (by decide) rfl (iff_of_false nofun (by decide)) rfl
  rcases ite_eq_iff.mp hread with ⟨rfl, rfl⟩ | ⟨hblocked, hread⟩
  · exact takes_title (by decide) (by decide) rfl (iff_of_false nofun (by decide)) rfl
  rcases ite_eq_iff.mp hread with ⟨rfl, rfl⟩ | ⟨hallowed, hread⟩
  · exact takes_title (by decide) (by decide) rfl (iff_of_false nofun (by decide)) rfl
  rcases ite_eq_iff.mp hread with ⟨rfl, rfl⟩ | ⟨hlevels, hread⟩
  · exact takes_title (by decide) (by decide) rfl (iff_of_true rfl rfl) rfl
  have htitle : isLevelsTitle line = false := by simp [isLevelsTitle, hlevels, hlevelsNone]
  rcases ite_eq_iff.mp hread with ⟨hline, rfl⟩ | ⟨hnotBlocked, hread⟩
  · exact takes_answer trivial (if_pos hline) htitle
  rcases ite_eq_iff.mp hread with ⟨hline, rfl⟩ | ⟨hnotAllowed, hread⟩
  · exact takes_answer trivial ((if_neg hnotBlocked).trans (if_pos hline)) htitle
  rcases ite_eq_iff.mp hread with ⟨hline, rfl⟩ | ⟨hnotLevel, hread⟩
  · exact takes_answer trivial
      ((if_neg hnotBlocked).trans ((if_neg hnotAllowed).trans (if_pos hline))) htitle
  have hanswer : answerTitle line = none := by
    rw [answerTitle, if_neg hnotBlocked, if_neg hnotAllowed, if_neg hnotLevel]
  have hends : endsList line = false := by
    simp [endsList, htitle, isListTitle, hblockedNone, hallowedNone, hblocked, hallowed, hanswer]
  rcases hsection : d.inSection with _ | _ | _ | _
  all_goals
    rw [hsection] at hread
    subst hread
  · exact takes_item hanswer hends rfl rfl (by rw [hsection]; rfl)
  · exact takes_item hanswer hends rfl hsection.symm (by rw [hsection]; rfl)
  · exact takes_item hanswer hends rfl hsection.symm (by rw [hsection]; rfl)
  · dsimp only
    refine takes_item hanswer hends ?_ ?_ ?_
    · split <;> rfl
    · split
      next => rfl
      next => exact hsection.symm
    · rw [hsection, if_pos rfl, entryOfLine]
      split <;> simp

theorem readLines_names (lines : List Name) (d : SubsystemData) :
    (lines.foldl readLine d).members.map Prod.fst =
      d.members.map Prod.fst ++ lines.filterMap answerTitle := by
  induction lines generalizing d with
  | nil => simp
  | cons line lines ih =>
      rw [List.foldl_cons, ih, (d.takes_readLine line).names, List.append_assoc,
        List.filterMap_cons]
      cases answerTitle line <;> rfl

theorem readLines_values (lines : List Name) {d : SubsystemData}
    (h : ∀ member ∈ d.members, member.2.tree.DistinctNames) :
    ∀ member ∈ (lines.foldl readLine d).members, member.2.tree.DistinctNames := by
  induction lines generalizing d with
  | nil => exact h
  | cons line lines ih =>
      exact ih fun member hmember =>
        ((d.takes_readLine line).values member hmember).elim (h member) id

theorem readLines_levels (lines : List Name) (d : SubsystemData) :
    (lines.foldl readLine d).levels.getD [] =
      if lines.any isLevelsTitle then lastLevels lines
      else if d.inSection = .levels then d.levels.getD [] ++ listedLevels lines
      else d.levels.getD [] := by
  induction lines generalizing d with
  | nil => simp [listedLevels]
  | cons line lines ih =>
      rw [List.foldl_cons, ih, List.any_cons, lastLevels]
      cases hmore : lines.any isLevelsTitle with
      | true => simp
      | false =>
          rw [(d.takes_readLine line).levels]
          simp only [(d.takes_readLine line).inSection]
          cases htitle : isLevelsTitle line with
          | true =>
              have hends : endsList line = true := by simp [endsList, htitle]
              simp [hends]
          | false =>
              have hne : line ≠ ascii "Subsystem levels:" := by
                rintro rfl
                cases htitle
              cases hends : endsList line with
              | true => simp [hne, listedLevels, hends]
              | false =>
                  by_cases hsection : d.inSection = .levels
                  · have hlisted : listedLevels (line :: lines) =
                        (entryOfLine line).toList ++ listedLevels lines := by
                      rw [listedLevels, List.takeWhile_cons_of_pos (by simp [hends]),
                        List.filterMap_cons]
                      cases entryOfLine line <;> rfl
                    simp [hsection, hlisted]
                  · simp [hsection]

end SubsystemData

/-! ## Distinct names -/

/-- The lines of a text, without the blanks around them. -/
def replyLines (text : Name) : List Name := (splitReplyLines text).map trimBlanks

/-- The lines of a `subsystem` text answer no question twice, and the last list of
levels has no name twice. -/
structure DistinctAnswers (text : Name) : Prop where
  answers : ((replyLines text).filterMap answerTitle).Nodup
  levels : ((lastLevels (replyLines text)).map Prod.fst).Nodup

instance : DecidablePred DistinctAnswers := fun text =>
  decidable_of_iff (((replyLines text).filterMap answerTitle).Nodup ∧
    ((lastLevels (replyLines text)).map Prod.fst).Nodup)
    ⟨fun h => ⟨h.1, h.2⟩, fun h => ⟨h.answers, h.levels⟩⟩

-- The names are parted from their levels by the first colon.
example : ¬ DistinctAnswers (ascii "Subsystem levels:\n  a: INFO\n  a:b: WARN\n") := by decide

/-- The members of `data` are distinct, and those of each value. -/
structure DistinctData (members : List (Name × DataValue)) : Prop where
  names : (members.map Prod.fst).Nodup
  values : ∀ member ∈ members, member.2.tree.DistinctNames

theorem distinctData_nil : DistinctData [] := ⟨List.nodup_nil, nofun⟩

theorem distinctNames_object_iff (members : List (Name × DataValue)) :
    (Tree.object (members.map memberTree)).DistinctNames ↔ DistinctData members := by
  rw [Tree.DistinctNames, Tree.distinctMembers_iff, List.map_map, List.forall_mem_map]
  exact ⟨fun h => ⟨h.1, h.2⟩, fun h => ⟨h.names, h.values⟩⟩

theorem distinctNames_stringMap_iff (values : List (Name × Name)) :
    (DataValue.stringMap values).tree.DistinctNames ↔ (values.map Prod.fst).Nodup := by
  rw [DataValue.tree, Tree.DistinctNames, Tree.distinctMembers_iff, List.map_map,
    List.forall_mem_map]
  exact and_iff_left fun _ _ => trivial

theorem distinctNames_stringArray (values : List Name) :
    (DataValue.stringArray values).tree.DistinctNames := by
  rw [DataValue.tree, Tree.DistinctNames, Tree.distinctItems_iff, List.forall_mem_map]
  exact fun _ _ => trivial

/-- What is added after the members has other names. -/
theorem distinctData_append_iff {members added : List (Name × DataValue)}
    (hother : ∀ member ∈ added, member.1 ∉ members.map Prod.fst) :
    DistinctData (members ++ added) ↔ DistinctData members ∧ DistinctData added := by
  have hnames : ((members ++ added).map Prod.fst).Nodup ↔
      (members.map Prod.fst).Nodup ∧ (added.map Prod.fst).Nodup := by
    rw [List.map_append, List.nodup_append']
    refine and_congr_right fun _ => and_iff_left fun name hname hadded => ?_
    obtain ⟨member, hmember, rfl⟩ := List.mem_map.mp hadded
    exact hother member hmember hname
  constructor
  · intro h
    have hvalues := List.forall_mem_append.mp h.values
    exact ⟨⟨(hnames.mp h.names).1, hvalues.1⟩, ⟨(hnames.mp h.names).2, hvalues.2⟩⟩
  · rintro ⟨hmembers, hadded⟩
    exact ⟨hnames.mpr ⟨hmembers.names, hadded.names⟩,
      List.forall_mem_append.mpr ⟨hmembers.values, hadded.values⟩⟩

theorem distinctData_singleton_iff (name : Name) (value : DataValue) :
    DistinctData [(name, value)] ↔ value.tree.DistinctNames :=
  ⟨fun h => h.values _ List.mem_cons_self,
    fun h => ⟨List.nodup_singleton name, List.forall_mem_singleton.mpr h⟩⟩

theorem mem_of_answerTitle {line title : Name} (h : answerTitle line = some title) :
    title ∈ [ascii "blocked", ascii "allowed", ascii "level"] := by
  unfold answerTitle at h
  split at h
  next => simp [← Option.some.inj h]
  split at h
  next => simp [← Option.some.inj h]
  split at h
  next => simp [← Option.some.inj h]
  next => cases h

theorem lastLevels_eq_nil {lines : List Name} (h : lines.any isLevelsTitle = false) :
    lastLevels lines = [] := by
  cases lines with
  | nil => rfl
  | cons line lines =>
      rw [List.any_cons, Bool.or_eq_false_iff] at h
      have hne : line ≠ ascii "Subsystem levels:" := by
        rintro rfl
        cases h.1
      rw [lastLevels, h.2, if_neg Bool.false_ne_true, if_neg hne]

/-- The three lists have different names, and only the map of the levels has names of
its own. -/
theorem distinctData_lists_iff (d : SubsystemData) :
    DistinctData ((d.blocked.map fun l => (ascii "blockedSubsystems", .stringArray l)).toList ++
      (d.allowed.map fun l => (ascii "allowedSubsystems", .stringArray l)).toList ++
      (d.levels.map fun l => (ascii "subsystemLevels", .stringMap l)).toList) ↔
      ((d.levels.getD []).map Prod.fst).Nodup := by
  have hsublist : ∀ {α : Type} (o : Option α) (name : Name),
      (o.map fun _ => name).toList.Sublist [name] := by
    intro α o name
    cases o with
    | none => exact List.nil_sublist _
    | some _ => exact List.Sublist.refl _
  constructor
  · intro h
    cases hlevels : d.levels with
    | none => exact List.nodup_nil
    | some levels =>
        refine (distinctNames_stringMap_iff levels).mp
          (h.values (ascii "subsystemLevels", .stringMap levels) ?_)
        simp [hlevels]
  · intro h
    refine ⟨?_, fun member hmember => ?_⟩
    · have hnames := ((hsublist d.blocked (ascii "blockedSubsystems")).append
        (hsublist d.allowed (ascii "allowedSubsystems"))).append
          (hsublist d.levels (ascii "subsystemLevels"))
      have hnodup := hnames.nodup (by decide)
      simpa only [List.map_append, Option.toList_map, List.map_map, Function.comp_def] using hnodup
    · simp only [List.mem_append, Option.mem_toList, Option.map_eq_some_iff] at hmember
      rcases hmember with (⟨values, -, rfl⟩ | ⟨values, -, rfl⟩) | ⟨values, hvalues, rfl⟩
      · exact distinctNames_stringArray values
      · exact distinctNames_stringArray values
      · rw [distinctNames_stringMap_iff]
        rwa [hvalues] at h

theorem distinctData_subsystemMembers_iff (text : Name) :
    DistinctData (subsystemMembers text) ↔ DistinctAnswers text := by
  unfold subsystemMembers
  dsimp only
  rw [← List.foldl_map (f := trimBlanks) (g := SubsystemData.readLine), ← replyLines]
  have hnames := SubsystemData.readLines_names (replyLines text) {}
  have hvalues := SubsystemData.readLines_values (replyLines text) (d := {}) nofun
  have hlevels : ((replyLines text).foldl SubsystemData.readLine {}).levels.getD [] =
      lastLevels (replyLines text) := by
    rw [SubsystemData.readLines_levels]
    split
    next => rfl
    next htitle => rw [lastLevels_eq_nil (by simpa using htitle)]; rfl
  generalize (replyLines text).foldl SubsystemData.readLine {} = d at hnames hvalues hlevels ⊢
  have hsingle : ∀ name ∈ d.members.map Prod.fst,
      name ∈ [ascii "blocked", ascii "allowed", ascii "level"] := by
    intro name hname
    rw [hnames] at hname
    obtain ⟨line, -, htitle⟩ := List.mem_filterMap.mp hname
    exact mem_of_answerTitle htitle
  rw [List.append_assoc, List.append_assoc, ← List.append_assoc (Option.toList _),
    distinctData_append_iff, distinctData_lists_iff, hlevels]
  · constructor
    · rintro ⟨hmembers, hdistinct⟩
      have hanswers := hmembers.names
      rw [hnames] at hanswers
      exact ⟨hanswers, hdistinct⟩
    · intro h
      exact ⟨⟨hnames ▸ h.answers, hvalues⟩, h.levels⟩
  · intro member hmember
    simp only [List.mem_append, Option.mem_toList, Option.map_eq_some_iff] at hmember
    rcases hmember with (⟨_, -, rfl⟩ | ⟨_, -, rfl⟩) | ⟨_, -, rfl⟩
    · exact fun hname => absurd (hsingle (ascii "blockedSubsystems") hname) (by decide)
    · exact fun hname => absurd (hsingle (ascii "allowedSubsystems") hname) (by decide)
    · exact fun hname => absurd (hsingle (ascii "subsystemLevels") hname) (by decide)

theorem distinctData_flagsMembers (text : Name) : DistinctData (flagsMembers text) := by
  have hpair : ∀ (value : Nat) (names : List Name),
      DistinctData [(ascii "value", .int value), (ascii "names", .stringArray names)] := by
    intro value names
    have hne : [ascii "value", ascii "names"].Nodup := by decide
    exact ⟨hne, List.forall_mem_cons.mpr
      ⟨trivial, List.forall_mem_singleton.mpr (distinctNames_stringArray names)⟩⟩
  unfold flagsMembers
  dsimp only
  split
  next => exact hpair _ _
  next => exact distinctData_nil

theorem distinctData_levelMembers (text : Name) : DistinctData (levelMembers text) := by
  have hlevel : ∀ level : Name, DistinctData [(ascii "level", .string level)] :=
    fun level => (distinctData_singleton_iff _ _).mpr trivial
  unfold levelMembers
  dsimp only
  split
  next =>
    split
    next => exact distinctData_nil
    next => exact hlevel _
  next => exact distinctData_nil

/-- The command is `subsystem`, in capital letters or not. -/
def AsksSubsystem (command : Name) : Prop :=
  (wordSplit (toLowerAscii command)).head? = some (ascii "subsystem")

instance : DecidablePred AsksSubsystem := fun command =>
  inferInstanceAs (Decidable ((wordSplit (toLowerAscii command)).head? = _))

theorem distinctData_dataMembers_iff (remainder text : Name) :
    DistinctData (dataMembers remainder text) ↔
      (AsksSubsystem remainder → DistinctAnswers text) := by
  unfold dataMembers AsksSubsystem
  cases wordSplit (toLowerAscii remainder) with
  | nil => exact iff_of_true distinctData_nil nofun
  | cons c words =>
      rw [List.head?_cons, Option.some.injEq]
      dsimp only
      split
      next hsubsystem => rw [distinctData_subsystemMembers_iff, imp_iff_right hsubsystem]
      next hsubsystem =>
        refine iff_of_true ?_ fun hc => absurd hc hsubsystem
        split
        next => exact (distinctData_singleton_iff _ _).mpr (distinctNames_stringArray _)
        split
        next => exact distinctData_flagsMembers text
        split
        next => exact distinctData_levelMembers text
        next => exact distinctData_nil

/-- The names that members of `data` have besides `text`. -/
def dataNames : List Name :=
  [ascii "blocked", ascii "allowed", ascii "level", ascii "blockedSubsystems",
    ascii "allowedSubsystems", ascii "subsystemLevels", ascii "channels", ascii "value",
    ascii "names"]

theorem subsystemMembers_names (text : Name) :
    ∀ member ∈ subsystemMembers text, member.1 ∈ dataNames := by
  intro member hmember
  unfold subsystemMembers at hmember
  dsimp only at hmember
  rw [← List.foldl_map (f := trimBlanks) (g := SubsystemData.readLine), ← replyLines] at hmember
  simp only [List.mem_append, Option.mem_toList, Option.map_eq_some_iff] at hmember
  rcases hmember with ((hmember | ⟨_, -, rfl⟩) | ⟨_, -, rfl⟩) | ⟨_, -, rfl⟩
  · have hname := List.mem_map_of_mem (f := Prod.fst) hmember
    rw [SubsystemData.readLines_names] at hname
    obtain ⟨line, -, htitle⟩ := List.mem_filterMap.mp hname
    exact List.mem_append_left _ (mem_of_answerTitle htitle)
  · exact (by decide : ascii "blockedSubsystems" ∈ dataNames)
  · exact (by decide : ascii "allowedSubsystems" ∈ dataNames)
  · exact (by decide : ascii "subsystemLevels" ∈ dataNames)

theorem dataMembers_names (remainder text : Name) :
    ∀ member ∈ dataMembers remainder text, member.1 ∈ dataNames := by
  unfold dataMembers
  split
  next => exact nofun
  split
  next => exact subsystemMembers_names text
  split
  next => exact List.forall_mem_singleton.mpr (by decide : ascii "channels" ∈ dataNames)
  split
  next =>
    unfold flagsMembers
    dsimp only
    split
    next =>
      rw [List.forall_mem_cons, List.forall_mem_singleton]
      exact ⟨(by decide : ascii "value" ∈ dataNames), (by decide : ascii "names" ∈ dataNames)⟩
    next => exact nofun
  split
  next =>
    unfold levelMembers
    dsimp only
    split
    next =>
      split
      next => exact nofun
      next => exact List.forall_mem_singleton.mpr (by decide : ascii "level" ∈ dataNames)
    next => exact nofun
  next => exact nofun

/-- The whole answer has distinct names. -/
theorem distinctNames_replyTree_iff (remainder text : Name) :
    (Tree.object (replyTree remainder text)).DistinctNames ↔
      (isOk text = true → AsksSubsystem remainder → DistinctAnswers text) := by
  have htext : DistinctData [(ascii "text", .string text)] :=
    (distinctData_singleton_iff _ _).mpr trivial
  have hmembers : DistinctData (if isOk text then dataMembers remainder text else []) ↔
      (isOk text = true → AsksSubsystem remainder → DistinctAnswers text) := by
    cases isOk text with
    | true => rw [if_pos rfl, imp_iff_right rfl, distinctData_dataMembers_iff]
    | false => exact iff_of_true distinctData_nil nofun
  have hdata : (Tree.object (dataTree remainder text)).DistinctNames ↔
      (isOk text = true → AsksSubsystem remainder → DistinctAnswers text) := by
    rw [dataTree, distinctNames_object_iff, distinctData_append_iff, hmembers, and_iff_left htext]
    rw [List.forall_mem_singleton]
    intro hname
    obtain ⟨member, hmember, hsame⟩ := List.mem_map.mp hname
    split at hmember
    next =>
      have hother := dataMembers_names remainder text member hmember
      rw [hsame] at hother
      exact absurd hother (by decide : ascii "text" ∉ dataNames)
    next => cases hmember
  have htitles : ((replyTree remainder text).map Prod.fst).Nodup :=
    (by decide : [ascii "ok", ascii "error", ascii "data"].Nodup)
  rw [← hdata, Tree.DistinctNames, and_iff_right htitles, Tree.distinctMembers_iff]
  unfold replyTree
  simp only [List.forall_mem_cons, List.not_mem_nil, false_implies, implies_true, and_true]
  cases isOk text <;> exact ⟨fun h => h.2.2, fun h => ⟨trivial, trivial, h⟩⟩

end Logme
