import Logme.ControlState

/-!
# Reading the tail of a file

`FileIo::Read` takes a file in pieces with `fgets`, keeps the offset of every
piece, and returns what stands behind one of the offsets.  A piece is a line,
or 4095 bytes of a longer one.  The text that is returned begins one piece
before the tail.
-/

namespace Logme
namespace FileIo

/-- `fgets` with room for so many bytes: the piece and the rest. -/
def fgets : Nat → List UInt8 → List UInt8 × List UInt8
  | 0, stream => ([], stream)
  | _ + 1, [] => ([], [])
  | room + 1, c :: rest =>
      if c = 0x0A then ([c], rest)
      else (c :: (fgets room rest).1, (fgets room rest).2)

/-- `sizeof(buffer) - 1`. -/
def pieceSize : Nat := 4095

structure ReadState where
  data : List UInt8
  offset : List Nat

/-- The loop of `Read`, with the number of rounds it has at most. -/
def readLoop : Nat → List UInt8 → ReadState → ReadState
  | 0, _, s => s
  | rounds + 1, stream, s =>
      if stream = [] then s
      else
        readLoop rounds (fgets pieceSize stream).2
          { data := s.data ++ cString (fgets pieceSize stream).1
            offset := s.offset ++ [s.data.length] }

inductive ReadCode where
  | noError
  | noAccess
  deriving DecidableEq

/-- `Read` of a file that can be opened or not. -/
def read (maxLines : Int) (file : Option (List UInt8)) : ReadCode × List UInt8 :=
  match file with
  | none => (.noAccess, [])
  | some stream =>
      let s := readLoop stream.length stream ⟨[], []⟩
      if s.offset = [] then (.noError, [])
      else
        let n := s.offset.length
        let pos :=
          if 0 < maxLines ∧ maxLines.toNat < n then
            s.offset.getD (n - 1 - maxLines.toNat) 0
          else 0
        (.noError, s.data.drop pos)

/-! ## Lines -/

/-- The lines with their line ends. -/
def fileLines : List UInt8 → List (List UInt8)
  | [] => []
  | c :: rest =>
      if c = 0x0A then [c] :: fileLines rest
      else
        match fileLines rest with
        | [] => [[c]]
        | line :: lines => (c :: line) :: lines

/-- The last lines, `maxLines` of them or all. -/
def lastLines (maxLines : Nat) (file : List UInt8) : List (List UInt8) :=
  (fileLines file).drop ((fileLines file).length - maxLines)

def ReturnsTail (maxLines : Int) (file : List UInt8) : Prop :=
  read maxLines (some file) = (.noError, (lastLines maxLines.toNat file).flatten)

/-- The pieces of a line. -/
def linePieces (line : List UInt8) : Nat := (line.length + (pieceSize - 1)) / pieceSize

def pieceCount (lines : List (List UInt8)) : Nat := (lines.map linePieces).sum

/-! ## Pieces -/

/-- What `fgets` takes off, one piece after the other. -/
def pieces : Nat → List UInt8 → List (List UInt8)
  | 0, _ => []
  | rounds + 1, stream =>
      if stream = [] then []
      else (fgets pieceSize stream).1 :: pieces rounds (fgets pieceSize stream).2

/-- A line: a line end stands at its end only. -/
def IsLine (line : List UInt8) : Prop :=
  line ≠ [] ∧ 0x0A ∉ line.dropLast

/-- The line is complete, or the last one. -/
def EndsLine (line rest : List UInt8) : Prop :=
  line.getLast? = some 0x0A ∨ rest = []

theorem IsLine.tail {c : UInt8} {tail : List UInt8} (h : IsLine (c :: tail))
    (hne : tail ≠ []) : c ≠ 0x0A ∧ IsLine tail := by
  have hdrop := h.2
  rw [List.dropLast_cons_of_ne_nil hne, List.mem_cons, not_or] at hdrop
  exact ⟨fun hc => hdrop.1 hc.symm, hne, hdrop.2⟩

theorem EndsLine.tail {c : UInt8} {tail rest : List UInt8}
    (h : EndsLine (c :: tail) rest) (hne : tail ≠ []) : EndsLine tail rest := by
  obtain ⟨d, more, rfl⟩ := List.exists_cons_of_ne_nil hne
  exact h.imp_left fun hlast => (List.getLast?_cons_cons ..).symm.trans hlast

theorem fgets_append (room : Nat) {line rest : List UInt8} (hline : IsLine line)
    (hends : EndsLine line rest) :
    fgets room (line ++ rest) =
      if line.length ≤ room then (line, rest)
      else (line.take room, line.drop room ++ rest) := by
  induction room generalizing line with
  | zero =>
      have hlong : ¬ line.length ≤ 0 :=
        Nat.not_le.mpr (List.length_pos_iff.mpr hline.1)
      rw [fgets, if_neg hlong]
      rfl
  | succ room ih =>
      obtain ⟨c, tail, rfl⟩ := List.exists_cons_of_ne_nil hline.1
      rw [List.cons_append, fgets]
      by_cases hnil : tail = []
      · have hshort : [c].length ≤ room + 1 := Nat.succ_le_succ (Nat.zero_le room)
        rw [hnil, List.nil_append, if_pos hshort]
        split
        next hc => rfl
        next hc =>
          rw [hnil] at hends
          have hrest : rest = [] := hends.resolve_left fun h =>
            hc (Option.some.inj h)
          rw [hrest]
          cases room <;> rfl
      · obtain ⟨hc, htail⟩ := hline.tail hnil
        rw [if_neg hc, ih htail (hends.tail hnil)]
        simp only [List.length_cons, Nat.succ_le_succ_iff, List.take_succ_cons,
          List.drop_succ_cons]
        split <;> rfl

theorem fgets_fst_append_snd (room : Nat) (stream : List UInt8) :
    (fgets room stream).1 ++ (fgets room stream).2 = stream := by
  induction room generalizing stream with
  | zero => rfl
  | succ room ih =>
      cases stream with
      | nil => rfl
      | cons c rest =>
          rw [fgets]
          split
          next => rfl
          next => exact congrArg (c :: ·) (ih rest)

theorem length_fgets_snd_lt {stream : List UInt8} (hne : stream ≠ []) :
    (fgets pieceSize stream).2.length < stream.length := by
  obtain ⟨c, rest, rfl⟩ := List.exists_cons_of_ne_nil hne
  have hfirst : (fgets pieceSize (c :: rest)).1 ≠ [] := by
    rw [pieceSize, fgets]
    split <;> exact List.cons_ne_nil _ _
  have hlength := congrArg List.length (fgets_fst_append_snd pieceSize (c :: rest))
  have hpos := List.length_pos_iff.mpr hfirst
  rw [List.length_append] at hlength
  omega

/-- More rounds than bytes make no difference. -/
theorem pieces_sufficient {rounds : Nat} {stream : List UInt8}
    (hrounds : stream.length ≤ rounds) :
    pieces rounds stream = pieces stream.length stream := by
  induction rounds using Nat.strong_induction_on generalizing stream with
  | h rounds ih =>
      by_cases hnil : stream = []
      · subst hnil
        cases rounds <;> rfl
      · obtain ⟨c, rest, rfl⟩ := List.exists_cons_of_ne_nil hnil
        obtain ⟨rounds, rfl⟩ := Nat.exists_eq_add_one_of_ne_zero
          (by rw [List.length_cons] at hrounds; omega : rounds ≠ 0)
        have hless := length_fgets_snd_lt hnil
        rw [List.length_cons] at hrounds hless
        rw [pieces, if_neg hnil, List.length_cons, pieces, if_neg hnil,
          ih rounds (by omega) (by omega)]
        by_cases heq : rest.length = rounds
        · rw [heq, ih rounds (by omega) (by omega)]
        · rw [ih rest.length (by omega) (by omega)]

def allPieces (stream : List UInt8) : List (List UInt8) := pieces stream.length stream

theorem allPieces_of_ne_nil {stream : List UInt8} (hne : stream ≠ []) :
    allPieces stream =
      (fgets pieceSize stream).1 :: allPieces (fgets pieceSize stream).2 := by
  have hless := length_fgets_snd_lt hne
  obtain ⟨c, rest, rfl⟩ := List.exists_cons_of_ne_nil hne
  rw [List.length_cons] at hless
  rw [allPieces, List.length_cons, pieces, if_neg hne,
    pieces_sufficient (Nat.le_of_lt_succ hless), allPieces]

/-! ## The pieces of the lines -/

theorem IsLine.drop {line : List UInt8} (h : IsLine line) {n : Nat}
    (hlong : n < line.length) : IsLine (line.drop n) := by
  refine ⟨fun hnil => ?_, fun hmem => h.2 ?_⟩
  · exact absurd (List.drop_eq_nil_iff.mp hnil) (by omega)
  · have hne : line.drop n ≠ [] := fun hnil =>
      absurd (List.drop_eq_nil_iff.mp hnil) (by omega)
    rw [← List.take_append_drop n line, List.dropLast_append_of_ne_nil hne]
    exact List.mem_append_right _ hmem

theorem EndsLine.drop {line rest : List UInt8} (h : EndsLine line rest) {n : Nat}
    (hlong : n < line.length) : EndsLine (line.drop n) rest := by
  refine h.imp_left fun hlast => ?_
  rw [List.getLast?_drop, if_neg (Nat.not_le.mpr hlong)]
  exact hlast

theorem pieces_line {line rest : List UInt8} (hline : IsLine line)
    (hends : EndsLine line rest) :
    ∃ group, allPieces (line ++ rest) = group ++ allPieces rest ∧
      group.flatten = line ∧ group.length = linePieces line ∧ ∀ p ∈ group, p ≠ [] := by
  induction hlength : line.length using Nat.strong_induction_on generalizing line with
  | h length ih =>
      subst hlength
      have hpos := List.length_pos_iff.mpr hline.1
      have hne : line ++ rest ≠ [] := fun h => hline.1 (List.append_eq_nil_iff.mp h).1
      have hfirst := fgets_append pieceSize hline hends
      rw [allPieces_of_ne_nil hne]
      by_cases hshort : line.length ≤ pieceSize
      · rw [if_pos hshort] at hfirst
        refine ⟨[line], by rw [hfirst]; rfl, List.flatten_singleton, ?_, ?_⟩
        · rw [linePieces, pieceSize]
          rw [pieceSize] at hshort
          rw [List.length_singleton]
          omega
        · intro p hp
          rw [List.mem_singleton.mp hp]
          exact hline.1
      · have hlong := Nat.not_le.mp hshort
        rw [if_neg hshort] at hfirst
        have hless : (line.drop pieceSize).length < line.length := by
          rw [List.length_drop, pieceSize]
          omega
        obtain ⟨group, hgroup, hflatten, hcount, hall⟩ :=
          ih _ hless (hline.drop hlong) (hends.drop hlong) rfl
        refine ⟨line.take pieceSize :: group, ?_, ?_, ?_, ?_⟩
        · rw [hfirst, hgroup]
          rfl
        · rw [List.flatten_cons, hflatten, List.take_append_drop]
        · rw [List.length_cons, hcount, linePieces, linePieces, List.length_drop]
          rw [pieceSize] at hlong ⊢
          omega
        · rw [List.forall_mem_cons]
          refine ⟨fun hnil => ?_, hall⟩
          have htake := congrArg List.length hnil
          rw [List.length_take, List.length_nil, pieceSize] at htake
          omega

/-- A file is its first line and the rest. -/
theorem fileLines_first {file : List UInt8} (hne : file ≠ []) :
    ∃ line rest, file = line ++ rest ∧ IsLine line ∧ EndsLine line rest ∧
      fileLines file = line :: fileLines rest := by
  induction file with
  | nil => exact absurd rfl hne
  | cons c file ih =>
      rw [fileLines]
      by_cases hc : c = 0x0A
      · refine ⟨[c], file, rfl, ⟨List.cons_ne_nil _ _, List.not_mem_nil⟩,
          .inl (by rw [hc]; rfl), if_pos hc⟩
      · rw [if_neg hc]
        by_cases hnil : file = []
        · subst hnil
          exact ⟨[c], [], rfl, ⟨List.cons_ne_nil _ _, List.not_mem_nil⟩, .inr rfl, rfl⟩
        · obtain ⟨line, rest, rfl, hline, hends, hlines⟩ := ih hnil
          refine ⟨c :: line, rest, rfl, ⟨List.cons_ne_nil _ _, ?_⟩, ?_, ?_⟩
          · rw [List.dropLast_cons_of_ne_nil hline.1, List.mem_cons, not_or]
            exact ⟨fun h => hc h.symm, hline.2⟩
          · obtain ⟨d, more, rfl⟩ := List.exists_cons_of_ne_nil hline.1
            exact hends.imp_left (List.getLast?_cons_cons ..).trans
          · rw [hlines]

/-- The pieces of a file are those of its lines. -/
theorem exists_groups (file : List UInt8) :
    ∃ groups : List (List (List UInt8)),
      groups.map List.flatten = fileLines file ∧ groups.flatten = allPieces file ∧
        groups.map List.length = (fileLines file).map linePieces ∧
          ∀ group ∈ groups, ∀ p ∈ group, p ≠ [] := by
  induction hlength : file.length using Nat.strong_induction_on generalizing file with
  | h length ih =>
      subst hlength
      by_cases hnil : file = []
      · subst hnil
        exact ⟨[], rfl, rfl, rfl, by simp⟩
      · obtain ⟨line, rest, rfl, hline, hends, hlines⟩ := fileLines_first hnil
        have hless : rest.length < (line ++ rest).length := by
          have hpos := List.length_pos_iff.mpr hline.1
          rw [List.length_append]
          omega
        obtain ⟨groups, hflatten, hpieces, hcounts, hall⟩ := ih _ hless rest rfl
        obtain ⟨group, hgroup, hline', hcount, hgroup'⟩ := pieces_line hline hends
        refine ⟨group :: groups, ?_, ?_, ?_, ?_⟩
        · rw [List.map_cons, hline', hflatten, hlines]
        · rw [List.flatten_cons, hpieces, hgroup]
        · rw [List.map_cons, hcount, hcounts, hlines, List.map_cons]
        · exact List.forall_mem_cons.mpr ⟨hgroup', hall⟩

/-! ## Offsets -/

/-- The offsets of the pieces, from one on. -/
def offsets : Nat → List (List UInt8) → List Nat
  | _, [] => []
  | base, p :: rest => base :: offsets (base + p.length) rest

theorem length_offsets (base : Nat) (ps : List (List UInt8)) :
    (offsets base ps).length = ps.length := by
  induction ps generalizing base with
  | nil => rfl
  | cons p rest ih => rw [offsets, List.length_cons, ih, List.length_cons]

theorem offsets_getD {ps : List (List UInt8)} {i : Nat} (hi : i < ps.length)
    (base : Nat) :
    (offsets base ps).getD i 0 = base + (ps.take i).flatten.length := by
  induction ps generalizing base i with
  | nil => exact absurd hi (Nat.not_lt_zero i)
  | cons p rest ih =>
      cases i with
      | zero => rfl
      | succ i =>
          rw [offsets, List.getD_cons_succ, ih (Nat.lt_of_succ_lt_succ hi),
            List.take_succ_cons, List.flatten_cons, List.length_append, Nat.add_assoc]

theorem readLoop_eq {rounds : Nat} {stream : List UInt8} (hnul : 0 ∉ stream)
    (s : ReadState) :
    readLoop rounds stream s =
      { data := s.data ++ (pieces rounds stream).flatten
        offset := s.offset ++ offsets s.data.length (pieces rounds stream) } := by
  induction rounds generalizing stream s with
  | zero => simp [readLoop, pieces, offsets]
  | succ rounds ih =>
      rw [readLoop, pieces]
      split
      next => simp [offsets]
      next hne =>
        have hwhole := fgets_fst_append_snd pieceSize stream
        rw [← hwhole, List.mem_append, not_or] at hnul
        rw [ih hnul.2, cString_eq_self hnul.1, offsets]
        simp [List.append_assoc]

/-- The text from the offset of a piece on. -/
theorem flatten_drop (ps : List (List UInt8)) (i : Nat) :
    ps.flatten.drop (ps.take i).flatten.length = (ps.drop i).flatten := by
  have hsplit : ps.flatten = (ps.take i).flatten ++ (ps.drop i).flatten := by
    rw [← List.flatten_append, List.take_append_drop]
  rw [hsplit, List.drop_left]

/-- The piece that the text begins with. -/
def firstPiece (maxLines n : Nat) : Nat :=
  if maxLines < n then n - 1 - maxLines else 0

theorem read_eq {file : List UInt8} (hnul : 0 ∉ file) {maxLines : Int}
    (hmax : 0 < maxLines) :
    read maxLines (some file) =
      (.noError, ((allPieces file).drop
        (firstPiece maxLines.toNat (allPieces file).length)).flatten) := by
  have hloop : readLoop file.length file ⟨[], []⟩ =
      ⟨(allPieces file).flatten, offsets 0 (allPieces file)⟩ := readLoop_eq hnul ⟨[], []⟩
  have hcount := length_offsets 0 (allPieces file)
  rw [read]
  dsimp only
  rw [hloop]
  dsimp only
  by_cases hnil : allPieces file = []
  · rw [hnil]
    simp [offsets]
  · have hoffsets : offsets 0 (allPieces file) ≠ [] := by
      intro h
      rw [h] at hcount
      exact hnil (List.eq_nil_of_length_eq_zero hcount.symm)
    rw [if_neg hoffsets, hcount, firstPiece]
    by_cases hmore : maxLines.toNat < (allPieces file).length
    · rw [if_pos ⟨hmax, hmore⟩, if_pos hmore, offsets_getD (by omega), Nat.zero_add,
        flatten_drop]
    · rw [if_neg fun h => hmore h.2, if_neg hmore]
      rfl

/-! ## The tail -/

/-- Pieces are not empty, so that the text behind one tells where it begins. -/
theorem flatten_drop_inj {ps : List (List UInt8)} (hall : ∀ p ∈ ps, p ≠ [])
    {i j : Nat} (hi : i ≤ ps.length) (hj : j ≤ ps.length) :
    (ps.drop i).flatten = (ps.drop j).flatten ↔ i = j := by
  have hless {i j : Nat} (hij : i < j) (hj : j ≤ ps.length) :
      (ps.drop j).flatten.length < (ps.drop i).flatten.length := by
    have hmem : ps[i] ∈ ps := List.getElem_mem (by omega)
    have hpos := List.length_pos_iff.mpr (hall _ hmem)
    obtain ⟨k, rfl⟩ := Nat.exists_eq_add_of_lt hij
    rw [List.drop_eq_getElem_cons (by omega : i < ps.length), List.flatten_cons,
      List.length_append, show i + k + 1 = (i + 1) + k by omega, ← List.drop_drop]
    have hrest : ((ps.drop (i + 1)).drop k).flatten.length ≤
        (ps.drop (i + 1)).flatten.length := by
      rw [← flatten_drop (ps.drop (i + 1)) k, List.length_drop]
      omega
    omega
  constructor
  · intro heq
    have hlength := congrArg List.length heq
    rcases Nat.lt_trichotomy i j with hij | hij | hij
    · have := hless hij hj
      omega
    · exact hij
    · have := hless hij hi
      omega
  · rintro rfl
    rfl

theorem length_le_pieceCount {lines : List (List UInt8)} (hall : ∀ line ∈ lines, line ≠ []) :
    lines.length ≤ pieceCount lines := by
  induction lines with
  | nil => exact Nat.le_refl _
  | cons line rest ih =>
      obtain ⟨hline, hrest⟩ := List.forall_mem_cons.mp hall
      have hpos := List.length_pos_iff.mpr hline
      have hrest' := ih hrest
      have hone : 1 ≤ linePieces line := by
        rw [linePieces, pieceSize]
        omega
      rw [pieceCount] at hrest'
      rw [pieceCount, List.map_cons, List.sum_cons, List.length_cons]
      omega

/-- The pieces of the last lines are the last pieces. -/
theorem lastLines_pieces (maxLines : Nat) (file : List UInt8) :
    (lastLines maxLines file).flatten =
        ((allPieces file).drop ((allPieces file).length -
          pieceCount (lastLines maxLines file))).flatten ∧
      pieceCount (lastLines maxLines file) ≤ (allPieces file).length := by
  obtain ⟨groups, hflatten, hpieces, hcounts, -⟩ := exists_groups file
  rw [lastLines]
  generalize (fileLines file).length - maxLines = d
  have hcount : pieceCount ((fileLines file).drop d) =
      (groups.drop d).flatten.length := by
    rw [pieceCount, List.map_drop, ← hcounts, ← List.map_drop, ← List.length_flatten]
  have hsplit : allPieces file = (groups.take d).flatten ++ (groups.drop d).flatten := by
    rw [← hpieces, ← List.flatten_append, List.take_append_drop]
  have hlength := congrArg List.length hsplit
  rw [List.length_append] at hlength
  rw [hcount]
  refine ⟨?_, by omega⟩
  rw [hlength, Nat.add_sub_cancel, hsplit, List.drop_left, ← hflatten, ← List.map_drop,
    List.flatten_flatten]

theorem length_allPieces (file : List UInt8) :
    (allPieces file).length = pieceCount (fileLines file) := by
  obtain ⟨groups, -, hpieces, hcounts, -⟩ := exists_groups file
  rw [pieceCount, ← hcounts, ← hpieces, List.length_flatten]

theorem allPieces_ne_nil {file p : List UInt8} (hp : p ∈ allPieces file) : p ≠ [] := by
  obtain ⟨groups, -, hpieces, -, hall⟩ := exists_groups file
  rw [← hpieces] at hp
  obtain ⟨group, hgroup, hmem⟩ := List.mem_flatten.mp hp
  exact hall group hgroup p hmem

theorem fileLines_ne_nil {file line : List UInt8} (hline : line ∈ fileLines file) :
    line ≠ [] := by
  induction hlength : file.length using Nat.strong_induction_on generalizing file with
  | h length ih =>
      subst hlength
      by_cases hnil : file = []
      · rw [hnil] at hline
        exact absurd hline List.not_mem_nil
      · obtain ⟨first, rest, rfl, hfirst, -, hlines⟩ := fileLines_first hnil
        have hpos := List.length_pos_iff.mpr hfirst.1
        rw [hlines] at hline
        rcases List.mem_cons.mp hline with rfl | hrest
        · exact hfirst.1
        · exact ih rest.length (by rw [List.length_append]; omega) hrest rfl

/-- The tail is returned where there is nothing before it, or where it has just
one piece more than it should have lines. -/
theorem returnsTail_iff {file : List UInt8} (hnul : 0 ∉ file) {maxLines : Int}
    (hmax : 0 < maxLines) :
    ReturnsTail maxLines file ↔
      pieceCount (fileLines file) ≤ maxLines.toNat ∨
        pieceCount (lastLines maxLines.toNat file) = maxLines.toNat + 1 := by
  obtain ⟨htail, hle⟩ := lastLines_pieces maxLines.toNat file
  have hcount := length_allPieces file
  have hlines := length_le_pieceCount fun line => @fileLines_ne_nil file line
  have hinj {i : Nat} (hi : i ≤ (allPieces file).length) :=
    flatten_drop_inj (fun p => @allPieces_ne_nil file p) hi
      (Nat.sub_le (allPieces file).length (pieceCount (lastLines maxLines.toNat file)))
  rw [ReturnsTail, read_eq hnul hmax, Prod.mk.injEq, and_iff_right rfl, htail, firstPiece]
  by_cases hmore : maxLines.toNat < (allPieces file).length
  · rw [if_pos hmore, hinj (by omega)]
    constructor
    · intro heq
      right
      omega
    · rintro (hfew | hone)
      · omega
      · omega
  · rw [if_neg hmore, hinj (Nat.zero_le _)]
    have hall : lastLines maxLines.toNat file = fileLines file := by
      rw [lastLines, Nat.sub_eq_zero_of_le (by omega), List.drop_zero]
    rw [hall]
    constructor
    · intro _
      left
      omega
    · intro _
      omega

/-- `"a\nb\n"` -/
def twoLines : List UInt8 := [0x61, 0x0A, 0x62, 0x0A]

theorem returnsTail_twoLines_iff :
    ReturnsTail 2 twoLines ↔
      pieceCount (fileLines twoLines) ≤ (2 : Int).toNat ∨
        pieceCount (lastLines (2 : Int).toNat twoLines) = (2 : Int).toNat + 1 :=
  returnsTail_iff (by decide) (by decide)

/-- For one line both lines are returned. -/
theorem not_returnsTail_twoLines : 0 ∉ twoLines ∧ ¬ ReturnsTail 1 twoLines := by
  refine ⟨by decide, ?_⟩
  rw [ReturnsTail]
  decide

end FileIo
end Logme
