import Logme.LogmefmtJson

/-!
# Converting streams with `logmefmt`

An XML record is read back whatever its values are, since the writer escapes
all markup and `XmlUnescape` replaces the ampersands last.  But the writer
puts line feeds as they are, and the converter cuts its input at them, so a
stream comes back from XML exactly when no value has a line feed or a control
byte whose JSON escape `logmefmt` does not undo.
-/

namespace Logme.Logmefmt

open TextSearch

/-! ## Entities -/

/-- The bytes of markup, in the order in which `XmlUnescape` restores them. -/
def markup : List UInt8 := [0x22, 0x27, 0x3C, 0x3E, 0x26]

/-- The escapes that are left when only those of some bytes are. -/
def escapeSome (bytes : List UInt8) (b : UInt8) : List UInt8 :=
  if b ∈ bytes then escapeXml b else [b]

/-- An entity is an ampersand and a name. -/
theorem escapeXml_of_mem {b : UInt8} (h : b ∈ markup) :
    ∃ name, escapeXml b = 0x26 :: name ∧ 0x26 ∉ name := by
  simp only [markup, List.mem_cons, List.not_mem_nil, or_false] at h
  rcases h with rfl | rfl | rfl | rfl | rfl
  all_goals exact ⟨_, rfl, by decide⟩

theorem escapeXml_of_notMem {b : UInt8} (h : b ∉ markup) : escapeXml b = [b] := by
  simp only [markup, List.mem_cons, List.not_mem_nil, or_false, not_or] at h
  rcases h with ⟨hquote, hapostrophe, hless, hgreater, hamp⟩
  simp [escapeXml, hamp, hless, hgreater, hquote, hapostrophe]

/-- No entity begins another one. -/
theorem isPrefixOf_escapeXml {b c : UInt8} (hb : b ∈ markup) (hc : c ∈ markup)
    (hne : b ≠ c) (rest : List UInt8) :
    (escapeXml b).isPrefixOf (escapeXml c ++ rest) = false := by
  simp only [markup, List.mem_cons, List.not_mem_nil, or_false] at hb hc
  rcases hb with rfl | rfl | rfl | rfl | rfl <;>
    rcases hc with rfl | rfl | rfl | rfl | rfl <;>
    first | exact absurd rfl hne | rfl

/-- One of the replacements, while ampersands are still escaped. -/
theorem replaceAll_escapeSome {b : UInt8} {bytes : List UInt8}
    (hsuffix : b :: bytes <:+ markup) (hnew : b ∉ bytes)
    (hamp : 0x26 ∈ b :: bytes) (value : List UInt8) :
    TextSearch.replaceAll (escapeXml b) [b] (value.flatMap (escapeSome (b :: bytes))) =
      value.flatMap (escapeSome bytes) := by
  have hmarkup : ∀ c ∈ b :: bytes, c ∈ markup := fun c hc => hsuffix.subset hc
  rcases escapeXml_of_mem (hmarkup b (by simp)) with ⟨name, hname, -⟩
  induction value with
  | nil => rfl
  | cons c value ih =>
      rw [List.flatMap_cons, List.flatMap_cons, ← ih]
      by_cases hc : c ∈ b :: bytes
      · rw [escapeSome, if_pos hc]
        by_cases hfound : c = b
        · subst hfound
          rw [escapeSome, if_neg hnew, hname, replaceAll_found]
        · rcases escapeXml_of_mem (hmarkup c hc) with ⟨other, hother, hnotMem⟩
          have hbytes : c ∈ bytes := (List.mem_cons.mp hc).resolve_left hfound
          have hprefix : (escapeXml b).isPrefixOf (0x26 :: (other ++
              value.flatMap (escapeSome (b :: bytes)))) = false := by
            have hentity := isPrefixOf_escapeXml (hmarkup b (by simp)) (hmarkup c hc)
              (Ne.symm hfound) (value.flatMap (escapeSome (b :: bytes)))
            rwa [hother] at hentity
          rw [escapeSome, if_pos hbytes, hother, List.cons_append, replaceAll_cons hprefix,
            hname, replaceAll_append_of_notMem hnotMem, List.cons_append]
      · have hbytes : c ∉ bytes := fun h => hc (List.mem_cons_of_mem b h)
        have hraw : 0x26 ∉ [c] := by
          intro h
          rw [List.mem_singleton] at h
          exact hc (h ▸ hamp)
        rw [escapeSome, if_neg hc, escapeSome, if_neg hbytes, hname,
          replaceAll_append_of_notMem hraw]

theorem xmlUnescape_escapeXml (value : List UInt8) :
    xmlUnescape (value.flatMap escapeXml) = value := by
  have hall : escapeXml = escapeSome markup := by
    funext b
    rw [escapeSome]
    split
    next => rfl
    next h => exact escapeXml_of_notMem h
  have hnone : escapeSome [] = fun b => [b] := by
    funext b
    simp [escapeSome]
  unfold xmlUnescape
  rw [hall, markup]
  change TextSearch.replaceAll (escapeXml 0x26) _
    (TextSearch.replaceAll (escapeXml 0x3E) _
      (TextSearch.replaceAll (escapeXml 0x3C) _
        (TextSearch.replaceAll (escapeXml 0x27) _
          (TextSearch.replaceAll (escapeXml 0x22) _ _)))) = _
  rw [replaceAll_escapeSome (by decide) (by decide) (by decide),
    replaceAll_escapeSome (by decide) (by decide) (by decide),
    replaceAll_escapeSome (by decide) (by decide) (by decide),
    replaceAll_escapeSome (by decide) (by decide) (by decide),
    replaceAll_escapeSome (by decide) (by decide) (by decide), hnone,
    List.flatMap_singleton']

/-! ## Records -/

/-- A name that its start tag is read for. -/
structure PlainName (name : Name) : Prop where
  nonempty : name ≠ []
  space : ∀ c ∈ name, isSpace c = false
  less : 0x3C ∉ name
  greater : 0x3E ∉ name
  slash : name.head? ≠ some 0x2F

theorem PlainName.tagName_eq {name : Name} (h : PlainName name) : tagName name = name := by
  rw [tagName, List.takeWhile_eq_self_iff]
  intro c hc
  have hspaces : c ≠ 0x20 ∧ c ≠ 0x09 ∧ c ≠ 0x0D ∧ c ≠ 0x0A := by
    refine ⟨?_, ?_, ?_, ?_⟩ <;>
      (rintro rfl; exact absurd (h.space _ hc) (by decide))
  simp [hspaces]

theorem plainName_of_isName {name : Name} (h : Xml.isName name = true) : PlainName name := by
  have hnotMem : ∀ b : UInt8, b < 0x80 → Xml.isNameChar (Char.ofNat b.toNat) = false →
      b ∉ name := fun b hb hmarkup => Xml.notMem_of_isName h hb hmarkup
  refine ⟨?_, ?_, hnotMem 0x3C (by decide) (by decide), hnotMem 0x3E (by decide) (by decide),
    ?_⟩
  · rintro rfl
    cases h
  · intro c hc
    have hspaces : ∀ c : UInt8, isSpace c = true →
        c < 0x80 ∧ Xml.isNameChar (Char.ofNat c.toNat) = false :=
      Unicode.forall_byte (by decide +kernel)
    by_contra hspace
    rw [Bool.not_eq_false] at hspace
    exact hnotMem c (hspaces c hspace).1 (hspaces c hspace).2 hc
  · intro hslash
    exact hnotMem 0x2F (by decide) (by decide) (List.mem_of_mem_head? hslash)

theorem closeTag_eq (name : Name) : closeTag name = Xml.endTag name := by
  simp [closeTag, Xml.endTag, Xml.closing]

/-- One turn of the loop, with the end of the event left behind it. -/
theorem parseXmlFields_writeElement {field : Name × List UInt8}
    (hname : PlainName field.1) (turns : Nat) {behind : Nat} {text : List UInt8}
    (hbehind : behind ≤ text.length) (fields : Record) :
    parseXmlFields behind (turns + 1) (Xml.writeElement escapeXml field ++ text) fields =
      parseXmlFields behind turns text (fields ++ [field]) := by
  have hlength : ¬ (Xml.writeElement escapeXml field ++ text).length ≤ behind := by
    simp only [Xml.writeElement, Xml.startTag, List.length_append, List.length_singleton]
    omega
  have hwritten : Xml.writeElement escapeXml field ++ text =
      [] ++ ([0x3C] ++ (field.1 ++ ([0x3E] ++
        (field.2.flatMap escapeXml ++ (closeTag field.1 ++ text))))) := by
    simp [Xml.writeElement, Xml.startTag, closeTag_eq]
  have hopened : ¬ (field.1 ++ ([0x3E] ++ (field.2.flatMap escapeXml ++
      (closeTag field.1 ++ text)))).length + 1 ≤ behind := by
    simp only [List.length_append]
    omega
  have hhead : ¬ (field.1 ++ ([0x3E] ++ (field.2.flatMap escapeXml ++
      (closeTag field.1 ++ text)))).head? = some 0x2F := by
    rw [List.head?_append_of_ne_nil _ hname.nonempty]
    exact hname.slash
  have hvalue : 0x3C ∉ field.2.flatMap escapeXml := escapeXml_faithful.markup_notMem field.2
  rw [parseXmlFields, if_neg hlength, hwritten, splitFirst_append List.not_mem_nil]
  dsimp only
  rw [if_neg hopened, if_neg hhead, splitFirst_append hname.greater]
  dsimp only
  rw [hname.tagName_eq, closeTag, splitFirst_append hvalue]
  dsimp only
  rw [xmlUnescape_escapeXml]

theorem parseXmlFields_flatMap (record : Record)
    (hnames : ∀ field ∈ record, PlainName field.1) (text : List UInt8)
    {turns : Nat} (hturns : record.length < turns) (fields : Record) :
    parseXmlFields text.length turns
        (record.flatMap (Xml.writeElement escapeXml) ++ text) fields =
      some (fields ++ record) := by
  induction record generalizing turns fields with
  | nil =>
      cases turns with
      | zero => simp at hturns
      | succ turns => simp [parseXmlFields]
  | cons field record ih =>
      cases turns with
      | zero => simp at hturns
      | succ turns =>
          rw [List.forall_mem_cons] at hnames
          rw [List.flatMap_cons, List.append_assoc,
            parseXmlFields_writeElement hnames.1 turns (by simp),
            ih hnames.2 (by simpa using hturns)]
          simp

theorem formatXmlRecord_eq (record : Record) :
    formatXmlRecord record = Xml.writeRecord escapeXml eventName record := by
  have h := HoldsElements.start.foldl record
  have hfields : (record.map fun field => (field.1, Json.Value.string field.2)).map
      textField = record := by
    rw [List.map_map]
    exact List.map_id' record
  have hclose : ascii "</event>" = Xml.endTag eventName := by decide
  rw [HoldsElements, List.nil_append, hfields] at h
  rw [formatXmlRecord, h, hclose, Xml.writeRecord]

/-- White space is cut off no record. -/
theorem trim_formatXmlRecord (record : Record) :
    trim (formatXmlRecord record) = formatXmlRecord record := by
  rw [← List.append_nil (formatXmlRecord record)]
  refine (trim_append ?_ ?_ ?_ rfl).trans (List.append_nil _).symm
  · simp [formatXmlRecord_eq, Xml.writeRecord, Xml.startTag]
  · simp [formatXmlRecord_eq, Xml.writeRecord, Xml.startTag, isSpace]
  · have hlast : (Xml.endTag eventName).getLast? = some 0x3E := by decide
    rw [formatXmlRecord_eq, Xml.writeRecord,
      List.getLast?_append_of_ne_nil _ (by simp [Xml.endTag]), hlast]
    simp [isSpace]

/-- An XML record is read back, whatever bytes its values have. -/
theorem parseXmlRecord_formatXmlRecord {record : Record}
    (hnames : ∀ field ∈ record, PlainName field.1) :
    parseXmlRecord (formatXmlRecord record) = some record := by
  let elements := record.flatMap (Xml.writeElement escapeXml)
  have hfirst : formatXmlRecord record =
      ascii "<event" ++ ([0x3E] ++ (elements ++ Xml.endTag eventName)) := by
    have hstart : Xml.startTag eventName = ascii "<event" ++ [0x3E] := by decide
    rw [formatXmlRecord_eq, Xml.writeRecord, hstart]
    simp [elements]
  have hlast : formatXmlRecord record =
      (Xml.startTag eventName ++ elements) ++ (ascii "</" ++ ascii "event>") := by
    have hend : Xml.endTag eventName = ascii "</" ++ ascii "event>" := by decide
    rw [formatXmlRecord_eq, Xml.writeRecord, hend]
  have hsplitFirst : splitFirst [0x3E] (formatXmlRecord record) =
      some (ascii "<event", elements ++ Xml.endTag eventName) := by
    rw [hfirst]
    exact splitFirst_append (by decide) _ _
  have hsplitLast : splitLast (ascii "</") (formatXmlRecord record) =
      some (Xml.startTag eventName ++ elements, ascii "event>") := by
    rw [hlast]
    exact splitLast_append (by decide) _
  have hevent : (Xml.startTag eventName).length = (ascii "<event").length + 1 := rfl
  have hlength := congrArg List.length hlast
  simp only [List.length_append] at hlength
  have hbehind : (formatXmlRecord record).length -
      (Xml.startTag eventName ++ elements).length = (Xml.endTag eventName).length := by
    have hend : (Xml.endTag eventName).length =
      (ascii "</").length + (ascii "event>").length := rfl
    rw [List.length_append]
    omega
  have hstarts : ¬ (Xml.startTag eventName ++ elements).length ≤ (ascii "<event").length := by
    rw [List.length_append]
    omega
  have hturns : record.length < (elements ++ Xml.endTag eventName).length + 1 := by
    have helements : record.length ≤ elements.length :=
      Xml.length_le_flatMap_writeElement record
    rw [List.length_append]
    omega
  rw [parseXmlRecord, trim_formatXmlRecord, hsplitFirst, hsplitLast]
  dsimp only
  rw [if_neg hstarts, hbehind]
  exact parseXmlFields_flatMap record hnames _ hturns []

/-- The reader inverts the writer on records with plain names, whatever their
values are. -/
theorem xml_record_read_back (record : Record) (hnames : ∀ field ∈ record, PlainName field.1) :
    parseRecord (formatRecord record .xml) .xml = some record :=
  parseXmlRecord_formatXmlRecord hnames

/-- A value that looks like entities and tags, in an element with an ampersand in
its name. -/
theorem xml_record_read_back_markup :
    parseRecord (formatRecord [(ascii "a&b", ascii "&amp;lt;</a&b><a/>")] .xml) .xml =
      some [(ascii "a&b", ascii "&amp;lt;</a&b><a/>")] :=
  xml_record_read_back _ fun field hfield => by
    rw [List.mem_singleton.mp hfield]
    have hspace : (ascii "a&b").all (!isSpace ·) = true := by decide
    exact ⟨by decide, by simpa using hspace, by decide, by decide, by decide⟩

/-! ## Conversions without options -/

/-- The lines of a stream of records. -/
def formatLines (format : Format) (records : List Record) : List UInt8 :=
  records.flatMap fun record => formatRecord record format ++ [0x0A]

/-- The records of the lines that are not blank. -/
def parseLines (format : Format) (lines : List (List UInt8)) : Option (List Record) :=
  (lines.filter fun line => trim line != []).mapM fun line => parseRecord line format

theorem renameFields_nil (record : Record) : renameFields record [] = record :=
  List.map_id' record

/-- A conversion that succeeds has written the records of its lines. -/
theorem convertLines_success_iff (input output : Format) (lines : List (List UInt8))
    (written : List UInt8) (first : Bool) (result : List UInt8) :
    convertLines { input, output } lines written first = ⟨result, true⟩ ↔
      ∃ records, parseLines input lines = some records ∧
        result = written ++ formatLines output records := by
  induction lines generalizing written first with
  | nil =>
      simp [convertLines, Options.writeEnd, parseLines, formatLines, eq_comm]
  | cons line lines ih =>
      rw [convertLines]
      by_cases hblank : trim line = []
      · have hparse : parseLines input (line :: lines) = parseLines input lines := by
          rw [parseLines, List.filter_cons_of_neg (by simp [hblank]), ← parseLines]
        rw [if_pos hblank, hparse]
        exact ih written first
      · have hparse : parseLines input (line :: lines) =
            (parseRecord line input).bind fun record =>
              (parseLines input lines).map (record :: ·) := by
          rw [parseLines, List.filter_cons_of_pos (by simp [hblank]), List.mapM_cons]
          cases parseRecord line input with
          | none => rfl
          | some record =>
              rw [Option.bind_some, parseLines, Option.map_eq_bind]
              rfl
        rw [if_neg hblank, hparse]
        dsimp only
        cases hrecord : parseRecord line input with
        | none => simp
        | some record =>
            dsimp only
            rw [renameFields_nil, renameFields_nil, ih]
            simp [Options.writeRecord, formatLines]

theorem convert_success_iff (input output : Format) (stream result : List UInt8) :
    convert { input, output } stream = ⟨result, true⟩ ↔
      ∃ records, parseLines input (splitLines 0x0A stream) = some records ∧
        result = formatLines output records := by
  have h := convertLines_success_iff input output (splitLines 0x0A stream) [] true result
  simp only [List.nil_append] at h
  exact h

/-- A stream whose records are read from their lines as other records. -/
theorem parseLines_formatLines {format : Format} {records : List Record}
    {read : Record → Record} (hline : ∀ record ∈ records, 0x0A ∉ formatRecord record format)
    (htrim : ∀ record ∈ records, trim (formatRecord record format) ≠ [])
    (hread : ∀ record ∈ records,
      parseRecord (formatRecord record format) format = some (read record)) :
    parseLines format (splitLines 0x0A (formatLines format records)) =
      some (records.map read) := by
  have hlines : formatLines format records =
      (records.map fun record => formatRecord record format).flatMap fun line =>
        line ++ [0x0A] := by
    rw [formatLines, List.flatMap_map]
  rw [hlines, splitLines_flatMap (by simpa using hline), parseLines,
    List.filter_eq_self.mpr (by simpa using htrim)]
  clear hlines hline htrim
  induction records with
  | nil => rfl
  | cons record records ih =>
      rw [List.forall_mem_cons] at hread
      rw [List.map_cons, List.mapM_cons, hread.1, ih hread.2]
      rfl

/-! ## From JSON to XML -/

theorem newline_notMem_formatJsonRecord (record : Record) :
    0x0A ∉ formatJsonRecord record := by
  rw [formatJsonRecord_eq]
  exact Json.notMem_writeObject newline_notMem_escapeJson (by decide) (by decide) _

theorem trim_ne_nil_iff {text : List UInt8} :
    trim text ≠ [] ↔ ∃ c ∈ text, isSpace c = false := by
  rw [trim, ne_eq, List.rdropWhile_eq_nil_iff, not_forall]
  constructor
  · rintro ⟨c, h⟩
    rw [not_forall] at h
    rcases h with ⟨hmem, hspace⟩
    exact ⟨c, (List.dropWhile_sublist _).subset hmem, Bool.eq_false_iff.mpr hspace⟩
  · rintro ⟨c, hmem, hspace⟩
    rw [← List.takeWhile_append_dropWhile (p := isSpace) (l := text), List.mem_append] at hmem
    rcases hmem with hmem | hmem
    · rw [List.mem_takeWhile_imp hmem] at hspace
      cases hspace
    · refine ⟨c, fun hall => ?_⟩
      rw [hall hmem] at hspace
      cases hspace

theorem trim_formatJsonRecord (record : Record) : trim (formatJsonRecord record) ≠ [] := by
  rw [trim_ne_nil_iff, formatJsonRecord_eq]
  exact ⟨0x7B, by simp [Json.writeObject], by decide⟩

theorem convert_json_to_xml (records : List Record) :
    convert { input := .json, output := .xml } (formatLines .json records) =
      ⟨formatLines .xml (records.map readsBackAs), true⟩ := by
  rw [convert_success_iff]
  refine ⟨_, parseLines_formatLines (fun record _ => newline_notMem_formatJsonRecord record)
    (fun record _ => trim_formatJsonRecord record)
    (fun record _ => parseJsonRecord_formatJsonRecord record), rfl⟩

/-! ## From XML to JSON -/

theorem newline_notMem_escapeXml {b : UInt8} (hb : b ≠ 0x0A) : 0x0A ∉ escapeXml b := by
  by_cases hmarkup : b ∈ markup
  · simp only [markup, List.mem_cons, List.not_mem_nil, or_false] at hmarkup
    rcases hmarkup with rfl | rfl | rfl | rfl | rfl <;> decide
  · rw [escapeXml_of_notMem hmarkup, List.mem_singleton]
    exact hb.symm

theorem newline_mem_formatXmlRecord {record : Record} {field : Name × List UInt8}
    (hfield : field ∈ record) (hnewline : 0x0A ∈ field.2) :
    0x0A ∈ formatXmlRecord record := by
  have hvalue : 0x0A ∈ field.2.flatMap escapeXml :=
    List.mem_flatMap.mpr ⟨0x0A, hnewline, by decide⟩
  have helement : 0x0A ∈ Xml.writeElement escapeXml field := by
    simp [Xml.writeElement, hvalue]
  have helements : 0x0A ∈ record.flatMap (Xml.writeElement escapeXml) :=
    List.mem_flatMap.mpr ⟨field, hfield, helement⟩
  simp [formatXmlRecord_eq, Xml.writeRecord, helements]

theorem newline_notMem_formatXmlRecord {record : Record}
    (hnames : ∀ field ∈ record, Xml.isName field.1 = true)
    (hvalues : ∀ field ∈ record, 0x0A ∉ field.2) : 0x0A ∉ formatXmlRecord record := by
  have helements : 0x0A ∉ record.flatMap (Xml.writeElement escapeXml) := by
    intro hmem
    rcases List.mem_flatMap.mp hmem with ⟨field, hfield, helement⟩
    have hname : 0x0A ∉ field.1 :=
      Xml.notMem_of_isName (hnames field hfield) (by decide) (by decide)
    have hvalue : 0x0A ∉ field.2.flatMap escapeXml := by
      intro hescaped
      rcases List.mem_flatMap.mp hescaped with ⟨b, hb, hc⟩
      apply newline_notMem_escapeXml _ hc
      rintro rfl
      exact hvalues field hfield hb
    simp [Xml.writeElement, Xml.startTag, Xml.endTag, Xml.closing, hname, hvalue] at helement
  have hevent : (0x0A : UInt8) ∉ Xml.startTag eventName ∧
      (0x0A : UInt8) ∉ Xml.endTag eventName := by
    decide
  simp [formatXmlRecord_eq, Xml.writeRecord, helements, hevent]

theorem trim_formatXmlRecord_ne_nil (record : Record) :
    trim (formatXmlRecord record) ≠ [] := by
  rw [trim_formatXmlRecord]
  simp [formatXmlRecord_eq, Xml.writeRecord, Xml.startTag]

theorem convert_xml_to_json {records : List Record}
    (hnames : ∀ record ∈ records, ∀ field ∈ record, Xml.isName field.1 = true)
    (hvalues : ∀ record ∈ records, ∀ field ∈ record, 0x0A ∉ field.2) :
    convert { input := .xml, output := .json } (formatLines .xml records) =
      ⟨formatLines .json records, true⟩ := by
  rw [convert_success_iff]
  refine ⟨records, ?_, rfl⟩
  have hread : parseLines .xml (splitLines 0x0A (formatLines .xml records)) =
      some (records.map id) := parseLines_formatLines
    (fun record hrecord =>
      newline_notMem_formatXmlRecord (hnames record hrecord) (hvalues record hrecord))
    (fun record _ => trim_formatXmlRecord_ne_nil record)
    (fun record hrecord => parseXmlRecord_formatXmlRecord fun field hfield =>
      plainName_of_isName (hnames record hrecord field hfield))
  rwa [List.map_id] at hread

/-! ## Line feeds in values -/

/-- The number of lines that are read as records. -/
def recordLines (stream : List UInt8) : Nat :=
  ((splitLines 0x0A stream).filter fun line => trim line != []).length

theorem recordLines_append (text rest : List UInt8) :
    recordLines (text ++ 0x0A :: rest) =
      recordLines (text ++ [0x0A]) + recordLines rest := by
  rw [recordLines, splitLines_append, List.filter_append, List.length_append]
  rfl

theorem mem_splitLines {text : List UInt8} {c : UInt8} (hmem : c ∈ text)
    (hc : c ≠ 0x0A) : ∃ line ∈ splitLines 0x0A text, c ∈ line := by
  induction text with
  | nil => cases hmem
  | cons b text ih =>
      rw [splitLines]
      split
      next hnewline =>
        have hrest : c ∈ text :=
          (List.mem_cons.mp hmem).resolve_left fun h => hc (h.trans hnewline)
        rcases ih hrest with ⟨line, hline, hcline⟩
        exact ⟨line, List.mem_cons_of_mem _ hline, hcline⟩
      next =>
        rcases List.mem_cons.mp hmem with rfl | hrest
        · split
          next => exact ⟨[c], by simp, by simp⟩
          next line lines _ => exact ⟨c :: line, by simp, by simp⟩
        · rcases ih hrest with ⟨line, hline, hcline⟩
          split
          next hempty =>
            rw [hempty] at hline
            cases hline
          next first lines hlines =>
            rw [hlines] at hline
            rcases List.mem_cons.mp hline with rfl | hline
            · exact ⟨b :: line, by simp, by simp [hcline]⟩
            · exact ⟨line, by simp [hline], hcline⟩

theorem recordLines_pos {text : List UInt8} {c : UInt8} (hmem : c ∈ text)
    (hspace : isSpace c = false) : 1 ≤ recordLines (text ++ [0x0A]) := by
  have hc : c ≠ 0x0A := by
    rintro rfl
    cases hspace
  have hmem : c ∈ text ++ [0x0A] := List.mem_append_left _ hmem
  rcases mem_splitLines hmem hc with ⟨line, hline, hcline⟩
  apply List.length_pos_of_mem (a := line)
  rw [List.mem_filter, bne_iff_ne]
  exact ⟨hline, trim_ne_nil_iff.mpr ⟨c, hcline, hspace⟩⟩

/-- A record makes a line, and one more for a line feed in it. -/
theorem recordLines_formatXmlRecord (record : Record) :
    1 ≤ recordLines (formatXmlRecord record ++ [0x0A]) ∧
      (0x0A ∈ formatXmlRecord record →
        2 ≤ recordLines (formatXmlRecord record ++ [0x0A])) := by
  let elements := record.flatMap (Xml.writeElement escapeXml)
  have htext : formatXmlRecord record =
      0x3C :: (eventName ++ [0x3E] ++ elements ++ (0x3C :: 0x2F :: eventName) ++ [0x3E]) := by
    simp [formatXmlRecord_eq, Xml.writeRecord, Xml.startTag, Xml.endTag, Xml.closing, elements]
  refine ⟨recordLines_pos (c := 0x3C) (by simp [htext]) (by decide), ?_⟩
  intro hnewline
  rcases List.append_of_mem hnewline with ⟨before, behind, hcut⟩
  have hbefore : 0x3C ∈ before := by
    cases before with
    | nil =>
        rw [htext] at hcut
        simp at hcut
    | cons b before =>
        rw [htext, List.cons_append, List.cons.injEq] at hcut
        simp [hcut.1]
  have hbehind : 0x3E ∈ behind := by
    have hlast := congrArg List.getLast? hcut
    rw [htext, ← List.cons_append, List.getLast?_append_of_ne_nil _ (by simp),
      List.getLast?_append_of_ne_nil _ (by simp)] at hlast
    cases behind with
    | nil => simp at hlast
    | cons b behind =>
        rw [List.getLast?_cons_cons] at hlast
        exact List.mem_of_mem_getLast? hlast.symm
  rw [hcut, List.append_assoc, List.cons_append, recordLines_append]
  have hfirst := recordLines_pos hbefore (by decide)
  have hsecond := recordLines_pos hbehind (by decide)
  omega

theorem newline_notMem_of_recordLines (records : List Record) :
    records.length ≤ recordLines (formatLines .xml records) ∧
      (recordLines (formatLines .xml records) = records.length →
        ∀ record ∈ records, 0x0A ∉ formatXmlRecord record) := by
  induction records with
  | nil => simp
  | cons record records ih =>
      rcases recordLines_formatXmlRecord record with ⟨hone, htwo⟩
      have hlines : recordLines (formatLines .xml (record :: records)) =
          recordLines (formatXmlRecord record ++ [0x0A]) +
            recordLines (formatLines .xml records) := by
        rw [← recordLines_append]
        simp [formatLines, formatRecord]
      rw [hlines, List.length_cons, List.forall_mem_cons]
      refine ⟨by omega, ?_⟩
      intro hcount
      refine ⟨?_, ih.2 (by omega)⟩
      intro hnewline
      have hlines := htwo hnewline
      omega

/-! ## Both ways -/

/-- The records of a stream of JSON lines, as a JSON reader reads them. -/
def readLines (stream : List UInt8) : List (Option (List (Name × Json.Value))) :=
  (splitLines 0x0A stream).map Json.readObject

theorem readLines_formatLines (records : List Record) :
    readLines (formatLines .json records) = records.map fun record => some (members record) := by
  have hlines : formatLines .json records =
      (records.map formatJsonRecord).flatMap fun line => line ++ [0x0A] := by
    rw [List.flatMap_map]
    rfl
  have hnewline : ∀ line ∈ records.map formatJsonRecord, 0x0A ∉ line := by
    simpa using fun record _ => newline_notMem_formatJsonRecord record
  rw [readLines, hlines, splitLines_flatMap hnewline, List.map_map]
  apply List.map_congr_left
  intro record _
  have hread := escapeJson_faithful.readObject_writeObject (members record) [] (by simp)
  rw [List.append_nil, ← formatJsonRecord_eq] at hread
  exact hread

theorem members_injective : Function.Injective members := by
  apply List.map_injective_iff.mpr
  rintro ⟨name, value⟩ ⟨name', value'⟩ h
  simpa using h

/-- A name has no control byte at all. -/
theorem readable_of_isName {name : Name} (h : Xml.isName name = true) : Readable name := by
  intro b hb
  by_contra hcontrol
  have hlow : b < 0x20 := by
    by_contra hlarge
    simp [isReadable, hlarge] at hcontrol
  have hall : ∀ n < 32, Xml.isNameChar (Char.ofNat n) = false := by
    decide
  have hchar := hall b.toNat (UInt8.lt_iff_toNat_lt.mp hlow)
  exact Xml.notMem_of_isName h (UInt8.lt_trans hlow (by decide)) hchar hb

theorem isName_readsBackAs {record : Record}
    (hnames : ∀ field ∈ record, Xml.isName field.1 = true) :
    ∀ field ∈ readsBackAs record, Xml.isName field.1 = true := by
  intro field hfield
  rcases List.mem_map.mp hfield with ⟨source, hsource, rfl⟩
  have hname := hnames source hsource
  rwa [← flatMap_readsAs_of_readable (readable_of_isName hname)] at hname

/-- A conversion from XML reads one record for each line. -/
theorem length_of_parseLines {format : Format} {stream : List UInt8} {records : List Record}
    (h : parseLines format (splitLines 0x0A stream) = some records) :
    recordLines stream = records.length := by
  rw [recordLines]
  unfold parseLines at h
  generalize (splitLines 0x0A stream).filter (fun line => trim line != []) = lines at h ⊢
  induction lines generalizing records with
  | nil =>
      cases h
      rfl
  | cons line lines ih =>
      simp only [List.mapM_cons, Option.bind_eq_bind, Option.bind_eq_some_iff] at h
      rcases h with ⟨record, -, rest, hrest, hpair⟩
      cases hpair
      rw [List.length_cons, List.length_cons, ih hrest]

/-- Records come back from XML exactly when no value has a line feed or a
control byte without an escape of one letter. -/
theorem json_xml_json_iff (records : List Record)
    (hnames : ∀ record ∈ records, ∀ field ∈ record, Xml.isName field.1 = true) :
    let forth := convert { input := .json, output := .xml } (formatLines .json records)
    let back := convert { input := .xml, output := .json } forth.output
    (forth.success ∧ back.success ∧
        readLines back.output = records.map fun record => some (members record)) ↔
      ∀ record ∈ records, ∀ field ∈ record, 0x0A ∉ field.2 ∧ Readable field.2 := by
  intro forth back
  let garbled := records.map readsBackAs
  have hforth : forth = ⟨formatLines .xml garbled, true⟩ := convert_json_to_xml records
  have hgarbledNames : ∀ record ∈ garbled, ∀ field ∈ record, Xml.isName field.1 = true := by
    intro record hrecord
    rcases List.mem_map.mp hrecord with ⟨source, hsource, rfl⟩
    exact isName_readsBackAs (hnames source hsource)
  have hback : back = convert { input := .xml, output := .json }
      (formatLines .xml garbled) := by
    simp only [back, hforth]
  have hinjective : Function.Injective fun record => some (members record) :=
    fun record record' h => members_injective (Option.some.inj h)
  constructor
  · rintro ⟨-, hsuccess, hread⟩
    have hresult : convert { input := .xml, output := .json } (formatLines .xml garbled) =
        ⟨back.output, true⟩ := by
      rw [← hback, ← hsuccess]
    rcases (convert_success_iff ..).mp hresult with ⟨parsed, hparsed, houtput⟩
    have hlength : recordLines (formatLines .xml garbled) = garbled.length := by
      rw [houtput, readLines_formatLines] at hread
      have hlengths := congrArg List.length hread
      simp only [List.length_map] at hlengths
      rw [length_of_parseLines hparsed, hlengths, List.length_map]
    have hnewline : ∀ record ∈ garbled, ∀ field ∈ record, 0x0A ∉ field.2 := by
      intro record hrecord field hfield hmem
      exact (newline_notMem_of_recordLines garbled).2 hlength record hrecord
        (newline_mem_formatXmlRecord hfield hmem)
    have hkept : garbled = records := by
      rw [hback, convert_xml_to_json hgarbledNames hnewline, readLines_formatLines] at hread
      exact List.map_injective_iff.mpr hinjective hread
    intro record hrecord field hfield
    refine ⟨hnewline record (hkept.symm ▸ hrecord) field hfield, ?_⟩
    have hmem : record ∈ garbled := hkept.symm ▸ hrecord
    rcases List.mem_map.mp hmem with ⟨source, -, rfl⟩
    exact (readableRecord_readsBackAs source field hfield).2
  · intro hvalues
    have hkept : garbled = records := by
      have hself : ∀ record ∈ records, readsBackAs record = record := by
        intro record hrecord
        apply readsBackAs_of_readable
        intro field hfield
        exact ⟨readable_of_isName (hnames record hrecord field hfield),
          (hvalues record hrecord field hfield).2⟩
      exact (List.map_congr_left hself).trans (List.map_id' records)
    have hconverted := convert_xml_to_json hnames fun record hrecord field hfield =>
      (hvalues record hrecord field hfield).1
    rw [hforth, hback, hkept, hconverted]
    exact ⟨rfl, rfl, readLines_formatLines records⟩

theorem json_xml_json_iff_markup :
    let records : List Record := [[(ascii "message", ascii "a<b,\"c")], []]
    let forth := convert { input := .json, output := .xml } (formatLines .json records)
    let back := convert { input := .xml, output := .json } forth.output
    forth.success ∧ back.success ∧
      readLines back.output = records.map fun record => some (members record) := by
  apply (json_xml_json_iff [[(ascii "message", ascii "a<b,\"c")], []] ?_).mpr
  · simp only [List.forall_mem_cons, List.not_mem_nil, IsEmpty.forall_iff, implies_true, and_true]
    exact ⟨by decide, List.all_eq_true.mp (by decide)⟩
  · simp only [List.forall_mem_cons, List.not_mem_nil, IsEmpty.forall_iff, implies_true, and_true]
    rw [Xml.isName, Unicode.decode_ascii (by decide)]
    decide

/-- A line feed in a value cuts the XML record, and its first line is none. -/
theorem line_feed_cuts_record :
    let records : List Record := [[(ascii "message", ascii "a\nb")]]
    let forth := convert { input := .json, output := .xml } (formatLines .json records)
    let back := convert { input := .xml, output := .json } forth.output
    (∀ record ∈ records, ∀ field ∈ record, Xml.isName field.1 = true) ∧
      ¬ (forth.success ∧ back.success ∧
        readLines back.output = records.map fun record => some (members record)) := by
  intro records forth back
  constructor
  · simp only [records, List.forall_mem_cons, List.not_mem_nil, IsEmpty.forall_iff, implies_true,
      and_true]
    rw [Xml.isName, Unicode.decode_ascii (by decide)]
    decide
  · rintro ⟨-, hback, -⟩
    have hfails : back.success = false := by decide +kernel
    rw [hfails] at hback
    cases hback

end Logme.Logmefmt
