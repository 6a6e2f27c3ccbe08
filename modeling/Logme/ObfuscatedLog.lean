import Logme.DeobfuscateLogFile
import Logme.Library.StepSystem
import Logme.LogFile

/-!
# An obfuscated log and its plain twin

A backend with an obfuscation key is compared with the same backend without
one.  Both are given the same texts; when their queues are flushed and
written is up to each of them.  The converted file equals the plain one as
long as each text is taken by both backends or by none.

`AppendObfuscated` has nothing for a text that does not fit one record:
`ObfCalcRecordSize` returns 0 and `ObfEncryptRecord` fails, and the text is
gone.  An asynchronous backend also loses the text whose record does not fit
a buffer of the queue although the text itself does.
-/

namespace Logme

open FramedStream StepSystem

/-! ## The conversion of a file -/

/-- The conversion of `content` yields `text`, in place as well as, when
there is anything to convert, into another file. -/
def ConvertsTo (key : ObfKey) (content text : List UInt8) : Prop :=
  deobfuscateLogFile (some key) true content (some content) =
      (true, some text) ∧
    (content ≠ [] → ∀ out,
      deobfuscateLogFile (some key) false content out = (true, some text))

theorem ConvertsTo.unique {key : ObfKey} {content text text' : List UInt8}
    (h : ConvertsTo key content text) (h' : ConvertsTo key content text') :
    text = text' := by
  have hsame := h.1.symm.trans h'.1
  simpa using hsame

theorem startsWithSignature_of_opens {input : List UInt8}
    (h : Opens input) : startsWithSignature input := by
  match input with
  | [] => simp [Opens, recordSize, LOGOBF_HEADER_BYTES] at h
  | [_] =>
      simp only [Opens, recordSize, LOGOBF_HEADER_BYTES,
        List.length_singleton] at h
      omega
  | b0 :: b1 :: rest =>
      refine ⟨rest, ?_⟩
      have hsig : loadLe16 [b0, b1] = LOGOBF_SIGNATURE := h.1
      rw [readLe16FromFile, hsig]

theorem opens_of_encodes {key : ObfKey} {record text : List UInt8}
    (h : Encodes (nextRecord key) record text) (rest : List UInt8) :
    Opens (record ++ rest) := by
  have hnext := h.next_append rest
  rw [nextRecord_eq] at hnext
  split_ifs at hnext with hopens
  exact hopens

/-- A file of records is converted to the texts of the records. -/
theorem convertsTo_of_records {key : ObfKey} {records texts : List (List UInt8)}
    (h : List.Forall₂ (Encodes (nextRecord key)) records texts) :
    ConvertsTo key records.flatten texts.flatten := by
  cases h with
  | nil => exact ⟨rfl, fun hne => absurd rfl hne⟩
  | @cons record text records texts hrecord hrecords =>
      have hsig : startsWithSignature (record :: records).flatten := by
        rw [List.flatten_cons]
        exact startsWithSignature_of_opens (opens_of_encodes hrecord _)
      have hwhole : WholeRecordsThen key (record :: records).flatten
          (text :: texts) [] := by
        refine ⟨record :: records, by simp, ?_, by simp⟩
        exact (List.Forall₂.cons hrecord hrecords).imp fun r t =>
          (wholeRecord_iff_encodes key r t).mpr
      have hconvert : ∀ overwrite out,
          deobfuscateLogFile (some key) overwrite (record :: records).flatten
            out = (true, some (text :: texts).flatten) :=
        fun overwrite out =>
          (deobfuscateLogFile_iff key overwrite out hsig _).mpr
            ⟨text :: texts, [], hwhole, by simp, rfl⟩
      exact ⟨hconvert true _, fun _ out => hconvert false out⟩

/-! ## Appending with a key -/

namespace FileBackend

/-- Whether a backend with a key takes the text: it fits one record, and the
record is taken. -/
def takesRecord {φ : Type} (b : FileBackend φ) (text : List UInt8)
    (a : Allocation) : Bool :=
  decide (text.length ≤ 0xffff) && b.takes (obfCalcRecordSize text.length) a

/-- A text that is too long is dropped without a trace. -/
theorem appendObfuscated_long {φ : Type} (dev : FileDevice φ)
    (b : FileBackend φ) (key : ObfKey) {text : List UInt8} (clock : Clock)
    (a : Allocation) (hlong : 0xffff < text.length) :
    appendObfuscated dev b (some key) text clock a = ⟨0, b, none⟩ := by
  simp only [appendObfuscated, obfEncryptRecord]
  rw [if_pos hlong]
  rfl

theorem appendObfuscated_short {φ : Type} (dev : FileDevice φ)
    (b : FileBackend φ) (key : ObfKey) {text : List UInt8} (clock : Clock)
    (a : Allocation) (hshort : text.length ≤ 0xffff) :
    appendObfuscated dev b (some key) text clock a =
      appendOutputData dev { b with nonce := (nonceGenNext b.nonce).1 }
        (recordBytes key (nonceGenNext b.nonce).2 text) clock a := by
  have hrecord :=
    recordBytes_length key text (nonceGenNext_length b.nonce)
  have hsize := obfCalcRecordSize_eq hshort
  have hencrypt := fun cap hcap =>
    obfEncryptRecord_eq key b.nonce (List.replicate cap 0) 0 hshort hcap
  simp only [appendObfuscated]
  rw [hencrypt _ (by rw [List.length_replicate]; split_ifs <;> omega)]
  dsimp only
  rw [List.take_left' (by omega)]

theorem appendObfuscated_written_at_once {b : FileBackend LogFile}
    (key : ObfKey) {text : List UInt8} (clock : Clock) (a : Allocation)
    (hsync : b.async = false) (hopen : b.shutdownFlag = false)
    (hshort : text.length ≤ 0xffff) :
    (appendObfuscated logDevice b (some key) text clock a).backend =
      { b with
        nonce := (nonceGenNext b.nonce).1
        io := (b.io.applySizeLimit.2.writeAll
          (recordBytes key (nonceGenNext b.nonce).2 text)).2 } := by
  rw [appendObfuscated_short logDevice b key clock a hshort]
  exact appendOutputData_written_at_once clock a hsync hopen
    (encodes_recordBytes key (nonceGenNext_length b.nonce) hshort).ne_nil

/-- The file and the queue hold records whose texts make up `text`. -/
def HoldsRecords (key : ObfKey) (b : FileBackend LogFile)
    (text : List UInt8) : Prop :=
  b.io.rewritten = false →
    ∃ records texts, List.Forall₂ (Encodes (nextRecord key)) records texts ∧
      b.stored = records.flatten ∧ texts.flatten = text

theorem HoldsRecords.stores {key : ObfKey} {b b' : FileBackend LogFile}
    {text : List UInt8} (hholds : HoldsRecords key b text)
    (hstores : Stores b b' []) : HoldsRecords key b' text := by
  intro hkept
  rcases hholds (hstores.kept hkept) with ⟨records, texts, hframes, hstored, htext⟩
  refine ⟨records, texts, hframes, ?_, htext⟩
  rw [hstores.stored hkept, hstored, List.append_nil]

theorem HoldsRecords.storesRecord {key : ObfKey}
    {b b' : FileBackend LogFile} {text record added : List UInt8}
    (hholds : HoldsRecords key b text) (hstores : Stores b b' record)
    (hrecord : Encodes (nextRecord key) record added) :
    HoldsRecords key b' (text ++ added) := by
  intro hkept
  rcases hholds (hstores.kept hkept) with ⟨records, texts, hframes, hstored, htext⟩
  refine ⟨records ++ [record], texts ++ [added],
    List.rel_append hframes (.cons hrecord .nil), ?_, ?_⟩
  · rw [hstores.stored hkept, hstored]
    simp
  · rw [← htext]
    simp

/-- One append with a key adds the text, or nothing at all. -/
theorem HoldsRecords.append {key : ObfKey} {b : FileBackend LogFile}
    {all : List UInt8} (hholds : HoldsRecords key b all)
    (hunused : b.QueueUnused) (text : List UInt8) (clock : Clock)
    (a : Allocation) :
    HoldsRecords key
        (appendObfuscated logDevice b (some key) text clock a).backend
        (all ++ if b.takesRecord text a then text else []) ∧
      (appendObfuscated logDevice b (some key) text clock a).backend.QueueUnused := by
  by_cases hlength : text.length ≤ 0xffff
  · rw [appendObfuscated_short logDevice b key clock a hlength]
    let next : FileBackend LogFile :=
      { b with nonce := (nonceGenNext b.nonce).1 }
    let record := recordBytes key (nonceGenNext b.nonce).2 text
    have hnext : HoldsRecords key next all := hholds.stores (.of_same rfl rfl rfl)
    have hsize : record.length = obfCalcRecordSize text.length := by
      rw [obfCalcRecordSize_eq hlength]
      exact recordBytes_length key text (nonceGenNext_length b.nonce)
    have hstores := appendOutputData_stores next record clock a hunused
    refine ⟨?_, hstores.unused hunused⟩
    have htakes : next.takes record.length a = b.takesRecord text a := by
      rw [hsize, takesRecord, decide_eq_true hlength, Bool.true_and]
      rfl
    rw [htakes] at hstores
    cases htaken : b.takesRecord text a with
    | true =>
        rw [htaken, if_pos rfl] at hstores
        exact hnext.storesRecord hstores
          (encodes_recordBytes key (nonceGenNext_length b.nonce) hlength)
    | false =>
        rw [htaken, if_neg (by simp)] at hstores
        simpa using hnext.stores hstores
  · rw [appendObfuscated_long logDevice b key clock a (by omega)]
    simp only [takesRecord, hlength, decide_false, Bool.false_and]
    exact ⟨by simpa using hholds, hunused⟩

end FileBackend

/-! ## The twins -/

open FileBackend

/-- A text given to both backends, and whether they have room for it: one for
a record of the size that `ObfCalcRecordSize` returns, the other for the text. -/
structure Offer where
  text : List UInt8
  keyedRoom : Bool
  plainRoom : Bool

def Offer.keyedTakes (o : Offer) : Bool :=
  decide (o.text.length ≤ 0xffff) && o.keyedRoom

/-- Both backends take the text or both refuse it. -/
def Offer.SameFate (o : Offer) : Prop :=
  o.text ≠ [] → o.keyedTakes = o.plainRoom

/-- The plain backend takes whatever the backend with the key takes. -/
def Offer.Comparable (o : Offer) : Prop :=
  o.text ≠ [] → o.keyedTakes = true → o.plainRoom = true

/-- `offers` are the texts so far. -/
structure Twins where
  keyed : FileBackend LogFile
  plain : FileBackend LogFile
  offers : List Offer

inductive TwinsAction where
  | append (text : List UInt8) (clock clock' : Clock) (a a' : Allocation)
  | freeze
  | maintainKeyed (m : Maintenance)
  | maintainPlain (m : Maintenance)

namespace Twins

def initial (async : Bool) (flushAfter queueSizeLimit : Nat)
    (nonce : NonceGen) (options : Options) (maxSize : Nat)
    (a a' : Allocation) : Twins where
  keyed := .new async flushAfter queueSizeLimit nonce (.new options a)
    (.new maxSize)
  plain := .new async flushAfter queueSizeLimit nonce (.new options a')
    (.new maxSize)
  offers := []

def append (key : ObfKey) (s : Twins) (text : List UInt8)
    (clock clock' : Clock) (a a' : Allocation) : Twins where
  keyed := (s.keyed.appendObfuscated logDevice (some key) text clock a).backend
  plain := (s.plain.appendObfuscated logDevice none text clock' a').backend
  offers := s.offers ++
    [⟨text, s.keyed.takes (obfCalcRecordSize text.length) a,
      s.plain.takes text.length a'⟩]

def step (key : ObfKey) (s : Twins) : TwinsAction → Option Twins
  | .append text clock clock' a a' =>
      some (s.append key text clock clock' a a')
  | .freeze =>
      some { s with keyed := s.keyed.freeze.1, plain := s.plain.freeze.1 }
  | .maintainKeyed m => some { s with keyed := s.keyed.maintain m }
  | .maintainPlain m => some { s with plain := s.plain.maintain m }

def Quiescent (s : Twins) : Prop :=
  s.keyed.queue.bytes = [] ∧ s.plain.queue.bytes = []

/-- The size policy has not cut a file. -/
def Uncut (s : Twins) : Prop :=
  s.keyed.io.rewritten = false ∧ s.plain.io.rewritten = false

/-- The converted file is the file that the plain twin has written. -/
def Decodes (key : ObfKey) (s : Twins) : Prop :=
  ConvertsTo key s.keyed.io.content s.plain.io.content

/-! ## What the two files hold -/

def keyedText (offers : List Offer) : List UInt8 :=
  offers.flatMap fun o => if o.keyedTakes then o.text else []

def plainText (offers : List Offer) : List UInt8 :=
  offers.flatMap fun o => if o.plainRoom then o.text else []

structure Inv (key : ObfKey) (s : Twins) : Prop where
  keyed : HoldsRecords key s.keyed (keyedText s.offers)
  plain : s.plain.io.rewritten = false →
    s.plain.stored = plainText s.offers
  keyedUnused : s.keyed.QueueUnused
  plainUnused : s.plain.QueueUnused

theorem initial_inv (key : ObfKey) (async : Bool)
    (flushAfter queueSizeLimit : Nat) (nonce : NonceGen) (options : Options)
    (maxSize : Nat) (a a' : Allocation) :
    Inv key (initial async flushAfter queueSizeLimit nonce options maxSize a
      a') where
  keyed := fun _ => ⟨[], [], .nil, by
    simp [initial, FileBackend.new, stored, LogFile.new], rfl⟩
  plain := fun _ => by
    simp [initial, FileBackend.new, stored, LogFile.new, plainText]
  keyedUnused := fun _ => by simp [initial, FileBackend.new]
  plainUnused := fun _ => by simp [initial, FileBackend.new]

theorem Inv.keyedStores {key : ObfKey} {s : Twins} (hinv : s.Inv key)
    {b : FileBackend LogFile} (hstores : Stores s.keyed b []) :
    Inv key { s with keyed := b } :=
  ⟨hinv.keyed.stores hstores, hinv.plain, hstores.unused hinv.keyedUnused,
    hinv.plainUnused⟩

theorem Inv.plainStores {key : ObfKey} {s : Twins} (hinv : s.Inv key)
    {b : FileBackend LogFile} (hstores : Stores s.plain b []) :
    Inv key { s with plain := b } := by
  refine ⟨hinv.keyed, fun hkept => ?_, hinv.keyedUnused,
    hstores.unused hinv.plainUnused⟩
  dsimp only at hkept ⊢
  rw [hstores.stored hkept, hinv.plain (hstores.kept hkept), List.append_nil]

theorem append_inv {key : ObfKey} {s : Twins} (hinv : s.Inv key)
    (text : List UInt8) (clock clock' : Clock) (a a' : Allocation) :
    (s.append key text clock clock' a a').Inv key := by
  rcases hinv.keyed.append hinv.keyedUnused text clock a with
    ⟨hkeyed, hkeyedUnused⟩
  have hstores :=
    appendOutputData_stores s.plain text clock' a' hinv.plainUnused
  refine ⟨?_, ?_, hkeyedUnused, hstores.unused hinv.plainUnused⟩
  · simpa [append, keyedText, Offer.keyedTakes, takesRecord] using hkeyed
  · intro hkept
    have hstored := hstores.stored hkept
    rw [hinv.plain (hstores.kept hkept)] at hstored
    simpa [append, appendObfuscated, plainText] using hstored

theorem step_inv {key : ObfKey} {s next : Twins} {act : TwinsAction}
    (hinv : s.Inv key) (hstep : step key s act = some next) :
    next.Inv key := by
  cases act with
  | append text clock clock' a a' =>
      simp only [step, Option.some.injEq] at hstep
      subst next
      exact append_inv hinv text clock clock' a a'
  | freeze =>
      simp only [step, Option.some.injEq] at hstep
      subst next
      exact (hinv.keyedStores s.keyed.freeze_stores).plainStores
        s.plain.freeze_stores
  | maintainKeyed m =>
      simp only [step, Option.some.injEq] at hstep
      subst next
      exact hinv.keyedStores (s.keyed.maintain_stores m)
  | maintainPlain m =>
      simp only [step, Option.some.injEq] at hstep
      subst next
      exact hinv.plainStores (s.plain.maintain_stores m)

/-- The two texts are equal when the offers have had the same fate; when the
plain backend takes no less, the lengths tell that nothing else makes them
equal. -/
theorem keyedText_eq {offers : List Offer} (h : ∀ o ∈ offers, o.SameFate) :
    keyedText offers = plainText offers := by
  induction offers with
  | nil => rfl
  | cons o offers ih =>
      have hothers := ih fun o ho => h o (List.mem_cons_of_mem _ ho)
      have hhead : (if o.keyedTakes then o.text else []) =
          if o.plainRoom then o.text else [] := by
        by_cases hempty : o.text = []
        · simp [hempty]
        · rw [h o (by simp) hempty]
      simp only [keyedText, plainText, List.flatMap_cons] at hothers ⊢
      rw [hhead, hothers]

theorem Offer.length_le {o : Offer} (h : o.Comparable) :
    (if o.keyedTakes then o.text else []).length ≤
      (if o.plainRoom then o.text else []).length := by
  by_cases hempty : o.text = []
  · simp [hempty]
  · cases hkeyed : o.keyedTakes with
    | false => simp
    | true => simp [h hempty hkeyed]

theorem Offer.sameFate_of_length {o : Offer} (h : o.Comparable)
    (hlength : (if o.plainRoom then o.text else []).length ≤
      (if o.keyedTakes then o.text else []).length) : o.SameFate := by
  intro hne
  have hpos := List.length_pos_iff.mpr hne
  cases hkeyed : o.keyedTakes with
  | true => exact (h hne hkeyed).symm
  | false =>
      cases hplain : o.plainRoom with
      | false => rfl
      | true =>
          simp only [hkeyed, hplain] at hlength
          simp at hlength
          exact absurd hlength hne

theorem keyedText_length_le {offers : List Offer}
    (h : ∀ o ∈ offers, o.Comparable) :
    (keyedText offers).length ≤ (plainText offers).length := by
  induction offers with
  | nil => simp [keyedText]
  | cons o offers ih =>
      have hothers := ih fun o ho => h o (List.mem_cons_of_mem _ ho)
      have hhead := Offer.length_le (h o (by simp))
      simp only [keyedText, plainText, List.flatMap_cons,
        List.length_append] at hothers ⊢
      omega

theorem sameFate_of_length_le {offers : List Offer}
    (h : ∀ o ∈ offers, o.Comparable)
    (hlength : (plainText offers).length ≤ (keyedText offers).length) :
    ∀ o ∈ offers, o.SameFate := by
  induction offers with
  | nil => simp
  | cons o offers ih =>
      have hcomparable : ∀ o ∈ offers, o.Comparable :=
        fun o ho => h o (List.mem_cons_of_mem _ ho)
      have hothers := keyedText_length_le hcomparable
      have hhead := Offer.length_le (h o (by simp))
      simp only [keyedText, plainText, List.flatMap_cons,
        List.length_append] at hlength hothers ih
      have hfate := ih hcomparable (by omega)
      intro o' ho'
      rcases List.mem_cons.mp ho' with rfl | ho'
      · exact Offer.sameFate_of_length (h o' (by simp)) (by omega)
      · exact hfate o' ho'

/-- When nothing is queued, conversion gives the texts that were taken with
the key, and the plain file has those that were taken without. -/
theorem Inv.files {key : ObfKey} {s : Twins} (hinv : s.Inv key)
    (huncut : s.Uncut) (hquiet : s.Quiescent) :
    ConvertsTo key s.keyed.io.content (keyedText s.offers) ∧
      s.plain.io.content = plainText s.offers := by
  rcases hinv.keyed huncut.1 with ⟨records, texts, hframes, hstored, htext⟩
  have hplain := hinv.plain huncut.2
  rw [stored, hquiet.1, List.append_nil] at hstored
  rw [stored, hquiet.2, List.append_nil] at hplain
  rw [hstored, ← htext]
  exact ⟨convertsTo_of_records hframes, hplain⟩

/-- In every run, the converted file is the plain one if every text has had
the same fate with and without the key; and only then, if the key is what
made the difference. -/
theorem obfuscated_log_decodes (key : ObfKey) (async : Bool)
    (flushAfter queueSizeLimit : Nat) (nonce : NonceGen) (options : Options)
    (maxSize : Nat) (a a' : Allocation) (s : Twins)
    (hreach : Reachable (step key)
      (initial async flushAfter queueSizeLimit nonce options maxSize a a') s)
    (huncut : s.Uncut) (hquiet : s.Quiescent) :
    ((∀ o ∈ s.offers, o.SameFate) → s.Decodes key) ∧
      ((∀ o ∈ s.offers, o.Comparable) → s.Decodes key →
        ∀ o ∈ s.offers, o.SameFate) := by
  have hinv : s.Inv key :=
    hreach.invariant (fun _ _ _ hinv _ hstep => step_inv hinv hstep)
      (initial_inv key async flushAfter queueSizeLimit nonce options maxSize a
        a')
  rcases hinv.files huncut hquiet with ⟨hconverts, hplain⟩
  unfold Decodes
  rw [hplain]
  constructor
  · intro hfate
    rw [← keyedText_eq hfate]
    exact hconverts
  · intro hcomparable hdecodes
    have hsame := hconverts.unique hdecodes
    exact sameFate_of_length_le hcomparable (Nat.le_of_eq (by rw [hsame]))

/-! ## A text that fits no record -/

/-- A synchronous twin of each kind, without a size limit. -/
private def synchronous : Twins :=
  initial false 500 25165824 ⟨0, 0⟩ {} 0 ⟨0, none⟩ ⟨0, none⟩

theorem length_zeros : (List.replicate 32 (0 : UInt8)).length = 32 := by
  decide

private def zeroKey : ObfKey := ⟨List.replicate 32 0, length_zeros⟩

private theorem synchronous_plain (text : List UInt8) (hne : text ≠ []) :
    let s := synchronous.append zeroKey text ⟨0, 0⟩ ⟨0, 0⟩ ⟨1, none⟩ ⟨1, none⟩
    s.plain.queue.bytes = [] ∧ s.plain.io.rewritten = false ∧
      s.plain.io.content = text := by
  simp only [append, appendObfuscated]
  rw [appendOutputData_written_at_once _ _ rfl rfl hne]
  exact ⟨rfl, (LogFile.writeAll_frame _ text).2,
    (LogFile.writeAll_frame _ text).1⟩

private theorem not_decodes_of_long (text : List UInt8)
    (hlong : 0xffff < text.length) :
    ∃ s, Reachable (step zeroKey) synchronous s ∧ s.Uncut ∧ s.Quiescent ∧
      ¬ s.Decodes zeroKey := by
  have hne : text ≠ [] := List.ne_nil_of_length_pos (by omega)
  rcases synchronous_plain text hne with ⟨hqueue, hkept, hcontent⟩
  let s := synchronous.append zeroKey text ⟨0, 0⟩ ⟨0, 0⟩ ⟨1, none⟩ ⟨1, none⟩
  have hkeyed : s.keyed = synchronous.keyed :=
    congrArg Outcome.backend
      (appendObfuscated_long logDevice synchronous.keyed zeroKey _ _ hlong)
  refine ⟨s, .single (a := .append text ⟨0, 0⟩ ⟨0, 0⟩ ⟨1, none⟩ ⟨1, none⟩)
    trivial rfl, ⟨by rw [hkeyed]; rfl, hkept⟩, ⟨by rw [hkeyed]; rfl, hqueue⟩, ?_⟩
  intro hdecodes
  unfold Decodes at hdecodes
  rw [hkeyed, hcontent] at hdecodes
  have hnothing : ConvertsTo zeroKey synchronous.keyed.io.content [] :=
    ⟨rfl, fun hne => absurd rfl hne⟩
  exact hne (hdecodes.unique hnothing)

/-- A text of 65536 bytes is in the plain file only. -/
theorem long_text_is_lost :
    ¬ ∀ (key : ObfKey) (async : Bool) (flushAfter queueSizeLimit : Nat)
        (nonce : NonceGen) (options : Options) (maxSize : Nat)
        (a a' : Allocation) (s : Twins),
      Reachable (step key)
        (initial async flushAfter queueSizeLimit nonce options maxSize a a')
        s → s.Uncut → s.Quiescent → s.Decodes key := by
  intro hall
  have hlength : (List.replicate 65536 (0x61 : UInt8)).length = 65536 :=
    List.length_replicate
  rcases not_decodes_of_long (List.replicate 65536 0x61) (by omega) with
    ⟨s, hreach, huncut, hquiet, hnot⟩
  exact hnot (hall _ _ _ _ _ _ _ _ _ s hreach huncut hquiet)

/-- One text of three bytes. -/
theorem obfuscated_log_decodes_one_text :
    let s := synchronous.append zeroKey [0x6c, 0x6f, 0x67] ⟨0, 0⟩ ⟨0, 0⟩
      ⟨1, none⟩ ⟨1, none⟩
    s.plain.io.content = [0x6c, 0x6f, 0x67] ∧ s.Decodes zeroKey := by
  intro s
  rcases synchronous_plain [0x6c, 0x6f, 0x67] (by simp) with
    ⟨hqueue, hkept, hcontent⟩
  have hkeyed : s.keyed.queue.bytes = [] ∧ s.keyed.io.rewritten = false := by
    simp only [s, append]
    rw [appendObfuscated_written_at_once zeroKey _ _ rfl rfl (by decide)]
    exact ⟨rfl, (LogFile.writeAll_frame _ _).2⟩
  have hreach : Reachable (step zeroKey) synchronous s :=
    .single (a := .append [0x6c, 0x6f, 0x67] ⟨0, 0⟩ ⟨0, 0⟩ ⟨1, none⟩ ⟨1, none⟩)
      trivial rfl
  have hfate : ∀ o ∈ s.offers, o.SameFate := by
    intro o ho
    simp only [s, append, synchronous, initial, List.nil_append,
      List.mem_singleton] at ho
    subst o
    exact fun _ => by decide
  exact ⟨hcontent, (obfuscated_log_decodes zeroKey _ _ _ _ _ _ _ _ s hreach
    ⟨hkeyed.2, hkept⟩ ⟨hkeyed.1, hqueue⟩).1 hfate⟩

end Twins

end Logme
