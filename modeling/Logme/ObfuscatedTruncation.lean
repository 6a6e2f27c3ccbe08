import Logme.ObfuscatedLog
import Mathlib.Algebra.BigOperators.Group.List.Basic

/-!
# An obfuscated log under the truncate size policy

As long as the size policy has not cut the file, the conversion gives the
appended texts.  A cut looks for a newline in the encrypted bytes and puts a
plain notice in front of what follows it.  The file then no longer starts
with the signature of a record, and the conversion passes it on unchanged.
-/

namespace Logme

open FramedStream StepSystem FileBackend LogFile

/-- A backend with a key, and the texts that it has taken. -/
structure Logging where
  backend : FileBackend LogFile
  appended : List UInt8

inductive LoggingAction where
  | append (text : List UInt8) (clock : Clock) (a : Allocation)
  | freeze
  | maintain (m : Maintenance)

namespace Logging

def initial (async : Bool) (flushAfter queueSizeLimit : Nat)
    (nonce : NonceGen) (options : Options) (maxSize : Nat)
    (a : Allocation) : Logging where
  backend := .new async flushAfter queueSizeLimit nonce (.new options a)
    (.new maxSize)
  appended := []

def append (key : ObfKey) (s : Logging) (text : List UInt8) (clock : Clock)
    (a : Allocation) : Logging :=
  let o := s.backend.appendObfuscated logDevice (some key) text clock a
  { backend := o.backend
    appended := if o.written = 0 then s.appended else s.appended ++ text }

def step (key : ObfKey) (s : Logging) : LoggingAction → Option Logging
  | .append text clock a => some (s.append key text clock a)
  | .freeze => some { s with backend := s.backend.freeze.1 }
  | .maintain m => some { s with backend := s.backend.maintain m }

def Quiescent (s : Logging) : Prop := s.backend.queue.bytes = []

/-- The conversion accepts the file, and gives the end of what was appended
after at most a notice. -/
def Decodable (key : ObfKey) (s : Logging) : Prop :=
  ∃ text, ConvertsTo key s.backend.io.content text ∧
    ∃ notice rest, text = notice ++ rest ∧
      (notice = [] ∨ ∃ n, notice = droppedNotice n) ∧ rest <:+ s.appended

structure Inv (key : ObfKey) (s : Logging) : Prop where
  holds : HoldsRecords key s.backend s.appended
  unused : s.backend.QueueUnused

theorem initial_inv (key : ObfKey) (async : Bool)
    (flushAfter queueSizeLimit : Nat) (nonce : NonceGen) (options : Options)
    (maxSize : Nat) (a : Allocation) :
    Inv key (initial async flushAfter queueSizeLimit nonce options maxSize a) where
  holds := fun _ => ⟨[], [], .nil, by
    simp [initial, FileBackend.new, stored, LogFile.new], rfl⟩
  unused := fun _ => by simp [initial, FileBackend.new]

theorem Inv.stores {key : ObfKey} {s : Logging} (hinv : s.Inv key)
    {b : FileBackend LogFile} (hstores : Stores s.backend b []) :
    Inv key { s with backend := b } :=
  ⟨hinv.holds.stores hstores, hstores.unused hinv.unused⟩

/-- The returned count is not 0 exactly when the record was taken. -/
theorem appendObfuscated_written (b : FileBackend LogFile) (key : ObfKey)
    (text : List UInt8) (clock : Clock) (a : Allocation) :
    (appendObfuscated logDevice b (some key) text clock a).written = 0 ↔
      b.takesRecord text a = false := by
  by_cases hlength : text.length ≤ 0xffff
  · have hrecord :=
      recordBytes_length key text (nonceGenNext_length b.nonce)
    have hsize := obfCalcRecordSize_eq hlength
    have hheader : LOGOBF_HEADER_BYTES = 16 := rfl
    rw [appendObfuscated_short logDevice b key clock a hlength,
      appendOutputData_written _ clock a (by omega), hrecord, takesRecord,
      decide_eq_true hlength, Bool.true_and, hsize]
    change (if b.takes _ a then _ else 0) = 0 ↔ _
    cases b.takes (LOGOBF_HEADER_BYTES + text.length) a with
    | true => simp [hheader]
    | false => simp
  · rw [appendObfuscated_long logDevice b key clock a (by omega)]
    simp [takesRecord, hlength]

theorem append_inv {key : ObfKey} {s : Logging} (hinv : s.Inv key)
    (text : List UInt8) (clock : Clock) (a : Allocation) :
    (s.append key text clock a).Inv key := by
  rcases hinv.holds.append hinv.unused text clock a with ⟨hholds, hunused⟩
  have hwritten := appendObfuscated_written s.backend key text clock a
  refine ⟨?_, hunused⟩
  unfold append
  dsimp only
  cases htaken : s.backend.takesRecord text a with
  | true =>
      rw [if_neg (fun h => by simp [htaken] at hwritten; exact hwritten h)]
      simpa [htaken] using hholds
  | false =>
      rw [if_pos (hwritten.mpr htaken)]
      simpa [htaken] using hholds

theorem step_inv {key : ObfKey} {s next : Logging} {act : LoggingAction}
    (hinv : s.Inv key) (hstep : step key s act = some next) :
    next.Inv key := by
  cases act with
  | append text clock a =>
      simp only [step, Option.some.injEq] at hstep
      subst next
      exact append_inv hinv text clock a
  | freeze =>
      simp only [step, Option.some.injEq] at hstep
      subst next
      exact hinv.stores s.backend.freeze_stores
  | maintain m =>
      simp only [step, Option.some.injEq] at hstep
      subst next
      exact hinv.stores (s.backend.maintain_stores m)

/-- A file that starts with a notice is not taken for an obfuscated one. -/
theorem convertsTo_notice (key : ObfKey) {n : Nat}
    {rest text : List UInt8}
    (h : ConvertsTo key (droppedNotice n ++ rest) text) :
    text = droppedNotice n ++ rest := by
  have hplain : deobfuscateLogFile (some key) true (droppedNotice n ++ rest)
      (some (droppedNotice n ++ rest)) =
        (true, some (droppedNotice n ++ rest)) := by
    simp only [droppedNotice, bytesOf, List.map_append, List.map_cons,
      List.cons_append, deobfuscateLogFile, readLe16FromFile]
    rw [if_pos (by decide)]
    rfl
  have hsame := h.1.symm.trans hplain
  simpa using hsame

/-- The second byte of the signature is not in a notice. -/
theorem signature_not_mem_notice (n : Nat) :
    (0xA5 : UInt8) ∉ droppedNotice n := by
  intro hmem
  simp only [droppedNotice, bytesOf, List.mem_map, List.mem_append] at hmem
  have hplain : ∀ text : List Char,
      (text.all fun c => UInt8.ofNat c.toNat != 0xA5) = true →
        ∀ c ∈ text, UInt8.ofNat c.toNat ≠ 0xA5 := by
    intro text hall c hc
    simpa using List.all_eq_true.mp hall c hc
  rcases hmem with ⟨c, (hc | hc) | hc, hbyte⟩
  · exact hplain _ (by decide) c hc hbyte
  · have hdigit := Nat.isDigit_of_mem_toDigits (by decide) (by decide) hc
    simp only [Char.isDigit, Bool.and_eq_true, decide_eq_true_eq] at hdigit
    have hupper : c.toNat ≤ 57 := hdigit.2
    have hvalue := congrArg UInt8.toNat hbyte
    simp only [UInt8.toNat_ofNat'] at hvalue
    rw [Nat.mod_eq_of_lt (by omega)] at hvalue
    have h165 : (0xA5 : UInt8).toNat = 165 := rfl
    omega
  · exact hplain _ (by decide) c hc hbyte

private def zeroKey' : ObfKey := ⟨List.replicate 32 0, Twins.length_zeros⟩

/-- A synchronous backend with MaxSize 1032, and a salt of newlines. -/
private def newlineSalt : Logging :=
  initial false 500 25165824 ⟨0, 0x0A0A0A0A⟩ {} 1032 ⟨0, none⟩

/-- Before the limit is reached, the file is made of records of 17 bytes with
a newline at the seventh. -/
private structure Filling (n : Nat) (s : Logging) : Prop where
  async : s.backend.async = false
  shutdownFlag : s.backend.shutdownFlag = false
  salt : s.backend.nonce.salt = 0x0A0A0A0A
  queue : s.backend.queue.bytes = []
  maxSize : s.backend.io.maxSize = 1032
  currentSize : s.backend.io.currentSize = 17 * n
  records : ∃ records, s.backend.io.content = List.flatten records ∧
    records.length = n ∧
      ∀ r ∈ records, r.length = 17 ∧ ∃ rest, r.drop 6 = 0x0A :: rest
  appended : s.appended = List.replicate n 0x61

private theorem filling_append {n : Nat} {s : Logging} (h : Filling n s) :
    let record := recordBytes zeroKey' (nonceGenNext s.backend.nonce).2 [0x61]
    s.append zeroKey' [0x61] ⟨0, 0⟩ ⟨1, none⟩ =
      { backend :=
          { s.backend with
            nonce := (nonceGenNext s.backend.nonce).1
            io := (s.backend.io.applySizeLimit.2.writeAll record).2 }
        appended := List.replicate (n + 1) 0x61 } := by
  intro record
  have htaken : s.backend.takesRecord [0x61] ⟨1, none⟩ = true := by
    simp [takesRecord, takes, h.async, h.shutdownFlag]
  have hwritten := appendObfuscated_written s.backend zeroKey' [0x61] ⟨0, 0⟩
    ⟨1, none⟩
  rw [htaken] at hwritten
  simp only [Bool.true_eq_false, iff_false] at hwritten
  simp only [append]
  rw [if_neg hwritten, h.appended,
    appendObfuscated_written_at_once zeroKey' _ _ h.async h.shutdownFlag
      (by decide)]
  simp [record, List.replicate_succ']

private theorem filling_succ {n : Nat} {s : Logging} (h : Filling n s)
    (hbelow : 17 * n < 1032) :
    Filling (n + 1) (s.append zeroKey' [0x61] ⟨0, 0⟩ ⟨1, none⟩) := by
  let record := recordBytes zeroKey' (nonceGenNext s.backend.nonce).2 [0x61]
  have hlength : record.length = 17 :=
    recordBytes_length zeroKey' [0x61] (nonceGenNext_length s.backend.nonce)
  have hlimit : s.backend.io.applySizeLimit.2 = s.backend.io := by
    unfold LogFile.applySizeLimit LogFile.truncate
    rw [if_neg (by simp [h.maxSize]),
      if_pos (.inr (by rw [h.currentSize, h.maxSize]; exact hbelow))]
  have hsalted : ∃ rest, record.drop 6 = 0x0A :: rest := by
    simp only [record, recordBytes, nonceGenNext, h.salt]
    exact ⟨_, rfl⟩
  rcases h.records with ⟨records, hcontent, hcount, hshape⟩
  rw [filling_append h, hlimit]
  refine ⟨h.async, h.shutdownFlag, h.salt, h.queue, ?_, ?_, ?_, rfl⟩
  · simp [LogFile.writeAll, hlength, record, h.maxSize]
  · simp [LogFile.writeAll, hlength, record, h.currentSize]
    omega
  · refine ⟨records ++ [record], ?_, by simp [hcount], ?_⟩
    · simp [LogFile.writeAll_frame, hcontent, record]
    · intro r hr
      rcases List.mem_append.mp hr with hr | hr
      · exact hshape r hr
      · rw [List.mem_singleton.mp hr]
        exact ⟨hlength, hsalted⟩

private theorem newlineSalt_filling : Filling 0 newlineSalt :=
  ⟨rfl, rfl, rfl, rfl, rfl, rfl, ⟨[], rfl, rfl, by simp⟩, rfl⟩

/-- The letter `a` is logged again and again. -/
private theorem exists_filling {n : Nat} (hbelow : 17 * n < 1049) :
    ∃ s, Reachable (step zeroKey') newlineSalt s ∧ Filling n s := by
  induction n with
  | zero => exact ⟨newlineSalt, .refl, newlineSalt_filling⟩
  | succ n ih =>
      rcases ih (by omega) with ⟨s, hreach, hfilling⟩
      exact ⟨_, hreach.snoc (a := .append [0x61] ⟨0, 0⟩ ⟨1, none⟩) trivial rfl,
        filling_succ hfilling (by omega)⟩

private theorem length_flatten_of_length {m : Nat} {records : List (List UInt8)}
    (h : ∀ r ∈ records, r.length = m) :
    records.flatten.length = records.length * m := by
  induction records with
  | nil => simp
  | cons r records ih =>
      have hothers := ih fun r hr => h r (List.mem_cons_of_mem _ hr)
      rw [List.flatten_cons, List.length_append, h r (by simp), hothers,
        List.length_cons, Nat.succ_mul, Nat.add_comm]

/-- At 1037 bytes, the search from 516 on finds a newline at once: in the
salt of the thirty-first record. -/
private theorem full_cut {s : Logging} (h : Filling 61 s) :
    ∃ n rest, s.backend.io.applySizeLimit.2.content =
      droppedNotice n ++ rest := by
  rcases h.records with ⟨records, hcontent, hcount, hshape⟩
  have hsize : s.backend.io.content.length = 1037 := by
    rw [hcontent, length_flatten_of_length fun r hr => (hshape r hr).1, hcount]
  have hfront : (records.take 30).flatten.length = 510 := by
    rw [length_flatten_of_length fun r hr =>
      (hshape r (List.mem_of_mem_take hr)).1, List.length_take, hcount]
    decide
  cases hback : records.drop 30 with
  | nil =>
      have hlength := congrArg List.length hback
      rw [List.length_drop, hcount] at hlength
      simp at hlength
  | cons r others =>
      have hr := hshape r (List.mem_of_mem_drop (by rw [hback]; simp))
      rcases hr with ⟨hlength, rest, hrest⟩
      have hsplit : s.backend.io.content.drop 516 =
          0x0A :: (rest ++ others.flatten) := by
        rw [hcontent, ← List.take_append_drop 30 records,
          List.flatten_append, hback, List.flatten_cons,
          List.drop_append, hfront, List.drop_of_length_le (by omega),
          List.nil_append, List.drop_append_of_le_length (by omega), hrest]
        rfl
      have hfind : findNewline ((s.backend.io.content.drop 516).take 521) =
          .newline ((rest ++ others.flatten).take 520) := by
        rw [hsplit]
        simp [findNewline]
      unfold LogFile.applySizeLimit LogFile.truncate
      rw [if_neg (by simp [h.maxSize]),
        if_neg (by simp [h.maxSize, h.currentSize])]
      unfold LogFile.truncateToMaxSize
      rw [if_neg (by simp [h.maxSize]), if_neg (by simp [h.maxSize, hsize]),
        h.maxSize, hsize]
      have hstart : 1032 / 2 % 2 ^ 32 = 516 := rfl
      have hsize' : (1037 - 516) % 2 ^ 32 = 521 := rfl
      dsimp only
      rw [hstart, hsize', hfind]
      exact ⟨_, _, rfl⟩

end Logging

end Logme
