import Logme.Library.FramedStream
import Mathlib.Data.List.Basic
import Mathlib.Tactic.SplitIfs

/-!
# Obfuscated log records

A record is a header of signature, length of the text and nonce, followed by
the text under the ChaCha20 keystream of the nonce.  This file embeds the
functions that build, open and measure records.  The C functions write
through pointers: what a pointer refers to is an argument (`none` is the null
pointer) and the result carries its value after the call, so that a failed
call can be seen to leave the caller's variables alone.
-/

namespace Logme

/-! ## Little-endian integers -/

def storeLe16 (v : UInt16) : List UInt8 :=
  [v.toUInt8, (v >>> 8).toUInt8]

def loadLe16 (p : List UInt8) : UInt16 :=
  (p.getD 0 0).toUInt16 ||| ((p.getD 1 0).toUInt16 <<< 8)

def storeLe32 (v : UInt32) : List UInt8 :=
  [v.toUInt8, (v >>> 8).toUInt8, (v >>> 16).toUInt8, (v >>> 24).toUInt8]

def loadLe32 (p : List UInt8) : UInt32 :=
  (p.getD 0 0).toUInt32 ||| ((p.getD 1 0).toUInt32 <<< 8) |||
    ((p.getD 2 0).toUInt32 <<< 16) ||| ((p.getD 3 0).toUInt32 <<< 24)

def storeLe64 (v : UInt64) : List UInt8 :=
  [v.toUInt8, (v >>> 8).toUInt8, (v >>> 16).toUInt8, (v >>> 24).toUInt8,
    (v >>> 32).toUInt8, (v >>> 40).toUInt8, (v >>> 48).toUInt8,
    (v >>> 56).toUInt8]

/-! ## The nonce generator -/

structure NonceGen where
  counter : UInt64
  salt : UInt32
  deriving DecidableEq

/-- `time` and `address` are the low 32 bits of the clock and of the
generator's own address. -/
def nonceGenInit (time address : UInt32) : NonceGen where
  counter := 0
  salt := time ^^^ address

def nonceGenNext (gen : NonceGen) : NonceGen × List UInt8 :=
  ({ gen with counter := gen.counter + 1 },
    storeLe32 gen.salt ++ storeLe64 gen.counter)

/-! ## The keystream -/

structure ObfKey where
  bytes : List UInt8
  size : bytes.length = 32

def rotl32 (v r : UInt32) : UInt32 := (v <<< r) ||| (v >>> (32 - r))

def quarterRound (a b c d : UInt32) : UInt32 × UInt32 × UInt32 × UInt32 :=
  let a := a + b
  let d := rotl32 (d ^^^ a) 16
  let c := c + d
  let b := rotl32 (b ^^^ c) 12
  let a := a + b
  let d := rotl32 (d ^^^ a) 8
  let c := c + d
  let b := rotl32 (b ^^^ c) 7
  (a, b, c, d)

def quarterRoundAt (work : Vector UInt32 16) (a b c d : Fin 16) :
    Vector UInt32 16 :=
  let (va, vb, vc, vd) := quarterRound work[a] work[b] work[c] work[d]
  (((work.set a va).set b vb).set c vc).set d vd

def doubleRound (work : Vector UInt32 16) : Vector UInt32 16 :=
  let work := quarterRoundAt work 0 4 8 12
  let work := quarterRoundAt work 1 5 9 13
  let work := quarterRoundAt work 2 6 10 14
  let work := quarterRoundAt work 3 7 11 15
  let work := quarterRoundAt work 0 5 10 15
  let work := quarterRoundAt work 1 6 11 12
  let work := quarterRoundAt work 2 7 8 13
  quarterRoundAt work 3 4 9 14

def chaCha20State (key : ObfKey) (counter : UInt32) (nonce : List UInt8) :
    Vector UInt32 16 :=
  let k := fun offset => loadLe32 (key.bytes.drop offset)
  let n := fun offset => loadLe32 (nonce.drop offset)
  #v[0x61707865, 0x3320646e, 0x79622d32, 0x6b206574,
    k 0, k 4, k 8, k 12, k 16, k 20, k 24, k 28,
    counter, n 0, n 4, n 8]

def chaCha20Block (key : ObfKey) (counter : UInt32) (nonce : List UInt8) :
    List UInt8 :=
  let state := chaCha20State key counter nonce
  let work := Nat.repeat doubleRound 10 state
  (List.finRange 16).flatMap fun i => storeLe32 (work[i] + state[i])

/-- The loop of `ChaCha20Xor`, one block of 64 bytes at a time. -/
def chaCha20XorLoop (key : ObfKey) (nonce : List UInt8) :
    Nat → UInt32 → List UInt8 → List UInt8
  | 0, _, _ => []
  | bound + 1, counter, input =>
      if input = [] then []
      else
        List.zipWith (· ^^^ ·) (input.take 64) (chaCha20Block key counter nonce)
          ++ chaCha20XorLoop key nonce bound (counter + 1) (input.drop 64)

/-- A text of `n` bytes has at most `n` blocks. -/
def chaCha20Xor (key : ObfKey) (nonce : List UInt8) (counter : UInt32)
    (input : List UInt8) : List UInt8 :=
  chaCha20XorLoop key nonce input.length counter input

/-! ## Records -/

def LOGOBF_SIGNATURE : UInt16 := 0xA55A

def LOGOBF_NONCE_BYTES : Nat := 12

def LOGOBF_HEADER_BYTES : Nat := 2 + 2 + LOGOBF_NONCE_BYTES

def obfCalcRecordSize (plaintextLen : Nat) : Nat :=
  if plaintextLen > 0xffff then 0
  else LOGOBF_HEADER_BYTES + plaintextLen

/-- The bytes of one record. -/
def recordBytes (key : ObfKey) (nonce plaintext : List UInt8) : List UInt8 :=
  storeLe16 LOGOBF_SIGNATURE ++ storeLe16 (UInt16.ofNat plaintext.length) ++
    nonce ++ chaCha20Xor key nonce 1 plaintext

structure EncryptResult where
  rc : Bool
  nonceGen : Option NonceGen
  outRecord : Option (List UInt8)
  outRecordLen : Option Nat
  deriving DecidableEq

def obfEncryptRecord (key : Option ObfKey) (nonceGen : Option NonceGen)
    (plaintext : List UInt8) (outRecord : Option (List UInt8))
    (outRecordLen : Option Nat) : EncryptResult :=
  match key, nonceGen, outRecord, outRecordLen with
  | some key, some gen, some buffer, some len =>
      if plaintext.length > 0xffff then
        ⟨false, some gen, some buffer, some len⟩
      else
        let need := obfCalcRecordSize plaintext.length
        if buffer.length < need then
          ⟨false, some gen, some buffer, some len⟩
        else
          let (gen, nonce) := nonceGenNext gen
          ⟨true, some gen,
            some (recordBytes key nonce plaintext ++ buffer.drop need),
            some need⟩
  | _, _, _, _ => ⟨false, nonceGen, outRecord, outRecordLen⟩

structure DecryptResult where
  rc : Bool
  outPlaintext : Option (List UInt8)
  outPlaintextLen : Option Nat
  outNonce : Option (List UInt8)
  deriving DecidableEq

def obfDecryptRecord (key : Option ObfKey) (record : Option (List UInt8))
    (outPlaintext : Option (List UInt8)) (outPlaintextLen : Option Nat)
    (outNonce : Option (List UInt8)) : DecryptResult :=
  match key, record, outPlaintext, outPlaintextLen with
  | some key, some record, some buffer, some outLen =>
      if record.length < LOGOBF_HEADER_BYTES then
        ⟨false, some buffer, some outLen, outNonce⟩
      else
        let sig := loadLe16 record
        let len := (loadLe16 (record.drop 2)).toNat
        if sig ≠ LOGOBF_SIGNATURE then
          ⟨false, some buffer, some outLen, outNonce⟩
        else if record.length < LOGOBF_HEADER_BYTES + len then
          ⟨false, some buffer, some outLen, outNonce⟩
        else if buffer.length < len then
          ⟨false, some buffer, some outLen, outNonce⟩
        else
          let nonce := (record.drop 4).take LOGOBF_NONCE_BYTES
          let ct := (record.drop LOGOBF_HEADER_BYTES).take len
          ⟨true, some (chaCha20Xor key nonce 1 ct ++ buffer.drop len),
            some len, outNonce.map fun _ => nonce⟩
  | _, _, _, _ => ⟨false, outPlaintext, outPlaintextLen, outNonce⟩

/-! ## Little-endian round trips -/

theorem loadLe16_toNat (b0 b1 : UInt8) (rest : List UInt8) :
    (loadLe16 (b0 :: b1 :: rest)).toNat = b0.toNat + 256 * b1.toNat := by
  have h0 := b0.toNat_lt
  have h1 := b1.toNat_lt
  have hshift : b1.toNat <<< 8 = 256 * b1.toNat := by
    rw [Nat.shiftLeft_eq]
    omega
  have hmod : 256 * b1.toNat % 65536 = 256 * b1.toNat := by omega
  have hor : 256 * b1.toNat ||| b0.toNat = 256 * b1.toNat + b0.toNat :=
    (Nat.two_pow_add_eq_or_of_lt (i := 8) (by omega) b1.toNat).symm
  simp [loadLe16, hshift, hmod]
  rw [Nat.or_comm, hor, Nat.add_comm]

theorem loadLe16_storeLe16 (v : UInt16) (rest : List UInt8) :
    loadLe16 (storeLe16 v ++ rest) = v := by
  have hv := v.toNat_lt
  apply UInt16.toNat_inj.mp
  simp only [storeLe16, List.cons_append, List.nil_append, loadLe16_toNat]
  simp [Nat.shiftRight_eq_div_pow]
  omega

theorem storeLe16_loadLe16 (b0 b1 : UInt8) (rest : List UInt8) :
    storeLe16 (loadLe16 (b0 :: b1 :: rest)) = [b0, b1] := by
  have h0 := b0.toNat_lt
  have h1 := b1.toNat_lt
  have hload := loadLe16_toNat b0 b1 rest
  have hlow : (loadLe16 (b0 :: b1 :: rest)).toUInt8 = b0 := by
    apply UInt8.toNat_inj.mp
    simp only [UInt16.toNat_toUInt8, hload]
    omega
  have hhigh : (loadLe16 (b0 :: b1 :: rest) >>> 8).toUInt8 = b1 := by
    apply UInt8.toNat_inj.mp
    simp [Nat.shiftRight_eq_div_pow, hload]
    omega
  simp [storeLe16, hlow, hhigh]

@[simp] theorem storeLe16_length (v : UInt16) : (storeLe16 v).length = 2 := rfl

@[simp] theorem storeLe32_length (v : UInt32) : (storeLe32 v).length = 4 := rfl

@[simp] theorem storeLe64_length (v : UInt64) : (storeLe64 v).length = 8 := rfl

/-! ## The keystream is an involution -/

@[simp] theorem nonceGenNext_length (gen : NonceGen) :
    (nonceGenNext gen).2.length = LOGOBF_NONCE_BYTES := rfl

@[simp] theorem chaCha20Block_length (key : ObfKey) (counter : UInt32)
    (nonce : List UInt8) : (chaCha20Block key counter nonce).length = 64 := by
  simp [chaCha20Block, List.length_flatMap]

theorem zipWith_xor_involutive (xs ks : List UInt8)
    (h : xs.length ≤ ks.length) :
    List.zipWith (· ^^^ ·) (List.zipWith (· ^^^ ·) xs ks) ks = xs := by
  induction xs generalizing ks with
  | nil => simp
  | cons x xs ih =>
      cases ks with
      | nil => simp at h
      | cons k ks =>
          have hx : x ^^^ k ^^^ k = x := by rw [UInt8.xor_assoc, UInt8.xor_self, UInt8.xor_zero]
          simp [hx, ih ks (by simpa using h)]

theorem chaCha20XorLoop_length (key : ObfKey) (nonce : List UInt8) (bound : Nat)
    (counter : UInt32) (input : List UInt8) (h : input.length ≤ bound) :
    (chaCha20XorLoop key nonce bound counter input).length = input.length := by
  induction bound generalizing counter input with
  | zero =>
      have hnil : input = [] := List.length_eq_zero_iff.mp (by omega)
      simp [chaCha20XorLoop, hnil]
  | succ bound ih =>
      simp only [chaCha20XorLoop]
      split
      next hnil => simp [hnil]
      next hne =>
        have hpos := List.length_pos_iff.mpr hne
        rw [List.length_append, ih _ _ (by rw [List.length_drop]; omega)]
        simp
        omega

theorem take_drop_block {head rest : List UInt8} (hhead : head.length ≤ 64)
    (hrest : head.length < 64 → rest = []) :
    (head ++ rest).take 64 = head ∧ (head ++ rest).drop 64 = rest := by
  by_cases hfull : head.length < 64
  · rw [hrest hfull, List.append_nil]
    exact ⟨List.take_of_length_le hhead, List.drop_eq_nil_of_le hhead⟩
  · have hlength : head.length = 64 := by omega
    exact ⟨List.take_left' hlength, List.drop_left' hlength⟩

theorem chaCha20XorLoop_involutive (key : ObfKey) (nonce : List UInt8)
    (bound bound' : Nat) (counter : UInt32) (input : List UInt8)
    (h : input.length ≤ bound) (h' : input.length ≤ bound') :
    chaCha20XorLoop key nonce bound' counter
      (chaCha20XorLoop key nonce bound counter input) = input := by
  induction bound generalizing bound' counter input with
  | zero =>
      have hnil : input = [] := List.length_eq_zero_iff.mp (by omega)
      cases bound' <;> simp [chaCha20XorLoop, hnil]
  | succ bound ih =>
      by_cases hnil : input = []
      · cases bound' <;> simp [chaCha20XorLoop, hnil]
      · have hpos := List.length_pos_iff.mpr hnil
        cases bound' with
        | zero => omega
        | succ bound' =>
            have hdrop : (input.drop 64).length = input.length - 64 :=
              List.length_drop
            have hrest :=
              ih bound' (counter + 1) (input.drop 64) (by omega) (by omega)
            let head :=
              List.zipWith (· ^^^ ·) (input.take 64)
                (chaCha20Block key counter nonce)
            let rest :=
              chaCha20XorLoop key nonce bound (counter + 1) (input.drop 64)
            have hhead : head.length = min 64 input.length := by
              simp [head]
            have hrestLength : rest.length = input.length - 64 := by
              rw [← hdrop]
              exact chaCha20XorLoop_length key nonce bound _ _ (by omega)
            have hsplit : (head ++ rest).take 64 = head ∧
                (head ++ rest).drop 64 = rest := by
              apply take_drop_block (by omega)
              intro hshort
              exact List.length_eq_zero_iff.mp (by omega)
            have hne : head ++ rest ≠ [] := by
              apply List.ne_nil_of_length_pos
              rw [List.length_append]
              omega
            have hxor :
                List.zipWith (· ^^^ ·) head (chaCha20Block key counter nonce) =
                  input.take 64 :=
              zipWith_xor_involutive _ _ (by simp [Nat.min_le_left])
            simp only [chaCha20XorLoop, if_neg hnil]
            rw [if_neg hne, hsplit.1, hsplit.2, hxor, hrest,
              List.take_append_drop]

@[simp] theorem chaCha20Xor_length (key : ObfKey) (nonce : List UInt8)
    (counter : UInt32) (input : List UInt8) :
    (chaCha20Xor key nonce counter input).length = input.length :=
  chaCha20XorLoop_length key nonce _ counter input (Nat.le_refl _)

/-- Applying the keystream twice gives the text back. -/
theorem chaCha20Xor_involutive (key : ObfKey) (nonce : List UInt8)
    (counter : UInt32) (input : List UInt8) :
    chaCha20Xor key nonce counter (chaCha20Xor key nonce counter input) =
      input :=
  chaCha20XorLoop_involutive key nonce _ _ counter input (Nat.le_refl _) (by simp)

end Logme
