import GpuCrypt.Model.Batchers
import GpuCrypt.Spec.Fips197

/-!
# AES-256 on the host and in the shader

The key expansion of the batcher and the round loop of the shader work on little-endian words. Read
byte by byte they are the key expansion and the cipher of FIPS 197, one step at a time.
-/

namespace GpuCrypt

open LittleEndian

/-- The bytes of a word, which is a column of the state. -/
def wordBytes (w : Word) : Fips197.Word4 := #v[byte w 0, byte w 1, byte w 2, byte w 3]

/-- The state of FIPS 197 that the four words hold. -/
def stateBytes (s : Aes256Ctr.State) : Fips197.State :=
  #v[wordBytes s.s0, wordBytes s.s1, wordBytes s.s2, wordBytes s.s3]

lemma wordBytes_word (b0 b1 b2 b3 : Byte) : wordBytes (word b0 b1 b2 b3) = #v[b0, b1, b2, b3] := by
  simp only [wordBytes, byte_word_zero, byte_word_one, byte_word_two, byte_word_three]

lemma wordBytes_xor (v w : Word) :
    wordBytes (v ^^^ w) = Fips197.xorWord (wordBytes v) (wordBytes w) := by
  simp only [wordBytes, byte_xor, Fips197.xorWord_mk]

/-! ### The S-box -/

lemma sboxTable_getD (b : Byte) : sboxTable.getD b.toNat 0 = Fips197.sbox b := by
  have h := Gf256.forall_byte (p := fun b => sboxTable.getD b.toNat 0 == Fips197.sbox b)
    (by decide +kernel) b
  exact beq_iff_eq.mp h

lemma toNat_setWidth_byte (b : Byte) : (b.setWidth 32 : Word).toNat = b.toNat :=
  BitVec.toNat_setWidth_of_le (by omega)

lemma sboxAt_setWidth (b : Byte) : sboxAt (b.setWidth 32) = (Fips197.sbox b).setWidth 32 := by
  rw [sboxAt, toNat_setWidth_byte, sboxTable_getD]

lemma getB0_eq (w : Word) : Aes256Ctr.getB0 w = (byte w 0).setWidth 32 := ushiftRight_and_ff w 0

lemma getB1_eq (w : Word) : Aes256Ctr.getB1 w = (byte w 1).setWidth 32 := ushiftRight_and_ff w 1

lemma getB2_eq (w : Word) : Aes256Ctr.getB2 w = (byte w 2).setWidth 32 := ushiftRight_and_ff w 2

lemma getB3_eq (w : Word) : Aes256Ctr.getB3 w = (byte w 3).setWidth 32 := ushiftRight_and_ff w 3

lemma wordBytes_subTemp (w : Word) : wordBytes (subTemp w) = Fips197.subWord (wordBytes w) := by
  have htemp : subTemp w = sboxAt (Aes256Ctr.getB0 w) ||| (sboxAt (Aes256Ctr.getB1 w) <<< 8) |||
      (sboxAt (Aes256Ctr.getB2 w) <<< 16) ||| (sboxAt (Aes256Ctr.getB3 w) <<< 24) := rfl
  rw [htemp, getB0_eq, getB1_eq, getB2_eq, getB3_eq, sboxAt_setWidth, sboxAt_setWidth,
    sboxAt_setWidth, sboxAt_setWidth, word_eq_or, wordBytes_word, wordBytes, Fips197.subWord_mk]

def HasSbox (params : Ubo) : Prop :=
  ∀ b : Byte, Aes256Ctr.sBox params (b.setWidth 32) = (Fips197.sbox b).setWidth 32

lemma wordBytes_subWord {params : Ubo} (hsbox : HasSbox params) (w : Word) :
    wordBytes (Aes256Ctr.subWord params w) = Fips197.subWord (wordBytes w) := by
  unfold Aes256Ctr.subWord
  rw [getB0_eq, getB1_eq, getB2_eq, getB3_eq, hsbox, hsbox, hsbox, hsbox, word_eq_or,
    wordBytes_word, wordBytes, Fips197.subWord_mk]

/-! ### The rounds -/

lemma stateBytes_subShift {params : Ubo} (hsbox : HasSbox params) (s : Aes256Ctr.State) :
    stateBytes (Aes256Ctr.subShift params s) =
      Fips197.shiftRows (Fips197.subBytes (stateBytes s)) := by
  unfold Aes256Ctr.subShift Aes256Ctr.column stateBytes
  simp only [word_eq_masks, wordBytes_word, Fips197.subBytes_mk, Fips197.shiftRows_mk,
    ← wordBytes_subWord hsbox]
  simp only [wordBytes]
  rfl

lemma xtime_setWidth (b : Byte) :
    Aes256Ctr.xtime (b.setWidth 32) = (Gf256.mul 2 b).setWidth 32 := by
  have h := Gf256.forall_byte
    (p := fun b => Aes256Ctr.xtime (b.setWidth 32) == (Gf256.mul 2 b).setWidth 32)
    (by decide +kernel) b
  exact beq_iff_eq.mp h

lemma wordBytes_mixColumn (c : Word) :
    wordBytes (Aes256Ctr.mixColumn c) = Fips197.mixColumn (wordBytes c) := by
  unfold Aes256Ctr.mixColumn
  simp only [getB0_eq, getB1_eq, getB2_eq, getB3_eq, xtime_setWidth, ← BitVec.setWidth_xor,
    word_eq_or, wordBytes_word]
  rw [wordBytes, Fips197.mixColumn_mk]
  simp only [Gf256.mul_three]
  ac_rfl

/-! ### The key schedule -/

lemma rconTable_getD {j : ℕ} (hj : j < 7) : rconTable.getD j 0 = Gf256.xPow j := by
  interval_cases j <;> decide +kernel

lemma wordBytes_setWidth (b : Byte) : wordBytes (b.setWidth 32) = #v[b, 0, 0, 0] := by
  simp only [wordBytes, byte_setWidth]
  rfl

/-- What the host adds to a word of the key schedule is what the standard adds. -/
lemma wordBytes_expansionTemp {i : ℕ} (hi : 8 ≤ i) (hi' : i < 60) (w : Word) :
    wordBytes (expansionTemp i w) = Fips197.scheduleTemp 8 i (wordBytes w) := by
  unfold expansionTemp Fips197.scheduleTemp
  by_cases h0 : i % 8 = 0
  · have hrot : wordBytes ((w >>> 8) ||| (w <<< 24)) = Fips197.rotWord (wordBytes w) := by
      rw [word_eq_rotate, wordBytes_word, wordBytes, Fips197.rotWord_mk]
    have hrcon : wordBytes ((rconTable.getD (i / 8 - 1) 0).setWidth 32) = Fips197.rcon (i / 8) := by
      rw [wordBytes_setWidth, rconTable_getD (by omega)]
      rfl
    rw [if_pos h0, if_pos h0, wordBytes_xor, wordBytes_subTemp, hrot, hrcon]
  · rw [if_neg h0, if_neg h0]
    by_cases h4 : i % 8 = 4
    · rw [if_pos h4, if_pos ⟨by norm_num, h4⟩, wordBytes_subTemp]
    · rw [if_neg h4, if_neg (by tauto)]

/-- The words of the host and those of the standard, after `n` steps. -/
structure SameSchedule (w : Vector Word 60) (l : List Fips197.Word4) (n : ℕ) : Prop where
  length_eq : l.length = n
  words_eq : ∀ k, k < n → l.getD k (Vector.replicate 4 0) = wordBytes ((w[k]?).getD 0)

lemma SameSchedule.step {w : Vector Word 60} {l : List Fips197.Word4} {i : ℕ}
    (h : SameSchedule w l i) (hi : 8 ≤ i) (hi' : i < 60) :
    SameSchedule (expansionStep w i) (Fips197.expandStep 8 l i) (i + 1) := by
  unfold expansionStep Fips197.expandStep
  rw [h.words_eq (i - 8) (by omega), h.words_eq (i - 1) (by omega),
    ← wordBytes_expansionTemp hi hi', ← wordBytes_xor]
  constructor
  · rw [List.length_append, h.length_eq, List.length_singleton]
  · intro k hk
    by_cases hki : k = i
    · subst hki
      rw [List.getD_append_right _ _ _ _ (by rw [h.length_eq]), h.length_eq, Nat.sub_self]
      simp [hi']
    · rw [List.getD_append _ _ _ _ (by rw [h.length_eq]; omega), h.words_eq k (by omega)]
      simp [Ne.symm hki]

lemma SameSchedule.run {w : Vector Word 60} {l : List Fips197.Word4} (h : SameSchedule w l 8)
    {n : ℕ} (hn : 8 + n ≤ 60) :
    SameSchedule ((List.range' 8 n).foldl expansionStep w)
      ((List.range' 8 n).foldl (Fips197.expandStep 8) l) (8 + n) := by
  induction n with
  | zero => exact h
  | succ n ih =>
    rw [List.range'_1_concat, List.foldl_append, List.foldl_append]
    exact (ih (by omega)).step (by omega) (by omega)

lemma wordBytes_wordAt {n : ℕ} (v : Vector Byte n) (i : ℕ) :
    wordBytes (wordAt v i) = Fips197.wordAt v i := by
  unfold wordAt Fips197.wordAt
  rw [wordBytes_word]
  apply Vector.ext
  intro j hj
  interval_cases j <;> simp

/-- The key schedule that the batcher writes is the one of the standard. -/
theorem keyExpansion_spec (key : Vector Byte 32) {k : ℕ} (hk : k < 60) :
    (Fips197.keyExpansion 8 14 ((List.range 8).map (Fips197.wordAt key))).getD k
        (Vector.replicate 4 0) = wordBytes ((keyExpansion key)[k]) := by
  have hstart : SameSchedule
      (Vector.ofFn (fun i : Fin 60 => if i.val < 8 then wordAt key i else 0))
      ((List.range 8).map (Fips197.wordAt key)) 8 := by
    constructor
    · simp
    · intro k hk
      have hk60 : k < 60 := by omega
      simp [hk, hk60, wordBytes_wordAt, List.getD_eq_getElem?_getD]
  have hrun := (hstart.run (n := 52) le_rfl).words_eq k hk
  rw [Vector.getElem?_eq_getElem hk, Option.getD_some] at hrun
  exact hrun

/-! ### The parameter block -/

section Params

variable (ubo : Ubo) (len : ℕ) (key : Vector Byte 32) (iv : Vector Byte 16)

lemma length_wordsOf {n : ℕ} (v : Vector Byte n) : (wordsOf v).length = n / 4 := by
  simp [wordsOf]

lemma getElem_wordsOf {n : ℕ} (v : Vector Byte n) (i : ℕ) (hi : i < (wordsOf v).length) :
    (wordsOf v)[i] = wordAt v i := by
  simp [wordsOf]

lemma length_sboxTable : sboxTable.length = 256 := by decide +kernel

lemma batchSize_aes256Params :
    Aes256Ctr.batchSize (aes256Params ubo len key iv) = BitVec.ofNat 32 ((len + 15) / 16) := by
  change aes256Params ubo len key iv 0 = _
  unfold aes256Params
  rw [Ubo.write_of_not_mem, Ubo.write_of_not_mem, Ubo.write_of_not_mem, Ubo.write_of_not_mem,
    Ubo.write_single]
  all_goals omega

lemma numRounds_aes256Params : Aes256Ctr.numRounds (aes256Params ubo len key iv) = 14 := by
  change aes256Params ubo len key iv 1 = _
  unfold aes256Params
  rw [Ubo.write_of_not_mem, Ubo.write_of_not_mem, Ubo.write_of_not_mem, Ubo.write_single]
  all_goals omega

lemma roundKey_aes256Params {i : ℕ} (hi : i < 60) :
    Aes256Ctr.roundKey (aes256Params ubo len key iv) (BitVec.ofNat 32 i) =
      (keyExpansion key)[i] := by
  have hlen : i < (keyExpansion key).toList.length := by
    rw [Vector.length_toList]
    exact hi
  change aes256Params ubo len key iv (4 + (BitVec.ofNat 32 i).toNat) = _
  rw [toNat_ofNat_of_lt (by omega)]
  unfold aes256Params
  rw [Ubo.write_of_not_mem, Ubo.write_of_not_mem, Ubo.write_of_mem _ 4 hlen,
    Vector.getElem_toList]
  all_goals omega

lemma iv_aes256Params {i : ℕ} (hi : i < 4) :
    Aes256Ctr.iv (aes256Params ubo len key iv) (BitVec.ofNat 32 i) = wordAt iv i := by
  have hlen : i < (wordsOf iv).length := by
    rw [length_wordsOf]
    exact hi
  change aes256Params ubo len key iv (64 + (BitVec.ofNat 32 i).toNat) = _
  rw [toNat_ofNat_of_lt (by omega)]
  unfold aes256Params
  rw [Ubo.write_of_not_mem, Ubo.write_of_mem _ 64 hlen, getElem_wordsOf]
  omega

lemma hasSbox_aes256Params : HasSbox (aes256Params ubo len key iv) := by
  intro b
  have hlen : b.toNat < sboxTable.length := by
    rw [length_sboxTable]
    exact b.isLt
  change aes256Params ubo len key iv (68 + (b.setWidth 32 : Word).toNat) = _
  rw [toNat_setWidth_byte, aes256Params, Ubo.write_of_mem _ 68 (by rwa [List.length_map]),
    List.getElem_map, ← sboxTable_getD, List.getD_eq_getElem _ _ hlen]

end Params

/-! ### The cipher -/

def HasSchedule (params : Ubo) (w : List Fips197.Word4) : Prop :=
  ∀ k, k < 60 → w.getD k (Vector.replicate 4 0) =
    wordBytes (Aes256Ctr.roundKey params (BitVec.ofNat 32 k))

lemma stateBytes_addRoundKey {params : Ubo} {w : List Fips197.Word4} (hw : HasSchedule params w)
    {i : ℕ} (hi : i < 15) (s : Aes256Ctr.State) :
    stateBytes (Aes256Ctr.addRoundKey params (BitVec.ofNat 32 (4 * i)) s) =
      Fips197.addRoundKey w i (stateBytes s) := by
  have hword : ∀ k, k < 4 → w.getD (4 * i + k) (Vector.replicate 4 0) =
      wordBytes (Aes256Ctr.roundKey params (BitVec.ofNat 32 (4 * i) + BitVec.ofNat 32 k)) := by
    intro k hk
    rw [hw (4 * i + k) (by omega), BitVec.ofNat_add]
  unfold Aes256Ctr.addRoundKey stateBytes
  rw [Fips197.addRoundKey_mk]
  simp only [wordBytes_xor]
  rw [← Nat.add_zero (4 * i), hword 0 (by omega), Nat.add_zero, hword 1 (by omega),
    hword 2 (by omega), hword 3 (by omega)]
  rfl

lemma stateBytes_round {params : Ubo} {w : List Fips197.Word4} (hsbox : HasSbox params)
    (hw : HasSchedule params w) {r : ℕ} (hr : r < 15) (s : Aes256Ctr.State) :
    stateBytes (Aes256Ctr.round params s (BitVec.ofNat 32 r)) =
      Fips197.addRoundKey w r
        (Fips197.mixColumns (Fips197.shiftRows (Fips197.subBytes (stateBytes s)))) := by
  have hoff : (4 : Word) * BitVec.ofNat 32 r = BitVec.ofNat 32 (4 * r) := (BitVec.ofNat_mul 4 r).symm
  unfold Aes256Ctr.round
  rw [hoff, stateBytes_addRoundKey hw hr, ← stateBytes_subShift hsbox]
  simp only [stateBytes, wordBytes_mixColumn, Fips197.mixColumns_mk]

lemma stateBytes_rounds {params : Ubo} {w : List Fips197.Word4} (hsbox : HasSbox params)
    (hw : HasSchedule params w) (rs : List ℕ) (hrs : ∀ r ∈ rs, r < 15) (s : Aes256Ctr.State) :
    stateBytes (rs.foldl (fun s r => Aes256Ctr.round params s (BitVec.ofNat 32 r)) s) =
      rs.foldl (fun s i => Fips197.addRoundKey w i
        (Fips197.mixColumns (Fips197.shiftRows (Fips197.subBytes s)))) (stateBytes s) := by
  induction rs generalizing s with
  | nil => rfl
  | cons r rs ih =>
    rw [List.foldl_cons, List.foldl_cons, ih (fun r' hr' => hrs r' (List.mem_cons_of_mem _ hr')),
      stateBytes_round hsbox hw (hrs r List.mem_cons_self)]

/-- The shader's encryption is the cipher of the standard, under the key schedule and the S-box of
the parameter block. -/
theorem stateBytes_encrypt {params : Ubo} {w : List Fips197.Word4} (hsbox : HasSbox params)
    (hw : HasSchedule params w) (hrounds : Aes256Ctr.numRounds params = 14)
    (b : Aes256Ctr.State) :
    stateBytes (Aes256Ctr.encrypt params b) = Fips197.cipher 14 w (stateBytes b) := by
  have hfirst := stateBytes_addRoundKey hw (show 0 < 15 by norm_num) b
  have hrange : ∀ r ∈ List.range' 1 13, r < 15 := by
    intro r hr
    rw [List.mem_range'_1] at hr
    omega
  set start := Aes256Ctr.addRoundKey params (BitVec.ofNat 32 (4 * 0)) b
  set looped := (List.range' 1 13).foldl
    (fun s r => Aes256Ctr.round params s (BitVec.ofNat 32 r)) start
  calc stateBytes (Aes256Ctr.encrypt params b)
    _ = stateBytes (Aes256Ctr.addRoundKey params (BitVec.ofNat 32 (4 * 14))
          (Aes256Ctr.subShift params looped)) := by
        rw [Aes256Ctr.encrypt, hrounds]
        rfl
    _ = Fips197.addRoundKey w 14 (Fips197.shiftRows (Fips197.subBytes (stateBytes looped))) := by
        rw [stateBytes_addRoundKey hw (by norm_num), stateBytes_subShift hsbox]
    _ = Fips197.cipher 14 w (stateBytes b) := by
        rw [stateBytes_rounds hsbox hw _ hrange, hfirst]
        rfl

lemma stateBytes_ofBlock (block : Vector Byte 16) :
    stateBytes (Aes256Ctr.State.ofBlock block) = Fips197.toState block := by
  unfold stateBytes Aes256Ctr.State.ofBlock Fips197.toState
  simp only [wordBytes_wordAt]
  rfl

lemma toBlock_eq_ofState (s : Aes256Ctr.State) : s.toBlock = Fips197.ofState (stateBytes s) := by
  unfold Aes256Ctr.State.toBlock Fips197.ofState stateBytes wordBytes
  apply Vector.ext
  intro i hi
  interval_cases i <;> rfl

/-- With the parameter block of a job, the shader encrypts every block as FIPS 197 says. -/
lemma toBlock_encrypt (ubo : Ubo) (len : ℕ) (key : Vector Byte 32) (iv block : Vector Byte 16) :
    (Aes256Ctr.encrypt (aes256Params ubo len key iv) (.ofBlock block)).toBlock =
      Fips197.aes256 key block := by
  have hw : HasSchedule (aes256Params ubo len key iv)
      (Fips197.keyExpansion 8 14 ((List.range 8).map (Fips197.wordAt key))) := by
    intro k hk
    rw [keyExpansion_spec key hk, roundKey_aes256Params ubo len key iv hk]
  rw [toBlock_eq_ofState, stateBytes_encrypt (hasSbox_aes256Params ubo len key iv) hw
    (numRounds_aes256Params ubo len key iv), stateBytes_ofBlock]
  rfl

/-- AES-256 across host and shader: with the parameter block of a job, the shader encrypts every
block as FIPS 197 says, and it finds the IV of the job. -/
theorem aes256_block (ubo : Ubo) (len : ℕ) (key : Vector Byte 32) (iv : Vector Byte 16) :
    let params := aes256Params ubo len key iv
    (∀ block, (Aes256Ctr.encrypt params (.ofBlock block)).toBlock = Fips197.aes256 key block) ∧
      ∀ i, i < 4 → Aes256Ctr.iv params (BitVec.ofNat 32 i) = wordAt iv i :=
  ⟨fun block => toBlock_encrypt ubo len key iv block,
    fun _ hi => iv_aes256Params ubo len key iv hi⟩

end GpuCrypt
