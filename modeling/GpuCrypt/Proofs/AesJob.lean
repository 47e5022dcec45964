import GpuCrypt.Proofs.AesBlock
import GpuCrypt.Proofs.Counter
import GpuCrypt.Proofs.StreamLaw

/-!
# AES-256 jobs

The counter blocks of the shader, and what a job of the AES-256 batcher returns. The shader carries
from the last word of the IV to the one before, and no further: it counts in the last 64 bits, where
the provider counts in all 128.
-/

namespace GpuCrypt

open LittleEndian Keystream

/-! ### The counter of the shader -/

/-- The counter that wraps within its last 64 bits. -/
def counter64 (iv : Vector Byte 16) (m : ℕ) : Vector Byte 16 :=
  BigEndian.ofNat 16
    (BigEndian.toNat iv / 2 ^ 64 * 2 ^ 64 + (BigEndian.toNat iv % 2 ^ 64 + m) % 2 ^ 64)

lemma bswap_eq (w : Word) :
    Aes256Ctr.bswap w = word (byte w 3) (byte w 2) (byte w 1) (byte w 0) := word_eq_bswap w

lemma bswap_bswap (w : Word) : Aes256Ctr.bswap (Aes256Ctr.bswap w) = w := by
  rw [bswap_eq, bswap_eq]
  simp only [byte_word_zero, byte_word_one, byte_word_two, byte_word_three, word_byte]

/-- The number that a block of four words writes, in terms of the words byte-swapped. -/
lemma toNat_toBlock (s : Aes256Ctr.State) :
    BigEndian.toNat s.toBlock =
      ((Aes256Ctr.bswap s.s0).toNat * 2 ^ 32 + (Aes256Ctr.bswap s.s1).toNat) * 2 ^ 64 +
        ((Aes256Ctr.bswap s.s2).toNat * 2 ^ 32 + (Aes256Ctr.bswap s.s3).toNat) := by
  simp only [bswap_eq, toNat_word, BigEndian.toNat, BigEndian.prefixNat, Aes256Ctr.State.toBlock]
  simp
  omega

lemma toBlock_ofBlock (block : Vector Byte 16) : (Aes256Ctr.State.ofBlock block).toBlock = block := by
  unfold Aes256Ctr.State.toBlock Aes256Ctr.State.ofBlock wordAt
  apply Vector.ext
  intro i hi
  interval_cases i <;> simp

/-- Adding to the last two words of a big-endian counter, with the carry between them. -/
lemma counter64_words (hi : ℕ) {x2 x3 g x2' x3' : ℕ} (h2 : x2 < 2 ^ 32) (h3 : x3 < 2 ^ 32)
    (hg : g < 2 ^ 32) (hx3 : x3' = (x3 + g) % 2 ^ 32)
    (hx2 : x2' = if x3' < x3 then (x2 + 1) % 2 ^ 32 else x2) :
    hi * 2 ^ 64 + (x2' * 2 ^ 32 + x3') =
      (hi * 2 ^ 64 + (x2 * 2 ^ 32 + x3)) / 2 ^ 64 * 2 ^ 64 +
        ((hi * 2 ^ 64 + (x2 * 2 ^ 32 + x3)) % 2 ^ 64 + g) % 2 ^ 64 := by
  have hdiv : (hi * 2 ^ 64 + (x2 * 2 ^ 32 + x3)) / 2 ^ 64 = hi := by omega
  have hmod : (hi * 2 ^ 64 + (x2 * 2 ^ 32 + x3)) % 2 ^ 64 = x2 * 2 ^ 32 + x3 := by omega
  rw [hdiv, hmod, Nat.add_left_cancel_iff]
  by_cases hcarry : x3' < x3
  · rw [if_pos hcarry] at hx2
    omega
  · rw [if_neg hcarry] at hx2
    omega

/-- The counter block that the shader builds from the IV. -/
theorem toBlock_counterBlock {params : Ubo} {iv : Vector Byte 16}
    (hiv : ∀ i, i < 4 → Aes256Ctr.iv params (BitVec.ofNat 32 i) = wordAt iv i) (gID : Word) :
    (Aes256Ctr.counterBlock params gID).toBlock = counter64 iv gID.toNat := by
  have hwords : BigEndian.toNat iv = _ :=
    (congrArg BigEndian.toNat (toBlock_ofBlock iv)).symm.trans (toNat_toBlock (.ofBlock iv))
  set x0 := Aes256Ctr.bswap (wordAt iv 0)
  set x1 := Aes256Ctr.bswap (wordAt iv 1)
  set x2 := Aes256Ctr.bswap (wordAt iv 2)
  set x3 := Aes256Ctr.bswap (wordAt iv 3)
  have hblock : BigEndian.toNat (Aes256Ctr.counterBlock params gID).toBlock =
      (x0.toNat * 2 ^ 32 + x1.toNat) * 2 ^ 64 +
        ((if (x3 + gID).toNat < x3.toNat then (x2.toNat + 1) % 2 ^ 32 else x2.toNat) * 2 ^ 32 +
          (x3 + gID).toNat) := by
    rw [toNat_toBlock]
    have hiv0 : Aes256Ctr.iv params 0 = wordAt iv 0 := hiv 0 (by omega)
    have hiv1 : Aes256Ctr.iv params 1 = wordAt iv 1 := hiv 1 (by omega)
    have hiv2 : Aes256Ctr.iv params 2 = wordAt iv 2 := hiv 2 (by omega)
    have hiv3 : Aes256Ctr.iv params 3 = wordAt iv 3 := hiv 3 (by omega)
    unfold Aes256Ctr.counterBlock
    simp only [hiv0, hiv1, hiv2, hiv3]
    by_cases hcarry : x3 + gID < x3
    · rw [if_pos hcarry, if_pos (BitVec.lt_def.mp hcarry)]
      simp only [bswap_bswap]
      rfl
    · rw [if_neg hcarry, if_neg (fun h => hcarry (BitVec.lt_def.mpr h))]
      simp only [bswap_bswap]
      rfl
  apply BigEndian.toNat_injective
  rw [hblock, counter64, BigEndian.toNat_ofNat, hwords]
  have hlt := (BigEndian.toNat_lt (Aes256Ctr.counterBlock params gID).toBlock)
  have hsum := counter64_words (x0.toNat * 2 ^ 32 + x1.toNat) x2.isLt x3.isLt gID.isLt
    (BitVec.toNat_add x3 gID) rfl
  rw [hblock, hsum] at hlt
  rw [hsum]
  exact (Nat.mod_eq_of_lt hlt).symm

lemma counter64_eq_add_iff (iv : Vector Byte 16) {m : ℕ} (hm : m < 2 ^ 64) :
    counter64 iv m = BigEndian.add iv m ↔ BigEndian.toNat iv % 2 ^ 64 + m < 2 ^ 64 := by
  have hlt := BigEndian.toNat_lt iv
  unfold counter64 BigEndian.add
  rw [BigEndian.ofNat_eq_iff]
  have hpow : 256 ^ 16 = 2 ^ 64 * 2 ^ 64 := by norm_num
  rw [hpow] at hlt ⊢
  constructor
  · intro h
    by_contra hge
    omega
  · intro h
    have hsum : BigEndian.toNat iv / 2 ^ 64 * 2 ^ 64 + (BigEndian.toNat iv % 2 ^ 64 + m) =
        BigEndian.toNat iv + m := by omega
    rw [Nat.mod_eq_of_lt h, hsum]

lemma counter64_zero (iv : Vector Byte 16) : counter64 iv 0 = iv := by
  have hlo : BigEndian.toNat iv % 2 ^ 64 + 0 < 2 ^ 64 := Nat.mod_lt _ (by norm_num)
  rw [(counter64_eq_add_iff iv (by norm_num)).mpr hlo, BigEndian.add_zero]

lemma counter64_add {iv : Vector Byte 16} {m : ℕ} (hm : BigEndian.toNat iv % 2 ^ 64 + m < 2 ^ 64)
    (g : ℕ) : counter64 (BigEndian.add iv m) g = counter64 iv (m + g) := by
  have hlt := BigEndian.toNat_lt iv
  have hpow : 256 ^ 16 = 2 ^ 64 * 2 ^ 64 := by norm_num
  rw [hpow] at hlt
  have hsum : BigEndian.toNat (BigEndian.add iv m) = BigEndian.toNat iv + m := by
    rw [BigEndian.toNat_add, hpow]
    omega
  have hdiv : (BigEndian.toNat iv + m) / 2 ^ 64 = BigEndian.toNat iv / 2 ^ 64 := by omega
  have hmod : (BigEndian.toNat iv + m) % 2 ^ 64 = BigEndian.toNat iv % 2 ^ 64 + m := by omega
  rw [counter64, counter64, hsum, hdiv, hmod, Nat.add_assoc]

/-! ### The dispatch -/

/-- The word `k` of the state. -/
def stateWord (s : Aes256Ctr.State) (k : ℕ) : Word := [s.s0, s.s1, s.s2, s.s3].getD k 0

lemma getElem?_toBlock (s : Aes256Ctr.State) {k j : ℕ} (hk : k < 4) (hj : j < 4) :
    s.toBlock[4 * k + j]? = some (byte (stateWord s k) j) := by
  unfold Aes256Ctr.State.toBlock
  rw [Vector.getElem?_eq_getElem (by omega), Vector.getElem_ofFn]
  have hdiv : (4 * k + j) / 4 = k := by omega
  have hmod : (4 * k + j) % 4 = j := by omega
  simp only [hdiv, hmod]
  rfl

lemma ofBlock_toBlock (s : Aes256Ctr.State) : .ofBlock s.toBlock = s := by
  have hword : ∀ k, k < 4 → wordAt s.toBlock k = stateWord s k := by
    intro k hk
    have hfirst := getElem?_toBlock s hk (show 0 < 4 by omega)
    rw [Nat.add_zero] at hfirst
    rw [wordAt, hfirst, getElem?_toBlock s hk (by omega), getElem?_toBlock s hk (by omega),
      getElem?_toBlock s hk (by omega)]
    exact word_byte _
  unfold Aes256Ctr.State.ofBlock
  rw [hword 0 (by omega), hword 1 (by omega), hword 2 (by omega), hword 3 (by omega)]
  rfl

/-- Under the parameters of a job in the ring, the shader has an invocation for each block. -/
lemma blockKernel_aes256 (ubo : Ubo) {len : ℕ} (hlen : len ≤ ringSize) (key : Vector Byte 32)
    (iv : Vector Byte 16) (inputData : Word → Word) :
    let params := aes256Params ubo len key iv
    Compute.BlockKernel (Aes256Ctr.main params inputData) 4 ((len + 15) / 16) (fun g k =>
      stateWord (Aes256Ctr.encrypt params (Aes256Ctr.counterBlock params (BitVec.ofNat 32 g))) k ^^^
        inputData (BitVec.ofNat 32 (g * 4 + k))) := by
  intro params
  have hfits : (len + 15) / 16 * 4 ≤ 2 ^ 32 := by
    rw [ringSize_eq] at hlen
    omega
  refine Compute.BlockKernel.of_guard
    (fun gID k => stateWord (Aes256Ctr.encrypt params (Aes256Ctr.counterBlock params gID)) k)
    inputData (batchSize_aes256Params ubo len key iv) hfits (by norm_num) ?_
  intro gID
  rfl

/-- Wherever a job lies in the rings, the shader encrypts it in counter mode, with its own
counter. -/
lemma copyOut_runAes256 (inputRing outputRing : Compute.Memory) (ubo : Ubo) (off : ℕ)
    {input : List Byte} (hlen : input.length ≤ ringSize) (key : Vector Byte 32)
    (iv : Vector Byte 16) :
    Compute.copyOut (runAes256 (Compute.copyIn inputRing off input) outputRing
        (aes256Params ubo input.length key iv) off input.length) off input.length =
      xorFrom (ofBlocks (fun g => Fips197.aes256 key (counter64 iv g))) 0 input := by
  have hring := ringSize_eq
  obtain ⟨hcover, hsize⟩ := groupCount_cover (show 0 < 16 by norm_num) hlen
  have hkernel := blockKernel_aes256 ubo hlen key iv
    (Compute.uint (Compute.copyIn inputRing off input) off)
  refine hkernel.copyOut_dispatch rfl hcover hsize (by omega) _ ?_ _
  intro g k j hg hk hj
  have hcounter := toBlock_counterBlock
    (fun i hi => iv_aes256Params ubo input.length key iv hi) (BitVec.ofNat 32 g)
  rw [toNat_ofNat_of_lt (by omega)] at hcounter
  rw [← hcounter, ← toBlock_encrypt ubo input.length key iv, ofBlock_toBlock,
    getElem?_toBlock _ hk hj]

lemma Aes256Batcher.submit_success (b : Aes256Batcher) {input : List Byte}
    (hlen : input.length ≤ ringSize) (key : Vector Byte 32) (iv : Vector Byte 16) :
    (b.submit .success input key iv).1.params = aes256Params b.params input.length key iv ∧
      (b.submit .success input key iv).2 =
        some (xorFrom (ofBlocks (fun g => Fips197.aes256 key (counter64 iv g))) 0 input) := by
  have hring : ¬ringSize < input.length := by omega
  unfold Aes256Batcher.submit
  simp only [if_neg hring, VkOutcome.success, if_true, true_and, Option.some.injEq]
  exact copyOut_runAes256 b.inputRing b.outputRing b.params 0 hlen key iv

/-! ### Jobs cut in two -/

/-- A job returns what a job of its first `m` blocks and one of the others at the advanced IV
return together. -/
def Aes256Batcher.Splits (b b' : Aes256Batcher) (key : Vector Byte 32) (iv : Vector Byte 16)
    (m : ℕ) (input : List Byte) : Prop :=
  let first := b'.submit .success (input.take (16 * m)) key iv
  let second := first.1.submit .success (input.drop (16 * m)) key
    (inc128Counter iv (BitVec.ofNat 64 m))
  ∃ out₁ out₂, first.2 = some out₁ ∧ second.2 = some out₂ ∧
    (b.submit .success input key iv).2 = some (out₁ ++ out₂)

lemma Aes256Batcher.splits_iff_xorFrom (b b' : Aes256Batcher) (key : Vector Byte 32)
    (iv : Vector Byte 16) {m : ℕ} {input : List Byte} (hm : m < 2 ^ 64)
    (hring : input.length ≤ ringSize) :
    b.Splits b' key iv m input ↔
      xorFrom (ofBlocks (fun g => Fips197.aes256 key (counter64 iv (m + g)))) 0
          (input.drop (16 * m)) =
        xorFrom (ofBlocks (fun g => Fips197.aes256 key (counter64 (BigEndian.add iv m) g))) 0
          (input.drop (16 * m)) := by
  have hadvance : (BitVec.ofNat 64 m).toNat = m := by
    rw [BitVec.toNat_ofNat, Nat.mod_eq_of_lt hm]
  have hjob := (b.submit_success hring key iv).2
  have hringTake : (input.take (16 * m)).length ≤ ringSize := by
    rw [List.length_take]
    omega
  have hringDrop : (input.drop (16 * m)).length ≤ ringSize := by
    rw [List.length_drop]
    omega
  have hfirst := (b'.submit_success hringTake key iv).2
  have hsecond := ((b'.submit .success (input.take (16 * m)) key iv).1.submit_success hringDrop key
    (BigEndian.add iv m)).2
  have hwhole := combine_ofBlocks_take_drop (· ^^^ ·)
    (fun g => Fips197.aes256 key (counter64 iv g)) m input
  simp only [Aes256Batcher.Splits, inc128Counter_eq_add, hadvance, hjob, hfirst, hsecond,
    Option.some.injEq]
  constructor
  · rintro ⟨_, _, rfl, rfl, hsplit⟩
    exact List.append_cancel_left (hwhole.symm.trans hsplit)
  · intro hsplit
    exact ⟨_, _, rfl, rfl, hwhole.trans (congrArg _ hsplit)⟩

/-- Cutting a job of whole blocks does not matter exactly if its first part ends before the
overflow. -/
theorem Aes256Batcher.splits_iff (b b' : Aes256Batcher) (key : Vector Byte 32)
    (iv : Vector Byte 16) {m n : ℕ} {input : List Byte} (hlen : input.length = 16 * (m + n))
    (hring : input.length ≤ ringSize) :
    b.Splits b' key iv m input ↔ n = 0 ∨ BigEndian.toNat iv % 2 ^ 64 + m < 2 ^ 64 := by
  have hm : m < 2 ^ 64 := by
    rw [ringSize_eq] at hring
    omega
  rw [b.splits_iff_xorFrom b' key iv hm hring]
  constructor
  · intro hsplit
    by_contra! hover
    have hdrop : 16 ≤ (input.drop (16 * m)).length := by
      rw [List.length_drop]
      omega
    -- the first block after the cut
    have hblock : Fips197.aes256 key (counter64 iv (m + 0)) =
        Fips197.aes256 key (counter64 (BigEndian.add iv m) 0) := by
      apply Vector.ext
      intro i hi
      have hbyte := eq_of_xorFrom_eq hsplit (hi.trans_le hdrop)
      rwa [Nat.zero_add, ofBlocks_of_lt _ hi, ofBlocks_of_lt _ hi] at hbyte
    have hcounter := Fips197.aes_injective 8 14 key hblock
    rw [Nat.add_zero, counter64_zero, counter64_eq_add_iff iv hm] at hcounter
    omega
  · rintro (hn | hlt)
    · have hnil : input.drop (16 * m) = [] := List.drop_of_length_le (by omega)
      simp only [hnil, combine_nil]
    · simp only [counter64_add hlt]

/-- For a job of `m + n` blocks, the last of which may be partial: the counter of the shader is the
provider's counter, and cutting the job does not matter, exactly as long as the job does not count
past the end of the last 64 bits of the IV. -/
theorem aes256_counter_iff (b b' : Aes256Batcher) (key : Vector Byte 32) (iv : Vector Byte 16)
    (m n : ℕ) (input : List Byte) (hlen : (input.length + 15) / 16 = m + n)
    (hring : input.length ≤ ringSize) :
    let params := (b.submit .success input key iv).1.params
    ((∀ gID, gID < Aes256Ctr.batchSize params →
        (Aes256Ctr.counterBlock params gID).toBlock = BigEndian.add iv gID.toNat ∧
          (Aes256Ctr.counterBlock params gID).toBlock = inc128Counter iv (gID.setWidth 64)) ∧
      b.Splits b' key iv m input) ↔
    BigEndian.toNat iv % 2 ^ 64 + (m + n) ≤ 2 ^ 64 := by
  intro params
  have hparams : params = aes256Params b.params input.length key iv :=
    (b.submit_success hring key iv).1
  have hcounter : ∀ gID, (Aes256Ctr.counterBlock params gID).toBlock = counter64 iv gID.toNat := by
    intro gID
    rw [hparams]
    exact toBlock_counterBlock (fun i hi => iv_aes256Params b.params input.length key iv hi) gID
  have hbatch : (Aes256Ctr.batchSize params).toNat = m + n := by
    rw [ringSize_eq] at hring
    rw [hparams, batchSize_aes256Params, toNat_ofNat_of_lt (by omega), hlen]
  have hlo : BigEndian.toNat iv % 2 ^ 64 < 2 ^ 64 := Nat.mod_lt _ (by norm_num)
  constructor
  · rintro ⟨hagree, -⟩
    by_contra hover
    -- the last block of the job
    have hlast : (BitVec.ofNat 32 (m + n - 1)).toNat = m + n - 1 := by
      have hlt := (Aes256Ctr.batchSize params).isLt
      exact toNat_ofNat_of_lt (by omega)
    have hadd := (hagree (BitVec.ofNat 32 (m + n - 1))
      (BitVec.lt_def.mpr (by omega))).1
    rw [hcounter, hlast, counter64_eq_add_iff iv (by omega)] at hadd
    omega
  · intro hfit
    constructor
    · intro gID hgID
      have hg := BitVec.lt_def.mp hgID
      have hadd := (counter64_eq_add_iff iv (m := gID.toNat) (by omega)).mpr (by omega)
      have hwidth : (gID.setWidth 64).toNat = gID.toNat := by
        rw [BitVec.toNat_setWidth, Nat.mod_eq_of_lt (by omega)]
      rw [inc128Counter_eq_add, hwidth, hcounter]
      exact ⟨hadd, hadd⟩
    · rw [b.splits_iff_xorFrom b' key iv (by rw [ringSize_eq] at hring; omega) hring]
      by_cases hn : n = 0
      · have hnil : input.drop (16 * m) = [] := List.drop_of_length_le (by omega)
        simp only [hnil, combine_nil]
      · simp only [counter64_add (show BigEndian.toNat iv % 2 ^ 64 + m < 2 ^ 64 by omega)]

/-- A job of two blocks whose counter stays within the last 64 bits. -/
theorem aes256_counter_iff_within :
    let b : Aes256Batcher := ⟨fun _ => 0, fun _ => 0, fun _ => 0⟩
    let iv : Vector Byte 16 := Vector.ofFn (fun i : Fin 16 => if i < 15 then 0 else 0xFF)
    (∀ gID, gID < Aes256Ctr.batchSize
        (b.submit .success (List.replicate 32 5) (Vector.replicate 32 7) iv).1.params →
      (Aes256Ctr.counterBlock
        (b.submit .success (List.replicate 32 5) (Vector.replicate 32 7) iv).1.params gID).toBlock =
          BigEndian.add iv gID.toNat ∧
        (Aes256Ctr.counterBlock
          (b.submit .success (List.replicate 32 5) (Vector.replicate 32 7) iv).1.params
            gID).toBlock = inc128Counter iv (gID.setWidth 64)) ∧
      b.Splits b (Vector.replicate 32 7) iv 1 (List.replicate 32 5) :=
  (aes256_counter_iff _ _ _ _ 1 1 _ (by decide) (by decide)).mpr (by decide)

/-- After the counter whose bytes are all 0xFF the shader goes on with 64 zero bits only. -/
theorem aes256_counter_wraps :
    let b : Aes256Batcher := ⟨fun _ => 0, fun _ => 0, fun _ => 0⟩
    let iv : Vector Byte 16 := Vector.replicate 16 0xFF
    let params := (b.submit .success (List.replicate 32 0) (Vector.replicate 32 0) iv).1.params
    1 < Aes256Ctr.batchSize params ∧
      (Aes256Ctr.counterBlock params 1).toBlock ≠ BigEndian.add iv 1 ∧
      (Aes256Ctr.counterBlock params 1).toBlock ≠ inc128Counter iv 1 ∧
      ¬b.Splits b (Vector.replicate 32 0) iv 1 (List.replicate 32 0) := by
  intro b iv params
  refine ⟨by decide +kernel, by decide +kernel, by decide +kernel, ?_⟩
  rw [b.splits_iff b _ iv (n := 1) rfl (by decide)]
  decide

end GpuCrypt
