import Mathlib.Tactic

/-!
# Bytes of 32-bit words

`word b0 b1 b2 b3` is the word that a little-endian machine reads from the bytes `b0` to `b3`,
and `byte w k` is byte `k` of the word `w`. Masks, shifts and bytewise operations on words are
followed through their bytes: every word is `word` of its four bytes, and the lemmas here say
what the usual word idioms do to them.
-/

namespace LittleEndian

/-- The word stored at four consecutive bytes. -/
def word (b0 b1 b2 b3 : BitVec 8) : BitVec 32 := b3 ++ b2 ++ b1 ++ b0

/-- Byte `k` of a word, the least significant first. -/
def byte (w : BitVec 32) (k : ℕ) : BitVec 8 := w.extractLsb' (8 * k) 8

def wordAt {n : ℕ} (v : Vector (BitVec 8) n) (i : ℕ) : BitVec 32 :=
  word ((v[4 * i]?).getD 0) ((v[4 * i + 1]?).getD 0) ((v[4 * i + 2]?).getD 0)
    ((v[4 * i + 3]?).getD 0)

lemma toNat_ofNat_of_lt {i : ℕ} (hi : i < 2 ^ 32) : (BitVec.ofNat 32 i).toNat = i := by
  rw [BitVec.toNat_ofNat, Nat.mod_eq_of_lt hi]

lemma getLsbD_word (b0 b1 b2 b3 : BitVec 8) (i : ℕ) :
    (word b0 b1 b2 b3).getLsbD i =
      if i < 8 then b0.getLsbD i else if i < 16 then b1.getLsbD (i - 8)
      else if i < 24 then b2.getLsbD (i - 16) else b3.getLsbD (i - 24) := by
  simp only [word, BitVec.getLsbD_append, Nat.sub_sub]
  split_ifs <;> first | rfl | omega

lemma toNat_word (b0 b1 b2 b3 : BitVec 8) :
    (word b0 b1 b2 b3).toNat =
      b0.toNat + 2 ^ 8 * b1.toNat + 2 ^ 16 * b2.toNat + 2 ^ 24 * b3.toNat := by
  have happend : ∀ {n : ℕ} (x : BitVec n) (y : BitVec 8),
      (x ++ y).toNat = x.toNat * 2 ^ 8 + y.toNat := by
    intro n x y
    rw [BitVec.toNat_append, ← Nat.shiftLeft_add_eq_or_of_lt y.isLt, Nat.shiftLeft_eq]
  unfold word
  rw [happend, happend, happend]
  omega

lemma getLsbD_byte (w : BitVec 32) (k i : ℕ) :
    (byte w k).getLsbD i = (decide (i < 8) && w.getLsbD (8 * k + i)) := by
  rw [byte, BitVec.getLsbD_extractLsb']

lemma byte_word (b0 b1 b2 b3 : BitVec 8) (k : ℕ) :
    byte (word b0 b1 b2 b3) k =
      if k = 0 then b0 else if k = 1 then b1 else if k = 2 then b2 else if k = 3 then b3 else 0 := by
  apply BitVec.eq_of_getLsbD_eq
  intro i hi
  simp only [getLsbD_byte, getLsbD_word, hi, decide_true, Bool.true_and]
  rcases (by omega : k = 0 ∨ k = 1 ∨ k = 2 ∨ k = 3 ∨ 4 ≤ k) with rfl | rfl | rfl | rfl | hk
  · simp only [Nat.mul_zero, Nat.zero_add, hi, if_true]
  · have hbit : 8 * 1 + i - 8 = i := by omega
    rw [if_neg (by omega), if_pos (by omega), hbit]
    rfl
  · have hbit : 8 * 2 + i - 16 = i := by omega
    rw [if_neg (by omega), if_neg (by omega), if_pos (by omega), hbit]
    rfl
  · have hbit : 8 * 3 + i - 24 = i := by omega
    rw [if_neg (by omega), if_neg (by omega), if_neg (by omega), hbit]
    rfl
  · rw [if_neg (by omega), if_neg (by omega), if_neg (by omega), if_neg (by omega),
      if_neg (by omega), if_neg (by omega), if_neg (by omega), BitVec.getLsbD_of_ge _ _ (by omega)]
    simp

@[simp] lemma byte_word_zero (b0 b1 b2 b3 : BitVec 8) : byte (word b0 b1 b2 b3) 0 = b0 := by
  rw [byte_word, if_pos rfl]

@[simp] lemma byte_word_one (b0 b1 b2 b3 : BitVec 8) : byte (word b0 b1 b2 b3) 1 = b1 := by
  rw [byte_word]
  rfl

@[simp] lemma byte_word_two (b0 b1 b2 b3 : BitVec 8) : byte (word b0 b1 b2 b3) 2 = b2 := by
  rw [byte_word]
  rfl

@[simp] lemma byte_word_three (b0 b1 b2 b3 : BitVec 8) : byte (word b0 b1 b2 b3) 3 = b3 := by
  rw [byte_word]
  rfl

lemma word_byte (w : BitVec 32) : word (byte w 0) (byte w 1) (byte w 2) (byte w 3) = w := by
  apply BitVec.eq_of_getLsbD_eq
  intro i hi
  simp only [getLsbD_word, getLsbD_byte]
  split_ifs with h0 h1 h2
  · rw [decide_eq_true h0, Bool.true_and, Nat.mul_zero, Nat.zero_add]
  · have hbit : 8 * 1 + (i - 8) = i := by omega
    rw [decide_eq_true (by omega), Bool.true_and, hbit]
  · have hbit : 8 * 2 + (i - 16) = i := by omega
    rw [decide_eq_true (by omega), Bool.true_and, hbit]
  · have hbit : 8 * 3 + (i - 24) = i := by omega
    rw [decide_eq_true (by omega), Bool.true_and, hbit]

lemma eq_of_byte_eq {v w : BitVec 32} (h : ∀ k, k < 4 → byte v k = byte w k) : v = w := by
  rw [← word_byte v, ← word_byte w, h 0 (by omega), h 1 (by omega), h 2 (by omega),
    h 3 (by omega)]

@[simp] lemma byte_xor (v w : BitVec 32) (k : ℕ) : byte (v ^^^ w) k = byte v k ^^^ byte w k := by
  apply BitVec.eq_of_getLsbD_eq
  intro i hi
  simp only [getLsbD_byte, BitVec.getLsbD_xor, hi, decide_true, Bool.true_and]

/-! ### Masks and shifts by whole bytes -/

@[simp] lemma byte_or (v w : BitVec 32) (k : ℕ) : byte (v ||| w) k = byte v k ||| byte w k := by
  apply BitVec.eq_of_getLsbD_eq
  intro i hi
  simp only [getLsbD_byte, BitVec.getLsbD_or, hi, decide_true, Bool.true_and]

lemma byte_and (v w : BitVec 32) (k : ℕ) : byte (v &&& w) k = byte v k &&& byte w k := by
  apply BitVec.eq_of_getLsbD_eq
  intro i hi
  simp only [getLsbD_byte, BitVec.getLsbD_and, hi, decide_true, Bool.true_and]

lemma byte_of_le (w : BitVec 32) {k : ℕ} (hk : 4 ≤ k) : byte w k = 0 := by
  apply BitVec.eq_of_getLsbD_eq
  intro i hi
  rw [getLsbD_byte, BitVec.getLsbD_of_ge _ _ (by omega), Bool.and_false]
  simp

lemma byte_ushiftRight (w : BitVec 32) (m k : ℕ) : byte (w >>> (8 * m)) k = byte w (m + k) := by
  apply BitVec.eq_of_getLsbD_eq
  intro i hi
  simp only [getLsbD_byte, BitVec.getLsbD_ushiftRight, Nat.mul_add, Nat.add_assoc]

lemma byte_shiftLeft (w : BitVec 32) (m : ℕ) {k : ℕ} (hk : k < 4) :
    byte (w <<< (8 * m)) k = if k < m then 0 else byte w (k - m) := by
  apply BitVec.eq_of_getLsbD_eq
  intro i hi
  by_cases h : k < m
  · have hlow : 8 * k + i < 8 * m := by omega
    rw [if_pos h, getLsbD_byte, BitVec.getLsbD_shiftLeft, decide_eq_true hlow]
    simp
  · have hhigh : ¬8 * k + i < 8 * m := by omega
    have hword : 8 * k + i < 32 := by omega
    have hbit : 8 * k + i - 8 * m = 8 * (k - m) + i := by omega
    rw [if_neg h, getLsbD_byte, getLsbD_byte, BitVec.getLsbD_shiftLeft, decide_eq_false hhigh,
      decide_eq_true hword, hbit]
    simp

lemma byte_setWidth (b : BitVec 8) (k : ℕ) : byte (b.setWidth 32) k = if k = 0 then b else 0 := by
  apply BitVec.eq_of_getLsbD_eq
  intro i hi
  by_cases hk : k = 0
  · have hword : i < 32 := by omega
    rw [if_pos hk, hk, getLsbD_byte, BitVec.getLsbD_setWidth, Nat.mul_zero, Nat.zero_add,
      decide_eq_true hi, decide_eq_true hword, Bool.true_and, Bool.true_and]
  · rw [if_neg hk, getLsbD_byte, BitVec.getLsbD_setWidth, BitVec.getLsbD_of_ge b _ (by omega)]
    simp

lemma byte_and_mask (w : BitVec 32) (m : ℕ) (hm : m < 4) (k : ℕ) :
    byte (w &&& ((0xFF#8).setWidth 32 <<< (8 * m))) k = if k = m then byte w k else 0 := by
  have hff : byte w k &&& 0xFF#8 = byte w k := BitVec.and_allOnes
  have hzero : byte w k &&& 0 = 0 := BitVec.and_zero
  by_cases hk : k < 4
  · rw [byte_and, byte_shiftLeft _ _ hk, byte_setWidth]
    by_cases hlt : k < m
    · rw [if_pos hlt, if_neg (by omega), hzero]
    · by_cases heq : k = m
      · rw [if_neg hlt, if_pos (by omega), if_pos heq, hff]
      · rw [if_neg hlt, if_neg (by omega), if_neg heq, hzero]
  · rw [byte_of_le _ (by omega), if_neg (by omega)]

lemma byte_and_ff (w : BitVec 32) (k : ℕ) :
    byte (w &&& 0xFF) k = if k = 0 then byte w k else 0 :=
  byte_and_mask w 0 (by omega) k

lemma byte_and_ff00 (w : BitVec 32) (k : ℕ) :
    byte (w &&& 0xFF00) k = if k = 1 then byte w k else 0 :=
  byte_and_mask w 1 (by omega) k

lemma byte_and_ff0000 (w : BitVec 32) (k : ℕ) :
    byte (w &&& 0xFF0000) k = if k = 2 then byte w k else 0 :=
  byte_and_mask w 2 (by omega) k

lemma byte_and_ff000000 (w : BitVec 32) (k : ℕ) :
    byte (w &&& 0xFF000000) k = if k = 3 then byte w k else 0 :=
  byte_and_mask w 3 (by omega) k

/-- A word put together from bytes by shifts. -/
lemma word_eq_or (b0 b1 b2 b3 : BitVec 8) :
    b0.setWidth 32 ||| (b1.setWidth 32 <<< 8) ||| (b2.setWidth 32 <<< 16) |||
      (b3.setWidth 32 <<< 24) = word b0 b1 b2 b3 := by
  apply eq_of_byte_eq
  intro k hk
  have h1 := byte_shiftLeft (b1.setWidth 32) 1 hk
  have h2 := byte_shiftLeft (b2.setWidth 32) 2 hk
  have h3 := byte_shiftLeft (b3.setWidth 32) 3 hk
  rw [byte_or, byte_or, byte_or, h1, h2, h3, byte_word]
  simp only [byte_setWidth]
  interval_cases k <;> simp

lemma ushiftRight_and_ff (w : BitVec 32) (m : ℕ) :
    (w >>> (8 * m)) &&& 0xFF = (byte w m).setWidth 32 := by
  apply eq_of_byte_eq
  intro k hk
  rw [byte_and_ff, byte_ushiftRight, byte_setWidth]
  by_cases h : k = 0
  · rw [if_pos h, if_pos h, h, Nat.add_zero]
  · rw [if_neg h, if_neg h]

/-- A word put together by masks from the bytes of four words. -/
lemma word_eq_masks (w0 w1 w2 w3 : BitVec 32) :
    (w0 &&& 0xFF) ||| (w1 &&& 0xFF00) ||| (w2 &&& 0xFF0000) ||| (w3 &&& 0xFF000000) =
      word (byte w0 0) (byte w1 1) (byte w2 2) (byte w3 3) := by
  apply eq_of_byte_eq
  intro k hk
  rw [byte_or, byte_or, byte_or, byte_word, byte_and_ff, byte_and_ff00, byte_and_ff0000,
    byte_and_ff000000]
  interval_cases k <;> simp

lemma word_eq_bswap (w : BitVec 32) :
    (w >>> 24) ||| ((w &&& 0x00FF0000) >>> 8) ||| ((w &&& 0x0000FF00) <<< 8) ||| (w <<< 24) =
      word (byte w 3) (byte w 2) (byte w 1) (byte w 0) := by
  apply eq_of_byte_eq
  intro k hk
  have h0 := byte_ushiftRight w 3 k
  have h1 := byte_ushiftRight (w &&& 0x00FF0000) 1 k
  have h2 := byte_shiftLeft (w &&& 0x0000FF00) 1 hk
  have h3 := byte_shiftLeft w 3 hk
  rw [byte_or, byte_or, byte_or, byte_word]
  rw [byte_and_ff0000] at h1
  rw [byte_and_ff00] at h2
  refine (congrArg₂ (· ||| ·) (congrArg₂ (· ||| ·) (congrArg₂ (· ||| ·) h0 h1) h2) h3).trans ?_
  interval_cases k <;> simp [byte_of_le]

lemma word_eq_rotate (w : BitVec 32) :
    (w >>> 8) ||| (w <<< 24) = word (byte w 1) (byte w 2) (byte w 3) (byte w 0) := by
  apply eq_of_byte_eq
  intro k hk
  have h0 := byte_ushiftRight w 1 k
  have h1 := byte_shiftLeft w 3 hk
  rw [byte_or, byte_word]
  refine (congrArg₂ (· ||| ·) h0 h1).trans ?_
  interval_cases k <;> simp [byte_of_le]

end LittleEndian
