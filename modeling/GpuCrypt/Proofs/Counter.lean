import GpuCrypt.Model.Ciphers
import GpuCrypt.Lib.BigEndian

/-!
# The counter increment of the provider

`inc_128_counter` adds a block count to a big-endian counter byte by byte. The carry is folded
into the shifted block count, and the loop stops as soon as that is zero. The invariant of the
loop is about the bytes not visited yet: read as a number, they grow by the remaining count.
-/

namespace GpuCrypt

open BigEndian

lemma inc128_sum (c : Byte) (blocks : BitVec 64) :
    ((c.setWidth 64 + (blocks &&& 0xFF#64)).setWidth 32 : BitVec 32).toNat =
      c.toNat + blocks.toNat % 256 := by
  have hc := c.isLt
  have hmask : (blocks &&& 0xFF#64).toNat = blocks.toNat % 256 := by
    rw [BitVec.toNat_and]
    exact Nat.and_two_pow_sub_one_eq_mod blocks.toNat 8
  simp only [BitVec.toNat_setWidth, BitVec.toNat_add, hmask]
  omega

lemma inc128_digit (c : Byte) (blocks : BitVec 64) (sum : BitVec 32)
    (hsum : sum.toNat = c.toNat + blocks.toNat % 256) :
    ((sum &&& 0xFF#32).setWidth 8 : Byte).toNat = (c.toNat + blocks.toNat) % 256 := by
  have hmask : (sum &&& 0xFF#32).toNat = sum.toNat % 256 := by
    rw [BitVec.toNat_and]
    exact Nat.and_two_pow_sub_one_eq_mod sum.toNat 8
  simp only [BitVec.toNat_setWidth, hmask, hsum]
  omega

lemma inc128_count (c : Byte) (blocks : BitVec 64) (sum : BitVec 32)
    (hsum : sum.toNat = c.toNat + blocks.toNat % 256) :
    (blocks >>> 8 + (sum >>> 8).setWidth 64).toNat = (c.toNat + blocks.toNat) / 256 := by
  have hc := c.isLt
  have hb := blocks.isLt
  simp only [BitVec.toNat_add, BitVec.toNat_ushiftRight, BitVec.toNat_setWidth, hsum,
    Nat.shiftRight_eq_div_pow]
  omega

/-- One iteration splits the sum of a byte and the count into the new byte and the new count. -/
lemma inc128Loop_succ (i : ℕ) (hi : i < 16) (counter : Vector Byte 16) (blocks : BitVec 64) :
    ∃ (digit : Byte) (count : BitVec 64),
      digit.toNat = (counter[i].toNat + blocks.toNat) % 256 ∧
      count.toNat = (counter[i].toNat + blocks.toNat) / 256 ∧
      inc128Loop (i + 1) counter blocks =
        if count = 0 then counter.setIfInBounds i digit
        else inc128Loop i (counter.setIfInBounds i digit) count := by
  have hsum := inc128_sum counter[i] blocks
  have hget : (counter[i]?).getD 0 = counter[i] := by
    rw [Vector.getElem?_eq_getElem hi, Option.getD_some]
  refine ⟨_, _, inc128_digit _ blocks _ hsum, inc128_count _ blocks _ hsum, ?_⟩
  rw [inc128Loop, hget]

/-- The loop leaves the visited bytes alone and adds the count to the number written by the
others, modulo what they can hold. -/
theorem inc128Loop_spec (i : ℕ) (hi : i ≤ 16) (counter : Vector Byte 16) (blocks : BitVec 64) :
    (∀ k (hk : k < 16), i ≤ k → (inc128Loop i counter blocks)[k] = counter[k]) ∧
      prefixNat (inc128Loop i counter blocks) i =
        (prefixNat counter i + blocks.toNat) % 256 ^ i := by
  induction i generalizing counter blocks with
  | zero =>
    refine ⟨fun k _ _ => rfl, ?_⟩
    simp [prefixNat, Nat.mod_one]
  | succ i ih =>
    have hi16 : i < 16 := by omega
    obtain ⟨digit, count, hdigit, hcount, hloop⟩ := inc128Loop_succ i hi16 counter blocks
    generalize hnext : counter.setIfInBounds i digit = next at hloop
    have hnexti : next[i] = digit := by simp [← hnext]
    have hother : ∀ k (hk : k < 16), k ≠ i → next[k] = counter[k] := by
      intro k hk hki
      simp [← hnext, Ne.symm hki]
    have hlow : prefixNat next i = prefixNat counter i :=
      prefixNat_congr (by omega) (fun k hk hki => hother k hk (by omega))
    have hpow : 256 ^ (i + 1) = 256 * 256 ^ i := pow_succ' 256 i
    have hlt := prefixNat_lt counter i
    have hval := prefixNat_succ counter hi16
    rw [hloop]
    by_cases hzero : count = 0
    · -- the count is used up, so the bytes in front do not change
      rw [if_pos hzero]
      have hcount0 : (counter[i].toNat + blocks.toNat) / 256 = 0 := by
        rw [← hcount, hzero]
        rfl
      refine ⟨fun k hk hik => hother k hk (by omega), ?_⟩
      have hfit : 256 * prefixNat counter i + counter[i].toNat + blocks.toNat < 256 * 256 ^ i := by
        omega
      rw [prefixNat_succ _ hi16, hnexti, hdigit, hlow, hval, hpow, Nat.mod_eq_of_lt hfit]
      omega
    · rw [if_neg hzero]
      obtain ⟨hkeep, hrest⟩ := ih (by omega) next count
      refine ⟨fun k hk hik => ?_, ?_⟩
      · rw [hkeep k hk (by omega), hother k hk (by omega)]
      · rw [prefixNat_succ _ hi16, hkeep i hi16 le_rfl, hnexti, hdigit, hrest, hlow, hval, hpow,
          hcount, Nat.mod_mul]
        have hdiv : (256 * prefixNat counter i + counter[i].toNat + blocks.toNat) / 256 =
            prefixNat counter i + (counter[i].toNat + blocks.toNat) / 256 := by omega
        have hmod : (256 * prefixNat counter i + counter[i].toNat + blocks.toNat) % 256 =
            (counter[i].toNat + blocks.toNat) % 256 := by omega
        rw [hdiv, hmod, Nat.add_comm]

/-- `inc_128_counter` is addition to the big-endian counter. -/
theorem inc128Counter_eq_add (counter : Vector Byte 16) (blocks : BitVec 64) :
    inc128Counter counter blocks = BigEndian.add counter blocks.toNat := by
  apply BigEndian.toNat_injective
  rw [BigEndian.toNat_add]
  exact (inc128Loop_spec 16 le_rfl counter blocks).2

/-- The bytes after the increment are the big-endian encoding of the counter's value plus the
block count, modulo `2 ^ 128`. -/
theorem inc128Counter_bigEndian (counter : Vector Byte 16) (blocks : BitVec 64) :
    BigEndian.toNat (inc128Counter counter blocks) =
        (BigEndian.toNat counter + blocks.toNat) % 2 ^ 128 ∧
      inc128Counter counter blocks = Vector.ofFn (fun i : Fin 16 =>
        BitVec.ofNat 8
          ((BigEndian.toNat counter + blocks.toNat) % 2 ^ 128 / 256 ^ (15 - i.val))) := by
  have hsize : (2 : ℕ) ^ 128 = 256 ^ 16 := by norm_num
  have hvalue : BigEndian.toNat (inc128Counter counter blocks) =
      (BigEndian.toNat counter + blocks.toNat) % 2 ^ 128 := by
    rw [inc128Counter_eq_add, BigEndian.toNat_add, hsize]
  refine ⟨hvalue, ?_⟩
  rw [← hvalue]
  exact (BigEndian.ofNat_toNat (inc128Counter counter blocks)).symm

example : inc128Counter (Vector.replicate 16 0xFF) 1 = Vector.replicate 16 0 := by decide

end GpuCrypt
