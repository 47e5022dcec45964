import Mathlib.Tactic

/-!
# The field with 256 elements

Bytes as polynomials over GF(2) of degree below 8, bit `i` being the coefficient of `x ^ i`,
multiplied modulo `x ^ 8 + x ^ 4 + x ^ 3 + x + 1`. The arithmetic is done on natural numbers,
where the kernel computes.
-/

namespace Gf256

/-- `x * p` for a polynomial `p` of degree below 8. -/
def timesX (p : ℕ) : ℕ := (2 * p) ^^^ (0x11b * (p / 128))

/-- The product, by Horner's rule in the bits of `b`. -/
def mulNat (a b : ℕ) : ℕ :=
  [7, 6, 5, 4, 3, 2, 1, 0].foldl (fun acc i => timesX acc ^^^ (a * (b / 2 ^ i % 2))) 0

def mul (a b : BitVec 8) : BitVec 8 := BitVec.ofNat 8 (mulNat a.toNat b.toNat)

def sq (a : BitVec 8) : BitVec 8 := mul a a

def xPow : ℕ → BitVec 8
  | 0 => 1
  | n + 1 => mul 2 (xPow n)

/-- `a ^ 254`, the inverse of `a`, and 0 for 0. -/
def inv (a : BitVec 8) : BitVec 8 :=
  let a2 := sq a
  let a3 := mul a a2
  let a12 := sq (sq a3)
  let a15 := mul a3 a12
  let a240 := sq (sq (sq (sq a15)))
  mul a240 (mul a12 a2)

lemma forall_byte {p : BitVec 8 → Bool} (h : (List.range 256).all (fun i => p (BitVec.ofNat 8 i))) :
    ∀ a, p a = true := by
  intro a
  have ha := List.all_eq_true.mp h a.toNat (List.mem_range.mpr a.isLt)
  rwa [BitVec.ofNat_toNat, BitVec.setWidth_eq] at ha

theorem mul_inv (a : BitVec 8) (ha : a ≠ 0) : mul a (inv a) = 1 := by
  have h := forall_byte (p := fun a => a == 0 || mul a (inv a) == 1) (by decide +kernel) a
  rw [Bool.or_eq_true, beq_iff_eq, beq_iff_eq] at h
  exact h.resolve_left ha

lemma mul_three (b : BitVec 8) : mul 3 b = mul 2 b ^^^ b := by
  have h := forall_byte (p := fun b => mul 3 b == mul 2 b ^^^ b) (by decide +kernel) b
  exact beq_iff_eq.mp h

lemma mul_two (b : BitVec 8) : mul 2 b = (b <<< 1) ^^^ (if b.msb then 0x1b else 0) := by
  have h := forall_byte (p := fun b => mul 2 b == (b <<< 1) ^^^ (if b.msb then 0x1b else 0))
    (by decide +kernel) b
  exact beq_iff_eq.mp h

/-! ### Sums of bytes -/

lemma xor_left_comm (a b c : BitVec 8) : a ^^^ (b ^^^ c) = b ^^^ (a ^^^ c) := by
  rw [← BitVec.xor_assoc, BitVec.xor_comm a b, BitVec.xor_assoc]

lemma xor_cancel_left (a b : BitVec 8) : a ^^^ (a ^^^ b) = b := by
  rw [← BitVec.xor_assoc, BitVec.xor_self, BitVec.zero_xor]

lemma mul_two_xor (a b : BitVec 8) : mul 2 (a ^^^ b) = mul 2 a ^^^ mul 2 b := by
  rw [mul_two, mul_two, mul_two, BitVec.shiftLeft_xor_distrib, BitVec.msb_xor]
  cases a.msb <;> cases b.msb <;> simp [BitVec.xor_assoc, BitVec.xor_comm, xor_left_comm]

/-- The first byte of a column, from the bytes of the mixed column; `f` is doubling. -/
lemma unmix_row {f : BitVec 8 → BitVec 8} (hf : ∀ a b, f (a ^^^ b) = f a ^^^ f b)
    {a0 a1 a2 a3 b0 b1 b2 b3 : BitVec 8}
    (h0 : b0 = f a0 ^^^ (f a1 ^^^ a1) ^^^ a2 ^^^ a3)
    (h1 : b1 = f a1 ^^^ (f a2 ^^^ a2) ^^^ a3 ^^^ a0)
    (h2 : b2 = f a2 ^^^ (f a3 ^^^ a3) ^^^ a0 ^^^ a1)
    (h3 : b3 = f a3 ^^^ (f a0 ^^^ a0) ^^^ a1 ^^^ a2) :
    a0 = b0 ^^^ (b0 ^^^ b1 ^^^ b2 ^^^ b3) ^^^
      f (b0 ^^^ b1 ^^^ f (b0 ^^^ b2 ^^^ f (b0 ^^^ b1 ^^^ b2 ^^^ b3))) := by
  have hs : b0 ^^^ b1 ^^^ b2 ^^^ b3 = a0 ^^^ a1 ^^^ a2 ^^^ a3 := by
    simp only [h0, h1, h2, h3, BitVec.xor_assoc, BitVec.xor_comm, xor_left_comm, xor_cancel_left,
      BitVec.xor_self, BitVec.xor_zero]
  have hu : b0 ^^^ b2 ^^^ f (a0 ^^^ a1 ^^^ a2 ^^^ a3) = a0 ^^^ a2 := by
    simp only [h0, h2, hf, BitVec.xor_assoc, BitVec.xor_comm, xor_left_comm, xor_cancel_left,
      BitVec.xor_self, BitVec.xor_zero]
  have hw : b0 ^^^ b1 ^^^ f (a0 ^^^ a2) = a0 ^^^ a1 := by
    simp only [h0, h1, hf, BitVec.xor_assoc, BitVec.xor_comm, xor_left_comm, xor_cancel_left,
      BitVec.xor_self, BitVec.xor_zero]
  have ha : b0 ^^^ (a0 ^^^ a1 ^^^ a2 ^^^ a3) ^^^ f (a0 ^^^ a1) = a0 := by
    simp only [h0, hf, BitVec.xor_assoc, BitVec.xor_comm, xor_left_comm, xor_cancel_left,
      BitVec.xor_self, BitVec.xor_zero]
  rw [hs, hu, hw, ha]

end Gf256
