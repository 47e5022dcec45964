import Mathlib.Tactic

/-!
# Cutting a stream into whole blocks

A block buffer keeps back the elements that do not fill a block yet. `absorb B pending input`
is what it does with one more piece of input: it emits the longest run of whole blocks of
`pending ++ input` and keeps the rest. By `absorb_append` only the concatenation of the pieces
matters.
-/

namespace BlockBuffer

variable {α : Type*}

/-- The length of the longest run of whole blocks within `n` elements. -/
def whole (B n : ℕ) : ℕ := B * (n / B)

lemma whole_le (B n : ℕ) : whole B n ≤ n := Nat.mul_div_le n B

lemma whole_add_mod (B n : ℕ) : whole B n + n % B = n := Nat.div_add_mod n B

lemma whole_of_lt {B n : ℕ} (h : n < B) : whole B n = 0 := by
  rw [whole, Nat.div_eq_of_lt h, Nat.mul_zero]

lemma whole_eq_sub (B n : ℕ) : whole B n = n - n % B := by
  have h := whole_add_mod B n
  omega

lemma whole_mul_add {B : ℕ} (hB : 0 < B) (q n : ℕ) :
    whole B (B * q + n) = B * q + whole B n := by
  rw [whole, Nat.add_comm, Nat.add_mul_div_left _ _ hB, Nat.mul_add, Nat.add_comm, whole]

lemma div_add_mod_add_div {B : ℕ} (hB : 0 < B) (m n : ℕ) :
    m / B + (m % B + n) / B = (m + n) / B := by
  have hdiv := Nat.div_add_mod m B
  have hsum : m + n = m % B + n + B * (m / B) := by omega
  rw [hsum, Nat.add_mul_div_left _ _ hB, Nat.add_comm]

/-- The blocks emitted and the elements kept when `input` follows the `pending` ones. -/
def absorb (B : ℕ) (pending input : List α) : List α × List α :=
  ((pending ++ input).take (whole B (pending.length + input.length)),
    (pending ++ input).drop (whole B (pending.length + input.length)))

lemma absorb_append_eq (B : ℕ) (pending input : List α) :
    (absorb B pending input).1 ++ (absorb B pending input).2 = pending ++ input :=
  List.take_append_drop _ _

lemma length_absorb_fst (B : ℕ) (pending input : List α) :
    (absorb B pending input).1.length = whole B (pending.length + input.length) := by
  have h := whole_le B (pending.length + input.length)
  simp only [absorb, List.length_take, List.length_append]
  omega

lemma length_absorb_snd (B : ℕ) (pending input : List α) :
    (absorb B pending input).2.length = (pending.length + input.length) % B := by
  have h := whole_add_mod B (pending.length + input.length)
  simp only [absorb, List.length_drop, List.length_append]
  omega

/-- Absorbing two pieces one after the other is absorbing them at once. -/
lemma absorb_append {B : ℕ} (hB : 0 < B) (pending x y : List α) :
    absorb B pending (x ++ y) =
      ((absorb B pending x).1 ++ (absorb B (absorb B pending x).2 y).1,
        (absorb B (absorb B pending x).2 y).2) := by
  set q := (pending.length + x.length) / B with hq
  have hlen := length_absorb_snd B pending x
  have hfst : (absorb B pending x).1.length = B * q := length_absorb_fst B pending x
  have hall : pending ++ (x ++ y) =
      (absorb B pending x).1 ++ ((absorb B pending x).2 ++ y) := by
    rw [← List.append_assoc, ← List.append_assoc, absorb_append_eq]
  have hwhole : whole B (pending.length + (x ++ y).length) =
      (absorb B pending x).1.length + whole B ((absorb B pending x).2.length + y.length) := by
    rw [hfst, hlen, ← whole_mul_add hB]
    have hdiv := Nat.div_add_mod (pending.length + x.length) B
    rw [← hq] at hdiv
    simp only [List.length_append]
    congr 1
    omega
  simp only [absorb, Prod.mk.injEq]
  simp only [absorb] at hall hwhole
  rw [hall, hwhole, List.take_length_add_append, List.drop_length_add_append]
  exact ⟨rfl, rfl⟩

lemma absorb_nil {B : ℕ} {pending : List α} (h : pending.length < B) :
    absorb B pending [] = ([], pending) := by
  simp [absorb, whole_of_lt h]

end BlockBuffer
