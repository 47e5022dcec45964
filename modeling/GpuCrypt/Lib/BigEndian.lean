import Mathlib.Tactic

/-!
# Big-endian integers in byte vectors

`prefixNat v i` is the number written by the first `i` bytes of `v`, most significant byte
first, so that a loop that runs over the bytes can be followed from either end. The whole
vector writes `toNat v`, and `ofNat n x` writes `x` modulo `256 ^ n` in `n` bytes.
-/

namespace BigEndian

variable {n : ℕ}

/-- The number written by the first `i` bytes. -/
def prefixNat (v : Vector (BitVec 8) n) : ℕ → ℕ
  | 0 => 0
  | i + 1 => 256 * prefixNat v i + (v[i]?.getD 0).toNat

def toNat (v : Vector (BitVec 8) n) : ℕ := prefixNat v n

/-- The last `n` bytes of `x`. -/
def ofNat (n x : ℕ) : Vector (BitVec 8) n :=
  Vector.ofFn (fun i : Fin n => BitVec.ofNat 8 (x / 256 ^ (n - 1 - i)))

lemma prefixNat_succ (v : Vector (BitVec 8) n) {i : ℕ} (hi : i < n) :
    prefixNat v (i + 1) = 256 * prefixNat v i + (v[i]).toNat := by
  rw [prefixNat, Vector.getElem?_eq_getElem hi, Option.getD_some]

lemma prefixNat_lt (v : Vector (BitVec 8) n) (i : ℕ) : prefixNat v i < 256 ^ i := by
  induction i with
  | zero => simp [prefixNat]
  | succ i ih =>
    have hb := (v[i]?.getD 0).isLt
    rw [prefixNat, pow_succ]
    omega

lemma toNat_lt (v : Vector (BitVec 8) n) : toNat v < 256 ^ n := prefixNat_lt v n

lemma prefixNat_congr {v w : Vector (BitVec 8) n} {i : ℕ} (hi : i ≤ n)
    (h : ∀ k (hk : k < n), k < i → v[k] = w[k]) : prefixNat v i = prefixNat w i := by
  induction i with
  | zero => rfl
  | succ i ih =>
    rw [prefixNat_succ v (by omega), prefixNat_succ w (by omega), ih (by omega)
      (fun k hk hki => h k hk (by omega)), h i (by omega) (by omega)]

lemma getElem_eq_of_prefixNat_eq {v w : Vector (BitVec 8) n} {i : ℕ} (hi : i ≤ n)
    (h : prefixNat v i = prefixNat w i) : ∀ k (hk : k < n), k < i → v[k] = w[k] := by
  induction i with
  | zero => intro k hk hki; omega
  | succ i ih =>
    rw [prefixNat_succ v (by omega), prefixNat_succ w (by omega)] at h
    have hv := (v[i]).isLt
    have hw := (w[i]).isLt
    intro k hk hki
    by_cases hkeq : k = i
    · subst hkeq
      exact BitVec.eq_of_toNat_eq (by omega)
    · exact ih (by omega) (by omega) k hk (by omega)

lemma toNat_injective : Function.Injective (toNat : Vector (BitVec 8) n → ℕ) := by
  intro v w h
  exact Vector.ext (fun k hk => getElem_eq_of_prefixNat_eq le_rfl h k hk hk)

lemma prefixNat_ofNat (x : ℕ) {i : ℕ} (hi : i ≤ n) :
    prefixNat (ofNat n x) i = x / 256 ^ (n - i) % 256 ^ i := by
  induction i with
  | zero => simp [prefixNat, Nat.mod_one]
  | succ i ih =>
    have hexp : n - i = n - (i + 1) + 1 := by omega
    have hlast : n - 1 - i = n - (i + 1) := by omega
    have hdiv : x / 256 ^ (n - i) = x / 256 ^ (n - (i + 1)) / 256 := by
      rw [hexp, pow_succ, Nat.div_div_eq_div_mul]
    rw [prefixNat_succ _ (by omega), ih (by omega), hdiv, pow_succ', Nat.mod_mul]
    simp only [ofNat, Vector.getElem_ofFn, BitVec.toNat_ofNat, hlast]
    omega

lemma toNat_ofNat (n x : ℕ) : toNat (ofNat n x) = x % 256 ^ n := by
  rw [toNat, prefixNat_ofNat x le_rfl, Nat.sub_self, pow_zero, Nat.div_one]

lemma ofNat_toNat (v : Vector (BitVec 8) n) : ofNat n (toNat v) = v := by
  apply toNat_injective
  rw [toNat_ofNat, Nat.mod_eq_of_lt (toNat_lt v)]

lemma ofNat_eq_iff {x y : ℕ} : ofNat n x = ofNat n y ↔ x % 256 ^ n = y % 256 ^ n := by
  constructor
  · intro h
    rw [← toNat_ofNat, h, toNat_ofNat]
  · intro h
    apply toNat_injective
    rw [toNat_ofNat, toNat_ofNat, h]

lemma ofNat_toNat_ofNat_add (x y : ℕ) : ofNat n (toNat (ofNat n x) + y) = ofNat n (x + y) := by
  rw [ofNat_eq_iff, toNat_ofNat, Nat.mod_add_mod]

/-- The vector shifted by `m`, as a counter. -/
def add (v : Vector (BitVec 8) n) (m : ℕ) : Vector (BitVec 8) n := ofNat n (toNat v + m)

@[simp] lemma add_zero (v : Vector (BitVec 8) n) : add v 0 = v := ofNat_toNat v

lemma add_add (v : Vector (BitVec 8) n) (m k : ℕ) : add (add v m) k = add v (m + k) := by
  rw [add, add, ofNat_toNat_ofNat_add, add, Nat.add_assoc]

lemma toNat_add (v : Vector (BitVec 8) n) (m : ℕ) :
    toNat (add v m) = (toNat v + m) % 256 ^ n := toNat_ofNat n _

end BigEndian
