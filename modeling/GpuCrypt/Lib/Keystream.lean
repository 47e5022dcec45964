import Mathlib.Tactic

/-!
# Combining data with a keystream

A keystream is a function from positions to key elements, and `combine op ks n d` applies it
to a piece of data `d` that starts at position `n` of the stream. The laws below say that
cutting the data into pieces does not matter, as long as every piece keeps its position.
Keystreams made of fixed-size blocks are `ofBlocks`.
-/

namespace Keystream

variable {α κ : Type*}

/-- The data `d`, taken to start at position `n`, combined with the keystream `ks`. -/
def combine (op : α → κ → α) (ks : ℕ → κ) : ℕ → List α → List α
  | _, [] => []
  | n, a :: d => op a (ks n) :: combine op ks (n + 1) d

variable (op : α → κ → α) (ks : ℕ → κ)

@[simp] lemma combine_nil (n : ℕ) : combine op ks n [] = [] := rfl

@[simp] lemma combine_cons (n : ℕ) (a : α) (d : List α) :
    combine op ks n (a :: d) = op a (ks n) :: combine op ks (n + 1) d := rfl

@[simp] lemma length_combine (n : ℕ) (d : List α) : (combine op ks n d).length = d.length := by
  induction d generalizing n with
  | nil => rfl
  | cons a d ih => simp [ih]

lemma combine_append (n : ℕ) (d e : List α) :
    combine op ks n (d ++ e) = combine op ks n d ++ combine op ks (n + d.length) e := by
  induction d generalizing n with
  | nil => simp
  | cons a d ih =>
    simp only [List.cons_append, combine_cons, ih, List.length_cons]
    rw [Nat.add_assoc, Nat.add_comm 1]

lemma take_combine (n k : ℕ) (d : List α) :
    (combine op ks n d).take k = combine op ks n (d.take k) := by
  induction d generalizing n k with
  | nil => simp
  | cons a d ih =>
    cases k with
    | zero => simp
    | succ k => simp [ih]

lemma getElem?_combine (n i : ℕ) (d : List α) :
    (combine op ks n d)[i]? = d[i]?.map (op · (ks (n + i))) := by
  induction d generalizing n i with
  | nil => simp
  | cons a d ih =>
    cases i with
    | zero => simp
    | succ i =>
      simp only [combine_cons, List.getElem?_cons_succ, ih]
      rw [Nat.add_assoc, Nat.add_comm 1]

lemma eq_combine_of_getElem? {n : ℕ} {d e : List α} (hl : e.length = d.length)
    (h : ∀ i a, d[i]? = some a → e[i]? = some (op a (ks (n + i)))) :
    e = combine op ks n d := by
  apply List.ext_getElem?
  intro i
  rw [getElem?_combine]
  cases hd : d[i]? with
  | none =>
    rw [List.getElem?_eq_none_iff] at hd
    rw [Option.map_none, List.getElem?_eq_none_iff]
    omega
  | some a => simpa using h i a hd

lemma combine_congr {ks' : ℕ → κ} {n n' : ℕ} {d : List α}
    (h : ∀ i, i < d.length → ks (n + i) = ks' (n' + i)) :
    combine op ks n d = combine op ks' n' d := by
  apply eq_combine_of_getElem? _ _ (length_combine op ks n d)
  intro i a ha
  have hi : i < d.length := (List.getElem?_eq_some_iff.mp ha).1
  rw [getElem?_combine, ha, Option.map_some, h i hi]

lemma eq_of_combine_eq (hop : ∀ a, Function.Injective (op a)) {ks' : ℕ → κ} {n n' : ℕ}
    {d : List α} (h : combine op ks n d = combine op ks' n' d) {i : ℕ} (hi : i < d.length) :
    ks (n + i) = ks' (n' + i) := by
  have hget := congrArg (fun l => l[i]?) h
  simp only [getElem?_combine, List.getElem?_eq_getElem hi, Option.map_some,
    Option.some.injEq] at hget
  exact hop _ hget

lemma isPrefix_combine {n : ℕ} {d e : List α} (h : d <+: e) :
    combine op ks n d <+: combine op ks n e := by
  obtain ⟨t, rfl⟩ := h
  rw [combine_append]
  exact List.prefix_append _ _

/-- The first `n` elements of `ks`, followed by `ks'`. -/
def join (n : ℕ) (ks ks' : ℕ → κ) (i : ℕ) : κ := if i < n then ks i else ks' (i - n)

lemma combine_join (ks' : ℕ → κ) (d e : List α) :
    combine op (join d.length ks ks') 0 (d ++ e) = combine op ks 0 d ++ combine op ks' 0 e := by
  rw [combine_append]
  refine congrArg₂ (· ++ ·) (combine_congr op _ fun i hi => ?_) (combine_congr op _ fun i _ => ?_)
  · rw [join, Nat.zero_add, if_pos hi]
  · have hge : ¬0 + d.length + i < d.length := by omega
    have hsub : 0 + d.length + i - d.length = 0 + i := by omega
    rw [join, if_neg hge, hsub]

/-! ### Keystreams made of blocks -/

section Blocks

-- blocks of 16 elements are the common case, and definitions about them share this instance
instance neZero_sixteen : NeZero 16 := ⟨by norm_num⟩

instance neZero_sixtyFour : NeZero 64 := ⟨by norm_num⟩

variable {B : ℕ} [NeZero B]

/-- The blocks `blk 0`, `blk 1`, ... written one after the other. -/
def ofBlocks (blk : ℕ → Vector κ B) (i : ℕ) : κ := (blk (i / B)).get (Fin.ofNat B i)

lemma ofBlocks_of_lt (blk : ℕ → Vector κ B) {i : ℕ} (hi : i < B) :
    ofBlocks blk i = (blk 0)[i] := by
  have hfin : Fin.ofNat B i = ⟨i, hi⟩ := Fin.ext (Nat.mod_eq_of_lt hi)
  rw [ofBlocks, Nat.div_eq_of_lt hi, hfin]
  rfl

/-- Starting `q` blocks later is the keystream from position `B * q` on. -/
lemma ofBlocks_shift (blk : ℕ → Vector κ B) (q i : ℕ) :
    ofBlocks (fun j => blk (q + j)) i = ofBlocks blk (B * q + i) := by
  have hB : 0 < B := Nat.pos_of_neZero B
  have hdiv : (B * q + i) / B = q + i / B := by
    rw [Nat.add_comm, Nat.add_mul_div_left _ _ hB, Nat.add_comm]
  have hmod : Fin.ofNat B (B * q + i) = Fin.ofNat B i := by
    apply Fin.ext
    simp
  simp only [ofBlocks, hdiv, hmod]

lemma combine_ofBlocks_shift (op : α → κ → α) (blk : ℕ → Vector κ B) (q : ℕ) (d : List α) :
    combine op (ofBlocks (fun j => blk (q + j))) 0 d = combine op (ofBlocks blk) (B * q) d := by
  apply combine_congr
  intro i _
  rw [ofBlocks_shift, Nat.zero_add]

/-- Data cut after `q` blocks, or after its end. -/
lemma combine_ofBlocks_take_drop (op : α → κ → α) (blk : ℕ → Vector κ B) (q : ℕ) (d : List α) :
    combine op (ofBlocks blk) 0 d = combine op (ofBlocks blk) 0 (d.take (B * q)) ++
      combine op (ofBlocks (fun j => blk (q + j))) 0 (d.drop (B * q)) := by
  by_cases hq : B * q ≤ d.length
  · have happend := combine_append op (ofBlocks blk) 0 (d.take (B * q)) (d.drop (B * q))
    rw [List.take_append_drop, List.length_take, Nat.min_eq_left hq, Nat.zero_add] at happend
    rw [happend, combine_ofBlocks_shift]
  · rw [List.take_of_length_le (by omega), List.drop_of_length_le (by omega), combine_nil,
      List.append_nil]

end Blocks

end Keystream
