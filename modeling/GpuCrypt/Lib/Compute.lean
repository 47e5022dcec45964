import GpuCrypt.Lib.LittleEndian
import GpuCrypt.Lib.Keystream

/-!
# One-dimensional compute dispatches

A dispatch runs `main` for every invocation index. An invocation stores words of an output buffer
that is an array of `uint`; the buffers are byte memories, little-endian. What the memory holds
afterwards does not depend on the order of the stores as long as no two of them disagree.

The kernels here are of one shape, `BlockKernel`: the first invocations own one block of the
output each, and the others do nothing.
-/

namespace Compute

open LittleEndian

/-! ### Stores to a memory -/

section Stores

variable {α β : Type*} [DecidableEq α]

def put (m : α → β) : List (α × β) → α → β
  | [] => m
  | w :: ws => put (Function.update m w.1 w.2) ws

lemma put_of_forall_ne {m : α → β} {ws : List (α × β)} {a : α} (h : ∀ w ∈ ws, w.1 ≠ a) :
    put m ws a = m a := by
  induction ws generalizing m with
  | nil => rfl
  | cons w ws ih =>
    rw [put, ih (fun v hv => h v (List.mem_cons_of_mem _ hv))]
    exact Function.update_of_ne (h w List.mem_cons_self).symm _ _

/-- An address that is only ever stored `b` holds `b`. -/
lemma put_of_mem {m : α → β} {ws : List (α × β)} {a : α} {b : β} (hmem : (a, b) ∈ ws)
    (h : ∀ w ∈ ws, w.1 = a → w.2 = b) : put m ws a = b := by
  induction ws generalizing m with
  | nil => simp at hmem
  | cons w ws ih =>
    have htail : ∀ v ∈ ws, v.1 = a → v.2 = b := fun v hv => h v (List.mem_cons_of_mem _ hv)
    rw [put]
    by_cases hlater : (a, b) ∈ ws
    · exact ih hlater htail
    · have hne : ∀ v ∈ ws, v.1 ≠ a := by
        rintro v hv rfl
        exact hlater (htail v hv rfl ▸ hv)
      rw [put_of_forall_ne hne]
      rcases List.mem_cons.mp hmem with rfl | hmem
      · exact Function.update_self _ _ _
      · exact absurd hmem hlater

/-- Stores that do not disagree can be made in any order. -/
lemma put_perm {m : α → β} {ws ws' : List (α × β)} (hperm : ws.Perm ws')
    (h : ∀ v ∈ ws, ∀ w ∈ ws, v.1 = w.1 → v.2 = w.2) : put m ws = put m ws' := by
  funext a
  by_cases ha : ∃ w ∈ ws, w.1 = a
  · obtain ⟨w, hw, rfl⟩ := ha
    rw [put_of_mem hw (fun v hv hvw => h v hv w hw hvw),
      put_of_mem (hperm.mem_iff.mp hw) (fun v hv hvw => h v (hperm.mem_iff.mpr hv) w hw hvw)]
  · have hne : ∀ w ∈ ws, w.1 ≠ a := fun w hw heq => ha ⟨w, hw, heq⟩
    rw [put_of_forall_ne hne, put_of_forall_ne (fun w hw => hne w (hperm.mem_iff.mpr hw))]

end Stores

/-! ### Byte memories and arrays of words -/

abbrev Memory := ℕ → BitVec 8

def copyIn (m : Memory) (off : ℕ) (l : List (BitVec 8)) : Memory :=
  fun a => if off ≤ a ∧ a < off + l.length then l.getD (a - off) 0 else m a

def copyOut (m : Memory) (off n : ℕ) : List (BitVec 8) := (List.range n).map (fun i => m (off + i))

/-- Element `i` of the array of `uint` bound at offset `off`. -/
def uint (m : Memory) (off : ℕ) (i : BitVec 32) : BitVec 32 :=
  word (m (off + 4 * i.toNat)) (m (off + 4 * i.toNat + 1)) (m (off + 4 * i.toNat + 2))
    (m (off + 4 * i.toNat + 3))

/-- The byte stores of a store to an element of that array. -/
def byteStores (off : ℕ) (w : BitVec 32 × BitVec 32) : List (ℕ × BitVec 8) :=
  (List.range 4).map (fun k => (off + 4 * w.1.toNat + k, byte w.2 k))

/-- All byte stores of a dispatch of `groups` workgroups with `size` invocations each. -/
def dispatchStores (size groups : ℕ) (off : ℕ) (main : BitVec 32 → List (BitVec 32 × BitVec 32)) :
    List (ℕ × BitVec 8) :=
  ((List.range (groups * size)).flatMap (fun i => main (BitVec.ofNat 32 i))).flatMap
    (byteStores off)

def dispatch (size groups : ℕ) (out : Memory) (off : ℕ)
    (main : BitVec 32 → List (BitVec 32 × BitVec 32)) : Memory :=
  put out (dispatchStores size groups off main)

@[simp] lemma length_copyOut (m : Memory) (off n : ℕ) : (copyOut m off n).length = n := by
  simp [copyOut]

lemma getElem?_copyOut (m : Memory) (off n i : ℕ) :
    (copyOut m off n)[i]? = if i < n then some (m (off + i)) else none := by
  unfold copyOut
  by_cases h : i < n
  · simp [h]
  · simp [h]

lemma copyIn_of_getElem? {m : Memory} {off i : ℕ} {l : List (BitVec 8)} {b : BitVec 8}
    (h : l[i]? = some b) : copyIn m off l (off + i) = b := by
  have hi : i < l.length := (List.getElem?_eq_some_iff.mp h).1
  unfold copyIn
  rw [if_pos ⟨by omega, by omega⟩, Nat.add_sub_cancel_left, List.getD_eq_getElem?_getD, h,
    Option.getD_some]

lemma copyIn_of_not_mem {m : Memory} {off a : ℕ} {l : List (BitVec 8)}
    (h : a < off ∨ off + l.length ≤ a) : copyIn m off l a = m a :=
  if_neg (by omega)

@[simp] lemma copyIn_nil (m : Memory) (off : ℕ) : copyIn m off [] = m := by
  funext a
  exact copyIn_of_not_mem (by rw [List.length_nil]; omega)

/-- Two writes behind each other are one. -/
lemma copyIn_append (m : Memory) (off : ℕ) (l l' : List (BitVec 8)) :
    copyIn (copyIn m off l) (off + l.length) l' = copyIn m off (l ++ l') := by
  funext a
  unfold copyIn
  rw [List.length_append]
  by_cases hlater : off + l.length ≤ a
  · have hnot : ¬(off ≤ a ∧ a < off + l.length) := by omega
    have hsub : a - off - l.length = a - (off + l.length) := by omega
    rw [if_neg hnot, List.getD_eq_getElem?_getD, List.getD_eq_getElem?_getD,
      List.getElem?_append_right (by omega), hsub]
    congr 1
    apply propext
    omega
  · rw [if_neg (by omega)]
    by_cases hfirst : off ≤ a
    · rw [if_pos (by omega), if_pos (by omega), List.getD_eq_getElem?_getD,
        List.getD_eq_getElem?_getD, List.getElem?_append_left (by omega)]
    · rw [if_neg (by omega), if_neg (by omega)]

lemma copyOut_succ (m : Memory) (off n : ℕ) :
    copyOut m off (n + 1) = m off :: copyOut m (off + 1) n := by
  unfold copyOut
  rw [List.range_succ_eq_map, List.map_cons, List.map_map, Nat.add_zero]
  congr 1
  apply List.map_congr_left
  intro i _
  rw [Function.comp_apply, Nat.succ_eq_add_one, Nat.add_assoc, Nat.add_comm 1 i]

lemma take_copyOut (m : Memory) (off : ℕ) {k n : ℕ} (h : k ≤ n) :
    (copyOut m off n).take k = copyOut m off k := by
  unfold copyOut
  rw [← List.map_take, List.take_range, Nat.min_eq_left h]

lemma drop_copyOut (m : Memory) (off k n : ℕ) :
    (copyOut m off n).drop k = copyOut m (off + k) (n - k) := by
  apply List.ext_getElem?
  intro i
  rw [List.getElem?_drop, getElem?_copyOut, getElem?_copyOut, Nat.add_assoc]
  by_cases hi : i < n - k
  · rw [if_pos hi, if_pos (by omega)]
  · rw [if_neg hi, if_neg (by omega)]

/-- A read after a write elsewhere. -/
lemma copyOut_copyIn_of_disjoint (m : Memory) {off off' n : ℕ} {l : List (BitVec 8)}
    (h : off + l.length ≤ off' ∨ off' + n ≤ off) :
    copyOut (copyIn m off l) off' n = copyOut m off' n := by
  apply List.map_congr_left
  intro i hi
  rw [List.mem_range] at hi
  exact copyIn_of_not_mem (by omega)

/-- A read of what has been written. -/
lemma copyOut_copyIn (m : Memory) (off : ℕ) {n : ℕ} {l : List (BitVec 8)} (h : n ≤ l.length) :
    copyOut (copyIn m off l) off n = l.take n := by
  apply List.ext_getElem?
  intro i
  rw [getElem?_copyOut, List.getElem?_take]
  by_cases hi : i < n
  · rw [if_pos hi, if_pos hi, List.getElem?_eq_getElem (by omega),
      copyIn_of_getElem? (List.getElem?_eq_getElem (by omega))]
  · rw [if_neg hi, if_neg hi]

/-- Writing what is there changes nothing. -/
lemma copyIn_of_copyOut {m : Memory} {off : ℕ} {l : List (BitVec 8)}
    (h : copyOut m off l.length = l) : copyIn m off l = m := by
  funext a
  by_cases ha : off ≤ a ∧ a < off + l.length
  · have hget : l[a - off]? = some (m a) := by
      rw [← h, getElem?_copyOut, if_pos (by omega), Nat.add_sub_cancel' ha.1]
    have hin : copyIn m off l (off + (a - off)) = m a := copyIn_of_getElem? hget
    rwa [Nat.add_sub_cancel' ha.1] at hin
  · exact if_neg ha

lemma copyOut_congr {m m' : Memory} {off n : ℕ} (h : ∀ i, i < n → m (off + i) = m' (off + i)) :
    copyOut m off n = copyOut m' off n :=
  List.map_congr_left (fun i hi => h i (List.mem_range.mp hi))

lemma byte_uint (m : Memory) (off : ℕ) (i : BitVec 32) {k : ℕ} (hk : k < 4) :
    byte (uint m off i) k = m (off + 4 * i.toNat + k) := by
  unfold uint
  rcases (by omega : k = 0 ∨ k = 1 ∨ k = 2 ∨ k = 3) with rfl | rfl | rfl | rfl
  · exact byte_word_zero _ _ _ _
  · exact byte_word_one _ _ _ _
  · exact byte_word_two _ _ _ _
  · exact byte_word_three _ _ _ _

/-! ### Invocations that pass a guard -/

/-- The invocations of a dispatch whose index is below `batch`. -/
def passing (size groups : ℕ) (batch : BitVec 32) : List (BitVec 32) :=
  ((List.range (groups * size)).map (BitVec.ofNat 32)).filter (fun gID => gID < batch)

lemma passing_eq {size groups blocks : ℕ} {batch : BitVec 32} (hcover : blocks ≤ groups * size)
    (hsize : groups * size ≤ 2 ^ 32) (hbatch : batch.toNat = blocks) :
    passing size groups batch = (List.range blocks).map (BitVec.ofNat 32) := by
  have hguard : ∀ g, g < groups * size → (BitVec.ofNat 32 g < batch ↔ g < blocks) := by
    intro g hg
    rw [BitVec.lt_def, toNat_ofNat_of_lt (by omega), hbatch]
  obtain ⟨idle, hidle⟩ := Nat.exists_eq_add_of_le hcover
  rw [passing, hidle, List.range_add, List.map_append, List.filter_append,
    List.filter_eq_self.mpr, List.filter_eq_nil_iff.mpr, List.append_nil]
  · intro gID hgID
    obtain ⟨g, hg, rfl⟩ := List.mem_map.mp hgID
    obtain ⟨k, hk, rfl⟩ := List.mem_map.mp hg
    rw [List.mem_range] at hk
    rw [decide_eq_true_iff, hguard _ (by omega)]
    omega
  · intro gID hgID
    obtain ⟨g, hg, rfl⟩ := List.mem_map.mp hgID
    rw [List.mem_range] at hg
    exact decide_eq_true ((hguard g (by omega)).mpr hg)

/-! ### Kernels with a block for every invocation -/

/-- Invocation `g` stores the `n` words `f g 0`, `f g 1`, ... of block `g` if `g < blocks`, and
nothing otherwise. -/
structure BlockKernel (main : BitVec 32 → List (BitVec 32 × BitVec 32)) (n blocks : ℕ)
    (f : ℕ → ℕ → BitVec 32) : Prop where
  fits : blocks * n ≤ 2 ^ 32
  active : ∀ g, g < blocks → main (BitVec.ofNat 32 g) =
    (List.range n).map (fun k => (BitVec.ofNat 32 (g * n + k), f g k))
  idle : ∀ g, blocks ≤ g → g < 2 ^ 32 → main (BitVec.ofNat 32 g) = []

section Kernels

variable {main : BitVec 32 → List (BitVec 32 × BitVec 32)} {n blocks size groups : ℕ}
  {f : ℕ → ℕ → BitVec 32}

lemma BlockKernel.toNat_index (h : BlockKernel main n blocks f) {g k : ℕ} (hg : g < blocks)
    (hk : k < n) : (BitVec.ofNat 32 (g * n + k)).toNat = g * n + k := by
  have hle : (g + 1) * n ≤ blocks * n := Nat.mul_le_mul_right n hg
  have hfits := h.fits
  rw [Nat.add_mul] at hle
  exact toNat_ofNat_of_lt (by omega)

lemma BlockKernel.mem_dispatchStores (h : BlockKernel main n blocks f)
    (hcover : blocks ≤ groups * size) (hsize : groups * size ≤ 2 ^ 32) (off : ℕ)
    (w : ℕ × BitVec 8) :
    w ∈ dispatchStores size groups off main ↔
      ∃ g k j, g < blocks ∧ k < n ∧ j < 4 ∧ w = (off + 4 * (g * n + k) + j, byte (f g k) j) := by
  unfold dispatchStores byteStores
  simp only [List.mem_flatMap, List.mem_range, List.mem_map]
  constructor
  · rintro ⟨v, ⟨g, hg, hv⟩, j, hj, rfl⟩
    by_cases hactive : g < blocks
    · rw [h.active g hactive, List.mem_map] at hv
      obtain ⟨k, hk, rfl⟩ := hv
      rw [List.mem_range] at hk
      exact ⟨g, k, j, hactive, hk, hj, by rw [h.toNat_index hactive hk]⟩
    · rw [h.idle g (by omega) (by omega)] at hv
      simp at hv
  · rintro ⟨g, k, j, hg, hk, hj, rfl⟩
    refine ⟨(BitVec.ofNat 32 (g * n + k), f g k), ⟨g, by omega, ?_⟩, j, hj, ?_⟩
    · rw [h.active g hg, List.mem_map]
      exact ⟨k, List.mem_range.mpr hk, rfl⟩
    · rw [h.toNat_index hg hk]

lemma index_div {g k : ℕ} (hk : k < n) : (g * n + k) / n = g := by
  rw [Nat.mul_comm, Nat.mul_add_div (by omega), Nat.div_eq_of_lt hk, Nat.add_zero]

/-- A byte position determines the block, the word in the block and the byte in the word. -/
lemma position_injective {off g k j g' k' j' : ℕ} (hk : k < n) (hk' : k' < n) (hj : j < 4)
    (hj' : j' < 4) (heq : off + 4 * (g * n + k) + j = off + 4 * (g' * n + k') + j') :
    g = g' ∧ k = k' ∧ j = j' := by
  have hword : g * n + k = g' * n + k' := by omega
  have hbyte : j = j' := by omega
  have hg : g = g' := by rw [← @index_div n g k hk, hword, index_div hk']
  subst hg
  exact ⟨rfl, by omega, hbyte⟩

lemma BlockKernel.agree (h : BlockKernel main n blocks f) (hcover : blocks ≤ groups * size)
    (hsize : groups * size ≤ 2 ^ 32) (off : ℕ) :
    ∀ v ∈ dispatchStores size groups off main, ∀ w ∈ dispatchStores size groups off main,
      v.1 = w.1 → v.2 = w.2 := by
  intro v hv w hw heq
  rw [h.mem_dispatchStores hcover hsize] at hv hw
  obtain ⟨g, k, j, _, hk, hj, rfl⟩ := hv
  obtain ⟨g', k', j', _, hk', hj', rfl⟩ := hw
  obtain ⟨rfl, rfl, rfl⟩ := position_injective hk hk' hj hj' heq
  rfl

/-- The invocations can run in any order, and their stores can interleave. -/
theorem BlockKernel.dispatch_perm (h : BlockKernel main n blocks f)
    (hcover : blocks ≤ groups * size) (hsize : groups * size ≤ 2 ^ 32) (out : Memory) (off : ℕ)
    {stores : List (ℕ × BitVec 8)} (hperm : (dispatchStores size groups off main).Perm stores) :
    put out stores = dispatch size groups out off main :=
  (put_perm hperm (h.agree hcover hsize off)).symm

lemma BlockKernel.dispatch_block (h : BlockKernel main n blocks f)
    (hcover : blocks ≤ groups * size) (hsize : groups * size ≤ 2 ^ 32) (out : Memory) (off : ℕ)
    {g k j : ℕ} (hg : g < blocks) (hk : k < n) (hj : j < 4) :
    dispatch size groups out off main (off + 4 * (g * n + k) + j) = byte (f g k) j := by
  have hmem := (h.mem_dispatchStores hcover hsize off _).mpr ⟨g, k, j, hg, hk, hj, rfl⟩
  exact put_of_mem hmem (fun w hw heq => h.agree hcover hsize off w hw _ hmem heq)

lemma BlockKernel.dispatch_outside (h : BlockKernel main n blocks f)
    (hcover : blocks ≤ groups * size) (hsize : groups * size ≤ 2 ^ 32) (out : Memory) (off : ℕ)
    {a : ℕ} (ha : a < off ∨ off + 4 * (blocks * n) ≤ a) :
    dispatch size groups out off main a = out a := by
  refine put_of_forall_ne (fun w hw => ?_)
  rw [h.mem_dispatchStores hcover hsize] at hw
  obtain ⟨g, k, j, hg, hk, hj, rfl⟩ := hw
  have hle : (g + 1) * n ≤ blocks * n := Nat.mul_le_mul_right n hg
  rw [Nat.add_mul] at hle
  simp only
  omega

lemma BlockKernel.indices (h : BlockKernel main n blocks f) {g : ℕ} (hg : g < 2 ^ 32) :
    (main (BitVec.ofNat 32 g)).map (fun w => w.1.toNat) =
      if g < blocks then (List.range n).map (fun k => g * n + k) else [] := by
  by_cases hactive : g < blocks
  · rw [if_pos hactive, h.active g hactive, List.map_map]
    apply List.map_congr_left
    intro k hk
    exact h.toNat_index hactive (List.mem_range.mp hk)
  · rw [if_neg hactive, h.idle g (by omega) hg, List.map_nil]

lemma BlockKernel.existsUnique_writer (h : BlockKernel main n blocks f) (hn : 0 < n)
    (hcover : blocks ≤ groups * size) (hsize : groups * size ≤ 2 ^ 32) {j : ℕ} (hj : j < blocks) :
    ∃! g, g < groups * size ∧ ∃ w ∈ main (BitVec.ofNat 32 g), w.1.toNat / n = j := by
  have hwrites : ∀ g, g < groups * size →
      ((∃ w ∈ main (BitVec.ofNat 32 g), w.1.toNat / n = j) ↔ g = j) := by
    intro g hg
    have hmem : (∃ w ∈ main (BitVec.ofNat 32 g), w.1.toNat / n = j) ↔
        ∃ i ∈ (main (BitVec.ofNat 32 g)).map (fun w => w.1.toNat), i / n = j := by
      simp only [List.mem_map, exists_exists_and_eq_and]
    rw [hmem, h.indices (by omega)]
    by_cases hactive : g < blocks
    · simp only [if_pos hactive, List.mem_map, List.mem_range, exists_exists_and_eq_and]
      constructor
      · rintro ⟨k, hk, rfl⟩
        exact (index_div hk).symm
      · rintro rfl
        exact ⟨0, hn, index_div hn⟩
    · simp only [if_neg hactive, List.not_mem_nil, false_and, exists_false, false_iff]
      omega
  refine ⟨j, ⟨by omega, (hwrites j (by omega)).mpr rfl⟩, ?_⟩
  rintro g ⟨hg, hw⟩
  exact (hwrites g hg).mp hw

/-! ### Stream ciphers -/

/-- Kernels of the usual form: a guard against the number of blocks, then the input XORed with the
words `ks gID k`. -/
lemma BlockKernel.of_guard (ks : BitVec 32 → ℕ → BitVec 32) (input : BitVec 32 → BitVec 32)
    {batch : BitVec 32} (hbatch : batch = BitVec.ofNat 32 blocks)
    (hfits : blocks * n ≤ 2 ^ 32) (hn : 1 < n)
    (hmain : ∀ gID, main gID = if batch ≤ gID then [] else
      (List.range n).map (fun k => (gID * BitVec.ofNat 32 n + BitVec.ofNat 32 k,
        ks gID k ^^^ input (gID * BitVec.ofNat 32 n + BitVec.ofNat 32 k)))) :
    BlockKernel main n blocks (fun g k =>
      ks (BitVec.ofNat 32 g) k ^^^ input (BitVec.ofNat 32 (g * n + k))) := by
  have hle : blocks * 2 ≤ blocks * n := Nat.mul_le_mul_left blocks hn
  have hguard : ∀ g, g < 2 ^ 32 → (batch ≤ BitVec.ofNat 32 g ↔ blocks ≤ g) := by
    intro g hg
    rw [hbatch, BitVec.le_def, toNat_ofNat_of_lt hg, toNat_ofNat_of_lt (by omega)]
  constructor
  · exact hfits
  · intro g hg
    have hactive : ¬batch ≤ BitVec.ofNat 32 g := by
      rw [hguard g (by omega)]
      omega
    rw [hmain, if_neg hactive]
    simp only [BitVec.ofNat_add, BitVec.ofNat_mul]
  · intro g hg hlt
    rw [hmain, if_pos ((hguard g hlt).mpr hg)]

/-- A kernel that XORs the input with the words `ks g k` produces the input combined with the
keystream of the blocks that these words serialise to. The last block may be partial: its words
are computed from whatever follows the input in the memory, and cut off with the output. -/
theorem BlockKernel.copyOut_dispatch {B : ℕ} [NeZero B] {ks : ℕ → ℕ → BitVec 32}
    {inp : Memory} {off : ℕ} {input : List (BitVec 8)}
    (h : BlockKernel main n blocks
      (fun g k => ks g k ^^^ uint (copyIn inp off input) off (BitVec.ofNat 32 (g * n + k))))
    (hB : B = 4 * n) (hcover : blocks ≤ groups * size) (hsize : groups * size ≤ 2 ^ 32)
    (hlen : input.length ≤ B * blocks) (blk : ℕ → Vector (BitVec 8) B)
    (hblk : ∀ g k j, g < blocks → k < n → j < 4 → (blk g)[4 * k + j]? = some (byte (ks g k) j))
    (out : Memory) :
    copyOut (dispatch size groups out off main) off input.length =
      Keystream.combine (· ^^^ ·) (Keystream.ofBlocks blk) 0 input := by
  apply Keystream.eq_combine_of_getElem? _ _ (length_copyOut _ _ _)
  intro i b hb
  have hi : i < input.length := (List.getElem?_eq_some_iff.mp hb).1
  have hBpos : 0 < B := Nat.pos_of_neZero B
  -- byte `i` is byte `j` of word `k` of block `g`
  set g := i / B with hgdef
  set k := i % B / 4 with hkdef
  set j := i % B % 4 with hjdef
  have hdiv : B * g + i % B = i := Nat.div_add_mod i B
  have hmod : i % B < B := Nat.mod_lt i hBpos
  have hoff : 4 * k + j = i % B := Nat.div_add_mod (i % B) 4
  have hg : g < blocks := by
    rw [hgdef, Nat.div_lt_iff_lt_mul hBpos, Nat.mul_comm]
    omega
  have hk : k < n := by omega
  have hj : j < 4 := Nat.mod_lt _ (by omega)
  have hpos : 4 * (g * n + k) + j = i := by
    have hassoc : B * g = 4 * (g * n) := by rw [hB, Nat.mul_assoc, Nat.mul_comm g n]
    omega
  have hbyte := h.dispatch_block hcover hsize out off hg hk hj
  rw [byte_xor, byte_uint _ _ _ hj, h.toNat_index hg hk, Nat.add_assoc, hpos,
    copyIn_of_getElem? hb] at hbyte
  have hks : Keystream.ofBlocks blk i = byte (ks g k) j := by
    have hget := hblk g k j hg hk hj
    rw [hoff, Vector.getElem?_eq_getElem hmod, Option.some.injEq] at hget
    rw [← hget]
    rfl
  rw [getElem?_copyOut, if_pos hi, hbyte, Nat.zero_add, hks, BitVec.xor_comm]

end Kernels

end Compute
