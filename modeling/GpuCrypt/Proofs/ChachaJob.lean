import GpuCrypt.Proofs.AesBlock
import GpuCrypt.Proofs.CipherStreams

/-!
# ChaCha20 jobs

The shader's rounds are the ten double rounds of RFC 8439, and the parameter block has the key, the
counter and the nonce in the places where the shader looks for them. Every invocation owns one block.
-/

namespace GpuCrypt

open LittleEndian Keystream

/-! ### The block function -/

lemma quarterRoundAt_eq (x : Vector Word 16) (q : Fin 16 × Fin 16 × Fin 16 × Fin 16) :
    Chacha20.quarterRoundAt x q = Rfc8439.qround x q.1 q.2.1 q.2.2.1 q.2.2.2 := rfl

def doubleRound : List (Fin 16 × Fin 16 × Fin 16 × Fin 16) :=
  [(0, 4, 8, 12), (1, 5, 9, 13), (2, 6, 10, 14), (3, 7, 11, 15),
    (0, 5, 10, 15), (1, 6, 11, 12), (2, 7, 8, 13), (3, 4, 9, 14)]

lemma foldl_doubleRound (x : Vector Word 16) :
    doubleRound.foldl Chacha20.quarterRoundAt x = Rfc8439.innerBlock x := by
  simp only [doubleRound, List.foldl_cons, List.foldl_nil, quarterRoundAt_eq, Rfc8439.innerBlock]

lemma quarterRounds_eq : Chacha20.quarterRounds = (List.replicate 10 doubleRound).flatten := by
  decide

lemma foldl_doubleRounds (n : ℕ) (x : Vector Word 16) :
    (List.replicate n doubleRound).flatten.foldl Chacha20.quarterRoundAt x =
      Rfc8439.innerBlock^[n] x := by
  induction n generalizing x with
  | zero => rfl
  | succ n ih =>
    rw [List.replicate_succ, List.flatten_cons, List.foldl_append, foldl_doubleRound, ih,
      Function.iterate_succ_apply]

/-! ### The parameter block -/

lemma wordAt_chachaNonce (iv : Vector Byte 16) {i : ℕ} (hi : i < 3) :
    wordAt (chachaNonce iv) i = wordAt iv (1 + i) := by
  unfold wordAt chachaNonce
  interval_cases i <;> simp

lemma chachaCounter_eq (iv : Vector Byte 16) : chachaCounter iv = wordAt iv 0 := by
  unfold chachaCounter wordAt
  simp

section Params

variable (ubo : Ubo) (len : ℕ) (key : Vector Byte 32) (iv : Vector Byte 16)

lemma batchSize_chachaParams :
    Chacha20.batchSize (chachaParams ubo len key iv) = BitVec.ofNat 32 ((len + 63) / 64) := by
  change chachaParams ubo len key iv 0 = _
  unfold chachaParams
  rw [Ubo.write_of_not_mem, Ubo.write_of_not_mem, Ubo.write_of_not_mem, Ubo.write_single]
  all_goals omega

lemma key_chachaParams {i : ℕ} (hi : i < 8) :
    Chacha20.key (chachaParams ubo len key iv) i = wordAt key i := by
  have hlen : i < (wordsOf key).length := by
    rw [length_wordsOf]
    exact hi
  change chachaParams ubo len key iv (4 + i) = _
  unfold chachaParams
  rw [Ubo.write_of_not_mem, Ubo.write_of_not_mem, Ubo.write_of_mem _ 4 hlen, getElem_wordsOf]
  all_goals omega

lemma nonce_chachaParams {i : ℕ} (hi : i < 3) :
    Chacha20.nonce (chachaParams ubo len key iv) i = wordAt (chachaNonce iv) i := by
  have hlen : i < ((wordsOf iv).drop 1).length := by
    rw [List.length_drop, length_wordsOf]
    omega
  change chachaParams ubo len key iv (12 + i) = _
  unfold chachaParams
  rw [Ubo.write_of_not_mem, Ubo.write_of_mem _ 12 hlen, List.getElem_drop, getElem_wordsOf,
    wordAt_chachaNonce iv hi]
  omega

lemma counter_chachaParams :
    Chacha20.nonce (chachaParams ubo len key iv) 3 = chachaCounter iv := by
  have hfirst : (wordsOf iv).take 1 = [wordAt iv 0] := rfl
  change chachaParams ubo len key iv 15 = _
  unfold chachaParams
  rw [hfirst, Ubo.write_single, chachaCounter_eq]

/-- The state in the shader is the state of the RFC. -/
lemma initialState_chachaParams (gID : Word) :
    Chacha20.initialState (chachaParams ubo len key iv) gID =
      Rfc8439.initialState key (chachaCounter iv + gID) (chachaNonce iv) := by
  have hkey : ∀ i, i < 8 → Chacha20.key (chachaParams ubo len key iv) i = wordAt key i :=
    fun i hi => key_chachaParams ubo len key iv hi
  have hnonce : ∀ i, i < 3 →
      Chacha20.nonce (chachaParams ubo len key iv) i = wordAt (chachaNonce iv) i :=
    fun i hi => nonce_chachaParams ubo len key iv hi
  simp only [Chacha20.initialState, Rfc8439.initialState_mk, counter_chachaParams,
    hkey 0 (by omega), hkey 1 (by omega), hkey 2 (by omega), hkey 3 (by omega), hkey 4 (by omega),
    hkey 5 (by omega), hkey 6 (by omega), hkey 7 (by omega), hnonce 0 (by omega),
    hnonce 1 (by omega), hnonce 2 (by omega)]

/-- Serialised, the words of an invocation are a block of the RFC. -/
lemma serialize_blockWords (gID : Word) :
    Rfc8439.serialize (Chacha20.blockWords (chachaParams ubo len key iv) gID) =
      Rfc8439.block key (chachaCounter iv + gID) (chachaNonce iv) := by
  simp only [Chacha20.blockWords, Rfc8439.block, initialState_chachaParams, quarterRounds_eq,
    foldl_doubleRounds]

end Params

/-! ### The dispatch -/

lemma getElem?_serialize (x : Vector Word 16) {k j : ℕ} (hk : k < 16) (hj : j < 4) :
    (Rfc8439.serialize x)[4 * k + j]? = some (byte ((x[k]?).getD 0) j) := by
  have hdiv : (4 * k + j) / 4 = k := by omega
  have hmod : (4 * k + j) % 4 = j := by omega
  rw [Rfc8439.serialize, Vector.getElem?_eq_getElem (by omega), Vector.getElem_ofFn]
  simp only [hdiv, hmod]

/-- Under the parameters of a job in the ring, the shader has an invocation for each block. -/
lemma blockKernel_chacha20 (ubo : Ubo) {len : ℕ} (hlen : len ≤ ringSize) (key : Vector Byte 32)
    (iv : Vector Byte 16) (inputData : Word → Word) :
    let params := chachaParams ubo len key iv
    Compute.BlockKernel (Chacha20.main params inputData) 16 ((len + 63) / 64) (fun g k =>
      ((Chacha20.blockWords params (BitVec.ofNat 32 g))[k]?).getD 0 ^^^
        inputData (BitVec.ofNat 32 (g * 16 + k))) := by
  intro params
  have hfits : (len + 63) / 64 * 16 ≤ 2 ^ 32 := by
    rw [ringSize_eq] at hlen
    omega
  refine Compute.BlockKernel.of_guard
    (fun gID k => ((Chacha20.blockWords params gID)[k]?).getD 0) inputData
    (batchSize_chachaParams ubo len key iv) hfits (by norm_num) ?_
  intro gID
  rfl

lemma copyOut_runChacha20 (inputRing outputRing : Compute.Memory) (ubo : Ubo) (off : ℕ)
    {input : List Byte} (hlen : input.length ≤ ringSize) (key : Vector Byte 32)
    (iv : Vector Byte 16) :
    Compute.copyOut (runChacha20 (Compute.copyIn inputRing off input) outputRing
        (chachaParams ubo input.length key iv) off input.length) off input.length =
      xorFrom (ofBlocks (fun j =>
        Rfc8439.block key (chachaCounter iv + BitVec.ofNat 32 j) (chachaNonce iv))) 0 input := by
  obtain ⟨hcover, hsize⟩ := groupCount_cover (show 0 < 64 by norm_num) hlen
  have hkernel := blockKernel_chacha20 ubo hlen key iv
    (Compute.uint (Compute.copyIn inputRing off input) off)
  refine hkernel.copyOut_dispatch rfl hcover hsize (by omega) _ ?_ _
  intro g k j hg hk hj
  rw [← serialize_blockWords ubo input.length key iv, getElem?_serialize _ hk hj]

lemma Batcher.submit_chacha20 (b : Batcher) (hpipe : b.pipelines .chacha20 = true)
    {input : List Byte} (hring : input.length ≤ ringSize) (key : Vector Byte 32)
    (iv : Vector Byte 16) :
    let off := if ringSize < b.offset + input.length then 0 else b.offset
    let params := chachaParams b.params input.length key iv
    let inputRing := Compute.copyIn b.inputRing off input
    let outputRing := runChacha20 inputRing b.outputRing params off input.length
    b.submit .success input key iv .chacha20 =
      ({ inputRing := inputRing, outputRing := outputRing, params := params,
         offset := off + input.length, pipelines := b.pipelines },
        some (Compute.copyOut outputRing off input.length)) := by
  have hfits : ¬ringSize < input.length := by omega
  have hready : ¬(Algorithm.chacha20 = .count ∨ b.pipelines .chacha20 = false) := by
    rw [hpipe]
    decide
  simp only [Batcher.submit, if_neg hfits, if_neg hready, VkOutcome.success, if_true,
    Algorithm.params, Algorithm.run]

/-- A ChaCha20 job of whole blocks is RFC 8439: the input is XORed with the blocks from the counter
of the IV on. Every block is stored by exactly one of the launched invocations, which store nothing
else, so that their order does not matter and the rest of the ring stays as it is. -/
theorem chacha20_job (b : Batcher) (hpipe : b.pipelines .chacha20 = true) (key : Vector Byte 32)
    (iv : Vector Byte 16) (blocks : ℕ) (input : List Byte) (hlen : input.length = 64 * blocks)
    (hring : input.length ≤ ringSize) :
    let r := b.submit .success input key iv .chacha20
    let off := if ringSize < b.offset + input.length then 0 else b.offset
    let groups := (groupCount 64 input.length).toNat
    let main := Chacha20.main r.1.params (Compute.uint r.1.inputRing off)
    r.2 = some (xorFrom (ofBlocks (fun j =>
        Rfc8439.block key (chachaCounter iv + BitVec.ofNat 32 j) (chachaNonce iv))) 0 input) ∧
      (∀ j, j < blocks →
        ∃! g, g < groups * 256 ∧ ∃ w ∈ main (BitVec.ofNat 32 g), w.1.toNat / 16 = j) ∧
      (∀ g, g < groups * 256 → (main (BitVec.ofNat 32 g)).map (fun w => w.1.toNat) =
        if g < blocks then (List.range 16).map (fun k => g * 16 + k) else []) ∧
      (∀ stores, (Compute.dispatchStores 256 groups off main).Perm stores →
        Compute.put b.outputRing stores = r.1.outputRing) ∧
      ∀ a, a < off ∨ off + input.length ≤ a → r.1.outputRing a = b.outputRing a := by
  rw [b.submit_chacha20 hpipe hring key iv]
  intro r off groups main
  obtain ⟨hcover, hsize⟩ := groupCount_cover (show 0 < 64 by norm_num) hring
  have hblocks : (input.length + (64 - 1)) / 64 = blocks := by omega
  have hkernel := blockKernel_chacha20 b.params hring key iv (Compute.uint r.1.inputRing off)
  rw [hblocks] at hcover
  simp only [show (input.length + 63) / 64 = blocks from hblocks] at hkernel
  refine ⟨congrArg some ?_, fun j hj => ?_, fun g hg => ?_, fun stores hperm => ?_,
    fun a ha => ?_⟩
  · exact copyOut_runChacha20 b.inputRing b.outputRing b.params off hring key iv
  · exact hkernel.existsUnique_writer (by norm_num) hcover hsize hj
  · exact hkernel.indices (by omega)
  · exact hkernel.dispatch_perm hcover hsize b.outputRing off hperm
  · exact hkernel.dispatch_outside hcover hsize b.outputRing off (by omega)

/-- A job of two blocks whose counter wraps after the first. -/
theorem chacha20_job_wrap :
    let b : Batcher := ⟨fun _ => 0, fun _ => 0, fun _ => 0, 0, fun _ => true⟩
    (b.submit .success (List.replicate 128 5) (Vector.replicate 32 7) (Vector.replicate 16 0xFF)
        .chacha20).2 =
      some (xorFrom (ofBlocks (fun j => Rfc8439.block (Vector.replicate 32 7)
        (0xFFFFFFFF + BitVec.ofNat 32 j) (Vector.replicate 12 0xFF))) 0 (List.replicate 128 5)) :=
  (chacha20_job ⟨fun _ => 0, fun _ => 0, fun _ => 0, 0, fun _ => true⟩ rfl (Vector.replicate 32 7)
    (Vector.replicate 16 0xFF) 2 (List.replicate 128 5) (by simp) (by simp [ringSize])).1

end GpuCrypt
