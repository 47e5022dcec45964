import GpuCrypt.Proofs.BatcherSteps
import GpuCrypt.Proofs.AesJob

/-!
# Partial blocks of AES-256 jobs

A job need not be a multiple of 16 bytes long. Its last block is encrypted with whatever follows the
input in the ring, and cut off when the output is copied. The roundings of the host, from bytes to
blocks and from blocks to workgroups, and the guard of the shader leave one thread for each block.
-/

namespace GpuCrypt

open Keystream

/-- The threads of a job of `len` bytes are one for each block, and their elements make up the job
and lie in the rings. -/
structure Aes256Ctr.LaunchCovers (params : Ubo) (len : ℕ) (threads : List Word) : Prop where
  count : threads.length = (len + 15) / 16
  words : ∀ t ∈ threads, (accesses params t).map BitVec.toNat =
    [4 * t.toNat, 4 * t.toNat + 1, 4 * t.toNat + 2, 4 * t.toNat + 3]
  disjoint : threads.Pairwise (fun t u => List.Disjoint (accesses params t) (accesses params u))
  covers : ∀ i, i < len → ∃ t ∈ threads, ∃ w ∈ accesses params t, w.toNat = i / 4
  fits : ∀ t ∈ threads, ∀ w ∈ accesses params t, 4 * w.toNat + 4 ≤ ringSize

/-- The elements of an invocation below the number of blocks. -/
lemma Aes256Ctr.toNat_accesses (ubo : Ubo) {len : ℕ} (hlen : len ≤ ringSize)
    (key : Vector Byte 32) (iv : Vector Byte 16) {g : ℕ} (hg : g < (len + 15) / 16) :
    (accesses (aes256Params ubo len key iv) (BitVec.ofNat 32 g)).map BitVec.toNat =
      [4 * g, 4 * g + 1, 4 * g + 2, 4 * g + 3] := by
  have hring := ringSize_eq
  have hkernel := blockKernel_aes256 ubo hlen key iv (fun _ => 0)
  have hindices := hkernel.indices (g := g) (by omega)
  rw [if_pos hg] at hindices
  rw [← map_fst_main _ (fun _ => 0), List.map_map]
  refine hindices.trans ?_
  simp only [Nat.mul_comm g 4]
  rfl

/-- The launch of a job, whatever the parameter block held before. -/
theorem Aes256Ctr.launchCovers (ubo : Ubo) {len : ℕ} (hlen : len ≤ ringSize)
    (key : Vector Byte 32) (iv : Vector Byte 16) :
    LaunchCovers (aes256Params ubo len key iv) len
      (Compute.passing 256 (groupCount 16 len).toNat
        (batchSize (aes256Params ubo len key iv))) := by
  obtain ⟨hcover, hsize⟩ := groupCount_cover (show 0 < 16 by norm_num) hlen
  have hring := ringSize_eq
  have hbatch : (batchSize (aes256Params ubo len key iv)).toNat = (len + 15) / 16 := by
    rw [batchSize_aes256Params, LittleEndian.toNat_ofNat_of_lt (by omega)]
  rw [Compute.passing_eq hcover hsize hbatch]
  have hwords := fun g (hg : g < (len + 15) / 16) => toNat_accesses ubo hlen key iv hg
  have hmem : ∀ g, g < (len + 15) / 16 →
      ∀ w ∈ accesses (aes256Params ubo len key iv) (BitVec.ofNat 32 g), w.toNat / 4 = g := by
    intro g hg w hw
    have hw' := List.mem_map_of_mem (f := BitVec.toNat) hw
    rw [hwords g hg] at hw'
    simp only [List.mem_cons, List.not_mem_nil, or_false] at hw'
    omega
  constructor
  · rw [List.length_map, List.length_range]
  · intro t ht
    obtain ⟨g, hg, rfl⟩ := List.mem_map.mp ht
    rw [List.mem_range] at hg
    rw [hwords g hg, LittleEndian.toNat_ofNat_of_lt (by omega)]
  · rw [List.pairwise_map]
    refine List.pairwise_lt_range.imp_of_mem (fun {g h} hg hh hlt => ?_)
    rw [List.mem_range] at hg hh
    intro w hwg hwh
    have hg' := hmem g hg w hwg
    have hh' := hmem h hh w hwh
    omega
  · intro i hi
    have hg : i / 16 < (len + 15) / 16 := by omega
    refine ⟨BitVec.ofNat 32 (i / 16), List.mem_map_of_mem (List.mem_range.mpr hg), ?_⟩
    have hword : i / 4 ∈
        (accesses (aes256Params ubo len key iv) (BitVec.ofNat 32 (i / 16))).map BitVec.toNat := by
      rw [hwords _ hg]
      simp only [List.mem_cons, List.not_mem_nil, or_false]
      omega
    obtain ⟨w, hw, heq⟩ := List.mem_map.mp hword
    exact ⟨w, hw, heq⟩
  · intro t ht w hw
    obtain ⟨g, hg, rfl⟩ := List.mem_map.mp ht
    rw [List.mem_range] at hg
    have hw' := hmem g hg w hw
    omega

/-- What a job returns does not depend on what the batcher held before, if a dispatched job has
completed when its output is copied. -/
lemma Aes256Batcher.submit_snd_congr {vk : VkOutcome}
    (hvk : vk.queueSubmit = true → vk.completed = true) (b b' : Aes256Batcher) {input : List Byte}
    (hlen : input.length ≤ ringSize) (key : Vector Byte 32) (iv : Vector Byte 16) :
    (b.submit vk input key iv).2 = (b'.submit vk input key iv).2 := by
  have hout : ∀ a : Aes256Batcher, (a.submit vk input key iv).2 =
      if vk.queueSubmit then
        some (xorFrom (ofBlocks (fun g => Fips197.aes256 key (counter64 iv g))) 0 input)
      else none := by
    intro a
    rcases Aes256Batcher.submit_cases vk a input key iv with ⟨hlong, _⟩ | ⟨_, h⟩
    · omega
    · rw [h]
      by_cases hqueue : vk.queueSubmit = true
      · simp only [hqueue, hvk hqueue, Aes256Batcher.submitted, and_self, if_true]
        rw [copyOut_runAes256 a.inputRing a.outputRing a.params 0 hlen key iv]
      · simp only [hqueue, Bool.false_eq_true, if_false]
  rw [hout b, hout b']

/-- A job of any length up to the ring's, on a batcher that holds whatever it holds: the launch
covers the job, a thread reads and writes its elements only, and the bytes that come out are those
that come out of any other batcher. -/
theorem aes256_partial_blocks (vk : VkOutcome)
    (hvk : vk.queueSubmit = true → vk.completed = true) (b b' : Aes256Batcher) (input : List Byte)
    (hlen : input.length ≤ ringSize) (key : Vector Byte 32) (iv : Vector Byte 16) :
    let params := (b.submit vk input key iv).1.params
    Aes256Ctr.LaunchCovers params input.length
        (Compute.passing 256 (groupCount 16 input.length).toNat (Aes256Ctr.batchSize params)) ∧
      (∀ (t : Word) (inputData : Word → Word),
        (Aes256Ctr.main params inputData t).map Prod.fst = Aes256Ctr.accesses params t ∧
          ∀ inputData', (∀ i ∈ Aes256Ctr.accesses params t, inputData i = inputData' i) →
            Aes256Ctr.main params inputData t = Aes256Ctr.main params inputData' t) ∧
      (b.submit vk input key iv).2 = (b'.submit vk input key iv).2 := by
  intro params
  have hparams : params = aes256Params b.params input.length key iv := by
    rcases Aes256Batcher.submit_cases vk b input key iv with ⟨hlong, _⟩ | ⟨_, h⟩
    · omega
    · simp only [params, h, Aes256Batcher.submitted]
  refine ⟨?_, fun t inputData => ⟨Aes256Ctr.map_fst_main params inputData t,
    fun inputData' h => Aes256Ctr.main_congr h⟩,
    Aes256Batcher.submit_snd_congr hvk b b' hlen key iv⟩
  rw [hparams]
  exact Aes256Ctr.launchCovers b.params hlen key iv

/-- Five bytes on two batchers with different rings. -/
theorem aes256_partial_blocks_short :
    let b : Aes256Batcher := ⟨fun _ => 1, fun _ => 2, fun _ => 3⟩
    let b' : Aes256Batcher := ⟨fun _ => 4, fun _ => 5, fun _ => 6⟩
    let input : List Byte := List.replicate 5 7
    let params := (b.submit .success input (Vector.replicate 32 8) (Vector.replicate 16 9)).1.params
    (Compute.passing 256 (groupCount 16 input.length).toNat
        (Aes256Ctr.batchSize params)).length = 1 ∧
      (b.submit .success input (Vector.replicate 32 8) (Vector.replicate 16 9)).2 =
        (b'.submit .success input (Vector.replicate 32 8) (Vector.replicate 16 9)).2 := by
  intro b b' input params
  have h := aes256_partial_blocks .success (fun _ => rfl) b b' input (by decide)
    (Vector.replicate 32 8) (Vector.replicate 16 9)
  exact ⟨h.1.count.trans (by simp [input]), h.2.2⟩

end GpuCrypt
