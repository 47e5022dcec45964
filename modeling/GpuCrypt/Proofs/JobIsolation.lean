import GpuCrypt.Proofs.BatcherSteps
import GpuCrypt.Proofs.AesJob
import GpuCrypt.Proofs.ChachaJob

/-!
# Jobs one after the other

What a job of a `Batcher` returns depends on the job alone: the parameter block keeps words of
earlier jobs, of either layout, but none that the shader of this job reads, and the windows of the
rings that it reads and returns are written by itself.
-/

namespace GpuCrypt

open Keystream

/-- The output of a job whose Vulkan calls all succeed. -/
def Algorithm.output (alg : Algorithm) (input : List Byte) (key : Vector Byte 32)
    (iv : Vector Byte 16) : Option (List Byte) :=
  if ringSize < input.length then none
  else
    match alg with
    | .aes256Ctr => some (xorFrom (ofBlocks (fun g => Fips197.aes256 key (counter64 iv g))) 0 input)
    | .chacha20 =>
      some (xorFrom (ofBlocks (fun j =>
        Rfc8439.block key (chachaCounter iv + BitVec.ofNat 32 j) (chachaNonce iv))) 0 input)
    | .count => none

lemma Batcher.submit_output (b : Batcher) {alg : Algorithm}
    (hpipe : alg ≠ .count → b.pipelines alg = true) (input : List Byte) (key : Vector Byte 32)
    (iv : Vector Byte 16) :
    (b.submit .success input key iv alg).2 = alg.output input key iv := by
  unfold Batcher.submit Algorithm.output
  by_cases hring : ringSize < input.length
  · rw [if_pos hring, if_pos hring]
  · have hlen : input.length ≤ ringSize := by omega
    rw [if_neg hring, if_neg hring]
    cases alg with
    | aes256Ctr =>
      simp only [hpipe (by decide), reduceCtorEq, or_self, if_false, VkOutcome.success,
        if_true, Algorithm.params, Algorithm.run, Option.some.injEq]
      exact copyOut_runAes256 b.inputRing b.outputRing b.params _ hlen key iv
    | chacha20 =>
      simp only [hpipe (by decide), reduceCtorEq, or_self, if_false, VkOutcome.success,
        if_true, Algorithm.params, Algorithm.run, Option.some.injEq]
      exact copyOut_runChacha20 b.inputRing b.outputRing b.params _ hlen key iv
    | count => simp

lemma Aes256Batcher.submit_output (b : Aes256Batcher) (input : List Byte) (key : Vector Byte 32)
    (iv : Vector Byte 16) :
    (b.submit .success input key iv).2 = Algorithm.aes256Ctr.output input key iv := by
  unfold Algorithm.output
  by_cases hring : ringSize < input.length
  · rw [Aes256Batcher.submit, if_pos hring, if_pos hring]
  · rw [(b.submit_success (by omega) key iv).2, if_neg hring]

/-- Every job of a run returns what it would return alone. -/
lemma Batcher.run_output (b : Batcher) (hpipe : ∀ alg, alg ≠ .count → b.pipelines alg = true)
    (calls : List BatcherCall) (hvk : ∀ c ∈ calls, c.vk = .success) :
    (b.run calls).1 = calls.map (fun c => c.alg.output c.input.bytes c.key c.iv) := by
  induction calls generalizing b with
  | nil => rfl
  | cons c calls ih =>
    have hfirst : (b.call c).2 = c.alg.output c.input.bytes c.key c.iv := by
      rw [Batcher.call, hvk c List.mem_cons_self, b.submit_output (hpipe c.alg)]
    have hpipe' : ∀ alg, alg ≠ .count → (b.call c).1.pipelines alg = true := by
      rw [Batcher.call, Batcher.pipelines_submit]
      exact hpipe
    rw [Batcher.run, List.map_cons, hfirst,
      ih (b.call c).1 hpipe' (fun d hd => hvk d (List.mem_cons_of_mem _ hd))]

/-- Whatever jobs of both ciphers come one after the other, and wherever they lie in the rings:
each returns what it returns as the first job of a new batcher, and the AES-256 jobs what an
`AES256Batcher` returns for them. -/
theorem batcher_jobs_independent (b : Batcher)
    (hpipe : ∀ alg, alg ≠ .count → b.pipelines alg = true) (calls : List BatcherCall)
    (hvk : ∀ c ∈ calls, c.vk = .success) :
    (∀ inputRing outputRing params, (b.run calls).1 = calls.map (fun c =>
        ((Batcher.create inputRing outputRing params b.pipelines).call c).2)) ∧
      (∀ (i : ℕ) (c : BatcherCall), calls[i]? = some c → c.alg = .aes256Ctr → ∀ a : Aes256Batcher,
        (b.run calls).1[i]? = some (a.submit c.vk c.input.bytes c.key c.iv).2) ∧
      ∀ (i : ℕ) (c : BatcherCall), calls[i]? = some c → c.alg ≠ .count →
        c.input.bytes.length ≤ ringSize →
        ∃ out, (b.run calls).1[i]? = some (some out) ∧ out.length = c.input.bytes.length := by
  rw [b.run_output hpipe calls hvk]
  refine ⟨fun inputRing outputRing params => ?_, fun i c hc halg a => ?_,
    fun i c hc halg hlen => ?_⟩
  · apply List.map_congr_left
    intro c hc
    rw [Batcher.call, hvk c hc]
    exact (Batcher.submit_output (.create inputRing outputRing params b.pipelines) (hpipe c.alg)
      c.input.bytes c.key c.iv).symm
  · rw [List.getElem?_map, hc, Option.map_some, hvk c (List.mem_of_getElem? hc), a.submit_output,
      halg]
  · have hring : ¬ringSize < c.input.bytes.length := by omega
    rw [List.getElem?_map, hc, Option.map_some]
    unfold Algorithm.output
    rw [if_neg hring]
    cases hcase : c.alg with
    | aes256Ctr => exact ⟨_, rfl, length_combine _ _ _ _⟩
    | chacha20 => exact ⟨_, rfl, length_combine _ _ _ _⟩
    | count => exact absurd hcase halg

/-- An AES-256 job after a ChaCha20 job. -/
theorem batcher_jobs_independent_mixed :
    let b := Batcher.create (fun _ => 1) (fun _ => 2) (fun _ => 3) (fun _ => true)
    let chacha : BatcherCall := ⟨.success, ⟨List.replicate 64 5, by decide⟩, Vector.replicate 32 7,
      Vector.replicate 16 8, .chacha20⟩
    let aes : BatcherCall := ⟨.success, ⟨List.replicate 16 6, by decide⟩, Vector.replicate 32 9,
      Vector.replicate 16 0xFF, .aes256Ctr⟩
    (b.run [chacha, aes]).1 = [(b.call chacha).2, (b.call aes).2] ∧
      (b.run [chacha, aes]).1[1]? = some ((⟨fun _ => 0, fun _ => 0, fun _ => 0⟩ :
        Aes256Batcher).submit aes.vk aes.input.bytes aes.key aes.iv).2 := by
  intro b chacha aes
  have hboth := batcher_jobs_independent b (fun _ _ => rfl) [chacha, aes] (by
    rintro c (_ | ⟨_, _ | ⟨_, hc⟩⟩)
    · rfl
    · rfl
    · exact absurd hc List.not_mem_nil)
  exact ⟨hboth.1 (fun _ => 1) (fun _ => 2) (fun _ => 3), hboth.2.1 1 aes rfl rfl _⟩

end GpuCrypt
