import GpuCrypt.Proofs.JobIsolation

/-!
# What success means

`Batcher::submit` looks at the results of `vkQueueSubmit` and `vkQueueWaitIdle`.
`AES256Batcher::submit` does not look at that of `vkWaitForFences`, and copies out of the ring what
is there.
-/

namespace GpuCrypt

/-- If `submit` returns true, the job was queued and had completed, and the bytes are `expected`. -/
def JobRan (vk : VkOutcome) (result expected : Option (List Byte)) : Prop :=
  ∀ out, result = some out → vk.queueSubmit = true ∧ vk.completed = true ∧ expected = some out

lemma Batcher.submitted_of_completed (b : Batcher) {vk : VkOutcome} (hqueue : vk.queueSubmit = true)
    (hdone : vk.completed = true) (input : List Byte) (key : Vector Byte 32)
    (iv : Vector Byte 16) (alg : Algorithm) :
    b.submitted vk input key iv alg = b.submitted .success input key iv alg := by
  simp only [Batcher.submitted, hqueue, hdone, VkOutcome.success]

lemma Aes256Batcher.submitted_of_completed (b : Aes256Batcher) {vk : VkOutcome}
    (hqueue : vk.queueSubmit = true) (hdone : vk.completed = true) (input : List Byte)
    (key : Vector Byte 32) (iv : Vector Byte 16) :
    b.submitted vk input key iv = b.submitted .success input key iv := by
  simp only [Aes256Batcher.submitted, hqueue, hdone, VkOutcome.success]

/-- Whatever the rings held before, a job that completed has left its output in its window. -/
lemma Batcher.copyOut_submitted {b : Batcher} {input : List Byte} {alg : Algorithm}
    (haccept : Batcher.Accepts b.pipelines input.length alg) {vk : VkOutcome}
    (hqueue : vk.queueSubmit = true) (hdone : vk.completed = true) (key : Vector Byte 32)
    (iv : Vector Byte 16) :
    some (Compute.copyOut (b.submitted vk input key iv alg).outputRing (b.window input.length)
      input.length) = alg.output input key iv := by
  rw [b.submitted_of_completed hqueue hdone, ← b.submit_output (fun _ => haccept.2.2)]
  rcases Batcher.submit_cases .success b input key iv alg with ⟨hno, _⟩ | ⟨_, hs⟩
  · exact absurd haccept hno
  · rw [hs]
    rfl

lemma Aes256Batcher.copyOut_submitted (b : Aes256Batcher) {input : List Byte}
    (hlen : input.length ≤ ringSize) {vk : VkOutcome} (hqueue : vk.queueSubmit = true)
    (hdone : vk.completed = true) (key : Vector Byte 32) (iv : Vector Byte 16) :
    some (Compute.copyOut (b.submitted vk input key iv).outputRing 0 input.length) =
      Algorithm.aes256Ctr.output input key iv := by
  rw [b.submitted_of_completed hqueue hdone, ← b.submit_output]
  rcases Aes256Batcher.submit_cases .success b input key iv with ⟨hlong, _⟩ | ⟨_, hs⟩
  · omega
  · rw [hs]
    rfl

lemma Batcher.jobRan (vk : VkOutcome) (b : Batcher) (input : List Byte) (key : Vector Byte 32)
    (iv : Vector Byte 16) (alg : Algorithm) :
    JobRan vk (b.submit vk input key iv alg).2 (alg.output input key iv) := by
  intro out hout
  rcases Batcher.submit_cases vk b input key iv alg with ⟨_, h⟩ | ⟨haccept, h⟩
  · rw [h] at hout
    simp at hout
  · rw [h] at hout
    by_cases hok : vk.queueSubmit = true ∧ vk.wait = true
    · obtain ⟨hqueue, hwait⟩ := hok
      have hdone := vk.completed_of_wait hqueue hwait
      rw [if_pos ⟨hqueue, hwait⟩, Batcher.copyOut_submitted haccept hqueue hdone] at hout
      exact ⟨hqueue, hdone, hout⟩
    · rw [if_neg hok] at hout
      simp at hout

lemma Aes256Batcher.jobRan_iff (vk : VkOutcome) (b : Aes256Batcher) (input : List Byte)
    (key : Vector Byte 32) (iv : Vector Byte 16) :
    JobRan vk (b.submit vk input key iv).2 (Algorithm.aes256Ctr.output input key iv) ↔
      (input.length ≤ ringSize → vk.queueSubmit = true → vk.completed = true) := by
  rcases Aes256Batcher.submit_cases vk b input key iv with ⟨hring, h⟩ | ⟨hring, h⟩
  · rw [h]
    exact iff_of_true (fun out hout => by simp at hout) (fun hle => by omega)
  · rw [h]
    cases hqueue : vk.queueSubmit with
    | false => exact iff_of_true (fun out hout => by simp at hout) (fun _ hq => by simp at hq)
    | true =>
      constructor
      · intro hran _ _
        exact (hran _ rfl).2.1
      · intro hdone out hout
        have hcompleted := hdone hring rfl
        rw [if_pos rfl, b.copyOut_submitted hring hqueue hcompleted] at hout
        exact ⟨hqueue, hcompleted, hout⟩

/-- For a `Batcher`, success means that the job ran: what is copied out is the job's own output,
not bytes that the ring held before. For an `AES256Batcher` it does exactly if a job that was queued
has completed by the time `vkWaitForFences` returns, whatever that returned. -/
theorem submit_success_iff (vk : VkOutcome) (input : List Byte) (key : Vector Byte 32)
    (iv : Vector Byte 16) :
    (∀ (b : Batcher) (alg : Algorithm),
      JobRan vk (b.submit vk input key iv alg).2 (alg.output input key iv)) ∧
    ∀ b : Aes256Batcher,
      (JobRan vk (b.submit vk input key iv).2 (Algorithm.aes256Ctr.output input key iv) ↔
        (input.length ≤ ringSize → vk.queueSubmit = true → vk.completed = true)) :=
  ⟨fun b alg => b.jobRan vk input key iv alg, fun b => b.jobRan_iff vk input key iv⟩

/-- The wait fails with the job still running: `submit` returns true, with the bytes that were left
in the output ring. -/
theorem aes256_submit_stale :
    let vk : VkOutcome := ⟨true, false, false, fun _ h => h⟩
    let b : Aes256Batcher := ⟨fun _ => 0, fun _ => 0x55, fun _ => 0⟩
    let key : Vector Byte 32 := Vector.replicate 32 7
    let iv : Vector Byte 16 := Vector.replicate 16 8
    (b.submit vk [1, 2] key iv).2 = some [0x55, 0x55] ∧
      ¬JobRan vk (b.submit vk [1, 2] key iv).2 (Algorithm.aes256Ctr.output [1, 2] key iv) := by
  intro vk b key iv
  have hstale : (b.submit vk [1, 2] key iv).2 = some [0x55, 0x55] := rfl
  exact ⟨hstale, fun hran => absurd (hran _ hstale).2.1 (by decide)⟩

end GpuCrypt
