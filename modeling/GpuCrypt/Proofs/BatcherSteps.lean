import GpuCrypt.Model.BatcherRuns

/-!
# What one submission does

Each `submit` either refuses the job before it touches anything, or leaves the job's input and
parameters behind whatever the Vulkan calls return. Results about runs follow a batcher through
these lemmas and do not unfold `submit` again.
-/

namespace GpuCrypt

/-- Where a job of the given length goes in the rings. -/
def Batcher.window (b : Batcher) (len : ℕ) : ℕ :=
  if ringSize < b.offset + len then 0 else b.offset

/-- `Batcher::submit` gets as far as its Vulkan calls. -/
def Batcher.Accepts (pipelines : Algorithm → Bool) (len : ℕ) (alg : Algorithm) : Prop :=
  len ≤ ringSize ∧ alg ≠ .count ∧ pipelines alg = true

instance (pipelines : Algorithm → Bool) (len : ℕ) (alg : Algorithm) :
    Decidable (Batcher.Accepts pipelines len alg) :=
  inferInstanceAs (Decidable (_ ∧ _ ∧ _))

/-- What a job leaves that the batcher accepts. -/
def Batcher.submitted (b : Batcher) (vk : VkOutcome) (input : List Byte) (key : Vector Byte 32)
    (iv : Vector Byte 16) (alg : Algorithm) : Batcher :=
  let off := b.window input.length
  let inputRing := Compute.copyIn b.inputRing off input
  let params := alg.params b.params input.length key iv
  { inputRing := inputRing
    outputRing :=
      if vk.queueSubmit ∧ vk.completed then alg.run inputRing b.outputRing params off input.length
      else b.outputRing
    params := params
    offset := off + input.length
    pipelines := b.pipelines }

theorem Batcher.submit_cases (vk : VkOutcome) (b : Batcher) (input : List Byte)
    (key : Vector Byte 32) (iv : Vector Byte 16) (alg : Algorithm) :
    (¬Batcher.Accepts b.pipelines input.length alg ∧
      b.submit vk input key iv alg = (b, none)) ∨
    (Batcher.Accepts b.pipelines input.length alg ∧
      b.submit vk input key iv alg =
        (b.submitted vk input key iv alg,
          if vk.queueSubmit ∧ vk.wait then
            some (Compute.copyOut (b.submitted vk input key iv alg).outputRing
              (b.window input.length) input.length)
          else none)) := by
  unfold Batcher.submit Batcher.Accepts Batcher.submitted Batcher.window
  by_cases hring : ringSize < input.length
  · left
    rw [if_pos hring]
    exact ⟨fun h => absurd h.1 (by omega), rfl⟩
  · by_cases hready : alg = .count ∨ b.pipelines alg = false
    · left
      rw [if_neg hring, if_pos hready]
      refine ⟨?_, rfl⟩
      rintro ⟨-, hcount, hpipe⟩
      rcases hready with h | h
      · exact hcount h
      · rw [h] at hpipe
        simp at hpipe
    · right
      rw [if_neg hring, if_neg hready]
      simp only [not_or, Bool.not_eq_false] at hready
      refine ⟨⟨by omega, hready⟩, ?_⟩
      cases hqueue : vk.queueSubmit with
      | false => simp
      | true => cases hwait : vk.wait <;> simp

@[simp] lemma Batcher.pipelines_submit (vk : VkOutcome) (b : Batcher) (input : List Byte)
    (key : Vector Byte 32) (iv : Vector Byte 16) (alg : Algorithm) :
    (b.submit vk input key iv alg).1.pipelines = b.pipelines := by
  rcases Batcher.submit_cases vk b input key iv alg with ⟨_, h⟩ | ⟨_, h⟩
  · rw [h]
  · rw [h]
    rfl

/-- What a job leaves that the batcher accepts. -/
def Aes256Batcher.submitted (b : Aes256Batcher) (vk : VkOutcome) (input : List Byte)
    (key : Vector Byte 32) (iv : Vector Byte 16) : Aes256Batcher :=
  let inputRing := Compute.copyIn b.inputRing 0 input
  let params := aes256Params b.params input.length key iv
  { inputRing := inputRing
    outputRing :=
      if vk.queueSubmit ∧ vk.completed then
        runAes256 inputRing b.outputRing params 0 input.length
      else b.outputRing
    params := params }

theorem Aes256Batcher.submit_cases (vk : VkOutcome) (b : Aes256Batcher) (input : List Byte)
    (key : Vector Byte 32) (iv : Vector Byte 16) :
    (ringSize < input.length ∧ b.submit vk input key iv = (b, none)) ∨
    (input.length ≤ ringSize ∧
      b.submit vk input key iv =
        (b.submitted vk input key iv,
          if vk.queueSubmit then
            some (Compute.copyOut (b.submitted vk input key iv).outputRing 0 input.length)
          else none)) := by
  unfold Aes256Batcher.submit Aes256Batcher.submitted
  by_cases hring : ringSize < input.length
  · exact .inl ⟨hring, if_pos hring⟩
  · refine .inr ⟨by omega, ?_⟩
    rw [if_neg hring]
    cases hqueue : vk.queueSubmit <;> simp

end GpuCrypt
