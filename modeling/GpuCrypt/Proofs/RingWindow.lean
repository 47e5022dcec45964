import GpuCrypt.Proofs.BatcherSteps
import GpuCrypt.Proofs.ChachaJob

/-!
# The windows of ChaCha20 jobs

The cursor stays in the rings and so does every window, of whatever length. The shader works on
whole blocks of 64 bytes, and the window that is bound has the length of the job: the last block
runs over its end unless the length is a multiple of 64.
-/

namespace GpuCrypt

lemma Batcher.window_add_le (b : Batcher) {len : ℕ} (hlen : len ≤ ringSize) :
    b.window len + len ≤ ringSize := by
  unfold Batcher.window
  by_cases hwrap : ringSize < b.offset + len
  · rw [if_pos hwrap]
    omega
  · rw [if_neg hwrap]
    omega

/-- The cursor stays in the ring, whatever is submitted and however it turns out. -/
lemma Batcher.offset_call (b : Batcher) (hoff : b.offset ≤ ringSize) (c : BatcherCall) :
    (b.call c).1.offset ≤ ringSize := by
  rw [Batcher.call]
  rcases Batcher.submit_cases c.vk b c.input.bytes c.key c.iv c.alg with ⟨_, h⟩ | ⟨haccept, h⟩
  · rwa [h]
  · rw [h]
    exact b.window_add_le haccept.1

lemma Batcher.offset_run (b : Batcher) (hoff : b.offset ≤ ringSize) (calls : List BatcherCall) :
    (b.run calls).2.offset ≤ ringSize := by
  induction calls generalizing b with
  | nil => exact hoff
  | cons c calls ih => exact ih (b.call c).1 (b.offset_call hoff c)

lemma Batcher.pipelines_run (b : Batcher) (calls : List BatcherCall) :
    (b.run calls).2.pipelines = b.pipelines := by
  induction calls generalizing b with
  | nil => rfl
  | cons c calls ih => rw [Batcher.run, ih, Batcher.call, Batcher.pipelines_submit]

lemma toNat_accesses (ubo : Ubo) {len : ℕ} (hlen : len ≤ ringSize) (key : Vector Byte 32)
    (iv : Vector Byte 16) {g : ℕ} (hg : g < 2 ^ 32) :
    (Chacha20.accesses (chachaParams ubo len key iv) (BitVec.ofNat 32 g)).map BitVec.toNat =
      if g < (len + 63) / 64 then (List.range 16).map (fun k => g * 16 + k) else [] := by
  have hkernel := blockKernel_chacha20 ubo hlen key iv (fun _ => 0)
  rw [← Chacha20.map_fst_main _ (fun _ => 0), List.map_map]
  exact hkernel.indices hg

/-- Every element that an invocation of the job touches lies in the window that is bound. -/
def AccessesFit (params : Ubo) (len : ℕ) : Prop :=
  ∀ g, g < (groupCount 64 len).toNat * 256 →
    ∀ i ∈ Chacha20.accesses params (BitVec.ofNat 32 g), 4 * i.toNat + 4 ≤ len

lemma accessesFit_iff (ubo : Ubo) {len : ℕ} (hlen : len ≤ ringSize) (key : Vector Byte 32)
    (iv : Vector Byte 16) : AccessesFit (chachaParams ubo len key iv) len ↔ 64 ∣ len := by
  obtain ⟨hcover, hsize⟩ := groupCount_cover (show 0 < 64 by norm_num) hlen
  have hmem : ∀ g, g < (groupCount 64 len).toNat * 256 →
      ∀ n, (∃ i ∈ Chacha20.accesses (chachaParams ubo len key iv) (BitVec.ofNat 32 g),
        i.toNat = n) ↔ g < (len + 63) / 64 ∧ ∃ k, k < 16 ∧ g * 16 + k = n := by
    intro g hg n
    rw [← List.mem_map, toNat_accesses ubo hlen key iv (by omega)]
    by_cases hactive : g < (len + 63) / 64
    · simp only [hactive, if_true, List.mem_map, List.mem_range, true_and]
    · simp only [hactive, if_false, List.not_mem_nil, false_and]
  constructor
  · intro hfit
    by_cases hzero : len = 0
    · rw [hzero]
      exact dvd_zero 64
    · -- the last word of the last block
      set last := (len + 63) / 64 - 1
      obtain ⟨i, hi, hword⟩ := (hmem last (by omega) (last * 16 + 15)).mpr
        ⟨by omega, 15, by omega, rfl⟩
      have hend := hfit last (by omega) i hi
      rw [hword] at hend
      omega
  · intro hdvd g hg i hi
    obtain ⟨hactive, k, hk, hword⟩ := (hmem g hg i.toNat).mp ⟨i, hi, rfl⟩
    omega

/-- Over runs of ChaCha20 jobs of any lengths: the cursor and the windows stay in the rings, and
all accesses of the jobs that are queued stay in their windows exactly if the length of each of
these is a multiple of 64. -/
theorem ring_window_iff (b : Batcher) (hpipe : b.pipelines .chacha20 = true)
    (hoff : b.offset ≤ ringSize) (calls : List BatcherCall)
    (hcalls : ∀ c ∈ calls, c.alg = .chacha20 ∧ c.input.bytes.length ≤ ringSize) :
    (∀ pre c post, calls = pre ++ c :: post →
      (b.run pre).2.offset ≤ ringSize ∧
        (b.run pre).2.window c.input.bytes.length + c.input.bytes.length ≤ ringSize) ∧
    ((∀ pre c post, calls = pre ++ c :: post → c.vk.queueSubmit = true →
        AccessesFit ((b.run pre).2.call c).1.params c.input.bytes.length) ↔
      ∀ c ∈ calls, c.vk.queueSubmit = true → 64 ∣ c.input.bytes.length) := by
  have hparams : ∀ pre c post, calls = pre ++ c :: post →
      ((b.run pre).2.call c).1.params =
        chachaParams (b.run pre).2.params c.input.bytes.length c.key c.iv := by
    intro pre c post heq
    obtain ⟨halg, hlen⟩ := hcalls c (by rw [heq]; simp)
    have haccept : Batcher.Accepts (b.run pre).2.pipelines c.input.bytes.length c.alg := by
      rw [b.pipelines_run, halg]
      exact ⟨hlen, by decide, hpipe⟩
    rcases Batcher.submit_cases c.vk (b.run pre).2 c.input.bytes c.key c.iv c.alg with
      ⟨hno, _⟩ | ⟨_, h⟩
    · exact absurd haccept hno
    · rw [Batcher.call, h, Batcher.submitted, halg]
      rfl
  constructor
  · intro pre c post heq
    exact ⟨b.offset_run hoff pre,
      Batcher.window_add_le _ (hcalls c (by rw [heq]; simp)).2⟩
  · constructor
    · intro hfit c hc hqueue
      obtain ⟨pre, post, heq⟩ := List.append_of_mem hc
      have h := hfit pre c post heq hqueue
      rwa [hparams pre c post heq, accessesFit_iff _ (hcalls c hc).2] at h
    · intro hdvd pre c post heq hqueue
      have hc : c ∈ calls := by
        rw [heq]
        simp
      rw [hparams pre c post heq, accessesFit_iff _ (hcalls c hc).2]
      exact hdvd c hc hqueue

/-- A job of 128 bytes after one of 50 that is not queued. -/
theorem ring_window_whole_blocks :
    let b := Batcher.create (fun _ => 0) (fun _ => 0) (fun _ => 0) (fun _ => true)
    let failing : BatcherCall := ⟨⟨false, false, false, fun h _ => h⟩,
      ⟨List.replicate 50 5, by decide⟩, Vector.replicate 32 7, Vector.replicate 16 8, .chacha20⟩
    let job : BatcherCall := ⟨.success, ⟨List.replicate 128 5, by decide⟩, Vector.replicate 32 7,
      Vector.replicate 16 8, .chacha20⟩
    AccessesFit ((b.run [failing]).2.call job).1.params 128 := by
  intro b failing job
  have hrun := ring_window_iff b rfl (by decide) [failing, job] (by
    rintro c (_ | ⟨_, _ | ⟨_, hc⟩⟩)
    · decide
    · decide
    · exact absurd hc List.not_mem_nil)
  refine hrun.2.mpr ?_ [failing] job [] rfl rfl
  rintro c (_ | ⟨_, _ | ⟨_, hc⟩⟩)
  · decide
  · decide
  · exact absurd hc List.not_mem_nil

/-- A job of 16 bytes, as AES contexts submit them, after one that leaves 16 bytes of the rings: the
shader reads and writes 64 bytes from there on. -/
theorem ring_window_overrun :
    let b := Batcher.create (fun _ => 0) (fun _ => 0) (fun _ => 0) (fun _ => true)
    let filling : BatcherCall := ⟨.success, ⟨List.replicate (ringSize - 16) 5, by
      rw [List.length_replicate, ringSize_eq]; decide⟩, Vector.replicate 32 7,
      Vector.replicate 16 8, .chacha20⟩
    let c : BatcherCall := ⟨.success, ⟨List.replicate 16 4, by decide⟩, Vector.replicate 32 7,
      Vector.replicate 16 8, .chacha20⟩
    (b.run [filling]).2.window 16 = ringSize - 16 ∧
      ¬AccessesFit ((b.run [filling]).2.call c).1.params 16 ∧
      ∃ i ∈ Chacha20.accesses ((b.run [filling]).2.call c).1.params 0,
        ringSize ≤ (b.run [filling]).2.window 16 + 4 * i.toNat := by
  intro b filling c
  have hlen : filling.input.bytes.length = ringSize - 16 := List.length_replicate
  have haccept : Batcher.Accepts b.pipelines filling.input.bytes.length filling.alg :=
    ⟨by rw [hlen]; exact Nat.sub_le ringSize 16, by decide, rfl⟩
  have hoff : (b.run [filling]).2.offset = ringSize - 16 := by
    rcases Batcher.submit_cases filling.vk b filling.input.bytes filling.key filling.iv
      filling.alg with ⟨hno, _⟩ | ⟨_, h⟩
    · exact absurd haccept hno
    · have hzero : b.offset = 0 := rfl
      simp only [Batcher.run, Batcher.call, h, Batcher.submitted, Batcher.window, hlen, hzero,
        ite_self, Nat.zero_add]
  have hwindow : (b.run [filling]).2.window 16 = ringSize - 16 := by
    rw [Batcher.window, hoff]
    rfl
  have hparams : ((b.run [filling]).2.call c).1.params =
      chachaParams (b.run [filling]).2.params 16 c.key c.iv := by
    have hpipe := b.pipelines_run [filling]
    generalize (b.run [filling]).2 = b' at hpipe
    rcases Batcher.submit_cases c.vk b' c.input.bytes c.key c.iv c.alg with ⟨hno, _⟩ | ⟨_, h⟩
    · exact absurd ⟨by decide, by decide, by rw [hpipe]; rfl⟩ hno
    · rw [Batcher.call, h]
      rfl
  have hfit := accessesFit_iff (b.run [filling]).2.params (show 16 ≤ ringSize by decide) c.key c.iv
  rw [hwindow, hparams, hfit]
  refine ⟨rfl, by decide, ?_⟩
  have hacc := toNat_accesses (b.run [filling]).2.params (show 16 ≤ ringSize by decide) c.key c.iv
    (show 0 < 2 ^ 32 by norm_num)
  have hmem : 15 ∈ (Chacha20.accesses (chachaParams (b.run [filling]).2.params 16 c.key c.iv)
      (BitVec.ofNat 32 0)).map BitVec.toNat := by
    rw [hacc]
    decide
  obtain ⟨i, hi, hword⟩ := List.mem_map.mp hmem
  exact ⟨i, hi, by rw [hword]; decide⟩

end GpuCrypt
