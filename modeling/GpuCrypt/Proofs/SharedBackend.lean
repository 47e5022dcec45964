import GpuCrypt.Model.SharedBatchers
import GpuCrypt.Proofs.JobIsolation

/-!
# Submits that interleave

The steps of one submit lean on what the steps before have left in the shared memory: the input in
its window and the one parameter block until the dispatch, the output in its window until the copy.
A run is right when no step of another submit falls where one of these is exposed and overwrites it.
Nothing in the batchers sees to that.
-/

namespace GpuCrypt

open SharedDevice Compute

/-! ### The dispatches -/

/-- A dispatch writes whole blocks from its offset on and nothing else. -/
lemma runAes256_outside (inputRing outputRing : Memory) (ubo : Ubo) (off : ℕ) {len : ℕ}
    (hlen : len ≤ ringSize) (key : Vector Byte 32) (iv : Vector Byte 16) {a : ℕ}
    (ha : a < off ∨ off + 16 * ((len + 15) / 16) ≤ a) :
    runAes256 inputRing outputRing (aes256Params ubo len key iv) off len a = outputRing a := by
  obtain ⟨hcover, hsize⟩ := groupCount_cover (show 0 < 16 by norm_num) hlen
  have hkernel := blockKernel_aes256 ubo hlen key iv (uint inputRing off)
  exact hkernel.dispatch_outside hcover hsize outputRing off (by omega)

lemma runChacha20_outside (inputRing outputRing : Memory) (ubo : Ubo) (off : ℕ) {len : ℕ}
    (hlen : len ≤ ringSize) (key : Vector Byte 32) (iv : Vector Byte 16) {a : ℕ}
    (ha : a < off ∨ off + 64 * ((len + 63) / 64) ≤ a) :
    runChacha20 inputRing outputRing (chachaParams ubo len key iv) off len a = outputRing a := by
  obtain ⟨hcover, hsize⟩ := groupCount_cover (show 0 < 64 by norm_num) hlen
  have hkernel := blockKernel_chacha20 ubo hlen key iv (uint inputRing off)
  exact hkernel.dispatch_outside hcover hsize outputRing off (by omega)

lemma BatcherJob.run_outside (job : BatcherJob) (inputRing outputRing : Memory) (ubo : Ubo)
    (off : ℕ) {a : ℕ} (ha : a < off ∨ off + batcherDevice.outputSpan job ≤ a) :
    job.alg.run inputRing outputRing (job.alg.params ubo job.input.length job.key job.iv) off
      job.input.length a = outputRing a := by
  have hcount := job.ne_count
  have hspan : batcherDevice.outputSpan job = job.alg.blockBytes *
      ((job.input.length + (job.alg.blockBytes - 1)) / job.alg.blockBytes) := rfl
  rw [hspan] at ha
  cases halg : job.alg with
  | aes256Ctr =>
    rw [halg] at ha
    exact runAes256_outside inputRing outputRing ubo off job.fits job.key job.iv ha
  | chacha20 =>
    rw [halg] at ha
    exact runChacha20_outside inputRing outputRing ubo off job.fits job.key job.iv ha
  | count => exact absurd halg hcount

/-- What the job returns alone. -/
def BatcherJob.result (job : BatcherJob) : List Byte :=
  (job.alg.output job.input job.key job.iv).getD []

def Aes256Job.result (job : Aes256Job) : List Byte :=
  (Algorithm.aes256Ctr.output job.input job.key job.iv).getD []

/-- A dispatch over the job's input and parameters leaves the job's result. -/
lemma BatcherJob.copyOut_run (job : BatcherJob) {inputRing : Memory} (outputRing : Memory)
    (ubo : Ubo) {off : ℕ} (hinput : copyOut inputRing off job.input.length = job.input) :
    copyOut (job.alg.run inputRing outputRing
      (job.alg.params ubo job.input.length job.key job.iv) off job.input.length) off
        job.input.length = job.result := by
  have hring : ¬ringSize < job.input.length := Nat.not_lt.mpr job.fits
  have hcount := job.ne_count
  unfold BatcherJob.result Algorithm.output
  rw [if_neg hring, ← copyIn_of_copyOut hinput]
  cases halg : job.alg with
  | aes256Ctr => exact copyOut_runAes256 inputRing outputRing ubo off job.fits job.key job.iv
  | chacha20 => exact copyOut_runChacha20 inputRing outputRing ubo off job.fits job.key job.iv
  | count => exact absurd halg hcount

lemma Aes256Job.copyOut_run (job : Aes256Job) {inputRing : Memory} (outputRing : Memory)
    (ubo : Ubo) (hinput : copyOut inputRing 0 job.input.length = job.input) :
    copyOut (runAes256 inputRing outputRing
      (aes256Params ubo job.input.length job.key job.iv) 0 job.input.length) 0
        job.input.length = job.result := by
  have hring : ¬ringSize < job.input.length := Nat.not_lt.mpr job.fits
  unfold Aes256Job.result Algorithm.output
  rw [if_neg hring, ← copyIn_of_copyOut hinput]
  exact copyOut_runAes256 inputRing outputRing ubo 0 job.fits job.key job.iv

/-! ### The laws of the two batchers -/

lemma copyOut_copyIn_self (m : Memory) (off : ℕ) (l : List Byte) :
    copyOut (copyIn m off l) off l.length = l := by
  rw [copyOut_copyIn m off le_rfl, List.take_length]

lemma copyOut_copyIn_of_apart (m : Memory) {off off' n : ℕ} {l : List Byte}
    (h : Apart off l.length off' n) : copyOut (copyIn m off l) off' n = copyOut m off' n :=
  copyOut_congr (fun _ hi => copyIn_of_not_mem (h.not_mem hi))

def aes256Laws : Laws aes256Device where
  result := Aes256Job.result
  InputHeld b job w := w = 0 ∧ copyOut b.inputRing 0 job.input.length = job.input
  ConfigHeld b job w :=
    w = 0 ∧ ∃ ubo, b.params = aes256Params ubo job.input.length job.key job.iv
  OutputHeld b job w := w = 0 ∧ copyOut b.outputRing 0 job.input.length = job.result
  load_input b job := ⟨rfl, copyOut_copyIn_self b.inputRing 0 job.input⟩
  configure_config b job w h := ⟨h.1, b.params, rfl⟩
  run_output b job w hinput hconfig := by
    obtain ⟨_, ubo, hubo⟩ := hconfig
    refine ⟨hinput.1, ?_⟩
    simp only [aes256Device, hubo]
    exact job.copyOut_run b.outputRing ubo hinput.2
  fetch_result b job w h := h.2
  input_load b job job' w h hapart := by
    obtain ⟨rfl, hinput⟩ := h
    exact ⟨rfl, (copyOut_copyIn_of_apart b.inputRing hapart).trans hinput⟩
  input_configure b job v job' w h := h
  input_run b job job' w h := h
  config_load b job job' w h := h
  config_run b job job' w h := h
  output_load b job job' w h := h
  output_configure b job v job' w h := h
  output_run b job v job' w hconfig h hapart := by
    obtain ⟨rfl, ubo, hubo⟩ := hconfig
    obtain ⟨rfl, hout⟩ := h
    refine ⟨rfl, Eq.trans ?_ hout⟩
    simp only [aes256Device, hubo]
    exact copyOut_congr (fun i hi =>
      runAes256_outside b.inputRing b.outputRing ubo 0 job.fits job.key job.iv (hapart.not_mem hi))

def batcherLaws : Laws batcherDevice where
  result := BatcherJob.result
  InputHeld b job w := copyOut b.inputRing w job.input.length = job.input
  ConfigHeld b job w := b.descriptorOffset = w ∧
    ∃ ubo, b.params = job.alg.params ubo job.input.length job.key job.iv
  OutputHeld b job w := copyOut b.outputRing w job.input.length = job.result
  load_input b job := copyOut_copyIn_self b.inputRing _ job.input
  configure_config b job w h := ⟨rfl, b.params, rfl⟩
  run_output b job w hinput hconfig := by
    obtain ⟨rfl, ubo, hubo⟩ := hconfig
    simp only [batcherDevice, hubo]
    exact job.copyOut_run b.outputRing ubo hinput
  fetch_result b job w h := h
  input_load b job job' w h hapart := (copyOut_copyIn_of_apart b.inputRing hapart).trans h
  input_configure b job v job' w h := h
  input_run b job job' w h := h
  config_load b job job' w h := h
  config_run b job job' w h := h
  output_load b job job' w h := h
  output_configure b job v job' w h := h
  output_run b job v job' w hconfig h hapart := by
    obtain ⟨rfl, ubo, hubo⟩ := hconfig
    refine Eq.trans ?_ h
    simp only [batcherDevice, hubo]
    exact copyOut_congr (fun i hi =>
      job.run_outside b.inputRing b.outputRing ubo b.descriptorOffset (hapart.not_mem hi))

/-! ### A submit alone -/

lemma Aes256Job.submit_snd (job : Aes256Job) (b : Aes256Batcher) :
    (b.submit .success job.input job.key job.iv).2 = some job.result := by
  have hring : ¬ringSize < job.input.length := Nat.not_lt.mpr job.fits
  rw [b.submit_output, Aes256Job.result, Algorithm.output, if_neg hring, Option.getD_some]

lemma BatcherJob.submit_snd (job : BatcherJob) (b : Batcher)
    (hpipe : ∀ alg, alg ≠ .count → b.pipelines alg = true) :
    (b.submit .success job.input job.key job.iv job.alg).2 = some job.result := by
  have hring : ¬ringSize < job.input.length := Nat.not_lt.mpr job.fits
  have hcount := job.ne_count
  rw [b.submit_output (hpipe job.alg), BatcherJob.result]
  unfold Algorithm.output
  rw [if_neg hring]
  cases halg : job.alg with
  | aes256Ctr => rfl
  | chacha20 => rfl
  | count => exact absurd halg hcount

/-- The steps in a row are the submit. -/
lemma aes256Device_turn (b : Aes256Batcher) (job : Aes256Job) :
    b.submit .success job.input job.key job.iv =
      ((aes256Device.turn b job).1, some (aes256Device.turn b job).2) := by
  have hring : ¬ringSize < job.input.length := Nat.not_lt.mpr job.fits
  simp only [Aes256Batcher.submit, if_neg hring, VkOutcome.success, if_true]
  rfl

/-- Under one key and IV, the result determines the input. -/
lemma Aes256Job.input_eq_of_result_eq {job job' : Aes256Job} (hkey : job.key = job'.key)
    (hiv : job.iv = job'.iv) (h : job.result = job'.result) : job.input = job'.input := by
  have hring : ¬ringSize < job.input.length := Nat.not_lt.mpr job.fits
  have hring' : ¬ringSize < job'.input.length := Nat.not_lt.mpr job'.fits
  unfold Aes256Job.result Algorithm.output at h
  rw [if_neg hring, if_neg hring', hkey, hiv] at h
  simp only [Option.getD_some] at h
  rw [← xorFrom_xorFrom _ 0 job.input, h, xorFrom_xorFrom]

/-! ### Interleavings -/

/-- Clients that hold a lock over their submits need nothing else. -/
theorem shared_submits_turns {ι : Type} [DecidableEq ι] (order : List ι) (b : Aes256Batcher)
    (jobs : ι → Aes256Job) :
    aes256Device.SafeRun jobs (start b) (order.flatMap (List.replicate 4)) :=
  Device.safeRun_turns order (fun _ _ _ => .inl rfl)

/-- Any number of clients share a batcher, each with a job of its own. If every step of the run is
safe, every client that has taken its four steps has read what its submit returns alone. -/
theorem shared_submits_of_safe {ι : Type} [DecidableEq ι] (schedule : List ι) :
    (∀ (b : Aes256Batcher) (jobs : ι → Aes256Job),
      aes256Device.SafeRun jobs (start b) schedule → ∀ i, 4 ≤ schedule.count i →
        ∃ out, (aes256Device.runSchedule jobs (start b) schedule).stage i = .done out ∧
          ∀ alone : Aes256Batcher,
            (alone.submit .success (jobs i).input (jobs i).key (jobs i).iv).2 = some out) ∧
    (∀ (b : BoundBatcher) (jobs : ι → BatcherJob),
      batcherDevice.SafeRun jobs (start b) schedule → ∀ i, 4 ≤ schedule.count i →
        ∃ out, (batcherDevice.runSchedule jobs (start b) schedule).stage i = .done out ∧
          ∀ alone : Batcher, (∀ alg, alg ≠ .count → alone.pipelines alg = true) →
            (alone.submit .success (jobs i).input (jobs i).key (jobs i).iv (jobs i).alg).2 =
              some out) := by
  constructor
  · intro b jobs hsafe i hi
    exact ⟨_, aes256Device.stage_of_safeRun aes256Laws hsafe hi, (jobs i).submit_snd⟩
  · intro b jobs hsafe i hi
    exact ⟨_, batcherDevice.stage_of_safeRun batcherLaws hsafe hi, (jobs i).submit_snd⟩

/-- Two clients that take turns. -/
theorem shared_submits_two_turns :
    let jobs : Bool → Aes256Job := fun i =>
      cond i ⟨[0x41], Vector.replicate 32 7, Vector.replicate 16 9, by decide⟩
        ⟨[0x42], Vector.replicate 32 8, Vector.replicate 16 9, by decide⟩
    let b : Aes256Batcher := ⟨fun _ => 0, fun _ => 0, fun _ => 0⟩
    let x := aes256Device.runSchedule jobs (start b) ([true, false].flatMap (List.replicate 4))
    ∃ out, x.stage true = .done out ∧ ∀ alone : Aes256Batcher,
      (alone.submit .success [0x41] (Vector.replicate 32 7) (Vector.replicate 16 9)).2 =
        some out := by
  intro jobs b x
  exact (shared_submits_of_safe ([true, false].flatMap (List.replicate 4))).1 b jobs
    (shared_submits_turns [true, false] b jobs) true (by decide)

/-- If the second client's dispatch comes between the first one's dispatch and its copy, and the
jobs are of one length, the first client reads the second one's bytes. -/
lemma aes256Device_overtaken (b : Aes256Batcher) (jobs : Bool → Aes256Job)
    (hlen : (jobs false).input.length = (jobs true).input.length) :
    (aes256Device.runSchedule jobs (start b)
      [true, true, true, false, false, false, true, false]).stage true =
        .done (jobs false).result := by
  have hturn := (aes256Device_turn (aes256Device.turn b (jobs true)).1 (jobs false)).symm
  have hresult : (aes256Device.turn (aes256Device.turn b (jobs true)).1 (jobs false)).2 =
      (jobs false).result := by
    have hsubmit := (jobs false).submit_snd (aes256Device.turn b (jobs true)).1
    rw [← hturn] at hsubmit
    exact Option.some.inj hsubmit
  rw [← hresult]
  simp only [Device.runSchedule, List.foldl, Device.step, start, Device.advance,
    Function.update_self, Function.update_of_ne, ne_eq, Bool.false_eq_true, Bool.true_eq_false,
    not_false_eq_true]
  simp only [aes256Device, Device.turn, hlen]

/-- One byte each, under one key and IV: the first client reads the second one's ciphertext. -/
theorem shared_submits_mix :
    let jobs : Bool → Aes256Job := fun i =>
      cond i ⟨[0x41], Vector.replicate 32 7, Vector.replicate 16 9, by decide⟩
        ⟨[0x42], Vector.replicate 32 7, Vector.replicate 16 9, by decide⟩
    let b : Aes256Batcher := ⟨fun _ => 0, fun _ => 0, fun _ => 0⟩
    let x := aes256Device.runSchedule jobs (start b)
      [true, true, true, false, false, false, true, false]
    ∃ out, x.stage true = .done out ∧
      (b.submit .success [0x42] (Vector.replicate 32 7) (Vector.replicate 16 9)).2 = some out ∧
      (b.submit .success [0x41] (Vector.replicate 32 7) (Vector.replicate 16 9)).2 ≠ some out := by
  intro jobs b x
  refine ⟨_, aes256Device_overtaken b jobs rfl, (jobs false).submit_snd b, ?_⟩
  intro heq
  have hresult : (jobs true).result = (jobs false).result :=
    Option.some.inj (((jobs true).submit_snd b).symm.trans heq)
  have hinput : (jobs true).input = (jobs false).input :=
    Aes256Job.input_eq_of_result_eq rfl rfl hresult
  exact absurd hinput (by decide)

end GpuCrypt
