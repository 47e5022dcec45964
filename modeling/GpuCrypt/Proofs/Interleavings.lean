import GpuCrypt.Proofs.SharedBackend

/-!
# The interleavings that are right

All jobs of an `AES256Batcher` lie at the start of its rings. An interleaving of submits without
empty inputs is right for all of them exactly if it is exclusive: no job is loaded, configured or
run where another one would be overwritten. A job that has been overwritten once stays lost.
-/

namespace GpuCrypt

open SharedDevice Compute

variable {ι : Type}

/-- The jobs differ in the input only, and the one of client `k` from all others. -/
structure Rivals (jobs : ι → Aes256Job) (k : ι) : Prop where
  key : ∀ j, (jobs j).key = (jobs k).key
  iv : ∀ j, (jobs j).iv = (jobs k).iv
  length : ∀ j, (jobs j).input.length = (jobs k).input.length
  ne : ∀ j, j ≠ k → (jobs j).input ≠ (jobs k).input

/-- Whatever is in the input ring, a dispatch under the job's parameters returns the job's result
only for the job's input. -/
lemma Aes256Job.copyOut_run_ne (job : Aes256Job) {inputRing : Memory} (outputRing : Memory)
    (ubo : Ubo) (hinput : copyOut inputRing 0 job.input.length ≠ job.input) :
    copyOut (runAes256 inputRing outputRing
      (aes256Params ubo job.input.length job.key job.iv) 0 job.input.length) 0
        job.input.length ≠ job.result := by
  let other : Aes256Job :=
    { job with
      input := copyOut inputRing 0 job.input.length
      fits := by rw [length_copyOut]; exact job.fits }
  have hlen : other.input.length = job.input.length := length_copyOut _ _ _
  have hown : copyOut inputRing 0 other.input.length = other.input := by rw [hlen]
  have hrun := other.copyOut_run outputRing ubo hown
  rw [hlen] at hrun
  intro heq
  have hresult : other.result = job.result := hrun.symm.trans heq
  have hsame : other.input = job.input := Aes256Job.input_eq_of_result_eq rfl rfl hresult
  exact hinput hsame

/-- The parameter block is one for the job. -/
def Aes256Job.Configures (job : Aes256Job) (b : Aes256Batcher) : Prop :=
  ∃ ubo, b.params = aes256Params ubo job.input.length job.key job.iv

/-- A client at this stage cannot read the job's result any more, if the input does not return. -/
def Aes256Job.Missed (job : Aes256Job) (b : Aes256Batcher) : Stage (List Byte) → Prop
  | .idle => False
  | .loaded _ => True
  | .configured _ => True
  | .ran _ => copyOut b.outputRing 0 job.input.length ≠ job.result
  | .done out => out ≠ job.result

/-- The input of client `k` is gone, and so is its output if it has run. -/
structure Lost (jobs : ι → Aes256Job) (k : ι) (x : State Aes256Batcher ι (List Byte)) : Prop where
  configures : ∀ j w, x.stage j = .configured w → (jobs k).Configures x.shared
  input : copyOut x.shared.inputRing 0 (jobs k).input.length ≠ (jobs k).input
  missed : (jobs k).Missed x.shared (x.stage k)

section Step

variable {jobs : ι → Aes256Job} {i k : ι} {x : State Aes256Batcher ι (List Byte)}

lemma Rivals.configures (h : Rivals jobs k) (b : Aes256Batcher) (i : ι) (w : ℕ) :
    (jobs k).Configures (aes256Device.configure b (jobs i) w) :=
  ⟨b.params, by rw [← h.key i, ← h.iv i, ← h.length i]; rfl⟩

/-- Under parameters for the job, a run over another input leaves another result. -/
lemma Rivals.copyOut_run_ne (h : Rivals jobs k) {b : Aes256Batcher} (i : ι)
    (hconfig : (jobs k).Configures b)
    (hinput : copyOut b.inputRing 0 (jobs k).input.length ≠ (jobs k).input) :
    copyOut (aes256Device.run b (jobs i)).outputRing 0 (jobs k).input.length ≠
      (jobs k).result := by
  obtain ⟨ubo, hubo⟩ := hconfig
  simp only [aes256Device, hubo, h.length i]
  exact (jobs k).copyOut_run_ne b.outputRing ubo hinput

/-- A load by another client overwrites the input. -/
lemma Rivals.load_ne (h : Rivals jobs k) (hik : i ≠ k) (b : Aes256Batcher) :
    copyOut (aes256Device.load b (jobs i)).1.inputRing 0 (jobs k).input.length ≠
      (jobs k).input := by
  have hload : copyOut (copyIn b.inputRing 0 (jobs i).input) 0 (jobs k).input.length =
      (jobs i).input := by rw [← h.length i, copyOut_copyIn_self]
  exact fun heq => h.ne i hik (hload.symm.trans heq)

lemma Lost.input_advance (h : Lost jobs k x) (hrivals : Rivals jobs k) (i : ι) :
    copyOut (aes256Device.advance x.shared (jobs i) (x.stage i)).1.inputRing 0
      (jobs k).input.length ≠ (jobs k).input := by
  cases hst : x.stage i with
  | idle =>
    -- a load by another client, since `k` has loaded already
    have hik : i ≠ k := by
      rintro rfl
      have hmissed := h.missed
      rwa [hst] at hmissed
    exact hrivals.load_ne hik x.shared
  | _ => exact h.input

lemma Lost.missed_self (h : Lost jobs k x) (hrivals : Rivals jobs k) :
    (jobs k).Missed (aes256Device.advance x.shared (jobs k) (x.stage k)).1
      (aes256Device.advance x.shared (jobs k) (x.stage k)).2 := by
  have hmissed := h.missed
  cases hst : x.stage k with
  | idle =>
    rw [hst] at hmissed
    exact hmissed.elim
  | loaded w => trivial
  | configured w => exact hrivals.copyOut_run_ne k (h.configures k w hst) h.input
  | ran w =>
    rw [hst] at hmissed
    exact hmissed
  | done out =>
    rw [hst] at hmissed
    exact hmissed

lemma Lost.missed_other (h : Lost jobs k x) (hrivals : Rivals jobs k) (i : ι) :
    (jobs k).Missed (aes256Device.advance x.shared (jobs i) (x.stage i)).1 (x.stage k) := by
  have hmissed := h.missed
  cases hstk : x.stage k with
  | ran w =>
    rw [hstk] at hmissed
    cases hst : x.stage i with
    | configured v => exact hrivals.copyOut_run_ne i (h.configures i v hst) h.input
    | _ => exact hmissed
  | _ =>
    rw [hstk] at hmissed
    exact hmissed

variable [DecidableEq ι]

lemma Rivals.configures_step (hrivals : Rivals jobs k)
    (h : ∀ j w, x.stage j = .configured w → (jobs k).Configures x.shared) (i j : ι) (w : ℕ)
    (hj : (aes256Device.step jobs x i).stage j = .configured w) :
    (jobs k).Configures (aes256Device.step jobs x i).shared := by
  cases hst : x.stage i with
  | loaded v =>
    simp only [Device.step, hst]
    exact hrivals.configures x.shared i v
  | _ =>
    -- the parameters stay, and `j` was configured before
    by_cases hji : j = i
    · subst hji
      simp only [Device.step, Function.update_self, hst, Device.advance] at hj
      cases hj
    · simp only [Device.step, Function.update_of_ne hji] at hj
      simp only [Device.step, hst]
      exact h j w hj

/-- No step of any client finds what is lost. -/
theorem Lost.step (h : Lost jobs k x) (hrivals : Rivals jobs k) (i : ι) :
    Lost jobs k (aes256Device.step jobs x i) := by
  refine ⟨hrivals.configures_step h.configures i, h.input_advance hrivals i, ?_⟩
  by_cases hki : k = i
  · subst hki
    simp only [Device.step, Function.update_self]
    exact h.missed_self hrivals
  · simp only [Device.step, Function.update_of_ne hki]
    exact h.missed_other hrivals i

theorem Lost.run (h : Lost jobs k x) (hrivals : Rivals jobs k) (schedule : List ι) :
    Lost jobs k (aes256Device.runSchedule jobs x schedule) := by
  induction schedule generalizing x with
  | nil => exact h
  | cons i rest ih => exact ih (h.step hrivals i)

/-- A step that disturbs client `k` loses its job. -/
lemma Rivals.lost_of_disturbed (hrivals : Rivals jobs k) (hinv : aes256Laws.Inv jobs x)
    (hik : i ≠ k)
    (hrank : ((x.stage i).rank = 0 ∧ ((x.stage k).rank = 1 ∨ (x.stage k).rank = 2)) ∨
      ((x.stage i).rank = 1 ∧ (x.stage k).rank = 2) ∨
        ((x.stage i).rank = 2 ∧ (x.stage k).rank = 3)) :
    Lost jobs k (aes256Device.step jobs x i) := by
  have hconfigures : ∀ j w, x.stage j = .configured w → (jobs k).Configures x.shared := by
    intro j w hj
    have hheld := hinv j
    rw [hj] at hheld
    obtain ⟨_, _, ubo, hubo⟩ := hheld
    exact ⟨ubo, by rw [hubo, hrivals.key j, hrivals.iv j, hrivals.length j]⟩
  have hi := hinv i
  have hk := hinv k
  refine ⟨hrivals.configures_step hconfigures i, ?_, ?_⟩
  · cases hsi : x.stage i with
    | idle =>
      simp only [Device.step, hsi, Device.advance]
      exact hrivals.load_ne hik x.shared
    | loaded v =>
      -- both inputs would be in the ring
      rw [hsi] at hi hrank
      cases hsk : x.stage k with
      | configured w =>
        rw [hsk] at hk
        have hboth := hk.1.2
        rw [← hrivals.length i, show copyOut _ 0 _ = (jobs i).input from hi.2] at hboth
        exact absurd hboth (hrivals.ne i hik)
      | _ => simp [hsk, Stage.rank] at hrank
    | configured v =>
      rw [hsi] at hi
      have hown := hi.1.2
      rw [hrivals.length i] at hown
      simp only [Device.step, hsi, Device.advance]
      exact fun heq => hrivals.ne i hik (hown.symm.trans heq)
    | _ => simp [hsi, Stage.rank] at hrank
  · simp only [Device.step, Function.update_of_ne (Ne.symm hik)]
    cases hsk : x.stage k with
    | loaded w => trivial
    | configured w => trivial
    | ran w =>
      cases hsi : x.stage i with
      | configured v =>
        rw [hsi] at hi
        have hown := hi.1.2
        rw [hrivals.length i] at hown
        exact hrivals.copyOut_run_ne i (hconfigures i v hsi)
          (fun heq => hrivals.ne i hik (hown.symm.trans heq))
      | _ => simp [hsi, hsk, Stage.rank] at hrank
    | _ => simp [hsk, Stage.rank] at hrank

end Step

/-- Client `k` encrypts zeros, and all others ones. -/
def rivalJobs [DecidableEq ι] (k : ι) {n : ℕ} (hring : n ≤ ringSize) (j : ι) : Aes256Job where
  input := List.replicate n (if j = k then 0 else 1)
  key := Vector.replicate 32 0
  iv := Vector.replicate 16 0
  fits := by rw [List.length_replicate]; exact hring

lemma rivals_rivalJobs [DecidableEq ι] (k : ι) {n : ℕ} (hn : 0 < n) (hring : n ≤ ringSize) :
    Rivals (rivalJobs k hring) k where
  key _ := rfl
  iv _ := rfl
  length _ := by simp only [rivalJobs, List.length_replicate]
  ne j hjk heq := by
    simp only [rivalJobs, if_neg hjk, if_true] at heq
    have hmem : (1 : Byte) ∈ List.replicate n (0 : Byte) := by
      rw [← heq]
      exact List.mem_replicate.mpr ⟨by omega, rfl⟩
    exact absurd (List.eq_of_mem_replicate hmem) (by decide)

/-- The interleavings of submits to one `AES256Batcher` that are right for all jobs of `n` bytes,
`n` not zero, are the exclusive ones. -/
theorem aes256_interleaving_iff [DecidableEq ι] (schedule : List ι)
    (hcomplete : ∀ i ∈ schedule, 4 ≤ schedule.count i) {n : ℕ} (hn : 0 < n)
    (hring : n ≤ ringSize) :
    (∀ (b : Aes256Batcher) (jobs : ι → Aes256Job), (∀ i, (jobs i).input.length = n) →
      ∀ i ∈ schedule, (aes256Device.runSchedule jobs (start b) schedule).stage i =
        .done (jobs i).result) ↔ Exclusive schedule := by
  constructor
  · intro hright
    by_contra hexclusive
    obtain ⟨pre, i, post, hsplit, hpre, hdisturbed⟩ := exists_of_not_exclusive hexclusive
    obtain ⟨k, hk⟩ := not_forall.mp hdisturbed
    obtain ⟨hki, hcase⟩ := Classical.not_imp.mp hk
    let b : Aes256Batcher := ⟨fun _ => 0, fun _ => 0, fun _ => 0⟩
    let jobs : ι → Aes256Job := rivalJobs k hring
    have hrivals : Rivals jobs k := rivals_rivalJobs k hn hring
    have hinv := aes256Laws.run_inv (aes256Laws.inv_start jobs b)
      (aes256Device.safeRun_of_exclusive jobs b hpre)
    have hranki := aes256Device.rank_start jobs b pre i
    have hrankk := aes256Device.rank_start jobs b pre k
    have hlost := (hrivals.lost_of_disturbed hinv (Ne.symm hki) (by omega)).run hrivals post
    have hend : aes256Device.runSchedule jobs (start b) schedule =
        aes256Device.runSchedule jobs
          (aes256Device.step jobs (aes256Device.runSchedule jobs (start b) pre) i) post := by
      rw [hsplit, Device.runSchedule_append]
      rfl
    have hmem : k ∈ schedule := by
      have hcount : 0 < pre.count k := by omega
      rw [hsplit]
      exact List.mem_append_left _ (List.count_pos_iff.mp hcount)
    -- `k` should have its result by now, and has missed it
    have hmissed := hlost.missed
    rw [← hend, hright b jobs (fun j => List.length_replicate) k hmem] at hmissed
    exact hmissed rfl
  · intro hexclusive b jobs _ i hi
    exact aes256Device.stage_of_safeRun aes256Laws
      (aes256Device.safeRun_of_exclusive jobs b hexclusive) (hcomplete i hi)

end GpuCrypt
