import GpuCrypt.Lib.Isolation
import GpuCrypt.Model.Provider
import GpuCrypt.Proofs.JobIsolation

/-!
# The batchers as functions

As long as every queued job has completed when its wait returns, all that a job's answer depends on
beside the job is which pipelines exist and what the Vulkan calls returned. The rings, the cursor
and the parameter block, which jobs of all contexts share, cannot be noticed through the provider.
-/

namespace GpuCrypt

variable {σ τ γ ω ι : Type} {B : ℕ} {be : Backend σ} {be' : Backend τ} {f : σ → τ}

/-! ### Backends seen through a map of their states -/

/-- `be'` does on the images of the states what `be` does. -/
def Backend.Maps (be : Backend σ) (f : σ → τ) (be' : Backend τ) : Prop :=
  ∀ s job, be'.submit (f s) job = (f (be.submit s job).1, (be.submit s job).2)

def Progress.mapBackend (f : σ → τ) (p : Progress B σ) : Progress B τ where
  backend := f p.backend
  ctx := p.ctx
  input := p.input
  out := p.out
  totalWritten := p.totalWritten

def CallResult.mapBackend (f : σ → τ) (r : CallResult γ σ) : CallResult γ τ where
  ret := r.ret
  outl := r.outl
  out := r.out
  ctx := r.ctx
  innerBackend := r.innerBackend.map f

def Vc6Provider.mapBackend (f : σ → τ) (p : Vc6Provider ι σ) : Vc6Provider ι τ where
  innerBackend := p.innerBackend.map f
  ctxs := p.ctxs

/-- A phase of an update, followed through a map of the backend's states. -/
def mapPhase (f : σ → τ) : Except (Progress B σ) (Progress B σ) →
    Except (Progress B τ) (Progress B τ)
  | .error p => .error (p.mapBackend f)
  | .ok p => .ok (p.mapBackend f)

lemma Backend.Maps.of_none (h : be.Maps f be') {s s' : σ} {job : Job}
    (hsub : be.submit s job = (s', none)) : be'.submit (f s) job = (f s', none) := by
  rw [h, hsub]

lemma Backend.Maps.of_some (h : be.Maps f be') {s s' : σ} {job : Job} {out : List Byte}
    (hsub : be.submit s job = (s', some out)) : be'.submit (f s) job = (f s', some out) := by
  rw [h, hsub]

lemma flushPartial_mapBackend (h : be.Maps f be') (alg : StreamAlg) (p : Progress B σ) :
    flushPartial be' alg (p.mapBackend f) = mapPhase f (flushPartial be alg p) := by
  unfold flushPartial
  by_cases hpos : 0 < p.ctx.partialLen
  · by_cases hfull : (p.ctx.topUp p.input).1.partialLen = B
    · rcases hsub : be.submit p.backend ((p.ctx.topUp p.input).1.job alg
        (p.ctx.topUp p.input).1.partialBuf.toList) with ⟨s, _ | out⟩
      · simp only [Progress.mapBackend, hpos, hfull, if_true, hsub, h.of_none hsub, mapPhase]
      · simp only [Progress.mapBackend, hpos, hfull, if_true, hsub, h.of_some hsub, mapPhase]
    · simp only [Progress.mapBackend, hpos, hfull, if_true, if_false, mapPhase]
  · simp only [Progress.mapBackend, hpos, if_false, mapPhase]

lemma fullBlocks_mapBackend (h : be.Maps f be') (alg : StreamAlg) (p : Progress B σ) :
    fullBlocks be' alg (p.mapBackend f) = mapPhase f (fullBlocks be alg p) := by
  unfold fullBlocks
  by_cases hfull : B ≤ p.input.length
  · rcases hsub : be.submit p.backend (p.ctx.job alg
      (p.input.take (p.input.length - p.input.length % B))) with ⟨s, _ | out⟩
    · simp only [Progress.mapBackend, hfull, if_true, hsub, h.of_none hsub, mapPhase]
    · simp only [Progress.mapBackend, hfull, if_true, hsub, h.of_some hsub, mapPhase]
  · simp only [Progress.mapBackend, hfull, if_false, mapPhase]

lemma streamCipher_mapBackend (h : be.Maps f be') (alg : StreamAlg) (innerBackend : Option σ)
    (ctx : Ctx B) (input : List Byte) :
    streamCipher be' alg (innerBackend.map f) ctx input =
      (streamCipher be alg innerBackend ctx input).mapBackend f := by
  cases innerBackend with
  | none => rfl
  | some s =>
    have hstart : Progress.start (f s) ctx input = (Progress.start s ctx input).mapBackend f := rfl
    cases hflush : flushPartial be alg (.start s ctx input) with
    | error p =>
      rw [streamCipher_of_error hflush, Option.map_some,
        streamCipher_of_error (by rw [hstart, flushPartial_mapBackend h, hflush, mapPhase])]
      rfl
    | ok p =>
      have hflush' : flushPartial be' alg (.start (f s) ctx input) = .ok (p.mapBackend f) := by
        rw [hstart, flushPartial_mapBackend h, hflush, mapPhase]
      cases hblocks : fullBlocks be alg p with
      | error q =>
        rw [streamCipher_of_ok_error hflush hblocks, Option.map_some,
          streamCipher_of_ok_error hflush' (by rw [fullBlocks_mapBackend h, hblocks, mapPhase])]
        rfl
      | ok q =>
        rw [streamCipher_of_ok hflush hblocks, Option.map_some, streamCipher_of_ok hflush'
          (by rw [fullBlocks_mapBackend h, hblocks, mapPhase])]
        rfl

lemma streamFinal_mapBackend (h : be.Maps f be') (alg : StreamAlg) (innerBackend : Option σ)
    (ctx : Ctx B) (outsize : ℕ) :
    streamFinal be' alg (innerBackend.map f) ctx outsize =
      (streamFinal be alg innerBackend ctx outsize).mapBackend f := by
  unfold streamFinal
  by_cases hpos : 0 < ctx.partialLen
  · cases innerBackend with
    | none => simp only [hpos, if_true, Option.map_none, CallResult.mapBackend]
    | some s =>
      rcases hsub : be.submit s (ctx.zeroPad.job alg ctx.zeroPad.partialBuf.toList) with
        ⟨s', _ | enc⟩
      · simp only [hpos, if_true, Option.map_some, hsub, h.of_none hsub, CallResult.mapBackend]
      · simp only [hpos, if_true, Option.map_some, hsub, h.of_some hsub]
        split <;> rfl
  · simp only [hpos, if_false, CallResult.mapBackend]

lemma streamCall_mapBackend (h : be.Maps f be') (alg : StreamAlg) (innerBackend : Option σ)
    (ctx : Ctx B) (c : StreamCall) :
    streamCall be' alg (innerBackend.map f) ctx c =
      (streamCall be alg innerBackend ctx c).mapBackend f := by
  cases c with
  | update input => exact streamCipher_mapBackend h alg innerBackend ctx input.bytes
  | final outsize => exact streamFinal_mapBackend h alg innerBackend ctx outsize

lemma Vc6Ctx.call_mapBackend (h : be.Maps f be') (innerBackend : Option σ) (ctx : Vc6Ctx)
    (c : ContextCall) :
    ctx.call be' (innerBackend.map f) c = (ctx.call be innerBackend c).mapBackend f := by
  cases ctx with
  | aes ctx =>
    cases c with
    | init key iv => rfl
    | stream c =>
      simp only [Vc6Ctx.call, vc6AesContextCall, contextCall, vc6AesCall_eq,
        streamCall_mapBackend h]
      rfl
  | chacha20 ctx =>
    cases c with
    | init key iv => rfl
    | stream c =>
      simp only [Vc6Ctx.call, vc6Chacha20ContextCall, contextCall, vc6Chacha20Call_eq,
        streamCall_mapBackend h]
      rfl

lemma Vc6Functions.newctx_map (vc6Init : σ) (innerBackend : Option σ) (functions : Vc6Functions) :
    functions.newctx (f vc6Init) (innerBackend.map f) =
      (functions.newctx vc6Init innerBackend).map (Option.map f) id := by
  cases functions <;> cases innerBackend <;> rfl

/-- A request to the provider over `be`, seen through the map. -/
lemma Vc6Provider.step_mapBackend [DecidableEq ι] {be : ω → Backend σ} {be' : ω → Backend τ}
    (vc6Init : σ) (p : Vc6Provider ι σ) (c : Vc6Call ι ω)
    (h : ∀ outcome call, c.request = .call outcome call → (be outcome).Maps f (be' outcome)) :
    (p.mapBackend f).step be' (f vc6Init) c =
      ((p.step be vc6Init c).1.mapBackend f, (p.step be vc6Init c).2) := by
  obtain ⟨i, request⟩ := c
  unfold Vc6Provider.step
  cases hctx : p.ctxs i with
  | none =>
    cases request with
    | newctx functions =>
      simp only [Vc6Provider.mapBackend, hctx, Vc6Functions.newctx_map]
      rfl
    | freectx => simp only [Vc6Provider.mapBackend, hctx]
    | call outcome call => simp only [Vc6Provider.mapBackend, hctx]
  | some ctx =>
    cases request with
    | newctx functions => simp only [Vc6Provider.mapBackend, hctx]
    | freectx => simp only [Vc6Provider.mapBackend, hctx]
    | call outcome call =>
      simp only [Vc6Provider.mapBackend, hctx, Vc6Ctx.call_mapBackend (h outcome call rfl)]
      rfl

/-! ### The batchers -/

/-- The job, if it was queued, has completed when its wait returns, whatever that returns. -/
def VkOutcome.Settled (vk : VkOutcome) : Prop := vk.queueSubmit = true → vk.completed = true

instance (vk : VkOutcome) : Decidable vk.Settled := inferInstanceAs (Decidable (_ → _))

/-- What `vc6_submit_job` answers, as a function of the job and the results of its Vulkan calls. -/
def vc6JobAnswer (vk : VkOutcome) (pipelines : Algorithm → Bool) (job : Job) :
    Option (List Byte) :=
  match vc6Algorithm job.algId with
  | some .aes256Ctr =>
    if vk.queueSubmit then Algorithm.aes256Ctr.output job.input job.key job.iv else none
  | some .chacha20 =>
    if pipelines .chacha20 ∧ vk.queueSubmit ∧ vk.wait then
      Algorithm.chacha20.output job.input job.key job.iv
    else none
  | _ => none

lemma Algorithm.length_output {alg : Algorithm} {input out : List Byte} {key : Vector Byte 32}
    {iv : Vector Byte 16} (h : alg.output input key iv = some out) :
    out.length = input.length := by
  unfold Algorithm.output at h
  by_cases hring : ringSize < input.length
  · simp [hring] at h
  · rw [if_neg hring] at h
    cases alg with
    | aes256Ctr => rw [← Option.some.inj h, Keystream.length_combine]
    | chacha20 => rw [← Option.some.inj h, Keystream.length_combine]
    | count => simp at h

/-- A backend without memory: its state says which pipelines exist, and no job changes it. -/
def vc6Stateless (vk : Job → VkOutcome) : Backend (Algorithm → Bool) where
  submit pipelines job := (pipelines, vc6JobAnswer (vk job) pipelines job)
  length_out pipelines job pipelines' out h := by
    have hout : vc6JobAnswer (vk job) pipelines job = some out := (Prod.mk.inj h).2
    unfold vc6JobAnswer at hout
    split at hout
    · split_ifs at hout
      exact Algorithm.length_output hout
    · split_ifs at hout
      exact Algorithm.length_output hout
    · simp at hout

lemma Aes256Batcher.submit_settled {vk : VkOutcome} (hvk : vk.Settled) (b : Aes256Batcher)
    (input : List Byte) (key : Vector Byte 32) (iv : Vector Byte 16) :
    (b.submit vk input key iv).2 =
      if vk.queueSubmit then Algorithm.aes256Ctr.output input key iv else none := by
  rcases Aes256Batcher.submit_cases vk b input key iv with ⟨hring, h⟩ | ⟨hring, h⟩
  · rw [h, Algorithm.output, if_pos hring, ite_self]
  · have hnot : ¬ringSize < input.length := by omega
    rw [h, Algorithm.output, if_neg hnot]
    by_cases hqueue : vk.queueSubmit = true
    · simp only [hqueue, if_true, Aes256Batcher.submitted, hvk hqueue, and_self]
      exact congrArg some (copyOut_runAes256 b.inputRing b.outputRing b.params 0 hring key iv)
    · simp only [hqueue, if_false, Bool.false_eq_true]

lemma Batcher.submit_chacha20_settled (vk : VkOutcome) (b : Batcher) (input : List Byte)
    (key : Vector Byte 32) (iv : Vector Byte 16) :
    (b.submit vk input key iv .chacha20).2 =
      if b.pipelines .chacha20 ∧ vk.queueSubmit ∧ vk.wait then
        Algorithm.chacha20.output input key iv
      else none := by
  rcases Batcher.submit_cases vk b input key iv .chacha20 with ⟨hno, h⟩ | ⟨⟨hring, -, hpipe⟩, h⟩
  · rw [h]
    by_cases hpipe : b.pipelines .chacha20 = true
    · have hring : ringSize < input.length := by
        by_contra hle
        exact hno ⟨by omega, by decide, hpipe⟩
      rw [Algorithm.output, if_pos hring, ite_self]
    · simp only [hpipe, Bool.false_eq_true, false_and, if_false]
  · have hnot : ¬ringSize < input.length := by omega
    rw [h, Algorithm.output, if_neg hnot]
    by_cases hok : vk.queueSubmit = true ∧ vk.wait = true
    · have hdone := vk.completed_of_wait hok.1 hok.2
      simp only [hok, hpipe, hdone, and_self, if_true, Batcher.submitted, Algorithm.run,
        Algorithm.params]
      exact congrArg some (copyOut_runChacha20 b.inputRing b.outputRing b.params _ hring key iv)
    · rw [if_neg hok, if_neg (fun hall => hok hall.2)]

lemma vc6BackendUnder_maps {vk : Job → VkOutcome} (hvk : ∀ job, (vk job).Settled) :
    (vc6BackendUnder vk).Maps (fun backend => backend.chacha.pipelines) (vc6Stateless vk) := by
  intro backend job
  simp only [vc6BackendUnder, vc6Stateless, vc6SubmitJob, vc6JobAnswer]
  rcases vc6Algorithm job.algId with _ | _ | _ | _
  · rfl
  · simp only [Aes256Batcher.submit_settled (hvk job)]
  · simp only [Batcher.pipelines_submit, Batcher.submit_chacha20_settled]
  · rfl

/-- The requests of a run that the batchers settle, with IVs within the 16 bytes of the array that
an AES init copies them to. -/
def Vc6Call.Settled (c : Vc6Call ι (Job → VkOutcome)) : Prop :=
  match c.request with
  | .call vk (.init _ iv) => (∀ job, (vk job).Settled) ∧ ∀ b ∈ iv, b.length ≤ 16
  | .call vk (.stream _) => ∀ job, (vk job).Settled
  | _ => True

lemma Vc6Call.Settled.outcome {c : Vc6Call ι (Job → VkOutcome)} (h : c.Settled)
    {vk : Job → VkOutcome} {call : ContextCall} (hcall : c.request = .call vk call) (job : Job) :
    (vk job).Settled := by
  unfold Vc6Call.Settled at h
  rw [hcall] at h
  cases call with
  | init key iv => exact h.1 job
  | stream c => exact h job

lemma Vc6Provider.step_stateless [DecidableEq ι] (vc6Init : Vc6Backend)
    (p : Vc6Provider ι Vc6Backend) (c : Vc6Call ι (Job → VkOutcome)) (hc : c.Settled) :
    (p.mapBackend (fun backend => backend.chacha.pipelines)).step vc6Stateless
        vc6Init.chacha.pipelines c =
      ((p.step vc6BackendUnder vc6Init c).1.mapBackend (fun backend => backend.chacha.pipelines),
        (p.step vc6BackendUnder vc6Init c).2) :=
  Vc6Provider.step_mapBackend (f := fun backend : Vc6Backend => backend.chacha.pipelines) vc6Init p
    c (fun _ _ hcall => vc6BackendUnder_maps (hc.outcome hcall))

/-- Any requests to the provider, on any number of contexts, whatever its batchers held at the start
and whichever jobs fail, as long as each that was queued has completed when its wait returns and the
IVs are no longer than their arrays: it answers as over a backend without memory. -/
theorem vc6_provider_stateless [DecidableEq ι] (vc6Init : Vc6Backend)
    (p : Vc6Provider ι Vc6Backend) (calls : List (Vc6Call ι (Job → VkOutcome)))
    (hcalls : ∀ c ∈ calls, c.Settled) :
    let real := Isolation.run (Vc6Provider.step vc6BackendUnder vc6Init) p calls
    let ideal := Isolation.run (Vc6Provider.step vc6Stateless vc6Init.chacha.pipelines)
      (p.mapBackend (fun backend => backend.chacha.pipelines)) calls
    ideal.1 = real.1 ∧ ideal.2.ctxs = real.2.ctxs := by
  intro real ideal
  have hrun : ideal = _ := Isolation.run_map
    (f := Vc6Provider.mapBackend (fun backend : Vc6Backend => backend.chacha.pipelines))
    (fun p c hc => Vc6Provider.step_stateless vc6Init p c hc) p hcalls
  rw [hrun]
  exact ⟨rfl, rfl⟩

/-- A context whose update fails and is repeated, over rings that hold other data. -/
theorem vc6_provider_stateless_retry :
    let vc6Init : Vc6Backend :=
      { aes256 := ⟨fun _ => 1, fun _ => 2, fun _ => 3⟩
        chacha := ⟨fun _ => 4, fun _ => 5, fun _ => 6, 7, fun _ => true⟩ }
    let failed : VkOutcome := ⟨false, false, false, fun h _ => h⟩
    let update : ContextCall := .stream (.update ⟨List.replicate 64 0x41, by decide⟩)
    let p : Vc6Provider Unit Vc6Backend :=
      { innerBackend := some vc6Init, ctxs := fun _ => some (.chacha20 (Ctx.zalloc 64)) }
    let calls : List (Vc6Call Unit (Job → VkOutcome)) :=
      [⟨(), .call (fun _ => failed) update⟩, ⟨(), .call (fun _ => .success) update⟩]
    let real := Isolation.run (Vc6Provider.step vc6BackendUnder vc6Init) p calls
    let ideal := Isolation.run (Vc6Provider.step vc6Stateless vc6Init.chacha.pipelines)
      (p.mapBackend (fun backend => backend.chacha.pipelines)) calls
    ideal.1 = real.1 ∧ ideal.2.ctxs = real.2.ctxs := by
  intro vc6Init failed update p calls
  refine vc6_provider_stateless vc6Init p calls ?_
  have hfailed : failed.Settled := by decide
  have hsuccess : VkOutcome.success.Settled := by decide
  simp only [calls, update, Vc6Call.Settled, List.forall_mem_cons, List.not_mem_nil, false_imp_iff,
    implies_true, and_true, hfailed, hsuccess]

end GpuCrypt
