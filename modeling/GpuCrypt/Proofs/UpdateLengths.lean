import GpuCrypt.Proofs.BatcherSteps
import GpuCrypt.Proofs.OutputBound

/-!
# The lengths that an update accepts

An update submits all its whole blocks as one job, of whatever length, and the batchers refuse jobs
that are longer than their rings.
-/

namespace GpuCrypt

open BlockBuffer

variable {σ : Type} {B : ℕ}

/-- In the states `ready`, and those it comes to, the backend serves exactly the jobs with this
`alg_id` that fit in a ring. -/
structure Backend.Admits (be : Backend σ) (ready : σ → Prop) (algId : ℤ) : Prop where
  served_iff : ∀ s job, ready s → job.algId = algId →
    ((be.submit s job).2.isSome = true ↔ job.input.length ≤ ringSize)
  ready_submit : ∀ s job, ready s → job.algId = algId → ready (be.submit s job).1

/-- The length of the job for the whole blocks of the input, after a partial block has been topped
up. -/
def Ctx.bulkLen (ctx : Ctx B) (input : List Byte) : ℕ :=
  whole B (if 0 < ctx.partialLen then (ctx.rest input).length else input.length)

lemma Backend.Admits.length_le {be : Backend σ} {ready : σ → Prop} {algId : ℤ}
    (h : be.Admits ready algId) {s s' : σ} {job : Job} {out : List Byte} (hs : ready s)
    (hid : job.algId = algId) (hsub : be.submit s job = (s', some out)) :
    job.input.length ≤ ringSize ∧ ready s' := by
  have hserved := h.served_iff s job hs hid
  have hready := h.ready_submit s job hs hid
  rw [hsub] at hserved hready
  exact ⟨hserved.mp rfl, hready⟩

lemma Backend.Admits.lt_length {be : Backend σ} {ready : σ → Prop} {algId : ℤ}
    (h : be.Admits ready algId) {s s' : σ} {job : Job} (hs : ready s)
    (hid : job.algId = algId) (hsub : be.submit s job = (s', none)) :
    ringSize < job.input.length := by
  have hserved := h.served_iff s job hs hid
  rw [hsub] at hserved
  simpa using hserved

/-- Over such a backend an update returns 1 exactly if the job for its whole blocks fits. -/
lemma Updates.ret_iff {be : Backend σ} {alg : StreamAlg} {ctx : Ctx B} {input : List Byte} {s : σ}
    {r : CallResult (Ctx B) σ} (h : Updates be alg ctx input (some s) r) {ready : σ → Prop}
    (hadmits : be.Admits ready alg.algId) (hs : ready s) (hlen : ctx.partialLen ≤ B)
    (hB : B ≤ ringSize) : r.ret = true ↔ ctx.bulkLen input ≤ ringSize := by
  have hrest := ctx.length_rest input
  unfold Ctx.bulkLen
  cases h with
  | buffered _ hshort =>
    have hfits : whole B (if 0 < ctx.partialLen then (ctx.rest input).length else input.length) =
        0 := by
      apply whole_of_lt
      split <;> omega
    simp [hfits]
  | flushFails _ s' hpos hfull hflush =>
    have hlong := hadmits.lt_length hs rfl hflush
    rw [length_flushJob alg ctx input hlen hfull] at hlong
    omega
  | flushes _ s' out hpos hfull hflush hshort =>
    rw [if_pos hpos, whole_of_lt hshort]
    simp
  | blocksFail _ s' hzero hfull hblocks =>
    have hlong := hadmits.lt_length hs rfl hblocks
    rw [length_blocksJob] at hlong
    rw [if_neg (by omega)]
    simpa using hlong
  | blocks _ s' out hzero hfull hblocks =>
    have hfits := (hadmits.length_le hs rfl hblocks).1
    rw [length_blocksJob] at hfits
    rw [if_neg (by omega)]
    simpa using hfits
  | flushesBlocksFail _ s' s'' out hpos hfull hflush hblocks =>
    have hs' := (hadmits.length_le hs rfl hflush).2
    have hlong := hadmits.lt_length hs' rfl hblocks
    rw [length_blocksJob] at hlong
    rw [if_pos hpos]
    simpa using hlong
  | flushesBlocks _ s' s'' out out' hpos hfull hflush hblocks =>
    have hs' := (hadmits.length_le hs rfl hflush).2
    have hfits := (hadmits.length_le hs' rfl hblocks).1
    rw [length_blocksJob] at hfits
    rw [if_pos hpos]
    simpa using hfits

lemma Batcher.isSome_submit_chacha20 {b : Batcher} (hpipe : b.pipelines .chacha20 = true)
    (input : List Byte) (key : Vector Byte 32) (iv : Vector Byte 16) :
    (b.submit .success input key iv .chacha20).2.isSome = true ↔ input.length ≤ ringSize := by
  rcases Batcher.submit_cases .success b input key iv .chacha20 with ⟨hno, h⟩ | ⟨haccept, h⟩
  · rw [h]
    simp only [Batcher.Accepts, hpipe, ne_eq, reduceCtorEq, not_false_eq_true, and_self,
      and_true] at hno
    simpa using hno
  · rw [h]
    simpa [VkOutcome.success] using haccept.1

/-- The backend of the provider, with all Vulkan calls succeeding and the pipeline created, serves
the jobs of AES contexts up to the size of the rings. -/
lemma vc6Backend_admits (keyLen : ℕ) :
    (vc6Backend .success).Admits (fun b => b.chacha.pipelines .chacha20 = true)
      (vc6AesAlg keyLen).algId := by
  have hsubmit : ∀ (b : Vc6Backend) (job : Job), job.algId = (vc6AesAlg keyLen).algId →
      b.chacha.pipelines .chacha20 = true →
        ((vc6SubmitJob .success b job).2.isSome = true ↔ job.input.length ≤ ringSize) ∧
          (vc6SubmitJob .success b job).1.chacha.pipelines .chacha20 = true := by
    intro b job hid hpipe
    unfold vc6SubmitJob
    by_cases hkey : keyLen = 32
    · rw [hid, show vc6Algorithm (vc6AesAlg keyLen).algId = some .chacha20 by
        rw [hkey]; rfl]
      simp only [Batcher.pipelines_submit, hpipe, and_true]
      exact Batcher.isSome_submit_chacha20 hpipe job.input job.key job.iv
    · rw [hid, show vc6Algorithm (vc6AesAlg keyLen).algId = some .aes256Ctr by
        simp [vc6AesAlg, hkey, vc6Algorithm]]
      refine ⟨?_, hpipe⟩
      rcases Aes256Batcher.submit_cases .success b.aes256 job.input job.key job.iv with
        ⟨hlong, h⟩ | ⟨hfits, h⟩
      · simp only [h]
        simpa using hlong
      · simp only [h]
        simpa [VkOutcome.success] using hfits
  exact ⟨fun b job hpipe hid => (hsubmit b job hid hpipe).1,
    fun b job hpipe hid => (hsubmit b job hid hpipe).2⟩

lemma vc6AesCipher_ret_iff {backend : Vc6Backend}
    (hpipe : backend.chacha.pipelines .chacha20 = true) (ctx : Vc6AesCtx)
    (hlen : ctx.partialLen ≤ 16) (input : List Byte) :
    (vc6AesCipher (vc6Backend .success) (some backend) ctx input).ret = true ↔
      ctx.bulkLen input ≤ ringSize :=
  (streamCipher_updates (vc6Backend .success) (vc6AesAlg ctx.keyLen) (some backend) ctx.toCtx input
    (by norm_num) hlen).ret_iff (vc6Backend_admits ctx.keyLen) hpipe hlen
    (by rw [ringSize_eq]; norm_num)

/-- Updates of reachable contexts return 1 exactly if the job for their whole blocks fits in a
ring: for AES over the batchers, with every Vulkan call succeeding, and for ChaCha20 over any
backend that serves its jobs up to that length. -/
theorem vc6_update_accepts_iff (input : Buffer) :
    (∀ backend : Vc6Backend, backend.chacha.pipelines .chacha20 = true →
      ∀ ctx : Vc6AesCtx, ctx.Reachable →
        ((vc6AesCipher (vc6Backend .success) (some backend) ctx input.bytes).ret = true ↔
          ctx.bulkLen input.bytes ≤ ringSize)) ∧
    (∀ (σ : Type) (be : Backend σ) (ready : σ → Prop), be.Admits ready vc6Chacha20Alg.algId →
      ∀ s, ready s → ∀ ctx : Vc6ChachaCtx, Vc6ChachaReachable ctx →
        ((vc6Chacha20Cipher be (some s) ctx input.bytes).ret = true ↔
          ctx.bulkLen input.bytes ≤ ringSize)) := by
  constructor
  · intro backend hpipe ctx hctx
    exact vc6AesCipher_ret_iff hpipe ctx hctx.partialLen_le input.bytes
  · intro σ be ready hadmits s hs ctx hctx
    have hupd := streamCipher_updates be vc6Chacha20Alg (some s) ctx input.bytes (by norm_num)
      hctx.partialLen_le
    exact hupd.ret_iff hadmits hs hctx.partialLen_le (by rw [ringSize_eq]; norm_num)

/-- A context of AES-256 as an init leaves it. -/
def Vc6AesCtx.keyed : Vc6AesCtx :=
  (vc6AesInit .zalloc (some (List.replicate 32 1)) (some (List.replicate 16 2))).2

lemma Vc6AesCtx.reachable_keyed : Vc6AesCtx.keyed.Reachable :=
  .init _ _ _ (by decide) .newctx

/-- A backend that hands every job to the ChaCha20 pipeline of a `Batcher`. -/
def chachaBackend : Backend Batcher where
  submit b job := b.submit .success job.input job.key job.iv .chacha20
  length_out b job b' out h :=
    Batcher.length_submit (b := b) (by rw [h])

lemma chachaBackend_admits (algId : ℤ) :
    chachaBackend.Admits (fun b => b.pipelines .chacha20 = true) algId where
  served_iff b job hpipe _ := Batcher.isSome_submit_chacha20 hpipe job.input job.key job.iv
  ready_submit b job hpipe _ := by
    rw [chachaBackend, Batcher.pipelines_submit]
    exact hpipe

theorem vc6_update_accepts_short :
    let backend : Vc6Backend :=
      { aes256 := ⟨fun _ => 0, fun _ => 0, fun _ => 0⟩
        chacha := ⟨fun _ => 0, fun _ => 0, fun _ => 0, 0, fun _ => true⟩ }
    let ctx : Vc6ChachaCtx :=
      (vc6Chacha20Init (.zalloc 64) (some (List.replicate 32 1)) (some (List.replicate 16 2))).2
    (vc6AesCipher (vc6Backend .success) (some backend) .keyed (List.replicate 100 3)).ret = true ∧
      (vc6Chacha20Cipher chachaBackend (some backend.chacha) ctx (List.replicate 100 3)).ret =
        true := by
  intro backend ctx
  have haccepts := vc6_update_accepts_iff ⟨List.replicate 100 3, by decide⟩
  exact ⟨(haccepts.1 backend rfl .keyed Vc6AesCtx.reachable_keyed).mpr (by decide),
    (haccepts.2 Batcher chachaBackend _ (chachaBackend_admits _) backend.chacha rfl ctx
      (.init _ _ _ .newctx)).mpr (by decide)⟩

/-- One block more than a ring, in one update. -/
theorem vc6_update_refuses_long :
    let backend : Vc6Backend :=
      { aes256 := ⟨fun _ => 0, fun _ => 0, fun _ => 0⟩
        chacha := ⟨fun _ => 0, fun _ => 0, fun _ => 0, 0, fun _ => true⟩ }
    Vc6AesCtx.keyed.Reachable ∧ Vc6AesCtx.keyed.setKey = true ∧ Vc6AesCtx.keyed.setIv = true ∧
      (vc6AesCipher (vc6Backend .success) (some backend) .keyed
        (List.replicate (ringSize + 16) 3)).ret = false := by
  intro backend
  have hbulk : Vc6AesCtx.keyed.bulkLen (List.replicate (ringSize + 16) (3 : Byte)) =
      ringSize + 16 := by
    rw [Ctx.bulkLen, if_neg (by decide), List.length_replicate, ringSize_eq]
    rfl
  refine ⟨Vc6AesCtx.reachable_keyed, rfl, rfl, ?_⟩
  rw [← Bool.not_eq_true, vc6AesCipher_ret_iff rfl .keyed (by decide), hbulk]
  omega

end GpuCrypt
