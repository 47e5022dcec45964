import GpuCrypt.Proofs.UpdateOutcomes
import GpuCrypt.Proofs.CipherStreams
import GpuCrypt.Proofs.AesBlock

/-!
# The provider over its batchers

The provider numbers its ciphers 0, 1 and 2, and the batchers number theirs 0 and 1. No number means
the same cipher on both sides, so that a session is what it should be only if it submits no job.
-/

namespace GpuCrypt

open BlockBuffer Keystream

variable {σ γ δ : Type} {B : ℕ}

/-! ### The jobs of a session -/

/-- From the log `log` on, `innerBackend` has been given jobs of one algorithm only, at least one if
anything has been written. -/
def Submitted (alg : StreamAlg) (log : List Job) (innerBackend : Option (σ × List Job))
    (out : List Byte) : Prop :=
  ∃ s jobs, innerBackend = some (s, log ++ jobs) ∧ (∀ job ∈ jobs, job.algId = alg.algId) ∧
    (jobs = [] → out = [])

lemma session_submitted [NeZero B] (be : Backend σ) (alg : StreamAlg) (s : σ) (init : Bool)
    {ctx : Ctx B} (hlen : ctx.partialLen ≤ B) (chunks : List Buffer) (outsize : ℕ) :
    let x := session (streamCall be.logged alg) (some (s, [])) (init, ctx) chunks outsize
    Submitted alg [] x.final.innerBackend x.output := by
  obtain ⟨hlen', s', entries, hs', hruns, halg, hout, _⟩ :=
    runCalls_submits be.logged alg (chunks.map .update) (s, []) hlen
  obtain ⟨s'', later, hfinal, _⟩ := streamCall_submits be.logged alg s' hlen' (.final outsize)
  have hlog : s''.2 = (entries ++ later).map Prod.fst := (hruns.append hfinal.runs).logged
  simp only [session, Session.output, hs', hfinal.backend]
  refine ⟨s''.1, (entries ++ later).map Prod.fst, by rw [← hlog]; rfl, ?_, ?_⟩
  · intro job hjob
    obtain ⟨e, he, rfl⟩ := List.mem_map.mp hjob
    exact (List.mem_append.mp he).elim (halg e) (hfinal.algId e)
  · intro hnil
    obtain ⟨hnil, hnil'⟩ := List.append_eq_nil_iff.mp (List.map_eq_nil_iff.mp hnil)
    rw [hout hnil, (hfinal.idle hnil').2, List.append_nil]

/-! ### Sessions without input -/

lemma streamCipher_nil (be : Backend σ) (alg : StreamAlg) (s : σ) {ctx : Ctx B} (hB : 0 < B)
    (hzero : ctx.partialLen = 0) :
    streamCipher be alg (some s) ctx [] =
      { ret := true, outl := some 0, out := [], ctx := ctx, innerBackend := some s } := by
  have hflush : flushPartial be alg (.start s ctx []) = .ok (.start s ctx []) :=
    if_neg (by simp [Progress.start, hzero])
  have hblocks : fullBlocks be alg (.start s ctx []) = .ok (.start s ctx []) :=
    if_neg (by simp [Progress.start, hB.ne'])
  rw [streamCipher_of_ok hflush hblocks]
  rfl

lemma runCalls_empty (be : Backend σ) (alg : StreamAlg) (s : σ) {ctx : Ctx B} (hB : 0 < B)
    (hzero : ctx.partialLen = 0) (chunks : List Buffer) (hempty : chunks.flatMap Buffer.bytes = []) :
    let run := runCalls (streamCall be alg) (some s) ctx (chunks.map .update)
    (∀ r ∈ run.results, r.ret = true ∧ r.out = []) ∧ run.ctx = ctx ∧
      run.innerBackend = some s := by
  induction chunks with
  | nil => exact ⟨by simp [runCalls], rfl, rfl⟩
  | cons chunk chunks ih =>
    rw [List.flatMap_cons, List.append_eq_nil_iff] at hempty
    obtain ⟨hall, hctx, hback⟩ := ih hempty.2
    simp only [List.map_cons, runCalls, streamCall, hempty.1, streamCipher_nil be alg s hB hzero]
    refine ⟨?_, hctx, hback⟩
    rintro r (_ | ⟨_, hr⟩)
    · exact ⟨rfl, rfl⟩
    · exact hall r hr

/-! ### The ciphers and their numbers -/

/-- The ciphers of the provider. -/
inductive Vc6Cipher
  | aes128
  | aes256
  | chacha20
deriving DecidableEq, Repr

/-- The cipher, with its key size, that a `Batcher::Algorithm` stands for. -/
def Algorithm.cipher : Algorithm → Option Vc6Cipher
  | .aes256Ctr => some .aes256
  | .chacha20 => some .chacha20
  | .count => none

def vc6SelectedCipher (algId : ℤ) : Option Vc6Cipher := (vc6Algorithm algId).bind Algorithm.cipher

/-- The session over a logged backend does what the cipher `c` with keystream `ks` should do: all
calls return 1, the output is the input combined with the keystream, and every job is numbered as
`c`. -/
structure EndToEnd (x : Session γ (σ × List Job)) (c : Vc6Cipher) (ks : ℕ → Byte)
    (input : List Byte) : Prop where
  init : x.init = true
  calls : ∀ r ∈ x.calls, r.ret = true
  output : x.output = xorFrom ks 0 input
  jobs : ∀ s ∈ x.final.innerBackend, ∀ job ∈ s.2, vc6SelectedCipher job.algId = some c

lemma endToEnd_mapCtx (f : γ → δ) (x : Session γ (σ × List Job)) (c : Vc6Cipher) (ks : ℕ → Byte)
    (input : List Byte) : EndToEnd (x.mapCtx f) c ks input ↔ EndToEnd x c ks input := by
  constructor
  · rintro ⟨hinit, hcalls, hout, hjobs⟩
    rw [Session.calls_mapCtx] at hcalls
    rw [Session.output_mapCtx] at hout
    exact ⟨hinit, fun r hr => hcalls (r.mapCtx f) (List.mem_map_of_mem hr), hout, hjobs⟩
  · rintro ⟨hinit, hcalls, hout, hjobs⟩
    refine ⟨hinit, ?_, by rw [Session.output_mapCtx, hout], hjobs⟩
    rw [Session.calls_mapCtx]
    rintro r hr
    obtain ⟨r', hr', rfl⟩ := List.mem_map.mp hr
    exact hcalls r' hr'

/-- If the number of the jobs means another cipher, only sessions without input are right. -/
lemma endToEnd_iff_of_ne [NeZero B] (be : Backend σ) (alg : StreamAlg) {c : Vc6Cipher}
    (hne : vc6SelectedCipher alg.algId ≠ some c) (s : σ) {ctx : Ctx B} (hzero : ctx.partialLen = 0)
    (ks : ℕ → Byte) (chunks : List Buffer) (outsize : ℕ) :
    EndToEnd (session (streamCall be.logged alg) (some (s, [])) (true, ctx) chunks outsize) c ks
        (chunks.flatMap Buffer.bytes) ↔ chunks.flatMap Buffer.bytes = [] := by
  constructor
  · rintro ⟨-, -, hout, hjobs⟩
    obtain ⟨s', jobs, hs', halg, hnil⟩ := session_submitted be alg s true
      (show ctx.partialLen ≤ B by omega) chunks outsize
    have hempty : jobs = [] := by
      apply List.eq_nil_iff_forall_not_mem.mpr
      intro job hjob
      have hsel := hjobs _ hs' job hjob
      rw [halg job hjob] at hsel
      exact hne hsel
    rw [hnil hempty] at hout
    have hlen := congrArg List.length hout
    rw [length_combine, List.length_nil] at hlen
    exact List.length_eq_zero_iff.mp hlen.symm
  · intro hempty
    obtain ⟨hall, hctx, hback⟩ := runCalls_empty be.logged alg (s, []) (Nat.pos_of_neZero B) hzero
      chunks hempty
    have hfinal : (session (streamCall be.logged alg) (some (s, [])) (true, ctx) chunks
        outsize).final = streamFinal be.logged alg (some (s, [])) ctx outsize := by
      simp only [session, hctx, hback, streamCall]
    rw [streamFinal_of_zero _ _ _ _ hzero] at hfinal
    refine ⟨rfl, ?_, ?_, ?_⟩
    · intro r hr
      rcases List.mem_append.mp hr with hr | hr
      · exact (hall r hr).1
      · rw [List.mem_singleton.mp hr, hfinal]
    · have hnil : ∀ r ∈ (session (streamCall be.logged alg) (some (s, [])) (true, ctx) chunks
          outsize).updates.results, r.out = [] := fun r hr => (hall r hr).2
      rw [Session.output, hfinal, Run.output, List.flatMap_eq_nil_iff.mpr hnil, hempty]
      rfl
    · rw [hfinal]
      simp

/-- AES-128 jobs are run as AES-256, and AES-256 jobs as ChaCha20. -/
lemma vc6SelectedCipher_vc6AesAlg (keyLen : ℕ) :
    vc6SelectedCipher (vc6AesAlg keyLen).algId =
      some (if keyLen = 32 then .chacha20 else .aes256) := by
  unfold vc6AesAlg
  by_cases h : keyLen = 32
  · rw [if_pos h, if_pos h]
    rfl
  · rw [if_neg h, if_neg h]
    rfl

/-- ChaCha20 jobs are not run at all. -/
lemma vc6SelectedCipher_vc6Chacha20Alg : vc6SelectedCipher vc6Chacha20Alg.algId = none := rfl

/-- End to end, with every Vulkan call succeeding, a session of each cipher of the provider does
what it should exactly if it has no input. -/
theorem vc6_end_to_end_iff (backend : Vc6Backend) (iv : Vector Byte 16) (chunks : List Buffer)
    (outsize : ℕ) :
    let be := (vc6Backend .success).logged
    let input := chunks.flatMap Buffer.bytes
    (∀ (ctx : Vc6AesCtx) (key : Vector Byte 16),
      EndToEnd (vc6AesSession be (some (backend, [])) ctx key.toList iv.toList chunks outsize)
        .aes128 (ofBlocks (ctrBlocks (Fips197.aes128 key) iv)) input ↔ input = []) ∧
    (∀ (ctx : Vc6AesCtx) (key : Vector Byte 32),
      EndToEnd (vc6AesSession be (some (backend, [])) ctx key.toList iv.toList chunks outsize)
        .aes256 (ofBlocks (ctrBlocks (Fips197.aes256 key) iv)) input ↔ input = []) ∧
    (∀ (ctx : Vc6ChachaCtx) (key : Vector Byte 32),
      EndToEnd (vc6Chacha20Session be (some (backend, [])) ctx key.toList iv.toList chunks outsize)
        .chacha20 (ofBlocks (fun j =>
          Rfc8439.block key (chachaCounter iv + BitVec.ofNat 32 j) (chachaNonce iv))) input ↔
        input = []) := by
  intro be input
  refine ⟨fun ctx key => ?_, fun ctx key => ?_, fun ctx key => ?_⟩
  · have hlen : key.toList.length = 16 := Vector.length_toList
    rw [vc6AesSession, vc6AesInit_eq ctx iv (.inl hlen), session_vc6AesCall, endToEnd_mapCtx]
    refine endToEnd_iff_of_ne _ _ ?_ backend rfl _ chunks outsize
    rw [vc6SelectedCipher_vc6AesAlg, hlen]
    simp
  · have hlen : key.toList.length = 32 := Vector.length_toList
    rw [vc6AesSession, vc6AesInit_eq ctx iv (.inr hlen), session_vc6AesCall, endToEnd_mapCtx]
    refine endToEnd_iff_of_ne _ _ ?_ backend rfl _ chunks outsize
    rw [vc6SelectedCipher_vc6AesAlg, hlen]
    simp
  · rw [vc6Chacha20Session, vc6Chacha20Init_eq, vc6Chacha20Call_eq]
    refine endToEnd_iff_of_ne _ _ ?_ backend rfl _ chunks outsize
    rw [vc6SelectedCipher_vc6Chacha20Alg]
    simp

/-- One byte under the zero key and IV: AES-256 encrypts it with another cipher, and the final of
ChaCha20 fails; the jobs of AES-128 mean AES-256. -/
theorem vc6_end_to_end_fails :
    let be := vc6Backend .success
    let backend : Vc6Backend :=
      { aes256 := ⟨fun _ => 0, fun _ => 0, fun _ => 0⟩
        chacha := ⟨fun _ => 0, fun _ => 0, fun _ => 0, 0, fun _ => true⟩ }
    let iv : Vector Byte 16 := Vector.replicate 16 0
    let chunks : List Buffer := [⟨[0x41], by decide⟩]
    (vc6AesSession be (some backend) Vc6AesCtx.zalloc (List.replicate 32 0) iv.toList chunks
        16).output ≠
        xorFrom (ofBlocks (ctrBlocks (Fips197.aes256 (Vector.replicate 32 0)) iv)) 0 [0x41] ∧
      (vc6Chacha20Session be (some backend) (Ctx.zalloc 64) (List.replicate 32 0) iv.toList chunks
        64).final.ret = false ∧
      vc6SelectedCipher (vc6AesAlg 16).algId = some .aes256 := by
  intro be backend iv chunks
  -- the shader is quicker to run than the standard
  have haes : Fips197.aes256 (Vector.replicate 32 0) = fun block =>
      (Aes256Ctr.encrypt (aes256Params (fun _ => 0) 0 (Vector.replicate 32 0) iv)
        (.ofBlock block)).toBlock := by
    funext block
    exact (toBlock_encrypt _ 0 _ iv block).symm
  rw [haes]
  exact ⟨by decide +kernel, by decide +kernel, rfl⟩

end GpuCrypt
