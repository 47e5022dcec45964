import GpuCrypt.Proofs.CipherStreams
import GpuCrypt.Proofs.Atomicity
import GpuCrypt.Proofs.StreamRefinement

/-!
# Finals that fail

A final that returns 0 should be repeatable with a larger buffer. It pads the pending bytes and
encrypts them in place before it looks at `outsize`. Without a backend, or after a failed job, the
pending bytes are still there; after the check of `outsize` they are encrypted already, and the
repeated final encrypts them once more.
-/

namespace GpuCrypt

variable {σ : Type} {B : ℕ}

/-- The job of a final: the pending bytes, filled up with zeros. -/
def Ctx.finalJob (alg : StreamAlg) (ctx : Ctx B) : Job :=
  ctx.job alg (ctx.pending ++ List.replicate (B - ctx.partialLen) 0)

lemma Ctx.finalJob_eq (alg : StreamAlg) (ctx : Ctx B) :
    ctx.finalJob alg = ctx.job alg ctx.padded := by
  rw [Ctx.finalJob, ctx.padded_eq]

lemma Ctx.SameStream.finalJob_eq {ctx ctx' : Ctx B} (h : ctx.SameStream ctx') (alg : StreamAlg) :
    ctx'.finalJob alg = ctx.finalJob alg := by
  rw [Ctx.finalJob, Ctx.finalJob, Ctx.job, Ctx.job, h.key_eq, h.iv_eq, h.partialLen_eq,
    h.pending_eq]

/-- If a job gets as far as the check of `outsize` and does not pass it, it left the pending bytes
as they were. -/
def Ctx.FinalKeeps (be : Backend σ) (alg : StreamAlg) (innerBackend : Option σ) (ctx : Ctx B)
    (outsize : ℕ) : Prop :=
  ∀ s s' enc, innerBackend = some s → outsize < ctx.partialLen →
    be.submit s (ctx.finalJob alg) = (s', some enc) → enc.take ctx.partialLen = ctx.pending

/-- A failed final keeps the stream exactly under that condition. -/
lemma streamFinal_sameStream_iff (be : Backend σ) (alg : StreamAlg) (innerBackend : Option σ)
    (ctx : Ctx B) (outsize : ℕ) :
    ((streamFinal be alg innerBackend ctx outsize).ret = false →
        ctx.SameStream (streamFinal be alg innerBackend ctx outsize).ctx) ↔
      ctx.FinalKeeps be alg innerBackend outsize := by
  unfold Ctx.FinalKeeps
  rw [ctx.finalJob_eq alg]
  rcases streamFinal_cases be alg innerBackend ctx outsize with
    ⟨hzero, h⟩ | ⟨hpos, rfl, h⟩ | ⟨hpos, s, s', rfl, hsub, h⟩ |
      ⟨hpos, s, s', enc, rfl, hsub, hsmall, h⟩ | ⟨hpos, s, s', enc, rfl, hsub, hroom, h⟩
  · rw [h]
    refine iff_of_true (by simp) (fun s s' enc _ hout => ?_)
    omega
  · rw [h]
    exact iff_of_true (fun _ => ⟨rfl, rfl, rfl, rfl⟩) (by simp)
  · rw [h]
    refine iff_of_true (fun _ => ⟨rfl, rfl, rfl, ctx.take_padded⟩) ?_
    rintro t t' enc ht _ hserved
    rw [← Option.some.inj ht, hsub] at hserved
    cases hserved
  · -- the job was served, and the padded block is gone
    have hlen := (be.length_out _ _ _ _ hsub).trans ctx.length_padded
    rw [h]
    constructor
    · intro hsame t t' enc' ht _ hserved
      rw [← Option.some.inj ht, hsub] at hserved
      obtain ⟨_, henc⟩ := Prod.mk.inj hserved
      rw [← Option.some.inj henc, ← ctx.pending_encrypted hlen]
      exact (hsame rfl).pending_eq
    · intro hkeep _
      refine ⟨rfl, rfl, rfl, ?_⟩
      rw [ctx.pending_encrypted hlen]
      exact hkeep s s' enc rfl hsmall hsub
  · rw [h]
    refine iff_of_true (by simp) (fun t t' enc' _ hout => ?_)
    omega

/-- With room and a backend that serves the job, a final emits its part of the ciphertext. -/
lemma streamFinal_of_served {be : Backend σ} {alg : StreamAlg} {s s' : σ} {ctx : Ctx B}
    {enc : List Byte} (hserved : be.submit s (ctx.finalJob alg) = (s', some enc)) {outsize : ℕ}
    (hpos : 0 < ctx.partialLen) (hroom : ctx.partialLen ≤ outsize) :
    let r := streamFinal be alg (some s) ctx outsize
    r.ret = true ∧ r.outl = some ctx.partialLen ∧ r.out = enc.take ctx.partialLen := by
  intro r
  rw [ctx.finalJob_eq alg] at hserved
  rcases streamFinal_cases be alg (some s) ctx outsize with
    ⟨hzero, h⟩ | ⟨_, hnone, h⟩ | ⟨_, t, t', ht, hsub, h⟩ | ⟨_, t, t', enc', ht, hsub, hsmall, h⟩ |
      ⟨_, t, t', enc', ht, hsub, _, h⟩
  · omega
  · cases hnone
  · rw [← Option.some.inj ht, hserved] at hsub
    cases hsub
  · omega
  · rw [← Option.some.inj ht, hserved] at hsub
    obtain ⟨_, henc⟩ := Prod.mk.inj hsub
    rw [show r = _ from h, Option.some.inj henc]
    exact ⟨rfl, rfl, rfl⟩

lemma streamFinal_failed_pos {be : Backend σ} {alg : StreamAlg} {innerBackend : Option σ}
    {ctx : Ctx B} {outsize : ℕ} (hret : (streamFinal be alg innerBackend ctx outsize).ret = false) :
    0 < ctx.partialLen := by
  unfold streamFinal at hret
  split at hret
  · assumption
  · cases hret

/-- After a failed final that keeps the stream, the repeated final emits the ciphertext of the
pending bytes. -/
lemma streamFinal_retry {be : Backend σ} {alg : StreamAlg} {innerBackend : Option σ} {ctx : Ctx B}
    {outsize : ℕ} (hret : (streamFinal be alg innerBackend ctx outsize).ret = false)
    (hsame : ctx.SameStream (streamFinal be alg innerBackend ctx outsize).ctx) {τ : Type}
    {be' : Backend τ} {t t' : τ} {enc : List Byte}
    (hserved : be'.submit t (ctx.finalJob alg) = (t', some enc)) {outsize' : ℕ}
    (hroom : ctx.partialLen ≤ outsize') :
    let r := streamFinal be alg innerBackend ctx outsize
    let retry := streamFinal be' alg (some t) r.ctx outsize'
    retry.ret = true ∧ retry.outl = some ctx.partialLen ∧ retry.out = enc.take ctx.partialLen := by
  intro r
  have hpos := streamFinal_failed_pos hret
  rw [← hsame.partialLen_eq] at hpos hroom ⊢
  rw [← hsame.finalJob_eq] at hserved
  exact streamFinal_of_served hserved hpos hroom

/-- For the body that the two ciphers share. -/
lemma streamFinal_retry_iff (be : Backend σ) (alg : StreamAlg) (innerBackend : Option σ)
    (ctx : Ctx B) (outsize : ℕ) :
    (let r := streamFinal be alg innerBackend ctx outsize
     r.ret = false → ctx.SameStream r.ctx ∧
      ∀ (τ : Type) (be' : Backend τ) (t t' : τ) (enc : List Byte) (outsize' : ℕ),
        ctx.partialLen ≤ outsize' →
        be'.submit t (ctx.finalJob alg) = (t', some enc) →
        let retry := streamFinal be' alg (some t) r.ctx outsize'
        retry.ret = true ∧ retry.outl = some ctx.partialLen ∧
          retry.out = enc.take ctx.partialLen) ↔
      ctx.FinalKeeps be alg innerBackend outsize := by
  have hiff := streamFinal_sameStream_iff be alg innerBackend ctx outsize
  constructor
  · intro h
    exact hiff.mp (fun hret => (h hret).1)
  · intro hcond r hret
    have hsame := hiff.mpr hcond hret
    exact ⟨hsame, fun τ be' t t' enc outsize' hroom hserved =>
      streamFinal_retry hret hsame hserved hroom⟩

/-- When a failed final can be retried: exactly when the check of `outsize` does not fail after a
job that changed the pending bytes does every failure leave the stream alone, and a later final
with room and a working backend return the ciphertext of the pending bytes. -/
theorem vc6_failed_final_retry_iff (be : Backend σ) (innerBackend : Option σ) (outsize : ℕ) :
    (∀ ctx : Vc6AesCtx,
      ((let r := vc6AesFinal be innerBackend ctx outsize
        r.ret = false → ctx.toCtx.SameStream r.ctx.toCtx ∧
          ∀ (τ : Type) (be' : Backend τ) (t t' : τ) (enc : List Byte) (outsize' : ℕ),
            ctx.partialLen ≤ outsize' →
            be'.submit t (ctx.finalJob (vc6AesAlg ctx.keyLen)) = (t', some enc) →
            let retry := vc6AesFinal be' (some t) r.ctx outsize'
            retry.ret = true ∧ retry.outl = some ctx.partialLen ∧
              retry.out = enc.take ctx.partialLen) ↔
        ctx.FinalKeeps be (vc6AesAlg ctx.keyLen) innerBackend outsize)) ∧
    (∀ ctx : Vc6ChachaCtx,
      ((let r := vc6Chacha20Final be innerBackend ctx outsize
        r.ret = false → ctx.SameStream r.ctx ∧
          ∀ (τ : Type) (be' : Backend τ) (t t' : τ) (enc : List Byte) (outsize' : ℕ),
            ctx.partialLen ≤ outsize' →
            be'.submit t (ctx.finalJob vc6Chacha20Alg) = (t', some enc) →
            let retry := vc6Chacha20Final be' (some t) r.ctx outsize'
            retry.ret = true ∧ retry.outl = some ctx.partialLen ∧
              retry.out = enc.take ctx.partialLen) ↔
        ctx.FinalKeeps be vc6Chacha20Alg innerBackend outsize)) := by
  constructor
  · intro ctx
    exact streamFinal_retry_iff be (vc6AesAlg ctx.keyLen) innerBackend ctx.toCtx outsize
  · intro ctx
    exact streamFinal_retry_iff be vc6Chacha20Alg innerBackend ctx outsize

/-- One byte is pending, the block function being the identity. The final without room for it
fails and leaves it encrypted; the repeated final emits it in the clear. -/
theorem vc6_failed_final_retry_leaks :
    ∃ ctx : Vc6AesCtx, ctx.Reachable ∧ ctx.pending = [0x41] ∧
      (let be := Backend.idealAes (fun _ _ counter => counter)
        let r := vc6AesFinal be (some ()) ctx 0
        r.ret = false ∧ r.ctx.pending = [0x41 ^^^ 0xAA] ∧
          (vc6AesFinal be (some ()) ctx 16).out = [0x41 ^^^ 0xAA] ∧
          (vc6AesFinal be (some ()) r.ctx 16).ret = true ∧
          (vc6AesFinal be (some ()) r.ctx 16).out = [0x41]) :=
  ⟨_, .call .scripted (some []) _ (.update ⟨[0x41], by decide⟩)
    (.init _ (some (List.replicate 32 7)) (some (List.replicate 16 0xAA)) (by decide) .newctx),
    by decide, by decide +kernel⟩

end GpuCrypt
