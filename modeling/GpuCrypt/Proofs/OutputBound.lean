import GpuCrypt.Proofs.UpdateOutcomes

/-!
# How much an update writes

An update writes whole blocks of what was pending followed by its input, so up to a block less one
byte more than its input. OpenSSL allows for that when the cipher advertises its block size; the
AES ciphers do, ChaCha20 advertises a block size of 1.
-/

namespace GpuCrypt

open BlockBuffer

variable {σ : Type} {B : ℕ}

/-- The room that OpenSSL gives an update, by the block size that the cipher advertises. -/
def evpOutsize (params : CipherParams) (inl : ℕ) : ℕ :=
  if params.blockSize = 1 then inl else inl + params.blockSize

/-- What the call writes and what it reports fit in `outsize`. -/
def CallResult.Fits {γ : Type} (r : CallResult γ σ) (outsize : ℕ) : Prop :=
  r.out.length ≤ outsize ∧ ∀ n, r.outl = some n → n ≤ outsize

/-- The update flushes the partial block, and no job of it fails. -/
def Ctx.Flushes (be : Backend σ) (alg : StreamAlg) (innerBackend : Option σ) (ctx : Ctx B)
    (input : List Byte) : Prop :=
  0 < ctx.partialLen ∧ B ≤ ctx.partialLen + input.length ∧
    ∃ s s' out, innerBackend = some s ∧
      be.submit s (ctx.flushJob alg input) = (s', some out) ∧
      ((ctx.rest input).length < B ∨
        (be.submit s' ((ctx.flushed alg input).blocksJob alg (ctx.rest input))).2.isSome)

lemma length_flushJob (alg : StreamAlg) (ctx : Ctx B) (input : List Byte)
    (hlen : ctx.partialLen ≤ B) (hfull : B ≤ ctx.partialLen + input.length) :
    (ctx.flushJob alg input).input.length = B := by
  simp only [Ctx.flushJob, Ctx.job, List.length_append, List.length_take, ctx.length_pending hlen]
  omega

lemma length_blocksJob (alg : StreamAlg) (ctx : Ctx B) (input : List Byte) :
    (ctx.blocksJob alg input).input.length = whole B input.length := by
  have h := whole_le B input.length
  simp only [Ctx.blocksJob, Ctx.job, List.length_take]
  omega

/-- Without a completed flush an update writes no more than its input; with one, it writes the
whole blocks of the pending bytes and the input. -/
lemma Updates.length_out {be : Backend σ} {alg : StreamAlg} {ctx : Ctx B} {input : List Byte}
    {innerBackend : Option σ} {r : CallResult (Ctx B) σ}
    (h : Updates be alg ctx input innerBackend r) (hB : 0 < B) (hlen : ctx.partialLen ≤ B) :
    (¬ctx.Flushes be alg innerBackend input → r.Fits input.length) ∧
      (ctx.Flushes be alg innerBackend input →
        r.out.length = whole B (ctx.partialLen + input.length) ∧ r.outl = some r.out.length) := by
  have hwhole := whole_le B input.length
  cases h with
  | noBackend =>
    refine ⟨fun _ => ⟨Nat.zero_le _, by simp⟩, ?_⟩
    rintro ⟨_, _, s, s', out, hs, _⟩
    simp at hs
  | buffered s hshort =>
    refine ⟨fun _ => ⟨Nat.zero_le _, by simp⟩, ?_⟩
    rintro ⟨_, hfull, _⟩
    omega
  | flushFails s s' hpos hfull hflush =>
    refine ⟨fun _ => ⟨Nat.zero_le _, by simp⟩, ?_⟩
    rintro ⟨_, _, t, t', out, hs, hsub, _⟩
    obtain rfl := Option.some.inj hs
    simp [hflush] at hsub
  | flushes s s' out hpos hfull hflush hshort =>
    have hout := (be.length_out _ _ _ _ hflush).trans (length_flushJob alg ctx input hlen hfull)
    have hsum : whole B (ctx.partialLen + input.length) = B := by
      rw [Ctx.length_rest] at hshort
      have hsplit :
          ctx.partialLen + input.length = B * 1 + (ctx.partialLen + input.length - B) := by omega
      rw [hsplit, whole_mul_add hB, whole_of_lt (by omega), Nat.mul_one, Nat.add_zero]
    refine ⟨fun hno => absurd ⟨hpos, hfull, s, s', out, rfl, hflush, .inl hshort⟩ hno, fun _ => ?_⟩
    exact ⟨hout.trans hsum.symm, congrArg some hout.symm⟩
  | blocksFail s s' hzero hfull hblocks =>
    refine ⟨fun _ => ⟨Nat.zero_le _, by simp⟩, ?_⟩
    rintro ⟨hpos, _⟩
    omega
  | blocks s s' out hzero hfull hblocks =>
    have hout := (be.length_out _ _ _ _ hblocks).trans (length_blocksJob alg ctx input)
    refine ⟨fun _ => ⟨hout.trans_le hwhole, ?_⟩, ?_⟩
    · rintro n hn
      obtain rfl := Option.some.inj hn
      exact hwhole
    · rintro ⟨hpos, _⟩
      omega
  | flushesBlocksFail s s' s'' out hpos hfull hflush hblocks =>
    rw [Ctx.length_rest] at hfull
    have hout := (be.length_out _ _ _ _ hflush).trans
      (length_flushJob alg ctx input hlen (by omega))
    refine ⟨fun _ => ⟨by simp only [hout]; omega, by simp⟩, ?_⟩
    rintro ⟨_, _, t, t', out', hs, hsub, hrest⟩
    obtain rfl := Option.some.inj hs
    rw [hflush, Prod.mk.injEq] at hsub
    obtain ⟨rfl, _⟩ := hsub
    rw [hblocks, Ctx.length_rest] at hrest
    simp only [Option.isSome_none, Bool.false_eq_true, or_false] at hrest
    omega
  | flushesBlocks s s' s'' out out' hpos hfull hflush hblocks =>
    have hrest := ctx.length_rest input
    have hsum : B ≤ ctx.partialLen + input.length := by omega
    have hout := (be.length_out _ _ _ _ hflush).trans (length_flushJob alg ctx input hlen hsum)
    have hout' := (be.length_out _ _ _ _ hblocks).trans (length_blocksJob alg _ _)
    have hall : whole B (ctx.partialLen + input.length) = B + whole B (ctx.rest input).length := by
      have hsplit : ctx.partialLen + input.length = B * 1 + (ctx.rest input).length := by omega
      rw [hsplit, whole_mul_add hB, Nat.mul_one]
    have hsome : (be.submit s' ((ctx.flushed alg input).blocksJob alg (ctx.rest input))).2.isSome :=
      by rw [hblocks]; rfl
    refine ⟨fun hno => absurd ⟨hpos, hsum, s, s', out, rfl, hflush, .inr hsome⟩ hno, fun _ => ?_⟩
    simp only [List.length_append, hout, hout', hall, and_self]

/-- With a block of room to spare, an update always fits. -/
lemma Updates.fits_add_block {be : Backend σ} {alg : StreamAlg} {ctx : Ctx B} {input : List Byte}
    {innerBackend : Option σ} {r : CallResult (Ctx B) σ}
    (h : Updates be alg ctx input innerBackend r) (hB : 0 < B) (hlen : ctx.partialLen ≤ B) :
    r.Fits (input.length + B) := by
  obtain ⟨hno, hyes⟩ := h.length_out hB hlen
  by_cases hflush : ctx.Flushes be alg innerBackend input
  · have hwhole := whole_le B (ctx.partialLen + input.length)
    obtain ⟨hout, houtl⟩ := hyes hflush
    refine ⟨by omega, fun n hn => ?_⟩
    rw [houtl] at hn
    obtain rfl := Option.some.inj hn
    omega
  · obtain ⟨hout, houtl⟩ := hno hflush
    exact ⟨by omega, fun n hn => (houtl n hn).trans (Nat.le_add_right _ _)⟩

/-- With no room to spare, it fits unless it flushes and leaves fewer bytes pending than there
were. -/
lemma Updates.fits_iff {be : Backend σ} {alg : StreamAlg} {ctx : Ctx B} {input : List Byte}
    {innerBackend : Option σ} {r : CallResult (Ctx B) σ}
    (h : Updates be alg ctx input innerBackend r) (hB : 0 < B) (hlen : ctx.partialLen ≤ B) :
    r.Fits input.length ↔ (ctx.Flushes be alg innerBackend input →
      ctx.partialLen ≤ (ctx.partialLen + input.length) % B) := by
  obtain ⟨hno, hyes⟩ := h.length_out hB hlen
  have hmod := whole_add_mod B (ctx.partialLen + input.length)
  constructor
  · rintro ⟨hle, _⟩ hflush
    have hout := (hyes hflush).1
    omega
  · intro hcond
    by_cases hflush : ctx.Flushes be alg innerBackend input
    · have hle := hcond hflush
      obtain ⟨hout, houtl⟩ := hyes hflush
      refine ⟨by omega, fun n hn => ?_⟩
      rw [houtl] at hn
      obtain rfl := Option.some.inj hn
      omega
    · exact hno hflush

/-- An update of the AES ciphers never writes past the output it was given. One of ChaCha20 does
exactly when it flushes its partial block and leaves fewer bytes pending than there were. -/
theorem vc6_update_fits_iff (be : Backend σ) (innerBackend : Option σ) (input : Buffer) :
    (∀ ctx : Vc6AesCtx, ctx.Reachable →
      (vc6AesCipher be innerBackend ctx input.bytes).Fits
          (evpOutsize vc6Aes128GetParams input.bytes.length) ∧
        (vc6AesCipher be innerBackend ctx input.bytes).Fits
          (evpOutsize vc6Aes256GetParams input.bytes.length)) ∧
    (∀ ctx : Vc6ChachaCtx, Vc6ChachaReachable ctx →
      ((vc6Chacha20Cipher be innerBackend ctx input.bytes).Fits
          (evpOutsize vc6Chacha20GetParams input.bytes.length) ↔
        (ctx.Flushes be vc6Chacha20Alg innerBackend input.bytes →
          ctx.partialLen ≤ (ctx.partialLen + input.bytes.length) % 64))) := by
  constructor
  · intro ctx hctx
    have hupd := streamCipher_updates be (vc6AesAlg ctx.keyLen) innerBackend ctx.toCtx input.bytes
      (by norm_num) hctx.partialLen_le
    exact ⟨hupd.fits_add_block (by norm_num) hctx.partialLen_le,
      hupd.fits_add_block (by norm_num) hctx.partialLen_le⟩
  · intro ctx hctx
    exact (streamCipher_updates be vc6Chacha20Alg innerBackend ctx input.bytes (by norm_num)
      hctx.partialLen_le).fits_iff (by norm_num) hctx.partialLen_le

/-- One byte is pending and 64 follow: the block is flushed, and one byte is pending again. -/
theorem vc6_update_fits_pending :
    let ctx := (vc6Chacha20Call .scripted (some [])
      (vc6Chacha20Init (Ctx.zalloc 64) (some (List.replicate 32 1)) (some (List.replicate 16 2))).2
      (.update ⟨[7], by decide⟩)).ctx
    let r := vc6Chacha20Cipher .scripted (some [true]) ctx (List.replicate 64 7)
    ctx.partialLen = 1 ∧ r.outl = some 64 ∧ r.Fits (evpOutsize vc6Chacha20GetParams 64) := by
  intro ctx r
  have hpending : ctx.partialLen = 1 := by decide
  have hctx : Vc6ChachaReachable ctx := .call _ _ _ _ (.init _ _ _ .newctx)
  refine ⟨hpending, by decide +kernel, ((vc6_update_fits_iff .scripted (some [true])
    ⟨List.replicate 64 7, by decide⟩).2 ctx hctx).mpr (fun _ => ?_)⟩
  rw [hpending]
  decide

/-- One byte is pending and 63 follow: ChaCha20 writes 64 bytes where OpenSSL left room for 63. -/
theorem vc6_chacha20_update_overflows :
    ∃ ctx : Vc6ChachaCtx, Vc6ChachaReachable ctx ∧
      ¬(vc6Chacha20Cipher .scripted (some [true]) ctx (List.replicate 63 7)).Fits
        (evpOutsize vc6Chacha20GetParams 63) := by
  refine ⟨_, .call .scripted (some []) _ (.update ⟨[7], by decide⟩)
    (.init _ (some (List.replicate 32 1)) (some (List.replicate 16 2)) .newctx), ?_⟩
  intro h
  exact absurd h.1 (by decide +kernel)

end GpuCrypt
