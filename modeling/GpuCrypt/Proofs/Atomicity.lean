import GpuCrypt.Proofs.UpdateOutcomes

/-!
# Updates that fail

An update that returns 0 should leave its context as it was, so that the call can be repeated.
It does so when the failing job is the first one that touches the stream: a top-up before a failed
flush, and a flush before a failed bulk job, both stay behind.
-/

namespace GpuCrypt

open BlockBuffer

variable {σ : Type} {B : ℕ}

/-- The fields that carry the stream: the key, the IV and the pending bytes. -/
structure Ctx.SameStream (ctx ctx' : Ctx B) : Prop where
  key_eq : ctx'.key = ctx.key
  iv_eq : ctx'.iv = ctx.iv
  partialLen_eq : ctx'.partialLen = ctx.partialLen
  pending_eq : ctx'.pending = ctx.pending

/-- The job outcomes under which an update does not leave half of its work behind: there is
nothing to flush, or the flush is of a block that was full already and fails, or it succeeds and
so does the bulk job, if there is one. -/
def Ctx.NoHalfUpdate (be : Backend σ) (alg : StreamAlg) (innerBackend : Option σ) (ctx : Ctx B)
    (input : List Byte) : Prop :=
  ∀ s, innerBackend = some s → 0 < ctx.partialLen → B ≤ ctx.partialLen + input.length →
    match be.submit s (ctx.flushJob alg input) with
    | (_, none) => ctx.partialLen = B
    | (s', some _) => (ctx.rest input).length < B ∨
        (be.submit s' ((ctx.flushed alg input).blocksJob alg (ctx.rest input))).2.isSome

/-- What a failed update leaves is the context it was given exactly under that condition. -/
lemma Updates.eq_of_noHalfUpdate {be : Backend σ} {alg : StreamAlg} {ctx : Ctx B}
    {input : List Byte} {innerBackend : Option σ} {r : CallResult (Ctx B) σ}
    (h : Updates be alg ctx input innerBackend r)
    (hcond : ctx.NoHalfUpdate be alg innerBackend input) (hret : r.ret = false) : r.ctx = ctx := by
  cases h with
  | noBackend => rfl
  | buffered => simp at hret
  | flushFails s s' hpos hfull hflush =>
    have hB := hcond s rfl hpos hfull
    rw [hflush] at hB
    exact ctx.topped_of_full input hB
  | flushes => simp at hret
  | blocksFail => rfl
  | blocks => simp at hret
  | flushesBlocksFail s s' s'' out hpos hfull hflush hblocks =>
    have hsum : B ≤ ctx.partialLen + input.length := by
      rw [Ctx.length_rest] at hfull
      omega
    have hB := hcond s rfl hpos hsum
    rw [hflush] at hB
    simp only [hblocks, Option.isSome_none, Bool.false_eq_true, or_false] at hB
    omega
  | flushesBlocks => simp at hret

lemma Updates.noHalfUpdate_of_partialLen_eq {be : Backend σ} {alg : StreamAlg} {ctx : Ctx B}
    {input : List Byte} {innerBackend : Option σ} {r : CallResult (Ctx B) σ}
    (h : Updates be alg ctx input innerBackend r) (hlen : ctx.partialLen ≤ B)
    (hsame : r.ret = false → r.ctx.partialLen = ctx.partialLen) :
    ctx.NoHalfUpdate be alg innerBackend input := by
  rintro s rfl hpos hfull
  cases h with
  | buffered => omega
  | flushFails _ s' hpos' hfull' hflush =>
    rw [hflush]
    have htop := hsame rfl
    simp only [ctx.partialLen_topped input hlen hfull] at htop
    exact htop.symm
  | flushes _ s' out _ _ hflush hshort =>
    rw [hflush]
    exact .inl hshort
  | blocksFail => omega
  | blocks => omega
  | flushesBlocksFail _ s' s'' out _ _ hflush hblocks =>
    have hzero := hsame rfl
    simp only [Ctx.partialLen_flushed] at hzero
    omega
  | flushesBlocks _ s' s'' out out' _ _ hflush hblocks =>
    rw [hflush]
    exact .inr (by rw [hblocks]; rfl)

/-- When a failed update can be repeated: exactly when no half of an update stays behind does a
failure leave key, IV and pending bytes alone, and the repeated call do what it would have done. -/
theorem vc6_failed_update_atomic_iff (be : Backend σ) (innerBackend : Option σ) (input : Buffer) :
    (∀ ctx : Vc6AesCtx, ctx.Reachable →
      ((let r := vc6AesCipher be innerBackend ctx input.bytes
        r.ret = false → ctx.toCtx.SameStream r.ctx.toCtx ∧
          ∀ (τ : Type) (be' : Backend τ) (t : τ),
            vc6AesCipher be' (some t) r.ctx input.bytes =
              vc6AesCipher be' (some t) ctx input.bytes) ↔
        ctx.toCtx.NoHalfUpdate be (vc6AesAlg ctx.keyLen) innerBackend input.bytes)) ∧
    (∀ ctx : Vc6ChachaCtx, Vc6ChachaReachable ctx →
      ((let r := vc6Chacha20Cipher be innerBackend ctx input.bytes
        r.ret = false → ctx.SameStream r.ctx ∧
          ∀ (τ : Type) (be' : Backend τ) (t : τ),
            vc6Chacha20Cipher be' (some t) r.ctx input.bytes =
              vc6Chacha20Cipher be' (some t) ctx input.bytes) ↔
        ctx.NoHalfUpdate be vc6Chacha20Alg innerBackend input.bytes)) := by
  constructor
  · intro ctx hctx
    have hlen := hctx.partialLen_le
    have hupd := streamCipher_updates be (vc6AesAlg ctx.keyLen) innerBackend ctx.toCtx input.bytes
      (by norm_num) hlen
    constructor
    · intro h
      exact hupd.noHalfUpdate_of_partialLen_eq hlen (fun hret => (h hret).1.partialLen_eq)
    · intro hcond r hret
      have hkeep := hupd.eq_of_noHalfUpdate hcond hret
      have hr : r.ctx = ctx := by
        simp only [r, vc6AesCipher, CallResult.mapCtx, hkeep]
      rw [hr]
      exact ⟨⟨rfl, rfl, rfl, rfl⟩, fun τ be' t => rfl⟩
  · intro ctx hctx
    have hlen := hctx.partialLen_le
    have hupd := streamCipher_updates be vc6Chacha20Alg innerBackend ctx input.bytes
      (by norm_num) hlen
    constructor
    · intro h
      exact hupd.noHalfUpdate_of_partialLen_eq hlen (fun hret => (h hret).1.partialLen_eq)
    · intro hcond r hret
      have hr : r.ctx = ctx := hupd.eq_of_noHalfUpdate hcond hret
      rw [hr]
      exact ⟨⟨rfl, rfl, rfl, rfl⟩, fun τ be' t => rfl⟩

/-- A context with a key and an IV, whose update of 20 bytes fails and leaves it as it was. So does
an update of a context with a full block pending, from a flush that failed before, when the flush
fails once more. -/
theorem vc6_failed_update_atomic_keyed :
    let ctx : Vc6AesCtx :=
      (vc6AesInit .zalloc (some (List.replicate 32 1)) (some (List.replicate 16 2))).2
    let full : Vc6AesCtx := (vc6AesCall .scripted (some [false])
      (vc6AesCall .scripted (some []) ctx (.update ⟨[7], by decide⟩)).ctx
      (.update ⟨List.replicate 15 7, by decide⟩)).ctx
    (let r := vc6AesCipher .scripted (some [false]) ctx (List.replicate 20 7);
      r.ret = false ∧ ctx.SameStream r.ctx.toCtx) ∧
    (let r := vc6AesCipher .scripted (some [false]) full (List.replicate 20 7);
      full.partialLen = 16 ∧ r.ret = false ∧ full.SameStream r.ctx.toCtx) := by
  intro ctx full
  have hctx : ctx.Reachable := .init _ _ _ (by decide) .newctx
  have hfull : full.Reachable := .call _ _ _ _ (.call _ _ _ _ hctx)
  have hiff := (vc6_failed_update_atomic_iff .scripted (some [false])
    ⟨List.replicate 20 7, by decide⟩).1
  have hpending : full.partialLen = 16 := by decide
  refine ⟨⟨by decide, ((hiff ctx hctx).mpr ?_ (by decide)).1⟩, hpending, by decide,
    ((hiff full hfull).mpr ?_ (by decide)).1⟩
  · exact fun _ _ hpos => absurd hpos (by decide)
  · rintro s hs - -
    obtain rfl := Option.some.inj hs
    exact hpending

/-- One byte is pending. If the flush fails, the context has swallowed the bytes that topped up
the block; if the bulk job after it fails, the flushed block is gone and the IV has moved on. -/
theorem vc6_failed_update_not_atomic :
    ∃ ctx : Vc6AesCtx, ctx.Reachable ∧ ctx.partialLen = 1 ∧
      (let r := vc6AesCipher .scripted (some [false]) ctx (List.replicate 15 7);
        r.ret = false ∧ r.ctx.partialLen = 16) ∧
      (let r := vc6AesCipher .scripted (some [true, false]) ctx (List.replicate 31 7);
        r.ret = false ∧ r.ctx.partialLen = 0 ∧ r.ctx.iv ≠ ctx.iv) :=
  ⟨_, .call .scripted (some []) _ (.update ⟨[7], by decide⟩)
    (.init _ (some (List.replicate 32 1)) (some (List.replicate 16 2)) (by decide) .newctx),
    by decide, by decide, by decide⟩

end GpuCrypt
