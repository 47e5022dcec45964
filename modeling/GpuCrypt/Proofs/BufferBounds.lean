import GpuCrypt.Model.BufferWrites
import GpuCrypt.Proofs.StreamEnds

/-!
# The bounds of the partial buffer

The loop that buffers the tail of an update has no check of its own: it relies on what the two
phases before it leave. A failed job can leave the buffer full, which no successful call does, so
`partial_len ≤ B` is all that holds between calls, and the top-up and the padding must do with it.
-/

namespace GpuCrypt

variable {σ : Type} {B : ℕ}

section Writes

variable {α : Type} {n : ℕ}

lemma applyWrites_append (v : Vector α n) (xs ys : List (α × ℕ)) :
    applyWrites v (xs ++ ys) = applyWrites (applyWrites v xs) ys := by
  simp only [applyWrites, List.foldl_append]

/-- Writing a list from `start` on leaves the other elements alone. -/
lemma getElem?_applyWrites_zipIdx (v : Vector α n) (l : List α) (start i : ℕ) (hi : i < n) :
    (applyWrites v (l.zipIdx start))[i]? =
      if start ≤ i ∧ i < start + l.length then l[i - start]? else v[i]? := by
  induction l generalizing v start with
  | nil => simp [applyWrites]
  | cons a l ih =>
    have hstep : applyWrites v ((a :: l).zipIdx start) =
        applyWrites (v.setIfInBounds start a) (l.zipIdx (start + 1)) := rfl
    rw [hstep, ih]
    by_cases heq : i = start
    · subst heq
      simp [hi]
    · rw [Vector.getElem?_setIfInBounds_ne (Ne.symm heq)]
      by_cases hin : start ≤ i ∧ i < start + (a :: l).length
      · have hsub : i - start = i - (start + 1) + 1 := by omega
        rw [List.length_cons] at hin
        rw [if_pos (by omega), if_pos (by simpa using hin), hsub, List.getElem?_cons_succ]
      · rw [List.length_cons] at hin
        rw [if_neg (by omega), if_neg (by simpa using hin)]

lemma eq_applyWrites_zipIdx {v v' : Vector α n} {l : List α} {start : ℕ}
    (h : ∀ i, i < n →
      v'[i]? = if start ≤ i ∧ i < start + l.length then l[i - start]? else v[i]?) :
    v' = applyWrites v (l.zipIdx start) := by
  apply Vector.ext
  intro i hi
  apply Option.some.inj
  rw [← Vector.getElem?_eq_getElem hi, ← Vector.getElem?_eq_getElem hi, h i hi,
    getElem?_applyWrites_zipIdx v l start i hi]

lemma snd_lt_of_mem_zipIdx {l : List α} {start : ℕ} {w : α × ℕ} (hw : w ∈ l.zipIdx start) :
    w.2 < start + l.length := by
  have h := List.mem_zipIdx hw
  omega

end Writes

lemma Ctx.bufferRestWrites_eq (ctx : Ctx B) (d : List Byte) :
    ctx.bufferRestWrites d = d.zipIdx ctx.partialLen := by
  induction d generalizing ctx with
  | nil => rfl
  | cons b d ih =>
    rw [Ctx.bufferRestWrites, ih]
    rfl

lemma Ctx.partialBuf_bufferRest (ctx : Ctx B) (d : List Byte) :
    (ctx.bufferRest d).partialBuf = applyWrites ctx.partialBuf (ctx.bufferRestWrites d) := by
  induction d generalizing ctx with
  | nil => rfl
  | cons b d ih =>
    rw [Ctx.bufferRest, ih]
    rfl

/-- The top-up stops at the end of the buffer. -/
lemma Ctx.topUpWrites_eq (ctx : Ctx B) (input : List Byte) :
    ctx.topUpWrites input = ctx.bufferRestWrites (input.take (B - ctx.partialLen)) := by
  induction input generalizing ctx with
  | nil => simp [Ctx.topUpWrites, Ctx.bufferRestWrites]
  | cons b rest ih =>
    by_cases h : ctx.partialLen < B
    · have hsucc : B - ctx.partialLen = B - (ctx.push b).partialLen + 1 := by
        simp only [Ctx.push]
        omega
      rw [Ctx.topUpWrites, if_pos h, ih, hsucc, List.take_succ_cons, Ctx.bufferRestWrites]
    · have hzero : B - ctx.partialLen = 0 := by omega
      rw [Ctx.topUpWrites, if_neg h, hzero, List.take_zero, Ctx.bufferRestWrites]

lemma Ctx.lt_of_mem_topUpWrites {ctx : Ctx B} {input : List Byte} {w : Byte × ℕ}
    (hw : w ∈ ctx.topUpWrites input) : w.2 < B := by
  rw [ctx.topUpWrites_eq, ctx.bufferRestWrites_eq] at hw
  have hlt := snd_lt_of_mem_zipIdx hw
  have hle := List.mem_zipIdx hw
  rw [List.length_take] at hlt
  omega

/-- What phase 1 writes. -/
def Ctx.flushWrites (ctx : Ctx B) (input : List Byte) : List (Byte × ℕ) :=
  if 0 < ctx.partialLen then ctx.topUpWrites input else []

lemma Ctx.lt_of_mem_flushWrites {ctx : Ctx B} {input : List Byte} {w : Byte × ℕ}
    (hw : w ∈ ctx.flushWrites input) : w.2 < B := by
  unfold Ctx.flushWrites at hw
  split at hw
  · exact Ctx.lt_of_mem_topUpWrites hw
  · cases hw

/-- Phase 1 leaves the buffer that its writes make, whether or not its job fails. -/
lemma flushPartial_partialBuf (be : Backend σ) (alg : StreamAlg) (p : Progress B σ) :
    match flushPartial be alg p with
    | .error q => q.ctx.partialBuf = applyWrites p.ctx.partialBuf (p.ctx.flushWrites p.input)
    | .ok q => q.ctx.partialBuf = applyWrites p.ctx.partialBuf (p.ctx.flushWrites p.input) := by
  have htop : (p.ctx.topUp p.input).1.partialBuf =
      applyWrites p.ctx.partialBuf (p.ctx.topUpWrites p.input) := by
    rw [p.ctx.topUp_eq, p.ctx.topUpWrites_eq, Ctx.partialBuf_bufferRest]
  unfold flushPartial Ctx.flushWrites
  by_cases hpos : 0 < p.ctx.partialLen
  · rw [if_pos hpos, if_pos hpos]
    dsimp only
    by_cases hfull : (p.ctx.topUp p.input).1.partialLen = B
    · rw [if_pos hfull]
      rcases be.submit p.backend _ with ⟨s', _ | out⟩ <;> exact htop
    · rw [if_neg hfull]
      exact htop
  · rw [if_neg hpos, if_neg hpos]
    rfl

/-- Phase 2 does not write to the buffer. -/
lemma fullBlocks_partialBuf (be : Backend σ) (alg : StreamAlg) (p : Progress B σ) :
    match fullBlocks be alg p with
    | .error q => q.ctx.partialBuf = p.ctx.partialBuf
    | .ok q => q.ctx.partialBuf = p.ctx.partialBuf := by
  unfold fullBlocks
  by_cases hfull : B ≤ p.input.length
  · rw [if_pos hfull]
    dsimp only
    rcases be.submit p.backend _ with ⟨s', _ | out⟩ <;> rfl
  · rw [if_neg hfull]

/-- The writes of a call stay in the buffer and make the buffer that it leaves. -/
structure Ctx.WritesTo (ctx : Ctx B) (writes : List (Byte × ℕ)) (ctx' : Ctx B) : Prop where
  lt : ∀ w ∈ writes, w.2 < B
  partialBuf_eq : ctx'.partialBuf = applyWrites ctx.partialBuf writes

lemma streamCipher_writesTo [NeZero B] (be : Backend σ) (alg : StreamAlg)
    (innerBackend : Option σ) {ctx : Ctx B} (hlen : ctx.partialLen ≤ B) (input : List Byte) :
    ctx.WritesTo (streamCipherWrites be alg innerBackend ctx input)
      (streamCipher be alg innerBackend ctx input).ctx := by
  have hB : 0 < B := Nat.pos_of_neZero B
  have hupd := streamCipher_updates be alg innerBackend ctx input hB hlen
  obtain ⟨_, hbound⟩ := hupd.partialLen_le hB hlen
  cases innerBackend with
  | none => exact ⟨by simp [streamCipherWrites], rfl⟩
  | some s =>
    have hflush := flushPartial_partialBuf be alg (.start s ctx input)
    have hwrites : streamCipherWrites be alg (some s) ctx input = ctx.flushWrites input ++
        match (flushPartial be alg (.start s ctx input)).bind (fullBlocks be alg) with
        | .error _ => []
        | .ok p => p.ctx.bufferRestWrites p.input := rfl
    rcases hphase1 : flushPartial be alg (.start s ctx input) with p | p
    · rw [hphase1] at hflush
      rw [hwrites, hphase1, streamCipher_of_error hphase1]
      simp only [Except.bind, List.append_nil]
      exact ⟨fun w hw => Ctx.lt_of_mem_flushWrites hw, hflush⟩
    · rw [hphase1] at hflush
      have hblocks := fullBlocks_partialBuf be alg p
      rcases hphase2 : fullBlocks be alg p with q | q
      · rw [hphase2] at hblocks
        rw [hwrites, hphase1, streamCipher_of_ok_error hphase1 hphase2]
        simp only [Except.bind, hphase2, List.append_nil]
        exact ⟨fun w hw => Ctx.lt_of_mem_flushWrites hw, hblocks.trans hflush⟩
      · -- the tail loop ends where `partial_len` does, and that is within the buffer
        rw [hphase2] at hblocks
        rw [streamCipher_of_ok hphase1 hphase2] at hbound
        have hend := hbound rfl
        rw [hwrites, hphase1, streamCipher_of_ok hphase1 hphase2]
        simp only [Except.bind, hphase2]
        simp only [Ctx.bufferRest_partialLen] at hend
        constructor
        · intro w hw
          rcases List.mem_append.mp hw with hw | hw
          · exact Ctx.lt_of_mem_flushWrites hw
          · rw [Ctx.bufferRestWrites_eq] at hw
            have hlt := snd_lt_of_mem_zipIdx hw
            omega
        · rw [Ctx.partialBuf_bufferRest, applyWrites_append, hblocks, hflush]
          rfl

lemma Ctx.zeroPad_partialBuf (ctx : Ctx B) :
    ctx.zeroPad.partialBuf = applyWrites ctx.partialBuf
      ((List.replicate (B - ctx.partialLen) 0).zipIdx ctx.partialLen) := by
  apply eq_applyWrites_zipIdx
  intro i hi
  rw [List.length_replicate]
  by_cases hlow : i < ctx.partialLen
  · rw [if_neg (by omega)]
    simp [Ctx.zeroPad, hi, hlow]
  · rw [if_pos (by omega), List.getElem?_replicate_of_lt (by omega)]
    simp [Ctx.zeroPad, hi, hlow]

lemma overlay_eq_applyWrites {n : ℕ} (v : Vector Byte n) (l : List Byte) :
    overlay v l = applyWrites v l.zipIdx := by
  apply eq_applyWrites_zipIdx
  intro i hi
  by_cases hin : i < l.length <;> simp [overlay, hi, hin]

lemma streamFinal_writesTo (be : Backend σ) (alg : StreamAlg) (innerBackend : Option σ)
    {ctx : Ctx B} (hlen : ctx.partialLen ≤ B) (outsize : ℕ) :
    ctx.WritesTo (streamFinalWrites be alg innerBackend ctx)
      (streamFinal be alg innerBackend ctx outsize).ctx := by
  have hpad : ∀ w ∈ (List.replicate (B - ctx.partialLen) (0 : Byte)).zipIdx ctx.partialLen,
      w.2 < B := by
    intro w hw
    have hlt := snd_lt_of_mem_zipIdx hw
    rw [List.length_replicate] at hlt
    omega
  have hjob : ∀ enc : List Byte, enc.length = B → ctx.WritesTo
      ((List.replicate (B - ctx.partialLen) 0).zipIdx ctx.partialLen ++ enc.zipIdx)
      (ctx.encrypted enc) := by
    intro enc henc
    constructor
    · intro w hw
      rcases List.mem_append.mp hw with hw | hw
      · exact hpad w hw
      · have hlt := snd_lt_of_mem_zipIdx hw
        omega
    · rw [applyWrites_append, ← ctx.zeroPad_partialBuf, ← overlay_eq_applyWrites]
      rfl
  have hsubmit : ctx.zeroPad.job alg ctx.zeroPad.partialBuf.toList = ctx.job alg ctx.padded := rfl
  unfold streamFinalWrites
  rcases streamFinal_cases be alg innerBackend ctx outsize with
    ⟨hzero, h⟩ | ⟨hpos, rfl, h⟩ | ⟨hpos, s, s', rfl, hsub, h⟩ |
      ⟨hpos, s, s', enc, rfl, hsub, _, h⟩ | ⟨hpos, s, s', enc, rfl, hsub, _, h⟩
  · rw [h, if_neg (by omega)]
    exact ⟨by simp, rfl⟩
  · rw [h, if_pos hpos]
    exact ⟨by simp, rfl⟩
  · rw [h, if_pos hpos]
    simp only [hsubmit, hsub, List.append_nil]
    exact ⟨hpad, ctx.zeroPad_partialBuf⟩
  all_goals
    rw [h, if_pos hpos]
    simp only [hsubmit, hsub]
    exact hjob enc ((be.length_out _ _ _ _ hsub).trans ctx.length_padded)

/-- What an update that returns 1 reports: less than a block is pending, and whole blocks came out
for the other bytes. -/
structure Ctx.Accounts (ctx : Ctx B) (input : List Byte) (outl : Option ℕ) (ctx' : Ctx B) :
    Prop where
  partialLen_lt : ctx'.partialLen < B
  outl_eq : ∃ n, outl = some n ∧ B ∣ n ∧ n + ctx'.partialLen = ctx.partialLen + input.length

lemma streamCipher_accounts [NeZero B] (be : Backend σ) (alg : StreamAlg)
    (innerBackend : Option σ) {ctx : Ctx B} (hlen : ctx.partialLen ≤ B) (input : List Byte)
    (hret : (streamCipher be alg innerBackend ctx input).ret = true) :
    ctx.Accounts input (streamCipher be alg innerBackend ctx input).outl
      (streamCipher be alg innerBackend ctx input).ctx := by
  have hB : 0 < B := Nat.pos_of_neZero B
  have hupd := streamCipher_updates be alg innerBackend ctx input hB hlen
  obtain ⟨houtl, hdvd, hsum⟩ := hupd.accounting hlen hret
  exact ⟨(hupd.partialLen_le hB hlen).2 hret, _, houtl, hdvd, hsum⟩

/-- For the bodies that the two ciphers share. -/
lemma streamCalls_bounds [NeZero B] (alg : StreamAlg) {ctx : Ctx B} (hlen : ctx.partialLen ≤ B)
    (be : Backend σ) (innerBackend : Option σ) :
    (∀ input : Buffer,
      let r := streamCipher be alg innerBackend ctx input.bytes
      ctx.WritesTo (streamCipherWrites be alg innerBackend ctx input.bytes) r.ctx ∧
        (r.ret = true → ctx.Accounts input.bytes r.outl r.ctx)) ∧
    ∀ outsize, ctx.WritesTo (streamFinalWrites be alg innerBackend ctx)
      (streamFinal be alg innerBackend ctx outsize).ctx := by
  refine ⟨fun input => ⟨?_, ?_⟩, fun outsize => ?_⟩
  · exact streamCipher_writesTo be alg innerBackend hlen input.bytes
  · exact streamCipher_accounts be alg innerBackend hlen input.bytes
  · exact streamFinal_writesTo be alg innerBackend hlen outsize

/-- Whatever calls there were and whatever the jobs did, `partial_len` is within the buffer, the
next update or final writes within it only, and an update that returns 1 accounts for its bytes. -/
theorem vc6_buffer_bounds :
    (∀ ctx : Vc6AesCtx, ctx.Reachable →
      ctx.partialLen ≤ 16 ∧
        ∀ (σ : Type) (be : Backend σ) (innerBackend : Option σ),
          (∀ input : Buffer,
            let r := vc6AesCipher be innerBackend ctx input.bytes
            ctx.toCtx.WritesTo (vc6AesCipherWrites be innerBackend ctx input.bytes) r.ctx.toCtx ∧
              (r.ret = true → ctx.toCtx.Accounts input.bytes r.outl r.ctx.toCtx)) ∧
          ∀ outsize, ctx.toCtx.WritesTo (vc6AesFinalWrites be innerBackend ctx)
            (vc6AesFinal be innerBackend ctx outsize).ctx.toCtx) ∧
    (∀ ctx : Vc6ChachaCtx, Vc6ChachaReachable ctx →
      ctx.partialLen ≤ 64 ∧
        ∀ (σ : Type) (be : Backend σ) (innerBackend : Option σ),
          (∀ input : Buffer,
            let r := vc6Chacha20Cipher be innerBackend ctx input.bytes
            ctx.WritesTo (vc6Chacha20CipherWrites be innerBackend ctx input.bytes) r.ctx ∧
              (r.ret = true → ctx.Accounts input.bytes r.outl r.ctx)) ∧
          ∀ outsize, ctx.WritesTo (vc6Chacha20FinalWrites be innerBackend ctx)
            (vc6Chacha20Final be innerBackend ctx outsize).ctx) := by
  constructor
  · intro ctx hctx
    have hlen := hctx.partialLen_le
    exact ⟨hlen, fun σ => streamCalls_bounds (vc6AesAlg ctx.keyLen) hlen⟩
  · intro ctx hctx
    have hlen := hctx.partialLen_le
    exact ⟨hlen, fun σ => streamCalls_bounds vc6Chacha20Alg hlen⟩

/-- The context that a failed job leaves with a full buffer. -/
def Vc6AesCtx.full : Vc6AesCtx :=
  let ctx := (vc6AesCall .scripted (some []) Vc6AesCtx.zalloc (.update ⟨[7], by decide⟩)).ctx
  (vc6AesCall .scripted (some [false]) ctx (.update ⟨List.replicate 20 7, by decide⟩)).ctx

/-- The next update has nothing to top up, and its 20 bytes come after the full block. -/
theorem vc6_buffer_bounds_full :
    Vc6AesCtx.full.partialLen = 16 ∧
      Vc6AesCtx.full.toCtx.Accounts (List.replicate 20 7)
        (vc6AesCipher .scripted (some [true, true]) Vc6AesCtx.full (List.replicate 20 7)).outl
        (vc6AesCipher .scripted (some [true, true]) Vc6AesCtx.full
          (List.replicate 20 7)).ctx.toCtx :=
  ⟨by decide, (((vc6_buffer_bounds.1 Vc6AesCtx.full (.call _ _ _ _ (.call _ _ _ _ .newctx))).2 _
    .scripted (some [true, true])).1 ⟨List.replicate 20 7, by decide⟩).2 (by decide)⟩

end GpuCrypt
