import GpuCrypt.Model.Ciphers
import GpuCrypt.Lib.BlockBuffer

/-!
# The buffering code, phase by phase

What the loops of an update do to the partial block, and, for each of the two phases that submit
a job, the complete list of its outcomes over an arbitrary backend. Later files follow an update
through `flushPartial_cases` and `fullBlocks_cases` and do not unfold the phases again.
-/

namespace GpuCrypt

variable {σ : Type} {B : ℕ}

/-- The bytes absorbed but not encrypted yet, `partial_buf[0..partial_len)`. -/
def Ctx.pending (ctx : Ctx B) : List Byte := ctx.partialBuf.toList.take ctx.partialLen

lemma Ctx.length_pending (ctx : Ctx B) (h : ctx.partialLen ≤ B) :
    ctx.pending.length = ctx.partialLen := by
  simp only [Ctx.pending, List.length_take, Vector.length_toList]
  omega

lemma Ctx.pending_of_full (ctx : Ctx B) (h : ctx.partialLen = B) :
    ctx.pending = ctx.partialBuf.toList := by
  rw [Ctx.pending, h, List.take_of_length_le (by simp)]

lemma Ctx.pending_of_zero (ctx : Ctx B) (h : ctx.partialLen = 0) : ctx.pending = [] := by
  rw [Ctx.pending, h, List.take_zero]

lemma Ctx.pending_push (ctx : Ctx B) (b : Byte) (h : ctx.partialLen < B) :
    (ctx.push b).pending = ctx.pending ++ [b] := by
  have hlen : ctx.partialLen < (ctx.partialBuf.toList.set ctx.partialLen b).length := by
    simpa using h
  simp only [Ctx.pending, Ctx.push, Vector.toList_setIfInBounds]
  rw [List.take_succ_eq_append_getElem hlen, List.take_set_of_le le_rfl, List.getElem_set_self]

/-! ### The loops -/

@[simp] lemma Ctx.bufferRest_key (ctx : Ctx B) (d : List Byte) :
    (ctx.bufferRest d).key = ctx.key := by
  induction d generalizing ctx with
  | nil => rfl
  | cons b d ih => exact ih (ctx.push b)

@[simp] lemma Ctx.bufferRest_iv (ctx : Ctx B) (d : List Byte) :
    (ctx.bufferRest d).iv = ctx.iv := by
  induction d generalizing ctx with
  | nil => rfl
  | cons b d ih => exact ih (ctx.push b)

@[simp] lemma Ctx.bufferRest_partialLen (ctx : Ctx B) (d : List Byte) :
    (ctx.bufferRest d).partialLen = ctx.partialLen + d.length := by
  induction d generalizing ctx with
  | nil => rfl
  | cons b d ih =>
    rw [Ctx.bufferRest, ih, List.length_cons]
    simp only [Ctx.push]
    omega

lemma Ctx.pending_bufferRest (ctx : Ctx B) (d : List Byte) (h : ctx.partialLen + d.length ≤ B) :
    (ctx.bufferRest d).pending = ctx.pending ++ d := by
  induction d generalizing ctx with
  | nil => simp [Ctx.bufferRest]
  | cons b d ih =>
    rw [List.length_cons] at h
    rw [Ctx.bufferRest, ih _ (by simp only [Ctx.push]; omega), ctx.pending_push b (by omega),
      List.append_assoc, List.singleton_append]

/-- The `while` loop buffers what still fits and leaves the rest of the input. -/
lemma Ctx.topUp_eq (ctx : Ctx B) (input : List Byte) :
    ctx.topUp input =
      (ctx.bufferRest (input.take (B - ctx.partialLen)), input.drop (B - ctx.partialLen)) := by
  induction input generalizing ctx with
  | nil => simp [Ctx.topUp, Ctx.bufferRest]
  | cons b rest ih =>
    by_cases h : ctx.partialLen < B
    · have hsucc : B - ctx.partialLen = B - (ctx.push b).partialLen + 1 := by
        simp only [Ctx.push]
        omega
      rw [Ctx.topUp, if_pos h, ih, hsucc, List.take_succ_cons, List.drop_succ_cons, Ctx.bufferRest]
    · have hzero : B - ctx.partialLen = 0 := by omega
      rw [Ctx.topUp, if_neg h, hzero, List.take_zero, List.drop_zero, Ctx.bufferRest]

/-! ### The two phases that submit a job -/

def Ctx.topped (ctx : Ctx B) (input : List Byte) : Ctx B :=
  ctx.bufferRest (input.take (B - ctx.partialLen))

def Ctx.flushed (alg : StreamAlg) (ctx : Ctx B) (input : List Byte) : Ctx B :=
  { ctx.topped input with partialLen := 0, iv := alg.advance ctx.iv 1 }

lemma Ctx.partialLen_topped (ctx : Ctx B) (input : List Byte) (h : ctx.partialLen ≤ B)
    (hfull : B ≤ ctx.partialLen + input.length) : (ctx.topped input).partialLen = B := by
  rw [Ctx.topped, Ctx.bufferRest_partialLen, List.length_take]
  omega

lemma Ctx.pending_topped (ctx : Ctx B) (input : List Byte) (h : ctx.partialLen ≤ B) :
    (ctx.topped input).pending = ctx.pending ++ input.take (B - ctx.partialLen) := by
  refine ctx.pending_bufferRest _ ?_
  rw [List.length_take]
  omega

lemma Ctx.topped_of_full (ctx : Ctx B) (input : List Byte) (h : ctx.partialLen = B) :
    ctx.topped input = ctx := by
  rw [Ctx.topped, h, Nat.sub_self, List.take_zero, Ctx.bufferRest]

def Ctx.flushJob (alg : StreamAlg) (ctx : Ctx B) (input : List Byte) : Job :=
  ctx.job alg (ctx.pending ++ input.take (B - ctx.partialLen))

def Ctx.blocksJob (alg : StreamAlg) (ctx : Ctx B) (input : List Byte) : Job :=
  ctx.job alg (input.take (BlockBuffer.whole B input.length))

/-- The outcomes of phase 1: no partial block, a partial block that stays partial, and a full
block whose job fails or succeeds. -/
theorem flushPartial_cases (be : Backend σ) (alg : StreamAlg) (p : Progress B σ)
    (hlen : p.ctx.partialLen ≤ B) :
    (p.ctx.partialLen = 0 ∧ flushPartial be alg p = .ok p) ∨
    (0 < p.ctx.partialLen ∧ p.ctx.partialLen + p.input.length < B ∧
      flushPartial be alg p = .ok { p with ctx := p.ctx.bufferRest p.input, input := [] }) ∨
    (0 < p.ctx.partialLen ∧ B ≤ p.ctx.partialLen + p.input.length ∧
      ∃ s', be.submit p.backend (p.ctx.flushJob alg p.input) = (s', none) ∧
        flushPartial be alg p = .error { p with
          backend := s'
          ctx := p.ctx.topped p.input
          input := p.input.drop (B - p.ctx.partialLen) }) ∨
    (0 < p.ctx.partialLen ∧ B ≤ p.ctx.partialLen + p.input.length ∧
      ∃ s' out, be.submit p.backend (p.ctx.flushJob alg p.input) = (s', some out) ∧
        flushPartial be alg p = .ok
          { backend := s'
            ctx := p.ctx.flushed alg p.input
            input := p.input.drop (B - p.ctx.partialLen)
            out := p.out ++ out
            totalWritten := p.totalWritten + B }) := by
  unfold flushPartial
  rw [Ctx.topUp_eq]
  by_cases h0 : 0 < p.ctx.partialLen
  · by_cases hfull : B ≤ p.ctx.partialLen + p.input.length
    · have htop := p.ctx.partialLen_topped p.input hlen hfull
      have hpend := p.ctx.pending_topped p.input hlen
      rw [Ctx.pending_of_full _ htop] at hpend
      have hjob : (p.ctx.topped p.input).job alg (p.ctx.topped p.input).partialBuf.toList =
          p.ctx.flushJob alg p.input := by
        rw [hpend]
        simp [Ctx.flushJob, Ctx.job, Ctx.topped]
      have hiv : (p.ctx.topped p.input).iv = p.ctx.iv := by simp [Ctx.topped]
      rw [if_pos h0]
      simp only [← Ctx.topped.eq_def]
      rw [if_pos htop, hjob]
      rcases hsub : be.submit p.backend (p.ctx.flushJob alg p.input) with ⟨s', _ | out⟩
      · exact .inr (.inr (.inl ⟨h0, hfull, s', rfl, rfl⟩))
      · refine .inr (.inr (.inr ⟨h0, hfull, s', out, rfl, ?_⟩))
        simp only [Ctx.flushed, hiv]
    · have htake : p.input.take (B - p.ctx.partialLen) = p.input :=
        List.take_of_length_le (by omega)
      have hdrop : p.input.drop (B - p.ctx.partialLen) = [] :=
        List.drop_eq_nil_of_le (by omega)
      refine .inr (.inl ⟨h0, by omega, ?_⟩)
      rw [if_pos h0]
      simp only [htake, hdrop]
      rw [if_neg (by rw [Ctx.bufferRest_partialLen]; omega)]
  · exact .inl ⟨by omega, if_neg h0⟩

/-- The outcomes of phase 2: less than a block, and whole blocks whose job fails or succeeds. -/
theorem fullBlocks_cases (be : Backend σ) (alg : StreamAlg) (p : Progress B σ) (hB : 0 < B) :
    (p.input.length < B ∧ fullBlocks be alg p = .ok p) ∨
    (B ≤ p.input.length ∧
      ∃ s', be.submit p.backend (p.ctx.blocksJob alg p.input) = (s', none) ∧
        fullBlocks be alg p = .error { p with backend := s' }) ∨
    (B ≤ p.input.length ∧
      ∃ s' out, be.submit p.backend (p.ctx.blocksJob alg p.input) = (s', some out) ∧
        fullBlocks be alg p = .ok
          { backend := s'
            ctx := { p.ctx with iv := alg.advance p.ctx.iv (p.input.length / B) }
            input := p.input.drop (BlockBuffer.whole B p.input.length)
            out := p.out ++ out
            totalWritten := p.totalWritten + BlockBuffer.whole B p.input.length }) := by
  unfold fullBlocks
  by_cases h : B ≤ p.input.length
  · have hdiv : BlockBuffer.whole B p.input.length / B = p.input.length / B :=
      Nat.mul_div_cancel_left _ hB
    have hjob : p.ctx.job alg (p.input.take (BlockBuffer.whole B p.input.length)) =
        p.ctx.blocksJob alg p.input := rfl
    rw [if_pos h, ← BlockBuffer.whole_eq_sub]
    simp only [hjob, hdiv]
    rcases hsub : be.submit p.backend (p.ctx.blocksJob alg p.input) with ⟨s', _ | out⟩
    · exact .inr (.inl ⟨h, s', rfl, rfl⟩)
    · exact .inr (.inr ⟨h, s', out, rfl, rfl⟩)
  · exact .inl ⟨by omega, if_neg h⟩

lemma streamCipher_of_error {be : Backend σ} {alg : StreamAlg} {s : σ} {ctx : Ctx B}
    {input : List Byte} {p : Progress B σ}
    (hflush : flushPartial be alg (.start s ctx input) = .error p) :
    streamCipher be alg (some s) ctx input =
      { ret := false, outl := some 0, out := p.out, ctx := p.ctx,
        innerBackend := some p.backend } := by
  simp only [streamCipher, hflush, Except.bind]

lemma streamCipher_of_ok {be : Backend σ} {alg : StreamAlg} {s : σ} {ctx : Ctx B}
    {input : List Byte} {p q : Progress B σ}
    (hflush : flushPartial be alg (.start s ctx input) = .ok p)
    (hblocks : fullBlocks be alg p = .ok q) :
    streamCipher be alg (some s) ctx input =
      { ret := true, outl := some q.totalWritten, out := q.out, ctx := q.ctx.bufferRest q.input,
        innerBackend := some q.backend } := by
  simp only [streamCipher, hflush, Except.bind, hblocks]

lemma streamCipher_of_ok_error {be : Backend σ} {alg : StreamAlg} {s : σ} {ctx : Ctx B}
    {input : List Byte} {p q : Progress B σ}
    (hflush : flushPartial be alg (.start s ctx input) = .ok p)
    (hblocks : fullBlocks be alg p = .error q) :
    streamCipher be alg (some s) ctx input =
      { ret := false, outl := some 0, out := q.out, ctx := q.ctx,
        innerBackend := some q.backend } := by
  simp only [streamCipher, hflush, Except.bind, hblocks]

/-! ### The final -/

def Ctx.padded (ctx : Ctx B) : List Byte := ctx.zeroPad.partialBuf.toList

def Ctx.encrypted (ctx : Ctx B) (enc : List Byte) : Ctx B :=
  { ctx.zeroPad with partialBuf := overlay ctx.zeroPad.partialBuf enc }

lemma Ctx.length_padded (ctx : Ctx B) : ctx.padded.length = B := by simp [Ctx.padded]

lemma Ctx.take_padded (ctx : Ctx B) : ctx.padded.take ctx.partialLen = ctx.pending := by
  apply List.ext_getElem?
  intro i
  simp only [Ctx.pending, Ctx.padded, Ctx.zeroPad, Vector.toList_mapIdx, List.getElem?_take]
  by_cases hi : i < ctx.partialLen
  · simp [hi]
  · rw [if_neg hi, if_neg hi]

lemma Ctx.pending_encrypted (ctx : Ctx B) {enc : List Byte} (h : enc.length = B) :
    (ctx.encrypted enc).pending = enc.take ctx.partialLen := by
  rw [Ctx.pending, Ctx.encrypted, toList_overlay _ h]
  rfl

lemma streamFinal_of_zero (be : Backend σ) (alg : StreamAlg) (innerBackend : Option σ)
    {ctx : Ctx B} (outsize : ℕ) (h : ctx.partialLen = 0) :
    streamFinal be alg innerBackend ctx outsize =
      { ret := true, outl := some 0, out := [], ctx := ctx, innerBackend := innerBackend } := by
  unfold streamFinal
  rw [h]
  rfl

/-- The outcomes of a final: nothing pending, no backend, a job that fails, and a job that
succeeds with an output buffer that is too small or large enough. -/
theorem streamFinal_cases (be : Backend σ) (alg : StreamAlg) (innerBackend : Option σ)
    (ctx : Ctx B) (outsize : ℕ) :
    (ctx.partialLen = 0 ∧ streamFinal be alg innerBackend ctx outsize =
      { ret := true, outl := some 0, out := [], ctx := ctx, innerBackend := innerBackend }) ∨
    (0 < ctx.partialLen ∧ innerBackend = none ∧
      streamFinal be alg innerBackend ctx outsize =
        { ret := false, outl := some 0, out := [], ctx := ctx, innerBackend := none }) ∨
    (0 < ctx.partialLen ∧ ∃ s s', innerBackend = some s ∧
      be.submit s (ctx.job alg ctx.padded) = (s', none) ∧
      streamFinal be alg innerBackend ctx outsize =
        { ret := false, outl := some 0, out := [], ctx := ctx.zeroPad, innerBackend := some s' }) ∨
    (0 < ctx.partialLen ∧ ∃ s s' enc, innerBackend = some s ∧
      be.submit s (ctx.job alg ctx.padded) = (s', some enc) ∧ outsize < ctx.partialLen ∧
      streamFinal be alg innerBackend ctx outsize =
        { ret := false, outl := some 0, out := [], ctx := ctx.encrypted enc,
          innerBackend := some s' }) ∨
    (0 < ctx.partialLen ∧ ∃ s s' enc, innerBackend = some s ∧
      be.submit s (ctx.job alg ctx.padded) = (s', some enc) ∧ ctx.partialLen ≤ outsize ∧
      streamFinal be alg innerBackend ctx outsize =
        { ret := true, outl := some ctx.partialLen, out := enc.take ctx.partialLen,
          ctx := ctx.encrypted enc, innerBackend := some s' }) := by
  unfold streamFinal
  by_cases h0 : 0 < ctx.partialLen
  · rw [if_pos h0]
    cases innerBackend with
    | none => exact .inr (.inl ⟨h0, rfl, rfl⟩)
    | some s =>
      have hjob : ctx.zeroPad.job alg ctx.zeroPad.partialBuf.toList = ctx.job alg ctx.padded := rfl
      simp only [hjob]
      rcases hsub : be.submit s (ctx.job alg ctx.padded) with ⟨s', _ | enc⟩
      · exact .inr (.inr (.inl ⟨h0, s, s', rfl, hsub, rfl⟩))
      · have hlen : enc.length = B := (be.length_out _ _ _ _ hsub).trans ctx.length_padded
        have hlen' : ctx.zeroPad.partialLen = ctx.partialLen := rfl
        by_cases hout : outsize < ctx.partialLen
        · refine .inr (.inr (.inr (.inl ⟨h0, s, s', enc, rfl, hsub, hout, ?_⟩)))
          simp only [hlen', if_pos hout]
          rfl
        · refine .inr (.inr (.inr (.inr ⟨h0, s, s', enc, rfl, hsub, by omega, ?_⟩)))
          simp only [hlen', if_neg hout, toList_overlay _ hlen]
          rfl
  · rw [if_neg h0]
    exact .inl ⟨by omega, rfl⟩

end GpuCrypt
