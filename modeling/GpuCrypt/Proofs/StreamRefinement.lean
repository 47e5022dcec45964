import GpuCrypt.Proofs.OutputBound

/-!
# What a context stands for

Between two calls a context is a key, an IV and the bytes that are pending. `StreamState` says what
the calls do in these terms, and the buffering code refines it: nothing else that a context holds,
and nothing that lies behind the pending bytes in the buffer, is ever looked at.
-/

namespace GpuCrypt

open BlockBuffer

variable {σ γ : Type} {B : ℕ}

structure StreamState where
  key : Vector Byte 32
  iv : Vector Byte 16
  pending : List Byte

namespace StreamState

def job (st : StreamState) (alg : StreamAlg) (input : List Byte) : Job :=
  { input := input, key := st.key, iv := st.iv, algId := alg.algId }

/-- The whole blocks of the input go into one job, and the rest is pending. Before, `out` has been
written. -/
def blocks (B : ℕ) (be : Backend σ) (alg : StreamAlg) (s : σ) (st : StreamState) (out : List Byte)
    (input : List Byte) : CallResult StreamState σ :=
  if input.length < B then
    { ret := true, outl := some out.length, out := out, ctx := { st with pending := input },
      innerBackend := some s }
  else
    match be.submit s (st.job alg (input.take (whole B input.length))) with
    | (s', none) =>
      { ret := false, outl := some 0, out := out, ctx := st, innerBackend := some s' }
    | (s', some enc) =>
      { ret := true
        outl := some (out ++ enc).length
        out := out ++ enc
        ctx :=
          { key := st.key, iv := alg.advance st.iv (input.length / B), pending := tail B input }
        innerBackend := some s' }

/-- An update fills the pending block first, and encrypts it once it is full. -/
def update (B : ℕ) (be : Backend σ) (alg : StreamAlg) (innerBackend : Option σ) (st : StreamState)
    (input : List Byte) : CallResult StreamState σ :=
  match innerBackend with
  | none => { ret := false, outl := none, out := [], ctx := st, innerBackend := none }
  | some s =>
    if st.pending = [] then st.blocks B be alg s [] input
    else if st.pending.length + input.length < B then
      { ret := true, outl := some 0, out := [], ctx := { st with pending := st.pending ++ input },
        innerBackend := some s }
    else
      let block := st.pending ++ input.take (B - st.pending.length)
      match be.submit s (st.job alg block) with
      | (s', none) =>
        { ret := false, outl := some 0, out := [], ctx := { st with pending := block },
          innerBackend := some s' }
      | (s', some enc) =>
        blocks B be alg s' { key := st.key, iv := alg.advance st.iv 1, pending := [] } enc
          (input.drop (B - st.pending.length))

/-- A final encrypts the pending bytes, filled up with zeros, and keeps what it gets for them as
pending. -/
def final (B : ℕ) (be : Backend σ) (alg : StreamAlg) (innerBackend : Option σ) (st : StreamState)
    (outsize : ℕ) : CallResult StreamState σ :=
  if st.pending = [] then
    { ret := true, outl := some 0, out := [], ctx := st, innerBackend := innerBackend }
  else
    match innerBackend with
    | none => { ret := false, outl := some 0, out := [], ctx := st, innerBackend := none }
    | some s =>
      let padding := List.replicate (B - st.pending.length) 0
      match be.submit s (st.job alg (st.pending ++ padding)) with
      | (s', none) =>
        { ret := false, outl := some 0, out := [], ctx := st, innerBackend := some s' }
      | (s', some enc) =>
        let enc := enc.take st.pending.length
        if outsize < st.pending.length then
          { ret := false, outl := some 0, out := [], ctx := { st with pending := enc },
            innerBackend := some s' }
        else
          { ret := true, outl := some st.pending.length, out := enc,
            ctx := { st with pending := enc }, innerBackend := some s' }

def call (B : ℕ) (be : Backend σ) (alg : StreamAlg) (innerBackend : Option σ) (st : StreamState) :
    StreamCall → CallResult StreamState σ
  | .update input => st.update B be alg innerBackend input.bytes
  | .final outsize => st.final B be alg innerBackend outsize

end StreamState

/-- What a context stands for. -/
def Ctx.stream (ctx : Ctx B) : StreamState :=
  { key := ctx.key, iv := ctx.iv, pending := ctx.pending }

/-! ### The refinement -/

lemma Ctx.pending_eq_nil {ctx : Ctx B} (hlen : ctx.partialLen ≤ B) :
    ctx.pending = [] ↔ ctx.partialLen = 0 := by
  rw [← List.length_eq_zero_iff, ctx.length_pending hlen]

lemma Ctx.stream_bufferRest {ctx : Ctx B} {d : List Byte} (h : ctx.partialLen + d.length ≤ B) :
    (ctx.bufferRest d).stream = { ctx.stream with pending := ctx.pending ++ d } := by
  simp only [Ctx.stream, Ctx.bufferRest_key, Ctx.bufferRest_iv, ctx.pending_bufferRest d h]

lemma Ctx.stream_flushed (alg : StreamAlg) (ctx : Ctx B) (input : List Byte) :
    (ctx.flushed alg input).stream =
      { key := ctx.key, iv := alg.advance ctx.iv 1, pending := [] } := by
  have hkey : (ctx.topped input).key = ctx.key := ctx.bufferRest_key _
  simp only [Ctx.stream, Ctx.pending, Ctx.flushed, List.take_zero, hkey]

/-- The part of an update after the partial block. -/
lemma StreamState.blocks_of_short (be : Backend σ) (alg : StreamAlg) (s : σ) (st : StreamState)
    (out : List Byte) {input : List Byte} (h : input.length < B) :
    st.blocks B be alg s out input =
      { ret := true, outl := some out.length, out := out, ctx := { st with pending := input },
        innerBackend := some s } :=
  if_pos h

lemma StreamState.blocks_of_refused {be : Backend σ} {alg : StreamAlg} {s s' : σ} {ctx : Ctx B}
    (out : List Byte) {input : List Byte} (h : B ≤ input.length)
    (hsub : be.submit s (ctx.blocksJob alg input) = (s', none)) :
    ctx.stream.blocks B be alg s out input =
      { ret := false, outl := some 0, out := out, ctx := ctx.stream, innerBackend := some s' } := by
  have hjob : ctx.stream.job alg (input.take (whole B input.length)) = ctx.blocksJob alg input :=
    rfl
  rw [StreamState.blocks, if_neg (by omega), hjob, hsub]

lemma StreamState.blocks_of_served {be : Backend σ} {alg : StreamAlg} {s s' : σ} {ctx : Ctx B}
    (out : List Byte) {input enc : List Byte} (hB : 0 < B) (h : B ≤ input.length)
    (hsub : be.submit s (ctx.blocksJob alg input) = (s', some enc)) (hzero : ctx.partialLen = 0) :
    ctx.stream.blocks B be alg s out input =
      { ret := true
        outl := some (out.length + whole B input.length)
        out := out ++ enc
        ctx := ((ctx.advanced alg input).bufferRest (tail B input)).stream
        innerBackend := some s' } := by
  have hjob : ctx.stream.job alg (input.take (whole B input.length)) = ctx.blocksJob alg input :=
    rfl
  have hlen : (out ++ enc).length = out.length + whole B input.length := by
    rw [List.length_append, be.length_out _ _ _ _ hsub, length_blocksJob]
  have hpend : (ctx.advanced alg input).pending = [] := Ctx.pending_of_zero _ hzero
  have hfits : (ctx.advanced alg input).partialLen + (tail B input).length ≤ B := by
    have hmod := Nat.mod_lt input.length hB
    have hzero' : (ctx.advanced alg input).partialLen = 0 := hzero
    rw [length_tail, hzero']
    omega
  rw [StreamState.blocks, if_neg (by omega), hjob, hsub, ← hlen, Ctx.stream_bufferRest hfits, hpend]
  rfl

/-- The update of a stream whose partial block fills up, in terms of the context. -/
lemma Ctx.stream_update_of_full (be : Backend σ) (alg : StreamAlg) (s : σ) {ctx : Ctx B}
    (hlen : ctx.partialLen ≤ B) {input : List Byte} (hpos : 0 < ctx.partialLen)
    (hfull : B ≤ ctx.partialLen + input.length) :
    ctx.stream.update B be alg (some s) input =
      match be.submit s (ctx.flushJob alg input) with
      | (s', none) =>
        { ret := false, outl := some 0, out := [], ctx := (ctx.topped input).stream,
          innerBackend := some s' }
      | (s', some enc) =>
        (ctx.flushed alg input).stream.blocks B be alg s' enc (ctx.rest input) := by
  have hne : ctx.stream.pending ≠ [] := by
    intro hnil
    have hzero := (Ctx.pending_eq_nil hlen).mp hnil
    omega
  have hpend : ctx.stream.pending.length = ctx.partialLen := ctx.length_pending hlen
  have htopped : (ctx.topped input).stream =
      { ctx.stream with pending := ctx.pending ++ input.take (B - ctx.partialLen) } :=
    Ctx.stream_bufferRest (by rw [List.length_take]; omega)
  rw [StreamState.update, if_neg hne, hpend, if_neg (by omega), ctx.stream_flushed, htopped]
  rfl

/-- An update, whichever way it goes, is the update of the stream. -/
lemma Updates.stream {be : Backend σ} {alg : StreamAlg} {ctx : Ctx B} {input : List Byte}
    {innerBackend : Option σ} {r : CallResult (Ctx B) σ}
    (h : Updates be alg ctx input innerBackend r) (hB : 0 < B) (hlen : ctx.partialLen ≤ B) :
    r.mapCtx Ctx.stream = ctx.stream.update B be alg innerBackend input := by
  have hnil : ctx.stream.pending = [] ↔ ctx.partialLen = 0 := Ctx.pending_eq_nil hlen
  have hpend : ctx.stream.pending.length = ctx.partialLen := ctx.length_pending hlen
  have hrest := ctx.length_rest input
  have hzero' : (ctx.flushed alg input).partialLen = 0 := rfl
  cases h with
  | noBackend => rfl
  | buffered s hshort =>
    by_cases hzero : ctx.stream.pending = []
    · have hlen0 := hnil.mp hzero
      rw [StreamState.update, if_pos hzero, StreamState.blocks_of_short _ _ _ _ _ (by omega),
        CallResult.mapCtx, Ctx.stream_bufferRest (by omega), Ctx.pending_of_zero _ hlen0]
      rfl
    · rw [StreamState.update, if_neg hzero, if_pos (by omega), CallResult.mapCtx,
        Ctx.stream_bufferRest (by omega)]
      rfl
  | flushFails s s' hpos hfull hflush =>
    rw [Ctx.stream_update_of_full be alg s hlen hpos hfull, hflush]
    rfl
  | flushes s s' out hpos hfull hflush hshort =>
    have hout := (be.length_out _ _ _ _ hflush).trans (length_flushJob alg ctx input hlen hfull)
    rw [Ctx.stream_update_of_full be alg s hlen hpos hfull, hflush]
    simp only [StreamState.blocks_of_short be alg s' _ out hshort, hout]
    rw [CallResult.mapCtx, Ctx.stream_bufferRest (by omega), Ctx.pending_of_zero _ hzero']
    rfl
  | blocksFail s s' hzero hfull hblocks =>
    rw [StreamState.update, if_pos (hnil.mpr hzero), StreamState.blocks_of_refused _ hfull hblocks]
    rfl
  | blocks s s' out hzero hfull hblocks =>
    rw [StreamState.update, if_pos (hnil.mpr hzero),
      StreamState.blocks_of_served _ hB hfull hblocks hzero, List.length_nil, Nat.zero_add]
    rfl
  | flushesBlocksFail s s' s'' out hpos hfull hflush hblocks =>
    rw [Ctx.stream_update_of_full be alg s hlen hpos (by omega), hflush]
    exact (StreamState.blocks_of_refused out hfull hblocks).symm
  | flushesBlocks s s' s'' out out' hpos hfull hflush hblocks =>
    have hout := (be.length_out _ _ _ _ hflush).trans
      (length_flushJob alg ctx input hlen (by omega))
    have hserved := StreamState.blocks_of_served out hB hfull hblocks hzero'
    rw [hout] at hserved
    rw [Ctx.stream_update_of_full be alg s hlen hpos (by omega), hflush]
    exact hserved.symm

lemma Ctx.padded_eq (ctx : Ctx B) :
    ctx.padded = ctx.pending ++ List.replicate (B - ctx.partialLen) 0 := by
  rw [← List.take_append_drop ctx.partialLen ctx.padded, ctx.take_padded]
  congr 1
  apply List.ext_getElem
  · simp [ctx.length_padded]
  · intro i hi hi'
    simp [Ctx.padded, Ctx.zeroPad]

lemma streamFinal_stream (be : Backend σ) (alg : StreamAlg) (innerBackend : Option σ) {ctx : Ctx B}
    (hlen : ctx.partialLen ≤ B) (outsize : ℕ) :
    (streamFinal be alg innerBackend ctx outsize).mapCtx Ctx.stream =
      ctx.stream.final B be alg innerBackend outsize := by
  have hnil : ctx.stream.pending = [] ↔ ctx.partialLen = 0 := Ctx.pending_eq_nil hlen
  have hpend : ctx.stream.pending.length = ctx.partialLen := ctx.length_pending hlen
  have hjob : ctx.stream.job alg
      (ctx.stream.pending ++ List.replicate (B - ctx.stream.pending.length) 0) =
        ctx.job alg ctx.padded := by
    rw [ctx.padded_eq, hpend]
    rfl
  have henc : ∀ enc : List Byte, enc.length = B → (ctx.encrypted enc).stream =
      { ctx.stream with pending := enc.take ctx.stream.pending.length } := by
    intro enc hB
    rw [hpend, Ctx.stream, ctx.pending_encrypted hB]
    rfl
  rcases streamFinal_cases be alg innerBackend ctx outsize with
    ⟨hzero, h⟩ | ⟨hpos, rfl, h⟩ | ⟨hpos, s, s', rfl, hsub, h⟩ |
      ⟨hpos, s, s', enc, rfl, hsub, hsmall, h⟩ | ⟨hpos, s, s', enc, rfl, hsub, hroom, h⟩
  · unfold StreamState.final
    rw [h, if_pos (hnil.mpr hzero)]
    rfl
  all_goals
    have hne : ctx.stream.pending ≠ [] := fun hnil' => by
      have hzero := hnil.mp hnil'
      omega
    unfold StreamState.final
    rw [h, if_neg hne]
  · rfl
  · have hkeep : ctx.zeroPad.stream = ctx.stream := by
      have hpending : ctx.zeroPad.pending = ctx.pending := ctx.take_padded
      rw [Ctx.stream, hpending]
      rfl
    simp only [hjob, hsub, CallResult.mapCtx, hkeep]
  · have hlenc := (be.length_out _ _ _ _ hsub).trans ctx.length_padded
    simp only [hjob, hsub, CallResult.mapCtx, henc enc hlenc]
    rw [if_pos (by omega)]
  · have hlenc := (be.length_out _ _ _ _ hsub).trans ctx.length_padded
    simp only [hjob, hsub, CallResult.mapCtx, henc enc hlenc]
    rw [if_neg (by omega), hpend]

/-- A call on a context is the call on the stream it stands for. -/
theorem streamCall_stream [NeZero B] (be : Backend σ) (alg : StreamAlg) (innerBackend : Option σ)
    {ctx : Ctx B} (hlen : ctx.partialLen ≤ B) (c : StreamCall) :
    (streamCall be alg innerBackend ctx c).mapCtx Ctx.stream =
      StreamState.call B be alg innerBackend ctx.stream c := by
  have hB : 0 < B := Nat.pos_of_neZero B
  cases c with
  | update input =>
    exact (streamCipher_updates be alg innerBackend ctx input.bytes hB hlen).stream hB hlen
  | final outsize => exact streamFinal_stream be alg innerBackend hlen outsize

/-- So is a run. -/
theorem runCalls_stream [NeZero B] (be : Backend σ) (alg : StreamAlg) (calls : List StreamCall)
    (innerBackend : Option σ) {ctx : Ctx B} (hlen : ctx.partialLen ≤ B) :
    (runCalls (streamCall be alg) innerBackend ctx calls).mapCtx Ctx.stream =
      runCalls (StreamState.call B be alg) innerBackend ctx.stream calls := by
  induction calls generalizing innerBackend ctx with
  | nil => rfl
  | cons c calls ih =>
    generalize hr : streamCall be alg innerBackend ctx c = r
    have hcall : StreamState.call B be alg innerBackend ctx.stream c = r.mapCtx Ctx.stream := by
      rw [← hr, streamCall_stream be alg innerBackend hlen c]
    have hlater : runCalls (StreamState.call B be alg) (r.mapCtx Ctx.stream).innerBackend
        (r.mapCtx Ctx.stream).ctx calls =
          (runCalls (streamCall be alg) r.innerBackend r.ctx calls).mapCtx Ctx.stream :=
      (ih r.innerBackend (hr ▸ streamCall_partialLen_le be alg innerBackend ctx c hlen)).symm
    rw [runCalls, runCalls, hr, hcall, hlater]
    rfl

end GpuCrypt
