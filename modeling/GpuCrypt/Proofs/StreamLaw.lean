import GpuCrypt.Model.Session
import GpuCrypt.Proofs.Buffering
import GpuCrypt.Lib.Keystream

/-!
# The stream law of the buffering code

Over a backend that serves the jobs of a session, an update is one step of the abstract block
buffer: it emits the whole blocks of what is pending followed by the input, combined with the
keystream at their position in the stream, and keeps the rest. Both ciphers are instances, with
their own counters and keystream blocks.
-/

namespace GpuCrypt

open BlockBuffer Keystream

variable {σ : Type} {B : ℕ}

/-- The bytes `d`, at position `n` of the stream, XORed with the keystream. -/
abbrev xorFrom (ks : ℕ → Byte) (n : ℕ) (d : List Byte) : List Byte :=
  combine (· ^^^ ·) ks n d

lemma xorFrom_xorFrom (ks : ℕ → Byte) (n : ℕ) (d : List Byte) :
    xorFrom ks n (xorFrom ks n d) = d := by
  induction d generalizing n with
  | nil => rfl
  | cons b d ih =>
    simp only [xorFrom, combine_cons, BitVec.xor_assoc, BitVec.xor_self, BitVec.xor_zero, ih]

lemma xorFrom_append (ks : ℕ → Byte) (n : ℕ) (d e : List Byte) :
    xorFrom ks n (d ++ e) = xorFrom ks n d ++ xorFrom ks (n + d.length) e :=
  combine_append _ ks n d e

lemma xorFrom_shift [NeZero B] (blk : ℕ → Vector Byte B) (q : ℕ) (d : List Byte) :
    xorFrom (ofBlocks (fun j => blk (q + j))) 0 d = xorFrom (ofBlocks blk) (B * q) d :=
  combine_ofBlocks_shift _ blk q d

lemma eq_of_xorFrom_eq {ks ks' : ℕ → Byte} {n n' : ℕ} {d : List Byte}
    (h : xorFrom ks n d = xorFrom ks' n' d) {i : ℕ} (hi : i < d.length) :
    ks (n + i) = ks' (n' + i) :=
  eq_of_combine_eq (· ^^^ ·) ks (fun a _ _ heq => (BitVec.xor_right_inj a).mp heq) h hi

/-- The backend serves the jobs of a session under `key`: `ivAt q` is the IV once `q` blocks have
been encrypted, and a job of whole blocks under it XORs them with the keystream blocks from
`blk q` on. -/
structure Serves [NeZero B] (be : Backend σ) (alg : StreamAlg) (key : Vector Byte 32)
    (ivAt : ℕ → Vector Byte 16) (blk : ℕ → Vector Byte B) : Prop where
  advance : ∀ q n, n < 2 ^ 64 → alg.advance (ivAt q) n = ivAt (q + n)
  submit : ∀ s q n input, input.length = B * n →
    ∃ s', be.submit s { input := input, key := key, iv := ivAt q, algId := alg.algId } =
      (s', some (xorFrom (ofBlocks blk) (B * q) input))

/-- The context belongs to the session and has encrypted `q` blocks. -/
structure Ctx.At (ctx : Ctx B) (key : Vector Byte 32) (ivAt : ℕ → Vector Byte 16) (q : ℕ) :
    Prop where
  key_eq : ctx.key = key
  iv_eq : ctx.iv = ivAt q
  partialLen_lt : ctx.partialLen < B

section Session

variable [NeZero B] {be : Backend σ} {alg : StreamAlg} {key : Vector Byte 32}
  {ivAt : ℕ → Vector Byte 16} {blk : ℕ → Vector Byte B}

/-- What an update has done so far: it has emitted the bytes `e`, whole blocks from block `q` of
the stream on, combined with the keystream. -/
structure Progress.Emitted (p : Progress B σ) (key : Vector Byte 32)
    (ivAt : ℕ → Vector Byte 16) (blk : ℕ → Vector Byte B) (q : ℕ) (e : List Byte) : Prop where
  at_block : p.ctx.At key ivAt (q + e.length / B)
  aligned : B ∣ e.length
  out_eq : p.out = xorFrom (ofBlocks blk) (B * q) e
  total_eq : p.totalWritten = e.length

lemma absorb_fst_blocks (pending input : List Byte) :
    B ∣ (absorb B pending input).1.length ∧
      (absorb B pending input).1.length / B = (pending.length + input.length) / B := by
  rw [length_absorb_fst, whole]
  exact ⟨dvd_mul_right _ _, Nat.mul_div_cancel_left _ (Nat.pos_of_neZero B)⟩

lemma Progress.Emitted.append {p p' : Progress B σ} {q : ℕ} {e e' : List Byte}
    (h : p.Emitted key ivAt blk q e) (he' : B ∣ e'.length)
    (hat : p'.ctx.At key ivAt (q + e.length / B + e'.length / B))
    (hout : p'.out = p.out ++ xorFrom (ofBlocks blk) (B * (q + e.length / B)) e')
    (htotal : p'.totalWritten = p.totalWritten + e'.length) :
    p'.Emitted key ivAt blk q (e ++ e') := by
  have hpos : B * (q + e.length / B) = B * q + e.length := by
    rw [Nat.mul_add, Nat.mul_div_cancel' h.aligned]
  refine ⟨?_, ?_, ?_, ?_⟩
  · rwa [List.length_append, Nat.add_div_of_dvd_right h.aligned, ← Nat.add_assoc]
  · rw [List.length_append]
    exact dvd_add h.aligned he'
  · rw [hout, h.out_eq, hpos, ← combine_append]
  · rw [htotal, h.total_eq, List.length_append]

lemma absorb_take_of_full (pending input : List Byte) (hp : pending.length ≤ B)
    (hfull : B ≤ pending.length + input.length) :
    absorb B pending (input.take (B - pending.length)) =
      (pending ++ input.take (B - pending.length), []) := by
  have hsum : pending.length + (input.take (B - pending.length)).length = B := by
    rw [List.length_take]
    omega
  have hwhole : whole B B = B := by rw [whole, Nat.div_self (Nat.pos_of_neZero B), Nat.mul_one]
  have hlen : (pending ++ input.take (B - pending.length)).length = B := by
    rw [List.length_append, hsum]
  rw [absorb, hsum, hwhole, List.take_of_length_le hlen.le, List.drop_of_length_le hlen.le]

/-- Phase 1 emits the topped-up block, if there is one, and leaves the rest to absorb. -/
lemma flushPartial_serves (h : Serves be alg key ivAt blk) (s : σ) {ctx : Ctx B} {q : ℕ}
    (hat : ctx.At key ivAt q) (input : List Byte) :
    ∃ p e, flushPartial be alg (.start s ctx input) = .ok p ∧
      p.Emitted key ivAt blk q e ∧ (p.ctx.partialLen = 0 ∨ p.input = []) ∧
      p.input.length ≤ input.length ∧
      absorb B ctx.pending input =
        (e ++ (absorb B p.ctx.pending p.input).1, (absorb B p.ctx.pending p.input).2) := by
  have hlt := hat.partialLen_lt
  have hpend := ctx.length_pending hlt.le
  let start : Progress B σ := .start s ctx input
  have hstart : start.Emitted key ivAt blk q [] :=
    ⟨by simpa [start, Progress.start] using hat, by simp, rfl, rfl⟩
  by_cases hfull : 0 < ctx.partialLen ∧ B ≤ ctx.partialLen + input.length
  · -- the partial block is filled and encrypted, and the rest of the input follows
    obtain ⟨h0, hfull⟩ := hfull
    have hlen : (ctx.pending ++ input.take (B - ctx.partialLen)).length = B * 1 := by
      rw [List.length_append, List.length_take, hpend]
      omega
    obtain ⟨s', hsub⟩ := h.submit s q 1 _ hlen
    have hjob : ctx.flushJob alg input =
        { input := ctx.pending ++ input.take (B - ctx.partialLen), key := key, iv := ivAt q,
          algId := alg.algId } := by
      simp only [Ctx.flushJob, Ctx.job, hat.key_eq, hat.iv_eq]
    have hdiv : (ctx.pending ++ input.take (B - ctx.partialLen)).length / B = 1 := by
      rw [hlen, Nat.mul_div_cancel_left _ (Nat.pos_of_neZero B)]
    have hfirst := absorb_take_of_full (B := B) ctx.pending input (by omega) (by omega)
    have hsplit := absorb_append (Nat.pos_of_neZero B) ctx.pending (input.take (B - ctx.partialLen))
      (input.drop (B - ctx.partialLen))
    rw [hpend] at hfirst
    rw [List.take_append_drop, hfirst] at hsplit
    have hnil : (ctx.flushed alg input).pending = [] := Ctx.pending_of_zero _ rfl
    rcases flushPartial_cases be alg start hlt.le with
      ⟨hz, _⟩ | ⟨_, hshort, _⟩ | ⟨_, _, s'', hfail, _⟩ | ⟨_, _, s'', out, hsucc, hflush⟩
    · exact absurd hz (by simpa [start, Progress.start] using h0.ne')
    · exact absurd hshort (by simpa [start, Progress.start] using hfull)
    · simp [start, Progress.start, hjob, hsub] at hfail
    · simp only [start, Progress.start, hjob, hsub, Prod.mk.injEq, Option.some.injEq] at hsucc
      obtain ⟨rfl, rfl⟩ := hsucc
      refine ⟨_, ctx.pending ++ input.take (B - ctx.partialLen), hflush,
        ⟨⟨?_, ?_, Nat.pos_of_neZero B⟩, ⟨1, hlen⟩, rfl, ?_⟩, .inl rfl, ?_, ?_⟩
      · simp [start, Progress.start, Ctx.flushed, Ctx.topped, hat.key_eq]
      · rw [hdiv]
        simp [start, Progress.start, Ctx.flushed, hat.iv_eq, h.advance q 1 (by omega)]
      · simp only [start, Progress.start, hlen, Nat.mul_one, Nat.zero_add]
      · simp [start, Progress.start]
      · simp only [start, Progress.start, hnil]
        exact hsplit
  · rcases flushPartial_cases be alg start hlt.le with
      ⟨hz, hflush⟩ | ⟨_, hshort, hflush⟩ | ⟨h0, hle, _⟩ | ⟨h0, hle, _⟩
    · exact ⟨start, [], hflush, hstart, .inl hz, le_rfl, rfl⟩
    · -- the input does not fill the partial block
      have hshort' : ctx.partialLen + input.length < B := hshort
      have hpend' := ctx.pending_bufferRest input hshort'.le
      refine ⟨_, [], hflush, ⟨⟨?_, ?_, ?_⟩, by simp, rfl, rfl⟩, .inr rfl, by simp, ?_⟩
      · simpa [start, Progress.start] using hat.key_eq
      · simpa [start, Progress.start] using hat.iv_eq
      · simpa [start, Progress.start] using hshort'
      · simp only [start, Progress.start, hpend']
        rw [absorb_nil (by rw [List.length_append, hpend]; exact hshort'), absorb, hpend,
          whole_of_lt hshort', List.take_zero, List.drop_zero, List.append_nil]
    · exact absurd ⟨h0, hle⟩ hfull
    · exact absurd ⟨h0, hle⟩ hfull

lemma fullBlocks_serves (h : Serves be alg key ivAt blk) {p : Progress B σ} {q : ℕ}
    {e : List Byte} (hp : p.Emitted key ivAt blk q e)
    (hready : p.ctx.partialLen = 0 ∨ p.input = []) (hlen : p.input.length < 2 ^ 64) :
    ∃ p', fullBlocks be alg p = .ok p' ∧
      p'.Emitted key ivAt blk q (e ++ (absorb B p.ctx.pending p.input).1) ∧
      p'.ctx.pending ++ p'.input = (absorb B p.ctx.pending p.input).2 ∧
      p'.ctx.partialLen + p'.input.length < B := by
  have hB : 0 < B := Nat.pos_of_neZero B
  have hlt := hp.at_block.partialLen_lt
  have hpend := p.ctx.length_pending hlt.le
  rcases fullBlocks_cases be alg p hB with ⟨hshort, hok⟩ | ⟨hle, hfail⟩ | ⟨hle, s', out, hsucc, hok⟩
  · have hsum : p.ctx.partialLen + p.input.length < B := by
      rcases hready with hz | hnil
      · rwa [hz, Nat.zero_add]
      · rwa [hnil, List.length_nil, Nat.add_zero]
    have habs : absorb B p.ctx.pending p.input = ([], p.ctx.pending ++ p.input) := by
      rw [absorb, hpend, whole_of_lt hsum, List.take_zero, List.drop_zero]
    rw [habs, List.append_nil]
    exact ⟨p, hok, hp, rfl, hsum⟩
  all_goals
    have hz : p.ctx.partialLen = 0 := by
      rcases hready with hz | hnil
      · exact hz
      · rw [hnil, List.length_nil] at hle
        omega
    have hnil := p.ctx.pending_of_zero hz
    have htake : (p.input.take (whole B p.input.length)).length = B * (p.input.length / B) := by
      have hwhole := whole_le B p.input.length
      rw [List.length_take, ← whole]
      omega
    obtain ⟨s'', hsub⟩ := h.submit p.backend (q + e.length / B) (p.input.length / B) _ htake
    have hjob : p.ctx.blocksJob alg p.input =
        { input := p.input.take (whole B p.input.length), key := key,
          iv := ivAt (q + e.length / B), algId := alg.algId } := by
      simp only [Ctx.blocksJob, Ctx.job, hp.at_block.key_eq, hp.at_block.iv_eq]
  · obtain ⟨_, hfail, _⟩ := hfail
    simp [hjob, hsub] at hfail
  · rw [hjob, hsub, Prod.mk.injEq, Option.some.injEq] at hsucc
    obtain ⟨rfl, rfl⟩ := hsucc
    have habs : absorb B p.ctx.pending p.input =
        (p.input.take (whole B p.input.length), p.input.drop (whole B p.input.length)) := by
      simp only [hnil, absorb, List.nil_append, List.length_nil, Nat.zero_add]
    have hdiv : (p.input.take (whole B p.input.length)).length / B = p.input.length / B := by
      rw [htake, Nat.mul_div_cancel_left _ hB]
    have hsmall : p.input.length / B < 2 ^ 64 := lt_of_le_of_lt (Nat.div_le_self _ _) hlen
    refine ⟨_, hok, ?_, ?_, ?_⟩
    · rw [habs]
      refine hp.append ⟨_, htake⟩ ?_ rfl ?_
      · refine ⟨hp.at_block.key_eq, ?_, hlt⟩
        simp only [hdiv, hp.at_block.iv_eq, h.advance _ _ hsmall]
      · rw [htake, whole]
    · rw [habs]
      simp only [Ctx.pending, hz, List.take_zero, List.nil_append]
    · have hmod := whole_add_mod B p.input.length
      have hmodlt := Nat.mod_lt p.input.length hB
      simp only [hz, List.length_drop]
      omega

/-- One update over a serving backend: the abstract block buffer, combined with the keystream. -/
theorem streamCipher_serves (h : Serves be alg key ivAt blk) (s : σ) {ctx : Ctx B} {q : ℕ}
    (hat : ctx.At key ivAt q) (input : List Byte) (hlen : input.length < 2 ^ 64) :
    let r := streamCipher be alg (some s) ctx input
    r.ret = true ∧ r.outl = some r.out.length ∧ (∃ s', r.innerBackend = some s') ∧
      r.out = xorFrom (ofBlocks blk) (B * q) (absorb B ctx.pending input).1 ∧
      r.ctx.pending = (absorb B ctx.pending input).2 ∧
      r.ctx.At key ivAt (q + (ctx.partialLen + input.length) / B) := by
  have hpend := ctx.length_pending hat.partialLen_lt.le
  obtain ⟨p, e, hflush, hp, hready, hle, habs⟩ := flushPartial_serves h s hat input
  obtain ⟨p', hblocks, hp', hrest, hsum⟩ := fullBlocks_serves h hp hready (by omega)
  have he : e ++ (absorb B p.ctx.pending p.input).1 = (absorb B ctx.pending input).1 := by
    rw [habs]
  have hkeep : (absorb B p.ctx.pending p.input).2 = (absorb B ctx.pending input).2 := by
    rw [habs]
  have hres : streamCipher be alg (some s) ctx input =
      { ret := true, outl := some p'.totalWritten, out := p'.out,
        ctx := p'.ctx.bufferRest p'.input, innerBackend := some p'.backend } :=
    streamCipher_of_ok hflush hblocks
  rw [he] at hp'
  have hat' := hp'.at_block
  rw [(absorb_fst_blocks ctx.pending input).2, hpend] at hat'
  intro r
  rw [show r = _ from hres]
  refine ⟨rfl, ?_, ⟨_, rfl⟩, hp'.out_eq, ?_, ?_, ?_, ?_⟩
  · rw [hp'.out_eq, hp'.total_eq, length_combine]
  · rw [Ctx.pending_bufferRest _ _ hsum.le, hrest, hkeep]
  · rw [Ctx.bufferRest_key, hat'.key_eq]
  · rw [Ctx.bufferRest_iv, hat'.iv_eq]
  · rwa [Ctx.bufferRest_partialLen]

/-- A final over a serving backend emits the pending bytes, and leaves them encrypted in place:
key, IV and `partial_len` stay as they were. -/
theorem streamFinal_serves (h : Serves be alg key ivAt blk) (s : σ) {ctx : Ctx B} {q : ℕ}
    (hat : ctx.At key ivAt q) {outsize : ℕ} (hout : ctx.partialLen ≤ outsize) :
    let r := streamFinal be alg (some s) ctx outsize
    r.ret = true ∧ r.outl = some r.out.length ∧ (∃ s', r.innerBackend = some s') ∧
      r.out = xorFrom (ofBlocks blk) (B * q) ctx.pending ∧ r.ctx.pending = r.out ∧
      r.ctx.At key ivAt q ∧ r.ctx.partialLen = ctx.partialLen := by
  have hlt := hat.partialLen_lt
  have hpend := ctx.length_pending hlt.le
  have hpadlen : ctx.padded.length = B * 1 := by rw [ctx.length_padded, Nat.mul_one]
  obtain ⟨s', hsub⟩ := h.submit s q 1 ctx.padded hpadlen
  have hjob : ctx.job alg ctx.padded =
      { input := ctx.padded, key := key, iv := ivAt q, algId := alg.algId } := by
    simp only [Ctx.job, hat.key_eq, hat.iv_eq]
  intro r
  rcases streamFinal_cases be alg (some s) ctx outsize with
    ⟨hz, hres⟩ | ⟨_, hnone, _⟩ | ⟨_, s₁, s₂, hs, hfail, _⟩ | ⟨_, s₁, s₂, enc, _, _, hsmall, _⟩ |
      ⟨h0, s₁, s₂, enc, hs, hsucc, _, hres⟩
  · rw [show r = _ from hres, ctx.pending_of_zero hz]
    exact ⟨rfl, rfl, ⟨s, rfl⟩, rfl, rfl, hat, rfl⟩
  · simp at hnone
  · obtain rfl := Option.some.inj hs
    simp [hjob, hsub] at hfail
  · omega
  · obtain rfl := Option.some.inj hs
    simp only [hjob, hsub, Prod.mk.injEq, Option.some.injEq] at hsucc
    obtain ⟨rfl, rfl⟩ := hsucc
    have hout : (xorFrom (ofBlocks blk) (B * q) ctx.padded).take ctx.partialLen =
        xorFrom (ofBlocks blk) (B * q) ctx.pending := by
      rw [take_combine, ctx.take_padded]
    have henc : (xorFrom (ofBlocks blk) (B * q) ctx.padded).length = B := by
      rw [length_combine, ctx.length_padded]
    rw [show r = _ from hres]
    refine ⟨rfl, ?_, ⟨s', rfl⟩, hout, ctx.pending_encrypted henc, ⟨hat.key_eq, hat.iv_eq, hlt⟩,
      rfl⟩
    rw [hout, length_combine, hpend]

/-- A list of updates over a serving backend: all succeed, and together they emit the whole blocks
of the concatenated input, however it was cut. -/
theorem runUpdates_serves (h : Serves be alg key ivAt blk) (chunks : List Buffer) (s : σ)
    {ctx : Ctx B} {q : ℕ} (hat : ctx.At key ivAt q) :
    let run := runCalls (streamCall be alg) (some s) ctx (chunks.map .update)
    let a := absorb B ctx.pending (chunks.flatMap Buffer.bytes)
    (∀ r ∈ run.results, r.ret = true ∧ r.outl = some r.out.length ∧ ∃ q', r.ctx.At key ivAt q') ∧
      (∃ s', run.innerBackend = some s') ∧ run.output = xorFrom (ofBlocks blk) (B * q) a.1 ∧
      run.ctx.pending = a.2 ∧ run.ctx.At key ivAt (q + a.1.length / B) := by
  induction chunks generalizing s ctx q with
  | nil =>
    have hlt := hat.partialLen_lt
    have hpend := ctx.length_pending hlt.le
    have habs : absorb B ctx.pending [] = ([], ctx.pending) := absorb_nil (by omega)
    simp only [List.map_nil, runCalls, List.flatMap_nil, habs, List.length_nil, Nat.zero_div]
    exact ⟨by simp, ⟨s, rfl⟩, rfl, trivial, hat⟩
  | cons chunk chunks ih =>
    have hpend := ctx.length_pending hat.partialLen_lt.le
    obtain ⟨hret, houtl, ⟨s', hs'⟩, hout, hrest, hat'⟩ :=
      streamCipher_serves h s hat chunk.bytes chunk.length_lt
    have hblocks := absorb_fst_blocks (B := B) ctx.pending chunk.bytes
    rw [hpend] at hblocks
    rw [← hblocks.2] at hat'
    obtain ⟨hall, hback, hlater, hend, hatend⟩ := ih s' hat'
    have hsplit := absorb_append (Nat.pos_of_neZero B) ctx.pending chunk.bytes
      (chunks.flatMap Buffer.bytes)
    rw [← hrest] at hsplit
    simp only [List.map_cons, runCalls, streamCall, hs', List.flatMap_cons, hsplit]
    refine ⟨?_, hback, ?_, hend, ?_⟩
    · rintro r (_ | ⟨_, hr⟩)
      · exact ⟨hret, houtl, _, hat'⟩
      · exact hall r hr
    · have hpos : B * (q + (absorb B ctx.pending chunk.bytes).1.length / B) =
          B * q + (absorb B ctx.pending chunk.bytes).1.length := by
        rw [Nat.mul_add, Nat.mul_div_cancel' hblocks.1]
      rw [hpos] at hlater
      simp only [Run.output, List.flatMap_cons] at hlater ⊢
      rw [hout, hlater, xorFrom_append]
    · rw [List.length_append, Nat.add_div_of_dvd_right hblocks.1, ← Nat.add_assoc]
      exact hatend

/-- The stream law: from a context with nothing pending, updates and one final with room for
what is pending return 1 and write the whole input combined with the keystream. -/
theorem stream_law (h : Serves be alg key ivAt blk) (chunks : List Buffer) (s : σ) (init : Bool)
    {ctx : Ctx B} (hat : ctx.At key ivAt 0) (hempty : ctx.partialLen = 0) (outsize : ℕ) :
    let x := session (streamCall be alg) (some s) (init, ctx) chunks outsize
    x.updates.ctx.partialLen ≤ outsize →
      (∀ r ∈ x.calls, r.ret = true ∧ r.outl = some r.out.length ∧ ∃ q', r.ctx.At key ivAt q') ∧
        x.output = xorFrom (ofBlocks blk) 0 (chunks.flatMap Buffer.bytes) := by
  intro x hsize
  obtain ⟨hall, ⟨s', hs'⟩, hout, hrest, hatend⟩ := runUpdates_serves h chunks s hat
  obtain ⟨hret, houtl, _, hfin, _, hatfin, _⟩ := streamFinal_serves h s' hatend hsize
  have hnil := ctx.pending_of_zero hempty
  have hblocks := (absorb_fst_blocks (B := B) [] (chunks.flatMap Buffer.bytes)).1
  have hfinal : x.final = streamFinal be alg (some s') x.updates.ctx outsize := by
    simp only [x, session, streamCall, hs']
  simp only [hnil, Nat.mul_zero] at hout hrest hfin hatfin
  constructor
  · intro r hr
    rcases List.mem_append.mp hr with hr | hr
    · exact hall r hr
    · obtain rfl := List.mem_singleton.mp hr
      rw [hfinal]
      exact ⟨hret, houtl, _, hatfin⟩
  · have hjoin := xorFrom_append (ofBlocks blk) 0 (absorb B [] (chunks.flatMap Buffer.bytes)).1
      (absorb B [] (chunks.flatMap Buffer.bytes)).2
    rw [Nat.zero_add, absorb_append_eq, List.nil_append] at hjoin
    rw [Session.output, hfinal, hjoin]
    refine congrArg₂ (· ++ ·) hout (hfin.trans ?_)
    rw [hrest, Nat.zero_add, Nat.mul_div_cancel' hblocks]

end Session

end GpuCrypt
