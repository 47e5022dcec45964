import GpuCrypt.Proofs.CipherStreams
import GpuCrypt.Proofs.OutputBound

/-!
# The jobs of a session

Whatever a backend serves and refuses, the jobs of a session's updates form a chain: each has the IV
of its first block, a served one is followed by the next blocks and a refused one by the same blocks
again. The inputs that were served and the bytes that are pending are together what the updates have
taken.
-/

namespace GpuCrypt

open BlockBuffer Keystream

variable {σ γ : Type} {B : ℕ}

/-- `ivAt q` is the IV once `q` blocks have been encrypted. -/
def StreamAlg.Advances (alg : StreamAlg) (ivAt : ℕ → Vector Byte 16) : Prop :=
  ∀ q n, n < 2 ^ 64 → alg.advance (ivAt q) n = ivAt (q + n)

/-- Jobs and their results, from block `q` of a session to block `q'`. -/
inductive JobChain (B : ℕ) (alg : StreamAlg) (key : Vector Byte 32) (ivAt : ℕ → Vector Byte 16) :
    ℕ → List (Job × Option (List Byte)) → ℕ → Prop
  | nil (q : ℕ) : JobChain B alg key ivAt q [] q
  | refused {q q' n : ℕ} {input : List Byte} {entries : List (Job × Option (List Byte))}
      (hlen : input.length = B * n) (h : JobChain B alg key ivAt q entries q') :
      JobChain B alg key ivAt q
        (({ input := input, key := key, iv := ivAt q, algId := alg.algId }, none) :: entries) q'
  | served {q q' n : ℕ} {input out : List Byte} {entries : List (Job × Option (List Byte))}
      (hlen : input.length = B * n) (h : JobChain B alg key ivAt (q + n) entries q') :
      JobChain B alg key ivAt q
        (({ input := input, key := key, iv := ivAt q, algId := alg.algId }, some out) :: entries) q'

def servedInput (entries : List (Job × Option (List Byte))) : List Byte :=
  entries.flatMap (fun e => if e.2.isSome then e.1.input else [])

def servedOutput (entries : List (Job × Option (List Byte))) : List Byte :=
  entries.flatMap (fun e => e.2.getD [])

section Chain

variable {be : Backend σ} {alg : StreamAlg} {key : Vector Byte 32} {ivAt : ℕ → Vector Byte 16}
  {entries later : List (Job × Option (List Byte))} {q q' q'' : ℕ}

lemma JobChain.append (h : JobChain B alg key ivAt q entries q')
    (hlater : JobChain B alg key ivAt q' later q'') :
    JobChain B alg key ivAt q (entries ++ later) q'' := by
  induction h with
  | nil => exact hlater
  | refused hlen _ ih => exact .refused hlen (ih hlater)
  | served hlen _ ih => exact .served hlen (ih hlater)

lemma JobChain.le (h : JobChain B alg key ivAt q entries q') : q ≤ q' := by
  induction h with
  | nil => exact le_rfl
  | refused _ _ ih => exact ih
  | served _ _ ih => omega

lemma JobChain.length_servedInput (h : JobChain B alg key ivAt q entries q') :
    (servedInput entries).length + B * q = B * q' := by
  induction h with
  | nil => simp [servedInput]
  | refused _ _ ih => simpa [servedInput] using ih
  | served hlen _ ih =>
    rw [Nat.mul_add] at ih
    simp only [servedInput, List.flatMap_cons, Option.isSome_some, if_true, List.length_append,
      hlen] at ih ⊢
    omega

/-- The context belongs to the session and has encrypted `q` blocks. Unlike `Ctx.At` it may hold a
whole block, as after an update that failed. -/
structure Ctx.Reached (ctx : Ctx B) (key : Vector Byte 32) (ivAt : ℕ → Vector Byte 16) (q : ℕ) :
    Prop where
  key_eq : ctx.key = key
  iv_eq : ctx.iv = ivAt q
  partialLen_le : ctx.partialLen ≤ B

/-- From the backend `s` and `ctx`, a part of an update or more takes the bytes `taken` and writes
`out`, with the jobs `entries`. -/
structure Chained (be : Backend σ) (alg : StreamAlg) (key : Vector Byte 32)
    (ivAt : ℕ → Vector Byte 16) (s : σ) (ctx : Ctx B) (q : ℕ) (taken out : List Byte)
    (entries : List (Job × Option (List Byte))) (s' : σ) (ctx' : Ctx B) (q' : ℕ) : Prop where
  runs : be.Runs s entries s'
  chain : JobChain B alg key ivAt q entries q'
  reached : ctx'.Reached key ivAt q'
  out_eq : out = servedOutput entries
  input_eq : servedInput entries ++ ctx'.pending = ctx.pending ++ taken

variable {s s' s'' : σ} {ctx ctx' ctx'' : Ctx B}

lemma Ctx.Reached.nil (h : ctx.Reached key ivAt q) :
    Chained be alg key ivAt s ctx q [] [] [] s ctx q where
  runs := .nil s
  chain := .nil q
  reached := h
  out_eq := rfl
  input_eq := by simp [servedInput]

lemma Chained.append {taken taken' out out' : List Byte}
    (h : Chained be alg key ivAt s ctx q taken out entries s' ctx' q')
    (h' : Chained be alg key ivAt s' ctx' q' taken' out' later s'' ctx'' q'') :
    Chained be alg key ivAt s ctx q (taken ++ taken') (out ++ out') (entries ++ later) s'' ctx''
      q'' where
  runs := h.runs.append h'.runs
  chain := h.chain.append h'.chain
  reached := h'.reached
  out_eq := by
    rw [h.out_eq, h'.out_eq]
    simp only [servedOutput, List.flatMap_append]
  input_eq := by
    calc servedInput (entries ++ later) ++ ctx''.pending
        = servedInput entries ++ (servedInput later ++ ctx''.pending) := by
          simp only [servedInput, List.flatMap_append, List.append_assoc]
      _ = (servedInput entries ++ ctx'.pending) ++ taken' := by
          rw [h'.input_eq, List.append_assoc]
      _ = ctx.pending ++ (taken ++ taken') := by rw [h.input_eq, List.append_assoc]

/-! ### The parts of an update -/

lemma Ctx.Reached.buffer (h : ctx.Reached key ivAt q) {input : List Byte}
    (hshort : ctx.partialLen + input.length < B) :
    Chained be alg key ivAt s ctx q input [] [] s (ctx.bufferRest input) q where
  runs := .nil s
  chain := .nil q
  reached := by
    refine ⟨?_, ?_, ?_⟩
    · rw [Ctx.bufferRest_key, h.key_eq]
    · rw [Ctx.bufferRest_iv, h.iv_eq]
    · rw [Ctx.bufferRest_partialLen]
      exact hshort.le
  out_eq := rfl
  input_eq := by
    rw [ctx.pending_bufferRest input hshort.le]
    rfl

lemma Ctx.Reached.job_eq (alg : StreamAlg) (h : ctx.Reached key ivAt q) (input : List Byte) :
    ctx.job alg input = { input := input, key := key, iv := ivAt q, algId := alg.algId } := by
  rw [Ctx.job, h.key_eq, h.iv_eq]

lemma Ctx.Reached.flush_refused (h : ctx.Reached key ivAt q) {input : List Byte}
    (hfull : B ≤ ctx.partialLen + input.length)
    (hsub : be.submit s (ctx.flushJob alg input) = (s', none)) :
    Chained be alg key ivAt s ctx q (input.take (B - ctx.partialLen)) []
      [(ctx.flushJob alg input, none)] s' (ctx.topped input) q where
  runs := .single hsub
  chain := by
    have hlen := length_flushJob alg ctx input h.partialLen_le hfull
    rw [Ctx.flushJob, h.job_eq alg] at hlen ⊢
    exact .refused (hlen.trans (Nat.mul_one B).symm) (.nil q)
  reached := by
    refine ⟨?_, ?_, ?_⟩
    · rw [Ctx.topped, Ctx.bufferRest_key, h.key_eq]
    · rw [Ctx.topped, Ctx.bufferRest_iv, h.iv_eq]
    · rw [ctx.partialLen_topped input h.partialLen_le hfull]
  out_eq := rfl
  input_eq := by
    rw [ctx.pending_topped input h.partialLen_le]
    rfl

lemma Ctx.Reached.flush_served (hadv : alg.Advances ivAt) (h : ctx.Reached key ivAt q)
    {input out : List Byte} (hfull : B ≤ ctx.partialLen + input.length)
    (hsub : be.submit s (ctx.flushJob alg input) = (s', some out)) :
    Chained be alg key ivAt s ctx q (input.take (B - ctx.partialLen)) out
      [(ctx.flushJob alg input, some out)] s' (ctx.flushed alg input) (q + 1) where
  runs := .single hsub
  chain := by
    have hlen := length_flushJob alg ctx input h.partialLen_le hfull
    rw [Ctx.flushJob, h.job_eq alg] at hlen ⊢
    exact .served (hlen.trans (Nat.mul_one B).symm) (.nil (q + 1))
  reached := by
    refine ⟨?_, ?_, Nat.zero_le B⟩
    · rw [Ctx.flushed, Ctx.topped, Ctx.bufferRest_key, h.key_eq]
    · rw [Ctx.flushed, h.iv_eq, hadv q 1 (by norm_num)]
  out_eq := by simp [servedOutput]
  input_eq := by
    rw [(ctx.flushed alg input).pending_of_zero rfl]
    simp [servedInput, Ctx.flushJob, Ctx.job]

lemma Ctx.Reached.blocks_refused (h : ctx.Reached key ivAt q) {input : List Byte}
    (hsub : be.submit s (ctx.blocksJob alg input) = (s', none)) :
    Chained be alg key ivAt s ctx q [] [] [(ctx.blocksJob alg input, none)] s' ctx q where
  runs := .single hsub
  chain := by
    have hlen := length_blocksJob alg ctx input
    rw [Ctx.blocksJob, h.job_eq alg] at hlen ⊢
    exact .refused hlen (.nil q)
  reached := h
  out_eq := rfl
  input_eq := by simp [servedInput]

lemma Ctx.Reached.blocks_served (hB : 0 < B) (hadv : alg.Advances ivAt)
    (h : ctx.Reached key ivAt q) (hzero : ctx.partialLen = 0) {input out : List Byte}
    (hlen : input.length < 2 ^ 64)
    (hsub : be.submit s (ctx.blocksJob alg input) = (s', some out)) :
    Chained be alg key ivAt s ctx q input out [(ctx.blocksJob alg input, some out)] s'
      ((ctx.advanced alg input).bufferRest (tail B input)) (q + input.length / B) where
  runs := .single hsub
  chain := by
    have hlen := length_blocksJob alg ctx input
    rw [Ctx.blocksJob, h.job_eq alg] at hlen ⊢
    exact .served hlen (.nil _)
  reached := by
    have hmod := Nat.mod_lt input.length hB
    refine ⟨?_, ?_, ?_⟩
    · rw [Ctx.bufferRest_key, Ctx.advanced, h.key_eq]
    · have hsmall : input.length / B < 2 ^ 64 := (Nat.div_le_self _ _).trans_lt hlen
      rw [Ctx.bufferRest_iv, Ctx.advanced, h.iv_eq, hadv q _ hsmall]
    · simp only [Ctx.bufferRest_partialLen, Ctx.advanced, hzero, length_tail]
      omega
  out_eq := by simp [servedOutput]
  input_eq := by
    have hmod := Nat.mod_lt input.length hB
    have hroom : (ctx.advanced alg input).partialLen + (tail B input).length ≤ B := by
      simp only [Ctx.advanced, hzero, length_tail]
      omega
    have hnil : (ctx.advanced alg input).pending = [] := Ctx.pending_of_zero _ hzero
    rw [Ctx.pending_bufferRest _ _ hroom, hnil, ctx.pending_of_zero hzero]
    simp [servedInput, Ctx.blocksJob, Ctx.job, tail]

/-! ### An update and a run of updates -/

/-- What an update takes of its input: all of it if it returns 1, and otherwise what completes the
block that was pending. -/
def Ctx.taken (ctx : Ctx B) (input : List Byte) (ret : Bool) : List Byte :=
  if ret then input else if 0 < ctx.partialLen then input.take (B - ctx.partialLen) else []

/-- The lengths of the jobs of an update whose jobs are all served, with `p` bytes pending and `n`
bytes of input. -/
def jobLengths (B p n : ℕ) : List ℕ :=
  if 0 < p then
    if p + n < B then []
    else B :: if n - (B - p) < B then [] else [whole B (n - (B - p))]
  else if n < B then [] else [whole B n]

lemma Updates.chained (hB : 0 < B) (hadv : alg.Advances ivAt) {input : List Byte}
    {r : CallResult (Ctx B) σ} (h : Updates be alg ctx input (some s) r)
    (hctx : ctx.Reached key ivAt q) (hlen : input.length < 2 ^ 64) :
    ∃ s' entries q', r.innerBackend = some s' ∧
      Chained be alg key ivAt s ctx q (ctx.taken input r.ret) r.out entries s' r.ctx q' ∧
      (r.ret = true → entries.map (fun e => e.1.input.length) =
        jobLengths B ctx.partialLen input.length ∧ ∀ e ∈ entries, e.2.isSome = true) := by
  have hrest : (ctx.rest input).length < 2 ^ 64 := by
    rw [ctx.length_rest]
    omega
  have hsplit : input = input.take (B - ctx.partialLen) ++ ctx.rest input :=
    (List.take_append_drop _ _).symm
  cases h with
  | buffered _ hshort =>
    refine ⟨s, [], q, rfl, hctx.buffer hshort, fun _ => ⟨?_, by simp⟩⟩
    unfold jobLengths
    by_cases hpos : 0 < ctx.partialLen
    · rw [if_pos hpos, if_pos hshort, List.map_nil]
    · rw [if_neg hpos, if_pos (by omega), List.map_nil]
  | flushFails _ s' hpos hfull hflush =>
    refine ⟨s', [(ctx.flushJob alg input, none)], q, rfl, ?_, by simp⟩
    simpa only [Ctx.taken, Bool.false_eq_true, if_false, if_pos hpos]
      using hctx.flush_refused hfull hflush
  | flushes _ s' out hpos hfull hflush hshort =>
    have hfirst := hctx.flush_served hadv hfull hflush
    have hall := hfirst.append (hfirst.reached.buffer
      (by rwa [Ctx.partialLen_flushed, Nat.zero_add]))
    rw [← hsplit, List.append_nil, List.append_nil] at hall
    refine ⟨s', _, q + 1, rfl, hall, fun _ => ⟨?_, by simp⟩⟩
    rw [ctx.length_rest] at hshort
    rw [jobLengths, if_pos hpos, if_neg (by omega), if_pos hshort]
    simp only [List.map_cons, List.map_nil,
      length_flushJob alg ctx input hctx.partialLen_le hfull]
  | blocksFail _ s' hzero _ hblocks =>
    refine ⟨s', [(ctx.blocksJob alg input, none)], q, rfl, ?_, by simp⟩
    have hpos : ¬0 < ctx.partialLen := by omega
    simpa only [Ctx.taken, Bool.false_eq_true, if_false, if_neg hpos]
      using hctx.blocks_refused hblocks
  | blocks _ s' out hzero hfull hblocks =>
    have hall := hctx.blocks_served hB hadv hzero hlen hblocks
    refine ⟨s', [(ctx.blocksJob alg input, some out)], _, rfl, hall, fun _ => ⟨?_, by simp⟩⟩
    rw [jobLengths, if_neg (by omega), if_neg (by omega)]
    simp only [List.map_cons, List.map_nil, length_blocksJob]
  | flushesBlocksFail _ s' s'' out hpos hfull hflush hblocks =>
    have hle : B ≤ ctx.partialLen + input.length := by
      rw [ctx.length_rest] at hfull
      omega
    have hfirst := hctx.flush_served hadv hle hflush
    have hall := hfirst.append (hfirst.reached.blocks_refused hblocks)
    rw [List.append_nil, List.append_nil] at hall
    refine ⟨s'', [(ctx.flushJob alg input, some out)] ++
      [((ctx.flushed alg input).blocksJob alg (ctx.rest input), none)], q + 1, rfl, ?_, by simp⟩
    simpa only [Ctx.taken, Bool.false_eq_true, if_false, if_pos hpos] using hall
  | flushesBlocks _ s' s'' out out' hpos hfull hflush hblocks =>
    have hle : B ≤ ctx.partialLen + input.length := by
      rw [ctx.length_rest] at hfull
      omega
    have hfirst := hctx.flush_served hadv hle hflush
    have hall := hfirst.append (hfirst.reached.blocks_served hB hadv
      (ctx.partialLen_flushed alg input) hrest hblocks)
    rw [← hsplit] at hall
    refine ⟨s'', _, _, rfl, hall, fun _ => ⟨?_, by simp⟩⟩
    rw [ctx.length_rest] at hfull
    rw [jobLengths, if_pos hpos, if_neg (by omega), if_neg (by omega)]
    simp only [List.cons_append, List.nil_append, List.map_cons, List.map_nil, length_blocksJob,
      length_flushJob alg ctx input hctx.partialLen_le hle, ctx.length_rest]

/-- What the updates of a run take together. -/
def takenBy (stream : γ → Ctx B) : γ → List Buffer → List (CallResult γ σ) → List Byte
  | ctx, chunk :: chunks, r :: results =>
    (stream ctx).taken chunk.bytes r.ret ++ takenBy stream r.ctx chunks results
  | _, _, _ => []

/-- The lengths of the jobs of updates with inputs of the given lengths. -/
def runJobLengths (B : ℕ) : ℕ → List ℕ → List ℕ
  | _, [] => []
  | p, n :: ns => jobLengths B p n ++ runJobLengths B ((p + n) % B) ns

lemma runUpdates_chained (be : Backend σ) (hB : 0 < B) (hadv : alg.Advances ivAt)
    (chunks : List Buffer) (s : σ) {ctx : Ctx B} {q : ℕ} (hctx : ctx.Reached key ivAt q) :
    let run := runCalls (streamCall be alg) (some s) ctx (chunks.map .update)
    ∃ s' entries q', run.innerBackend = some s' ∧
      Chained be alg key ivAt s ctx q (takenBy id ctx chunks run.results) run.output entries s'
        run.ctx q' ∧
      ((∀ r ∈ run.results, r.ret = true) → entries.map (fun e => e.1.input.length) =
        runJobLengths B ctx.partialLen (chunks.map (fun c => c.bytes.length)) ∧
          ∀ e ∈ entries, e.2.isSome = true) := by
  induction chunks generalizing s ctx q with
  | nil => exact ⟨s, [], q, rfl, hctx.nil, fun _ => ⟨rfl, by simp⟩⟩
  | cons chunk chunks ih =>
    have hupdates := streamCipher_updates be alg (some s) ctx chunk.bytes hB hctx.partialLen_le
    obtain ⟨s', entries, q', hs', hfirst, hlens⟩ :=
      hupdates.chained hB hadv hctx chunk.length_lt
    obtain ⟨s'', later, q'', hs'', hrest, hlens'⟩ := ih s' hfirst.reached
    simp only [List.map_cons, runCalls, streamCall, hs', Run.output, List.flatMap_cons, takenBy]
    refine ⟨s'', entries ++ later, q'', hs'', hfirst.append hrest, fun hall => ?_⟩
    have hret := hall _ List.mem_cons_self
    obtain ⟨hmap, hserved⟩ := hlens hret
    obtain ⟨hmap', hserved'⟩ := hlens' (fun r hr => hall r (List.mem_cons_of_mem _ hr))
    -- a whole number of blocks has been encrypted, and less than a block is left
    have hlt := (hupdates.partialLen_le hB hctx.partialLen_le).2 hret
    have hblocks := hfirst.chain.length_servedInput
    have hsum := congrArg List.length hfirst.input_eq
    simp only [List.length_append, Ctx.length_pending _ hlt.le,
      Ctx.length_pending _ hctx.partialLen_le, Ctx.taken, hret, if_true] at hsum
    obtain ⟨n, rfl⟩ := Nat.exists_eq_add_of_le hfirst.chain.le
    rw [Nat.mul_add] at hblocks
    have hmod : (streamCipher be alg (some s) ctx chunk.bytes).ctx.partialLen =
        (ctx.partialLen + chunk.bytes.length) % B := by
      have hn : (servedInput entries).length = B * n := by omega
      rw [← hsum, hn, Nat.mul_add_mod, Nat.mod_eq_of_lt hlt]
    refine ⟨?_, ?_⟩
    · rw [List.map_append, hmap, hmap', hmod, runJobLengths]
    · intro e he
      exact (List.mem_append.mp he).elim (hserved e) (hserved' e)

lemma Backend.Runs.length_servedOutput (h : be.Runs s entries s') :
    (servedOutput entries).length = (servedInput entries).length := by
  induction h with
  | nil => rfl
  | @cons s s' s'' job result entries hsub _ ih =>
    simp only [servedOutput, servedInput, List.flatMap_cons, List.length_append] at ih ⊢
    rw [ih]
    cases result with
    | none => rfl
    | some out =>
      simp only [Option.getD_some, Option.isSome_some, if_true, be.length_out _ _ _ _ hsub]

/-- The jobs of a final. If it returns 1 it writes the part of their output that is not padding. -/
lemma streamFinal_chained (be : Backend σ) (alg : StreamAlg) (s : σ)
    (hctx : ctx.Reached key ivAt q) (outsize : ℕ) :
    let r := streamFinal be alg (some s) ctx outsize
    ∃ s' entries q', r.innerBackend = some s' ∧ be.Runs s entries s' ∧
      JobChain B alg key ivAt q entries q' ∧
      (r.ret = true → r.out = (servedOutput entries).take ctx.partialLen ∧
        (servedInput entries).take ctx.partialLen = ctx.pending ∧
        entries.map (fun e => e.1.input.length) = (if 0 < ctx.partialLen then [B] else []) ∧
        ∀ e ∈ entries, e.2.isSome = true) := by
  have hpad : ctx.padded.length = B * 1 := by rw [ctx.length_padded, Nat.mul_one]
  have hjob := hctx.job_eq alg ctx.padded
  intro r
  rcases streamFinal_cases be alg (some s) ctx outsize with
    ⟨hzero, h⟩ | ⟨_, hnone, _⟩ | ⟨_, s₁, s', hs, hsub, h⟩ | ⟨_, s₁, s', enc, hs, hsub, _, h⟩ |
      ⟨hpos, s₁, s', enc, hs, hsub, _, h⟩
  · simp only [r, h]
    refine ⟨s, [], q, rfl, .nil s, .nil q, fun _ => ?_⟩
    simp [hzero, ctx.pending_of_zero hzero, servedOutput, servedInput]
  · simp at hnone
  all_goals
    obtain rfl := Option.some.inj hs
    rw [hjob] at hsub
    simp only [r, h]
  · exact ⟨s', _, q, rfl, .single hsub, .refused hpad (.nil q), fun hret => by simp at hret⟩
  · exact ⟨s', _, q + 1, rfl, .single hsub, .served hpad (.nil _), fun hret => by simp at hret⟩
  · refine ⟨s', _, q + 1, rfl, .single hsub, .served hpad (.nil _), fun _ => ⟨?_, ?_, ?_, by simp⟩⟩
    · simp [servedOutput]
    · simpa [servedInput] using ctx.take_padded
    · simp [hpos, ctx.length_padded]

/-- The jobs of a session of updates and a final. If the final returns 1, what has been written is
the served output, and what has been taken is the served input, both without the padding. -/
theorem session_chained (be : Backend σ) (hB : 0 < B) (hadv : alg.Advances ivAt)
    (chunks : List Buffer) (s : σ) (init : Bool) (hctx : ctx.Reached key ivAt q) (outsize : ℕ) :
    let x := session (streamCall be alg) (some s) (init, ctx) chunks outsize
    let taken := ctx.pending ++ takenBy id ctx chunks x.updates.results
    ∃ s' entries q', x.final.innerBackend = some s' ∧ be.Runs s entries s' ∧
      JobChain B alg key ivAt q entries q' ∧
      x.updates.output <+: servedOutput entries ∧ x.updates.output.length ≤ taken.length ∧
      taken.take x.updates.output.length <+: servedInput entries ∧
      (x.final.ret = true → x.output = (servedOutput entries).take taken.length ∧
        (servedInput entries).take taken.length = taken ∧
        ((∀ r ∈ x.updates.results, r.ret = true) → entries.map (fun e => e.1.input.length) =
          runJobLengths B ctx.partialLen (chunks.map (fun c => c.bytes.length)) ++
            (if 0 < x.updates.ctx.partialLen then [B] else []) ∧
          ∀ e ∈ entries, e.2.isSome = true)) := by
  intro x taken
  obtain ⟨s', entries, q', hs', hchained, hlens⟩ :=
    runUpdates_chained be hB hadv chunks s hctx
  obtain ⟨s'', later, q'', hs'', hruns, hchain, hfin⟩ :=
    streamFinal_chained be alg s' hchained.reached outsize
  have hfinal : x.final = streamFinal be alg (some s') x.updates.ctx outsize := by
    simp only [x, session, streamCall, hs']
  have hup : x.updates.output = servedOutput entries := hchained.out_eq
  have htaken : servedInput entries ++ x.updates.ctx.pending = taken := hchained.input_eq
  have hsize := hchained.runs.length_servedOutput
  have hpend := Ctx.length_pending x.updates.ctx hchained.reached.partialLen_le
  have hlen : taken.length = (servedInput entries).length + x.updates.ctx.partialLen := by
    rw [← htaken, List.length_append, hpend]
  have hout : servedOutput (entries ++ later) = servedOutput entries ++ servedOutput later :=
    List.flatMap_append
  have hin : servedInput (entries ++ later) = servedInput entries ++ servedInput later :=
    List.flatMap_append
  rw [hfinal]
  refine ⟨s'', entries ++ later, q'', hs'', hchained.runs.append hruns,
    hchained.chain.append hchain, ?_, ?_, ?_, fun hret => ?_⟩
  · rw [hup, hout]
    exact List.prefix_append _ _
  · rw [hup, hsize, hlen]
    exact Nat.le_add_right _ _
  · rw [hup, hsize, ← htaken, List.take_left, hin]
    exact List.prefix_append _ _
  · obtain ⟨hwrite, hpending, hmap, hserved⟩ := hfin hret
    refine ⟨?_, ?_, fun hall => ?_⟩
    · have hwrite' : (streamFinal be alg (some s') x.updates.ctx outsize).out =
          (servedOutput later).take x.updates.ctx.partialLen := hwrite
      rw [Session.output, hfinal, hup, hwrite', hout, hlen, ← hsize, List.take_length_add_append]
    · rw [hin, hlen, List.take_length_add_append, ← htaken]
      exact congrArg (servedInput entries ++ ·) hpending
    · obtain ⟨hmap', hserved'⟩ := hlens hall
      refine ⟨?_, ?_⟩
      · rw [List.map_append, hmap', hmap]
        rfl
      · intro e he
        exact (List.mem_append.mp he).elim (hserved' e) (hserved e)

end Chain

end GpuCrypt
