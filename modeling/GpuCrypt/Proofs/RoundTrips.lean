import GpuCrypt.Model.Provider
import GpuCrypt.Proofs.FailureStreams
import GpuCrypt.Proofs.JobIsolation

/-!
# Encrypting and decrypting again

The jobs of a session depend on the lengths of its chunks and not on the data, and the batchers
combine each job with a pad that depends on its key and IV. So a session that is cut like the one
that encrypted a message decrypts it again, although AES-256 jobs are run by the ChaCha20 shader,
with which another cut gives another keystream.
-/

namespace GpuCrypt

open BlockBuffer Keystream

variable {σ : Type} {B : ℕ}

/-- From a state in `P`, jobs under `key` of at most `limit` bytes are combined with a pad that
depends on their IV, and leave a state in `P`. -/
def Pads (be : Backend σ) (P : σ → Prop) (alg : StreamAlg) (key : Vector Byte 32)
    (pad : Vector Byte 16 → ℕ → Byte) (limit : ℕ) : Prop :=
  ∀ s job, P s → job.key = key → job.algId = alg.algId → job.input.length ≤ limit →
    ∃ s', be.submit s job = (s', some (xorFrom (pad job.iv) 0 job.input)) ∧ P s'

/-- The pads of jobs of the given lengths one after the other, from block `q` on. -/
def padsFrom (B : ℕ) (pad : Vector Byte 16 → ℕ → Byte) (ivAt : ℕ → Vector Byte 16) :
    ℕ → List ℕ → ℕ → Byte
  | _, [] => fun _ => 0
  | q, n :: ns => join n (pad (ivAt q)) (padsFrom B pad ivAt (q + n / B) ns)

lemma xorFrom_join (ks ks' : ℕ → Byte) (d e : List Byte) :
    xorFrom (join d.length ks ks') 0 (d ++ e) = xorFrom ks 0 d ++ xorFrom ks' 0 e :=
  combine_join _ ks ks' d e

section Session

variable {be : Backend σ} {P : σ → Prop} {alg : StreamAlg} {key : Vector Byte 32}
  {pad : Vector Byte 16 → ℕ → Byte} {ivAt : ℕ → Vector Byte 16} {limit q q' : ℕ} {s s' : σ}

lemma Pads.not_refused (h : Pads be P alg key pad limit) {job : Job} (hs : P s)
    (hkey : job.key = key) (halg : job.algId = alg.algId) (hlen : job.input.length ≤ limit)
    (hsub : be.submit s job = (s', none)) : False := by
  obtain ⟨t, ht, _⟩ := h s job hs hkey halg hlen
  rw [hsub] at ht
  simp at ht

lemma Pads.served (h : Pads be P alg key pad limit) {job : Job} {out : List Byte} (hs : P s)
    (hkey : job.key = key) (halg : job.algId = alg.algId) (hlen : job.input.length ≤ limit)
    (hsub : be.submit s job = (s', some out)) :
    out = xorFrom (pad job.iv) 0 job.input ∧ P s' := by
  obtain ⟨t, ht, hP⟩ := h s job hs hkey halg hlen
  rw [hsub] at ht
  obtain ⟨rfl, hout⟩ := Prod.mk.inj ht
  exact ⟨Option.some.inj hout, hP⟩

/-- The output of a chain of jobs none of which is refused or too long. -/
lemma JobChain.servedOutput_pads (hB : 0 < B) (h : Pads be P alg key pad limit)
    {entries : List (Job × Option (List Byte))} (hchain : JobChain B alg key ivAt q entries q')
    (hruns : be.Runs s entries s') (hs : P s)
    (hall : ∀ e ∈ entries, e.2.isSome = true ∧ e.1.input.length ≤ limit) (ns : List ℕ) :
    servedOutput entries = xorFrom
      (padsFrom B pad ivAt q (entries.map (fun e => e.1.input.length) ++ ns)) 0
      (servedInput entries) := by
  induction hchain generalizing s with
  | nil => rfl
  | refused hlen _ _ => exact absurd (hall _ List.mem_cons_self).1 (by simp)
  | @served q q' n input out entries hlen _ ih =>
    cases hruns with
    | cons hsub hlater =>
      obtain ⟨hout, hs'⟩ := h.served hs rfl rfl (hall _ List.mem_cons_self).2 hsub
      have hrest := ih hlater hs' (fun e he => hall e (List.mem_cons_of_mem _ he))
      have hdiv : input.length / B = n := by rw [hlen, Nat.mul_div_cancel_left n hB]
      simp only [servedOutput, servedInput, List.flatMap_cons, Option.getD_some,
        Option.isSome_some, if_true, List.map_cons, List.cons_append, padsFrom] at hrest ⊢
      rw [xorFrom_join, hdiv, ← hrest, ← hout]

/-! ### No job is refused -/

lemma Updates.served_of_pads (h : Pads be P alg key pad limit) (hB : B ≤ limit) {ctx : Ctx B}
    (hkey : ctx.key = key) (hlen : ctx.partialLen ≤ B) {input : List Byte}
    (hinput : input.length ≤ limit) (hs : P s) {r : CallResult (Ctx B) σ}
    (hr : Updates be alg ctx input (some s) r) :
    r.ret = true ∧ ∃ s', r.innerBackend = some s' ∧ P s' := by
  have hrest : (ctx.rest input).length ≤ limit := by
    rw [ctx.length_rest]
    omega
  have hflushKey : (ctx.flushed alg input).key = key := by
    rw [Ctx.flushed, Ctx.topped, Ctx.bufferRest_key, hkey]
  have hflushLen : B ≤ ctx.partialLen + input.length →
      (ctx.flushJob alg input).input.length ≤ limit :=
    fun hfull => (length_flushJob alg ctx input hlen hfull).trans_le hB
  have hblocksLen : ∀ (c : Ctx B) (l : List Byte), l.length ≤ limit →
      (c.blocksJob alg l).input.length ≤ limit := by
    intro c l hl
    rw [length_blocksJob]
    exact (whole_le B l.length).trans hl
  have hfullOf : B ≤ (ctx.rest input).length → B ≤ ctx.partialLen + input.length := by
    rw [ctx.length_rest]
    omega
  cases hr with
  | buffered => exact ⟨rfl, s, rfl, hs⟩
  | flushFails _ s' _ hfull hflush =>
    exact (h.not_refused hs hkey rfl (hflushLen hfull) hflush).elim
  | flushes _ s' out _ hfull hflush _ =>
    exact ⟨rfl, s', rfl, (h.served hs hkey rfl (hflushLen hfull) hflush).2⟩
  | blocksFail _ s' _ _ hblocks =>
    exact (h.not_refused hs hkey rfl (hblocksLen ctx input hinput) hblocks).elim
  | blocks _ s' out _ _ hblocks =>
    exact ⟨rfl, s', rfl, (h.served hs hkey rfl (hblocksLen ctx input hinput) hblocks).2⟩
  | flushesBlocksFail _ s' s'' out _ hfull hflush hblocks =>
    have hs' := (h.served hs hkey rfl (hflushLen (hfullOf hfull)) hflush).2
    exact (h.not_refused hs' hflushKey rfl (hblocksLen _ _ hrest) hblocks).elim
  | flushesBlocks _ s' s'' out out' _ hfull hflush hblocks =>
    have hs' := (h.served hs hkey rfl (hflushLen (hfullOf hfull)) hflush).2
    exact ⟨rfl, s'', rfl, (h.served hs' hflushKey rfl (hblocksLen _ _ hrest) hblocks).2⟩

lemma runUpdates_of_pads (h : Pads be P alg key pad limit) (hB : 0 < B) (hlimit : B ≤ limit)
    (hadv : alg.Advances ivAt) (chunks : List Buffer)
    (hfit : ∀ c ∈ chunks, c.bytes.length ≤ limit) (hs : P s) {ctx : Ctx B}
    (hctx : ctx.Reached key ivAt q) :
    let run := runCalls (streamCall be alg) (some s) ctx (chunks.map .update)
    (∀ r ∈ run.results, r.ret = true) ∧ ∃ s', run.innerBackend = some s' ∧ P s' := by
  induction chunks generalizing s ctx q with
  | nil => exact ⟨by simp [runCalls], s, rfl, hs⟩
  | cons chunk chunks ih =>
    have hupdates := streamCipher_updates be alg (some s) ctx chunk.bytes hB hctx.partialLen_le
    obtain ⟨hret, s', hs', hP⟩ := hupdates.served_of_pads h hlimit hctx.key_eq hctx.partialLen_le
      (hfit chunk List.mem_cons_self) hs
    obtain ⟨_, _, q', _, hchained, _⟩ := hupdates.chained hB hadv hctx chunk.length_lt
    obtain ⟨hall, hend⟩ := ih (fun c hc => hfit c (List.mem_cons_of_mem _ hc)) hP hchained.reached
    simp only [List.map_cons, runCalls, streamCall, hs']
    refine ⟨?_, hend⟩
    rintro r (_ | ⟨_, hr⟩)
    · exact hret
    · exact hall r hr

lemma streamFinal_of_pads (h : Pads be P alg key pad limit) (hlimit : B ≤ limit) (hs : P s)
    {ctx : Ctx B} (hkey : ctx.key = key) {outsize : ℕ} (hroom : ctx.partialLen ≤ outsize) :
    (streamFinal be alg (some s) ctx outsize).ret = true := by
  have hpad : ctx.padded.length ≤ limit := ctx.length_padded.trans_le hlimit
  rcases streamFinal_cases be alg (some s) ctx outsize with
    ⟨_, hr⟩ | ⟨_, hnone, _⟩ | ⟨_, s₁, s₂, hs₁, hsub, _⟩ | ⟨_, _, _, _, _, _, hsmall, _⟩ |
      ⟨_, _, _, _, _, _, _, hr⟩
  · rw [hr]
  · simp at hnone
  · obtain rfl := Option.some.inj hs₁
    exact (h.not_refused hs hkey rfl hpad hsub).elim
  · omega
  · rw [hr]

/-- The lengths of the jobs of an update are at most the block size and the length of the input. -/
lemma le_of_mem_jobLengths {p n m : ℕ} (h : m ∈ jobLengths B p n) : m ≤ B ∨ m ≤ n := by
  have hwhole := whole_le B n
  have hrest := whole_le B (n - (B - p))
  unfold jobLengths at h
  split_ifs at h <;> simp only [List.mem_cons, List.not_mem_nil, or_false] at h <;> omega

lemma le_of_mem_runJobLengths (hlimit : B ≤ limit) {ns : List ℕ} (hns : ∀ n ∈ ns, n ≤ limit)
    {p m : ℕ} (h : m ∈ runJobLengths B p ns) : m ≤ limit := by
  induction ns generalizing p with
  | nil => simp [runJobLengths] at h
  | cons n ns ih =>
    rcases List.mem_append.mp h with h | h
    · have hn := hns n List.mem_cons_self
      rcases le_of_mem_jobLengths h with h | h <;> omega
    · exact ih (fun k hk => hns k (List.mem_cons_of_mem _ hk)) h

/-- A session over such a backend: the lengths of its chunks decide the keystream. -/
theorem session_pads (h : Pads be P alg key pad limit) (hB : 0 < B) (hlimit : B ≤ limit)
    (hadv : alg.Advances ivAt) (chunks : List Buffer)
    (hfit : ∀ c ∈ chunks, c.bytes.length ≤ limit) (hs : P s) (init : Bool) {ctx : Ctx B}
    (hctx : ctx.Reached key ivAt 0) (hzero : ctx.partialLen = 0) {outsize : ℕ}
    (hroom : B ≤ outsize) :
    let x := session (streamCall be alg) (some s) (init, ctx) chunks outsize
    (∀ r ∈ x.calls, r.ret = true) ∧
      x.output = xorFrom (padsFrom B pad ivAt 0
        (runJobLengths B 0 (chunks.map (fun c => c.bytes.length)) ++ [B])) 0
        (chunks.flatMap Buffer.bytes) := by
  intro x
  obtain ⟨hall, s', hs', hP⟩ := runUpdates_of_pads h hB hlimit hadv chunks hfit hs hctx
  obtain ⟨_, _, _, _, hchained, _⟩ := runUpdates_chained be hB hadv chunks s hctx
  have hfinal : x.final = streamFinal be alg (some s') x.updates.ctx outsize := by
    simp only [x, session, streamCall, hs']
  have hret : x.final.ret = true := by
    rw [hfinal]
    exact streamFinal_of_pads h hlimit hP hchained.reached.key_eq
      (hchained.reached.partialLen_le.trans hroom)
  refine ⟨?_, ?_⟩
  · intro r hr
    rcases List.mem_append.mp hr with hr | hr
    · exact hall r hr
    · rw [List.mem_singleton.mp hr, hret]
  · obtain ⟨_, entries, q', _, hruns, hchain, _, _, _, hfin⟩ :=
      session_chained be hB hadv chunks s init hctx outsize
    obtain ⟨hwrite, htaken, hlens⟩ := hfin hret
    obtain ⟨hmap, hserved⟩ := hlens hall
    have hinput : takenBy id ctx chunks x.updates.results = chunks.flatMap Buffer.bytes :=
      takenBy_of_all id ctx (length_results_session _ _ _ _ _) hall
    rw [ctx.pending_of_zero hzero, List.nil_append, hinput] at hwrite htaken
    rw [hzero] at hmap
    have hshort : ∀ e ∈ entries, e.2.isSome = true ∧ e.1.input.length ≤ limit := by
      intro e he
      refine ⟨hserved e he, ?_⟩
      have hmem : e.1.input.length ∈ entries.map (fun e => e.1.input.length) :=
        List.mem_map_of_mem he
      rw [hmap] at hmem
      rcases List.mem_append.mp hmem with hmem | hmem
      · refine le_of_mem_runJobLengths hlimit (fun n hn => ?_) hmem
        obtain ⟨c, hc, rfl⟩ := List.mem_map.mp hn
        exact hfit c hc
      · split_ifs at hmem <;> simp only [List.mem_cons, List.not_mem_nil, or_false] at hmem
        omega
    -- the pads do not change if a last one is added that nothing uses
    have hpads : ∃ ns, entries.map (fun e => e.1.input.length) ++ ns =
        runJobLengths B 0 (chunks.map (fun c => c.bytes.length)) ++ [B] := by
      rw [hmap]
      by_cases hpos : 0 < x.updates.ctx.partialLen
      · exact ⟨[], by rw [if_pos hpos, List.append_nil]⟩
      · exact ⟨[B], by rw [if_neg hpos, List.append_nil]⟩
    obtain ⟨ns, hns⟩ := hpads
    have hout := hchain.servedOutput_pads hB h hruns hs hshort ns
    rw [hns] at hout
    rw [hwrite, hout, take_combine, htaken]

end Session

/-! ### Over the batchers -/

/-- What the batchers combine an AES job of a context with: the AES-256 keystream for AES-128 keys,
and the ChaCha20 keystream for AES-256 keys. -/
def vc6AesPad (keyLen : ℕ) (key : Vector Byte 32) (iv : Vector Byte 16) : ℕ → Byte :=
  if keyLen = 32 then
    ofBlocks (fun j =>
      Rfc8439.block key (chachaCounter iv + BitVec.ofNat 32 j) (chachaNonce iv))
  else ofBlocks (fun g => Fips197.aes256 key (counter64 iv g))

lemma vc6Backend_pads (keyLen : ℕ) (key : Vector Byte 32) :
    Pads (vc6Backend .success) (fun s => ∀ alg, alg ≠ .count → s.chacha.pipelines alg = true)
      (vc6AesAlg keyLen) key (vc6AesPad keyLen key) ringSize := by
  rintro s job hpipe rfl halg hlen
  have hring : ¬ringSize < job.input.length := by omega
  by_cases hkeyLen : keyLen = 32
  · have halg' : vc6Algorithm job.algId = some .chacha20 := by
      rw [halg, vc6AesAlg, if_pos hkeyLen]
      rfl
    have hout := s.chacha.submit_output (hpipe .chacha20) job.input job.key job.iv
    simp only [Algorithm.output, if_neg hring] at hout
    simp only [vc6Backend, vc6SubmitJob, halg', vc6AesPad, if_pos hkeyLen, hout]
    refine ⟨_, rfl, fun alg halg => ?_⟩
    rw [Batcher.pipelines_submit]
    exact hpipe alg halg
  · have halg' : vc6Algorithm job.algId = some .aes256Ctr := by
      rw [halg, vc6AesAlg, if_neg hkeyLen]
      rfl
    have hout := s.aes256.submit_output job.input job.key job.iv
    simp only [Algorithm.output, if_neg hring] at hout
    simp only [vc6Backend, vc6SubmitJob, halg', vc6AesPad, if_neg hkeyLen, hout]
    exact ⟨_, rfl, hpipe⟩

/-- Two new AES contexts over the batchers, whose pipelines exist and whose Vulkan calls all
succeed, with the same key and IV and chunks of the same lengths: every call returns 1, and if the
second session is given the output of the first one it writes the input of the first one. -/
theorem vc6_aes_round_trip (backend backend' : Vc6Backend)
    (hpipe : ∀ alg, alg ≠ .count → backend.chacha.pipelines alg = true)
    (hpipe' : ∀ alg, alg ≠ .count → backend'.chacha.pipelines alg = true) (key : List Byte)
    (hkey : key.length = 16 ∨ key.length = 32) (iv : Vector Byte 16) (chunks chunks' : List Buffer)
    (hfit : ∀ c ∈ chunks, c.bytes.length ≤ ringSize)
    (hlens : chunks'.map (fun c => c.bytes.length) = chunks.map (fun c => c.bytes.length))
    {outsize : ℕ} (hroom : 16 ≤ outsize) :
    let be := vc6Backend .success
    let x := vc6AesSession be (some backend) .zalloc key iv.toList chunks outsize
    let y := vc6AesSession be (some backend') .zalloc key iv.toList chunks' outsize
    (∀ r ∈ x.calls ++ y.calls, r.ret = true) ∧
      (chunks'.flatMap Buffer.bytes = x.output → y.output = chunks.flatMap Buffer.bytes) := by
  have hlimit : 16 ≤ ringSize := by norm_num [ringSize_eq]
  have hpads := vc6Backend_pads key.length (overlay Vc6AesCtx.zalloc.key key)
  have hfit' : ∀ c ∈ chunks', c.bytes.length ≤ ringSize := by
    intro c hc
    have hmem : c.bytes.length ∈ chunks'.map (fun c => c.bytes.length) :=
      List.mem_map_of_mem hc
    rw [hlens] at hmem
    obtain ⟨d, hd, hlen⟩ := List.mem_map.mp hmem
    exact hlen ▸ hfit d hd
  have hreached := Vc6AesCtx.reached_started .zalloc key iv
  obtain ⟨hall, hout⟩ := session_pads hpads (by norm_num) hlimit (vc6AesAlg_advances key.length iv)
    chunks hfit hpipe true hreached rfl hroom
  obtain ⟨hall', hout'⟩ := session_pads hpads (by norm_num) hlimit
    (vc6AesAlg_advances key.length iv) chunks' hfit' hpipe' true hreached rfl hroom
  intro be x y
  have hx : x = _ := vc6AesSession_eq be (some backend) .zalloc iv hkey chunks outsize
  have hy : y = _ := vc6AesSession_eq be (some backend') .zalloc iv hkey chunks' outsize
  rw [hx, hy, Session.calls_mapCtx, Session.calls_mapCtx, Session.output_mapCtx,
    Session.output_mapCtx]
  refine ⟨?_, fun heq => ?_⟩
  · intro r hr
    rcases List.mem_append.mp hr with hr | hr
    · obtain ⟨r', hr', rfl⟩ := List.mem_map.mp hr
      exact hall r' hr'
    · obtain ⟨r', hr', rfl⟩ := List.mem_map.mp hr
      exact hall' r' hr'
  · rw [hout', hlens, heq, hout, xorFrom_xorFrom]

/-- A message of two blocks under an AES-256 key: cut like the message its ciphertext decrypts, and
cut into its blocks it does not. -/
theorem vc6_aes_round_trip_two_blocks :
    let backend : Vc6Backend :=
      { aes256 := ⟨fun _ => 0, fun _ => 0, fun _ => 0⟩
        chacha := ⟨fun _ => 0, fun _ => 0, fun _ => 0, 0, fun _ => true⟩ }
    let key : List Byte := List.replicate 32 7
    let iv : Vector Byte 16 := Vector.replicate 16 9
    let run (chunks : List Buffer) : Session Vc6AesCtx Vc6Backend :=
      vc6AesSession (vc6Backend .success) (some backend) .zalloc key iv.toList chunks 16
    let x := run [⟨List.replicate 32 5, by decide⟩]
    let piece (start n : ℕ) (hn : n < 2 ^ 64) : Buffer :=
      ⟨(x.output.drop start).take n, (List.length_take_le _ _).trans_lt hn⟩
    (run [piece 0 32 (by decide)]).output = List.replicate 32 5 ∧
      (run [piece 0 16 (by decide), piece 16 16 (by decide)]).output ≠
        List.replicate 32 5 := by
  intro backend key iv run x piece
  have hlen : x.output.length = 32 := by decide +kernel
  have hpiece : (piece 0 32 (by decide)).bytes = x.output := by
    simp only [piece, List.drop_zero]
    exact List.take_of_length_le hlen.le
  refine ⟨?_, by decide +kernel⟩
  have h := vc6_aes_round_trip backend backend (fun _ _ => rfl) (fun _ _ => rfl) key (.inr rfl) iv
    [⟨List.replicate 32 5, by decide⟩] [piece 0 32 (by decide)]
    (by
      rintro c (_ | ⟨_, hc⟩)
      · rw [ringSize_eq]
        decide
      · exact absurd hc List.not_mem_nil)
    (by simp only [List.map_cons, List.map_nil, hpiece, hlen, List.length_replicate])
    (show 16 ≤ 16 from le_rfl)
  exact h.2 (by rw [List.flatMap_cons, List.flatMap_nil, List.append_nil, hpiece])

end GpuCrypt
