import GpuCrypt.Proofs.ChachaJob
import GpuCrypt.Proofs.StreamEnds

/-!
# The counters of a ChaCha20 session

A session works through its counters one by one, modulo `2 ^ 32`, as long as it encrypts nothing
after a final that had to encrypt what was pending. Nothing stops it when the counter comes round.
-/

namespace GpuCrypt

open BlockBuffer LittleEndian

variable {σ γ : Type}

/-- The counter and the nonce of each block that a ChaCha20 job encrypts. -/
def Job.chachaBlocks (job : Job) : List (Word × Word × Word × Word) :=
  (List.range ((job.input.length + 63) / 64)).map (fun g =>
    Chacha20.blockId (chachaParams (fun _ => 0) job.input.length job.key job.iv)
      (BitVec.ofNat 32 g))

/-- The blocks of the jobs that have been served. -/
def servedBlocks (entries : List (Job × Bool)) : List (Word × Word × Word × Word) :=
  (entries.filter Prod.snd).flatMap (fun e => e.1.chachaBlocks)

/-- The blocks that a run has encrypted. -/
def Run.chachaBlocks (r : Run γ (σ × List (Job × Bool))) : List (Word × Word × Word × Word) :=
  r.innerBackend.toList.flatMap (fun s => servedBlocks s.2)

/-- The `i`-th counter from an IV on, and the nonce of the IV. -/
def chachaBlockId (iv : Vector Byte 16) (i : ℕ) : Word × Word × Word × Word :=
  (chachaCounter iv + BitVec.ofNat 32 i, wordAt (chachaNonce iv) 0, wordAt (chachaNonce iv) 1,
    wordAt (chachaNonce iv) 2)

lemma blockId_chachaParams (ubo : Ubo) (len : ℕ) (key : Vector Byte 32) (iv : Vector Byte 16)
    (g : ℕ) :
    Chacha20.blockId (chachaParams ubo len key iv) (BitVec.ofNat 32 g) = chachaBlockId iv g := by
  have hnonce : ∀ i, i < 3 →
      Chacha20.nonce (chachaParams ubo len key iv) i = wordAt (chachaNonce iv) i :=
    fun i hi => nonce_chachaParams ubo len key iv hi
  have hwords : Chacha20.blockId (chachaParams ubo len key iv) (BitVec.ofNat 32 g) =
      (Chacha20.nonce (chachaParams ubo len key iv) 3 + BitVec.ofNat 32 g,
        Chacha20.nonce (chachaParams ubo len key iv) 0,
        Chacha20.nonce (chachaParams ubo len key iv) 1,
        Chacha20.nonce (chachaParams ubo len key iv) 2) := rfl
  rw [hwords, counter_chachaParams, hnonce 0 (by omega), hnonce 1 (by omega), hnonce 2 (by omega)]
  rfl

lemma chachaBlockId_ivAt (iv : Vector Byte 16) (q i : ℕ) :
    chachaBlockId (chachaIvAt iv q) i = chachaBlockId iv (q + i) := by
  simp only [chachaBlockId, chachaIvAt, chachaCounter_set, chachaNonce_set, chachaCounter_add]

/-- Up to `2 ^ 32` counters in a row are different, and not one more. -/
lemma nodup_chachaBlockId (iv : Vector Byte 16) (n : ℕ) :
    ((List.range n).map (chachaBlockId iv)).Nodup ↔ n ≤ 2 ^ 32 := by
  constructor
  · intro hnodup
    by_contra hlong
    have hwrap : chachaBlockId iv 0 = chachaBlockId iv (2 ^ 32) := by
      have hzero : BitVec.ofNat 32 (2 ^ 32) = BitVec.ofNat 32 0 := by decide
      rw [chachaBlockId, chachaBlockId, hzero]
    have hsame := List.inj_on_of_nodup_map hnodup (List.mem_range.mpr (by omega))
      (List.mem_range.mpr (by omega)) hwrap
    simp at hsame
  · intro hn
    refine List.Nodup.map_on ?_ List.nodup_range
    intro i hi j hj heq
    rw [List.mem_range] at hi hj
    have hcounter := congrArg (fun b => (Prod.fst b).toNat) heq
    simp only [chachaBlockId, BitVec.toNat_add, BitVec.toNat_ofNat] at hcounter
    have hlt := (chachaCounter iv).isLt
    omega

/-! ### Runs -/

/-- The next blocks of a stream, from block `q` on. -/
def nextBlocks (iv : Vector Byte 16) (q n : ℕ) : List (Word × Word × Word × Word) :=
  (List.range n).map (fun i => chachaBlockId iv (q + i))

lemma nextBlocks_zero (iv : Vector Byte 16) (n : ℕ) :
    nextBlocks iv 0 n = (List.range n).map (chachaBlockId iv) := by
  simp only [nextBlocks, Nat.zero_add]

lemma nextBlocks_append (iv : Vector Byte 16) (q m n : ℕ) :
    nextBlocks iv q m ++ nextBlocks iv (q + m) n = nextBlocks iv q (m + n) := by
  rw [nextBlocks, nextBlocks, nextBlocks, List.range_add, List.map_append, List.map_map]
  simp only [Function.comp_def, Nat.add_assoc]

lemma Job.chachaBlocks_of_iv {job : Job} {iv : Vector Byte 16} {q n : ℕ}
    (hiv : job.iv = chachaIvAt iv q) (hlen : job.input.length = 64 * n) :
    job.chachaBlocks = nextBlocks iv q n := by
  have hblocks : (64 * n + 63) / 64 = n := by omega
  rw [Job.chachaBlocks, hlen, hblocks, nextBlocks]
  apply List.map_congr_left
  intro g _
  rw [blockId_chachaParams, hiv, chachaBlockId_ivAt]

lemma servedBlocks_of_refused {be : Backend σ} {s s' : σ × List (Job × Bool)} {job : Job}
    (h : be.recorded.submit s job = (s', none)) : servedBlocks s'.2 = servedBlocks s.2 := by
  rw [Backend.recorded_submit h, servedBlocks, List.filter_append, List.flatMap_append]
  exact List.append_nil _

lemma servedBlocks_of_served {be : Backend σ} {s s' : σ × List (Job × Bool)} {job : Job}
    {out : List Byte} (h : be.recorded.submit s job = (s', some out)) :
    servedBlocks s'.2 = servedBlocks s.2 ++ job.chachaBlocks := by
  rw [Backend.recorded_submit h, servedBlocks, List.filter_append, List.flatMap_append]
  exact congrArg (servedBlocks s.2 ++ ·) (List.append_nil _)

/-- An update encrypts the next blocks and moves the IV on by as many. -/
lemma Updates.chachaBlocks {be : Backend σ} {ctx : Vc6ChachaCtx} {input : List Byte}
    {s : σ × List (Job × Bool)} {r : CallResult Vc6ChachaCtx (σ × List (Job × Bool))}
    (h : Updates be.recorded vc6Chacha20Alg ctx input (some s) r) (hlen : ctx.partialLen ≤ 64)
    {iv : Vector Byte 16} {q : ℕ} (hiv : ctx.iv = chachaIvAt iv q) :
    ∃ s' n, r.innerBackend = some s' ∧
      servedBlocks s'.2 = servedBlocks s.2 ++ nextBlocks iv q n ∧
      r.ctx.iv = chachaIvAt iv (q + n) := by
  have hnone : servedBlocks s.2 = servedBlocks s.2 ++ nextBlocks iv q 0 := by simp [nextBlocks]
  have hflushed : (ctx.flushed vc6Chacha20Alg input).iv = chachaIvAt iv (q + 1) := by
    rw [Ctx.flushed, hiv, vc6Chacha20Alg_advance]
  have hflushJob : 64 ≤ ctx.partialLen + input.length →
      (ctx.flushJob vc6Chacha20Alg input).chachaBlocks = nextBlocks iv q 1 :=
    fun hfull => Job.chachaBlocks_of_iv hiv (length_flushJob vc6Chacha20Alg ctx input hlen hfull)
  have hrest := ctx.length_rest input
  cases h with
  | buffered => exact ⟨s, 0, rfl, hnone, by rw [Ctx.bufferRest_iv, hiv, Nat.add_zero]⟩
  | flushFails _ s' hpos hfull hflush =>
    refine ⟨s', 0, rfl, (servedBlocks_of_refused hflush).trans hnone, ?_⟩
    rw [Ctx.topped, Ctx.bufferRest_iv, hiv, Nat.add_zero]
  | flushes _ s' out hpos hfull hflush hshort =>
    have hserved := servedBlocks_of_served hflush
    rw [hflushJob hfull] at hserved
    exact ⟨s', 1, rfl, hserved, by rw [Ctx.bufferRest_iv, hflushed]⟩
  | blocksFail _ s' hzero hfull hblocks =>
    exact ⟨s', 0, rfl, (servedBlocks_of_refused hblocks).trans hnone, by rw [hiv, Nat.add_zero]⟩
  | blocks _ s' out hzero hfull hblocks =>
    have hserved := servedBlocks_of_served hblocks
    rw [Job.chachaBlocks_of_iv hiv (length_blocksJob vc6Chacha20Alg ctx input)] at hserved
    refine ⟨s', _, rfl, hserved, ?_⟩
    rw [Ctx.bufferRest_iv, Ctx.advanced, hiv, vc6Chacha20Alg_advance]
  | flushesBlocksFail _ s' s'' out hpos hfull hflush hblocks =>
    have hserved := servedBlocks_of_refused hblocks
    rw [servedBlocks_of_served hflush, hflushJob (by omega)] at hserved
    exact ⟨s'', 1, rfl, hserved, hflushed⟩
  | flushesBlocks _ s' s'' out out' hpos hfull hflush hblocks =>
    have hserved := servedBlocks_of_served hblocks
    rw [servedBlocks_of_served hflush, hflushJob (by omega),
      Job.chachaBlocks_of_iv hflushed (length_blocksJob vc6Chacha20Alg _ _), List.append_assoc,
      nextBlocks_append] at hserved
    refine ⟨s'', _, rfl, hserved, ?_⟩
    rw [Ctx.bufferRest_iv, Ctx.advanced, hflushed, vc6Chacha20Alg_advance, Nat.add_assoc]

/-- A final encrypts the next block or none, and leaves the IV where it was. -/
lemma streamFinal_chachaBlocks (be : Backend σ) (s : σ × List (Job × Bool)) (ctx : Vc6ChachaCtx)
    (outsize : ℕ) {iv : Vector Byte 16} {q : ℕ} (hiv : ctx.iv = chachaIvAt iv q) :
    let r := streamFinal be.recorded vc6Chacha20Alg (some s) ctx outsize
    ∃ s' n, r.innerBackend = some s' ∧
      servedBlocks s'.2 = servedBlocks s.2 ++ nextBlocks iv q n ∧ r.ctx.iv = chachaIvAt iv q := by
  intro r
  have hnone : servedBlocks s.2 = servedBlocks s.2 ++ nextBlocks iv q 0 := by simp [nextBlocks]
  have hjob : (ctx.job vc6Chacha20Alg ctx.padded).chachaBlocks = nextBlocks iv q 1 :=
    Job.chachaBlocks_of_iv hiv ctx.length_padded
  rcases streamFinal_cases be.recorded vc6Chacha20Alg (some s) ctx outsize with
    ⟨hzero, h⟩ | ⟨_, hno, _⟩ | ⟨_, s₁, s', hs, hsub, h⟩ | ⟨_, s₁, s', enc, hs, hsub, _, h⟩ |
      ⟨_, s₁, s', enc, hs, hsub, _, h⟩
  · simp only [r, h]
    exact ⟨s, 0, rfl, hnone, hiv⟩
  · simp at hno
  all_goals
    obtain rfl := Option.some.inj hs
    simp only [r, h]
  · exact ⟨s', 0, rfl, (servedBlocks_of_refused hsub).trans hnone, hiv⟩
  all_goals exact ⟨s', 1, rfl, hjob ▸ servedBlocks_of_served hsub, hiv⟩

/-- What a call encrypts, and where it leaves the IV: only a final can leave it behind. -/
lemma vc6Chacha20Call_blocks (be : Backend σ) (s : σ × List (Job × Bool)) {ctx : Vc6ChachaCtx}
    (hlen : ctx.partialLen ≤ 64) (c : StreamCall) {iv : Vector Byte 16} {q : ℕ}
    (hiv : ctx.iv = chachaIvAt iv q) :
    let r := vc6Chacha20Call be.recorded (some s) ctx c
    ∃ s' n q', r.innerBackend = some s' ∧
      servedBlocks s'.2 = servedBlocks s.2 ++ nextBlocks iv q n ∧ r.ctx.iv = chachaIvAt iv q' ∧
      (q' = q + n ∨ 0 < n ∧ ∃ outsize, c = .final outsize) := by
  cases c with
  | update input =>
    obtain ⟨s', n, hs', hserved, hiv'⟩ := (streamCipher_updates be.recorded vc6Chacha20Alg (some s)
      ctx input.bytes (by norm_num) hlen).chachaBlocks hlen hiv
    exact ⟨s', n, q + n, hs', hserved, hiv', .inl rfl⟩
  | final outsize =>
    obtain ⟨s', n, hs', hserved, hiv'⟩ := streamFinal_chachaBlocks be s ctx outsize hiv
    rcases Nat.eq_zero_or_pos n with rfl | hpos
    · exact ⟨s', 0, q, hs', hserved, hiv', .inl rfl⟩
    · exact ⟨s', n, q, hs', hserved, hiv', .inr ⟨hpos, outsize, rfl⟩⟩

/-- After a final that had to encrypt what was pending, the run encrypts nothing more. -/
def FinalsLast (run : List StreamCall → Run γ (σ × List (Job × Bool)))
    (calls : List StreamCall) : Prop :=
  ∀ pre outsize post, calls = pre ++ .final outsize :: post →
    (run (pre ++ [.final outsize])).chachaBlocks = (run pre).chachaBlocks ∨
      (run calls).chachaBlocks = (run (pre ++ [.final outsize])).chachaBlocks

/-- The blocks of a run, by induction on the calls: as long as no final leaves the IV behind, each
call encrypts the next ones. -/
lemma runCalls_chachaBlocks (be : Backend σ) (calls : List StreamCall)
    (s : σ × List (Job × Bool)) {ctx : Vc6ChachaCtx} (hlen : ctx.partialLen ≤ 64)
    {iv : Vector Byte 16} {q : ℕ} (hiv : ctx.iv = chachaIvAt iv q)
    (hlast : FinalsLast (runCalls (vc6Chacha20Call be.recorded) (some s) ctx) calls) :
    ∃ n, (runCalls (vc6Chacha20Call be.recorded) (some s) ctx calls).chachaBlocks =
      servedBlocks s.2 ++ nextBlocks iv q n := by
  induction calls generalizing s ctx q with
  | nil => exact ⟨0, by simp [runCalls, Run.chachaBlocks, nextBlocks]⟩
  | cons c calls ih =>
    obtain ⟨s', m, q', hs', hserved, hiv', hq'⟩ := vc6Chacha20Call_blocks be s hlen c hiv
    have hrun : ∀ cs, (runCalls (vc6Chacha20Call be.recorded) (some s) ctx (c :: cs)).chachaBlocks =
        (runCalls (vc6Chacha20Call be.recorded) (some s')
          (vc6Chacha20Call be.recorded (some s) ctx c).ctx cs).chachaBlocks := by
      intro cs
      rw [← hs']
      rfl
    have hnil : ∀ (t : σ × List (Job × Bool)) (ctx' : Vc6ChachaCtx),
        (runCalls (vc6Chacha20Call be.recorded) (some t) ctx' []).chachaBlocks =
          servedBlocks t.2 := by
      simp [runCalls, Run.chachaBlocks]
    rcases hq' with rfl | ⟨hpos, outsize, hfinal⟩
    · have hle : (vc6Chacha20Call be.recorded (some s) ctx c).ctx.partialLen ≤ 64 := by
        rw [vc6Chacha20Call_eq]
        exact streamCall_partialLen_le be.recorded vc6Chacha20Alg (some s) ctx c hlen
      have hlater : FinalsLast (runCalls (vc6Chacha20Call be.recorded) (some s')
          (vc6Chacha20Call be.recorded (some s) ctx c).ctx) calls := by
        intro pre outsize post heq
        have h := hlast (c :: pre) outsize post (by rw [heq]; rfl)
        rwa [List.cons_append, hrun, hrun, hrun] at h
      obtain ⟨n, hn⟩ := ih s' hle hiv' hlater
      exact ⟨m + n, by rw [hrun, hn, hserved, List.append_assoc, nextBlocks_append]⟩
    · -- the final has encrypted something, so nothing comes after it
      have hlast' := hlast [] outsize calls (by rw [hfinal]; rfl)
      rw [List.nil_append, ← hfinal, hrun [], hnil, hnil, hserved] at hlast'
      rcases hlast' with hsame | hend
      · have hlength := congrArg List.length hsame
        simp only [nextBlocks, List.length_append, List.length_map, List.length_range] at hlength
        omega
      · exact ⟨m, hend⟩

lemma vc6Chacha20Init_partialLen {ctx : Vc6ChachaCtx} {key iv : Option (List Byte)}
    (hinit : (vc6Chacha20Init ctx key iv).1 = true) :
    (vc6Chacha20Init ctx key iv).2.partialLen = 0 := by
  unfold vc6Chacha20Init at hinit ⊢
  cases key with
  | none => rfl
  | some key =>
    by_cases hkey : key.length ≠ 32
    · simp [hkey] at hinit
    · simp only [if_neg hkey]

/-- The counters of a session, from the IV that its init left. They come one after the other, and
they are different exactly if there are at most `2 ^ 32` of them; a call whose jobs are all served
returns 1 whatever the counter, unless it is a final without room for a block. -/
theorem vc6_chacha20_blocks (be : Backend σ) (s : σ) (ctx : Vc6ChachaCtx)
    (key iv : Option (List Byte)) (calls : List StreamCall)
    (hinit : (vc6Chacha20Init ctx key iv).1 = true) :
    let start := (vc6Chacha20Init ctx key iv).2
    let run := runCalls (vc6Chacha20Call be.recorded) (some (s, [])) start
    (FinalsLast run calls →
      (run calls).chachaBlocks =
          (List.range (run calls).chachaBlocks.length).map (chachaBlockId start.iv) ∧
        ((run calls).chachaBlocks.Nodup ↔ (run calls).chachaBlocks.length ≤ 2 ^ 32)) ∧
    (ServedAll (run calls).innerBackend → ∀ (i : ℕ) (c : StreamCall), calls[i]? = some c →
      (∀ outsize, c = .final outsize → 64 ≤ outsize) →
        ∀ r ∈ (run calls).results[i]?, r.ret = true) := by
  intro start run
  have hlen : start.partialLen ≤ 64 := by
    have hzero : start.partialLen = 0 := vc6Chacha20Init_partialLen hinit
    omega
  constructor
  · intro hlast
    obtain ⟨n, hn⟩ := runCalls_chachaBlocks be calls (s, []) hlen (chachaIvAt_zero start.iv).symm
      hlast
    have hblocks : (run calls).chachaBlocks = (List.range n).map (chachaBlockId start.iv) :=
      hn.trans (nextBlocks_zero start.iv n)
    have hcount : (run calls).chachaBlocks.length = n := by
      rw [hblocks, List.length_map, List.length_range]
    rw [hcount]
    exact ⟨hblocks, by rw [hblocks]; exact nodup_chachaBlockId start.iv n⟩
  · intro hall i c hc hroom r hr
    obtain ⟨_, s', entries, hs', hruns, _, _, hrets⟩ :=
      runCalls_submits be.recorded vc6Chacha20Alg calls (s, []) hlen
    rw [← vc6Chacha20Call_eq] at hs' hrets
    have hend : (run calls).innerBackend = some s' := hs'
    rw [hend] at hall
    exact hrets (hruns.served hall) i c hc hroom r hr

/-- Seventy bytes in one update, and the final. -/
theorem vc6_chacha20_blocks_two :
    let run := runCalls (vc6Chacha20Call Backend.scripted.recorded) (some ([true, true], []))
      (vc6Chacha20Init (Ctx.zalloc 64) (some (List.replicate 32 7)) (some (List.replicate 16 8))).2
      [.update ⟨List.replicate 70 5, by decide⟩, .final 64]
    run.chachaBlocks.Nodup ∧ ∀ r ∈ run.results[1]?, r.ret = true := by
  intro run
  have hrun := vc6_chacha20_blocks .scripted [true, true] (Ctx.zalloc 64)
    (some (List.replicate 32 7)) (some (List.replicate 16 8))
    [.update ⟨List.replicate 70 5, by decide⟩, .final 64] (by decide)
  have hlast : FinalsLast (runCalls (vc6Chacha20Call Backend.scripted.recorded)
      (some ([true, true], [])) (vc6Chacha20Init (Ctx.zalloc 64) (some (List.replicate 32 7))
        (some (List.replicate 16 8))).2)
      [.update ⟨List.replicate 70 5, by decide⟩, .final 64] := by
    rintro (_ | ⟨_, _ | ⟨_, pre⟩⟩) outsize post heq
    · simp at heq
    · exact .inr (by simp_all)
    · simp at heq
  refine ⟨(hrun.1 hlast).2.mpr (by decide +kernel), ?_⟩
  refine hrun.2 (by unfold ServedAll; decide +kernel) 1 (.final 64) rfl ?_
  intro outsize hfinal
  exact (StreamCall.final.inj hfinal).le

/-- An update with `n` blocks and nothing pending, its job being served. -/
lemma update_blocks {ctx : Vc6ChachaCtx} (hzero : ctx.partialLen = 0) {input : Buffer} {n : ℕ}
    (hpos : 0 < n) (hinput : input.bytes.length = 64 * n) (script : List Bool)
    (entries : List (Job × Bool)) :
    let r := vc6Chacha20Call Backend.scripted.recorded (some (true :: script, entries)) ctx
      (.update input)
    ∃ entries', r.ret = true ∧ r.ctx.partialLen = 0 ∧
      r.innerBackend = some (script, entries') ∧
        (servedBlocks entries').length = (servedBlocks entries).length + n := by
  have hupd := streamCipher_updates Backend.scripted.recorded vc6Chacha20Alg
    (some (true :: script, entries)) ctx input.bytes (by norm_num) (by omega)
  have hmod : input.bytes.length % 64 = 0 := by omega
  simp only [vc6Chacha20Call, vc6Chacha20Cipher]
  generalize streamCipher Backend.scripted.recorded vc6Chacha20Alg (some (true :: script, entries))
    ctx input.bytes = r at hupd
  cases hupd with
  | blocks _ s' out _ hfull hblocks =>
    have hwhole : (whole 64 (64 * n) + 63) / 64 = n := by
      unfold whole
      omega
    have hscript : s'.1 = script := by
      rw [← (Prod.mk.inj hblocks).1]
      rfl
    refine ⟨s'.2, rfl, ?_, by rw [← hscript], ?_⟩
    · rw [Ctx.bufferRest_partialLen, length_tail, hmod]
      exact hzero
    · rw [servedBlocks_of_served hblocks, List.length_append, Job.chachaBlocks, List.length_map,
        List.length_range, length_blocksJob, hinput, hwhole]
  | blocksFail _ s' _ _ hblocks => simp [Backend.recorded, Backend.scripted] at hblocks
  | buffered => omega
  | flushFails => omega
  | flushes => omega
  | flushesBlocksFail => omega
  | flushesBlocks => omega

/-- Updates with whole blocks, one after the other. -/
lemma runCalls_updates (updates : List (Buffer × ℕ))
    (hupdates : ∀ u ∈ updates, 0 < u.2 ∧ u.1.bytes.length = 64 * u.2) {ctx : Vc6ChachaCtx}
    (hzero : ctx.partialLen = 0) (entries : List (Job × Bool)) :
    let run := runCalls (vc6Chacha20Call Backend.scripted.recorded)
      (some (List.replicate updates.length true, entries)) ctx (updates.map (fun u => .update u.1))
    (∀ r ∈ run.results, r.ret = true) ∧
      run.chachaBlocks.length = (servedBlocks entries).length + (updates.map Prod.snd).sum := by
  induction updates generalizing ctx entries with
  | nil =>
    refine ⟨fun r hr => absurd hr List.not_mem_nil, ?_⟩
    simp [runCalls, Run.chachaBlocks]
  | cons u updates ih =>
    obtain ⟨⟨hpos, hlen⟩, hupdates⟩ := List.forall_mem_cons.mp hupdates
    obtain ⟨entries', hret, hzero', hbackend, hcount⟩ :=
      update_blocks hzero hpos hlen (List.replicate updates.length true) entries
    obtain ⟨hrets, hblocks⟩ := ih hupdates hzero' entries'
    rw [← hbackend] at hrets hblocks
    refine ⟨List.forall_mem_cons.mpr ⟨hret, hrets⟩, ?_⟩
    rw [List.map_cons (f := Prod.snd), List.sum_cons, ← Nat.add_assoc, ← hcount, ← hblocks]
    rfl

/-- A session of more than `2 ^ 32` blocks takes a counter twice, and every update returns 1. -/
lemma updates_reuse (updates : List (Buffer × ℕ))
    (hupdates : ∀ u ∈ updates, 0 < u.2 ∧ u.1.bytes.length = 64 * u.2)
    (hmany : 2 ^ 32 < (updates.map Prod.snd).sum) {ctx : Vc6ChachaCtx}
    (hzero : ctx.partialLen = 0) :
    let run := runCalls (vc6Chacha20Call Backend.scripted.recorded)
      (some (List.replicate updates.length true, [])) ctx (updates.map (fun u => .update u.1))
    (∀ r ∈ run.results, r.ret = true) ∧ ¬run.chachaBlocks.Nodup := by
  intro run
  obtain ⟨hrets, hcount⟩ := runCalls_updates updates hupdates hzero []
  refine ⟨hrets, fun hnodup => ?_⟩
  have hlast : FinalsLast (runCalls (vc6Chacha20Call Backend.scripted.recorded)
      (some (List.replicate updates.length true, [])) ctx)
      (updates.map (fun u => .update u.1)) := by
    intro pre outsize post heq
    have hmem : StreamCall.final outsize ∈ updates.map (fun u => StreamCall.update u.1) := by
      rw [heq]
      exact List.mem_append_right pre List.mem_cons_self
    obtain ⟨u, _, hu⟩ := List.mem_map.mp hmem
    cases hu
  obtain ⟨n, hn⟩ := runCalls_chachaBlocks .scripted (updates.map (fun u => .update u.1))
    (List.replicate updates.length true, []) (by omega) (chachaIvAt_zero ctx.iv).symm hlast
  have hblocks : run.chachaBlocks = (List.range n).map (chachaBlockId ctx.iv) :=
    hn.trans (nextBlocks_zero ctx.iv n)
  have hlength : run.chachaBlocks.length = (updates.map Prod.snd).sum :=
    hcount.trans (Nat.zero_add _)
  rw [hblocks, List.length_map, List.length_range] at hlength
  rw [hblocks, nodup_chachaBlockId] at hnodup
  omega

/-- `k` updates with `n` blocks each and one with a single block, `k * n` blocks being all the
counters there are. -/
lemma replicate_reuse {all one : Buffer} {k n : ℕ} (hall : all.bytes.length = 64 * n)
    (hone : one.bytes.length = 64) (hpos : 0 < n) (hmany : 2 ^ 32 ≤ k * n) {ctx : Vc6ChachaCtx}
    (hzero : ctx.partialLen = 0) :
    let run := runCalls (vc6Chacha20Call Backend.scripted.recorded)
      (some (List.replicate (k + 1) true, [])) ctx
      (List.replicate k (.update all) ++ [.update one])
    (∀ r ∈ run.results, r.ret = true) ∧ ¬run.chachaBlocks.Nodup := by
  have hupdates : ∀ u ∈ List.replicate k (all, n) ++ [(one, 1)],
      0 < u.2 ∧ u.1.bytes.length = 64 * u.2 := by
    intro u hu
    rcases List.mem_append.mp hu with hu | hu
    · rw [List.eq_of_mem_replicate hu]
      exact ⟨hpos, hall⟩
    · rw [List.mem_singleton.mp hu]
      exact ⟨Nat.one_pos, hone⟩
  have hsum : ((List.replicate k (all, n) ++ [(one, 1)]).map Prod.snd).sum = k * n + 1 := by
    simp
  have hreuse := updates_reuse _ hupdates (by omega) hzero
  rw [List.length_append, List.length_replicate, List.length_singleton, List.map_append,
    List.map_replicate, List.map_singleton] at hreuse
  exact hreuse

/-- A second final encrypts under the counter of the first. 4096 updates of the length of a ring
use all counters, and one block more takes the first one again. Every call returns 1. -/
theorem vc6_chacha20_blocks_reused :
    let start := (vc6Chacha20Init (Ctx.zalloc 64) (some (List.replicate 32 7))
      (some (List.replicate 16 8))).2
    let ring : Buffer := ⟨List.replicate ringSize 0, by rw [List.length_replicate]; decide⟩
    let block : Buffer := ⟨List.replicate 64 0, by decide⟩
    (let run := runCalls (vc6Chacha20Call Backend.scripted.recorded) (some ([true, true], [])) start
        [.update ⟨[0x62], by decide⟩, .final 64, .final 64];
      (∀ r ∈ run.results, r.ret = true) ∧ ¬run.chachaBlocks.Nodup) ∧
    (let run := runCalls (vc6Chacha20Call Backend.scripted.recorded)
        (some (List.replicate 4097 true, [])) start
        (List.replicate 4096 (.update ring) ++ [.update block]);
      (∀ r ∈ run.results, r.ret = true) ∧ ¬run.chachaBlocks.Nodup) := by
  intro start ring block
  have hring : ring.bytes.length = 64 * 2 ^ 20 := by
    rw [List.length_replicate]
    decide
  have hblock : block.bytes.length = 64 := List.length_replicate
  exact ⟨by decide +kernel,
    replicate_reuse (k := 4096) hring hblock (by norm_num) (by norm_num) rfl⟩

end GpuCrypt
