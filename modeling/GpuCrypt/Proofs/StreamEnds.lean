import GpuCrypt.Proofs.CipherStreams
import GpuCrypt.Proofs.OutputBound

/-!
# Finals as OpenSSL calls them

OpenSSL gives a final as much room as the block size that the cipher advertises, and none at all if
that is 1. The AES ciphers advertise the size of the blocks they buffer. ChaCha20 advertises 1 and
buffers blocks of 64 bytes, so that its final has nowhere to put what is pending.
-/

namespace GpuCrypt

open BlockBuffer

variable {σ γ : Type} {B : ℕ}

/-- The room that OpenSSL gives a final. -/
def evpFinalOutsize (params : CipherParams) : ℕ :=
  if params.blockSize = 1 then 0 else params.blockSize

/-- The backend has served all jobs it was given. -/
def ServedAll (innerBackend : Option (σ × List (Job × Bool))) : Prop :=
  ∀ s ∈ innerBackend, ∀ e ∈ s.2, e.2 = true

/-- The session has come to its end: the final returns 1, and as many bytes have come out as went
in. -/
def Completes (x : Session γ σ) (input : List Byte) : Prop :=
  x.final.ret = true ∧ x.output.length = input.length

/-- An update that returns 1 accounts for every byte: whole blocks come out, and the rest is
pending. -/
lemma Updates.accounting {be : Backend σ} {alg : StreamAlg} {ctx : Ctx B} {input : List Byte}
    {innerBackend : Option σ} {r : CallResult (Ctx B) σ}
    (h : Updates be alg ctx input innerBackend r) (hlen : ctx.partialLen ≤ B)
    (hret : r.ret = true) :
    r.outl = some r.out.length ∧ B ∣ r.out.length ∧
      r.out.length + r.ctx.partialLen = ctx.partialLen + input.length := by
  cases h with
  | noBackend => simp at hret
  | buffered s hshort =>
    exact ⟨rfl, dvd_zero B, by rw [Ctx.bufferRest_partialLen, List.length_nil, Nat.zero_add]⟩
  | flushFails => simp at hret
  | flushes s s' out hpos hfull hflush hshort =>
    have hout := (be.length_out _ _ _ _ hflush).trans (length_flushJob alg ctx input hlen hfull)
    have hrest := ctx.length_rest input
    simp only [hout, Ctx.bufferRest_partialLen, Ctx.partialLen_flushed]
    exact ⟨trivial, dvd_rfl, by omega⟩
  | blocksFail => simp at hret
  | blocks s s' out hzero hfull hblocks =>
    have hout := (be.length_out _ _ _ _ hblocks).trans (length_blocksJob alg ctx input)
    have hmod := whole_add_mod B input.length
    simp only [hout, Ctx.bufferRest_partialLen, Ctx.advanced, length_tail]
    exact ⟨trivial, ⟨_, rfl⟩, by omega⟩
  | flushesBlocksFail => simp at hret
  | flushesBlocks s s' s'' out out' hpos hfull hflush hblocks =>
    have hrest := ctx.length_rest input
    have hout := (be.length_out _ _ _ _ hflush).trans
      (length_flushJob alg ctx input hlen (by omega))
    have hout' := (be.length_out _ _ _ _ hblocks).trans (length_blocksJob alg _ _)
    have hmod := whole_add_mod B (ctx.rest input).length
    simp only [List.length_append, hout, hout', Ctx.bufferRest_partialLen, Ctx.advanced,
      length_tail, Ctx.partialLen_flushed]
    exact ⟨trivial, dvd_add dvd_rfl ⟨_, rfl⟩, by omega⟩

/-- Updates that all return 1 account for every byte. -/
lemma runUpdates_accounting [NeZero B] (be : Backend σ) (alg : StreamAlg) (chunks : List Buffer)
    (innerBackend : Option σ) {ctx : Ctx B} (hlen : ctx.partialLen ≤ B) :
    let run := runCalls (streamCall be alg) innerBackend ctx (chunks.map .update)
    (∀ r ∈ run.results, r.ret = true) →
      (ctx.partialLen < B → run.ctx.partialLen < B) ∧ B ∣ run.output.length ∧
        run.output.length + run.ctx.partialLen =
          ctx.partialLen + (chunks.flatMap Buffer.bytes).length := by
  induction chunks generalizing innerBackend ctx with
  | nil => exact fun _ => ⟨id, dvd_zero B, by simp [runCalls, Run.output]⟩
  | cons chunk chunks ih =>
    have hupd := streamCipher_updates be alg innerBackend ctx chunk.bytes (Nat.pos_of_neZero B) hlen
    obtain ⟨hle, hlt⟩ := hupd.partialLen_le (Nat.pos_of_neZero B) hlen
    simp only [List.map_cons, runCalls, streamCall, List.flatMap_cons, Run.output,
      List.length_append]
    intro hall
    have hret := hall _ List.mem_cons_self
    obtain ⟨_, hdvd, hsum⟩ := hupd.accounting hlen hret
    obtain ⟨hlt', hdvd', hsum'⟩ := ih _ hle (fun r hr => hall r (List.mem_cons_of_mem _ hr))
    rw [Run.output] at hdvd' hsum'
    exact ⟨fun _ => hlt' (hlt hret), dvd_add hdvd hdvd', by omega⟩

/-- Updates whose jobs are all served return 1. -/
lemma runUpdates_ret [NeZero B] (be : Backend σ) (alg : StreamAlg) (chunks : List Buffer) (s : σ)
    {ctx : Ctx B} (hlen : ctx.partialLen ≤ B) :
    let run := runCalls (streamCall be alg) (some s) ctx (chunks.map .update)
    run.ctx.partialLen ≤ B ∧ ∃ s' entries, run.innerBackend = some s' ∧ be.Runs s entries s' ∧
      ((∀ e ∈ entries, e.2.isSome = true) → ∀ r ∈ run.results, r.ret = true) := by
  obtain ⟨hle, s', entries, hs', hruns, _, _, hrets⟩ :=
    runCalls_submits be alg (chunks.map .update) s hlen
  refine ⟨hle, s', entries, hs', hruns, fun hall r hr => ?_⟩
  obtain ⟨i, hi, rfl⟩ := List.mem_iff_getElem.mp hr
  have hi' : i < (chunks.map StreamCall.update).length := by
    rwa [length_results_runCalls] at hi
  refine hrets hall i _ (List.getElem?_eq_getElem hi') (fun outsize hfinal => ?_) _
    (List.getElem?_eq_getElem hi)
  simp at hfinal

lemma Backend.Runs.served {be : Backend σ} {s s' : σ × List (Job × Bool)}
    {entries : List (Job × Option (List Byte))} (h : be.recorded.Runs s entries s')
    (hall : ServedAll (some s')) : ∀ e ∈ entries, e.2.isSome = true := by
  intro e he
  refine hall s' rfl (e.1, e.2.isSome) ?_
  rw [h.recorded]
  exact List.mem_append_right s.2 (List.mem_map_of_mem he)

/-- With all jobs served, a session comes to its end exactly if its final has room for the bytes
after the last whole block. -/
lemma session_completes_iff [NeZero B] (be : Backend σ) (alg : StreamAlg) (s : σ) (init : Bool)
    {ctx : Ctx B} (hzero : ctx.partialLen = 0) (chunks : List Buffer) (outsize : ℕ) :
    let x := session (streamCall be.recorded alg) (some (s, [])) (init, ctx) chunks outsize
    ServedAll x.final.innerBackend →
      (Completes x (chunks.flatMap Buffer.bytes) ↔
        (chunks.flatMap Buffer.bytes).length % B ≤ outsize) := by
  have hB := Nat.pos_of_neZero B
  have hlen : ctx.partialLen ≤ B := by omega
  intro x hall
  obtain ⟨hle, s', entries, hs', hruns, hrets⟩ := runUpdates_ret be.recorded alg chunks (s, []) hlen
  obtain ⟨s'', later, hsubmits, hfin⟩ :=
    streamFinal_submits be.recorded alg s' x.updates.ctx hle outsize
  have hfinal : x.final = streamFinal be.recorded alg (some s') x.updates.ctx outsize := by
    simp only [x, session, streamCall, hs']
  rw [← hfinal] at hsubmits hfin
  rw [hsubmits.backend] at hall
  have hserved := (hruns.append hsubmits.runs).served hall
  have haccount : (ctx.partialLen < B → x.updates.ctx.partialLen < B) ∧
      B ∣ x.updates.output.length ∧ x.updates.output.length + x.updates.ctx.partialLen =
        ctx.partialLen + (chunks.flatMap Buffer.bytes).length :=
    runUpdates_accounting be.recorded alg chunks (some (s, [])) hlen
      (hrets (fun e he => hserved e (List.mem_append_left later he)))
  obtain ⟨hlt, ⟨q, hq⟩, hsum⟩ := haccount
  obtain ⟨hret, hout⟩ := hfin (fun e he => hserved e (List.mem_append_right entries he))
  have hmod : (chunks.flatMap Buffer.bytes).length % B = x.updates.ctx.partialLen := by
    have hrest := hlt (by omega)
    rw [hzero, hq, Nat.zero_add] at hsum
    rw [← hsum, Nat.mul_add_mod, Nat.mod_eq_of_lt hrest]
  rw [Completes, Session.output, hmod]
  constructor
  · exact fun hdone => hret.mp hdone.1
  · intro hroom
    have hdone := hret.mpr hroom
    refine ⟨hdone, ?_⟩
    rw [List.length_append, hout hdone, hsum, hzero, Nat.zero_add]

/-- With every job served, sessions of the AES ciphers come to their end as OpenSSL drives them,
and those of ChaCha20 exactly if the length of the message is a multiple of 64. -/
theorem vc6_final_completes_iff (be : Backend σ) (s : σ) (iv : Vector Byte 16)
    (chunks : List Buffer) :
    let input := chunks.flatMap Buffer.bytes
    (∀ (ctx : Vc6AesCtx) (key : List Byte), key.length = 16 ∨ key.length = 32 →
      let params := if key.length = 32 then vc6Aes256GetParams else vc6Aes128GetParams
      let x := vc6AesSession be.recorded (some (s, [])) ctx key iv.toList chunks
        (evpFinalOutsize params)
      ServedAll x.final.innerBackend → x.init = true ∧ Completes x input) ∧
    (∀ (ctx : Vc6ChachaCtx) (key : Vector Byte 32),
      let x := vc6Chacha20Session be.recorded (some (s, [])) ctx key.toList iv.toList chunks
        (evpFinalOutsize vc6Chacha20GetParams)
      ServedAll x.final.innerBackend → (x.init = true ∧ Completes x input ↔ 64 ∣ input.length)) := by
  intro input
  constructor
  · intro ctx key hkey params x
    have hroom : evpFinalOutsize params = 16 := by
      simp only [params]
      split <;> rfl
    simp only [x, vc6AesSession, vc6AesInit_eq ctx iv hkey, session_vc6AesCall, hroom]
    intro hall
    refine ⟨rfl, ?_⟩
    have hcompletes := (session_completes_iff be (vc6AesAlg key.length) s true rfl chunks 16
      hall).mpr (by omega)
    refine ⟨hcompletes.1, ?_⟩
    rw [Session.output_mapCtx]
    exact hcompletes.2
  · intro ctx key x
    simp only [x, vc6Chacha20Session, vc6Chacha20Init_eq, vc6Chacha20Call_eq]
    intro hall
    have hiff := session_completes_iff be vc6Chacha20Alg s true rfl chunks 0 hall
    constructor
    · rintro ⟨-, hdone⟩
      exact Nat.dvd_of_mod_eq_zero (Nat.le_zero.mp (hiff.mp hdone))
    · intro hdvd
      exact ⟨rfl, hiff.mpr (Nat.mod_eq_zero_of_dvd hdvd).le⟩

/-- Seventeen bytes under AES-128, in two updates. -/
theorem vc6_final_completes_unaligned :
    let chunks : List Buffer := [⟨[1, 2, 3], by decide⟩, ⟨List.replicate 14 5, by decide⟩]
    Completes (vc6AesSession Backend.scripted.recorded (some ([true, true], [])) Vc6AesCtx.zalloc
      (List.replicate 16 7) (Vector.replicate 16 0).toList chunks 16)
      (chunks.flatMap Buffer.bytes) :=
  ((vc6_final_completes_iff .scripted [true, true] (Vector.replicate 16 0)
    [⟨[1, 2, 3], by decide⟩, ⟨List.replicate 14 5, by decide⟩]).1 Vc6AesCtx.zalloc
    (List.replicate 16 7) (.inl rfl) (by unfold ServedAll; decide +kernel)).2

/-- One byte under ChaCha20: the job of the final is served, and the final fails. -/
theorem vc6_chacha20_final_fails :
    let x := vc6Chacha20Session Backend.scripted.recorded (some ([true], [])) (Ctx.zalloc 64)
      (List.replicate 32 7) (List.replicate 16 0) [⟨[0x41], by decide⟩]
      (evpFinalOutsize vc6Chacha20GetParams)
    ServedAll x.final.innerBackend ∧ x.final.ret = false ∧ x.output = [] := by
  unfold ServedAll
  decide +kernel

end GpuCrypt
