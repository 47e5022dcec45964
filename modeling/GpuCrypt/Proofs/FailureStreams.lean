import GpuCrypt.Proofs.JobChains

/-!
# The stream law when jobs fail

A backend may refuse any job at any time. What an update that fails has taken of its input can be
told from what was pending, and the output of a session is always the encryption of what its updates
have taken: nothing is encrypted at a wrong position, and a caller that offers again what was not
taken ends up with the whole message.
-/

namespace GpuCrypt

open BlockBuffer Keystream

variable {σ γ δ : Type} {B : ℕ}

/-- A job of the session is refused, or served as in `Serves`. -/
structure MayServe [NeZero B] (be : Backend σ) (alg : StreamAlg) (key : Vector Byte 32)
    (ivAt : ℕ → Vector Byte 16) (blk : ℕ → Vector Byte B) : Prop where
  advance : alg.Advances ivAt
  submit : ∀ s s' q n input out, input.length = B * n →
    be.submit s { input := input, key := key, iv := ivAt q, algId := alg.algId } = (s', some out) →
      out = xorFrom (ofBlocks blk) (B * q) input

lemma JobChain.servedOutput_eq [NeZero B] {be : Backend σ} {alg : StreamAlg}
    {key : Vector Byte 32} {ivAt : ℕ → Vector Byte 16} {blk : ℕ → Vector Byte B}
    (h : MayServe be alg key ivAt blk) {q q' : ℕ} {entries : List (Job × Option (List Byte))}
    (hchain : JobChain B alg key ivAt q entries q') {s s' : σ} (hruns : be.Runs s entries s') :
    servedOutput entries = xorFrom (ofBlocks blk) (B * q) (servedInput entries) := by
  induction hchain generalizing s with
  | nil => rfl
  | refused _ _ ih =>
    cases hruns with
    | cons _ hlater => simpa [servedOutput, servedInput] using ih hlater
  | @served q q' n input out entries hlen _ ih =>
    cases hruns with
    | cons hsub hlater =>
      have hfirst := h.submit _ _ q n input out hlen hsub
      have hrest := ih hlater
      rw [Nat.mul_add, ← hlen] at hrest
      simp only [servedOutput, servedInput, List.flatMap_cons, Option.getD_some,
        Option.isSome_some, if_true] at hrest ⊢
      rw [xorFrom_append, ← hrest, ← hfirst]

/-- What the session has written is the encryption of what its updates have taken, and a final that
returns 1 completes it. -/
structure Session.Encrypts (x : Session γ σ) (ks : ℕ → Byte) (taken : List Byte) : Prop where
  updates : x.updates.output = xorFrom ks 0 (taken.take x.updates.output.length)
  final : x.final.ret = true → x.output = xorFrom ks 0 taken

lemma Session.encrypts_mapCtx (f : γ → δ) (x : Session γ σ) {ks : ℕ → Byte} {taken : List Byte}
    (h : x.Encrypts ks taken) : (x.mapCtx f).Encrypts ks taken := by
  have hupdates : (x.mapCtx f).updates.output = x.updates.output := Run.output_mapCtx f x.updates
  refine ⟨?_, fun hret => ?_⟩
  · rw [hupdates]
    exact h.updates
  · rw [Session.output_mapCtx]
    exact h.final hret

lemma takenBy_mapCtx (stream : δ → Ctx B) (f : γ → δ) (ctx : γ) (chunks : List Buffer)
    (results : List (CallResult γ σ)) :
    takenBy stream (f ctx) chunks (results.map (CallResult.mapCtx f)) =
      takenBy (fun c => stream (f c)) ctx chunks results := by
  induction chunks generalizing ctx results with
  | nil => rfl
  | cons chunk chunks ih =>
    cases results with
    | nil => rfl
    | cons r results =>
      rw [List.map_cons, takenBy, takenBy, ← ih r.ctx results]
      rfl

/-- Updates that all return 1 take all of their input. -/
lemma takenBy_of_all (stream : γ → Ctx B) (ctx : γ) {chunks : List Buffer}
    {results : List (CallResult γ σ)} (hlen : results.length = chunks.length)
    (hall : ∀ r ∈ results, r.ret = true) :
    takenBy stream ctx chunks results = chunks.flatMap Buffer.bytes := by
  induction chunks generalizing ctx results with
  | nil => cases results <;> rfl
  | cons chunk chunks ih =>
    cases results with
    | nil => simp at hlen
    | cons r results =>
      have hret := hall r List.mem_cons_self
      rw [takenBy, ih r.ctx (Nat.succ.inj hlen) (fun r hr => hall r (List.mem_cons_of_mem _ hr)),
        List.flatMap_cons]
      simp only [Ctx.taken, hret, if_true]

lemma session_encrypts [NeZero B] {be : Backend σ} {alg : StreamAlg} {key : Vector Byte 32}
    {ivAt : ℕ → Vector Byte 16} {blk : ℕ → Vector Byte B} (h : MayServe be alg key ivAt blk)
    (chunks : List Buffer) (s : σ) (init : Bool) {ctx : Ctx B} (hctx : ctx.Reached key ivAt 0)
    (hzero : ctx.partialLen = 0) (outsize : ℕ) :
    let x := session (streamCall be alg) (some s) (init, ctx) chunks outsize
    x.Encrypts (ofBlocks blk) (takenBy id ctx chunks x.updates.results) := by
  intro x
  obtain ⟨s', entries, q', _, hruns, hchain, hout, hle, hin, hfin⟩ :=
    session_chained be (Nat.pos_of_neZero B) h.advance chunks s init hctx outsize
  rw [ctx.pending_of_zero hzero, List.nil_append] at hle hin hfin
  have hserved := hchain.servedOutput_eq h hruns
  rw [Nat.mul_zero] at hserved
  constructor
  · obtain ⟨rest, hrest⟩ := hin
    obtain ⟨rest', hrest'⟩ := hout
    rw [hserved, ← hrest, xorFrom_append] at hrest'
    refine List.append_inj_left hrest' ?_
    rw [length_combine, List.length_take, Nat.min_eq_left hle]
  · intro hret
    obtain ⟨hwrite, htaken, _⟩ := hfin hret
    rw [hwrite, hserved, take_combine]
    exact congrArg (xorFrom (ofBlocks blk) 0) htaken

/-- Every job of whole blocks that is served is encrypted in counter mode, as with `IdealAes`. -/
def Backend.FallibleAes (be : Backend σ)
    (E : Vector Byte 32 → ℤ → Vector Byte 16 → Vector Byte 16) : Prop :=
  ∀ s s' job n out, job.input.length = 16 * n → be.submit s job = (s', some out) →
    out = xorFrom (ofBlocks (ctrBlocks (E job.key job.algId) job.iv)) 0 job.input

/-- Every ChaCha20 job of whole blocks that is served is served as with `IdealChacha20`. -/
def Backend.FallibleChacha20 (be : Backend σ)
    (K : Vector Byte 32 → Vector Byte 12 → Word → Vector Byte 64) : Prop :=
  ∀ s s' job n out, job.algId = 2 → job.input.length = 64 * n →
    be.submit s job = (s', some out) →
      out = xorFrom (ofBlocks (fun j =>
        K job.key (chachaNonce job.iv) (chachaCounter job.iv + BitVec.ofNat 32 j))) 0 job.input

lemma vc6AesAlg_advances (keyLen : ℕ) (iv : Vector Byte 16) :
    (vc6AesAlg keyLen).Advances (BigEndian.add iv) := by
  intro q n hn
  rw [vc6AesAlg_advance keyLen _ hn, BigEndian.add_add]

lemma vc6Chacha20Alg_advances (iv : Vector Byte 16) : vc6Chacha20Alg.Advances (chachaIvAt iv) :=
  fun q n _ => vc6Chacha20Alg_advance iv q n

lemma Backend.FallibleAes.mayServe {be : Backend σ}
    {E : Vector Byte 32 → ℤ → Vector Byte 16 → Vector Byte 16} (hbe : be.FallibleAes E)
    (keyLen : ℕ) (key : Vector Byte 32) (iv : Vector Byte 16) :
    MayServe be (vc6AesAlg keyLen) key (BigEndian.add iv)
      (ctrBlocks (E key (vc6AesAlg keyLen).algId) iv) where
  advance := vc6AesAlg_advances keyLen iv
  submit s s' q n input out hlen hsub := by
    have hshift : ctrBlocks (E key (vc6AesAlg keyLen).algId) (BigEndian.add iv q) =
        fun j => ctrBlocks (E key (vc6AesAlg keyLen).algId) iv (q + j) := by
      funext j
      rw [ctrBlocks, ctrBlocks, BigEndian.add_add]
    rw [hbe s s' _ n out hlen hsub]
    simp only [hshift]
    exact xorFrom_shift (ctrBlocks (E key (vc6AesAlg keyLen).algId) iv) q input

lemma Backend.FallibleChacha20.mayServe {be : Backend σ}
    {K : Vector Byte 32 → Vector Byte 12 → Word → Vector Byte 64} (hbe : be.FallibleChacha20 K)
    (key : Vector Byte 32) (iv : Vector Byte 16) :
    MayServe be vc6Chacha20Alg key (chachaIvAt iv)
      (fun j => K key (chachaNonce iv) (chachaCounter iv + BitVec.ofNat 32 j)) where
  advance := vc6Chacha20Alg_advances iv
  submit s s' q n input out hlen hsub := by
    rw [hbe s s' _ n out rfl hlen hsub]
    simp only [chachaIvAt, chachaCounter_set, chachaNonce_set, chachaCounter_add]
    exact xorFrom_shift
      (fun j => K key (chachaNonce iv) (chachaCounter iv + BitVec.ofNat 32 j)) q input

/-! ### Sessions of the two ciphers -/

/-- The context that an AES init with a key and an IV leaves. -/
def Vc6AesCtx.started (ctx : Vc6AesCtx) (key : List Byte) (iv : Vector Byte 16) : Vc6AesCtx :=
  { ctx with
    key := overlay ctx.key key
    iv := iv
    setKey := true
    setIv := true
    partialLen := 0
    keyLen := key.length }

lemma vc6AesSession_eq (be : Backend σ) (innerBackend : Option σ) (ctx : Vc6AesCtx)
    {key : List Byte} (iv : Vector Byte 16) (hkey : key.length = 16 ∨ key.length = 32)
    (chunks : List Buffer) (outsize : ℕ) :
    vc6AesSession be innerBackend ctx key iv.toList chunks outsize =
      (session (streamCall be (vc6AesAlg key.length)) innerBackend
        (true, (ctx.started key iv).toCtx) chunks outsize).mapCtx
          (fun c => { ctx.started key iv with toCtx := c }) := by
  rw [vc6AesSession, vc6AesInit_eq ctx iv hkey, session_vc6AesCall]
  rfl

lemma Vc6AesCtx.reached_started (ctx : Vc6AesCtx) (key : List Byte) (iv : Vector Byte 16) :
    (ctx.started key iv).Reached (overlay ctx.key key) (BigEndian.add iv) 0 :=
  ⟨rfl, (BigEndian.add_zero iv).symm, Nat.zero_le 16⟩

/-- The context that a ChaCha20 init with a key and an IV leaves. -/
def Ctx.started (ctx : Vc6ChachaCtx) (key : Vector Byte 32) (iv : Vector Byte 16) : Vc6ChachaCtx :=
  { ctx with
    key := key
    iv := iv
    setKey := true
    setIv := true
    partialLen := 0 }

lemma vc6Chacha20Session_eq (be : Backend σ) (innerBackend : Option σ) (ctx : Vc6ChachaCtx)
    (key : Vector Byte 32) (iv : Vector Byte 16) (chunks : List Buffer) (outsize : ℕ) :
    vc6Chacha20Session be innerBackend ctx key.toList iv.toList chunks outsize =
      session (streamCall be vc6Chacha20Alg) innerBackend (true, ctx.started key iv) chunks
        outsize := by
  rw [vc6Chacha20Session, vc6Chacha20Init_eq, vc6Chacha20Call_eq]
  rfl

lemma Ctx.reached_started (ctx : Vc6ChachaCtx) (key : Vector Byte 32) (iv : Vector Byte 16) :
    (Ctx.started ctx key iv).Reached key (chachaIvAt iv) 0 :=
  ⟨rfl, (chachaIvAt_zero iv).symm, Nat.zero_le 64⟩

lemma length_results_session (call : Option σ → γ → StreamCall → CallResult γ σ)
    (innerBackend : Option σ) (init : Bool × γ) (chunks : List Buffer) (outsize : ℕ) :
    (session call innerBackend init chunks outsize).updates.results.length = chunks.length := by
  rw [session, length_results_runCalls, List.length_map]

/-- Whichever jobs of a session are refused, for both ciphers: what has been written is the
encryption of what the updates have taken, a final that returns 1 completes it, and updates that all
return 1 have taken the whole input. -/
theorem vc6_stream_under_failures (be : Backend σ) (s : σ) (iv : Vector Byte 16)
    (chunks : List Buffer) (outsize : ℕ) :
    (∀ E, be.FallibleAes E → ∀ (ctx : Vc6AesCtx) (key : List Byte),
      key.length = 16 ∨ key.length = 32 →
        let x := vc6AesSession be (some s) ctx key iv.toList chunks outsize
        let taken := takenBy Vc6AesCtx.toCtx (ctx.started key iv) chunks x.updates.results
        x.Encrypts
            (ofBlocks (ctrBlocks (E (overlay ctx.key key) (vc6AesAlg key.length).algId) iv))
            taken ∧
          ((∀ r ∈ x.updates.results, r.ret = true) → taken = chunks.flatMap Buffer.bytes)) ∧
    (∀ K, be.FallibleChacha20 K → ∀ (ctx : Vc6ChachaCtx) (key : Vector Byte 32),
      let x := vc6Chacha20Session be (some s) ctx key.toList iv.toList chunks outsize
      let taken := takenBy id (Ctx.started ctx key iv) chunks x.updates.results
      x.Encrypts
          (ofBlocks (fun j => K key (chachaNonce iv) (chachaCounter iv + BitVec.ofNat 32 j)))
          taken ∧
        ((∀ r ∈ x.updates.results, r.ret = true) → taken = chunks.flatMap Buffer.bytes)) := by
  refine ⟨fun E hbe ctx key hkey => ?_, fun K hbe ctx key => ?_⟩
  · rw [vc6AesSession_eq be (some s) ctx iv hkey]
    set y := session (streamCall be (vc6AesAlg key.length)) (some s)
      (true, (ctx.started key iv).toCtx) chunks outsize with hy
    set f : Ctx 16 → Vc6AesCtx := fun c => { ctx.started key iv with toCtx := c }
    have htaken : takenBy Vc6AesCtx.toCtx (ctx.started key iv) chunks (y.mapCtx f).updates.results =
        takenBy id (ctx.started key iv).toCtx chunks y.updates.results :=
      takenBy_mapCtx Vc6AesCtx.toCtx f (ctx.started key iv).toCtx chunks y.updates.results
    refine ⟨?_, fun hall => takenBy_of_all _ _ ?_ hall⟩
    · rw [htaken]
      exact Session.encrypts_mapCtx f y (session_encrypts (hbe.mayServe key.length _ iv) chunks s
        true (ctx.reached_started key iv) rfl outsize)
    · have hlen : y.updates.results.length = chunks.length := length_results_session _ _ _ _ _
      simpa only [Session.mapCtx, Run.mapCtx, List.length_map] using hlen
  · rw [vc6Chacha20Session_eq]
    refine ⟨?_, fun hall => takenBy_of_all _ _ (length_results_session _ _ _ _ _) hall⟩
    exact session_encrypts (hbe.mayServe key iv) chunks s true (Ctx.reached_started ctx key iv) rfl
      outsize

/-- Counter mode for as many jobs as the script allows. -/
def Backend.scriptedAes (E : Vector Byte 32 → ℤ → Vector Byte 16 → Vector Byte 16) :
    Backend (List Bool) where
  submit script job :=
    match script with
    | true :: later =>
      (later, some (xorFrom (ofBlocks (ctrBlocks (E job.key job.algId) job.iv)) 0 job.input))
    | _ => (script.tail, none)
  length_out script job s' out h := by
    rcases script with _ | ⟨_ | _, later⟩ <;> simp_all
    rw [← h.2, length_combine]

lemma Backend.scriptedAes_fallible (E : Vector Byte 32 → ℤ → Vector Byte 16 → Vector Byte 16) :
    (Backend.scriptedAes E).FallibleAes E := by
  intro script s' job n out _ hsub
  rcases script with _ | ⟨_ | _, later⟩
  · simp [Backend.scriptedAes] at hsub
  · simp [Backend.scriptedAes] at hsub
  · exact (Option.some.inj (Prod.mk.inj hsub).2).symm

/-- Twenty bytes are offered twice, since the first update fails. -/
theorem vc6_stream_under_failures_again :
    let x := vc6AesSession (Backend.scriptedAes (fun _ _ block => block))
      (some [false, true, true]) Vc6AesCtx.zalloc (List.replicate 32 7)
      (Vector.replicate 16 0xFF).toList
      [⟨List.replicate 20 5, by decide⟩, ⟨List.replicate 20 5, by decide⟩] 16
    x.output = xorFrom (ofBlocks (ctrBlocks (fun block => block) (Vector.replicate 16 0xFF))) 0
      (List.replicate 20 5) := by
  intro x
  have h := ((vc6_stream_under_failures (Backend.scriptedAes (fun _ _ block => block))
    [false, true, true] (Vector.replicate 16 0xFF)
    [⟨List.replicate 20 5, by decide⟩, ⟨List.replicate 20 5, by decide⟩] 16).1
    (fun _ _ block => block) (Backend.scriptedAes_fallible _) Vc6AesCtx.zalloc
    (List.replicate 32 7) (.inr rfl)).1.final (by decide +kernel)
  have htaken : takenBy Vc6AesCtx.toCtx
      (Vc6AesCtx.zalloc.started (List.replicate 32 7) (Vector.replicate 16 0xFF))
      [⟨List.replicate 20 5, by decide⟩, ⟨List.replicate 20 5, by decide⟩] x.updates.results =
        List.replicate 20 5 := by decide +kernel
  rw [htaken] at h
  exact h

end GpuCrypt
