import GpuCrypt.Proofs.StatelessBackend

/-!
# Contexts do not disturb each other

The contexts of the provider share one backend, with one pair of rings and one parameter block for
all keys. Whatever is called on the other contexts, and in whatever order, a context gets the
answers that its own calls alone would get.
-/

namespace GpuCrypt

variable {σ τ ω ι : Type} {B : ℕ} {be : Backend σ} {P : σ → Prop}

/-! ### What the jobs of a call leave of the backend -/

/-- The backend is still there, in a state that every job keeps in `P`. -/
def Kept (P : σ → Prop) (innerBackend : Option σ) : Prop := ∃ s, innerBackend = some s ∧ P s

lemma streamCall_started (be : Backend σ) (alg : StreamAlg) (s : σ) (ctx : Ctx B)
    (c : StreamCall) : ∃ s', (streamCall be alg (some s) ctx c).innerBackend = some s' := by
  cases c with
  | update input =>
    rw [streamCall]
    cases hflush : flushPartial be alg (.start s ctx input.bytes) with
    | error p => exact ⟨p.backend, by rw [streamCipher_of_error hflush]⟩
    | ok p =>
      cases hblocks : fullBlocks be alg p with
      | error q => exact ⟨q.backend, by rw [streamCipher_of_ok_error hflush hblocks]⟩
      | ok q => exact ⟨q.backend, by rw [streamCipher_of_ok hflush hblocks]⟩
  | final outsize =>
    rw [streamCall]
    unfold streamFinal
    by_cases hpos : 0 < ctx.partialLen
    · rcases hsub : be.submit s (ctx.zeroPad.job alg ctx.zeroPad.partialBuf.toList) with
        ⟨s', _ | enc⟩
      · exact ⟨s', by simp only [hpos, if_true, hsub]⟩
      · refine ⟨s', ?_⟩
        simp only [hpos, if_true, hsub]
        split <;> rfl
    · exact ⟨s, by simp only [hpos, if_false]⟩

/-- The backend on the states in `P` alone. -/
def Backend.restrict (be : Backend σ) (hP : ∀ s job, P s → P (be.submit s job).1) :
    Backend {s // P s} where
  submit s job := (⟨(be.submit s.1 job).1, hP s.1 job s.2⟩, (be.submit s.1 job).2)
  length_out s job _ out h :=
    be.length_out s.1 job (be.submit s.1 job).1 out (Prod.ext rfl (Prod.mk.inj h).2)

lemma streamCall_keeps (hP : ∀ s job, P s → P (be.submit s job).1) (alg : StreamAlg)
    {innerBackend : Option σ} (h : Kept P innerBackend) (ctx : Ctx B) (c : StreamCall) :
    Kept P (streamCall be alg innerBackend ctx c).innerBackend := by
  obtain ⟨s, rfl, hs⟩ := h
  have hmaps : (be.restrict hP).Maps Subtype.val be := fun _ _ => rfl
  have hcall := streamCall_mapBackend hmaps alg (some ⟨s, hs⟩) ctx c
  obtain ⟨s', hs'⟩ := streamCall_started (be.restrict hP) alg ⟨s, hs⟩ ctx c
  refine ⟨s'.1, ?_, s'.2⟩
  rw [Option.map_some] at hcall
  rw [hcall, CallResult.mapBackend, hs', Option.map_some]

lemma Vc6Ctx.call_keeps (hP : ∀ s job, P s → P (be.submit s job).1) {innerBackend : Option σ}
    (h : Kept P innerBackend) (ctx : Vc6Ctx) (c : ContextCall) :
    Kept P (ctx.call be innerBackend c).innerBackend := by
  cases ctx with
  | aes ctx =>
    cases c with
    | init key iv => exact h
    | stream c =>
      simp only [Vc6Ctx.call, vc6AesContextCall, contextCall, vc6AesCall_eq]
      exact streamCall_keeps hP _ h ctx.toCtx c
  | chacha20 ctx =>
    cases c with
    | init key iv => exact h
    | stream c =>
      simp only [Vc6Ctx.call, vc6Chacha20ContextCall, contextCall, vc6Chacha20Call_eq]
      exact streamCall_keeps hP _ h ctx c

lemma Vc6Functions.newctx_fst (functions : Vc6Functions) (vc6Init : σ) (innerBackend : Option σ) :
    (functions.newctx vc6Init innerBackend).1 = some (innerBackend.getD vc6Init) := by
  cases functions <;> rfl

lemma Vc6Functions.newctx_keeps {vc6Init : σ} (hinit : P vc6Init) {innerBackend : Option σ}
    (h : ∀ s ∈ innerBackend, P s) (functions : Vc6Functions) :
    Kept P (functions.newctx vc6Init innerBackend).1 := by
  refine ⟨innerBackend.getD vc6Init, functions.newctx_fst vc6Init innerBackend, ?_⟩
  cases innerBackend with
  | none => exact hinit
  | some s => exact h s rfl

/-! ### The provider -/

/-- Its backend is in `P`, and it is there if a context is live. -/
structure Vc6Provider.Started (P : σ → Prop) (p : Vc6Provider ι σ) : Prop where
  backend : ∀ s ∈ p.innerBackend, P s
  live : ∀ i ctx, p.ctxs i = some ctx → ∃ s, p.innerBackend = some s

lemma Vc6Provider.Started.kept {p : Vc6Provider ι σ} (h : p.Started P) {i : ι} {ctx : Vc6Ctx}
    (hctx : p.ctxs i = some ctx) : Kept P p.innerBackend := by
  obtain ⟨s, hs⟩ := h.live i ctx hctx
  exact ⟨s, hs, h.backend s hs⟩

lemma Vc6Provider.started_of_kept {p : Vc6Provider ι σ} (h : Kept P p.innerBackend) :
    p.Started P := by
  obtain ⟨s, hs, hP⟩ := h
  refine ⟨fun t ht => ?_, fun _ _ _ => ⟨s, hs⟩⟩
  rw [hs] at ht
  rwa [← Option.some.inj ht]

lemma Vc6Provider.started_load : (Vc6Provider.load : Vc6Provider ι σ).Started P :=
  ⟨fun _ hs => absurd hs (by simp [Vc6Provider.load]),
    fun _ _ hctx => absurd hctx (by simp [Vc6Provider.load])⟩

variable [DecidableEq ι]

lemma Vc6Provider.started_step {be : ω → Backend σ} {vc6Init : σ} (hinit : P vc6Init)
    {p : Vc6Provider ι σ} (h : p.Started P) (c : Vc6Call ι ω)
    (hP : ∀ outcome call, c.request = .call outcome call →
      ∀ s job, P s → P ((be outcome).submit s job).1) :
    (p.step be vc6Init c).1.Started P := by
  obtain ⟨i, request⟩ := c
  unfold Vc6Provider.step
  cases hctx : p.ctxs i with
  | none =>
    cases request with
    | newctx functions => exact started_of_kept (functions.newctx_keeps hinit h.backend)
    | freectx => exact h
    | call outcome call => exact h
  | some ctx =>
    cases request with
    | newctx functions => exact h
    | freectx => exact started_of_kept (h.kept hctx)
    | call outcome call =>
      exact started_of_kept (ctx.call_keeps (hP outcome call rfl) (h.kept hctx) call)

lemma Vc6Provider.ctxs_step_of_ne {be : ω → Backend σ} {vc6Init : σ} (p : Vc6Provider ι σ)
    {c : Vc6Call ι ω} {i : ι} (hne : c.ctx ≠ i) :
    (p.step be vc6Init c).1.ctxs i = p.ctxs i := by
  obtain ⟨j, request⟩ := c
  have hupdate : ∀ ctx, Function.update p.ctxs j ctx i = p.ctxs i :=
    fun ctx => Function.update_of_ne (Ne.symm hne) ctx p.ctxs
  unfold Vc6Provider.step
  cases p.ctxs j <;> cases request <;> simp only [hupdate]

/-- A call depends on the backend only through what the map shows of it. -/
lemma Vc6Ctx.call_congr {f : σ → τ} {be' : Backend τ} (h : be.Maps f be') {s t : σ}
    (hst : f s = f t) (ctx : Vc6Ctx) (c : ContextCall) :
    (ctx.call be (some s) c).answer = (ctx.call be (some t) c).answer ∧
      (ctx.call be (some s) c).ctx = (ctx.call be (some t) c).ctx := by
  have hs := Vc6Ctx.call_mapBackend h (some s) ctx c
  have ht := Vc6Ctx.call_mapBackend h (some t) ctx c
  rw [Option.map_some, hst] at hs
  rw [Option.map_some] at ht
  have heq := hs.symm.trans ht
  constructor
  · calc (ctx.call be (some s) c).answer = ((ctx.call be (some s) c).mapBackend f).answer := rfl
      _ = (ctx.call be (some t) c).answer := by rw [heq]; rfl
  · calc (ctx.call be (some s) c).ctx = ((ctx.call be (some s) c).mapBackend f).ctx := rfl
      _ = (ctx.call be (some t) c).ctx := by rw [heq]; rfl

lemma Vc6Provider.step_own {f : σ → τ} {be : ω → Backend σ} {be' : ω → Backend τ} {vc6Init : σ}
    {p q : Vc6Provider ι σ} (hp : p.Started (fun s => f s = f vc6Init))
    (hq : q.Started (fun s => f s = f vc6Init)) (c : Vc6Call ι ω)
    (h : ∀ outcome call, c.request = .call outcome call → (be outcome).Maps f (be' outcome))
    (hsame : p.ctxs c.ctx = q.ctxs c.ctx) :
    (p.step be vc6Init c).2 = (q.step be vc6Init c).2 ∧
      (p.step be vc6Init c).1.ctxs c.ctx = (q.step be vc6Init c).1.ctxs c.ctx := by
  obtain ⟨i, request⟩ := c
  unfold Vc6Provider.step
  cases hctx : q.ctxs i with
  | none =>
    rw [hctx] at hsame
    cases request with
    | newctx functions =>
      simp only [hsame, Function.update_self, true_and]
      cases functions <;> rfl
    | freectx => simp only [hsame, hctx, and_self]
    | call outcome call => simp only [hsame, hctx, and_self]
  | some ctx =>
    rw [hctx] at hsame
    cases request with
    | newctx functions => simp only [hsame, hctx, and_self]
    | freectx => simp only [hsame, Function.update_self, and_self]
    | call outcome call =>
      obtain ⟨s, hs, hfs⟩ := hp.kept hsame
      obtain ⟨t, ht, hft⟩ := hq.kept hctx
      obtain ⟨hanswer, hnext⟩ :=
        Vc6Ctx.call_congr (h outcome call rfl) (hfs.trans hft.symm) ctx call
      simp only [hsame, hs, ht, hanswer, hnext, Function.update_self, and_self]

/-- To a context, the requests of the other contexts are invisible. -/
lemma vc6_unwinding (vc6Init : Vc6Backend) (i : ι) :
    Isolation.Unwinding (Vc6Provider.step vc6BackendUnder vc6Init) Vc6Call.ctx i
      (fun p => p.Started (fun s => s.chacha.pipelines = vc6Init.chacha.pipelines))
      Vc6Call.Settled (fun p q => p.ctxs i = q.ctxs i) where
  inv p c hc hp := by
    refine Vc6Provider.started_step
      (P := fun s : Vc6Backend => s.chacha.pipelines = vc6Init.chacha.pipelines) rfl hp c
      (fun vk call hcall s job hs => ?_)
    have hmaps := vc6BackendUnder_maps (hc.outcome hcall) s job
    exact (congrArg Prod.fst hmaps).symm.trans hs
  others p q c _ _ hsame hne := (p.ctxs_step_of_ne hne).trans hsame
  own p q c hc hp hq hsame hi := by
    subst hi
    exact Vc6Provider.step_own (f := fun backend : Vc6Backend => backend.chacha.pipelines) hp hq c
      (fun _ _ hcall => vc6BackendUnder_maps (hc.outcome hcall)) hsame

/-- Any requests on any number of contexts, from the time the provider is loaded: each context gets
the answers, and is left in the state, that its own requests alone lead to. -/
theorem vc6_contexts_isolated (vc6Init : Vc6Backend) (calls : List (Vc6Call ι (Job → VkOutcome)))
    (hcalls : ∀ c ∈ calls, c.Settled) (i : ι) :
    let step := Vc6Provider.step vc6BackendUnder vc6Init
    let all := Isolation.run step .load calls
    let alone := Isolation.run step .load (calls.filter (fun c => c.ctx = i))
    Isolation.answersOf Vc6Call.ctx i calls all.1 = alone.1 ∧ all.2.ctxs i = alone.2.ctxs i := by
  intro step all alone
  exact (vc6_unwinding vc6Init i).run_isolated Vc6Provider.started_load Vc6Provider.started_load rfl
    hcalls

/-- An AES and a ChaCha20 context whose calls alternate. -/
theorem vc6_contexts_isolated_two :
    let vc6Init : Vc6Backend :=
      { aes256 := ⟨fun _ => 0, fun _ => 0, fun _ => 0⟩
        chacha := ⟨fun _ => 0, fun _ => 0, fun _ => 0, 0, fun _ => true⟩ }
    let data : Buffer := ⟨List.replicate 64 0x41, by decide⟩
    let key := some (List.replicate 32 7)
    let iv := some (List.replicate 16 9)
    let call (i : Bool) (c : ContextCall) : Vc6Call Bool (Job → VkOutcome) :=
      ⟨i, .call (fun _ => .success) c⟩
    let calls : List (Vc6Call Bool (Job → VkOutcome)) :=
      [⟨true, .newctx .aes256ctr⟩, ⟨false, .newctx .chacha20⟩, call true (.init key iv),
        call false (.init key iv), call true (.stream (.update data)),
        call false (.stream (.update data)), call true (.stream (.final 16)), ⟨false, .freectx⟩]
    let step := Vc6Provider.step vc6BackendUnder vc6Init
    let all := Isolation.run step .load calls
    let alone := Isolation.run step .load (calls.filter (fun c => c.ctx = true))
    Isolation.answersOf Vc6Call.ctx true calls all.1 = alone.1 ∧
      all.2.ctxs true = alone.2.ctxs true := by
  intro vc6Init data key iv call calls
  refine vc6_contexts_isolated vc6Init calls ?_ true
  have hsettled : VkOutcome.success.Settled := fun _ => rfl
  simp only [calls, call, iv, Vc6Call.Settled, List.forall_mem_cons, List.not_mem_nil,
    false_imp_iff, implies_true, and_true, hsettled, Option.mem_some_iff, forall_eq',
    List.length_replicate, le_refl]

end GpuCrypt
