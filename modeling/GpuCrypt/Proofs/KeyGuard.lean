import GpuCrypt.Model.Aes256Export
import GpuCrypt.Proofs.UpdateOutcomes

/-!
# Encrypting without a key

The exported provider refuses updates of contexts that have no key or no IV. The vc6 provider does
not look: such a context encrypts under the zeros it was allocated with. What decides is then
whether the caller made the inits that install them.
-/

namespace GpuCrypt

variable {σ γ : Type} {B : ℕ}

/-- A call that does nothing: it returns 0 without output, and submits no job. -/
def Refuses (before : Option (σ × List Job)) (r : CallResult γ (σ × List Job)) : Prop :=
  r.ret = false ∧ r.out = [] ∧ r.innerBackend.map Prod.snd = before.map Prod.snd

/-- No update and no final of the run does anything on a context that is not ready. -/
def Guarded (ready : γ → Prop)
    (call : Option (σ × List Job) → γ → ContextCall → CallResult γ (σ × List Job))
    (start : Option (σ × List Job) × γ) (calls : List ContextCall) : Prop :=
  ∀ pre c post, calls = pre ++ .stream c :: post →
    let s := contextAfter call start pre
    ¬ready s.2 → Refuses s.1 (call s.1 s.2 (.stream c))

def Ctx.Ready (ctx : Ctx B) : Prop := ctx.setKey = true ∧ ctx.setIv = true

/-- The call is an init that installs a key. -/
def ContextCall.installsKey (validKeylen : ℕ → Bool) : ContextCall → Bool
  | .init (some key) _ => validKeylen key.length
  | _ => false

/-- The call is an init that installs an IV: one that rejects its key does not get that far. -/
def ContextCall.installsIv (validKeylen : ℕ → Bool) : ContextCall → Bool
  | .init none (some _) => true
  | .init (some key) (some _) => validKeylen key.length
  | _ => false

/-- Every update and every final comes after inits that have installed a key and an IV. -/
def KeyedFirst (validKeylen : ℕ → Bool) (calls : List ContextCall) : Prop :=
  ∀ pre c post, calls = pre ++ .stream c :: post →
    pre.any (ContextCall.installsKey validKeylen) = true ∧
      pre.any (ContextCall.installsIv validKeylen) = true

/-! ### The flags of a context -/

lemma Ctx.bufferRest_flags (ctx : Ctx B) (d : List Byte) :
    (ctx.bufferRest d).setKey = ctx.setKey ∧ (ctx.bufferRest d).setIv = ctx.setIv := by
  induction d generalizing ctx with
  | nil => exact ⟨rfl, rfl⟩
  | cons b d ih => exact ih (ctx.push b)

lemma Updates.flags {be : Backend σ} {alg : StreamAlg} {ctx : Ctx B} {input : List Byte}
    {innerBackend : Option σ} {r : CallResult (Ctx B) σ}
    (h : Updates be alg ctx input innerBackend r) :
    r.ctx.setKey = ctx.setKey ∧ r.ctx.setIv = ctx.setIv := by
  have htop := ctx.bufferRest_flags (input.take (B - ctx.partialLen))
  cases h with
  | noBackend => exact ⟨rfl, rfl⟩
  | buffered => exact ctx.bufferRest_flags input
  | flushFails => exact htop
  | flushes =>
    obtain ⟨hkey, hiv⟩ := (ctx.flushed alg input).bufferRest_flags (ctx.rest input)
    exact ⟨hkey.trans htop.1, hiv.trans htop.2⟩
  | blocksFail => exact ⟨rfl, rfl⟩
  | blocks => exact (ctx.advanced alg input).bufferRest_flags (tail B input)
  | flushesBlocksFail => exact htop
  | flushesBlocks =>
    obtain ⟨hkey, hiv⟩ := ((ctx.flushed alg input).advanced alg (ctx.rest input)).bufferRest_flags
      (tail B (ctx.rest input))
    exact ⟨hkey.trans htop.1, hiv.trans htop.2⟩

lemma streamCall_flags [NeZero B] (be : Backend σ) (alg : StreamAlg) (innerBackend : Option σ)
    (ctx : Ctx B) (c : StreamCall) (hlen : ctx.partialLen ≤ B) :
    (streamCall be alg innerBackend ctx c).ctx.setKey = ctx.setKey ∧
      (streamCall be alg innerBackend ctx c).ctx.setIv = ctx.setIv := by
  cases c with
  | update input =>
    exact (streamCipher_updates be alg innerBackend ctx input.bytes
      (Nat.pos_of_neZero B) hlen).flags
  | final outsize =>
    simp only [streamCall]
    rcases streamFinal_cases be alg innerBackend ctx outsize with
      ⟨_, h⟩ | ⟨_, _, h⟩ | ⟨_, _, _, _, _, h⟩ | ⟨_, _, _, _, _, _, _, h⟩ | ⟨_, _, _, _, _, _, _, h⟩
    all_goals
      rw [h]
      exact ⟨rfl, rfl⟩

/-- A call over a running backend that submits no job returns 1. -/
lemma streamCall_ret_of_idle [NeZero B] (be : Backend σ) (alg : StreamAlg) (s : σ × List Job)
    (ctx : Ctx B) (c : StreamCall) (hlen : ctx.partialLen ≤ B) :
    let r := streamCall be.logged alg (some s) ctx c
    ∃ s', r.innerBackend = some s' ∧ (s'.2 = s.2 → r.ret = true) := by
  obtain ⟨s', entries, hsubmits, _⟩ := streamCall_submits be.logged alg s hlen c
  refine ⟨s', hsubmits.backend, fun hsame => (hsubmits.idle ?_).1⟩
  have hlog := hsubmits.runs.logged
  rw [hsame, List.self_eq_append_right] at hlog
  exact List.map_eq_nil_iff.mp hlog

/-! ### Runs -/

/-- What runs over a running backend rest on: the flags say which inits have been made, and a
stream call that submits no job returns 1. -/
def TracksKeys (toCtx : γ → Ctx B) (validKeylen : ℕ → Bool)
    (call : Option (σ × List Job) → γ → ContextCall → CallResult γ (σ × List Job)) : Prop :=
  ∀ s ctx c, (toCtx ctx).partialLen ≤ B →
    ∃ s', (call (some s) ctx c).innerBackend = some s' ∧
      (toCtx (call (some s) ctx c).ctx).partialLen ≤ B ∧
      (toCtx (call (some s) ctx c).ctx).setKey =
        ((toCtx ctx).setKey || c.installsKey validKeylen) ∧
      (toCtx (call (some s) ctx c).ctx).setIv =
        ((toCtx ctx).setIv || c.installsIv validKeylen) ∧
      (∀ d, c = .stream d → s'.2 = s.2 → (call (some s) ctx c).ret = true)

lemma TracksKeys.contextAfter {toCtx : γ → Ctx B} {validKeylen : ℕ → Bool}
    {call : Option (σ × List Job) → γ → ContextCall → CallResult γ (σ × List Job)}
    (h : TracksKeys toCtx validKeylen call) (calls : List ContextCall) (s : σ × List Job) {ctx : γ}
    (hlen : (toCtx ctx).partialLen ≤ B) :
    ∃ s' ctx', GpuCrypt.contextAfter call (some s, ctx) calls = (some s', ctx') ∧
      (toCtx ctx').partialLen ≤ B ∧
      (toCtx ctx').setKey =
        ((toCtx ctx).setKey || calls.any (ContextCall.installsKey validKeylen)) ∧
      (toCtx ctx').setIv =
        ((toCtx ctx).setIv || calls.any (ContextCall.installsIv validKeylen)) := by
  induction calls generalizing s ctx with
  | nil => exact ⟨s, ctx, rfl, hlen, (Bool.or_false _).symm, (Bool.or_false _).symm⟩
  | cons c calls ih =>
    obtain ⟨s', hs', hlen', hkey, hiv, _⟩ := h s ctx c hlen
    obtain ⟨s'', ctx'', hrun, hlen'', hkey', hiv'⟩ := ih s' hlen'
    refine ⟨s'', ctx'', ?_, hlen'', ?_, ?_⟩
    · rw [← hrun, ← hs']
      rfl
    · rw [hkey', hkey, List.any_cons, Bool.or_assoc]
    · rw [hiv', hiv, List.any_cons, Bool.or_assoc]

/-- From a fresh context, a run is guarded exactly if it makes its inits first. -/
lemma TracksKeys.guarded_iff {toCtx : γ → Ctx B} {validKeylen : ℕ → Bool}
    {call : Option (σ × List Job) → γ → ContextCall → CallResult γ (σ × List Job)}
    (h : TracksKeys toCtx validKeylen call) (s : σ × List Job) {ctx : γ}
    (hzero : toCtx ctx = Ctx.zalloc B) (calls : List ContextCall) :
    Guarded (fun ctx => (toCtx ctx).Ready) call (some s, ctx) calls ↔
      KeyedFirst validKeylen calls := by
  have hafter : ∀ pre, ∃ s' ctx', GpuCrypt.contextAfter call (some s, ctx) pre = (some s', ctx') ∧
      (toCtx ctx').partialLen ≤ B ∧ ((toCtx ctx').Ready ↔
        pre.any (ContextCall.installsKey validKeylen) = true ∧
          pre.any (ContextCall.installsIv validKeylen) = true) := by
    intro pre
    obtain ⟨s', ctx', hrun, hlen, hkey, hiv⟩ := h.contextAfter pre s
      (show (toCtx ctx).partialLen ≤ B by rw [hzero]; exact Nat.zero_le B)
    rw [hzero] at hkey hiv
    refine ⟨s', ctx', hrun, hlen, ?_⟩
    rw [Ctx.Ready, hkey, hiv]
    rfl
  constructor
  · intro hguard pre c post heq
    obtain ⟨s', ctx', hrun, hlen, hready⟩ := hafter pre
    rw [← hready]
    by_contra hnot
    have href := hguard pre c post heq
    rw [hrun] at href
    obtain ⟨hret, _, hlog⟩ := href hnot
    obtain ⟨s'', hs'', _, _, _, hidle⟩ := h s' ctx' (.stream c) hlen
    rw [hs''] at hlog
    rw [hidle c rfl (Option.some.inj hlog)] at hret
    simp at hret
  · intro hkeyed pre c post heq before hnot
    obtain ⟨s', ctx', hrun, hlen, hready⟩ := hafter pre
    have hbefore : before = (some s', ctx') := hrun
    rw [hbefore] at hnot
    exact absurd (hready.mpr (hkeyed pre c post heq)) hnot

def vc6AesKeylen (keylen : ℕ) : Bool := keylen = 16 ∨ keylen = 32

def vc6Chacha20Keylen (keylen : ℕ) : Bool := keylen = 32

lemma vc6AesInit_flags (ctx : Vc6AesCtx) (key iv : Option (List Byte)) :
    (vc6AesInit ctx key iv).2.setKey =
        (ctx.setKey || (ContextCall.init key iv).installsKey vc6AesKeylen) ∧
      (vc6AesInit ctx key iv).2.setIv =
        (ctx.setIv || (ContextCall.init key iv).installsIv vc6AesKeylen) := by
  unfold vc6AesInit
  cases key with
  | none => cases iv <;> simp [ContextCall.installsKey, ContextCall.installsIv]
  | some key =>
    by_cases hkey : key.length ≠ 16 ∧ key.length ≠ 32
    · have hno : vc6AesKeylen key.length = false := by simp [vc6AesKeylen, hkey]
      cases iv <;> simp [hkey, ContextCall.installsKey, ContextCall.installsIv, hno]
    · have hyes : vc6AesKeylen key.length = true := by
        rw [vc6AesKeylen, decide_eq_true_eq]
        omega
      simp only [if_neg hkey]
      cases iv <;> simp [ContextCall.installsKey, ContextCall.installsIv, hyes]

lemma vc6Chacha20Init_flags (ctx : Vc6ChachaCtx) (key iv : Option (List Byte)) :
    (vc6Chacha20Init ctx key iv).2.setKey =
        (ctx.setKey || (ContextCall.init key iv).installsKey vc6Chacha20Keylen) ∧
      (vc6Chacha20Init ctx key iv).2.setIv =
        (ctx.setIv || (ContextCall.init key iv).installsIv vc6Chacha20Keylen) := by
  unfold vc6Chacha20Init
  cases key with
  | none => cases iv <;> simp [ContextCall.installsKey, ContextCall.installsIv]
  | some key =>
    by_cases hkey : key.length ≠ 32
    · have hno : vc6Chacha20Keylen key.length = false := by simp [vc6Chacha20Keylen, hkey]
      cases iv <;> simp [hkey, ContextCall.installsKey, ContextCall.installsIv, hno]
    · have hyes : vc6Chacha20Keylen key.length = true := by
        rw [vc6Chacha20Keylen, decide_eq_true_eq]
        omega
      simp only [if_neg hkey]
      cases iv <;> simp [ContextCall.installsKey, ContextCall.installsIv, hyes]

lemma vc6AesContextCall_tracksKeys (be : Backend σ) :
    TracksKeys Vc6AesCtx.toCtx vc6AesKeylen (vc6AesContextCall be.logged) := by
  intro s ctx c hlen
  cases c with
  | init key iv =>
    obtain ⟨hkey, hiv⟩ := vc6AesInit_flags ctx key iv
    exact ⟨s, rfl, (vc6AesInit_partialLen_le ctx key iv).trans hlen, hkey, hiv, by simp⟩
  | stream c =>
    obtain ⟨s', hs', hidle⟩ :=
      streamCall_ret_of_idle be (vc6AesAlg ctx.keyLen) s ctx.toCtx c hlen
    have hcall : vc6AesContextCall be.logged (some s) ctx (.stream c) = _ :=
      vc6AesCall_eq be.logged (some s) ctx c
    obtain ⟨hkey, hiv⟩ :=
      streamCall_flags be.logged (vc6AesAlg ctx.keyLen) (some s) ctx.toCtx c hlen
    rw [hcall]
    exact ⟨s', hs', streamCall_partialLen_le be.logged _ (some s) ctx.toCtx c hlen,
      hkey.trans (Bool.or_false _).symm, hiv.trans (Bool.or_false _).symm,
      fun _ _ hlog => hidle hlog⟩

lemma vc6Chacha20ContextCall_tracksKeys (be : Backend σ) :
    TracksKeys id vc6Chacha20Keylen (vc6Chacha20ContextCall be.logged) := by
  intro s ctx c hlen
  cases c with
  | init key iv =>
    obtain ⟨hkey, hiv⟩ := vc6Chacha20Init_flags ctx key iv
    exact ⟨s, rfl, (vc6Chacha20Init_partialLen_le ctx key iv).trans hlen, hkey, hiv, by simp⟩
  | stream c =>
    obtain ⟨s', hs', hidle⟩ := streamCall_ret_of_idle be vc6Chacha20Alg s ctx c hlen
    have hcall : vc6Chacha20ContextCall be.logged (some s) ctx (.stream c) =
        streamCall be.logged vc6Chacha20Alg (some s) ctx c := by
      rw [← vc6Chacha20Call_eq]
      rfl
    obtain ⟨hkey, hiv⟩ := streamCall_flags be.logged vc6Chacha20Alg (some s) ctx c hlen
    rw [hcall]
    exact ⟨s', hs', streamCall_partialLen_le be.logged _ (some s) ctx c hlen,
      hkey.trans (Bool.or_false _).symm, hiv.trans (Bool.or_false _).symm,
      fun _ _ hlog => hidle hlog⟩

/-! ### The exported provider -/

/-- The parameters carry an IV that `aes256_gpu_set_ctx_params` takes. -/
def carriesIv (params : Option (List OsslParam)) : Bool :=
  ((params.getD []).find? (fun p => p.key = "iv")).any
    (fun p => p.dataType = .octetString ∧ p.data.length ≤ 16)

/-- The call is an init with a key of 32 bytes. -/
def Aes256GpuCall.carriesKey : Aes256GpuCall → Bool
  | .einit key _ _ => key.any (fun key => key.length = 32)
  | .dinit key _ _ => key.any (fun key => key.length = 32)
  | _ => false

/-- The call comes with an IV of the right length, as an argument or as a parameter. -/
def Aes256GpuCall.carriesIv : Aes256GpuCall → Bool
  | .einit _ iv params => iv.any (fun iv => iv.length = 16) || GpuCrypt.carriesIv params
  | .dinit _ iv params => iv.any (fun iv => iv.length = 16) || GpuCrypt.carriesIv params
  | .setCtxParams params => GpuCrypt.carriesIv params
  | _ => false

lemma aes256GpuSetCtxParams_flags (ctx : Aes256GpuCtx σ) (params : Option (List OsslParam)) :
    (aes256GpuSetCtxParams ctx params).2.keySet = ctx.keySet ∧
      (aes256GpuSetCtxParams ctx params).2.ivSet = (ctx.ivSet || carriesIv params) := by
  unfold aes256GpuSetCtxParams carriesIv
  cases params with
  | none => simp
  | some params =>
    simp only [Option.getD_some]
    cases params.find? (fun p => p.key = "iv") with
    | none => simp
    | some p =>
      by_cases hp : p.dataType = .octetString ∧ p.data.length ≤ 16
      · simp [hp]
      · simp [hp]

lemma aes256GpuEinit_flags (ctx : Aes256GpuCtx σ) (key iv : Option (List Byte))
    (params : Option (List OsslParam)) :
    ((aes256GpuEinit ctx key iv params).2.keySet = true →
        ctx.keySet = true ∨ (Aes256GpuCall.einit key iv params).carriesKey = true) ∧
      ((aes256GpuEinit ctx key iv params).2.ivSet = true →
        ctx.ivSet = true ∨ (Aes256GpuCall.einit key iv params).carriesIv = true) := by
  obtain ⟨hkey, hiv⟩ := aes256GpuSetCtxParams_flags ctx params
  unfold aes256GpuEinit
  generalize aes256GpuSetCtxParams ctx params = withParams at hkey hiv ⊢
  obtain ⟨ok, ctx'⟩ := withParams
  simp only at hkey hiv
  simp only [Aes256GpuCall.carriesKey, Aes256GpuCall.carriesIv, Bool.or_eq_true]
  cases ok with
  | false =>
    simp only [Bool.false_eq_true, if_false, hkey, hiv, Bool.or_eq_true]
    tauto
  | true =>
    cases key with
    | none =>
      cases iv with
      | none => simp [hkey, hiv]
      | some iv => by_cases hlen : iv.length = 16 <;> simp [hlen, hkey, hiv]
    | some key =>
      by_cases hklen : key.length ≠ 32
      · simp only [hklen, hkey, hiv, Bool.or_eq_true, if_true, ne_eq, not_false_eq_true,
          Bool.false_eq_true, if_false]
        tauto
      · cases iv with
        | none => simp_all
        | some iv => by_cases hlen : iv.length ≠ 16 <;> simp_all

/-- A flag that is set has been set by a call of the run. -/
lemma aes256GpuAfter_flags (lib : Aes256Gpu σ) (calls : List Aes256GpuCall)
    (ctx : Aes256GpuCtx σ) :
    ((aes256GpuAfter lib ctx calls).keySet = true →
        ctx.keySet = true ∨ calls.any Aes256GpuCall.carriesKey = true) ∧
      ((aes256GpuAfter lib ctx calls).ivSet = true →
        ctx.ivSet = true ∨ calls.any Aes256GpuCall.carriesIv = true) := by
  induction calls generalizing ctx with
  | nil => exact ⟨.inl, .inl⟩
  | cons c calls ih =>
    have hstep : ((aes256GpuCall lib ctx c).keySet = true →
          ctx.keySet = true ∨ c.carriesKey = true) ∧
        ((aes256GpuCall lib ctx c).ivSet = true → ctx.ivSet = true ∨ c.carriesIv = true) := by
      cases c with
      | einit key iv params => exact aes256GpuEinit_flags ctx key iv params
      | dinit key iv params => exact aes256GpuEinit_flags ctx key iv params
      | setCtxParams params =>
        obtain ⟨hkey, hiv⟩ := aes256GpuSetCtxParams_flags ctx params
        simp only [aes256GpuCall, hkey, hiv, Bool.or_eq_true]
        exact ⟨.inl, id⟩
      | update outsize input =>
        simp only [aes256GpuCall, aes256GpuUpdate]
        split
        · exact ⟨.inl, .inl⟩
        · split
          · exact ⟨.inl, .inl⟩
          · split <;> exact ⟨.inl, .inl⟩
      | final => exact ⟨.inl, .inl⟩
    obtain ⟨hkey, hiv⟩ := ih (aes256GpuCall lib ctx c)
    obtain ⟨hkeyStep, hivStep⟩ := hstep
    simp only [aes256GpuAfter, List.foldl_cons, List.any_cons, Bool.or_eq_true] at hkey hiv ⊢
    constructor
    · intro h
      rcases hkey h with hset | hlater
      · exact (hkeyStep hset).imp_right .inl
      · exact .inr (.inr hlater)
    · intro h
      rcases hiv h with hset | hlater
      · exact (hivStep hset).imp_right .inl
      · exact .inr (.inr hlater)

/-- Without its flags an update does nothing. -/
lemma aes256GpuUpdate_refuses (lib : Aes256Gpu σ) {ctx : Aes256GpuCtx σ}
    (hflags : ¬(ctx.keySet = true ∧ ctx.ivSet = true)) (outsize : ℕ) (input : List Byte) :
    aes256GpuUpdate lib ctx outsize input =
      { ret := false, outl := none, out := [], ctx := ctx } := by
  have hguard : (!ctx.keySet || !ctx.ivSet) = true := by
    cases hkey : ctx.keySet with
    | false => rfl
    | true =>
      rw [hkey] at hflags
      simpa using hflags
  rw [aes256GpuUpdate, if_pos hguard]

/-- On runs from a fresh context: the vc6 provider keeps from encrypting without a key and an IV
exactly if the caller installs them before the first update or final, and the exported provider
always does. -/
theorem key_guard_iff (be : Backend σ) (vc6Init : σ × List Job)
    (innerBackend : Option (σ × List Job)) :
    (∀ calls, Guarded (fun ctx : Vc6AesCtx => ctx.toCtx.Ready) (vc6AesContextCall be.logged)
        (vc6AesNewctx vc6Init innerBackend) calls ↔ KeyedFirst vc6AesKeylen calls) ∧
    (∀ calls, Guarded (fun ctx : Vc6ChachaCtx => ctx.Ready) (vc6Chacha20ContextCall be.logged)
        (vc6Chacha20Newctx vc6Init innerBackend) calls ↔ KeyedFirst vc6Chacha20Keylen calls) ∧
    (∀ (τ : Type) (lib : Aes256Gpu τ) (gpuCtx : τ × List (List Byte × Vector Byte 16))
        (calls : List Aes256GpuCall) (outsize : ℕ) (input : Buffer),
      let ctx := aes256GpuAfter lib.logged (.zalloc gpuCtx) calls
      let r := aes256GpuUpdate lib.logged ctx outsize input.bytes
      ¬(calls.any Aes256GpuCall.carriesKey = true ∧ calls.any Aes256GpuCall.carriesIv = true) ∨
          ¬(ctx.keySet = true ∧ ctx.ivSet = true) →
        r.ret = false ∧ r.out = [] ∧ r.ctx.gpuCtx.2 = ctx.gpuCtx.2) := by
  refine ⟨fun calls => ?_, fun calls => ?_, ?_⟩
  · exact (vc6AesContextCall_tracksKeys be).guarded_iff _ rfl calls
  · exact (vc6Chacha20ContextCall_tracksKeys be).guarded_iff _ rfl calls
  · intro τ lib gpuCtx calls outsize input ctx r hno
    obtain ⟨hkey, hiv⟩ := aes256GpuAfter_flags lib.logged calls (.zalloc gpuCtx)
    have hflags : ¬(ctx.keySet = true ∧ ctx.ivSet = true) := by
      rintro ⟨hkeySet, hivSet⟩
      have hcarried := And.intro ((hkey hkeySet).resolve_left Bool.false_ne_true)
        ((hiv hivSet).resolve_left Bool.false_ne_true)
      tauto
    have hr : r = { ret := false, outl := none, out := [], ctx := ctx } :=
      aes256GpuUpdate_refuses lib.logged hflags outsize input.bytes
    rw [hr]
    exact ⟨rfl, rfl, rfl⟩

/-- An update of a block on a context that has never been initialised submits it, under a key and
an IV of zeros, and returns 1. -/
theorem key_guard_fresh :
    let start := vc6AesNewctx (([true], []) : List Bool × List Job) none
    let block := StreamCall.update ⟨List.replicate 16 5, by decide⟩
    let r := vc6AesContextCall Backend.scripted.logged start.1 start.2 (.stream block)
    ¬Guarded (fun ctx : Vc6AesCtx => ctx.toCtx.Ready) (vc6AesContextCall Backend.scripted.logged)
        start [.stream block] ∧
      r.ret = true ∧ r.out = List.replicate 16 5 ∧
      r.innerBackend = some ([],
        [⟨List.replicate 16 5, Vector.replicate 32 0, Vector.replicate 16 0, 0⟩]) := by
  intro start block r
  have hr : r.ret = true := by decide
  refine ⟨fun hguard => ?_, hr, by decide, by decide⟩
  have href := hguard [] block [] rfl (by unfold Ctx.Ready; decide)
  exact absurd href.1 (by rw [Bool.not_eq_false]; exact hr)

end GpuCrypt
