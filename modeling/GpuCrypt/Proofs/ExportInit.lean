import Mathlib.Data.List.GetD
import GpuCrypt.Proofs.ExportStream

/-!
# Failed inits of the exported provider

`aes256_gpu_einit` takes the parameters, the key and the IV one after the other, and each of these
steps checks its argument before it copies it. A step that fails therefore changes nothing, but
the steps before it have been taken. The inits of the vc6 ciphers reject before their first copy.
-/

namespace GpuCrypt

variable {σ τ : Type}

/-- A failing call leaves the state as it found it. -/
def FailsUnchanged (call : τ → Bool × τ) (s : τ) : Prop := (call s).1 = false → (call s).2 = s

/-- `second` after `first`, as long as `first` returns 1. -/
def thenStep (first second : τ → Bool × τ) (s : τ) : Bool × τ :=
  if (first s).1 then second (first s).2 else first s

lemma thenStep_failsUnchanged_iff {first second : τ → Bool × τ} {s : τ}
    (hsecond : ∀ t, FailsUnchanged second t) :
    FailsUnchanged (thenStep first second) s ↔
      FailsUnchanged first s ∧
        ((first s).1 = true → (second (first s).2).1 = false → (first s).2 = s) := by
  unfold FailsUnchanged thenStep
  by_cases hfirst : (first s).1 = true
  · simp only [hfirst, if_true, Bool.true_eq_false, false_implies, true_and, true_implies]
    refine forall_congr' (fun hfail => ?_)
    rw [hsecond _ hfail]
  · simp only [hfirst, if_false, Bool.false_eq_true, false_implies, and_true]

/-! ### The steps of the init -/

/-- The key step of `aes256_gpu_einit`. -/
def einitKey (key : Option (List Byte)) (ctx : Aes256GpuCtx σ) : Bool × Aes256GpuCtx σ :=
  match key with
  | none => (true, ctx)
  | some key =>
    if key.length ≠ 32 then (false, ctx)
    else (true, { ctx with key := overlay ctx.key key, keySet := true })

/-- The IV step of `aes256_gpu_einit`. -/
def einitIv (iv : Option (List Byte)) (ctx : Aes256GpuCtx σ) : Bool × Aes256GpuCtx σ :=
  match iv with
  | none => (true, ctx)
  | some iv =>
    if iv.length ≠ 16 then (false, ctx)
    else (true, { ctx with iv := overlay ctx.iv iv, ivSet := true })

/-- The part of `aes256_gpu_einit` before the IV step. -/
def einitParamsKey (params : Option (List OsslParam)) (key : Option (List Byte)) :
    Aes256GpuCtx σ → Bool × Aes256GpuCtx σ :=
  thenStep (fun ctx => aes256GpuSetCtxParams ctx params) (einitKey key)

lemma aes256GpuEinit_eq_steps (ctx : Aes256GpuCtx σ) (key iv : Option (List Byte))
    (params : Option (List OsslParam)) :
    aes256GpuEinit ctx key iv params = thenStep (einitParamsKey params key) (einitIv iv) ctx := by
  unfold aes256GpuEinit einitParamsKey thenStep
  by_cases hparams : (aes256GpuSetCtxParams ctx params).1 = true
  · simp only [hparams, if_true]
    cases key with
    | none => cases iv <;> simp [einitKey, einitIv, ← hparams]
    | some k =>
      by_cases hk : k.length = 32
      · cases iv <;> simp [einitKey, einitIv, hk]
      · simp [einitKey, hk]
  · simp only [hparams, if_false, Bool.false_eq_true]

/-- The parameter that `OSSL_PARAM_locate_const` finds for the IV. -/
def ivParam (params : Option (List OsslParam)) : Option OsslParam :=
  params.bind (fun ps => ps.find? (fun p => p.key = "iv"))

def IvParamAccepted (params : Option (List OsslParam)) : Prop :=
  ∀ p ∈ ivParam params, p.dataType = .octetString ∧ p.data.length ≤ 16

def KeyAccepted (key : Option (List Byte)) : Prop := ∀ k ∈ key, k.length = 32

def IvAccepted (iv : Option (List Byte)) : Prop := ∀ v ∈ iv, v.length = 16

/-- The context already has the IV bytes of the parameter list. -/
def Aes256GpuCtx.HasIvParam (ctx : Aes256GpuCtx σ) (params : Option (List OsslParam)) : Prop :=
  ∀ p ∈ ivParam params, ctx.ivSet = true ∧ p.data = ctx.iv.toList.take p.data.length

/-- The context already has the key. -/
def Aes256GpuCtx.HasKey (ctx : Aes256GpuCtx σ) (key : Option (List Byte)) : Prop :=
  ∀ k ∈ key, ctx.keySet = true ∧ k = ctx.key.toList

lemma overlay_eq_self_iff {n : ℕ} (v : Vector Byte n) {l : List Byte} (hl : l.length ≤ n) :
    overlay v l = v ↔ l = v.toList.take l.length := by
  have hget : ∀ i (hi : i < n), (overlay v l)[i] = l.getD i v[i] := fun i hi => by simp [overlay]
  constructor
  · intro heq
    apply List.ext_getElem
    · simp [hl]
    · intro i hi _
      have hat : (overlay v l)[i] = v[i] := by simp only [heq]
      rw [hget i (by omega), List.getD_eq_getElem _ _ hi] at hat
      simp [hat]
  · intro heq
    apply Vector.ext
    intro i hi
    rw [hget i hi]
    by_cases hlt : i < l.length
    · have hat : l[i]? = (v.toList.take l.length)[i]? := by rw [← heq]
      rw [List.getD_eq_getElem?_getD, hat]
      simp [hlt, hi]
    · rw [List.getD_eq_default _ _ (by omega)]

lemma aes256GpuSetCtxParams_eq (ctx : Aes256GpuCtx σ) (params : Option (List OsslParam)) :
    aes256GpuSetCtxParams ctx params =
      match ivParam params with
      | none => (true, ctx)
      | some p =>
        if p.dataType = .octetString ∧ p.data.length ≤ 16 then
          (true, { ctx with iv := overlay ctx.iv p.data, ivSet := true })
        else (false, ctx) := by
  unfold aes256GpuSetCtxParams ivParam
  cases params <;> rfl

lemma aes256GpuSetCtxParams_fst (ctx : Aes256GpuCtx σ) (params : Option (List OsslParam)) :
    (aes256GpuSetCtxParams ctx params).1 = true ↔ IvParamAccepted params := by
  rw [aes256GpuSetCtxParams_eq]
  unfold IvParamAccepted
  cases ivParam params with
  | none => simp
  | some p => by_cases h : p.dataType = .octetString ∧ p.data.length ≤ 16 <;> simp [h]

lemma aes256GpuSetCtxParams_failsUnchanged (ctx : Aes256GpuCtx σ)
    (params : Option (List OsslParam)) :
    FailsUnchanged (fun c => aes256GpuSetCtxParams c params) ctx := by
  intro hfail
  dsimp only at hfail ⊢
  rw [aes256GpuSetCtxParams_eq] at hfail ⊢
  split at hfail
  · cases hfail
  · split at hfail
    · cases hfail
    · rename_i hreject
      rw [if_neg hreject]

lemma einitKey_fst (key : Option (List Byte)) (ctx : Aes256GpuCtx σ) :
    (einitKey key ctx).1 = true ↔ KeyAccepted key := by
  unfold einitKey KeyAccepted
  cases key with
  | none => simp
  | some k => by_cases h : k.length = 32 <;> simp [h]

lemma einitKey_failsUnchanged (key : Option (List Byte)) (ctx : Aes256GpuCtx σ) :
    FailsUnchanged (einitKey key) ctx := by
  unfold FailsUnchanged einitKey
  cases key with
  | none => simp
  | some k => by_cases h : k.length = 32 <;> simp [h]

lemma einitIv_fst (iv : Option (List Byte)) (ctx : Aes256GpuCtx σ) :
    (einitIv iv ctx).1 = true ↔ IvAccepted iv := by
  unfold einitIv IvAccepted
  cases iv with
  | none => simp
  | some v => by_cases h : v.length = 16 <;> simp [h]

lemma einitIv_failsUnchanged (iv : Option (List Byte)) (ctx : Aes256GpuCtx σ) :
    FailsUnchanged (einitIv iv) ctx := by
  unfold FailsUnchanged einitIv
  cases iv with
  | none => simp
  | some v => by_cases h : v.length = 16 <;> simp [h]

/-! ### What a failed init leaves -/

/-- The contexts agree in the key, the IV and the two flags. -/
structure Aes256GpuCtx.SameSession (ctx' ctx : Aes256GpuCtx σ) : Prop where
  key : ctx'.key = ctx.key
  iv : ctx'.iv = ctx.iv
  keySet : ctx'.keySet = ctx.keySet
  ivSet : ctx'.ivSet = ctx.ivSet

lemma Aes256GpuCtx.eq_iff_sameSession {ctx' ctx : Aes256GpuCtx σ}
    (hgpu : ctx'.gpuCtx = ctx.gpuCtx) : ctx' = ctx ↔ ctx'.SameSession ctx := by
  constructor
  · rintro rfl
    exact ⟨rfl, rfl, rfl, rfl⟩
  · rintro ⟨hkey, hiv, hkeySet, hivSet⟩
    cases ctx'
    cases ctx
    simp_all

lemma aes256GpuSetCtxParams_sameSession_iff (ctx : Aes256GpuCtx σ)
    {params : Option (List OsslParam)} (haccept : IvParamAccepted params) :
    (aes256GpuSetCtxParams ctx params).2.SameSession ctx ↔ ctx.HasIvParam params := by
  rw [aes256GpuSetCtxParams_eq]
  unfold IvParamAccepted at haccept
  unfold Aes256GpuCtx.HasIvParam
  cases hp : ivParam params with
  | none => exact iff_of_true ⟨rfl, rfl, rfl, rfl⟩ (by simp)
  | some p =>
    have hp' := haccept p hp
    simp only [if_pos hp', Option.mem_some_iff, forall_eq']
    rw [← overlay_eq_self_iff ctx.iv hp'.2]
    constructor
    · intro hsame
      exact ⟨hsame.ivSet.symm, hsame.iv⟩
    · rintro ⟨hivSet, hiv⟩
      exact ⟨rfl, hiv, rfl, hivSet.symm⟩

lemma einitKey_sameSession_iff {key : Option (List Byte)} (haccept : KeyAccepted key)
    (ctx' ctx : Aes256GpuCtx σ) (hkey : ctx'.key = ctx.key) (hkeySet : ctx'.keySet = ctx.keySet) :
    (einitKey key ctx').2.SameSession ctx ↔ ctx'.SameSession ctx ∧ ctx.HasKey key := by
  unfold KeyAccepted at haccept
  unfold einitKey Aes256GpuCtx.HasKey
  cases key with
  | none => simp
  | some k =>
    have hk := haccept k rfl
    have htake : ctx.key.toList.take k.length = ctx.key.toList := by simp [hk]
    have hover := overlay_eq_self_iff ctx.key (l := k) (by omega)
    rw [htake, ← hkey] at hover
    simp only [if_neg (not_not.mpr hk), Option.mem_some_iff, forall_eq', ← hkey]
    rw [← hover]
    constructor
    · intro hsame
      exact ⟨⟨hkey, hsame.iv, hkeySet, hsame.ivSet⟩, hsame.keySet.symm, hsame.key.trans hkey.symm⟩
    · rintro ⟨hsame, hset, hkeep⟩
      exact ⟨hkeep.trans hkey, hsame.iv, hset.symm, hsame.ivSet⟩

lemma key_aes256GpuSetCtxParams (ctx : Aes256GpuCtx σ) (params : Option (List OsslParam)) :
    (aes256GpuSetCtxParams ctx params).2.key = ctx.key ∧
      (aes256GpuSetCtxParams ctx params).2.keySet = ctx.keySet := by
  rw [aes256GpuSetCtxParams_eq]
  split
  · exact ⟨rfl, rfl⟩
  · split <;> exact ⟨rfl, rfl⟩

lemma gpuCtx_einitKey (key : Option (List Byte)) (ctx : Aes256GpuCtx σ) :
    (einitKey key ctx).2.gpuCtx = ctx.gpuCtx := by
  unfold einitKey
  split
  · rfl
  · split <;> rfl

lemma gpuCtx_einitIv (iv : Option (List Byte)) (ctx : Aes256GpuCtx σ) :
    (einitIv iv ctx).2.gpuCtx = ctx.gpuCtx := by
  unfold einitIv
  split
  · rfl
  · split <;> rfl

lemma gpuCtx_einitParamsKey (params : Option (List OsslParam)) (key : Option (List Byte))
    (ctx : Aes256GpuCtx σ) : (einitParamsKey params key ctx).2.gpuCtx = ctx.gpuCtx := by
  have hparams := gpuCtx_aes256GpuSetCtxParams ctx params
  unfold einitParamsKey thenStep
  split
  · rw [gpuCtx_einitKey, hparams]
  · exact hparams

lemma gpuCtx_aes256GpuEinit (ctx : Aes256GpuCtx σ) (key iv : Option (List Byte))
    (params : Option (List OsslParam)) :
    (aes256GpuEinit ctx key iv params).2.gpuCtx = ctx.gpuCtx := by
  rw [aes256GpuEinit_eq_steps]
  unfold thenStep
  split
  · rw [gpuCtx_einitIv, gpuCtx_einitParamsKey]
  · rw [gpuCtx_einitParamsKey]

lemma einitParamsKey_fst (params : Option (List OsslParam)) (key : Option (List Byte))
    (ctx : Aes256GpuCtx σ) :
    (einitParamsKey params key ctx).1 = true ↔ IvParamAccepted params ∧ KeyAccepted key := by
  have hparams := aes256GpuSetCtxParams_fst ctx params
  unfold einitParamsKey thenStep
  split
  · rename_i hfirst
    rw [einitKey_fst, ← hparams]
    exact (and_iff_right hfirst).symm
  · rename_i hfirst
    exact iff_of_false hfirst (fun h => hfirst (hparams.mpr h.1))

lemma einitParamsKey_failsUnchanged_iff (params : Option (List OsslParam))
    (key : Option (List Byte)) (ctx : Aes256GpuCtx σ) :
    FailsUnchanged (einitParamsKey params key) ctx ↔
      (IvParamAccepted params → ¬KeyAccepted key → ctx.HasIvParam params) := by
  unfold einitParamsKey
  rw [thenStep_failsUnchanged_iff (einitKey_failsUnchanged key),
    and_iff_right (aes256GpuSetCtxParams_failsUnchanged ctx params),
    ← Bool.not_eq_true, einitKey_fst, aes256GpuSetCtxParams_fst,
    Aes256GpuCtx.eq_iff_sameSession (gpuCtx_aes256GpuSetCtxParams ctx params)]
  refine forall_congr' (fun hparams => ?_)
  rw [aes256GpuSetCtxParams_sameSession_iff ctx hparams]

lemma einitParamsKey_snd_eq_iff {params : Option (List OsslParam)} {key : Option (List Byte)}
    (hparams : IvParamAccepted params) (hkey : KeyAccepted key) (ctx : Aes256GpuCtx σ) :
    (einitParamsKey params key ctx).2 = ctx ↔ ctx.HasIvParam params ∧ ctx.HasKey key := by
  obtain ⟨hkeep, hkeepSet⟩ := key_aes256GpuSetCtxParams ctx params
  rw [Aes256GpuCtx.eq_iff_sameSession (gpuCtx_einitParamsKey params key ctx)]
  unfold einitParamsKey thenStep
  rw [if_pos ((aes256GpuSetCtxParams_fst ctx params).mpr hparams),
    einitKey_sameSession_iff hkey _ ctx hkeep hkeepSet,
    aes256GpuSetCtxParams_sameSession_iff ctx hparams]

/-- If the init fails, the key, the IV and the flags stay, and the updates after it run as if there
had been no init. -/
def Aes256GpuCtx.KeptOnFailure (ctx : Aes256GpuCtx σ) (init : Bool × Aes256GpuCtx σ) : Prop :=
  init.1 = false → init.2.SameSession ctx ∧
    ∀ (lib : Aes256Gpu σ) (calls : List (ℕ × Buffer)),
      aes256GpuUpdates lib init.2 calls = aes256GpuUpdates lib ctx calls

/-- What the steps before the rejected argument copy is what the context has. -/
def Aes256GpuCtx.NothingTaken (ctx : Aes256GpuCtx σ) (key iv : Option (List Byte))
    (params : Option (List OsslParam)) : Prop :=
  IvParamAccepted params →
    (¬KeyAccepted key → ctx.HasIvParam params) ∧
      (KeyAccepted key → ¬IvAccepted iv → ctx.HasIvParam params ∧ ctx.HasKey key)

lemma Aes256GpuCtx.keptOnFailure_iff (ctx : Aes256GpuCtx σ) (key iv : Option (List Byte))
    (params : Option (List OsslParam)) :
    ctx.KeptOnFailure (aes256GpuEinit ctx key iv params) ↔
      FailsUnchanged (fun c => aes256GpuEinit c key iv params) ctx := by
  have heq := Aes256GpuCtx.eq_iff_sameSession (gpuCtx_aes256GpuEinit ctx key iv params)
  constructor
  · intro hkept hfail
    exact heq.mpr (hkept hfail).1
  · intro hsame hfail
    refine ⟨heq.mp (hsame hfail), fun lib calls => ?_⟩
    rw [show (aes256GpuEinit ctx key iv params).2 = ctx from hsame hfail]

/-- A failed init of the exported provider changes nothing exactly when the parameters are
rejected, or when what was accepted before the rejected key or IV is what the context has. -/
theorem aes256Gpu_failed_init_iff (ctx : Aes256GpuCtx σ) (key iv : Option (List Byte))
    (params : Option (List OsslParam)) :
    (ctx.KeptOnFailure (aes256GpuEinit ctx key iv params) ↔ ctx.NothingTaken key iv params) ∧
      (ctx.KeptOnFailure (aes256GpuDinit ctx key iv params) ↔
        ctx.NothingTaken key iv params) := by
  suffices heinit : ctx.KeptOnFailure (aes256GpuEinit ctx key iv params) ↔
      ctx.NothingTaken key iv params from ⟨heinit, heinit⟩
  have hsteps : (fun c : Aes256GpuCtx σ => aes256GpuEinit c key iv params) =
      thenStep (einitParamsKey params key) (einitIv iv) :=
    funext (fun c => aes256GpuEinit_eq_steps c key iv params)
  rw [ctx.keptOnFailure_iff, hsteps, thenStep_failsUnchanged_iff (einitIv_failsUnchanged iv),
    einitParamsKey_failsUnchanged_iff, einitParamsKey_fst, ← Bool.not_eq_true, einitIv_fst]
  unfold Aes256GpuCtx.NothingTaken
  by_cases hparams : IvParamAccepted params
  · by_cases hkey : KeyAccepted key
    · rw [einitParamsKey_snd_eq_iff hparams hkey]
      simp only [hparams, hkey, not_true, false_implies, and_self, true_implies, true_and]
    · simp only [hparams, hkey, not_false_iff, false_implies, and_false, true_implies, and_true]
  · simp only [hparams, false_implies, false_and, and_self]

/-- After a session with key 7 and IV 9, an init with key 8 and an IV of 12 bytes fails. The next
update runs under key 8 and IV 9. -/
theorem aes256Gpu_failed_init_mixes :
    let E : Vector Byte 32 → Vector Byte 16 → Vector Byte 16 :=
      fun key counter => counter.map (fun b => key.toList.headD 0 + b)
    let lib := Aes256Gpu.ideal E
    let session := (aes256GpuEinit (.zalloc ()) (some (List.replicate 32 7))
      (some (List.replicate 16 9)) none).2
    let init := aes256GpuEinit session (some (List.replicate 32 8))
      (some (List.replicate 12 10)) none
    init.1 = false ∧ init.2.key = Vector.replicate 32 8 ∧ init.2.iv = Vector.replicate 16 9 ∧
      init.2.key ≠ session.key ∧ (aes256GpuUpdate lib init.2 1 [0]).ret = true ∧
      (aes256GpuUpdate lib init.2 1 [0]).out = [8 + 9] ∧
      (aes256GpuUpdate lib session 1 [0]).out = [7 + 9] := by
  decide +kernel

end GpuCrypt
