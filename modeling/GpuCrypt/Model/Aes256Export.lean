import GpuCrypt.Model.Backend

/-!
# The exported aes256_gpu provider

The provider of `aes256_export`. It buffers nothing: every update is one call of the library
function `aes256_gpu_encrypt` under the IV of the context. Each context has a GPU context of its
own.
-/

namespace GpuCrypt

variable {σ : Type}

/-- The library behind the provider. `none` is the return value 0 of `aes256_gpu_encrypt`, and
`some out` the return value 1 with the bytes written to `out`. -/
structure Aes256Gpu (σ : Type) where
  encrypt : σ → List Byte → Vector Byte 32 → Vector Byte 16 → σ × Option (List Byte)

/-- The library together with the list of the inputs and IVs it was given, most recent last. -/
def Aes256Gpu.logged (lib : Aes256Gpu σ) : Aes256Gpu (σ × List (List Byte × Vector Byte 16)) where
  encrypt s input key iv :=
    (((lib.encrypt s.1 input key iv).1, s.2 ++ [(input, iv)]), (lib.encrypt s.1 input key iv).2)

inductive OsslParamType
  | integer
  | unsignedInteger
  | real
  | utf8String
  | octetString
  | utf8Ptr
  | octetPtr
deriving DecidableEq, Repr

/-- `OSSL_PARAM`; `data` stands for the pointer and `data_size`. -/
structure OsslParam where
  key : String
  dataType : OsslParamType
  data : List Byte
deriving DecidableEq, Repr

structure Aes256GpuCtx (σ : Type) where
  gpuCtx : σ
  key : Vector Byte 32
  iv : Vector Byte 16
  keySet : Bool
  ivSet : Bool

def Aes256GpuCtx.zalloc (gpuCtx : σ) : Aes256GpuCtx σ where
  gpuCtx := gpuCtx
  key := Vector.replicate 32 0
  iv := Vector.replicate 16 0
  keySet := false
  ivSet := false

/-- `aes256_gpu_newctx`, which fails with `aes256_gpu_init`. -/
def aes256GpuNewctx (aes256GpuInit : Option σ) : Option (Aes256GpuCtx σ) :=
  aes256GpuInit.map Aes256GpuCtx.zalloc

def aes256GpuSetCtxParams (ctx : Aes256GpuCtx σ) (params : Option (List OsslParam)) :
    Bool × Aes256GpuCtx σ :=
  match params with
  | none => (true, ctx)
  | some params =>
    match params.find? (fun p => p.key = "iv") with
    | none => (true, ctx)
    | some p =>
      if p.dataType = .octetString ∧ p.data.length ≤ 16 then
        (true, { ctx with iv := overlay ctx.iv p.data, ivSet := true })
      else (false, ctx)

/-- `aes256_gpu_einit`. The parameters come first, so a rejected key or IV leaves theirs. -/
def aes256GpuEinit (ctx : Aes256GpuCtx σ) (key iv : Option (List Byte))
    (params : Option (List OsslParam)) : Bool × Aes256GpuCtx σ :=
  let withParams := aes256GpuSetCtxParams ctx params
  if withParams.1 then
    let withKey : Bool × Aes256GpuCtx σ :=
      match key with
      | none => withParams
      | some key =>
        if key.length ≠ 32 then (false, withParams.2)
        else (true, { withParams.2 with key := overlay withParams.2.key key, keySet := true })
    if withKey.1 then
      match iv with
      | none => withKey
      | some iv =>
        if iv.length ≠ 16 then (false, withKey.2)
        else (true, { withKey.2 with iv := overlay withKey.2.iv iv, ivSet := true })
    else withKey
  else withParams

def aes256GpuDinit (ctx : Aes256GpuCtx σ) (key iv : Option (List Byte))
    (params : Option (List OsslParam)) : Bool × Aes256GpuCtx σ :=
  aes256GpuEinit ctx key iv params

/-- What an update or a final returns, stores through `outl` (if it does) and writes to `out`. -/
structure Aes256GpuResult (σ : Type) where
  ret : Bool
  outl : Option ℕ
  out : List Byte
  ctx : Aes256GpuCtx σ

def aes256GpuUpdate (lib : Aes256Gpu σ) (ctx : Aes256GpuCtx σ) (outsize : ℕ)
    (input : List Byte) : Aes256GpuResult σ :=
  if !ctx.keySet || !ctx.ivSet then { ret := false, outl := none, out := [], ctx := ctx }
  else if outsize < input.length then { ret := false, outl := none, out := [], ctx := ctx }
  else
    match lib.encrypt ctx.gpuCtx input ctx.key ctx.iv with
    | (s, none) => { ret := false, outl := none, out := [], ctx := { ctx with gpuCtx := s } }
    | (s, some out) =>
      { ret := true, outl := some input.length, out := out, ctx := { ctx with gpuCtx := s } }

def aes256GpuFinal (ctx : Aes256GpuCtx σ) : Aes256GpuResult σ :=
  { ret := true, outl := some 0, out := [], ctx := ctx }

/-- Updates one after the other, each with the size of its output buffer: what they write, all in
all, and the context they leave. -/
def aes256GpuUpdates (lib : Aes256Gpu σ) :
    Aes256GpuCtx σ → List (ℕ × Buffer) → List Byte × Aes256GpuCtx σ
  | ctx, [] => ([], ctx)
  | ctx, c :: cs =>
    let r := aes256GpuUpdate lib ctx c.1 c.2.bytes
    let later := aes256GpuUpdates lib r.ctx cs
    (r.out ++ later.1, later.2)

/-- A call on a context. -/
inductive Aes256GpuCall where
  | einit (key iv : Option (List Byte)) (params : Option (List OsslParam))
  | dinit (key iv : Option (List Byte)) (params : Option (List OsslParam))
  | setCtxParams (params : Option (List OsslParam))
  | update (outsize : ℕ) (input : Buffer)
  | final

def aes256GpuCall (lib : Aes256Gpu σ) (ctx : Aes256GpuCtx σ) : Aes256GpuCall → Aes256GpuCtx σ
  | .einit key iv params => (aes256GpuEinit ctx key iv params).2
  | .dinit key iv params => (aes256GpuDinit ctx key iv params).2
  | .setCtxParams params => (aes256GpuSetCtxParams ctx params).2
  | .update outsize input => (aes256GpuUpdate lib ctx outsize input.bytes).ctx
  | .final => (aes256GpuFinal ctx).ctx

/-- The context that a list of calls leaves. -/
def aes256GpuAfter (lib : Aes256Gpu σ) (ctx : Aes256GpuCtx σ) (calls : List Aes256GpuCall) :
    Aes256GpuCtx σ :=
  calls.foldl (aes256GpuCall lib) ctx

end GpuCrypt
