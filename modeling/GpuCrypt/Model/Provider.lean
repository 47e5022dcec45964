import GpuCrypt.Model.Session
import GpuCrypt.Model.Batchers

/-!
# The provider and its contexts

OpenSSL makes contexts from the dispatch tables of `ciphers.c`, calls them in any order and frees
them. All of them share the static `inner_backend`, which the first `newctx` starts and nothing
stops. Backends are indexed by what becomes of the jobs of one call, which is not for the provider
to decide.
-/

namespace GpuCrypt

variable {σ ω ι : Type}

/-- The dispatch tables `vc6_aes128ctr_functions`, `vc6_aes256ctr_functions` and
`vc6_chacha20_functions`. -/
inductive Vc6Functions
  | aes128ctr
  | aes256ctr
  | chacha20
deriving DecidableEq, Repr

/-- A context that the `newctx` of one of the tables made. -/
inductive Vc6Ctx
  | aes (ctx : Vc6AesCtx)
  | chacha20 (ctx : Vc6ChachaCtx)
deriving DecidableEq, Repr

/-- `OSSL_FUNC_CIPHER_NEWCTX`; the two AES tables have the same. -/
def Vc6Functions.newctx (vc6Init : σ) (innerBackend : Option σ) :
    Vc6Functions → Option σ × Vc6Ctx
  | .aes128ctr => (vc6AesNewctx vc6Init innerBackend).map id .aes
  | .aes256ctr => (vc6AesNewctx vc6Init innerBackend).map id .aes
  | .chacha20 => (vc6Chacha20Newctx vc6Init innerBackend).map id .chacha20

/-- The inits, `OSSL_FUNC_CIPHER_UPDATE` and `OSSL_FUNC_CIPHER_FINAL`. -/
def Vc6Ctx.call (be : Backend σ) (innerBackend : Option σ) :
    Vc6Ctx → ContextCall → CallResult Vc6Ctx σ
  | .aes ctx, c => (vc6AesContextCall be innerBackend ctx c).mapCtx .aes
  | .chacha20 ctx, c => (vc6Chacha20ContextCall be innerBackend ctx c).mapCtx .chacha20

/-- The static `inner_backend`, and the contexts that are live at their addresses. -/
structure Vc6Provider (ι σ : Type) where
  innerBackend : Option σ
  ctxs : ι → Option Vc6Ctx

/-- The provider when it has been loaded. -/
def Vc6Provider.load : Vc6Provider ι σ where
  innerBackend := none
  ctxs := fun _ => none

inductive Vc6Request (ω : Type)
  | newctx (functions : Vc6Functions)
  | freectx
  | call (outcome : ω) (c : ContextCall)

/-- A request for the context at an address. -/
structure Vc6Call (ι ω : Type) where
  ctx : ι
  request : Vc6Request ω

/-- What the caller sees of a `CallResult`. -/
structure Vc6Answer where
  ret : Bool
  outl : Option ℕ
  out : List Byte
deriving DecidableEq, Repr

def CallResult.answer {γ : Type} (r : CallResult γ σ) : Vc6Answer where
  ret := r.ret
  outl := r.outl
  out := r.out

/-- One request. An address that `newctx` returns is not live; calls on a context that is not, or
freeing it, are undefined and do nothing here. -/
def Vc6Provider.step [DecidableEq ι] (be : ω → Backend σ) (vc6Init : σ) (p : Vc6Provider ι σ)
    (c : Vc6Call ι ω) : Vc6Provider ι σ × Option Vc6Answer :=
  match c.request, p.ctxs c.ctx with
  | .newctx functions, none =>
    let r := functions.newctx vc6Init p.innerBackend
    ({ innerBackend := r.1, ctxs := Function.update p.ctxs c.ctx (some r.2) }, none)
  | .freectx, some _ => ({ p with ctxs := Function.update p.ctxs c.ctx none }, none)
  | .call outcome call, some ctx =>
    let r := ctx.call (be outcome) p.innerBackend call
    ({ innerBackend := r.innerBackend, ctxs := Function.update p.ctxs c.ctx (some r.ctx) },
      some r.answer)
  | _, _ => (p, none)

/-- The backend of the provider when each job meets an outcome of its own. The two jobs of an update
have different IVs. -/
def vc6BackendUnder (vk : Job → VkOutcome) : Backend Vc6Backend where
  submit backend job := vc6SubmitJob (vk job) backend job
  length_out backend job backend' out h :=
    (vc6Backend (vk job)).length_out backend job backend' out h

end GpuCrypt
