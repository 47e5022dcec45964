import GpuCrypt.Model.Backend

/-!
# The vc6 provider

The cipher contexts of `ciphers.c` and the calls on them. The AES and the ChaCha20 contexts keep
a partial block between calls, with two copies of the same buffering code; the code is modelled
once, over the block size `B` and what a `StreamAlg` says, and each cipher function is its
instance. The global `inner_backend` is passed along as an `Option`, `none` being `NULL`.
-/

namespace GpuCrypt

variable {σ : Type} {B : ℕ}

/-- The fields that `VC6_AES_CTX` and `VC6_CHACHA_CTX` share. -/
structure Ctx (B : ℕ) where
  key : Vector Byte 32
  iv : Vector Byte 16
  setKey : Bool
  setIv : Bool
  partialBuf : Vector Byte B
  partialLen : ℕ
deriving DecidableEq, Repr

def Ctx.zalloc (B : ℕ) : Ctx B where
  key := Vector.replicate 32 0
  iv := Vector.replicate 16 0
  setKey := false
  setIv := false
  partialBuf := Vector.replicate B 0
  partialLen := 0

/-- What distinguishes the two copies of the buffering code: the `alg_id` of their jobs, and how
they advance the IV over a number of blocks. -/
structure StreamAlg where
  algId : ℤ
  advance : Vector Byte 16 → ℕ → Vector Byte 16

/-- What a call returns, stores through `outl` (if it does) and writes to `out`, with the context
and the backend it leaves. -/
structure CallResult (γ σ : Type) where
  ret : Bool
  outl : Option ℕ
  out : List Byte
  ctx : γ
  innerBackend : Option σ

def CallResult.mapCtx {γ δ : Type} (f : γ → δ) (r : CallResult γ σ) : CallResult δ σ :=
  { ret := r.ret, outl := r.outl, out := r.out, ctx := f r.ctx, innerBackend := r.innerBackend }

/-! ### The buffering code -/

/-- `ctx->partial_buf[ctx->partial_len++] = b`. -/
def Ctx.push (ctx : Ctx B) (b : Byte) : Ctx B :=
  { ctx with
    partialBuf := ctx.partialBuf.setIfInBounds ctx.partialLen b
    partialLen := ctx.partialLen + 1 }

/-- The `while` loop that tops up the partial block, with what is left of the input. -/
def Ctx.topUp : Ctx B → List Byte → Ctx B × List Byte
  | ctx, [] => (ctx, [])
  | ctx, b :: rest => if ctx.partialLen < B then (ctx.push b).topUp rest else (ctx, b :: rest)

/-- The `for` loop that buffers the bytes after the last whole block. -/
def Ctx.bufferRest : Ctx B → List Byte → Ctx B
  | ctx, [] => ctx
  | ctx, b :: rest => (ctx.push b).bufferRest rest

/-- The job that encrypts `input` under the context's key and current IV. -/
def Ctx.job (ctx : Ctx B) (alg : StreamAlg) (input : List Byte) : Job :=
  { input := input, key := ctx.key, iv := ctx.iv, algId := alg.algId }

/-- The variables of an update under way: `in` and `inl` are `input`, and `out` is what has been
written so far. -/
structure Progress (B : ℕ) (σ : Type) where
  backend : σ
  ctx : Ctx B
  input : List Byte
  out : List Byte
  totalWritten : ℕ

def Progress.start (s : σ) (ctx : Ctx B) (input : List Byte) : Progress B σ :=
  { backend := s, ctx := ctx, input := input, out := [], totalWritten := 0 }

/-- Phase 1, the existing partial block: top it up and, once it is full, encrypt it. An `error`
is the `return 0` after a failed job. -/
def flushPartial (be : Backend σ) (alg : StreamAlg) (p : Progress B σ) :
    Except (Progress B σ) (Progress B σ) :=
  if 0 < p.ctx.partialLen then
    let ctx := (p.ctx.topUp p.input).1
    let input := (p.ctx.topUp p.input).2
    if ctx.partialLen = B then
      match be.submit p.backend (ctx.job alg ctx.partialBuf.toList) with
      | (s, none) => .error { p with backend := s, ctx := ctx, input := input }
      | (s, some out) =>
        .ok { backend := s
              ctx := { ctx with partialLen := 0, iv := alg.advance ctx.iv 1 }
              input := input
              out := p.out ++ out
              totalWritten := p.totalWritten + B }
    else .ok { p with ctx := ctx, input := input }
  else .ok p

/-- Phase 2, the full blocks of the input, in one job. -/
def fullBlocks (be : Backend σ) (alg : StreamAlg) (p : Progress B σ) :
    Except (Progress B σ) (Progress B σ) :=
  if B ≤ p.input.length then
    -- `inl & ~(B - 1)`, the block size being a power of two
    let fullLen := p.input.length - p.input.length % B
    match be.submit p.backend (p.ctx.job alg (p.input.take fullLen)) with
    | (s, none) => .error { p with backend := s }
    | (s, some out) =>
      .ok { backend := s
            ctx := { p.ctx with iv := alg.advance p.ctx.iv (fullLen / B) }
            input := p.input.drop fullLen
            out := p.out ++ out
            totalWritten := p.totalWritten + fullLen }
  else .ok p

/-- An update. Neither copy of the code reads its `outsize`. -/
def streamCipher (be : Backend σ) (alg : StreamAlg) (innerBackend : Option σ) (ctx : Ctx B)
    (input : List Byte) : CallResult (Ctx B) σ :=
  match innerBackend with
  | none => { ret := false, outl := none, out := [], ctx := ctx, innerBackend := none }
  | some s =>
    match (flushPartial be alg (.start s ctx input)).bind (fullBlocks be alg) with
    | .error p =>
      { ret := false, outl := some 0, out := p.out, ctx := p.ctx, innerBackend := some p.backend }
    | .ok p =>
      -- phase 3, the bytes that do not fill a block
      { ret := true, outl := some p.totalWritten, out := p.out, ctx := p.ctx.bufferRest p.input,
        innerBackend := some p.backend }

def Ctx.zeroPad (ctx : Ctx B) : Ctx B :=
  { ctx with partialBuf := ctx.partialBuf.mapIdx (fun i b => if i < ctx.partialLen then b else 0) }

/-- A final: the padded partial block is encrypted in place, in `partial_buf`, and its valid
bytes are copied out. -/
def streamFinal (be : Backend σ) (alg : StreamAlg) (innerBackend : Option σ) (ctx : Ctx B)
    (outsize : ℕ) : CallResult (Ctx B) σ :=
  if 0 < ctx.partialLen then
    match innerBackend with
    | none => { ret := false, outl := some 0, out := [], ctx := ctx, innerBackend := none }
    | some s =>
      let padded := ctx.zeroPad
      match be.submit s (padded.job alg padded.partialBuf.toList) with
      | (s', none) =>
        { ret := false, outl := some 0, out := [], ctx := padded, innerBackend := some s' }
      | (s', some enc) =>
        let done := { padded with partialBuf := overlay padded.partialBuf enc }
        if outsize < done.partialLen then
          { ret := false, outl := some 0, out := [], ctx := done, innerBackend := some s' }
        else
          { ret := true, outl := some done.partialLen,
            out := done.partialBuf.toList.take done.partialLen, ctx := done,
            innerBackend := some s' }
  else { ret := true, outl := some 0, out := [], ctx := ctx, innerBackend := innerBackend }

/-! ### AES -/

structure Vc6AesCtx extends Ctx 16 where
  keyLen : ℕ
deriving DecidableEq, Repr

/-- The loop of `inc_128_counter` from byte `i - 1` down to byte 0. -/
def inc128Loop : ℕ → Vector Byte 16 → BitVec 64 → Vector Byte 16
  | 0, counter, _ => counter
  | i + 1, counter, blocks =>
    let sum : BitVec 32 :=
      (((counter[i]?).getD 0).setWidth 64 + (blocks &&& 0xFF#64)).setWidth 32
    let counter := counter.setIfInBounds i ((sum &&& 0xFF#32).setWidth 8)
    let blocks := blocks >>> 8
    let blocks := blocks + (sum >>> 8).setWidth 64
    if blocks = 0 then counter else inc128Loop i counter blocks

def inc128Counter (counter : Vector Byte 16) (blocks : BitVec 64) : Vector Byte 16 :=
  inc128Loop 16 counter blocks

/-- The AES jobs of a context with the given `key_len`: 0 for AES-128, 1 for AES-256. -/
def vc6AesAlg (keyLen : ℕ) : StreamAlg where
  algId := if keyLen = 32 then 1 else 0
  advance iv blocks := inc128Counter iv (BitVec.ofNat 64 blocks)

def Vc6AesCtx.zalloc : Vc6AesCtx := { Ctx.zalloc 16 with keyLen := 0 }

/-- `vc6_aes_newctx`, which starts the backend if it is not running yet. -/
def vc6AesNewctx (vc6Init : σ) (innerBackend : Option σ) : Option σ × Vc6AesCtx :=
  (some (innerBackend.getD vc6Init), Vc6AesCtx.zalloc)

/-- `vc6_aes_init`. A `NULL` key or IV is `none`; `keylen` and `ivlen` are the lengths. The IV is
copied without a check of its length, which the model follows up to the 16 bytes of the array. -/
def vc6AesInit (ctx : Vc6AesCtx) (key iv : Option (List Byte)) : Bool × Vc6AesCtx :=
  let withKey : Option Vc6AesCtx :=
    match key with
    | none => some ctx
    | some key =>
      if key.length ≠ 16 ∧ key.length ≠ 32 then none
      else some { ctx with key := overlay ctx.key key, keyLen := key.length, setKey := true }
  match withKey with
  | none => (false, ctx)
  | some ctx =>
    let ctx : Vc6AesCtx :=
      match iv with
      | none => ctx
      | some iv => { ctx with iv := overlay ctx.iv iv, setIv := true }
    (true, { ctx with partialLen := 0 })

def vc6AesCipher (be : Backend σ) (innerBackend : Option σ) (ctx : Vc6AesCtx)
    (input : List Byte) : CallResult Vc6AesCtx σ :=
  (streamCipher be (vc6AesAlg ctx.keyLen) innerBackend ctx.toCtx input).mapCtx
    (fun c => { ctx with toCtx := c })

def vc6AesFinal (be : Backend σ) (innerBackend : Option σ) (ctx : Vc6AesCtx) (outsize : ℕ) :
    CallResult Vc6AesCtx σ :=
  (streamFinal be (vc6AesAlg ctx.keyLen) innerBackend ctx.toCtx outsize).mapCtx
    (fun c => { ctx with toCtx := c })

/-! ### ChaCha20 -/

abbrev Vc6ChachaCtx := Ctx 64

/-- The 32-bit counter that `memcpy(&counter, iv, 4)` reads on a little-endian host. -/
def chachaCounter (iv : Vector Byte 16) : Word :=
  LittleEndian.word iv[0] iv[1] iv[2] iv[3]

def chachaNonce (iv : Vector Byte 16) : Vector Byte 12 :=
  Vector.ofFn (fun i : Fin 12 => iv[4 + i.val])

/-- `memcpy(iv, &counter, 4)`. -/
def setChachaCounter (iv : Vector Byte 16) (counter : Word) : Vector Byte 16 :=
  iv.mapIdx (fun i b => if i < 4 then LittleEndian.byte counter i else b)

/-- The ChaCha20 jobs; `counter += blocks` truncates the block count to 32 bits. -/
def vc6Chacha20Alg : StreamAlg where
  algId := 2
  advance iv blocks := setChachaCounter iv (chachaCounter iv + BitVec.ofNat 32 blocks)

def vc6Chacha20Newctx (vc6Init : σ) (innerBackend : Option σ) : Option σ × Vc6ChachaCtx :=
  (some (innerBackend.getD vc6Init), Ctx.zalloc 64)

/-- `vc6_chacha20_init`, which copies at most 16 bytes of the IV. -/
def vc6Chacha20Init (ctx : Vc6ChachaCtx) (key iv : Option (List Byte)) : Bool × Vc6ChachaCtx :=
  let withKey : Option Vc6ChachaCtx :=
    match key with
    | none => some ctx
    | some key =>
      if key.length ≠ 32 then none
      else some { ctx with key := overlay ctx.key key, setKey := true }
  match withKey with
  | none => (false, ctx)
  | some ctx =>
    let ctx : Vc6ChachaCtx :=
      match iv with
      | none => ctx
      | some iv => { ctx with iv := overlay ctx.iv (iv.take 16), setIv := true }
    (true, { ctx with partialLen := 0 })

def vc6Chacha20Cipher (be : Backend σ) (innerBackend : Option σ) (ctx : Vc6ChachaCtx)
    (input : List Byte) : CallResult Vc6ChachaCtx σ :=
  streamCipher be vc6Chacha20Alg innerBackend ctx input

def vc6Chacha20Final (be : Backend σ) (innerBackend : Option σ) (ctx : Vc6ChachaCtx)
    (outsize : ℕ) : CallResult Vc6ChachaCtx σ :=
  streamFinal be vc6Chacha20Alg innerBackend ctx outsize

/-! ### Advertised parameters -/

/-- The values that a `get_params` function sets. -/
structure CipherParams where
  blockSize : ℕ
  keylen : ℕ
  ivlen : ℕ
deriving DecidableEq, Repr

def vc6Aes128GetParams : CipherParams := { blockSize := 16, keylen := 16, ivlen := 16 }

def vc6Aes256GetParams : CipherParams := { blockSize := 16, keylen := 32, ivlen := 16 }

def vc6Chacha20GetParams : CipherParams := { blockSize := 1, keylen := 32, ivlen := 16 }

end GpuCrypt
