import GpuCrypt.Model.Ciphers

/-!
# The writes to `partial_buf`

`Vector.setIfInBounds` drops a write beyond the end of the buffer, which C does not. The functions
here list what the calls of the provider write to `partial_buf`, each write as the byte and its
index, in the order of the code and whether or not the index is one of the buffer.
-/

namespace GpuCrypt

variable {σ : Type} {B : ℕ}

/-- The array after the writes. -/
def applyWrites {α : Type} {n : ℕ} (v : Vector α n) (writes : List (α × ℕ)) : Vector α n :=
  writes.foldl (fun v w => v.setIfInBounds w.2 w.1) v

/-- The writes of the `while` loop that tops up the partial block. -/
def Ctx.topUpWrites : Ctx B → List Byte → List (Byte × ℕ)
  | _, [] => []
  | ctx, b :: rest =>
    if ctx.partialLen < B then (b, ctx.partialLen) :: (ctx.push b).topUpWrites rest else []

/-- The writes of the `for` loop that buffers the bytes after the last whole block, which does not
look at `partial_len`. -/
def Ctx.bufferRestWrites : Ctx B → List Byte → List (Byte × ℕ)
  | _, [] => []
  | ctx, b :: rest => (b, ctx.partialLen) :: (ctx.push b).bufferRestWrites rest

/-- The writes of an update: phase 1 if there is a partial block, and phase 3 if no job fails. -/
def streamCipherWrites (be : Backend σ) (alg : StreamAlg) (innerBackend : Option σ) (ctx : Ctx B)
    (input : List Byte) : List (Byte × ℕ) :=
  match innerBackend with
  | none => []
  | some s =>
    (if 0 < ctx.partialLen then ctx.topUpWrites input else []) ++
      match (flushPartial be alg (.start s ctx input)).bind (fullBlocks be alg) with
      | .error _ => []
      | .ok p => p.ctx.bufferRestWrites p.input

/-- The writes of a final: the zeros from `partial_len` on, and what the job writes from the start
of the buffer. -/
def streamFinalWrites (be : Backend σ) (alg : StreamAlg) (innerBackend : Option σ) (ctx : Ctx B) :
    List (Byte × ℕ) :=
  if 0 < ctx.partialLen then
    match innerBackend with
    | none => []
    | some s =>
      (List.replicate (B - ctx.partialLen) 0).zipIdx ctx.partialLen ++
        match be.submit s (ctx.zeroPad.job alg ctx.zeroPad.partialBuf.toList) with
        | (_, none) => []
        | (_, some enc) => enc.zipIdx
  else []

def vc6AesCipherWrites (be : Backend σ) (innerBackend : Option σ) (ctx : Vc6AesCtx)
    (input : List Byte) : List (Byte × ℕ) :=
  streamCipherWrites be (vc6AesAlg ctx.keyLen) innerBackend ctx.toCtx input

def vc6AesFinalWrites (be : Backend σ) (innerBackend : Option σ) (ctx : Vc6AesCtx) :
    List (Byte × ℕ) :=
  streamFinalWrites be (vc6AesAlg ctx.keyLen) innerBackend ctx.toCtx

def vc6Chacha20CipherWrites (be : Backend σ) (innerBackend : Option σ) (ctx : Vc6ChachaCtx)
    (input : List Byte) : List (Byte × ℕ) :=
  streamCipherWrites be vc6Chacha20Alg innerBackend ctx input

def vc6Chacha20FinalWrites (be : Backend σ) (innerBackend : Option σ) (ctx : Vc6ChachaCtx) :
    List (Byte × ℕ) :=
  streamFinalWrites be vc6Chacha20Alg innerBackend ctx

end GpuCrypt
