import GpuCrypt.Model.Ciphers
import GpuCrypt.Lib.Compute

/-!
# Updates over one memory

The update functions again, with their input and output buffers at positions of one byte memory.
The loops read a byte at a time; a job reads all its input before it writes its output, as the
batchers do. Where the buffers overlap, what a job has written is what is read later.
-/

namespace GpuCrypt

variable {σ γ : Type} {B : ℕ}

open Compute

/-- The `while` loop that tops up the partial block: the context, `in` and `inl` after it. -/
def Ctx.topUpFrom (mem : Memory) : Ctx B → ℕ → ℕ → Ctx B × ℕ × ℕ
  | ctx, inp, 0 => (ctx, inp, 0)
  | ctx, inp, inl + 1 =>
    if ctx.partialLen < B then (ctx.push (mem inp)).topUpFrom mem (inp + 1) inl
    else (ctx, inp, inl + 1)

/-- The `for` loop that buffers the bytes after the last whole block. -/
def Ctx.bufferFrom (mem : Memory) : Ctx B → ℕ → ℕ → Ctx B
  | ctx, _, 0 => ctx
  | ctx, inp, inl + 1 => (ctx.push (mem inp)).bufferFrom mem (inp + 1) inl

/-- The variables of an update under way: `inp` and `outp` are the pointers `in` and `out`. -/
structure MemProgress (B : ℕ) (σ : Type) where
  backend : σ
  ctx : Ctx B
  mem : Memory
  inp : ℕ
  inl : ℕ
  outp : ℕ
  totalWritten : ℕ

/-- Phase 1, the existing partial block. -/
def flushPartialAt (be : Backend σ) (alg : StreamAlg) (p : MemProgress B σ) :
    Except (MemProgress B σ) (MemProgress B σ) :=
  if 0 < p.ctx.partialLen then
    let (ctx, inp, inl) := p.ctx.topUpFrom p.mem p.inp p.inl
    if ctx.partialLen = B then
      match be.submit p.backend (ctx.job alg ctx.partialBuf.toList) with
      | (s, none) => .error { p with backend := s, ctx := ctx, inp := inp, inl := inl }
      | (s, some out) =>
        .ok { backend := s
              ctx := { ctx with partialLen := 0, iv := alg.advance ctx.iv 1 }
              mem := copyIn p.mem p.outp out
              inp := inp
              inl := inl
              outp := p.outp + B
              totalWritten := p.totalWritten + B }
    else .ok { p with ctx := ctx, inp := inp, inl := inl }
  else .ok p

/-- Phase 2, the full blocks of the input, in one job. -/
def fullBlocksAt (be : Backend σ) (alg : StreamAlg) (p : MemProgress B σ) :
    Except (MemProgress B σ) (MemProgress B σ) :=
  if B ≤ p.inl then
    let fullLen := p.inl - p.inl % B
    match be.submit p.backend (p.ctx.job alg (copyOut p.mem p.inp fullLen)) with
    | (s, none) => .error { p with backend := s }
    | (s, some out) =>
      .ok { backend := s
            ctx := { p.ctx with iv := alg.advance p.ctx.iv (fullLen / B) }
            mem := copyIn p.mem p.outp out
            inp := p.inp + fullLen
            inl := p.inl - fullLen
            outp := p.outp + fullLen
            totalWritten := p.totalWritten + fullLen }
  else .ok p

/-- What a call returns and stores through `outl`, with the context, the backend and the memory it
leaves. -/
structure MemResult (γ σ : Type) where
  ret : Bool
  outl : Option ℕ
  ctx : γ
  innerBackend : Option σ
  mem : Memory

def MemResult.mapCtx {δ : Type} (f : γ → δ) (r : MemResult γ σ) : MemResult δ σ :=
  { ret := r.ret, outl := r.outl, ctx := f r.ctx, innerBackend := r.innerBackend, mem := r.mem }

/-- An update of `inl` bytes from `inp` on, with the output from `outp` on. -/
def streamCipherAt (be : Backend σ) (alg : StreamAlg) (innerBackend : Option σ) (ctx : Ctx B)
    (mem : Memory) (inp inl outp : ℕ) : MemResult (Ctx B) σ :=
  match innerBackend with
  | none => { ret := false, outl := none, ctx := ctx, innerBackend := none, mem := mem }
  | some s =>
    let start : MemProgress B σ :=
      { backend := s, ctx := ctx, mem := mem, inp := inp, inl := inl, outp := outp,
        totalWritten := 0 }
    match (flushPartialAt be alg start).bind (fullBlocksAt be alg) with
    | .error p =>
      { ret := false, outl := some 0, ctx := p.ctx, innerBackend := some p.backend, mem := p.mem }
    | .ok p =>
      { ret := true, outl := some p.totalWritten, ctx := p.ctx.bufferFrom p.mem p.inp p.inl,
        innerBackend := some p.backend, mem := p.mem }

def vc6AesCipherAt (be : Backend σ) (innerBackend : Option σ) (ctx : Vc6AesCtx) (mem : Memory)
    (inp inl outp : ℕ) : MemResult Vc6AesCtx σ :=
  (streamCipherAt be (vc6AesAlg ctx.keyLen) innerBackend ctx.toCtx mem inp inl outp).mapCtx
    (fun c => { ctx with toCtx := c })

def vc6Chacha20CipherAt (be : Backend σ) (innerBackend : Option σ) (ctx : Vc6ChachaCtx)
    (mem : Memory) (inp inl outp : ℕ) : MemResult Vc6ChachaCtx σ :=
  streamCipherAt be vc6Chacha20Alg innerBackend ctx mem inp inl outp

/-! ### The loops read what is in the memory -/

lemma Ctx.topUpFrom_eq (mem : Memory) (ctx : Ctx B) (inp inl : ℕ) :
    ctx.topUpFrom mem inp inl =
      ((ctx.topUp (copyOut mem inp inl)).1,
        inp + inl - (ctx.topUp (copyOut mem inp inl)).2.length,
        (ctx.topUp (copyOut mem inp inl)).2.length) := by
  induction inl generalizing ctx inp with
  | zero => rfl
  | succ inl ih =>
    rw [copyOut_succ, Ctx.topUpFrom, Ctx.topUp]
    by_cases h : ctx.partialLen < B
    · have hnext : inp + 1 + inl = inp + (inl + 1) := by omega
      rw [if_pos h, if_pos h, ih, hnext]
    · have hback : inp + (inl + 1) - (inl + 1) = inp := by omega
      rw [if_neg h, if_neg h]
      simp only [List.length_cons, length_copyOut, hback]

lemma Ctx.bufferFrom_eq (mem : Memory) (ctx : Ctx B) (inp inl : ℕ) :
    ctx.bufferFrom mem inp inl = ctx.bufferRest (copyOut mem inp inl) := by
  induction inl generalizing ctx inp with
  | zero => rfl
  | succ inl ih => rw [copyOut_succ, Ctx.bufferFrom, Ctx.bufferRest, ih]

end GpuCrypt
