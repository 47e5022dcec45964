import GpuCrypt.Model.Provider

/-!
# The first contexts

`newctx` looks whether there is an `inner_backend`, calls `vc6_init` if there is none, and assigns
what it returns. No lock is taken, so that the `newctx` calls of several threads interleave. Every
other request is one step here.
-/

namespace GpuCrypt

variable {σ ω ι : Type}

/-- The provider, and the `newctx` calls that have found no backend, by the addresses of their
contexts: the function table and, once `vc6_init` has returned, the new backend. -/
structure Vc6Threads (ι σ : Type) extends Vc6Provider ι σ where
  newctxs : ι → Option (Vc6Functions × Option σ)

def Vc6Threads.load : Vc6Threads ι σ where
  toVc6Provider := Vc6Provider.load
  newctxs := fun _ => none

/-- The parts of a `newctx`, and the other requests. -/
inductive Vc6Step (ι ω σ : Type)
  | check (i : ι) (functions : Vc6Functions)
  | init (i : ι) (backend : σ)
  | assign (i : ι)
  | freectx (i : ι)
  | call (i : ι) (outcome : ω) (c : ContextCall)

/-- One step. A `newctx` that finds a backend has nothing left to do but to make its context. Steps
that no thread can take do nothing. -/
def Vc6Threads.step [DecidableEq ι] (be : ω → Backend σ) (p : Vc6Threads ι σ) :
    Vc6Step ι ω σ → Vc6Threads ι σ × Option Vc6Answer
  | .check i functions =>
    match p.newctxs i, p.ctxs i, p.innerBackend with
    | none, none, none =>
      ({ p with newctxs := Function.update p.newctxs i (some (functions, none)) }, none)
    | none, none, some backend =>
      let r := functions.newctx backend (some backend)
      ({ p with innerBackend := r.1, ctxs := Function.update p.ctxs i (some r.2) }, none)
    | _, _, _ => (p, none)
  | .init i backend =>
    match p.newctxs i with
    | some (functions, none) =>
      ({ p with newctxs := Function.update p.newctxs i (some (functions, some backend)) }, none)
    | _ => (p, none)
  | .assign i =>
    match p.newctxs i with
    | some (functions, some backend) =>
      let r := functions.newctx backend none
      ({ innerBackend := r.1
         ctxs := Function.update p.ctxs i (some r.2)
         newctxs := Function.update p.newctxs i none }, none)
    | _ => (p, none)
  | .freectx i =>
    match p.ctxs i with
    | some _ => ({ p with ctxs := Function.update p.ctxs i none }, none)
    | none => (p, none)
  | .call i outcome c =>
    match p.ctxs i with
    | some ctx =>
      let r := ctx.call (be outcome) p.innerBackend c
      ({ p with
         innerBackend := r.innerBackend
         ctxs := Function.update p.ctxs i (some r.ctx) }, some r.answer)
    | none => (p, none)

/-- The request that is done with the step. -/
def Vc6Threads.request (p : Vc6Threads ι σ) : Vc6Step ι ω σ → Option (Vc6Call ι ω)
  | .check i functions =>
    match p.newctxs i, p.ctxs i, p.innerBackend with
    | none, none, some _ => some ⟨i, .newctx functions⟩
    | _, _, _ => none
  | .init _ _ => none
  | .assign i =>
    match p.newctxs i with
    | some (functions, some _) => some ⟨i, .newctx functions⟩
    | _ => none
  | .freectx i => some ⟨i, .freectx⟩
  | .call i outcome c => some ⟨i, .call outcome c⟩

end GpuCrypt
