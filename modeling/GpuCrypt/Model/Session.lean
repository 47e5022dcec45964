import GpuCrypt.Model.Ciphers

/-!
# Calls on a context

OpenSSL drives a context by updates and finals. `runCalls` makes a list of such calls, each on
the context and backend the call before left, whether or not that one succeeded.
-/

namespace GpuCrypt

variable {σ γ δ : Type} {B : ℕ}

/-- An update with its input, or a final with the size of the output buffer. -/
inductive StreamCall where
  | update (input : Buffer)
  | final (outsize : ℕ)

def StreamCall.input : StreamCall → List Byte
  | update input => input.bytes
  | final _ => []

/-- What a list of calls leaves: the result of each call, and the context and backend at the
end. -/
structure Run (γ σ : Type) where
  results : List (CallResult γ σ)
  ctx : γ
  innerBackend : Option σ

def Run.output (r : Run γ σ) : List Byte := r.results.flatMap CallResult.out

def Run.mapCtx (f : γ → δ) (r : Run γ σ) : Run δ σ :=
  { results := r.results.map (CallResult.mapCtx f), ctx := f r.ctx, innerBackend := r.innerBackend }

def runCalls (call : Option σ → γ → StreamCall → CallResult γ σ) :
    Option σ → γ → List StreamCall → Run γ σ
  | innerBackend, ctx, [] => { results := [], ctx := ctx, innerBackend := innerBackend }
  | innerBackend, ctx, c :: cs =>
    let r := call innerBackend ctx c
    let later := runCalls call r.innerBackend r.ctx cs
    { later with results := r :: later.results }

def streamCall (be : Backend σ) (alg : StreamAlg) (innerBackend : Option σ) (ctx : Ctx B) :
    StreamCall → CallResult (Ctx B) σ
  | .update input => streamCipher be alg innerBackend ctx input.bytes
  | .final outsize => streamFinal be alg innerBackend ctx outsize

def vc6AesCall (be : Backend σ) (innerBackend : Option σ) (ctx : Vc6AesCtx) :
    StreamCall → CallResult Vc6AesCtx σ
  | .update input => vc6AesCipher be innerBackend ctx input.bytes
  | .final outsize => vc6AesFinal be innerBackend ctx outsize

def vc6Chacha20Call (be : Backend σ) (innerBackend : Option σ) (ctx : Vc6ChachaCtx) :
    StreamCall → CallResult Vc6ChachaCtx σ
  | .update input => vc6Chacha20Cipher be innerBackend ctx input.bytes
  | .final outsize => vc6Chacha20Final be innerBackend ctx outsize

/-- A call on a context. -/
inductive ContextCall where
  | init (key iv : Option (List Byte))
  | stream (c : StreamCall)

def contextCall (init : γ → Option (List Byte) → Option (List Byte) → Bool × γ)
    (call : Option σ → γ → StreamCall → CallResult γ σ) (innerBackend : Option σ) (ctx : γ) :
    ContextCall → CallResult γ σ
  | .init key iv =>
    { ret := (init ctx key iv).1, outl := none, out := [], ctx := (init ctx key iv).2,
      innerBackend := innerBackend }
  | .stream c => call innerBackend ctx c

def vc6AesContextCall (be : Backend σ) : Option σ → Vc6AesCtx → ContextCall →
    CallResult Vc6AesCtx σ :=
  contextCall vc6AesInit (vc6AesCall be)

def vc6Chacha20ContextCall (be : Backend σ) : Option σ → Vc6ChachaCtx → ContextCall →
    CallResult Vc6ChachaCtx σ :=
  contextCall vc6Chacha20Init (vc6Chacha20Call be)

/-- The backend and the context that a list of calls leaves. -/
def contextAfter (call : Option σ → γ → ContextCall → CallResult γ σ) (start : Option σ × γ)
    (calls : List ContextCall) : Option σ × γ :=
  calls.foldl (fun s c => ((call s.1 s.2 c).innerBackend, (call s.1 s.2 c).ctx)) start

/-- An init, updates with some chunks and one final. -/
structure Session (γ σ : Type) where
  init : Bool
  updates : Run γ σ
  final : CallResult γ σ

def Session.calls (x : Session γ σ) : List (CallResult γ σ) := x.updates.results ++ [x.final]

def Session.output (x : Session γ σ) : List Byte := x.updates.output ++ x.final.out

/-- The session that goes on after an init with the given result. -/
def session (call : Option σ → γ → StreamCall → CallResult γ σ) (innerBackend : Option σ)
    (init : Bool × γ) (chunks : List Buffer) (outsize : ℕ) : Session γ σ :=
  let updates := runCalls call innerBackend init.2 (chunks.map .update)
  { init := init.1
    updates := updates
    final := call updates.innerBackend updates.ctx (.final outsize) }

def vc6AesSession (be : Backend σ) (innerBackend : Option σ) (ctx : Vc6AesCtx)
    (key iv : List Byte) (chunks : List Buffer) (outsize : ℕ) : Session Vc6AesCtx σ :=
  session (vc6AesCall be) innerBackend (vc6AesInit ctx (some key) (some iv)) chunks outsize

def vc6Chacha20Session (be : Backend σ) (innerBackend : Option σ) (ctx : Vc6ChachaCtx)
    (key iv : List Byte) (chunks : List Buffer) (outsize : ℕ) : Session Vc6ChachaCtx σ :=
  session (vc6Chacha20Call be) innerBackend (vc6Chacha20Init ctx (some key) (some iv)) chunks
    outsize

/-- The AES contexts that calls of the provider can leave, whatever the backend did. The IVs are
within the 16 bytes of the array that an init copies them to. -/
inductive Vc6AesCtx.Reachable : Vc6AesCtx → Prop
  | newctx : Reachable Vc6AesCtx.zalloc
  | init (ctx : Vc6AesCtx) (key iv : Option (List Byte)) (hiv : ∀ b ∈ iv, b.length ≤ 16)
      (h : Reachable ctx) : Reachable (vc6AesInit ctx key iv).2
  | call {σ : Type} (be : Backend σ) (innerBackend : Option σ) (ctx : Vc6AesCtx) (c : StreamCall)
      (h : Reachable ctx) : Reachable (vc6AesCall be innerBackend ctx c).ctx

/-- The ChaCha20 contexts that calls of the provider can leave. -/
inductive Vc6ChachaReachable : Vc6ChachaCtx → Prop
  | newctx : Vc6ChachaReachable (Ctx.zalloc 64)
  | init (ctx : Vc6ChachaCtx) (key iv : Option (List Byte)) (h : Vc6ChachaReachable ctx) :
      Vc6ChachaReachable (vc6Chacha20Init ctx key iv).2
  | call {σ : Type} (be : Backend σ) (innerBackend : Option σ) (ctx : Vc6ChachaCtx)
      (c : StreamCall) (h : Vc6ChachaReachable ctx) :
      Vc6ChachaReachable (vc6Chacha20Call be innerBackend ctx c).ctx

lemma runCalls_append (call : Option σ → γ → StreamCall → CallResult γ σ)
    (innerBackend : Option σ) (ctx : γ) (xs ys : List StreamCall) :
    runCalls call innerBackend ctx (xs ++ ys) =
      let first := runCalls call innerBackend ctx xs
      let later := runCalls call first.innerBackend first.ctx ys
      { later with results := first.results ++ later.results } := by
  induction xs generalizing innerBackend ctx with
  | nil => rfl
  | cons c xs ih => simp only [List.cons_append, runCalls, ih]

lemma length_results_runCalls (call : Option σ → γ → StreamCall → CallResult γ σ)
    (innerBackend : Option σ) (ctx : γ) (calls : List StreamCall) :
    (runCalls call innerBackend ctx calls).results.length = calls.length := by
  induction calls generalizing innerBackend ctx with
  | nil => rfl
  | cons c calls ih => simp only [runCalls, List.length_cons, ih]

/-- Calls on an AES context are calls on its buffering part: `key_len` stays what it is. -/
lemma runCalls_vc6AesCall (be : Backend σ) (innerBackend : Option σ) (ctx : Vc6AesCtx)
    (calls : List StreamCall) :
    runCalls (vc6AesCall be) innerBackend ctx calls =
      (runCalls (streamCall be (vc6AesAlg ctx.keyLen)) innerBackend ctx.toCtx calls).mapCtx
        (fun c => { ctx with toCtx := c }) := by
  induction calls generalizing innerBackend ctx with
  | nil => rfl
  | cons c calls ih => cases c <;> simp only [runCalls, vc6AesCall, vc6AesCipher, vc6AesFinal,
      streamCall, CallResult.mapCtx, ih, Run.mapCtx, List.map_cons]

lemma vc6Chacha20Call_eq (be : Backend σ) :
    vc6Chacha20Call be = streamCall be vc6Chacha20Alg := by
  funext innerBackend ctx c
  cases c <;> rfl

lemma vc6AesCall_eq (be : Backend σ) (innerBackend : Option σ) (ctx : Vc6AesCtx)
    (c : StreamCall) :
    vc6AesCall be innerBackend ctx c =
      (streamCall be (vc6AesAlg ctx.keyLen) innerBackend ctx.toCtx c).mapCtx
        (fun c => { ctx with toCtx := c }) := by
  cases c <;> rfl

lemma Run.output_mapCtx (f : γ → δ) (r : Run γ σ) : (r.mapCtx f).output = r.output := by
  simp only [Run.output, Run.mapCtx, List.flatMap_map]
  rfl

def Session.mapCtx (f : γ → δ) (x : Session γ σ) : Session δ σ :=
  { init := x.init, updates := x.updates.mapCtx f, final := x.final.mapCtx f }

lemma Session.calls_mapCtx (f : γ → δ) (x : Session γ σ) :
    (x.mapCtx f).calls = x.calls.map (CallResult.mapCtx f) := by
  simp only [Session.calls, Session.mapCtx, Run.mapCtx, List.map_append, List.map_cons,
    List.map_nil]

lemma Session.output_mapCtx (f : γ → δ) (x : Session γ σ) : (x.mapCtx f).output = x.output := by
  simp only [Session.output, Session.mapCtx, Run.output_mapCtx, CallResult.mapCtx]

lemma session_vc6AesCall (be : Backend σ) (innerBackend : Option σ) (init : Bool)
    (ctx : Vc6AesCtx) (chunks : List Buffer) (outsize : ℕ) :
    session (vc6AesCall be) innerBackend (init, ctx) chunks outsize =
      (session (streamCall be (vc6AesAlg ctx.keyLen)) innerBackend (init, ctx.toCtx) chunks
        outsize).mapCtx (fun c => { ctx with toCtx := c }) := by
  simp only [session, runCalls_vc6AesCall, vc6AesCall_eq, Run.mapCtx, Session.mapCtx,
    CallResult.mapCtx]

end GpuCrypt
