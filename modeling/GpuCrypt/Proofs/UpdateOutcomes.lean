import GpuCrypt.Model.Session
import GpuCrypt.Proofs.Buffering

/-!
# The outcomes of an update

`Updates` lists the ways an update over an arbitrary backend can go, with the jobs it submits and
the context it leaves. The results about failing backends, about output sizes and about buffered
bytes are case analyses over it.
-/

namespace GpuCrypt

open BlockBuffer

variable {σ : Type} {B : ℕ}

def Ctx.rest (ctx : Ctx B) (input : List Byte) : List Byte := input.drop (B - ctx.partialLen)

lemma Ctx.length_rest (ctx : Ctx B) (input : List Byte) :
    (ctx.rest input).length = input.length - (B - ctx.partialLen) :=
  List.length_drop

def Ctx.advanced (alg : StreamAlg) (ctx : Ctx B) (input : List Byte) : Ctx B :=
  { ctx with iv := alg.advance ctx.iv (input.length / B) }

def tail (B : ℕ) (input : List Byte) : List Byte := input.drop (whole B input.length)

lemma length_tail (B : ℕ) (input : List Byte) : (tail B input).length = input.length % B := by
  have h := whole_add_mod B input.length
  rw [tail, List.length_drop]
  omega

/-- The ways an update can go. -/
inductive Updates (be : Backend σ) (alg : StreamAlg) (ctx : Ctx B) (input : List Byte) :
    Option σ → CallResult (Ctx B) σ → Prop
  | noBackend : Updates be alg ctx input none
      { ret := false, outl := none, out := [], ctx := ctx, innerBackend := none }
  | buffered (s : σ) (hshort : ctx.partialLen + input.length < B) :
      Updates be alg ctx input (some s)
        { ret := true, outl := some 0, out := [], ctx := ctx.bufferRest input,
          innerBackend := some s }
  | flushFails (s s' : σ) (hpos : 0 < ctx.partialLen)
      (hfull : B ≤ ctx.partialLen + input.length)
      (hflush : be.submit s (ctx.flushJob alg input) = (s', none)) :
      Updates be alg ctx input (some s)
        { ret := false, outl := some 0, out := [], ctx := ctx.topped input,
          innerBackend := some s' }
  | flushes (s s' : σ) (out : List Byte) (hpos : 0 < ctx.partialLen)
      (hfull : B ≤ ctx.partialLen + input.length)
      (hflush : be.submit s (ctx.flushJob alg input) = (s', some out))
      (hshort : (ctx.rest input).length < B) :
      Updates be alg ctx input (some s)
        { ret := true, outl := some B, out := out,
          ctx := (ctx.flushed alg input).bufferRest (ctx.rest input), innerBackend := some s' }
  | blocksFail (s s' : σ) (hzero : ctx.partialLen = 0) (hfull : B ≤ input.length)
      (hblocks : be.submit s (ctx.blocksJob alg input) = (s', none)) :
      Updates be alg ctx input (some s)
        { ret := false, outl := some 0, out := [], ctx := ctx, innerBackend := some s' }
  | blocks (s s' : σ) (out : List Byte) (hzero : ctx.partialLen = 0) (hfull : B ≤ input.length)
      (hblocks : be.submit s (ctx.blocksJob alg input) = (s', some out)) :
      Updates be alg ctx input (some s)
        { ret := true, outl := some (whole B input.length), out := out,
          ctx := (ctx.advanced alg input).bufferRest (tail B input), innerBackend := some s' }
  | flushesBlocksFail (s s' s'' : σ) (out : List Byte) (hpos : 0 < ctx.partialLen)
      (hfull : B ≤ (ctx.rest input).length)
      (hflush : be.submit s (ctx.flushJob alg input) = (s', some out))
      (hblocks : be.submit s' ((ctx.flushed alg input).blocksJob alg (ctx.rest input)) =
        (s'', none)) :
      Updates be alg ctx input (some s)
        { ret := false, outl := some 0, out := out, ctx := ctx.flushed alg input,
          innerBackend := some s'' }
  | flushesBlocks (s s' s'' : σ) (out out' : List Byte) (hpos : 0 < ctx.partialLen)
      (hfull : B ≤ (ctx.rest input).length)
      (hflush : be.submit s (ctx.flushJob alg input) = (s', some out))
      (hblocks : be.submit s' ((ctx.flushed alg input).blocksJob alg (ctx.rest input)) =
        (s'', some out')) :
      Updates be alg ctx input (some s)
        { ret := true, outl := some (B + whole B (ctx.rest input).length), out := out ++ out',
          ctx := ((ctx.flushed alg input).advanced alg (ctx.rest input)).bufferRest
            (tail B (ctx.rest input)),
          innerBackend := some s'' }

theorem streamCipher_updates (be : Backend σ) (alg : StreamAlg) (innerBackend : Option σ)
    (ctx : Ctx B) (input : List Byte) (hB : 0 < B) (hlen : ctx.partialLen ≤ B) :
    Updates be alg ctx input innerBackend (streamCipher be alg innerBackend ctx input) := by
  cases innerBackend with
  | none => exact .noBackend
  | some s =>
    rcases flushPartial_cases be alg (.start s ctx input) hlen with
      ⟨hzero, hflush⟩ | ⟨hpos, hshort, hflush⟩ | ⟨hpos, hfull, s', hsub, hflush⟩ |
        ⟨hpos, hfull, s', out, hsub, hflush⟩
    · -- no partial block
      rcases fullBlocks_cases be alg (.start s ctx input) hB with
        ⟨hshort, hblocks⟩ | ⟨hle, s', hsub, hblocks⟩ | ⟨hle, s', out, hsub, hblocks⟩
      · rw [streamCipher_of_ok hflush hblocks]
        have hzero' : ctx.partialLen = 0 := hzero
        exact .buffered s (by rw [hzero', Nat.zero_add]; exact hshort)
      · rw [streamCipher_of_ok_error hflush hblocks]
        exact .blocksFail s s' hzero hle hsub
      · rw [streamCipher_of_ok hflush hblocks]
        simp only [Progress.start, List.nil_append, Nat.zero_add]
        exact .blocks s s' out hzero hle hsub
    · -- the partial block stays partial
      rw [streamCipher_of_ok hflush (if_neg (by simpa using hB.ne'))]
      exact .buffered s hshort
    · rw [streamCipher_of_error hflush]
      exact .flushFails s s' hpos hfull hsub
    · -- the partial block has been flushed, and `q` is where phase 2 starts
      generalize hq : Progress.mk (B := B) s' _ _ _ _ = q at hflush
      have hctx : q.ctx = ctx.flushed alg input := by rw [← hq]; rfl
      have hinput : q.input = ctx.rest input := by rw [← hq]; rfl
      have hback : q.backend = s' := by rw [← hq]
      have hout : q.out = out := by rw [← hq]; rfl
      have htotal : q.totalWritten = B := by rw [← hq]; exact Nat.zero_add B
      rcases fullBlocks_cases be alg q hB with
        ⟨hshort, hblocks⟩ | ⟨hle, s'', hsub', hblocks⟩ | ⟨hle, s'', out', hsub', hblocks⟩
      · rw [streamCipher_of_ok hflush hblocks, hctx, hinput, hback, hout, htotal]
        rw [hinput] at hshort
        exact .flushes s s' out hpos hfull hsub hshort
      · rw [streamCipher_of_ok_error hflush hblocks]
        simp only [hctx, hout]
        rw [hinput] at hle
        rw [hback, hctx, hinput] at hsub'
        exact .flushesBlocksFail s s' s'' out hpos hle hsub hsub'
      · rw [streamCipher_of_ok hflush hblocks]
        simp only [hctx, hinput, hout, htotal]
        rw [hinput] at hle
        rw [hback, hctx, hinput] at hsub'
        exact .flushesBlocks s s' s'' out out' hpos hle hsub hsub'

/-! ### The buffered bytes stay within the block -/

lemma Ctx.partialLen_flushed (alg : StreamAlg) (ctx : Ctx B) (input : List Byte) :
    (ctx.flushed alg input).partialLen = 0 := rfl

/-- An update leaves at most a block pending, and less than that if it returns 1. -/
lemma Updates.partialLen_le {be : Backend σ} {alg : StreamAlg} {ctx : Ctx B} {input : List Byte}
    {innerBackend : Option σ} {r : CallResult (Ctx B) σ}
    (h : Updates be alg ctx input innerBackend r) (hB : 0 < B) (hlen : ctx.partialLen ≤ B) :
    r.ctx.partialLen ≤ B ∧ (r.ret = true → r.ctx.partialLen < B) := by
  have hmod := fun l : List Byte => Nat.mod_lt l.length hB
  cases h with
  | noBackend => exact ⟨hlen, by simp⟩
  | buffered s hshort => simp only [Ctx.bufferRest_partialLen]; omega
  | flushFails s s' hpos hfull _ => simp [ctx.partialLen_topped input hlen hfull]
  | flushes s s' out hpos hfull _ hshort =>
    simp only [Ctx.bufferRest_partialLen, Ctx.partialLen_flushed]
    omega
  | blocksFail s s' hzero _ _ => exact ⟨hlen, by simp⟩
  | blocks s s' out hzero _ _ =>
    have hrest := hmod input
    simp only [Ctx.bufferRest_partialLen, Ctx.advanced, length_tail]
    omega
  | flushesBlocksFail s s' s'' out _ _ _ _ => simp [Ctx.partialLen_flushed]
  | flushesBlocks s s' s'' out out' _ _ _ _ =>
    have hrest := hmod (ctx.rest input)
    simp only [Ctx.bufferRest_partialLen, Ctx.advanced, length_tail, Ctx.partialLen_flushed]
    omega

lemma partialLen_streamFinal (be : Backend σ) (alg : StreamAlg) (innerBackend : Option σ)
    (ctx : Ctx B) (outsize : ℕ) :
    (streamFinal be alg innerBackend ctx outsize).ctx.partialLen = ctx.partialLen := by
  rcases streamFinal_cases be alg innerBackend ctx outsize with
    ⟨_, h⟩ | ⟨_, _, h⟩ | ⟨_, _, _, _, _, h⟩ | ⟨_, _, _, _, _, _, _, h⟩ | ⟨_, _, _, _, _, _, _, h⟩
  all_goals simp only [h, Ctx.zeroPad, Ctx.encrypted]

lemma streamCall_partialLen_le [NeZero B] (be : Backend σ) (alg : StreamAlg)
    (innerBackend : Option σ) (ctx : Ctx B) (c : StreamCall) (hlen : ctx.partialLen ≤ B) :
    (streamCall be alg innerBackend ctx c).ctx.partialLen ≤ B := by
  have hB : 0 < B := Nat.pos_of_neZero B
  cases c with
  | update input =>
    exact ((streamCipher_updates be alg innerBackend ctx input.bytes hB hlen).partialLen_le
      hB hlen).1
  | final outsize => exact (partialLen_streamFinal be alg innerBackend ctx outsize).trans_le hlen

lemma vc6AesInit_partialLen_le (ctx : Vc6AesCtx) (key iv : Option (List Byte)) :
    (vc6AesInit ctx key iv).2.partialLen ≤ ctx.partialLen := by
  unfold vc6AesInit
  cases key with
  | none => exact Nat.zero_le _
  | some key =>
    by_cases hkey : key.length ≠ 16 ∧ key.length ≠ 32
    · simp only [if_pos hkey, le_refl]
    · simp only [if_neg hkey, Nat.zero_le]

lemma vc6Chacha20Init_partialLen_le (ctx : Vc6ChachaCtx) (key iv : Option (List Byte)) :
    (vc6Chacha20Init ctx key iv).2.partialLen ≤ ctx.partialLen := by
  unfold vc6Chacha20Init
  cases key with
  | none => exact Nat.zero_le _
  | some key =>
    by_cases hkey : key.length ≠ 32
    · simp only [if_pos hkey, le_refl]
    · simp only [if_neg hkey, Nat.zero_le]

lemma Vc6AesCtx.Reachable.partialLen_le {ctx : Vc6AesCtx} (h : ctx.Reachable) :
    ctx.partialLen ≤ 16 := by
  induction h with
  | newctx => exact Nat.zero_le _
  | init ctx key iv _ _ ih =>
    exact (vc6AesInit_partialLen_le ctx key iv).trans ih
  | call be innerBackend ctx c _ ih =>
    rw [vc6AesCall_eq]
    exact streamCall_partialLen_le be _ innerBackend ctx.toCtx c ih

lemma Vc6ChachaReachable.partialLen_le {ctx : Vc6ChachaCtx} (h : Vc6ChachaReachable ctx) :
    ctx.partialLen ≤ 64 := by
  induction h with
  | newctx => exact Nat.zero_le _
  | init ctx key iv _ ih =>
    exact (vc6Chacha20Init_partialLen_le ctx key iv).trans ih
  | call be innerBackend ctx c _ ih =>
    rw [vc6Chacha20Call_eq]
    exact streamCall_partialLen_le be _ innerBackend ctx c ih

/-! ### The jobs of a call -/

/-- The jobs `entries`, each with its outcome, take the backend from `s` to `s'`. -/
inductive Backend.Runs (be : Backend σ) : σ → List (Job × Option (List Byte)) → σ → Prop
  | nil (s : σ) : Runs be s [] s
  | cons {s s' s'' : σ} {job : Job} {result : Option (List Byte)}
      {entries : List (Job × Option (List Byte))} (hsub : be.submit s job = (s', result))
      (h : Runs be s' entries s'') : Runs be s ((job, result) :: entries) s''

namespace Backend.Runs

variable {be : Backend σ} {entries later : List (Job × Option (List Byte))}

lemma single {s s' : σ} {job : Job} {result : Option (List Byte)}
    (hsub : be.submit s job = (s', result)) : be.Runs s [(job, result)] s' :=
  .cons hsub (.nil s')

lemma append {s s' s'' : σ} (h : be.Runs s entries s') (h' : be.Runs s' later s'') :
    be.Runs s (entries ++ later) s'' := by
  induction h with
  | nil => exact h'
  | cons hsub _ ih => exact .cons hsub (ih h')

lemma logged {s s' : σ × List Job} (h : be.logged.Runs s entries s') :
    s'.2 = s.2 ++ entries.map Prod.fst := by
  induction h with
  | nil => simp
  | cons hsub _ ih =>
    obtain ⟨rfl, rfl⟩ := Prod.mk.inj hsub
    rw [ih, List.map_cons, List.append_assoc, List.singleton_append]

lemma recorded {s s' : σ × List (Job × Bool)} (h : be.recorded.Runs s entries s') :
    s'.2 = s.2 ++ entries.map (fun e => (e.1, e.2.isSome)) := by
  induction h with
  | nil => simp
  | cons hsub _ ih => rw [ih, recorded_submit hsub, List.map_cons, List.append_assoc,
      List.singleton_append]

end Backend.Runs

/-- What a call over a running backend does to it, whatever the call returns: it submits jobs with
the `alg_id` of its cipher, and if it submits none it returns 1 without output. -/
structure CallResult.Submits {γ : Type} (r : CallResult γ σ) (be : Backend σ) (alg : StreamAlg)
    (s s' : σ) (entries : List (Job × Option (List Byte))) : Prop where
  backend : r.innerBackend = some s'
  runs : be.Runs s entries s'
  algId : ∀ e ∈ entries, e.1.algId = alg.algId
  idle : entries = [] → r.ret = true ∧ r.out = []

lemma Updates.submits {be : Backend σ} {alg : StreamAlg} {ctx : Ctx B} {input : List Byte} {s : σ}
    {r : CallResult (Ctx B) σ} (h : Updates be alg ctx input (some s) r) :
    ∃ s' entries, r.Submits be alg s s' entries ∧
      ((∀ e ∈ entries, e.2.isSome = true) → r.ret = true) := by
  cases h with
  | buffered => exact ⟨s, [], ⟨rfl, .nil s, by simp, fun _ => ⟨rfl, rfl⟩⟩, fun _ => rfl⟩
  | flushFails _ s' _ _ hflush =>
    exact ⟨s', _, ⟨rfl, .single hflush, by simp [Ctx.flushJob, Ctx.job], by simp⟩, by simp⟩
  | flushes _ s' out _ _ hflush _ =>
    exact ⟨s', _, ⟨rfl, .single hflush, by simp [Ctx.flushJob, Ctx.job], by simp⟩, fun _ => rfl⟩
  | blocksFail _ s' _ _ hblocks =>
    exact ⟨s', _, ⟨rfl, .single hblocks, by simp [Ctx.blocksJob, Ctx.job], by simp⟩, by simp⟩
  | blocks _ s' out _ _ hblocks =>
    exact ⟨s', _, ⟨rfl, .single hblocks, by simp [Ctx.blocksJob, Ctx.job], by simp⟩, fun _ => rfl⟩
  | flushesBlocksFail _ s' s'' out _ _ hflush hblocks =>
    exact ⟨s'', _, ⟨rfl, .cons hflush (.single hblocks),
      by simp [Ctx.flushJob, Ctx.blocksJob, Ctx.job], by simp⟩, by simp⟩
  | flushesBlocks _ s' s'' out out' _ _ hflush hblocks =>
    exact ⟨s'', _, ⟨rfl, .cons hflush (.single hblocks),
      by simp [Ctx.flushJob, Ctx.blocksJob, Ctx.job], by simp⟩, fun _ => rfl⟩

/-- A final submits a job if anything is pending. If that is served, the final returns 1 exactly if
it has room for what is pending. -/
lemma streamFinal_submits (be : Backend σ) (alg : StreamAlg) (s : σ) (ctx : Ctx B)
    (hlen : ctx.partialLen ≤ B) (outsize : ℕ) :
    let r := streamFinal be alg (some s) ctx outsize
    ∃ s' entries, r.Submits be alg s s' entries ∧
      ((∀ e ∈ entries, e.2.isSome = true) → (r.ret = true ↔ ctx.partialLen ≤ outsize) ∧
        (r.ret = true → r.out.length = ctx.partialLen)) := by
  intro r
  rcases streamFinal_cases be alg (some s) ctx outsize with
    ⟨hzero, h⟩ | ⟨_, hnone, _⟩ | ⟨_, s₁, s', hs, hsub, h⟩ | ⟨_, s₁, s', enc, hs, hsub, hsmall, h⟩ |
      ⟨_, s₁, s', enc, hs, hsub, hroom, h⟩
  · simp only [r, h]
    exact ⟨s, [], ⟨rfl, .nil s, by simp, fun _ => ⟨rfl, rfl⟩⟩,
      fun _ => ⟨by simp [hzero], fun _ => hzero.symm⟩⟩
  · simp at hnone
  all_goals
    obtain rfl := Option.some.inj hs
    simp only [r, h]
    refine ⟨s', _, ⟨rfl, .single hsub, by simp [Ctx.job], by simp⟩, fun hall => ?_⟩
  · simp at hall
  · exact ⟨by simp [hsmall], fun hret => by simp at hret⟩
  · have henc := (be.length_out _ _ _ _ hsub).trans ctx.length_padded
    exact ⟨by simp [hroom], fun _ => by rw [List.length_take, henc, Nat.min_eq_left hlen]⟩

/-- A call whose jobs are all served returns 1, unless it is a final without room for a block. -/
lemma streamCall_submits [NeZero B] (be : Backend σ) (alg : StreamAlg) (s : σ) {ctx : Ctx B}
    (hlen : ctx.partialLen ≤ B) (c : StreamCall) :
    let r := streamCall be alg (some s) ctx c
    ∃ s' entries, r.Submits be alg s s' entries ∧
      ((∀ e ∈ entries, e.2.isSome = true) → (∀ outsize, c = .final outsize → B ≤ outsize) →
        r.ret = true) := by
  cases c with
  | update input =>
    obtain ⟨s', entries, hsubmits, hret⟩ := (streamCipher_updates be alg (some s) ctx input.bytes
      (Nat.pos_of_neZero B) hlen).submits
    exact ⟨s', entries, hsubmits, fun hall _ => hret hall⟩
  | final outsize =>
    obtain ⟨s', entries, hsubmits, hret⟩ := streamFinal_submits be alg s ctx hlen outsize
    exact ⟨s', entries, hsubmits, fun hall hroom => (hret hall).1.mpr (hlen.trans (hroom _ rfl))⟩

/-- The jobs of a run are those of its calls, and with all of them served every call returns 1 but
the finals without room. -/
lemma runCalls_submits [NeZero B] (be : Backend σ) (alg : StreamAlg) (calls : List StreamCall)
    (s : σ) {ctx : Ctx B} (hlen : ctx.partialLen ≤ B) :
    let run := runCalls (streamCall be alg) (some s) ctx calls
    run.ctx.partialLen ≤ B ∧
      ∃ s' entries, run.innerBackend = some s' ∧ be.Runs s entries s' ∧
        (∀ e ∈ entries, e.1.algId = alg.algId) ∧ (entries = [] → run.output = []) ∧
        ((∀ e ∈ entries, e.2.isSome = true) → ∀ (i : ℕ) (c : StreamCall), calls[i]? = some c →
          (∀ outsize, c = .final outsize → B ≤ outsize) →
            ∀ r ∈ run.results[i]?, r.ret = true) := by
  induction calls generalizing s ctx with
  | nil => exact ⟨hlen, s, [], rfl, .nil s, by simp, fun _ => rfl, fun _ i c hc => by simp at hc⟩
  | cons c calls ih =>
    obtain ⟨s', entries, hfirst, hret⟩ := streamCall_submits be alg s hlen c
    obtain ⟨hend, s'', later, hs'', hruns, halg, hout, hrets⟩ :=
      ih s' (streamCall_partialLen_le be alg (some s) ctx c hlen)
    simp only [runCalls, hfirst.backend, Run.output, List.flatMap_cons]
    refine ⟨hend, s'', entries ++ later, hs'', hfirst.runs.append hruns, ?_, ?_, ?_⟩
    · intro e he
      exact (List.mem_append.mp he).elim (hfirst.algId e) (halg e)
    · intro hnil
      obtain ⟨hnil, hnil'⟩ := List.append_eq_nil_iff.mp hnil
      rw [(hfirst.idle hnil).2, List.nil_append]
      exact hout hnil'
    · rintro hall (_ | i) d hd hroom r hr
      · obtain rfl := Option.some.inj hd
        obtain rfl := Option.some.inj hr
        exact hret (fun e he => hall e (List.mem_append_left later he)) hroom
      · exact hrets (fun e he => hall e (List.mem_append_right entries he)) i d hd hroom r hr

end GpuCrypt
