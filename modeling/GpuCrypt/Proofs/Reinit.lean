import Mathlib.Data.List.GetD
import GpuCrypt.Proofs.CipherStreams
import GpuCrypt.Proofs.StreamRefinement

/-!
# What an init leaves of the past

An init empties the buffer and copies as many bytes of key and IV as it is given, while every job
gets the whole arrays. Two contexts with the same init are the same from there on exactly if they
agree on the bytes that have not been copied over.
-/

namespace GpuCrypt

variable {σ γ δ : Type} {B : ℕ}

/-- What the caller and the backend see of a run. -/
def Run.observed (r : Run γ σ) : Run Unit σ := r.mapCtx (fun _ => ())

lemma Run.observed_mapCtx (f : γ → δ) (r : Run γ σ) : (r.mapCtx f).observed = r.observed := by
  simp only [Run.observed, Run.mapCtx, List.map_map]
  rfl

/-- The arrays have the same bytes from position `k` on. -/
def AgreeFrom {n : ℕ} (k : ℕ) (v w : Vector Byte n) : Prop :=
  ∀ i (hi : i < n), k ≤ i → v[i] = w[i]

lemma overlay_eq_iff {n : ℕ} (v w : Vector Byte n) (l : List Byte) :
    overlay v l = overlay w l ↔ AgreeFrom l.length v w := by
  have hget : ∀ (u : Vector Byte n) i (hi : i < n), (overlay u l)[i] = l.getD i u[i] :=
    fun u i hi => by simp [overlay]
  constructor
  · intro heq i hi hle
    have hat : (overlay v l)[i] = (overlay w l)[i] := by rw [heq]
    rwa [hget, hget, List.getD_eq_default _ _ hle, List.getD_eq_default _ _ hle] at hat
  · intro hagree
    apply Vector.ext
    intro i hi
    rw [hget, hget]
    by_cases hle : l.length ≤ i
    · rw [List.getD_eq_default _ _ hle, List.getD_eq_default _ _ hle, hagree i hi hle]
    · rw [List.getD_eq_getElem _ _ (by omega), List.getD_eq_getElem _ _ (by omega)]

/-- The first job of a context without pending bytes, for a block of zeros. -/
lemma streamCall_first_job [NeZero B] (alg : StreamAlg) {ctx : Ctx B} (hzero : ctx.partialLen = 0)
    (hB : (List.replicate B (0 : Byte)).length < 2 ^ 64) :
    ∃ s', (streamCall Backend.scripted.logged alg (some ([], [])) ctx
        (.update ⟨List.replicate B 0, hB⟩)).innerBackend = some s' ∧
      s'.2 = [ctx.blocksJob alg (List.replicate B 0)] := by
  have hpos : 0 < B := Nat.pos_of_neZero B
  have hlen : (List.replicate B (0 : Byte)).length = B := List.length_replicate
  have hupd := streamCipher_updates Backend.scripted.logged alg (some ([], [])) ctx
    (List.replicate B 0) hpos (by omega)
  simp only [streamCall]
  generalize streamCipher Backend.scripted.logged alg (some ([], [])) ctx (List.replicate B 0) = r
    at hupd
  cases hupd with
  | blocksFail _ s' _ _ hblocks => exact ⟨s', rfl, by rw [← (Prod.mk.inj hblocks).1]; rfl⟩
  | blocks _ s' out _ _ hblocks => exact ⟨s', rfl, by rw [← (Prod.mk.inj hblocks).1]; rfl⟩
  | buffered => omega
  | flushFails => omega
  | flushes => omega
  | flushesBlocksFail => omega
  | flushesBlocks => omega

/-- With nothing pending, only the key and the IV are left to tell two contexts apart, and both
do. -/
lemma observed_eq_iff [NeZero B] (hB : B < 2 ^ 64) (alg : StreamAlg) (ctx₁ ctx₂ : Ctx B)
    (hzero₁ : ctx₁.partialLen = 0) (hzero₂ : ctx₂.partialLen = 0) :
    (∀ (σ : Type) (be : Backend σ) (innerBackend : Option (σ × List Job))
        (calls : List StreamCall),
      (runCalls (streamCall be.logged alg) innerBackend ctx₁ calls).observed =
        (runCalls (streamCall be.logged alg) innerBackend ctx₂ calls).observed) ↔
      ctx₁.key = ctx₂.key ∧ ctx₁.iv = ctx₂.iv := by
  constructor
  · intro hsame
    have hlen : (List.replicate B (0 : Byte)).length < 2 ^ 64 := by rwa [List.length_replicate]
    obtain ⟨s₁, hs₁, hlog₁⟩ := streamCall_first_job alg hzero₁ hlen
    obtain ⟨s₂, hs₂, hlog₂⟩ := streamCall_first_job alg hzero₂ hlen
    have hback : some s₁ = some s₂ := by
      rw [← hs₁, ← hs₂]
      exact congrArg Run.innerBackend
        (hsame _ .scripted (some ([], [])) [.update ⟨List.replicate B 0, hlen⟩])
    have hjob : ctx₁.blocksJob alg (List.replicate B 0) =
        ctx₂.blocksJob alg (List.replicate B 0) := by
      rw [Option.some.inj hback, hlog₂] at hlog₁
      exact (List.cons.inj hlog₁).1.symm
    exact ⟨congrArg Job.key hjob, congrArg Job.iv hjob⟩
  · rintro ⟨hkey, hiv⟩ σ be innerBackend calls
    have hstream : ctx₁.stream = ctx₂.stream := by
      rw [Ctx.stream, Ctx.stream, hkey, hiv, ctx₁.pending_of_zero hzero₁,
        ctx₂.pending_of_zero hzero₂]
    rw [← Run.observed_mapCtx Ctx.stream, ← Run.observed_mapCtx Ctx.stream (runCalls _ _ ctx₂ _),
      runCalls_stream be.logged alg calls innerBackend (by omega),
      runCalls_stream be.logged alg calls innerBackend (by omega), hstream]

lemma vc6AesInit_of_success {ctx : Vc6AesCtx} {key iv : List Byte}
    (hinit : (vc6AesInit ctx (some key) (some iv)).1 = true) :
    (vc6AesInit ctx (some key) (some iv)).2 =
      { ctx with
        key := overlay ctx.key key
        iv := overlay ctx.iv iv
        setKey := true
        setIv := true
        partialLen := 0
        keyLen := key.length } := by
  unfold vc6AesInit at hinit ⊢
  by_cases hkey : key.length ≠ 16 ∧ key.length ≠ 32
  · simp [hkey] at hinit
  · simp only [if_neg hkey]

lemma vc6Chacha20Init_of_success {ctx : Vc6ChachaCtx} {key iv : List Byte}
    (hinit : (vc6Chacha20Init ctx (some key) (some iv)).1 = true) (hiv : iv.length ≤ 16) :
    key.length = 32 ∧ (vc6Chacha20Init ctx (some key) (some iv)).2 =
      { ctx with
        key := overlay ctx.key key
        iv := overlay ctx.iv iv
        setKey := true
        setIv := true
        partialLen := 0 } := by
  unfold vc6Chacha20Init at hinit ⊢
  by_cases hkey : key.length ≠ 32
  · simp [hkey] at hinit
  · simp only [if_neg hkey, List.take_of_length_le hiv]
    exact ⟨by omega, trivial⟩

/-- Two contexts after the same init, in a run of any calls: for AES the outputs and the jobs are
the same exactly if the contexts agreed on the bytes of key and IV that the init has not written,
for ChaCha20, whose init writes the whole key, exactly if they agreed on such bytes of the IV. -/
theorem vc6_reinit_iff (key iv : List Byte) (hiv : iv.length ≤ 16) :
    (∀ ctx₁ ctx₂ : Vc6AesCtx,
      let start₁ := vc6AesInit ctx₁ (some key) (some iv)
      let start₂ := vc6AesInit ctx₂ (some key) (some iv)
      start₁.1 = true → start₂.1 = true →
        ((∀ (σ : Type) (be : Backend σ) (innerBackend : Option (σ × List Job))
            (calls : List StreamCall),
          (runCalls (vc6AesCall be.logged) innerBackend start₁.2 calls).observed =
            (runCalls (vc6AesCall be.logged) innerBackend start₂.2 calls).observed) ↔
          AgreeFrom key.length ctx₁.key ctx₂.key ∧ AgreeFrom iv.length ctx₁.iv ctx₂.iv)) ∧
    (∀ ctx₁ ctx₂ : Vc6ChachaCtx,
      let start₁ := vc6Chacha20Init ctx₁ (some key) (some iv)
      let start₂ := vc6Chacha20Init ctx₂ (some key) (some iv)
      start₁.1 = true → start₂.1 = true →
        ((∀ (σ : Type) (be : Backend σ) (innerBackend : Option (σ × List Job))
            (calls : List StreamCall),
          (runCalls (vc6Chacha20Call be.logged) innerBackend start₁.2 calls).observed =
            (runCalls (vc6Chacha20Call be.logged) innerBackend start₂.2 calls).observed) ↔
          AgreeFrom iv.length ctx₁.iv ctx₂.iv)) := by
  constructor
  · intro ctx₁ ctx₂ start₁ start₂ hinit₁ hinit₂
    simp only [start₁, start₂, vc6AesInit_of_success hinit₁, vc6AesInit_of_success hinit₂,
      runCalls_vc6AesCall, Run.observed_mapCtx]
    rw [observed_eq_iff (by norm_num) (vc6AesAlg key.length) _ _ rfl rfl, overlay_eq_iff,
      overlay_eq_iff]
  · intro ctx₁ ctx₂ start₁ start₂ hinit₁ hinit₂
    obtain ⟨hkey, hstart₁⟩ := vc6Chacha20Init_of_success hinit₁ hiv
    have hkeys : overlay ctx₁.key key = overlay ctx₂.key key :=
      (overlay_eq_iff _ _ _).mpr (fun i hi hlen => by omega)
    simp only [start₁, start₂, hstart₁, (vc6Chacha20Init_of_success hinit₂ hiv).2,
      vc6Chacha20Call_eq]
    rw [observed_eq_iff (by norm_num) vc6Chacha20Alg _ _ rfl rfl, overlay_eq_iff ctx₁.iv]
    exact and_iff_right hkeys

/-- A context of AES-256 with a history: a block and a byte have been encrypted. -/
def Vc6AesCtx.used : Vc6AesCtx :=
  (vc6AesCall .scripted (some [true])
    (vc6AesInit .zalloc (some (List.replicate 32 1)) (some (List.replicate 16 2))).2
    (.update ⟨List.replicate 17 3, by decide⟩)).ctx

/-- A whole key and a whole IV. -/
theorem vc6_reinit_whole :
    let start := fun ctx => (vc6AesInit ctx (some (List.replicate 32 7))
      (some (List.replicate 16 8))).2
    let calls : List StreamCall := [.update ⟨List.replicate 20 5, by decide⟩, .final 16]
    (runCalls (vc6AesCall Backend.scripted.logged) (some ([true, true], []))
        (start .zalloc) calls).observed =
      (runCalls (vc6AesCall Backend.scripted.logged) (some ([true, true], []))
        (start .used) calls).observed :=
  ((vc6_reinit_iff (List.replicate 32 7) (List.replicate 16 8) (by decide)).1 .zalloc .used
    (by decide) (by decide)).mpr ⟨fun i hi hle => absurd hle (by simp; omega),
      fun i hi hle => absurd hle (by simp; omega)⟩ _ .scripted _ _

/-- After a 16-byte key, or after an IV of 12 bytes, the next job of the used context is another one
than that of a fresh context. -/
theorem vc6_reinit_keeps :
    Vc6AesCtx.used.Reachable ∧
      (let start := fun ctx => (vc6AesInit ctx (some (List.replicate 16 7))
        (some (List.replicate 16 8))).2;
        ∃ calls, (runCalls (vc6AesCall Backend.scripted.logged) (some ([true], []))
            (start .zalloc) calls).observed ≠
          (runCalls (vc6AesCall Backend.scripted.logged) (some ([true], []))
            (start .used) calls).observed) ∧
      (let start := fun ctx => (vc6AesInit ctx (some (List.replicate 32 7))
        (some (List.replicate 12 8))).2;
        ∃ calls, (runCalls (vc6AesCall Backend.scripted.logged) (some ([true], []))
            (start .zalloc) calls).observed ≠
          (runCalls (vc6AesCall Backend.scripted.logged) (some ([true], []))
            (start .used) calls).observed) := by
  refine ⟨.call _ _ _ _ (.init _ _ _ (by decide) .newctx), ?_, ?_⟩
  · exact ⟨[.update ⟨List.replicate 16 0, by decide⟩],
      fun h => absurd (congrArg Run.innerBackend h) (by decide)⟩
  · exact ⟨[.update ⟨List.replicate 16 0, by decide⟩],
      fun h => absurd (congrArg Run.innerBackend h) (by decide)⟩

end GpuCrypt
