import GpuCrypt.Model.Aes256Export
import GpuCrypt.Proofs.CipherStreams

/-!
# Updates of the exported provider

An update of the exported provider leaves the IV of the context alone, so the next one starts the
keystream again. Only a message that comes in one piece is encrypted as it should be.
-/

namespace GpuCrypt

open Keystream

variable {σ : Type}

/-- The library runs counter mode from the IV it is given, with the block functions `E`. -/
def Aes256Gpu.ComputesCtr (lib : Aes256Gpu σ)
    (E : Vector Byte 32 → Vector Byte 16 → Vector Byte 16) : Prop :=
  ∀ s input key iv, ∃ s', lib.encrypt s input key iv =
    (s', some (xorFrom (ofBlocks (ctrBlocks (E key) iv)) 0 input))

/-- The keystream bytes under `n` bytes of data from an IV on: each is a counter block and the
position of the byte in its encryption. -/
def keystreamBytes (iv : Vector Byte 16) (n : ℕ) : List (Vector Byte 16 × ℕ) :=
  (List.range n).map (fun i => (BigEndian.add iv (i / 16), i % 16))

def Aes256GpuCtx.logged (ctx : Aes256GpuCtx σ) :
    Aes256GpuCtx (σ × List (List Byte × Vector Byte 16)) :=
  { gpuCtx := (ctx.gpuCtx, [])
    key := ctx.key
    iv := ctx.iv
    keySet := ctx.keySet
    ivSet := ctx.ivSet }

def nonemptyCalls (calls : List (ℕ × Buffer)) : List (ℕ × Buffer) :=
  calls.filter (fun c => !c.2.bytes.isEmpty)

lemma flatMap_nonemptyCalls {α : Type} (f : List Byte → List α) (hf : f [] = [])
    (calls : List (ℕ × Buffer)) :
    calls.flatMap (fun c => f c.2.bytes) =
      (nonemptyCalls calls).flatMap (fun c => f c.2.bytes) := by
  induction calls with
  | nil => rfl
  | cons c calls ih =>
    rw [nonemptyCalls] at ih ⊢
    by_cases hc : c.2.bytes = []
    · rw [List.flatMap_cons, List.filter_cons_of_neg (by simp [hc]), ih, hc, hf, List.nil_append]
    · rw [List.flatMap_cons, List.filter_cons_of_pos (by simp [hc]), List.flatMap_cons, ih]

/-- A message of less than `2 ^ 64` bytes uses every keystream byte once. -/
lemma nodup_keystreamBytes (iv : Vector Byte 16) {n : ℕ} (hn : n < 2 ^ 64) :
    (keystreamBytes iv n).Nodup := by
  refine List.Nodup.map_on ?_ List.nodup_range
  intro i hi j hj heq
  rw [List.mem_range] at hi hj
  obtain ⟨hblock, hoff⟩ := Prod.mk.inj heq
  rw [BigEndian.add, BigEndian.add, BigEndian.ofNat_eq_iff] at hblock
  have hiv := BigEndian.toNat_lt iv
  have hdiv : i / 16 = j / 16 := by omega
  omega

/-- An update over a library that computes counter mode: the IV stays. -/
lemma aes256GpuUpdate_eq {lib : Aes256Gpu σ}
    {E : Vector Byte 32 → Vector Byte 16 → Vector Byte 16} (hlib : lib.ComputesCtr E)
    (ctx : Aes256GpuCtx σ) (hkey : ctx.keySet = true) (hiv : ctx.ivSet = true) {outsize : ℕ}
    {input : List Byte} (hroom : input.length ≤ outsize) :
    ∃ s', aes256GpuUpdate lib ctx outsize input =
      { ret := true
        outl := some input.length
        out := xorFrom (ofBlocks (ctrBlocks (E ctx.key) ctx.iv)) 0 input
        ctx := { ctx with gpuCtx := s' } } := by
  obtain ⟨s', hs'⟩ := hlib ctx.gpuCtx input ctx.key ctx.iv
  refine ⟨s', ?_⟩
  unfold aes256GpuUpdate
  rw [hkey, hiv, if_neg (by decide), if_neg (by omega), hs']

lemma Aes256Gpu.ComputesCtr.logged {lib : Aes256Gpu σ}
    {E : Vector Byte 32 → Vector Byte 16 → Vector Byte 16} (hlib : lib.ComputesCtr E) :
    lib.logged.ComputesCtr E := by
  intro s input key iv
  obtain ⟨s', hs'⟩ := hlib s.1 input key iv
  exact ⟨(s', s.2 ++ [(input, iv)]), by simp only [Aes256Gpu.logged, hs']⟩

/-- Every update of a run starts at the IV of the first. -/
lemma aes256GpuUpdates_eq {lib : Aes256Gpu σ}
    {E : Vector Byte 32 → Vector Byte 16 → Vector Byte 16} (hlib : lib.ComputesCtr E)
    (ctx : Aes256GpuCtx (σ × List (List Byte × Vector Byte 16))) (hkey : ctx.keySet = true)
    (hiv : ctx.ivSet = true) (calls : List (ℕ × Buffer))
    (hroom : ∀ c ∈ calls, c.2.bytes.length ≤ c.1) :
    let run := aes256GpuUpdates lib.logged ctx calls
    run.1 = calls.flatMap (fun c =>
        xorFrom (ofBlocks (ctrBlocks (E ctx.key) ctx.iv)) 0 c.2.bytes) ∧
      run.2.gpuCtx.2 = ctx.gpuCtx.2 ++ calls.map (fun c => (c.2.bytes, ctx.iv)) := by
  induction calls generalizing ctx with
  | nil => exact ⟨rfl, (List.append_nil _).symm⟩
  | cons c calls ih =>
    obtain ⟨s', hs'⟩ := hlib ctx.gpuCtx.1 c.2.bytes ctx.key ctx.iv
    have hupd : aes256GpuUpdate lib.logged ctx c.1 c.2.bytes =
        { ret := true
          outl := some c.2.bytes.length
          out := xorFrom (ofBlocks (ctrBlocks (E ctx.key) ctx.iv)) 0 c.2.bytes
          ctx := { ctx with gpuCtx := (s', ctx.gpuCtx.2 ++ [(c.2.bytes, ctx.iv)]) } } := by
      have hle := hroom c List.mem_cons_self
      unfold aes256GpuUpdate
      rw [hkey, hiv, if_neg (by decide), if_neg (by omega)]
      simp only [Aes256Gpu.logged, hs']
    obtain ⟨hout, hlog⟩ := ih { ctx with gpuCtx := (s', ctx.gpuCtx.2 ++ [(c.2.bytes, ctx.iv)]) }
      hkey hiv (fun d hd => hroom d (List.mem_cons_of_mem _ hd))
    simp only [aes256GpuUpdates, hupd, List.flatMap_cons, List.map_cons]
    exact ⟨by rw [hout], by rw [hlog, List.append_assoc, List.singleton_append]⟩

lemma gpuCtx_aes256GpuSetCtxParams (ctx : Aes256GpuCtx σ) (params : Option (List OsslParam)) :
    (aes256GpuSetCtxParams ctx params).2.gpuCtx = ctx.gpuCtx := by
  unfold aes256GpuSetCtxParams
  split
  · rfl
  · split
    · rfl
    · split <;> rfl

lemma aes256GpuEinit_eq (ctx : Aes256GpuCtx σ) (key : Vector Byte 32) (iv : Vector Byte 16)
    (params : Option (List OsslParam))
    (hinit : (aes256GpuEinit ctx (some key.toList) (some iv.toList) params).1 = true) :
    (aes256GpuEinit ctx (some key.toList) (some iv.toList) params).2 =
      { gpuCtx := ctx.gpuCtx, key := key, iv := iv, keySet := true, ivSet := true } := by
  have hkey : ¬key.toList.length ≠ 32 := by simp
  have hiv : ¬iv.toList.length ≠ 16 := by simp
  have hgpu := gpuCtx_aes256GpuSetCtxParams ctx params
  unfold aes256GpuEinit at hinit ⊢
  by_cases hparams : (aes256GpuSetCtxParams ctx params).1 = true
  · simp only [hparams, if_neg hkey, if_neg hiv, overlay_toList, hgpu, if_true]
  · simp only [hparams] at hinit
    exact absurd hinit hparams

/-- For a message cut into the updates `calls`: they write what one update with the whole message
writes, and use no keystream byte twice, exactly when at most one of them is not empty. -/
theorem aes256Gpu_stream_iff (lib : Aes256Gpu σ)
    (E : Vector Byte 32 → Vector Byte 16 → Vector Byte 16) (hlib : lib.ComputesCtr E)
    (ctx : Aes256GpuCtx σ) (key : Vector Byte 32) (iv : Vector Byte 16)
    (params : Option (List OsslParam))
    (hinit : (aes256GpuEinit ctx (some key.toList) (some iv.toList) params).1 = true)
    (calls : List (ℕ × Buffer)) (hroom : ∀ c ∈ calls, c.2.bytes.length ≤ c.1) :
    let start := (aes256GpuEinit ctx (some key.toList) (some iv.toList) params).2
    let message := calls.flatMap (fun c => c.2.bytes)
    let run := aes256GpuUpdates lib.logged start.logged calls
    (run.1 = (aes256GpuUpdate lib start message.length message).out ∧
        (run.2.gpuCtx.2.flatMap (fun job => keystreamBytes job.2 job.1.length)).Nodup) ↔
      (nonemptyCalls calls).length ≤ 1 := by
  intro start message run
  have hstart : start = _ := aes256GpuEinit_eq ctx key iv params hinit
  obtain ⟨hout, hlog⟩ := aes256GpuUpdates_eq hlib start.logged (by rw [hstart]; rfl)
    (by rw [hstart]; rfl) calls hroom
  obtain ⟨s', hwhole⟩ := aes256GpuUpdate_eq hlib start (by rw [hstart]) (by rw [hstart])
    (le_refl message.length)
  have huses : run.2.gpuCtx.2.flatMap (fun job => keystreamBytes job.2 job.1.length) =
      (nonemptyCalls calls).flatMap (fun c => keystreamBytes start.iv c.2.bytes.length) := by
    rw [show run.2.gpuCtx.2 = _ from hlog, ← flatMap_nonemptyCalls
      (fun d => keystreamBytes start.iv d.length) rfl]
    simp only [Aes256GpuCtx.logged, List.nil_append, List.flatMap_map]
  have hpieces : run.1 = (nonemptyCalls calls).flatMap (fun c =>
      xorFrom (ofBlocks (ctrBlocks (E start.key) start.iv)) 0 c.2.bytes) :=
    hout.trans (flatMap_nonemptyCalls
      (fun d => xorFrom (ofBlocks (ctrBlocks (E start.key) start.iv)) 0 d) rfl calls)
  have hmessage : message = (nonemptyCalls calls).flatMap (fun c => c.2.bytes) :=
    flatMap_nonemptyCalls (fun d => d) rfl calls
  rw [huses, hpieces, hwhole, hmessage]
  have hmem : ∀ c ∈ nonemptyCalls calls, c.2.bytes ≠ [] := by
    intro c hc
    simpa using (List.mem_filter.mp hc).2
  rcases hcalls : nonemptyCalls calls with _ | ⟨c, _ | ⟨d, rest⟩⟩
  · simp
  · simp only [List.flatMap_cons, List.flatMap_nil, List.append_nil, List.length_cons,
      List.length_nil, true_and]
    exact iff_of_true (nodup_keystreamBytes start.iv c.2.length_lt) le_rfl
  · -- two pieces that are not empty both start with the first keystream byte
    rw [hcalls] at hmem
    refine iff_of_false ?_ (by simp)
    rintro ⟨_, hnodup⟩
    have hfirst : ∀ e : ℕ × Buffer, e.2.bytes ≠ [] →
        (start.iv, 0) ∈ keystreamBytes start.iv e.2.bytes.length := by
      intro e he
      rw [keystreamBytes, List.mem_map]
      exact ⟨0, List.mem_range.mpr (List.length_pos_iff.mpr he), by simp⟩
    rw [List.flatMap_cons, List.flatMap_cons, List.nodup_append] at hnodup
    have hc := hfirst c (hmem c List.mem_cons_self)
    have hd := hfirst d (hmem d (List.mem_cons_of_mem _ List.mem_cons_self))
    exact hnodup.2.2 _ hc _ (List.mem_append_left _ hd) rfl

def Aes256Gpu.ideal (E : Vector Byte 32 → Vector Byte 16 → Vector Byte 16) : Aes256Gpu Unit where
  encrypt _ input key iv := ((), some (xorFrom (ofBlocks (ctrBlocks (E key) iv)) 0 input))

theorem aes256Gpu_stream_single :
    let calls : List (ℕ × Buffer) :=
      [(0, ⟨[], by decide⟩), (20, ⟨List.replicate 20 5, by decide⟩)]
    let start := (aes256GpuEinit (.zalloc ()) (some (Vector.replicate 32 7).toList)
      (some (Vector.replicate 16 0xAA).toList) none).2
    (aes256GpuUpdates (Aes256Gpu.ideal Fips197.aes256).logged start.logged calls).1 =
      (aes256GpuUpdate (Aes256Gpu.ideal Fips197.aes256) start 20 (List.replicate 20 5)).out :=
  ((aes256Gpu_stream_iff (Aes256Gpu.ideal Fips197.aes256) Fips197.aes256
    (fun _ _ _ _ => ⟨(), rfl⟩) (.zalloc ()) (Vector.replicate 32 7) (Vector.replicate 16 0xAA) none
    (by decide) [(0, ⟨[], by decide⟩), (20, ⟨List.replicate 20 5, by decide⟩)]
    (by decide)).mpr (by decide)).1

/-- Two updates of one byte each, the block function being the identity: the second byte is
encrypted with the first keystream byte again. -/
theorem aes256Gpu_stream_restarts :
    let E : Vector Byte 32 → Vector Byte 16 → Vector Byte 16 := fun _ counter => counter
    let calls : List (ℕ × Buffer) := [(1, ⟨[0x41], by decide⟩), (1, ⟨[0x42], by decide⟩)]
    let start := (aes256GpuEinit (.zalloc ()) (some (List.replicate 32 7))
      (some ((List.range 16).map (fun i => BitVec.ofNat 8 i))) none).2
    let run := aes256GpuUpdates (Aes256Gpu.ideal E).logged start.logged calls
    run.1 ≠ (aes256GpuUpdate (Aes256Gpu.ideal E) start 2 [0x41, 0x42]).out ∧
      ¬(run.2.gpuCtx.2.flatMap (fun job => keystreamBytes job.2 job.1.length)).Nodup := by
  decide +kernel

end GpuCrypt
