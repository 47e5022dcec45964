import GpuCrypt.Lib.Isolation
import GpuCrypt.Proofs.Lifecycle
import GpuCrypt.Proofs.StatelessBackend

/-!
# The exported provider as its callers see it

To its callers a context is a key and an IV, each of which may be missing. That is all a process has
to be described by: neither the Vulkan objects, nor what the rings of a context still hold, nor the
other contexts show in what its requests return.
-/

namespace GpuCrypt

open Handles

/-! ### Contexts of key and IV -/

structure CipherContext where
  key : Option (Vector Byte 32)
  iv : Option (Vector Byte 16)

namespace CipherContext

def empty : CipherContext := { key := none, iv := none }

/-- A change of the context, which may be rejected. -/
abbrev Setting := CipherContext → Option CipherContext

/-- Settings one after the other, up to the first that is rejected. -/
def settings : List Setting → CipherContext → Bool × CipherContext
  | [], c => (true, c)
  | set :: sets, c =>
    match set c with
    | none => (false, c)
    | some c' => settings sets c'

def setKey (bytes : List Byte) : Setting := fun c =>
  if h : bytes.length = 32 then some { c with key := some ⟨bytes.toArray, h⟩ } else none

def setIv (bytes : List Byte) : Setting := fun c =>
  if h : bytes.length = 16 then some { c with iv := some ⟨bytes.toArray, h⟩ } else none

/-- A parameter may be shorter than an IV. It replaces the first bytes, of zeros if there is no IV.
-/
def setIvParam (p : OsslParam) : Setting := fun c =>
  if p.dataType = .octetString ∧ p.data.length ≤ 16 then
    some { c with iv := some (overlay (c.iv.getD (Vector.replicate 16 0)) p.data) }
  else none

def setParams (params : Option (List OsslParam)) : List Setting :=
  (ivParam params).toList.map setIvParam

def init (key iv : Option (List Byte)) (params : Option (List OsslParam)) : List Setting :=
  setParams params ++ key.toList.map setKey ++ iv.toList.map setIv

/-- What an update returns: the input under AES-256 of the IV and its successors, as far as the
output has room and the queue takes the job. The successors are counted in the low 64 bits, and
nothing is carried from there. -/
def update (c : CipherContext) (queueSubmit : Bool) (outsize : ℕ) (input : List Byte) :
    Aes256Reply :=
  match c.key, c.iv with
  | some key, some iv =>
    if input.length ≤ outsize ∧ queueSubmit then
      match Algorithm.aes256Ctr.output input key iv with
      | none => .code false
      | some out => { ret := true, outl := some input.length, out := out }
    else .code false
  | _, _ => .code false

def call (queueSubmit : Bool) (c : CipherContext) : Aes256GpuCall → CipherContext × Aes256Reply
  | .einit key iv params => ((settings (init key iv params) c).2,
      .code (settings (init key iv params) c).1)
  | .dinit key iv params => ((settings (init key iv params) c).2,
      .code (settings (init key iv params) c).1)
  | .setCtxParams params => ((settings (setParams params) c).2,
      .code (settings (setParams params) c).1)
  | .update outsize input => (c, c.update queueSubmit outsize input.bytes)
  | .final => (c, { ret := true, outl := some 0, out := [] })

end CipherContext

/-- A request, with what matters of the results of the Vulkan calls: whether the setup is complete,
and whether the queue takes the job. -/
inductive CipherRequest where
  | newctx (complete : Bool)
  | freectx (n : ℕ)
  | call (n : ℕ) (queueSubmit : Bool) (c : Aes256GpuCall)

def cipherStep (contexts : List CipherContext) :
    CipherRequest → List CipherContext × Option Aes256Reply
  | .newctx complete =>
    (if complete then .empty :: contexts else contexts, some (.code complete))
  | .freectx n => (contexts.eraseIdx n, none)
  | .call n queueSubmit c =>
    (contexts.modify n (fun ctx => (ctx.call queueSubmit c).1),
      contexts[n]?.map (fun ctx => (ctx.call queueSubmit c).2))

/-! ### What a context stands for -/

variable {σ : Type}

/-- A key or an IV that is not set does not count. -/
def Aes256GpuCtx.abstract (ctx : Aes256GpuCtx σ) : CipherContext where
  key := if ctx.keySet then some ctx.key else none
  iv := if ctx.ivSet then some ctx.iv else none

/-- An IV that has not been set is zero. -/
def Aes256GpuCtx.Blank (ctx : Aes256GpuCtx σ) : Prop :=
  ctx.ivSet = false → ctx.iv = Vector.replicate 16 0

/-- A part of an init does on a context what some settings do on what it stands for. -/
def Mirrors (real : Aes256GpuCtx σ → Bool × Aes256GpuCtx σ) (sets : List CipherContext.Setting) :
    Prop :=
  ∀ ctx, ctx.Blank → (real ctx).2.Blank ∧
    CipherContext.settings sets ctx.abstract = ((real ctx).1, (real ctx).2.abstract)

lemma CipherContext.settings_append (xs ys : List CipherContext.Setting) (c : CipherContext) :
    settings (xs ++ ys) c =
      if (settings xs c).1 then settings ys (settings xs c).2 else settings xs c := by
  induction xs generalizing c with
  | nil => rfl
  | cons set xs ih =>
    rw [List.cons_append, settings, settings]
    cases set c with
    | none => rfl
    | some c' => exact ih c'

lemma Mirrors.thenStep {first second : Aes256GpuCtx σ → Bool × Aes256GpuCtx σ}
    {xs ys : List CipherContext.Setting} (hfirst : Mirrors first xs) (hsecond : Mirrors second ys) :
    Mirrors (thenStep first second) (xs ++ ys) := by
  intro ctx hblank
  obtain ⟨hblank', hxs⟩ := hfirst ctx hblank
  rw [CipherContext.settings_append, hxs, GpuCrypt.thenStep]
  by_cases hok : (first ctx).1 = true
  · rw [if_pos hok, if_pos hok]
    exact hsecond (first ctx).2 hblank'
  · rw [if_neg hok, if_neg hok]
    exact ⟨hblank', rfl⟩

lemma overlay_full {n : ℕ} (v : Vector Byte n) {l : List Byte} (h : l.length = n) :
    overlay v l = ⟨l.toArray, h⟩ := by
  rw [← Vector.toList_inj, toList_overlay v h]
  rfl

lemma mirrors_setCtxParams (params : Option (List OsslParam)) :
    Mirrors (σ := σ) (fun ctx => aes256GpuSetCtxParams ctx params)
      (CipherContext.setParams params) := by
  intro ctx hblank
  simp only [aes256GpuSetCtxParams_eq, CipherContext.setParams]
  cases ivParam params with
  | none => exact ⟨hblank, rfl⟩
  | some p =>
    have hiv : ctx.abstract.iv.getD (Vector.replicate 16 0) = ctx.iv := by
      cases hset : ctx.ivSet with
      | false => simp only [Aes256GpuCtx.abstract, hset, hblank hset, Option.getD_none,
          Bool.false_eq_true, if_false]
      | true => simp only [Aes256GpuCtx.abstract, hset, if_true, Option.getD_some]
    simp only [Option.toList_some, List.map_cons, List.map_nil, CipherContext.settings,
      CipherContext.setIvParam, hiv]
    by_cases hp : p.dataType = .octetString ∧ p.data.length ≤ 16
    · rw [if_pos hp, if_pos hp]
      exact ⟨by rintro ⟨⟩, rfl⟩
    · rw [if_neg hp, if_neg hp]
      exact ⟨hblank, rfl⟩

lemma mirrors_einitKey (key : Option (List Byte)) :
    Mirrors (σ := σ) (einitKey key) (key.toList.map CipherContext.setKey) := by
  intro ctx hblank
  cases key with
  | none => exact ⟨hblank, rfl⟩
  | some key =>
    simp only [Option.toList_some, List.map_cons, List.map_nil, CipherContext.settings,
      CipherContext.setKey, einitKey]
    by_cases hlen : key.length = 32
    · rw [dif_pos hlen, if_neg (not_not_intro hlen), overlay_full ctx.key hlen]
      exact ⟨hblank, rfl⟩
    · rw [dif_neg hlen, if_pos hlen]
      exact ⟨hblank, rfl⟩

lemma mirrors_einitIv (iv : Option (List Byte)) :
    Mirrors (σ := σ) (einitIv iv) (iv.toList.map CipherContext.setIv) := by
  intro ctx hblank
  cases iv with
  | none => exact ⟨hblank, rfl⟩
  | some iv =>
    simp only [Option.toList_some, List.map_cons, List.map_nil, CipherContext.settings,
      CipherContext.setIv, einitIv]
    by_cases hlen : iv.length = 16
    · rw [dif_pos hlen, if_neg (not_not_intro hlen), overlay_full ctx.iv hlen]
      exact ⟨by rintro ⟨⟩, rfl⟩
    · rw [dif_neg hlen, if_pos hlen]
      exact ⟨hblank, rfl⟩

lemma mirrors_einit (key iv : Option (List Byte)) (params : Option (List OsslParam)) :
    Mirrors (σ := σ) (fun ctx => aes256GpuEinit ctx key iv params)
      (CipherContext.init key iv params) := by
  have hsteps := ((mirrors_setCtxParams (σ := σ) params).thenStep (mirrors_einitKey key)).thenStep
    (mirrors_einitIv iv)
  intro ctx hblank
  simp only [aes256GpuEinit_eq_steps]
  exact hsteps ctx hblank

/-! ### One call -/

/-- The job of the call, if it was queued, has completed when its wait returns. -/
def Aes256Request.Settled : Aes256Request → Prop
  | .newctx _ => True
  | .freectx _ => True
  | .call _ vk _ => vk.Settled

instance : DecidablePred Aes256Request.Settled
  | .newctx _ => inferInstanceAs (Decidable True)
  | .freectx _ => inferInstanceAs (Decidable True)
  | .call _ vk _ => inferInstanceAs (Decidable vk.Settled)

/-- The rings of the context do not show in what an update returns. -/
lemma aes256GpuUpdate_reply {vk : VkOutcome} (hvk : vk.Settled) (ctx : Aes256ExportCtx)
    (outsize : ℕ) (input : List Byte) :
    (aes256GpuUpdate (aes256GpuEncrypt vk) ctx outsize input).reply =
      ctx.abstract.update vk.queueSubmit outsize input := by
  have hsubmit := Aes256Batcher.submit_settled hvk ctx.gpuCtx.2 input ctx.key ctx.iv
  unfold aes256GpuUpdate CipherContext.update
  cases hkey : ctx.keySet with
  | false => simp [Aes256GpuCtx.abstract, hkey, Aes256GpuResult.reply, Aes256Reply.code]
  | true =>
    cases hiv : ctx.ivSet with
    | false => simp [Aes256GpuCtx.abstract, hkey, hiv, Aes256GpuResult.reply, Aes256Reply.code]
    | true =>
      simp only [Aes256GpuCtx.abstract, hkey, hiv, if_true, Bool.not_true, Bool.or_self,
        Bool.false_eq_true, if_false, aes256GpuEncrypt, hsubmit]
      by_cases hroom : outsize < input.length
      · have hno : ¬(input.length ≤ outsize ∧ vk.queueSubmit = true) := fun h => by omega
        rw [if_pos hroom, if_neg hno]
        rfl
      · by_cases hqueue : vk.queueSubmit = true
        · have hyes : input.length ≤ outsize ∧ vk.queueSubmit = true := ⟨by omega, hqueue⟩
          rw [if_neg hroom, if_pos hqueue, if_pos hyes]
          cases Algorithm.aes256Ctr.output input ctx.key ctx.iv <;> rfl
        · have hno : ¬(input.length ≤ outsize ∧ vk.queueSubmit = true) := fun h => hqueue h.2
          rw [if_neg hroom, if_neg hqueue, if_neg hno]
          rfl

/-- An update changes nothing but the rings. -/
lemma aes256GpuUpdate_ctx (lib : Aes256Gpu σ) (ctx : Aes256GpuCtx σ) (outsize : ℕ)
    (input : List Byte) :
    ∃ s, (aes256GpuUpdate lib ctx outsize input).ctx = { ctx with gpuCtx := s } := by
  unfold aes256GpuUpdate
  split_ifs
  · exact ⟨_, rfl⟩
  · exact ⟨_, rfl⟩
  · split <;> exact ⟨_, rfl⟩

/-- A call on a context is the same call on what it stands for. -/
lemma aes256GpuCall_abstract {vk : VkOutcome} (hvk : vk.Settled) {ctx : Aes256ExportCtx}
    (hblank : ctx.Blank) (c : Aes256GpuCall) :
    (aes256GpuCall (aes256GpuEncrypt vk) ctx c).Blank ∧
      ctx.abstract.call vk.queueSubmit c =
        ((aes256GpuCall (aes256GpuEncrypt vk) ctx c).abstract,
          aes256GpuReply (aes256GpuEncrypt vk) ctx c) := by
  cases c with
  | einit key iv params =>
    obtain ⟨hblank', hsets⟩ := mirrors_einit key iv params ctx hblank
    simp only [CipherContext.call, hsets]
    exact ⟨hblank', rfl⟩
  | dinit key iv params =>
    obtain ⟨hblank', hsets⟩ := mirrors_einit key iv params ctx hblank
    simp only [CipherContext.call, hsets]
    exact ⟨hblank', rfl⟩
  | setCtxParams params =>
    obtain ⟨hblank', hsets⟩ := mirrors_setCtxParams params ctx hblank
    simp only [CipherContext.call, hsets]
    exact ⟨hblank', rfl⟩
  | update outsize input =>
    obtain ⟨s, hctx⟩ := aes256GpuUpdate_ctx (aes256GpuEncrypt vk) ctx outsize input.bytes
    simp only [aes256GpuCall, aes256GpuReply, CipherContext.call, hctx, aes256GpuUpdate_reply hvk]
    exact ⟨hblank, rfl⟩
  | final => exact ⟨hblank, rfl⟩

/-! ### The process -/

/-- What matters of a request. -/
def Aes256Request.abstract : Aes256Request → CipherRequest
  | .newctx vk => .newctx (decide vk.Complete)
  | .freectx n => .freectx n
  | .call n vk c => .call n vk.queueSubmit c

/-- The process stands for these contexts. -/
structure Aes256Process.Represents (p : Aes256Process) (contexts : List CipherContext) : Prop where
  sound : ∃ leaks, p.Sound leaks
  blank : ∀ ctx ∈ p.contexts, ctx.Blank
  contexts_eq : contexts = p.contexts.map Aes256GpuCtx.abstract

/-- There is a context if and only if the setup was complete, and it has neither key nor IV. -/
lemma Aes256Process.newctx_cases {p : Aes256Process} {leaks : List (List (Object VkKind))}
    (h : p.Sound leaks) (vk : SetupResults) :
    p.reply (.newctx vk) = some (.code (decide vk.Complete)) ∧
      ∃ new : List Aes256ExportCtx, (p.newctx vk).contexts = new ++ p.contexts ∧
        (∀ ctx ∈ new, ctx.Blank) ∧
          new.map Aes256GpuCtx.abstract = if vk.Complete then [.empty] else [] := by
  simp only [Aes256Process.reply, Aes256Process.newctx]
  rcases h.init_cases vk with ⟨r, ctx, hinit, hcomplete, -⟩ | ⟨r, ys, hinit, hfailed, -⟩
  · rw [hinit, decide_eq_true hcomplete, if_pos hcomplete]
    refine ⟨rfl, [Aes256GpuCtx.zalloc (ctx, vk.contents)], rfl, ?_, rfl⟩
    exact List.forall_mem_singleton.mpr (fun _ => rfl)
  · rw [hinit, decide_eq_false hfailed, if_neg hfailed]
    exact ⟨rfl, [], rfl, by simp, rfl⟩

lemma Aes256Process.contexts_freectx (p : Aes256Process) (n : ℕ) :
    (p.freectx n).contexts = p.contexts.eraseIdx n := by
  unfold Aes256Process.freectx
  cases hctx : p.contexts[n]? with
  | none => rw [List.eraseIdx_of_length_le (List.getElem?_eq_none_iff.mp hctx)]
  | some ctx => rfl

lemma Aes256Process.Represents.step {p : Aes256Process} {contexts : List CipherContext}
    (h : p.Represents contexts) {r : Aes256Request} (hr : r.Settled) :
    (p.serve r).2 = (cipherStep contexts r.abstract).2 ∧
      (p.serve r).1.Represents (cipherStep contexts r.abstract).1 := by
  obtain ⟨⟨leaks, hsound⟩, hblank, rfl⟩ := h
  unfold Aes256Process.serve
  cases r with
  | newctx vk =>
    obtain ⟨hreply, new, hcontexts, hnew, hempty⟩ := Aes256Process.newctx_cases hsound vk
    obtain ⟨leaks', hsound', _⟩ := hsound.newctx vk
    refine ⟨hreply, ⟨leaks', hsound'⟩, ?_, ?_⟩
    · rw [Aes256Process.step, hcontexts]
      exact List.forall_mem_append.mpr ⟨hnew, hblank⟩
    · rw [Aes256Process.step, hcontexts, List.map_append, hempty]
      by_cases hcomplete : vk.Complete
      · simp [cipherStep, Aes256Request.abstract, hcomplete]
      · simp [cipherStep, Aes256Request.abstract, hcomplete]
  | freectx n =>
    refine ⟨rfl, ⟨leaks, hsound.freectx n⟩, ?_, ?_⟩
    · intro ctx hmem
      rw [Aes256Process.step, Aes256Process.contexts_freectx] at hmem
      exact hblank ctx (List.mem_of_mem_eraseIdx hmem)
    · rw [Aes256Process.step, Aes256Process.contexts_freectx, ← List.eraseIdx_map]
      rfl
  | call n vk c =>
    have hcall := fun ctx hmem => aes256GpuCall_abstract hr (hblank ctx hmem) c
    refine ⟨?_, ⟨leaks, hsound.call n vk c⟩, ?_, ?_⟩
    · simp only [Aes256Process.reply, cipherStep, Aes256Request.abstract, List.getElem?_map]
      cases hctx : p.contexts[n]? with
      | none => rfl
      | some ctx => rw [Option.map_some, Option.map_some, Option.map_some,
          (hcall ctx (List.mem_of_getElem? hctx)).2]
    · intro ctx hmem
      obtain ⟨i, hi⟩ := List.mem_iff_getElem?.mp hmem
      simp only [Aes256Process.step, List.getElem?_modify] at hi
      obtain ⟨ctx', hctx, rfl⟩ := Option.map_eq_some_iff.mp hi
      have hmem' := List.mem_of_getElem? hctx
      by_cases hn : n = i
      · rw [if_pos hn]
        exact (hcall ctx' hmem').1
      · rw [if_neg hn]
        exact hblank ctx' hmem'
    · apply List.ext_getElem?
      intro i
      simp only [cipherStep, Aes256Request.abstract, Aes256Process.step, List.getElem?_map,
        List.getElem?_modify]
      cases hctx : p.contexts[i]? with
      | none => rfl
      | some ctx =>
        have hsame := (hcall ctx (List.mem_of_getElem? hctx)).2
        by_cases hi : n = i
        · simp [hi, hsame]
        · simp [hi]

/-- Contexts made and freed and calls on them, whichever checked set-up calls and whichever jobs
fail on the way, as long as every queued job has completed when its wait returns: the process
replies as if a context held its key and its IV and nothing else. -/
theorem aes256Gpu_process_refines (requests : List Aes256Request)
    (hrequests : ∀ r ∈ requests, r.Settled) :
    let real := Isolation.run Aes256Process.serve .load requests
    let ideal := Isolation.run cipherStep [] (requests.map Aes256Request.abstract)
    real.1 = ideal.1 ∧ real.2.contexts.map Aes256GpuCtx.abstract = ideal.2 := by
  have hload : Aes256Process.load.Represents [] :=
    ⟨⟨[], .empty, by simp⟩, by simp [Aes256Process.load], rfl⟩
  obtain ⟨hreplies, hend⟩ := Isolation.run_simulation (R := Aes256Process.Represents)
    (g := Aes256Request.abstract) (fun _ _ _ hr h => h.step hr) hload hrequests
  exact ⟨hreplies, hend.contexts_eq.symm⟩

/-- Two contexts, one of them freed, and an update that fails and is repeated on the other. -/
theorem aes256Gpu_process_refines_two :
    let gpu : PhysicalDevice := { queueFamilies := [2], memoryTypes := [6] }
    let buffer : BufferResults :=
      { createBuffer := true
        memoryTypeBits := 1
        allocateMemory := true }
    let setup : SetupResults :=
      { createInstance := 0
        physicalDevices := [gpu]
        createDevice := true
        inputRing := buffer
        outputRing := buffer
        param := buffer
        openShader := true
        createShaderModule := true
        contents := ⟨fun _ => 1, fun _ => 2, fun _ => 3⟩ }
    let failed : VkOutcome := ⟨false, false, false, fun h _ => h⟩
    let update : Aes256GpuCall := .update 5 ⟨[1, 2, 3, 4, 5], by decide⟩
    let requests : List Aes256Request :=
      [.newctx setup, .newctx setup,
        .call 1 .success (.einit (some (List.replicate 32 7)) (some (List.replicate 16 9)) none),
        .freectx 0, .call 0 failed update, .call 0 .success update]
    let real := Isolation.run Aes256Process.serve .load requests
    let ideal := Isolation.run cipherStep [] (requests.map Aes256Request.abstract)
    real.1 = ideal.1 ∧ real.2.contexts.map Aes256GpuCtx.abstract = ideal.2 := by
  intro gpu buffer setup failed update requests
  refine aes256Gpu_process_refines requests ?_
  have hfailed : failed.Settled := by decide
  have hsuccess : VkOutcome.success.Settled := by decide
  simp only [requests, Aes256Request.Settled, List.forall_mem_cons, List.not_mem_nil, false_imp_iff,
    implies_true, and_true, hfailed, hsuccess]

end GpuCrypt
