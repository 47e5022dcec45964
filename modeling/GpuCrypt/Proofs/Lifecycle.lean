import GpuCrypt.Model.Lifecycle
import GpuCrypt.Proofs.ExportInit

/-!
# What the exported library leaves behind

A context owns one set of Vulkan objects, from the instance to the fence. `aes256_gpu_cleanup`
destroys the set, children before their parents. An `aes256_gpu_init` that fails half way destroys
nothing of what it has created, so that no call can reach it any more.
-/

namespace GpuCrypt

open Handles

/-! ### The objects of a context -/

def VulkanContext.objects (ctx : VulkanContext) : List (Object VkKind) :=
  [ctx.inst.object .root,
    ctx.device.object (.child ctx.inst.handle)]

section Device

variable (device : Ref VkKind.vkDevice)

def RingBuffer.objects (b : RingBuffer) : List (Object VkKind) :=
  [b.buffer.object (.child device.handle),
    b.memory.object (.child device.handle)]

def Descriptors.objects (d : Descriptors) : List (Object VkKind) :=
  [d.descriptorSetLayout.object (.child device.handle),
    d.descriptorPool.object (.child device.handle),
    d.descriptorSet.object (.pooled d.descriptorPool.handle)]

def Pipeline.objects (p : Pipeline) : List (Object VkKind) :=
  [p.pipelineLayout.object (.child device.handle),
    p.pipeline.object (.child device.handle)]

def Commands.objects (c : Commands) : List (Object VkKind) :=
  [c.commandPool.object (.child device.handle),
    c.commandBuffer.object (.pooled c.commandPool.handle)]

def Aes256Objects.objects (b : Aes256Objects) : List (Object VkKind) :=
  b.inputRing.objects device ++ b.outputRing.objects device ++ b.param.objects device ++
    b.toDescriptors.objects device ++ b.toPipeline.objects device ++ b.toCommands.objects device ++
    [b.computeFence.object (.child device.handle)]

end Device

/-- The objects of a context, in the order in which they are created. -/
def Aes256Context.objects (ctx : Aes256Context) : List (Object VkKind) :=
  ctx.vkCtx.objects ++ ctx.batcher.objects ctx.vkCtx.device

def kinds (xs : List (Object VkKind)) : List VkKind := xs.map (fun o => o.handle.kind)

/-- What is created up to the last call that may fail. -/
def creationOrder : List VkKind :=
  [.vkInstance, .vkDevice, .vkBuffer, .vkDeviceMemory, .vkBuffer, .vkDeviceMemory, .vkBuffer,
    .vkDeviceMemory, .vkDescriptorSetLayout, .vkDescriptorPool, .vkDescriptorSet]

/-- An instance at least, and whatever came next. -/
def Leaked (xs : List (Object VkKind)) : Prop :=
  [.vkInstance] <+: kinds xs ∧ kinds xs <+: creationOrder

lemma Leaked.of_kinds {xs : List (Object VkKind)} {n : ℕ}
    (h : kinds xs = creationOrder.take (n + 1)) : Leaked xs := by
  rw [Leaked, h]
  exact ⟨⟨_, rfl⟩, List.take_prefix _ _⟩

/-! ### When the setup succeeds -/

/-- The first GPU with a compute queue. -/
def SetupResults.gpu (vk : SetupResults) : Option PhysicalDevice :=
  vk.physicalDevices.find? (fun d => (isDeviceSuitable d).isSome)

structure BufferResults.Complete (vk : BufferResults) (gpu : PhysicalDevice) : Prop where
  createBuffer : vk.createBuffer = true
  memoryType : ∃ i < gpu.memoryTypes.length, vk.memoryTypeBits &&& ((1 : Word) <<< i) ≠ 0 ∧
    gpu.memoryTypes.getD i 0 &&& hostVisibleCoherent = hostVisibleCoherent
  allocateMemory : vk.allocateMemory = true

instance (vk : BufferResults) (gpu : PhysicalDevice) : Decidable (vk.Complete gpu) :=
  decidable_of_iff (vk.createBuffer = true ∧
      (∃ i < gpu.memoryTypes.length, vk.memoryTypeBits &&& ((1 : Word) <<< i) ≠ 0 ∧
        gpu.memoryTypes.getD i 0 &&& hostVisibleCoherent = hostVisibleCoherent) ∧
      vk.allocateMemory = true)
    ⟨fun h => ⟨h.1, h.2.1, h.2.2⟩, fun h => ⟨h.createBuffer, h.memoryType, h.allocateMemory⟩⟩

/-- The three buffers and the shader. -/
def SetupResults.BatcherComplete (vk : SetupResults) (gpu : PhysicalDevice) : Prop :=
  (vk.inputRing.Complete gpu ∧ vk.outputRing.Complete gpu ∧ vk.param.Complete gpu) ∧
    vk.openShader = true ∧ vk.createShaderModule = true

instance (vk : SetupResults) : DecidablePred vk.BatcherComplete :=
  fun _ => inferInstanceAs (Decidable (_ ∧ _ ∧ _))

/-- No checked call fails. -/
def SetupResults.Complete (vk : SetupResults) : Prop :=
  vk.createInstance = 0 ∧ vk.createDevice = true ∧ ∃ gpu ∈ vk.gpu, vk.BatcherComplete gpu

instance (vk : SetupResults) : Decidable vk.Complete := inferInstanceAs (Decidable (_ ∧ _ ∧ _))

/-! ### The constructors -/

section Construct

variable {xs : List (Object VkKind)} {device : Ref VkKind.vkDevice}

lemma findMemoryType_triple (vk : BufferResults) (gpu : PhysicalDevice) :
    Triple xs (findMemoryType gpu vk.memoryTypeBits hostVisibleCoherent)
      (fun i ys => ys = xs ∧ i < gpu.memoryTypes.length ∧
        vk.memoryTypeBits &&& ((1 : Word) <<< i) ≠ 0 ∧
        gpu.memoryTypes.getD i 0 &&& hostVisibleCoherent = hostVisibleCoherent)
      (fun _ ys => ys = xs ∧ ¬vk.Complete gpu) := by
  unfold findMemoryType
  split
  · rename_i hnone
    refine .throw ⟨rfl, fun hcomplete => ?_⟩
    obtain ⟨i, hi, hadmits⟩ := hcomplete.memoryType
    exact List.find?_eq_none.mp hnone i (List.mem_range.mpr hi) (decide_eq_true hadmits)
  · rename_i i hsome
    have hi := List.mem_range.mp (List.mem_of_find?_eq_some hsome)
    have hadmits := List.find?_some hsome
    exact .ret ⟨rfl, hi, of_decide_eq_true hadmits⟩

lemma createBuffer_triple (vk : BufferResults) (gpu : PhysicalDevice)
    (hdevice : device.handle ∈ xs.map Object.handle) :
    Triple xs (createBuffer vk device gpu hostVisibleCoherent)
      (fun b ys => ys = xs ++ b.objects device ∧ vk.Complete gpu)
      (fun _ ys => (kinds ys = kinds xs ∨ kinds ys = kinds xs ++ [.vkBuffer]) ∧
        ¬vk.Complete gpu) := by
  have hparent : ∀ p ∈ (Origin.child device.handle).parent, p ∈ xs.map Object.handle := by
    rintro p ⟨⟩
    exact hdevice
  unfold createBuffer
  by_cases hbuffer : vk.createBuffer = true
  · rw [if_pos hbuffer]
    refine .create_bind hparent (fun buffer => ?_)
    have hkinds : kinds (xs ++ [buffer.object (.child device.handle)]) =
        kinds xs ++ [.vkBuffer] := by simp [kinds, Ref.handle]
    refine .bind (.mono (findMemoryType_triple vk gpu) (fun _ _ h => h)
      (fun _ ys h => ⟨.inr (by rw [h.1, hkinds]), h.2⟩)) ?_
    rintro i ys ⟨rfl, hi, hadmits⟩
    by_cases hmemory : vk.allocateMemory = true
    · rw [vkAllocateMemory, if_pos hmemory]
      refine .create_bind (fun p hp => ?_)
        (fun memory => .ret ⟨?_, hbuffer, ⟨i, hi, hadmits⟩, hmemory⟩)
      · rw [List.map_append]
        exact List.mem_append_left _ (hparent p hp)
      · simp [RingBuffer.objects]
    · rw [vkAllocateMemory, if_neg hmemory]
      exact .throw_bind ⟨.inr hkinds, fun hcomplete => hmemory hcomplete.allocateMemory⟩
  · rw [if_neg hbuffer]
    exact .throw_bind ⟨.inl rfl, fun hcomplete => hbuffer hcomplete.createBuffer⟩

/-- The objects of a buffer come next. -/
lemma mem_handles_append {h : Handle VkKind} (ys : List (Object VkKind))
    (hmem : h ∈ xs.map Object.handle) : h ∈ (xs ++ ys).map Object.handle := by
  rw [List.map_append]
  exact List.mem_append_left _ hmem

lemma createDescriptors_triple (hdevice : device.handle ∈ xs.map Object.handle)
    (E : String → List (Object VkKind) → Prop) :
    Triple xs (createDescriptors device) (fun d ys => ys = xs ++ d.objects device) E := by
  unfold createDescriptors
  refine .create_bind (by rintro p ⟨⟩; exact hdevice) (fun layout => ?_)
  refine .create_bind (by rintro p ⟨⟩; exact mem_handles_append _ hdevice) (fun pool => ?_)
  refine .create_bind (by rintro p ⟨⟩; simp) (fun set => .ret ?_)
  simp [Descriptors.objects]

lemma createCommandBuffer_triple (hdevice : device.handle ∈ xs.map Object.handle)
    (E : String → List (Object VkKind) → Prop) :
    Triple xs (createCommandBuffer device) (fun c ys => ys = xs ++ c.objects device) E := by
  unfold createCommandBuffer
  refine .create_bind (by rintro p ⟨⟩; exact hdevice) (fun pool => ?_)
  refine .create_bind (by rintro p ⟨⟩; simp) (fun buffer => .ret ?_)
  simp [Commands.objects]

/-- The shader module is destroyed again. -/
lemma createPipeline_triple (vk : SetupResults) (hdevice : device.handle ∈ xs.map Object.handle)
    (hmodules : ∀ o ∈ xs, ∀ p ∈ o.origin.parent, p.kind ≠ .vkShaderModule) :
    Triple xs (createPipeline vk device)
      (fun p ys => ys = xs ++ p.objects device ∧ vk.openShader = true ∧
        vk.createShaderModule = true)
      (fun _ ys => ys = xs ∧ ¬(vk.openShader = true ∧ vk.createShaderModule = true)) := by
  unfold createPipeline readFile createShaderModule
  by_cases hopen : vk.openShader = true
  · rw [if_pos hopen]
    refine .bind (.ret (Q := fun _ ys => ys = xs) rfl) ?_
    rintro _ ys rfl
    by_cases hmodule : vk.createShaderModule = true
    · rw [if_pos hmodule]
      refine .create_bind (by rintro p ⟨⟩; exact hdevice) (fun shader => ?_)
      refine .create_bind (by rintro p ⟨⟩; exact mem_handles_append _ hdevice) (fun layout => ?_)
      refine .create_bind (by
        rintro p ⟨⟩
        exact mem_handles_append _ (mem_handles_append _ hdevice)) (fun pipeline => ?_)
      have hperm : (ys ++ [shader.object (.child device.handle)] ++
          [layout.object (.child device.handle)] ++
          [pipeline.object (.child device.handle)]).Perm
          (shader.object (.child device.handle) ::
            (ys ++ [layout.object (.child device.handle),
              pipeline.object (.child device.handle)])) := by
        rw [List.append_assoc, List.append_assoc]
        exact List.perm_middle
      refine .perm hperm (.destroy_bind ?_ ?_ (.ret ⟨rfl, hopen, hmodule⟩))
      · rintro ⟨⟩
      · intro o ho hp
        rcases List.mem_append.mp ho with ho | ho
        · exact hmodules o ho _ hp rfl
        · simp only [List.mem_cons, List.not_mem_nil, or_false] at ho
          rcases ho with rfl | rfl <;> cases hp
    · rw [if_neg hmodule]
      exact .throw_bind ⟨rfl, fun h => hmodule h.2⟩
  · rw [if_neg hopen]
    exact .throw_bind ⟨rfl, fun h => hopen h.1⟩

/-! The first GPU with a compute queue is the one that is picked. -/

lemma findSome_suitable (ds : List PhysicalDevice) :
    (ds.findSome? (fun d => (isDeviceSuitable d).map (fun i => (d, i)))).map Prod.fst =
      ds.find? (fun d => (isDeviceSuitable d).isSome) := by
  induction ds with
  | nil => rfl
  | cons d ds ih =>
    cases hd : isDeviceSuitable d with
    | none => simpa [hd] using ih
    | some i => simp [hd]

lemma pickPhysicalDevice_triple (vk : SetupResults) :
    Triple xs (pickPhysicalDevice vk)
      (fun picked ys => ys = xs ∧ vk.gpu = some picked.1)
      (fun _ ys => ys = xs ∧ vk.gpu = none) := by
  have hgpu : vk.gpu = _ := (findSome_suitable vk.physicalDevices).symm
  unfold pickPhysicalDevice
  split
  · rename_i hlen
    rw [SetupResults.gpu, List.length_eq_zero_iff.mp hlen]
    exact .throw ⟨rfl, rfl⟩
  · split
    · rename_i hnone
      exact .throw ⟨rfl, by rw [hgpu, hnone]; rfl⟩
    · rename_i picked hsome
      exact .ret ⟨rfl, by rw [hgpu, hsome]; rfl⟩

lemma vulkanContext_triple (vk : SetupResults) :
    Triple [] (VulkanContext.construct vk)
      (fun ctx ys => ys = ctx.objects ∧ vk.createInstance = 0 ∧ vk.createDevice = true ∧
        vk.gpu = some ctx.physicalDevice)
      (fun _ ys => (vk.createInstance = 0 → Leaked ys) ∧ (vk.createInstance ≠ 0 → ys = []) ∧
        ¬vk.Complete) := by
  unfold VulkanContext.construct createInstance createLogicalDevice
  by_cases hinst : vk.createInstance = 0
  · rw [if_pos hinst]
    refine .create_bind (by rintro p ⟨⟩) (fun inst => ?_)
    have hleaked : Leaked [inst.object .root] := .of_kinds (n := 0) rfl
    refine .bind (.mono (pickPhysicalDevice_triple vk) (fun _ _ h => h) (fun _ ys h => ?_)) ?_
    · obtain ⟨rfl, hnone⟩ := h
      refine ⟨fun _ => hleaked, fun h => absurd hinst h, fun ⟨_, _, gpu, hgpu, _⟩ => ?_⟩
      rw [Option.mem_def.mp hgpu] at hnone
      cases hnone
    · rintro picked ys ⟨rfl, hpicked⟩
      by_cases hdevice : vk.createDevice = true
      · rw [if_pos hdevice]
        refine .create_bind ?_ (fun device => .ret ⟨rfl, hinst, hdevice, hpicked⟩)
        rintro p ⟨⟩
        exact List.mem_singleton_self _
      · rw [if_neg hdevice]
        exact .throw_bind ⟨fun _ => hleaked, fun h => absurd hinst h,
          fun hcomplete => hdevice hcomplete.2.1⟩
  · rw [if_neg hinst]
    exact .throw_bind ⟨fun h => absurd h hinst, fun _ => rfl,
      fun hcomplete => hinst hcomplete.1⟩

/-- A buffer that comes after `n` objects. -/
lemma leaked_of_createBuffer {ys : List (Object VkKind)} {n : ℕ}
    (hxs : kinds xs = creationOrder.take (n + 1))
    (hnext : creationOrder.take (n + 2) = creationOrder.take (n + 1) ++ [.vkBuffer])
    (hys : kinds ys = kinds xs ∨ kinds ys = kinds xs ++ [.vkBuffer]) : Leaked ys := by
  rcases hys with hys | hys
  · exact .of_kinds (n := n) (hys.trans hxs)
  · exact .of_kinds (n := n + 1) (by rw [hys, hxs, hnext])

lemma aes256Objects_triple (vk : SetupResults) (ctx : VulkanContext) :
    Triple ctx.objects (Aes256Objects.construct vk ctx)
      (fun b ys => ys = ctx.objects ++ b.objects ctx.device ∧
        vk.BatcherComplete ctx.physicalDevice)
      (fun _ ys => Leaked ys ∧ ¬vk.BatcherComplete ctx.physicalDevice) := by
  have hdevice : ctx.device.handle ∈ ctx.objects.map Object.handle := by
    simp [VulkanContext.objects]
  unfold Aes256Objects.construct
  refine .bind (.mono (createBuffer_triple vk.inputRing ctx.physicalDevice hdevice) (fun _ _ h => h)
    (fun _ ys h => ⟨leaked_of_createBuffer (n := 1) rfl rfl h.1, fun hall => h.2 hall.1.1⟩)) ?_
  rintro inputRing ys ⟨rfl, hinput⟩
  refine .bind (.mono (createBuffer_triple vk.outputRing ctx.physicalDevice
    (mem_handles_append _ hdevice)) (fun _ _ h => h)
    (fun _ ys h => ⟨leaked_of_createBuffer (n := 3) rfl rfl h.1, fun hall => h.2 hall.1.2.1⟩)) ?_
  rintro outputRing ys ⟨rfl, houtput⟩
  refine .bind (.mono (createBuffer_triple vk.param ctx.physicalDevice
    (mem_handles_append _ (mem_handles_append _ hdevice))) (fun _ _ h => h)
    (fun _ ys h => ⟨leaked_of_createBuffer (n := 5) rfl rfl h.1, fun hall => h.2 hall.1.2.2⟩)) ?_
  rintro param ys ⟨rfl, hparam⟩
  have hdevice' := mem_handles_append (param.objects ctx.device) (mem_handles_append
    (outputRing.objects ctx.device) (mem_handles_append (inputRing.objects ctx.device) hdevice))
  refine .bind (createDescriptors_triple hdevice' _) ?_
  rintro descriptors ys rfl
  refine .bind (.mono (createPipeline_triple vk (mem_handles_append _ hdevice') ?_)
    (fun _ _ h => h) (fun _ ys h => ⟨?_, fun hall => h.2 hall.2⟩)) ?_
  · simp [VulkanContext.objects, RingBuffer.objects, Descriptors.objects, Origin.parent, Ref.handle]
  · rw [h.1]
    exact .of_kinds (n := 10) rfl
  · rintro pipeline ys ⟨rfl, hshader⟩
    refine .bind (createCommandBuffer_triple (mem_handles_append _ (mem_handles_append _ hdevice'))
      _) ?_
    rintro commands ys rfl
    refine .create_bind (by
      rintro p ⟨⟩
      exact mem_handles_append _ (mem_handles_append _ (mem_handles_append _ hdevice')))
      (fun fence => .ret ⟨?_, ⟨hinput, houtput, hparam⟩, hshader⟩)
    simp only [Aes256Objects.objects, List.append_assoc]

end Construct

/-! ### The destructors -/

section Destruct

variable (E : String → List (Object VkKind) → Prop)

/-- The objects of a batcher, in the order in which they go. -/
lemma aes256Objects_perm (ctx : VulkanContext) (b : Aes256Objects) :
    (ctx.objects ++ b.objects ctx.device).Perm
      (b.computeFence.object (.child ctx.device.handle) ::
        b.pipeline.object (.child ctx.device.handle) ::
        b.pipelineLayout.object (.child ctx.device.handle) ::
        b.descriptorPool.object (.child ctx.device.handle) ::
        b.descriptorSet.object (.pooled b.descriptorPool.handle) ::
        b.descriptorSetLayout.object (.child ctx.device.handle) ::
        b.commandBuffer.object (.pooled b.commandPool.handle) ::
        b.commandPool.object (.child ctx.device.handle) ::
        (b.param.objects ctx.device ++ (b.inputRing.objects ctx.device ++
          (b.outputRing.objects ctx.device ++ ctx.objects)))) := by
  rw [← Multiset.coe_eq_coe]
  simp only [Aes256Objects.objects, Descriptors.objects, Pipeline.objects, Commands.objects,
    ← Multiset.coe_add, ← Multiset.cons_coe, Multiset.coe_nil, ← Multiset.singleton_add]
  abel

lemma aes256Objects_destruct (ctx : VulkanContext) (b : Aes256Objects) :
    Triple (ctx.objects ++ b.objects ctx.device) b.destruct (fun _ ys => ys = ctx.objects) E := by
  unfold Aes256Objects.destruct
  refine .perm (aes256Objects_perm ctx b) ?_
  simp only [RingBuffer.objects, VulkanContext.objects, List.cons_append, List.nil_append]
  -- the fence and the pipeline
  iterate 3 refine .destroy_bind (by rintro ⟨⟩) (by simp [Origin.parent, Ref.handle]) ?_
  refine .destroy_pool_bind [b.descriptorSet.object (.pooled b.descriptorPool.handle)]
    (by simp) (by rintro ⟨⟩) (by simp [Origin.parent, Ref.handle])
    (by simp [Origin.parent, Ref.handle]) ?_
  -- the layout, the command buffer, its pool and the buffers
  iterate 8 refine .destroy_bind (by rintro ⟨⟩) (by simp [Origin.parent, Ref.handle]) ?_
  refine .destroy (by rintro ⟨⟩) (by simp [Origin.parent, Ref.handle]) rfl

lemma vulkanContext_destruct (ctx : VulkanContext) :
    Triple ctx.objects ctx.destruct (fun _ ys => ys = []) E := by
  unfold VulkanContext.destruct
  refine .perm (List.Perm.swap _ _ _) ?_
  refine .destroy_bind (by rintro ⟨⟩) (by simp [Origin.parent]) ?_
  exact .destroy (by rintro ⟨⟩) (by simp) rfl

lemma aes256GpuCleanup_triple (ctx : Aes256Context) :
    Triple ctx.objects (aes256GpuCleanup (some ctx)) (fun _ ys => ys = []) E := by
  unfold aes256GpuCleanup
  refine .bind (aes256Objects_destruct E ctx.vkCtx ctx.batcher) ?_
  rintro _ ys rfl
  exact vulkanContext_destruct E ctx.vkCtx

end Destruct

/-! ### A run of the provider -/

/-- What `aes256_gpu_init` leaves to its caller, and what it leaves behind. -/
lemma aes256GpuInit_triple (vk : SetupResults) :
    Triple [] (aes256GpuInit vk)
      (fun handle ys =>
        match handle with
        | some ctx => ys = ctx.objects ∧ vk.Complete
        | none => (vk.createInstance = 0 → Leaked ys) ∧ (vk.createInstance ≠ 0 → ys = []) ∧
            ¬vk.Complete)
      (fun _ _ => False) := by
  unfold aes256GpuInit
  refine .catching (E := fun _ ys => (vk.createInstance = 0 → Leaked ys) ∧
    (vk.createInstance ≠ 0 → ys = []) ∧ ¬vk.Complete) ?_ (fun _ _ h => .ret h)
  refine .bind (vulkanContext_triple vk) ?_
  rintro ctx ys ⟨rfl, hinst, hdevice, hgpu⟩
  refine .bind (.mono (aes256Objects_triple vk ctx) (fun _ _ h => h) (fun _ ys h => ?_)) ?_
  · refine ⟨fun _ => h.1, fun hfail => absurd hinst hfail, fun ⟨_, _, gpu, hmem, hcomplete⟩ => ?_⟩
    rw [hgpu, Option.mem_some_iff] at hmem
    subst hmem
    exact h.2 hcomplete
  · rintro b ys ⟨rfl, hcomplete⟩
    exact .ret ⟨rfl, hinst, hdevice, _, hgpu, hcomplete⟩

/-- The instance is created, and a later call fails. -/
def Aes256Request.Leaks : Aes256Request → Prop
  | .newctx vk => vk.createInstance = 0 ∧ ¬vk.Complete
  | .freectx _ => False
  | .call _ _ _ => False

instance : DecidablePred Aes256Request.Leaks
  | .newctx _ => inferInstanceAs (Decidable (_ ∧ _))
  | .freectx _ => inferInstanceAs (Decidable False)
  | .call _ _ _ => inferInstanceAs (Decidable False)

/-- The live objects are those of the contexts and the leaks. -/
structure Aes256Process.Sound (p : Aes256Process) (leaks : List (List (Object VkKind))) :
    Prop where
  holds : Holds p.registry (p.contexts.map (fun c => c.gpuCtx.1.objects) ++ leaks)
  leaked : ∀ leak ∈ leaks, Leaked leak

/-- `aes256_gpu_init` throws nothing: there is a context with all of its objects, or the null
pointer and what has been created until then. -/
lemma Aes256Process.Sound.init_cases {p : Aes256Process} {leaks : List (List (Object VkKind))}
    (h : p.Sound leaks) (vk : SetupResults) :
    (∃ r ctx, aes256GpuInit vk p.registry = (r, .ok (some ctx)) ∧ vk.Complete ∧
        Holds r (ctx.objects :: (p.contexts.map (fun c => c.gpuCtx.1.objects) ++ leaks))) ∨
      ∃ r ys, aes256GpuInit vk p.registry = (r, .ok none) ∧ ¬vk.Complete ∧
        (vk.createInstance = 0 → Leaked ys) ∧ (vk.createInstance ≠ 0 → ys = []) ∧
          Holds r (ys :: (p.contexts.map (fun c => c.gpuCtx.1.objects) ++ leaks)) := by
  have hrun := (Holds.cons_nil_iff.mpr h.holds).run (aes256GpuInit_triple vk)
  rcases hinit : aes256GpuInit vk p.registry with ⟨r, e | handle⟩
  · rw [hinit] at hrun
    obtain ⟨_, _, hfalse⟩ := hrun
    exact hfalse.elim
  · rw [hinit] at hrun
    obtain ⟨ys, hholds, hys⟩ := hrun
    cases handle with
    | some ctx =>
      obtain ⟨rfl, hcomplete⟩ := hys
      exact .inl ⟨r, ctx, rfl, hcomplete, hholds⟩
    | none =>
      obtain ⟨hleaked, hempty, hfailed⟩ := hys
      exact .inr ⟨r, ys, rfl, hfailed, hleaked, hempty, hholds⟩

lemma Aes256Process.Sound.newctx {p : Aes256Process} {leaks : List (List (Object VkKind))}
    (h : p.Sound leaks) (vk : SetupResults) :
    ∃ leaks', (p.newctx vk).Sound leaks' ∧
      leaks'.length = leaks.length + if (Aes256Request.newctx vk).Leaks then 1 else 0 := by
  unfold Aes256Process.newctx
  rcases h.init_cases vk with ⟨r, ctx, hinit, hcomplete, hholds⟩ |
    ⟨r, ys, hinit, hfailed, hleaked, hempty, hholds⟩
  · rw [hinit]
    exact ⟨leaks, ⟨hholds, h.leaked⟩, by simp [Aes256Request.Leaks, hcomplete]⟩
  · rw [hinit]
    by_cases hinst : vk.createInstance = 0
    · refine ⟨ys :: leaks, ⟨hholds.perm List.perm_middle.symm, ?_⟩, ?_⟩
      · exact List.forall_mem_cons.mpr ⟨hleaked hinst, h.leaked⟩
      · simp [Aes256Request.Leaks, hinst, hfailed]
    · rw [hempty hinst, Holds.cons_nil_iff] at hholds
      exact ⟨leaks, ⟨hholds, h.leaked⟩, by simp [Aes256Request.Leaks, hinst]⟩

lemma Aes256Process.Sound.freectx {p : Aes256Process} {leaks : List (List (Object VkKind))}
    (h : p.Sound leaks) (n : ℕ) : (p.freectx n).Sound leaks := by
  unfold Aes256Process.freectx
  cases hctx : p.contexts[n]? with
  | none => exact h
  | some ctx =>
    obtain ⟨hlt, rfl⟩ := List.getElem?_eq_some_iff.mp hctx
    have hperm := ((List.getElem_cons_eraseIdx_perm hlt).symm.map
      (fun c => c.gpuCtx.1.objects)).append_right leaks
    have hrun := (h.holds.perm hperm).run (E := fun _ _ => False)
      (aes256GpuCleanup_triple _ p.contexts[n].gpuCtx.1)
    rcases hclean : aes256GpuCleanup (some p.contexts[n].gpuCtx.1) p.registry with ⟨r, e | handle⟩
    · rw [hclean] at hrun
      obtain ⟨_, _, hfalse⟩ := hrun
      exact hfalse.elim
    · rw [hclean] at hrun
      obtain ⟨_, hholds, rfl⟩ := hrun
      simp only [hclean]
      exact ⟨Holds.cons_nil_iff.mp hholds, h.leaked⟩

/-- No call touches the Vulkan objects of a context. -/
lemma objects_aes256GpuCall (vk : VkOutcome) (ctx : Aes256ExportCtx) (c : Aes256GpuCall) :
    (aes256GpuCall (aes256GpuEncrypt vk) ctx c).gpuCtx.1 = ctx.gpuCtx.1 := by
  cases c with
  | einit key iv params => rw [aes256GpuCall, gpuCtx_aes256GpuEinit]
  | dinit key iv params => rw [aes256GpuCall, aes256GpuDinit, gpuCtx_aes256GpuEinit]
  | setCtxParams params => rw [aes256GpuCall, gpuCtx_aes256GpuSetCtxParams]
  | update outsize input =>
    simp only [aes256GpuCall, aes256GpuUpdate, aes256GpuEncrypt]
    split_ifs
    · rfl
    · rfl
    · cases (ctx.gpuCtx.2.submit vk input.bytes ctx.key ctx.iv).2 <;> rfl
  | final => rfl

lemma Aes256Process.Sound.call {p : Aes256Process} {leaks : List (List (Object VkKind))}
    (h : p.Sound leaks) (n : ℕ) (vk : VkOutcome) (c : Aes256GpuCall) :
    (p.step (.call n vk c)).Sound leaks := by
  have hobjects : (p.step (.call n vk c)).contexts.map (fun c => c.gpuCtx.1.objects) =
      p.contexts.map (fun c => c.gpuCtx.1.objects) := by
    apply List.ext_getElem?
    intro i
    simp only [Aes256Process.step, List.getElem?_map, List.getElem?_modify]
    cases p.contexts[i]? with
    | none => rfl
    | some ctx =>
      by_cases hi : n = i
      · simp [hi, objects_aes256GpuCall]
      · simp [hi]
  refine ⟨?_, h.leaked⟩
  rw [hobjects]
  exact h.holds

end GpuCrypt
