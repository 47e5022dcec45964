import GpuCrypt.Lib.Handles
import GpuCrypt.Model.Aes256Export
import GpuCrypt.Model.Batchers

/-!
# The exported library and its contexts

What `aes256_gpu_init` creates and `aes256_gpu_cleanup` destroys: the constructors and destructors
of `VulkanContext` and `AES256Batcher`. The calls whose results the code checks may fail. The others
are taken to succeed: `vkMapMemory`, `vkBindBufferMemory` and all that create or allocate descriptor
objects, the pipeline, the command buffer and the fence, whose handles are left indeterminate when
they do not. A process makes contexts of the exported provider, calls them and frees them.
-/

namespace GpuCrypt

open Handles

inductive VkKind
  | vkInstance
  | vkDevice
  | vkBuffer
  | vkDeviceMemory
  | vkDescriptorSetLayout
  | vkDescriptorPool
  | vkDescriptorSet
  | vkShaderModule
  | vkPipelineLayout
  | vkPipeline
  | vkCommandPool
  | vkCommandBuffer
  | vkFence
deriving DecidableEq, Repr

/-- A GPU: the `queueFlags` of its queue families and the `propertyFlags` of its memory types. -/
structure PhysicalDevice where
  queueFamilies : List Word
  memoryTypes : List Word

/-- What the calls of one `createBuffer` return. -/
structure BufferResults where
  createBuffer : Bool
  memoryTypeBits : Word
  allocateMemory : Bool

/-- What the calls return that `aes256_gpu_init` checks, the GPUs there are, and what the new
buffers hold. The calls it does not check have no result here, and succeed. -/
structure SetupResults where
  createInstance : ℤ
  physicalDevices : List PhysicalDevice
  createDevice : Bool
  inputRing : BufferResults
  outputRing : BufferResults
  param : BufferResults
  openShader : Bool
  createShaderModule : Bool
  contents : Aes256Batcher

/-- Code that creates and destroys Vulkan objects, and throws a `std::runtime_error`. -/
abbrev VkProg (α : Type) := Prog VkKind String α

/-! ### VulkanContext -/

structure VulkanContext where
  inst : Ref VkKind.vkInstance
  physicalDevice : PhysicalDevice
  device : Ref VkKind.vkDevice
  computeQueueFamilyIndex : ℕ

def createInstance (vk : SetupResults) : VkProg (Ref VkKind.vkInstance) :=
  if vk.createInstance = 0 then Prog.create VkKind.vkInstance .root
  else Prog.throw ("failed to create instance! Error code: " ++ toString vk.createInstance)

def vkQueueComputeBit : Word := 2

/-- `some i` is `true`, with `computeQueueFamilyIndex` set to `i`. -/
def isDeviceSuitable (device : PhysicalDevice) : Option ℕ :=
  device.queueFamilies.findIdx? (fun queueFlags => queueFlags &&& vkQueueComputeBit ≠ 0)

def pickPhysicalDevice (vk : SetupResults) : VkProg (PhysicalDevice × ℕ) :=
  if vk.physicalDevices.length = 0 then
    Prog.throw "failed to find GPUs with Vulkan support!"
  else
    match vk.physicalDevices.findSome? (fun d => (isDeviceSuitable d).map (fun i => (d, i))) with
    | none => Prog.throw "failed to find a suitable GPU!"
    | some picked => pure picked

def createLogicalDevice (vk : SetupResults) (inst : Ref VkKind.vkInstance) :
    VkProg (Ref VkKind.vkDevice) :=
  if vk.createDevice then Prog.create VkKind.vkDevice (.child inst.handle)
  else Prog.throw "failed to create logical device!"

def VulkanContext.construct (vk : SetupResults) : VkProg VulkanContext := do
  let inst ← createInstance vk
  let picked ← pickPhysicalDevice vk
  let device ← createLogicalDevice vk inst
  return {
    inst := inst
    physicalDevice := picked.1
    device := device
    computeQueueFamilyIndex := picked.2 }

def VulkanContext.destruct (ctx : VulkanContext) : VkProg Unit := do
  Prog.destroy ctx.device
  Prog.destroy ctx.inst

/-! ### Buffers -/

/-- The first memory type that the filter admits and that has all the properties. -/
def findMemoryType (physicalDevice : PhysicalDevice) (typeFilter properties : Word) : VkProg ℕ :=
  match (List.range physicalDevice.memoryTypes.length).find? (fun i =>
      typeFilter &&& ((1 : Word) <<< i) ≠ 0 ∧
        physicalDevice.memoryTypes.getD i 0 &&& properties = properties) with
  | none => Prog.throw "failed to find suitable memory type!"
  | some i => pure i

/-- `VK_MEMORY_PROPERTY_HOST_VISIBLE_BIT | VK_MEMORY_PROPERTY_HOST_COHERENT_BIT` -/
def hostVisibleCoherent : Word := 6

/-- A `VkBuffer` and its `VkDeviceMemory`. -/
structure RingBuffer where
  buffer : Ref VkKind.vkBuffer
  memory : Ref VkKind.vkDeviceMemory

def vkAllocateMemory (vk : BufferResults) (device : Ref VkKind.vkDevice) (_memoryTypeIndex : ℕ) :
    VkProg (Ref VkKind.vkDeviceMemory) :=
  if vk.allocateMemory then Prog.create VkKind.vkDeviceMemory (.child device.handle)
  else Prog.throw "failed to allocate buffer memory!"

def createBuffer (vk : BufferResults) (device : Ref VkKind.vkDevice)
    (physicalDevice : PhysicalDevice) (properties : Word) : VkProg RingBuffer := do
  let buffer ←
    if vk.createBuffer then Prog.create VkKind.vkBuffer (.child device.handle)
    else Prog.throw "failed to create buffer!"
  let memoryTypeIndex ← findMemoryType physicalDevice vk.memoryTypeBits properties
  let memory ← vkAllocateMemory vk device memoryTypeIndex
  return { buffer := buffer, memory := memory }

/-! ### AES256Batcher -/

/-- The descriptor objects of `createDescriptors`. -/
structure Descriptors where
  descriptorSetLayout : Ref VkKind.vkDescriptorSetLayout
  descriptorPool : Ref VkKind.vkDescriptorPool
  descriptorSet : Ref VkKind.vkDescriptorSet

def createDescriptors (device : Ref VkKind.vkDevice) : VkProg Descriptors := do
  let descriptorSetLayout ← Prog.create VkKind.vkDescriptorSetLayout (.child device.handle)
  let descriptorPool ← Prog.create VkKind.vkDescriptorPool (.child device.handle)
  let descriptorSet ← Prog.create VkKind.vkDescriptorSet (.pooled descriptorPool.handle)
  return {
    descriptorSetLayout := descriptorSetLayout
    descriptorPool := descriptorPool
    descriptorSet := descriptorSet }

/-- `readFile`, of which only that it may fail matters. -/
def readFile (opens : Bool) (filename : String) : VkProg Unit :=
  if opens then pure () else Prog.throw ("failed to open file: " ++ filename)

def createShaderModule (vk : SetupResults) (device : Ref VkKind.vkDevice) :
    VkProg (Ref VkKind.vkShaderModule) :=
  if vk.createShaderModule then Prog.create VkKind.vkShaderModule (.child device.handle)
  else Prog.throw "failed to create shader module!"

structure Pipeline where
  pipelineLayout : Ref VkKind.vkPipelineLayout
  pipeline : Ref VkKind.vkPipeline

def createPipeline (vk : SetupResults) (device : Ref VkKind.vkDevice) : VkProg Pipeline := do
  readFile vk.openShader "/usr/local/lib/aes256_ctr.spv"
  let shaderModule ← createShaderModule vk device
  let pipelineLayout ← Prog.create VkKind.vkPipelineLayout (.child device.handle)
  let pipeline ← Prog.create VkKind.vkPipeline (.child device.handle)
  Prog.destroy shaderModule
  return { pipelineLayout := pipelineLayout, pipeline := pipeline }

structure Commands where
  commandPool : Ref VkKind.vkCommandPool
  commandBuffer : Ref VkKind.vkCommandBuffer

def createCommandBuffer (device : Ref VkKind.vkDevice) : VkProg Commands := do
  let commandPool ← Prog.create VkKind.vkCommandPool (.child device.handle)
  let commandBuffer ← Prog.create VkKind.vkCommandBuffer (.pooled commandPool.handle)
  return { commandPool := commandPool, commandBuffer := commandBuffer }

/-- The Vulkan objects of an `AES256Batcher`. -/
structure Aes256Objects extends Descriptors, Pipeline, Commands where
  inputRing : RingBuffer
  outputRing : RingBuffer
  param : RingBuffer
  computeFence : Ref VkKind.vkFence

def Aes256Objects.construct (vk : SetupResults) (ctx : VulkanContext) : VkProg Aes256Objects := do
  let inputRing ← createBuffer vk.inputRing ctx.device ctx.physicalDevice hostVisibleCoherent
  let outputRing ← createBuffer vk.outputRing ctx.device ctx.physicalDevice hostVisibleCoherent
  let param ← createBuffer vk.param ctx.device ctx.physicalDevice hostVisibleCoherent
  let descriptors ← createDescriptors ctx.device
  let pipeline ← createPipeline vk ctx.device
  let commands ← createCommandBuffer ctx.device
  let computeFence ← Prog.create VkKind.vkFence (.child ctx.device.handle)
  return {
    toDescriptors := descriptors
    toPipeline := pipeline
    toCommands := commands
    inputRing := inputRing
    outputRing := outputRing
    param := param
    computeFence := computeFence }

def Aes256Objects.destruct (b : Aes256Objects) : VkProg Unit := do
  Prog.destroy b.computeFence
  Prog.destroy b.pipeline
  Prog.destroy b.pipelineLayout
  Prog.destroy b.descriptorPool
  Prog.destroy b.descriptorSetLayout
  Prog.destroy b.commandBuffer
  Prog.destroy b.commandPool
  Prog.destroy b.param.buffer
  Prog.destroy b.param.memory
  Prog.destroy b.inputRing.buffer
  Prog.destroy b.inputRing.memory
  Prog.destroy b.outputRing.buffer
  Prog.destroy b.outputRing.memory

/-! ### The library -/

structure Aes256Context where
  vkCtx : VulkanContext
  batcher : Aes256Objects

/-- `none` is the null pointer. -/
def aes256GpuInit (vk : SetupResults) : VkProg (Option Aes256Context) :=
  Prog.catching (do
    let vkCtx ← VulkanContext.construct vk
    let batcher ← Aes256Objects.construct vk vkCtx
    return some { vkCtx := vkCtx, batcher := batcher })
    (fun _ => pure none)

def aes256GpuCleanup (handle : Option Aes256Context) : VkProg Unit :=
  match handle with
  | none => pure ()
  | some ctx => do
    ctx.batcher.destruct
    ctx.vkCtx.destruct

/-- `aes256_gpu_encrypt` with a handle that is not null. -/
def aes256GpuEncrypt (vk : VkOutcome) : Aes256Gpu (Aes256Context × Aes256Batcher) where
  encrypt ctx input key iv :=
    let r := ctx.2.submit vk input key iv
    ((ctx.1, r.1), r.2)

/-! ### Contexts of the provider -/

abbrev Aes256ExportCtx := Aes256GpuCtx (Aes256Context × Aes256Batcher)

/-- What a call returns, stores through `outl` (if it does) and writes to `out`. For `newctx` it is
returning a context. -/
structure Aes256Reply where
  ret : Bool
  outl : Option ℕ
  out : List Byte

/-- The reply of a call that has no output. -/
def Aes256Reply.code (ret : Bool) : Aes256Reply := { ret := ret, outl := none, out := [] }

def Aes256GpuResult.reply {σ : Type} (r : Aes256GpuResult σ) : Aes256Reply :=
  { ret := r.ret, outl := r.outl, out := r.out }

/-- What `aes256GpuCall` returns to its caller. -/
def aes256GpuReply {σ : Type} (lib : Aes256Gpu σ) (ctx : Aes256GpuCtx σ) :
    Aes256GpuCall → Aes256Reply
  | .einit key iv params => .code (aes256GpuEinit ctx key iv params).1
  | .dinit key iv params => .code (aes256GpuDinit ctx key iv params).1
  | .setCtxParams params => .code (aes256GpuSetCtxParams ctx params).1
  | .update outsize input => (aes256GpuUpdate lib ctx outsize input.bytes).reply
  | .final => (aes256GpuFinal ctx).reply

/-- The Vulkan objects of the process, and the contexts that have not been freed. -/
structure Aes256Process where
  registry : Registry VkKind
  contexts : List Aes256ExportCtx

/-- `newctx` with what the Vulkan calls return in it, `freectx` for one of the contexts, or another
call on one of them. -/
inductive Aes256Request where
  | newctx (vk : SetupResults)
  | freectx (n : ℕ)
  | call (n : ℕ) (vk : VkOutcome) (c : Aes256GpuCall)

namespace Aes256Process

def newctx (p : Aes256Process) (vk : SetupResults) : Aes256Process :=
  match aes256GpuInit vk p.registry with
  | (r, .ok handle) =>
    { registry := r
      contexts := (aes256GpuNewctx (handle.map (fun h => (h, vk.contents)))).toList ++ p.contexts }
  | (r, .error _) => { p with registry := r }

def freectx (p : Aes256Process) (n : ℕ) : Aes256Process :=
  match p.contexts[n]? with
  | none => p
  | some ctx =>
    { registry := (aes256GpuCleanup (some ctx.gpuCtx.1) p.registry).1
      contexts := p.contexts.eraseIdx n }

def step (p : Aes256Process) : Aes256Request → Aes256Process
  | .newctx vk => p.newctx vk
  | .freectx n => p.freectx n
  | .call n vk c =>
    { p with
      contexts := p.contexts.modify n (fun ctx => aes256GpuCall (aes256GpuEncrypt vk) ctx c) }

def load : Aes256Process := { registry := Registry.empty, contexts := [] }

/-- What a request returns to its caller: nothing from `freectx`, and nothing either from an
exception that leaves `newctx`. -/
def reply (p : Aes256Process) : Aes256Request → Option Aes256Reply
  | .newctx vk =>
    match aes256GpuInit vk p.registry with
    | (_, .ok handle) =>
      some (.code (aes256GpuNewctx (handle.map (fun h => (h, vk.contents)))).isSome)
    | (_, .error _) => none
  | .freectx _ => none
  | .call n vk c => p.contexts[n]?.map (fun ctx => aes256GpuReply (aes256GpuEncrypt vk) ctx c)

/-- A request: what it leaves and its reply. -/
def serve (p : Aes256Process) (r : Aes256Request) : Aes256Process × Option Aes256Reply :=
  (p.step r, p.reply r)

end Aes256Process

end GpuCrypt
