import GpuCrypt.Model.Batchers
import GpuCrypt.Lib.SyncObjects

/-!
# Runs of the batchers

Jobs one after the other on the same batcher, and the calls on its fence and command buffers that
they make.
-/

namespace GpuCrypt

/-- A `Batcher` as its constructor leaves it, over memory that may hold anything. The cursor is a
static variable of `Batcher::submit`, so that it starts at 0 for the first batcher of the process
only. -/
def Batcher.create (inputRing outputRing : Compute.Memory) (params : Ubo)
    (pipelines : Algorithm → Bool) : Batcher where
  inputRing := inputRing
  outputRing := outputRing
  params := params.write 64 (sboxTable.map (fun b => b.setWidth 32))
  offset := 0
  pipelines := pipelines

/-- The arguments of one `Batcher::submit`, and what becomes of its Vulkan calls. -/
structure BatcherCall where
  vk : VkOutcome
  input : Buffer
  key : Vector Byte 32
  iv : Vector Byte 16
  alg : Algorithm

def Batcher.call (b : Batcher) (c : BatcherCall) : Batcher × Option (List Byte) :=
  b.submit c.vk c.input.bytes c.key c.iv c.alg

/-- What the calls return, and the batcher they leave. -/
def Batcher.run : Batcher → List BatcherCall → List (Option (List Byte)) × Batcher
  | b, [] => ([], b)
  | b, c :: cs => ((b.call c).2 :: ((b.call c).1.run cs).1, ((b.call c).1.run cs).2)

/-! ### Calls on the fence and the command buffers -/

/-- `createSyncObjects` of a `Batcher`: its fence is created without flags. -/
def Batcher.createSyncObjects : SyncObjects.State Algorithm where
  fence := .unsignaled
  buffers := fun _ => .recordable

/-- `createSyncObjects` of an `AES256Batcher`: its fence is created signaled. -/
def Aes256Batcher.createSyncObjects : SyncObjects.State Unit where
  fence := .signaled
  buffers := fun _ => .recordable

/-- The results of `vkResetCommandBuffer` and `vkResetFences` in one `submit`. The batchers look at
neither, and a `Batcher` makes the first call only. -/
structure ResetOutcome where
  buffer : Bool
  fence : Bool
deriving DecidableEq, Repr

/-- The submission of both batchers, and its completion if that comes before the wait returns. -/
def VkOutcome.syncCalls {ι : Type} (vk : VkOutcome) (i : ι) : List (SyncObjects.Call ι) :=
  .submit i vk.queueSubmit :: if vk.queueSubmit ∧ vk.completed then [.complete] else []

/-- The calls that `Batcher::submit` makes on its fence and on the command buffer of `alg`. -/
def Batcher.syncCalls (pipelines : Algorithm → Bool) (resets : ResetOutcome) (c : BatcherCall) :
    List (SyncObjects.Call Algorithm) :=
  if ringSize < c.input.bytes.length then []
  else if c.alg = .count ∨ pipelines c.alg = false then []
  else .resetBuffer c.alg resets.buffer :: c.vk.syncCalls c.alg

/-- The calls that `AES256Batcher::submit` makes on its fence and its command buffer. -/
def Aes256Batcher.syncCalls (resets : ResetOutcome) (vk : VkOutcome) (input : Buffer) :
    List (SyncObjects.Call Unit) :=
  if ringSize < input.bytes.length then []
  else .resetBuffer () resets.buffer :: .resetFence resets.fence :: vk.syncCalls ()

end GpuCrypt
