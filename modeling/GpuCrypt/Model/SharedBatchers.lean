import GpuCrypt.Lib.SharedQueue
import GpuCrypt.Model.Batchers

/-!
# Batchers shared by threads

Neither `submit` takes a lock; `Batcher` has a `queueMutex` that nothing locks. The contexts of
several threads share the batchers of the one `inner_backend`, so that the steps of their submits
interleave. A step here is one pass over the shared memory: write the input ring, write the
parameter block, dispatch, read the output ring. Both batchers submit to the one `VkQueue` that the
`VulkanContext` has got, which Vulkan leaves to the application to synchronize.
-/

namespace GpuCrypt

open SharedDevice

/-- A job that passes the length check of `AES256Batcher::submit`. -/
structure Aes256Job where
  input : List Byte
  key : Vector Byte 32
  iv : Vector Byte 16
  fits : input.length ≤ ringSize

/-- `AES256Batcher::submit` in steps; every window starts at offset 0. -/
def aes256Device : Device Aes256Batcher Aes256Job (List Byte) where
  load b job := ({ b with inputRing := Compute.copyIn b.inputRing 0 job.input }, 0)
  configure b job _ := { b with params := aes256Params b.params job.input.length job.key job.iv }
  run b job :=
    { b with
      outputRing := runAes256 b.inputRing b.outputRing b.params 0 job.input.length }
  fetch b job _ := Compute.copyOut b.outputRing 0 job.input.length
  inputSpan job := job.input.length
  outputSpan job := 16 * ((job.input.length + 15) / 16)

/-- A job that passes the checks of `Batcher::submit` when the pipelines exist. -/
structure BatcherJob where
  input : List Byte
  key : Vector Byte 32
  iv : Vector Byte 16
  alg : Algorithm
  fits : input.length ≤ ringSize
  ne_count : alg ≠ .count

/-- A `Batcher` with the offset that its descriptor set binds the rings at. -/
structure BoundBatcher extends Batcher where
  descriptorOffset : ℕ

/-- The bytes of a block of the algorithm. -/
def Algorithm.blockBytes : Algorithm → ℕ
  | .aes256Ctr => 16
  | .chacha20 => 64
  | .count => 0

/-- `Batcher::submit` in steps. The cursor is read before the input is written and advanced after
the parameters are; `currentInfoOffset`, the window, is a local variable. -/
def batcherDevice : Device BoundBatcher BatcherJob (List Byte) where
  load b job :=
    let off := if ringSize < b.offset + job.input.length then 0 else b.offset
    ({ b with inputRing := Compute.copyIn b.inputRing off job.input, offset := off }, off)
  configure b job off :=
    { b with
      params := job.alg.params b.params job.input.length job.key job.iv
      descriptorOffset := off
      offset := b.offset + job.input.length }
  run b job :=
    { b with
      outputRing :=
        job.alg.run b.inputRing b.outputRing b.params b.descriptorOffset job.input.length }
  fetch b job off := Compute.copyOut b.outputRing off job.input.length
  inputSpan job := job.input.length
  outputSpan job :=
    job.alg.blockBytes * ((job.input.length + (job.alg.blockBytes - 1)) / job.alg.blockBytes)

end GpuCrypt
