import GpuCrypt.Model.Backend
import GpuCrypt.Lib.Compute
import Mathlib.Data.List.GetD

/-!
# Buffers and results of a submission

What the batchers share: the parameter block, written by the host as `ubo[...]` and read by the
shaders through a `std430` struct of `uint` arrays, and the results of the Vulkan calls that decide
about a job.
-/

namespace GpuCrypt

def ringSize : ℕ := 1024 * 1024 * 64

abbrev Ubo := ℕ → Word

/-- `memcpy(ubo + off, ws, 4 * length ws)`. -/
def Ubo.write (ubo : Ubo) (off : ℕ) (ws : List Word) : Ubo :=
  fun i => if off ≤ i ∧ i < off + ws.length then ws.getD (i - off) 0 else ubo i

/-- The word offset of a field in a `std430` block whose fields are `uint`s and arrays of them, with
the given numbers of elements: no padding is inserted. -/
def std430 (fields : List ℕ) (k : ℕ) : ℕ := (fields.take k).sum

/-- The words of an array of bytes, on a little-endian host. -/
def wordsOf {n : ℕ} (v : Vector Byte n) : List Word :=
  (List.range (n / 4)).map (LittleEndian.wordAt v)

/-- The results of the Vulkan calls of one submission: whether `vkQueueSubmit` and the wait for the
job returned `VK_SUCCESS`, and whether the job had completed when the wait returned. A job that had
not never runs, and the other calls of a `submit`, whose results are dropped, always succeed.

The wait that says something is the `vkQueueWaitIdle` of a `Batcher`. An `AES256Batcher` drops the
result of its `vkWaitForFences` too, which may come back early on a fence that was not reset; there
`wait` is not read, and `completed` may be anything. -/
structure VkOutcome where
  queueSubmit : Bool
  wait : Bool
  completed : Bool
  completed_of_wait : queueSubmit = true → wait = true → completed = true

def VkOutcome.success : VkOutcome where
  queueSubmit := true
  wait := true
  completed := true
  completed_of_wait _ _ := rfl

lemma Ubo.write_of_mem (ubo : Ubo) (off : ℕ) {ws : List Word} {i : ℕ} (hi : i < ws.length) :
    ubo.write off ws (off + i) = ws[i] := by
  unfold Ubo.write
  rw [if_pos ⟨by omega, by omega⟩, Nat.add_sub_cancel_left, List.getD_eq_getElem _ _ hi]

lemma Ubo.write_of_not_mem (ubo : Ubo) (off : ℕ) {ws : List Word} {i : ℕ}
    (hi : i < off ∨ off + ws.length ≤ i) : ubo.write off ws i = ubo i := by
  unfold Ubo.write
  rw [if_neg (by omega)]

lemma Ubo.write_single (ubo : Ubo) (off : ℕ) (w : Word) : ubo.write off [w] off = w :=
  @Ubo.write_of_mem ubo off [w] 0 Nat.one_pos

end GpuCrypt
