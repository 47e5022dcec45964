import GpuCrypt.Model.Aes256Shader
import GpuCrypt.Model.ChachaShader

/-!
# The batchers

`AES256Batcher::submit` and `Batcher::submit` copy a job to an input ring, fill the parameter block,
dispatch a shader and copy the output ring back. `vc6_submit_job` chooses between the two by the
`alg_id` of the job.
-/

namespace GpuCrypt

/-! ### AES-256 parameters -/

def sboxTable : List Byte :=
  [
    0x63, 0x7c, 0x77, 0x7b, 0xf2, 0x6b, 0x6f, 0xc5, 0x30, 0x01, 0x67, 0x2b,
    0xfe, 0xd7, 0xab, 0x76, 0xca, 0x82, 0xc9, 0x7d, 0xfa, 0x59, 0x47, 0xf0,
    0xad, 0xd4, 0xa2, 0xaf, 0x9c, 0xa4, 0x72, 0xc0, 0xb7, 0xfd, 0x93, 0x26,
    0x36, 0x3f, 0xf7, 0xcc, 0x34, 0xa5, 0xe5, 0xf1, 0x71, 0xd8, 0x31, 0x15,
    0x04, 0xc7, 0x23, 0xc3, 0x18, 0x96, 0x05, 0x9a, 0x07, 0x12, 0x80, 0xe2,
    0xeb, 0x27, 0xb2, 0x75, 0x09, 0x83, 0x2c, 0x1a, 0x1b, 0x6e, 0x5a, 0xa0,
    0x52, 0x3b, 0xd6, 0xb3, 0x29, 0xe3, 0x2f, 0x84, 0x53, 0xd1, 0x00, 0xed,
    0x20, 0xfc, 0xb1, 0x5b, 0x6a, 0xcb, 0xbe, 0x39, 0x4a, 0x4c, 0x58, 0xcf,
    0xd0, 0xef, 0xaa, 0xfb, 0x43, 0x4d, 0x33, 0x85, 0x45, 0xf9, 0x02, 0x7f,
    0x50, 0x3c, 0x9f, 0xa8, 0x51, 0xa3, 0x40, 0x8f, 0x92, 0x9d, 0x38, 0xf5,
    0xbc, 0xb6, 0xda, 0x21, 0x10, 0xff, 0xf3, 0xd2, 0xcd, 0x0c, 0x13, 0xec,
    0x5f, 0x97, 0x44, 0x17, 0xc4, 0xa7, 0x7e, 0x3d, 0x64, 0x5d, 0x19, 0x73,
    0x60, 0x81, 0x4f, 0xdc, 0x22, 0x2a, 0x90, 0x88, 0x46, 0xee, 0xb8, 0x14,
    0xde, 0x5e, 0x0b, 0xdb, 0xe0, 0x32, 0x3a, 0x0a, 0x49, 0x06, 0x24, 0x5c,
    0xc2, 0xd3, 0xac, 0x62, 0x91, 0x95, 0xe4, 0x79, 0xe7, 0xc8, 0x37, 0x6d,
    0x8d, 0xd5, 0x4e, 0xa9, 0x6c, 0x56, 0xf4, 0xea, 0x65, 0x7a, 0xae, 0x08,
    0xba, 0x78, 0x25, 0x2e, 0x1c, 0xa6, 0xb4, 0xc6, 0xe8, 0xdd, 0x74, 0x1f,
    0x4b, 0xbd, 0x8b, 0x8a, 0x70, 0x3e, 0xb5, 0x66, 0x48, 0x03, 0xf6, 0x0e,
    0x61, 0x35, 0x57, 0xb9, 0x86, 0xc1, 0x1d, 0x9e, 0xe1, 0xf8, 0x98, 0x11,
    0x69, 0xd9, 0x8e, 0x94, 0x9b, 0x1e, 0x87, 0xe9, 0xce, 0x55, 0x28, 0xdf,
    0x8c, 0xa1, 0x89, 0x0d, 0xbf, 0xe6, 0x42, 0x68, 0x41, 0x99, 0x2d, 0x0f,
    0xb0, 0x54, 0xbb, 0x16]

def sboxAt (x : Word) : Word := (sboxTable.getD x.toNat 0).setWidth 32

def rconTable : List Byte :=
  [0x01, 0x02, 0x04, 0x08, 0x10, 0x20, 0x40, 0x80, 0x1b, 0x36, 0x6c, 0xd8, 0xab, 0x4d, 0x9a]

def subTemp (temp : Word) : Word :=
  sboxAt (temp &&& 0xFF) ||| (sboxAt ((temp >>> 8) &&& 0xFF) <<< 8) |||
    (sboxAt ((temp >>> 16) &&& 0xFF) <<< 16) ||| (sboxAt ((temp >>> 24) &&& 0xFF) <<< 24)

/-- `temp` in the iteration `i` of the key expansion, from `w[i - 1]`. -/
def expansionTemp (i : ℕ) (temp : Word) : Word :=
  if i % 8 = 0 then
    let temp := (temp >>> 8) ||| (temp <<< 24)
    subTemp temp ^^^ (rconTable.getD (i / 8 - 1) 0).setWidth 32
  else if i % 8 = 4 then subTemp temp
  else temp

/-- The body of the key expansion loop. -/
def expansionStep (w : Vector Word 60) (i : ℕ) : Vector Word 60 :=
  w.setIfInBounds i
    ((w[i - 8]?).getD 0 ^^^ expansionTemp i ((w[i - 1]?).getD 0))

/-- The round keys: the words of the key and the loop from `i = 8` to `i = 59`. -/
def keyExpansion (key : Vector Byte 32) : Vector Word 60 :=
  (List.range' 8 52).foldl expansionStep
    (Vector.ofFn (fun i : Fin 60 => if i.val < 8 then LittleEndian.wordAt key i else 0))

def aes256Params (ubo : Ubo) (len : ℕ) (key : Vector Byte 32) (iv : Vector Byte 16) : Ubo :=
  let ubo := ubo.write 0 [BitVec.ofNat 32 ((len + 15) / 16)]
  let ubo := ubo.write 1 [14]
  let ubo := ubo.write 4 (keyExpansion key).toList
  let ubo := ubo.write 64 (wordsOf iv)
  ubo.write 68 (sboxTable.map (fun b => b.setWidth 32))

/-- The group count of a dispatch over blocks of `B` bytes, in 32-bit arithmetic. -/
def groupCount (B len : ℕ) : Word :=
  let blocks : Word := BitVec.ofNat 32 ((len + (B - 1)) / B)
  let groups := (blocks + 255) / 256
  if groups = 0 then 1 else groups

lemma ringSize_eq : ringSize = 67108864 := rfl

/-- The invocations of a dispatch cover the blocks, and their indices do not wrap. -/
lemma groupCount_cover {B len : ℕ} (hB : 0 < B) (hlen : len ≤ ringSize) :
    (len + (B - 1)) / B ≤ (groupCount B len).toNat * 256 ∧
      (groupCount B len).toNat * 256 ≤ 2 ^ 32 := by
  have hblocks : (len + (B - 1)) / B ≤ len := by
    have hle := Nat.le_mul_of_pos_right len hB
    apply Nat.le_of_lt_succ
    rw [Nat.div_lt_iff_lt_mul hB, Nat.succ_mul]
    omega
  rw [ringSize_eq] at hlen
  generalize hq : (len + (B - 1)) / B = q at hblocks ⊢
  have hgroups : ((BitVec.ofNat 32 q + 255 : Word) / 256).toNat = (q + 255) / 256 := by
    rw [BitVec.toNat_udiv, BitVec.toNat_add, BitVec.toNat_ofNat]
    change (q % 2 ^ 32 + 255) % 2 ^ 32 / 256 = _
    omega
  unfold groupCount
  simp only [hq]
  by_cases hzero : (BitVec.ofNat 32 q + 255 : Word) / 256 = 0
  · rw [hzero] at hgroups
    rw [if_pos hzero]
    change q ≤ 1 * 256 ∧ 1 * 256 ≤ 2 ^ 32
    have h0 : (0 : Word).toNat = 0 := rfl
    omega
  · rw [if_neg hzero, hgroups]
    omega

/-! ### AES256Batcher -/

/-- The mapped buffers of an `AES256Batcher`. -/
structure Aes256Batcher where
  inputRing : Compute.Memory
  outputRing : Compute.Memory
  params : Ubo

/-- The output ring after the AES-256 shader has run over buffers bound at offset `off`. -/
def runAes256 (inputRing outputRing : Compute.Memory) (params : Ubo) (off len : ℕ) :
    Compute.Memory :=
  Compute.dispatch 256 (groupCount 16 len).toNat outputRing off
    (Aes256Ctr.main params (Compute.uint inputRing off))

/-- `AES256Batcher::submit`; `none` is `false`, and `some out` is `true` with the bytes copied to
`out`. The result of the wait is not looked at. -/
def Aes256Batcher.submit (vk : VkOutcome) (b : Aes256Batcher) (input : List Byte)
    (key : Vector Byte 32) (iv : Vector Byte 16) : Aes256Batcher × Option (List Byte) :=
  if ringSize < input.length then (b, none)
  else
    let b : Aes256Batcher :=
      { b with
        inputRing := Compute.copyIn b.inputRing 0 input
        params := aes256Params b.params input.length key iv }
    if vk.queueSubmit then
      let b : Aes256Batcher :=
        { b with
          outputRing :=
            if vk.completed then runAes256 b.inputRing b.outputRing b.params 0 input.length
            else b.outputRing }
      (b, some (Compute.copyOut b.outputRing 0 input.length))
    else (b, none)

/-! ### Batcher -/

inductive Algorithm
  | aes256Ctr
  | chacha20
  | count
deriving DecidableEq, Repr

/-- A `Batcher`: its mapped buffers, the cursor in the rings, and which pipelines were created. -/
structure Batcher where
  inputRing : Compute.Memory
  outputRing : Compute.Memory
  params : Ubo
  offset : ℕ
  pipelines : Algorithm → Bool

/-- The parameter block of a ChaCha20 job: the counter comes first in the IV and last in the
block. -/
def chachaParams (ubo : Ubo) (len : ℕ) (key : Vector Byte 32) (iv : Vector Byte 16) : Ubo :=
  let ubo := ubo.write 0 [BitVec.ofNat 32 ((len + 63) / 64)]
  let ubo := ubo.write 4 (wordsOf key)
  let ubo := ubo.write 12 ((wordsOf iv).drop 1)
  ubo.write 15 ((wordsOf iv).take 1)

def runChacha20 (inputRing outputRing : Compute.Memory) (params : Ubo) (off len : ℕ) :
    Compute.Memory :=
  Compute.dispatch 256 (groupCount 64 len).toNat outputRing off
    (Chacha20.main params (Compute.uint inputRing off))

/-- The parameter block that `Batcher::submit` writes for an algorithm. -/
def Algorithm.params (alg : Algorithm) (ubo : Ubo) (len : ℕ) (key : Vector Byte 32)
    (iv : Vector Byte 16) : Ubo :=
  match alg with
  | .aes256Ctr => aes256Params ubo len key iv
  | .chacha20 => chachaParams ubo len key iv
  | .count => ubo

/-- The pipeline that `Batcher::submit` dispatches for an algorithm. -/
def Algorithm.run (alg : Algorithm) (inputRing outputRing : Compute.Memory) (params : Ubo)
    (off len : ℕ) : Compute.Memory :=
  match alg with
  | .aes256Ctr => runAes256 inputRing outputRing params off len
  | .chacha20 => runChacha20 inputRing outputRing params off len
  | .count => outputRing

def Batcher.submit (vk : VkOutcome) (b : Batcher) (input : List Byte) (key : Vector Byte 32)
    (iv : Vector Byte 16) (alg : Algorithm) : Batcher × Option (List Byte) :=
  if ringSize < input.length then (b, none)
  else if alg = .count ∨ b.pipelines alg = false then (b, none)
  else
    let off := if ringSize < b.offset + input.length then 0 else b.offset
    let b : Batcher :=
      { b with
        inputRing := Compute.copyIn b.inputRing off input
        params := alg.params b.params input.length key iv
        offset := off + input.length }
    if vk.queueSubmit then
      let b : Batcher :=
        { b with
          outputRing :=
            if vk.completed then alg.run b.inputRing b.outputRing b.params off input.length
            else b.outputRing }
      if vk.wait then (b, some (Compute.copyOut b.outputRing off input.length))
      else (b, none)
    else (b, none)

/-! ### vc6_submit_job -/

structure Vc6Backend where
  aes256 : Aes256Batcher
  chacha : Batcher

/-- The algorithm that `vc6_submit_job` runs for an `alg_id`. -/
def vc6Algorithm (algId : ℤ) : Option Algorithm :=
  if algId = 0 then some .aes256Ctr
  else if algId = 1 then some .chacha20
  else none

def vc6SubmitJob (vk : VkOutcome) (backend : Vc6Backend) (job : Job) :
    Vc6Backend × Option (List Byte) :=
  match vc6Algorithm job.algId with
  | some .aes256Ctr =>
    let r := backend.aes256.submit vk job.input job.key job.iv
    ({ backend with aes256 := r.1 }, r.2)
  | some .chacha20 =>
    let r := backend.chacha.submit vk job.input job.key job.iv .chacha20
    ({ backend with chacha := r.1 }, r.2)
  | _ => (backend, none)

lemma Aes256Batcher.length_submit {vk : VkOutcome} {b : Aes256Batcher} {input : List Byte}
    {key : Vector Byte 32} {iv : Vector Byte 16} {out : List Byte}
    (h : (b.submit vk input key iv).2 = some out) : out.length = input.length := by
  unfold Aes256Batcher.submit at h
  by_cases hring : ringSize < input.length
  · simp [hring] at h
  · cases hqueue : vk.queueSubmit with
    | false => simp [hring, hqueue] at h
    | true =>
      simp only [if_neg hring, hqueue, if_true, Option.some.injEq] at h
      rw [← h, Compute.length_copyOut]

lemma Batcher.length_submit {vk : VkOutcome} {b : Batcher} {input : List Byte}
    {key : Vector Byte 32} {iv : Vector Byte 16} {alg : Algorithm} {out : List Byte}
    (h : (b.submit vk input key iv alg).2 = some out) : out.length = input.length := by
  unfold Batcher.submit at h
  by_cases hring : ringSize < input.length
  · simp [hring] at h
  · by_cases hready : alg = .count ∨ b.pipelines alg = false
    · simp [hring, hready] at h
    · cases hqueue : vk.queueSubmit with
      | false => simp [hring, hready, hqueue] at h
      | true =>
        cases hwait : vk.wait with
        | false => simp [hring, hready, hqueue, hwait] at h
        | true =>
          simp only [if_neg hring, if_neg hready, hqueue, hwait, if_true, Option.some.injEq] at h
          rw [← h, Compute.length_copyOut]

/-- The backend of the provider, its Vulkan calls having the results `vk`. -/
def vc6Backend (vk : VkOutcome) : Backend Vc6Backend where
  submit := vc6SubmitJob vk
  length_out backend job backend' out h := by
    have hout : (vc6SubmitJob vk backend job).2 = some out := by rw [h]
    unfold vc6SubmitJob at hout
    split at hout
    · exact Aes256Batcher.length_submit hout
    · exact Batcher.length_submit hout
    · exact absurd hout (by simp)

end GpuCrypt
