import GpuCrypt.Model.Vulkan

/-!
# chacha20.comp

The ChaCha20 compute shader: every invocation computes the block of its index and XORs it with
sixteen words of the input. The 80 quarter rounds are written out in the shader, with the indices of
their words, and so they are here.
-/

namespace GpuCrypt.Chacha20

/-- `batchSize`, `padding[3]`, `key[8]`, `nonce[4]`. -/
def layout : List ℕ := [1, 3, 8, 4]

def batchSize (params : Ubo) : Word := params (std430 layout 0)

def key (params : Ubo) (i : ℕ) : Word := params (std430 layout 2 + i)

def nonce (params : Ubo) (i : ℕ) : Word := params (std430 layout 3 + i)

/-- `quarter_round`; the rotations are shifts. -/
def quarterRound (a b c d : Word) : Word × Word × Word × Word :=
  let a := a + b
  let d := d ^^^ a
  let d := (d <<< 16) ||| (d >>> 16)
  let c := c + d
  let b := b ^^^ c
  let b := (b <<< 12) ||| (b >>> 20)
  let a := a + b
  let d := d ^^^ a
  let d := (d <<< 8) ||| (d >>> 24)
  let c := c + d
  let b := b ^^^ c
  let b := (b <<< 7) ||| (b >>> 25)
  (a, b, c, d)

def quarterRoundAt (x : Vector Word 16) (q : Fin 16 × Fin 16 × Fin 16 × Fin 16) :
    Vector Word 16 :=
  let r := quarterRound x[q.1] x[q.2.1] x[q.2.2.1] x[q.2.2.2]
  (((x.set q.1 r.1).set q.2.1 r.2.1).set q.2.2.1 r.2.2.1).set q.2.2.2 r.2.2.2

/-- The quarter rounds in the order of the shader. -/
def quarterRounds : List (Fin 16 × Fin 16 × Fin 16 × Fin 16) :=
  [
    (0, 4, 8, 12), (1, 5, 9, 13), (2, 6, 10, 14), (3, 7, 11, 15),
    (0, 5, 10, 15), (1, 6, 11, 12), (2, 7, 8, 13), (3, 4, 9, 14),
    (0, 4, 8, 12), (1, 5, 9, 13), (2, 6, 10, 14), (3, 7, 11, 15),
    (0, 5, 10, 15), (1, 6, 11, 12), (2, 7, 8, 13), (3, 4, 9, 14),
    (0, 4, 8, 12), (1, 5, 9, 13), (2, 6, 10, 14), (3, 7, 11, 15),
    (0, 5, 10, 15), (1, 6, 11, 12), (2, 7, 8, 13), (3, 4, 9, 14),
    (0, 4, 8, 12), (1, 5, 9, 13), (2, 6, 10, 14), (3, 7, 11, 15),
    (0, 5, 10, 15), (1, 6, 11, 12), (2, 7, 8, 13), (3, 4, 9, 14),
    (0, 4, 8, 12), (1, 5, 9, 13), (2, 6, 10, 14), (3, 7, 11, 15),
    (0, 5, 10, 15), (1, 6, 11, 12), (2, 7, 8, 13), (3, 4, 9, 14),
    (0, 4, 8, 12), (1, 5, 9, 13), (2, 6, 10, 14), (3, 7, 11, 15),
    (0, 5, 10, 15), (1, 6, 11, 12), (2, 7, 8, 13), (3, 4, 9, 14),
    (0, 4, 8, 12), (1, 5, 9, 13), (2, 6, 10, 14), (3, 7, 11, 15),
    (0, 5, 10, 15), (1, 6, 11, 12), (2, 7, 8, 13), (3, 4, 9, 14),
    (0, 4, 8, 12), (1, 5, 9, 13), (2, 6, 10, 14), (3, 7, 11, 15),
    (0, 5, 10, 15), (1, 6, 11, 12), (2, 7, 8, 13), (3, 4, 9, 14),
    (0, 4, 8, 12), (1, 5, 9, 13), (2, 6, 10, 14), (3, 7, 11, 15),
    (0, 5, 10, 15), (1, 6, 11, 12), (2, 7, 8, 13), (3, 4, 9, 14),
    (0, 4, 8, 12), (1, 5, 9, 13), (2, 6, 10, 14), (3, 7, 11, 15),
    (0, 5, 10, 15), (1, 6, 11, 12), (2, 7, 8, 13), (3, 4, 9, 14)]

def initialState (params : Ubo) (gID : Word) : Vector Word 16 :=
  #v[0x61707865, 0x3320646e, 0x79622d32, 0x6b206574,
    key params 0, key params 1, key params 2, key params 3,
    key params 4, key params 5, key params 6, key params 7,
    nonce params 3 + gID, nonce params 0, nonce params 1, nonce params 2]

/-- The counter and the nonce of the block that an invocation encrypts, `state[12]` and
`state[13..15]`. -/
def blockId (params : Ubo) (gID : Word) : Word × Word × Word × Word :=
  let state := initialState params gID
  (state[12], state[13], state[14], state[15])

/-- The words `x` after the rounds and the addition of the state. -/
def blockWords (params : Ubo) (gID : Word) : Vector Word 16 :=
  let state := initialState params gID
  let x := quarterRounds.foldl quarterRoundAt state
  Vector.zipWith (· + ·) x state

def main (params : Ubo) (inputData : Word → Word) (gID : Word) : List (Word × Word) :=
  if batchSize params ≤ gID then []
  else
    let x := blockWords params gID
    let baseIdx := gID * 16
    (List.range 16).map (fun i =>
      (baseIdx + BitVec.ofNat 32 i, (x[i]?).getD 0 ^^^ inputData (baseIdx + BitVec.ofNat 32 i)))

/-- The elements that an invocation reads from the input buffer and writes to the output buffer. -/
def accesses (params : Ubo) (gID : Word) : List Word :=
  if batchSize params ≤ gID then []
  else (List.range 16).map (fun i => gID * 16 + BitVec.ofNat 32 i)

lemma map_fst_main (params : Ubo) (inputData : Word → Word) (gID : Word) :
    (main params inputData gID).map Prod.fst = accesses params gID := by
  unfold main accesses
  by_cases hactive : batchSize params ≤ gID
  · rw [if_pos hactive, if_pos hactive, List.map_nil]
  · rw [if_neg hactive, if_neg hactive, List.map_map]
    rfl

/-- An invocation reads nothing else. -/
lemma main_congr {params : Ubo} {inputData inputData' : Word → Word} {gID : Word}
    (h : ∀ i ∈ accesses params gID, inputData i = inputData' i) :
    main params inputData gID = main params inputData' gID := by
  unfold main
  unfold accesses at h
  by_cases hactive : batchSize params ≤ gID
  · rw [if_pos hactive, if_pos hactive]
  · rw [if_neg hactive] at h
    rw [if_neg hactive, if_neg hactive]
    apply List.map_congr_left
    intro i hi
    rw [h _ (List.mem_map_of_mem hi)]

end GpuCrypt.Chacha20
