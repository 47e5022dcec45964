import GpuCrypt.Model.Vulkan

/-!
# aes256_ctr.comp

The AES-256 compute shader: every invocation builds the counter block of its index, encrypts it with
the round keys of the parameter block, and XORs the result with four words of the input.
-/

namespace GpuCrypt.Aes256Ctr

/-- `batchSize`, `numRounds`, `padding[2]`, `RoundKey[60]`, `IV[4]`, `SBox[256]`. -/
def layout : List ℕ := [1, 1, 2, 60, 4, 256]

def batchSize (params : Ubo) : Word := params (std430 layout 0)

def numRounds (params : Ubo) : Word := params (std430 layout 1)

def roundKey (params : Ubo) (i : Word) : Word := params (std430 layout 3 + i.toNat)

def iv (params : Ubo) (i : Word) : Word := params (std430 layout 4 + i.toNat)

def sBox (params : Ubo) (i : Word) : Word := params (std430 layout 5 + i.toNat)

def getB0 (x : Word) : Word := x &&& 0xFF

def getB1 (x : Word) : Word := (x >>> 8) &&& 0xFF

def getB2 (x : Word) : Word := (x >>> 16) &&& 0xFF

def getB3 (x : Word) : Word := (x >>> 24) &&& 0xFF

def subWord (params : Ubo) (w : Word) : Word :=
  sBox params (getB0 w) ||| (sBox params (getB1 w) <<< 8) ||| (sBox params (getB2 w) <<< 16) |||
    (sBox params (getB3 w) <<< 24)

def xtime (x : Word) : Word := ((x <<< 1) ^^^ (((x >>> 7) &&& 1) * 0x1b)) &&& 0xFF

def mixColumn (c : Word) : Word :=
  let b0 := getB0 c
  let b1 := getB1 c
  let b2 := getB2 c
  let b3 := getB3 c
  let d0 := xtime b0 ^^^ (xtime b1 ^^^ b1) ^^^ b2 ^^^ b3
  let d1 := b0 ^^^ xtime b1 ^^^ (xtime b2 ^^^ b2) ^^^ b3
  let d2 := b0 ^^^ b1 ^^^ xtime b2 ^^^ (xtime b3 ^^^ b3)
  let d3 := (xtime b0 ^^^ b0) ^^^ b1 ^^^ b2 ^^^ xtime b3
  d0 ||| (d1 <<< 8) ||| (d2 <<< 16) ||| (d3 <<< 24)

def bswap (x : Word) : Word :=
  (x >>> 24) ||| ((x &&& 0x00FF0000) >>> 8) ||| ((x &&& 0x0000FF00) <<< 8) ||| (x <<< 24)

/-- The variables `s0` to `s3`. -/
structure State where
  s0 : Word
  s1 : Word
  s2 : Word
  s3 : Word
deriving DecidableEq, Repr

def State.ofBlock (block : Vector Byte 16) : State :=
  { s0 := LittleEndian.wordAt block 0
    s1 := LittleEndian.wordAt block 1
    s2 := LittleEndian.wordAt block 2
    s3 := LittleEndian.wordAt block 3 }

def State.toBlock (s : State) : Vector Byte 16 :=
  Vector.ofFn (fun i : Fin 16 => LittleEndian.byte ([s.s0, s.s1, s.s2, s.s3].getD (i / 4) 0) (i % 4))

/-- The counter block: `IV` with `gID` added to its last word, big-endian, and the carry to the
word before. -/
def counterBlock (params : Ubo) (gID : Word) : State :=
  let b0 := iv params 0
  let b1 := iv params 1
  let b2 := iv params 2
  let b3 := iv params 3
  let oldBe := bswap b3
  let beB3 := oldBe + gID
  let b3 := bswap beB3
  if beB3 < oldBe then
    let beB2 := bswap b2
    let beB2 := beB2 + 1
    { s0 := b0, s1 := b1, s2 := bswap beB2, s3 := b3 }
  else { s0 := b0, s1 := b1, s2 := b2, s3 := b3 }

/-- One column of `c0` to `c3`, whose bytes come from four columns. -/
def column (t0 t1 t2 t3 : Word) : Word :=
  (t0 &&& 0xFF) ||| (t1 &&& 0xFF00) ||| (t2 &&& 0xFF0000) ||| (t3 &&& 0xFF000000)

/-- `t0` to `t3` and from them `c0` to `c3`. -/
def subShift (params : Ubo) (s : State) : State :=
  let t0 := subWord params s.s0
  let t1 := subWord params s.s1
  let t2 := subWord params s.s2
  let t3 := subWord params s.s3
  { s0 := column t0 t1 t2 t3
    s1 := column t1 t2 t3 t0
    s2 := column t2 t3 t0 t1
    s3 := column t3 t0 t1 t2 }

def addRoundKey (params : Ubo) (off : Word) (s : State) : State :=
  { s0 := s.s0 ^^^ roundKey params (off + 0)
    s1 := s.s1 ^^^ roundKey params (off + 1)
    s2 := s.s2 ^^^ roundKey params (off + 2)
    s3 := s.s3 ^^^ roundKey params (off + 3) }

def round (params : Ubo) (s : State) (r : Word) : State :=
  let c := subShift params s
  addRoundKey params (4 * r)
    { s0 := mixColumn c.s0, s1 := mixColumn c.s1, s2 := mixColumn c.s2, s3 := mixColumn c.s3 }

/-- The initial key, the loop `for (uint r = 1; r < nr; r++)` and the final round. -/
def encrypt (params : Ubo) (b : State) : State :=
  let s := addRoundKey params 0 b
  let nr := numRounds params
  let s := (List.range' 1 (nr.toNat - 1)).foldl
    (fun s r => round params s (BitVec.ofNat 32 r)) s
  addRoundKey params (nr * 4) (subShift params s)

def main (params : Ubo) (inputData : Word → Word) (gID : Word) : List (Word × Word) :=
  if batchSize params ≤ gID then []
  else
    let s := encrypt params (counterBlock params gID)
    [(gID * 4 + 0, s.s0 ^^^ inputData (gID * 4 + 0)),
      (gID * 4 + 1, s.s1 ^^^ inputData (gID * 4 + 1)),
      (gID * 4 + 2, s.s2 ^^^ inputData (gID * 4 + 2)),
      (gID * 4 + 3, s.s3 ^^^ inputData (gID * 4 + 3))]

/-- The elements that an invocation reads from the input buffer and writes to the output buffer. -/
def accesses (params : Ubo) (gID : Word) : List Word :=
  if batchSize params ≤ gID then [] else [gID * 4 + 0, gID * 4 + 1, gID * 4 + 2, gID * 4 + 3]

lemma map_fst_main (params : Ubo) (inputData : Word → Word) (gID : Word) :
    (main params inputData gID).map Prod.fst = accesses params gID := by
  unfold main accesses
  by_cases hactive : batchSize params ≤ gID
  · rw [if_pos hactive, if_pos hactive, List.map_nil]
  · rw [if_neg hactive, if_neg hactive]
    rfl

/-- An invocation reads nothing else. -/
lemma main_congr {params : Ubo} {inputData inputData' : Word → Word} {gID : Word}
    (h : ∀ i ∈ accesses params gID, inputData i = inputData' i) :
    main params inputData gID = main params inputData' gID := by
  unfold main
  unfold accesses at h
  by_cases hactive : batchSize params ≤ gID
  · rw [if_pos hactive, if_pos hactive]
  · rw [if_neg hactive] at h
    rw [if_neg hactive, if_neg hactive, h (gID * 4 + 0) (by simp), h (gID * 4 + 1) (by simp),
      h (gID * 4 + 2) (by simp), h (gID * 4 + 3) (by simp)]

end GpuCrypt.Aes256Ctr
