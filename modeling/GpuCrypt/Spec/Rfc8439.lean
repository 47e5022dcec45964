import GpuCrypt.Lib.LittleEndian
import GpuCrypt.Lib.Keystream

/-!
# RFC 8439

The ChaCha20 block function as the RFC states it: ten times a column round and a diagonal round
on a state of sixteen words, added to the initial state and serialised little-endian.
-/

namespace Rfc8439

abbrev State := Vector (BitVec 32) 16

def quarterRound (a b c d : BitVec 32) : BitVec 32 × BitVec 32 × BitVec 32 × BitVec 32 :=
  let a := a + b
  let d := (d ^^^ a).rotateLeft 16
  let c := c + d
  let b := (b ^^^ c).rotateLeft 12
  let a := a + b
  let d := (d ^^^ a).rotateLeft 8
  let c := c + d
  let b := (b ^^^ c).rotateLeft 7
  (a, b, c, d)

def qround (s : State) (x y z w : Fin 16) : State :=
  let q := quarterRound s[x] s[y] s[z] s[w]
  (((s.set x q.1).set y q.2.1).set z q.2.2.1).set w q.2.2.2

/-- The column round and the diagonal round. -/
def innerBlock (s : State) : State :=
  let s := qround s 0 4 8 12
  let s := qround s 1 5 9 13
  let s := qround s 2 6 10 14
  let s := qround s 3 7 11 15
  let s := qround s 0 5 10 15
  let s := qround s 1 6 11 12
  let s := qround s 2 7 8 13
  qround s 3 4 9 14

def initialState (key : Vector (BitVec 8) 32) (counter : BitVec 32)
    (nonce : Vector (BitVec 8) 12) : State :=
  Vector.ofFn (fun i : Fin 16 =>
    if i.val < 4 then [0x61707865#32, 0x3320646e, 0x79622d32, 0x6b206574].getD i.val 0
    else if i.val < 12 then LittleEndian.wordAt key (i.val - 4)
    else if i.val = 12 then counter
    else LittleEndian.wordAt nonce (i.val - 13))

lemma initialState_mk (key : Vector (BitVec 8) 32) (counter : BitVec 32)
    (nonce : Vector (BitVec 8) 12) :
    initialState key counter nonce =
      #v[0x61707865, 0x3320646e, 0x79622d32, 0x6b206574,
        LittleEndian.wordAt key 0, LittleEndian.wordAt key 1, LittleEndian.wordAt key 2,
        LittleEndian.wordAt key 3, LittleEndian.wordAt key 4, LittleEndian.wordAt key 5,
        LittleEndian.wordAt key 6, LittleEndian.wordAt key 7,
        counter, LittleEndian.wordAt nonce 0, LittleEndian.wordAt nonce 1,
        LittleEndian.wordAt nonce 2] := by
  unfold initialState
  apply Vector.ext
  intro i hi
  rw [Vector.getElem_ofFn]
  interval_cases i <;> rfl

/-- The bytes of a state, every word least significant byte first. -/
def serialize (s : State) : Vector (BitVec 8) 64 :=
  Vector.ofFn (fun i : Fin 64 => LittleEndian.byte ((s[i.val / 4]?).getD 0) (i.val % 4))

def block (key : Vector (BitVec 8) 32) (counter : BitVec 32) (nonce : Vector (BitVec 8) 12) :
    Vector (BitVec 8) 64 :=
  let state := initialState key counter nonce
  serialize (Vector.zipWith (· + ·) (innerBlock^[10] state) state)

end Rfc8439
