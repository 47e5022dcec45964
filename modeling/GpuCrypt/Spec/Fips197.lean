import GpuCrypt.Lib.Gf256

/-!
# FIPS 197

The AES block cipher as the standard states it, on a state of four columns of four bytes. A word
is a column of the state or of the key schedule; the key has `nk` words and the cipher `nr`
rounds.
-/

namespace Fips197

abbrev Word4 := Vector (BitVec 8) 4

/-- The columns of the state: the standard's `s[r, c]` is `s[c][r]`. -/
abbrev State := Vector Word4 4

/-- The inverse in GF(2^8), then the affine map. -/
def sbox (a : BitVec 8) : BitVec 8 :=
  let b := Gf256.inv a
  b ^^^ b.rotateLeft 1 ^^^ b.rotateLeft 2 ^^^ b.rotateLeft 3 ^^^ b.rotateLeft 4 ^^^ 0x63#8

def xorWord (v w : Word4) : Word4 := Vector.zipWith (· ^^^ ·) v w

/-! ### The key schedule -/

def subWord (w : Word4) : Word4 := w.map sbox

def rotWord (w : Word4) : Word4 := #v[w[1], w[2], w[3], w[0]]

def rcon (i : ℕ) : Word4 := #v[Gf256.xPow (i - 1), 0, 0, 0]

/-- What is added to word `i - nk` for word `i`, from word `i - 1`. -/
def scheduleTemp (nk i : ℕ) (w : Word4) : Word4 :=
  if i % nk = 0 then xorWord (subWord (rotWord w)) (rcon (i / nk))
  else if 6 < nk ∧ i % nk = 4 then subWord w
  else w

def expandStep (nk : ℕ) (w : List Word4) (i : ℕ) : List Word4 :=
  w ++ [xorWord (w.getD (i - nk) (Vector.replicate 4 0))
    (scheduleTemp nk i (w.getD (i - 1) (Vector.replicate 4 0)))]

def keyExpansion (nk nr : ℕ) (key : List Word4) : List Word4 :=
  (List.range' nk (4 * (nr + 1) - nk)).foldl (expandStep nk) key

/-! ### The rounds -/

def subBytes (s : State) : State := s.map (Vector.map sbox)

/-- Row `r` moves by `r` columns. -/
def shiftRows (s : State) : State :=
  Vector.ofFn (fun c : Fin 4 => Vector.ofFn (fun r : Fin 4 => s[c + r][r]))

def mixColumn (a : Word4) : Word4 :=
  Vector.ofFn (fun r : Fin 4 =>
    Gf256.mul 2 a[r] ^^^ Gf256.mul 3 a[r + 1] ^^^ a[r + 2] ^^^ a[r + 3])

def mixColumns (s : State) : State := s.map mixColumn

/-- The state with the words `w[4i..4i+4)` added. -/
def addRoundKey (w : List Word4) (i : ℕ) (s : State) : State :=
  s.mapIdx (fun c v => xorWord v (w.getD (4 * i + c) (Vector.replicate 4 0)))

def cipher (nr : ℕ) (w : List Word4) (s : State) : State :=
  let s := addRoundKey w 0 s
  let s := (List.range' 1 (nr - 1)).foldl
    (fun s i => addRoundKey w i (mixColumns (shiftRows (subBytes s)))) s
  addRoundKey w nr (shiftRows (subBytes s))

/-! ### Blocks and keys as bytes -/

def wordAt {n : ℕ} (v : Vector (BitVec 8) n) (i : ℕ) : Word4 :=
  Vector.ofFn (fun r : Fin 4 => (v[4 * i + r.val]?).getD 0)

def toState (block : Vector (BitVec 8) 16) : State := Vector.ofFn (fun c : Fin 4 => wordAt block c)

def ofState (s : State) : Vector (BitVec 8) 16 :=
  Vector.ofFn (fun i : Fin 16 => s[Fin.ofNat 4 (i / 4)][Fin.ofNat 4 i])

/-- AES with a key of `nk` words and `nr` rounds. -/
def aes (nk nr : ℕ) {n : ℕ} (key : Vector (BitVec 8) n) (block : Vector (BitVec 8) 16) :
    Vector (BitVec 8) 16 :=
  ofState (cipher nr (keyExpansion nk nr ((List.range nk).map (wordAt key))) (toState block))

def aes128 (key : Vector (BitVec 8) 16) : Vector (BitVec 8) 16 → Vector (BitVec 8) 16 :=
  aes 4 10 key

def aes256 (key : Vector (BitVec 8) 32) : Vector (BitVec 8) 16 → Vector (BitVec 8) 16 :=
  aes 8 14 key

/-! ### The steps on columns written out -/

lemma xorWord_mk (a0 a1 a2 a3 b0 b1 b2 b3 : BitVec 8) :
    xorWord #v[a0, a1, a2, a3] #v[b0, b1, b2, b3] =
      #v[a0 ^^^ b0, a1 ^^^ b1, a2 ^^^ b2, a3 ^^^ b3] := by
  unfold xorWord
  simp

lemma subWord_mk (a0 a1 a2 a3 : BitVec 8) :
    subWord #v[a0, a1, a2, a3] =
      #v[sbox a0, sbox a1, sbox a2, sbox a3] := by
  unfold subWord
  simp

lemma rotWord_mk (a0 a1 a2 a3 : BitVec 8) :
    rotWord #v[a0, a1, a2, a3] = #v[a1, a2, a3, a0] := rfl

lemma mixColumn_mk (a0 a1 a2 a3 : BitVec 8) :
    mixColumn #v[a0, a1, a2, a3] =
      #v[Gf256.mul 2 a0 ^^^ Gf256.mul 3 a1 ^^^ a2 ^^^ a3,
        Gf256.mul 2 a1 ^^^ Gf256.mul 3 a2 ^^^ a3 ^^^ a0,
        Gf256.mul 2 a2 ^^^ Gf256.mul 3 a3 ^^^ a0 ^^^ a1,
        Gf256.mul 2 a3 ^^^ Gf256.mul 3 a0 ^^^ a1 ^^^ a2] := by
  unfold mixColumn
  apply Vector.ext
  intro i hi
  interval_cases i <;> simp [Fin.add_def]

lemma shiftRows_mk (s t u v : Word4) :
    shiftRows #v[s, t, u, v] =
      #v[#v[s[0], t[1], u[2], v[3]], #v[t[0], u[1], v[2], s[3]],
        #v[u[0], v[1], s[2], t[3]], #v[v[0], s[1], t[2], u[3]]] := by
  unfold shiftRows
  apply Vector.ext
  intro i hi
  apply Vector.ext
  intro j hj
  interval_cases i <;> interval_cases j <;> simp [Fin.add_def]

lemma addRoundKey_mk (w : List Word4) (i : ℕ) (a b c d : Word4) :
    addRoundKey w i #v[a, b, c, d] =
      #v[xorWord a (w.getD (4 * i) (Vector.replicate 4 0)),
        xorWord b (w.getD (4 * i + 1) (Vector.replicate 4 0)),
        xorWord c (w.getD (4 * i + 2) (Vector.replicate 4 0)),
        xorWord d (w.getD (4 * i + 3) (Vector.replicate 4 0))] := by
  unfold addRoundKey
  simp

lemma subBytes_mk (a b c d : Word4) :
    subBytes #v[a, b, c, d] = #v[subWord a, subWord b, subWord c, subWord d] := by
  unfold subBytes subWord
  simp

lemma mixColumns_mk (a b c d : Word4) :
    mixColumns #v[a, b, c, d] = #v[mixColumn a, mixColumn b, mixColumn c, mixColumn d] := by
  unfold mixColumns
  simp

/-! ### Distinct blocks have distinct ciphertexts -/

open Function

/-- The affine map undone, then the inverse in GF(2^8). -/
def invSbox (b : BitVec 8) : BitVec 8 :=
  Gf256.inv (b.rotateLeft 1 ^^^ b.rotateLeft 3 ^^^ b.rotateLeft 6 ^^^ 0x05#8)

lemma sbox_injective : Injective sbox := by
  have hinv : LeftInverse invSbox sbox := by
    intro a
    have h := Gf256.forall_byte (p := fun a => invSbox (sbox a) == a) (by decide +kernel) a
    exact beq_iff_eq.mp h
  exact hinv.injective

lemma map_injective {α β : Type*} {n : ℕ} {f : α → β} (hf : Injective f) :
    Injective (Vector.map f : Vector α n → Vector β n) := by
  intro v w h
  apply Vector.ext
  intro i hi
  have hi := congrArg (fun u => u[i]) h
  simp only [Vector.getElem_map] at hi
  exact hf hi

lemma subBytes_injective : Injective subBytes := map_injective (map_injective sbox_injective)

lemma shiftRows_injective : Injective shiftRows := by
  intro s t h
  apply Vector.ext
  intro c hc
  apply Vector.ext
  intro r hr
  -- byte `r` of column `c` is moved to column `c - r`
  have hmoved := congrArg (fun u => u[(⟨c, hc⟩ - ⟨r, hr⟩ : Fin 4)][r]) h
  simpa [shiftRows] using hmoved

lemma getElem_mixColumn (a : Word4) (r : Fin 4) :
    (mixColumn a)[r] =
      Gf256.mul 2 a[r] ^^^ (Gf256.mul 2 a[r + 1] ^^^ a[r + 1]) ^^^ a[r + 2] ^^^ a[r + 3] := by
  simp only [mixColumn, Gf256.mul_three, Fin.getElem_fin, Vector.getElem_ofFn]

lemma mixColumn_injective : Injective mixColumn := by
  have hrows : ∀ r : Fin 4, r + 1 + 1 = r + 2 ∧ r + 1 + 2 = r + 3 ∧ r + 1 + 3 = r ∧
      r + 2 + 1 = r + 3 ∧ r + 2 + 2 = r ∧ r + 2 + 3 = r + 1 ∧
      r + 3 + 1 = r ∧ r + 3 + 2 = r + 1 ∧ r + 3 + 3 = r + 2 := by decide
  -- the bytes of a column, from the row they are on
  have hunmix : ∀ (a : Word4) (r : Fin 4), a[r] =
      let b := mixColumn a
      b[r] ^^^ (b[r] ^^^ b[r + 1] ^^^ b[r + 2] ^^^ b[r + 3]) ^^^
        Gf256.mul 2 (b[r] ^^^ b[r + 1] ^^^
          Gf256.mul 2 (b[r] ^^^ b[r + 2] ^^^
            Gf256.mul 2 (b[r] ^^^ b[r + 1] ^^^ b[r + 2] ^^^ b[r + 3]))) := by
    intro a r
    have h1 := getElem_mixColumn a (r + 1)
    have h2 := getElem_mixColumn a (r + 2)
    have h3 := getElem_mixColumn a (r + 3)
    obtain ⟨h11, h12, h13, h21, h22, h23, h31, h32, h33⟩ := hrows r
    simp only [h11, h12, h13, h21, h22, h23, h31, h32, h33] at h1 h2 h3
    exact Gf256.unmix_row Gf256.mul_two_xor (getElem_mixColumn a r) h1 h2 h3
  intro a b h
  apply Vector.ext
  intro r hr
  have ha := hunmix a ⟨r, hr⟩
  rw [h, ← hunmix b ⟨r, hr⟩] at ha
  exact ha

lemma mixColumns_injective : Injective mixColumns := map_injective mixColumn_injective

lemma addRoundKey_injective (w : List Word4) (i : ℕ) : Injective (addRoundKey w i) := by
  intro s t h
  apply Vector.ext
  intro c hc
  apply Vector.ext
  intro r hr
  have hbyte := congrArg (fun u => u[c][r]) h
  simp only [addRoundKey, xorWord, Vector.getElem_mapIdx, Vector.getElem_zipWith] at hbyte
  exact (BitVec.xor_left_inj _).mp hbyte

lemma foldl_injective {α β : Type*} {f : α → β → α} (hf : ∀ i, Injective (f · i)) (l : List β) :
    Injective (l.foldl f) := by
  induction l with
  | nil => exact fun _ _ h => h
  | cons i l ih => exact ih.comp (hf i)

lemma cipher_injective (nr : ℕ) (w : List Word4) : Injective (cipher nr w) := by
  have hlast : Injective (fun s => shiftRows (subBytes s)) :=
    shiftRows_injective.comp subBytes_injective
  have hround : ∀ i, Injective (fun s => addRoundKey w i (mixColumns (shiftRows (subBytes s)))) :=
    fun i => (addRoundKey_injective w i).comp (mixColumns_injective.comp hlast)
  exact (addRoundKey_injective w nr).comp
    (hlast.comp ((foldl_injective hround _).comp (addRoundKey_injective w 0)))

lemma toState_injective : Injective toState := by
  intro v w h
  apply Vector.ext
  intro i hi
  have hbyte := congrArg (fun s => s[i / 4][i % 4]) h
  simp only [toState, wordAt, Vector.getElem_ofFn, Nat.div_add_mod, Vector.getElem?_eq_getElem hi,
    Option.getD_some] at hbyte
  exact hbyte

lemma ofState_injective : Injective ofState := by
  intro s t h
  apply Vector.ext
  intro c hc
  apply Vector.ext
  intro r hr
  have hbyte := congrArg (fun v => v[4 * c + r]) h
  have hdiv : (4 * c + r) / 4 % 4 = c := by omega
  have hmod : (4 * c + r) % 4 = r := by omega
  simpa [ofState, hdiv, hmod] using hbyte

theorem aes_injective (nk nr : ℕ) {n : ℕ} (key : Vector (BitVec 8) n) : Injective (aes nk nr key) :=
  ofState_injective.comp ((cipher_injective nr _).comp toState_injective)

end Fips197
