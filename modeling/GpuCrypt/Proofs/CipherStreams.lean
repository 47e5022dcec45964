import GpuCrypt.Proofs.StreamLaw
import GpuCrypt.Proofs.Counter
import GpuCrypt.Spec.Fips197
import GpuCrypt.Spec.Rfc8439

/-!
# The stream laws of the vc6 ciphers

Both ciphers over a backend that encrypts every job as it should, for an arbitrary block function.
What is left after the law of the buffering code is that each cipher's counter moves along the
stream as the jobs assume.
-/

namespace GpuCrypt

open BlockBuffer Keystream

variable {σ : Type}

/-! ### AES -/

/-- The keystream blocks of counter mode, the counter being a big-endian 128-bit integer. -/
def ctrBlocks (E : Vector Byte 16 → Vector Byte 16) (iv : Vector Byte 16) (j : ℕ) :
    Vector Byte 16 :=
  E (BigEndian.add iv j)

/-- Every job of whole 16-byte blocks is encrypted in counter mode, by the block function that
`E` gives for its key and `alg_id`. -/
def Backend.IdealAes (be : Backend σ)
    (E : Vector Byte 32 → ℤ → Vector Byte 16 → Vector Byte 16) : Prop :=
  ∀ s job n, job.input.length = 16 * n → ∃ s', be.submit s job =
    (s', some (xorFrom (ofBlocks (ctrBlocks (E job.key job.algId) job.iv)) 0 job.input))

lemma vc6AesAlg_advance (keyLen : ℕ) (iv : Vector Byte 16) {n : ℕ} (hn : n < 2 ^ 64) :
    (vc6AesAlg keyLen).advance iv n = BigEndian.add iv n := by
  simp only [vc6AesAlg]
  rw [inc128Counter_eq_add, BitVec.toNat_ofNat, Nat.mod_eq_of_lt hn]

lemma Backend.IdealAes.serves {be : Backend σ}
    {E : Vector Byte 32 → ℤ → Vector Byte 16 → Vector Byte 16} (hbe : be.IdealAes E)
    (keyLen : ℕ) (key : Vector Byte 32) (iv : Vector Byte 16) :
    Serves be (vc6AesAlg keyLen) key (BigEndian.add iv)
      (ctrBlocks (E key (vc6AesAlg keyLen).algId) iv) := by
  constructor
  · intro q n hn
    rw [vc6AesAlg_advance keyLen _ hn, BigEndian.add_add]
  · intro s q n input hlen
    obtain ⟨s', hsub⟩ := hbe s ⟨input, key, BigEndian.add iv q, (vc6AesAlg keyLen).algId⟩ n hlen
    have hshift : ctrBlocks (E key (vc6AesAlg keyLen).algId) (BigEndian.add iv q) =
        fun j => ctrBlocks (E key (vc6AesAlg keyLen).algId) iv (q + j) := by
      funext j
      rw [ctrBlocks, ctrBlocks, BigEndian.add_add]
    refine ⟨s', ?_⟩
    rw [hsub, hshift, xorFrom_shift (ctrBlocks (E key (vc6AesAlg keyLen).algId) iv)]

lemma vc6AesInit_eq (ctx : Vc6AesCtx) {key : List Byte} (iv : Vector Byte 16)
    (hkey : key.length = 16 ∨ key.length = 32) :
    vc6AesInit ctx (some key) (some iv.toList) =
      (true, { ctx with
        key := overlay ctx.key key
        iv := iv
        setKey := true
        setIv := true
        partialLen := 0
        keyLen := key.length }) := by
  have hlen : ¬(key.length ≠ 16 ∧ key.length ≠ 32) := by omega
  simp only [vc6AesInit, if_neg hlen, overlay_toList]

/-- The AES stream law: over a backend that runs counter mode, an init, updates and a final all
return 1 and encrypt the concatenated input, however it is cut into chunks. -/
theorem vc6Aes_stream_law (be : Backend σ)
    (E : Vector Byte 32 → ℤ → Vector Byte 16 → Vector Byte 16) (hbe : be.IdealAes E) (s : σ)
    (ctx : Vc6AesCtx) (key : List Byte) (iv : Vector Byte 16)
    (hkey : key.length = 16 ∨ key.length = 32) (chunks : List Buffer) (outsize : ℕ) :
    let x := vc6AesSession be (some s) ctx key iv.toList chunks outsize
    x.updates.ctx.partialLen ≤ outsize →
      x.init = true ∧ (∀ r ∈ x.calls, r.ret = true ∧ r.outl = some r.out.length) ∧
        x.output = xorFrom
          (ofBlocks (ctrBlocks (E (overlay ctx.key key) (vc6AesAlg key.length).algId) iv)) 0
          (chunks.flatMap Buffer.bytes) := by
  have hserves := hbe.serves key.length (overlay ctx.key key) iv
  simp only [vc6AesSession, vc6AesInit_eq ctx iv hkey, session_vc6AesCall, Session.calls_mapCtx,
    Session.output_mapCtx]
  intro hsize
  obtain ⟨hall, hout⟩ := stream_law hserves chunks s true ⟨rfl, (BigEndian.add_zero iv).symm,
    by norm_num⟩ rfl outsize hsize
  refine ⟨rfl, ?_, hout⟩
  intro r hr
  obtain ⟨r', hr', rfl⟩ := List.mem_map.mp hr
  exact ⟨(hall r' hr').1, (hall r' hr').2.1⟩

def Backend.idealAes (E : Vector Byte 32 → ℤ → Vector Byte 16 → Vector Byte 16) :
    Backend Unit where
  submit _ job :=
    ((), some (xorFrom (ofBlocks (ctrBlocks (E job.key job.algId) job.iv)) 0 job.input))
  length_out s job s' out h := by
    rw [← Option.some.inj (Prod.mk.inj h).2, length_combine]

/-- AES-128 under the first half of the key for `alg_id` 0, AES-256 otherwise. -/
def aesByAlgId (key : Vector Byte 32) (algId : ℤ) : Vector Byte 16 → Vector Byte 16 :=
  if algId = 0 then Fips197.aes128 (Vector.ofFn (fun i : Fin 16 => key[i.val]))
  else Fips197.aes256 key

theorem vc6Aes_stream_law_aes256 :
    (vc6AesSession (Backend.idealAes aesByAlgId) (some ()) Vc6AesCtx.zalloc
        (List.replicate 32 7) (Vector.replicate 16 0xFF).toList
        [⟨[1, 2, 3], by decide⟩, ⟨[], by decide⟩, ⟨List.replicate 20 5, by decide⟩] 16).output =
      xorFrom (ofBlocks (ctrBlocks (Fips197.aes256 (Vector.replicate 32 7))
        (Vector.replicate 16 0xFF))) 0 ([1, 2, 3] ++ List.replicate 20 5) :=
  (vc6Aes_stream_law (Backend.idealAes aesByAlgId) aesByAlgId (fun _ _ _ _ => ⟨(), rfl⟩) ()
    Vc6AesCtx.zalloc (List.replicate 32 7) (Vector.replicate 16 0xFF) (.inr rfl)
    [⟨[1, 2, 3], by decide⟩, ⟨[], by decide⟩, ⟨List.replicate 20 5, by decide⟩] 16
    (by decide)).2.2

/-! ### ChaCha20 -/

/-- Every ChaCha20 job of whole 64-byte blocks is XORed with the blocks of `K` from the job's
counter on, the counter being a 32-bit word. -/
def Backend.IdealChacha20 (be : Backend σ)
    (K : Vector Byte 32 → Vector Byte 12 → Word → Vector Byte 64) : Prop :=
  ∀ s job n, job.algId = 2 → job.input.length = 64 * n → ∃ s', be.submit s job =
    (s', some (xorFrom (ofBlocks (fun j =>
      K job.key (chachaNonce job.iv) (chachaCounter job.iv + BitVec.ofNat 32 j))) 0 job.input))

lemma getElem_setChachaCounter (iv : Vector Byte 16) (c : Word) (i : ℕ) (hi : i < 16) :
    (setChachaCounter iv c)[i] = if i < 4 then LittleEndian.byte c i else iv[i] := by
  simp [setChachaCounter]

@[simp] lemma chachaCounter_set (iv : Vector Byte 16) (c : Word) :
    chachaCounter (setChachaCounter iv c) = c := by
  simp only [chachaCounter, getElem_setChachaCounter]
  exact LittleEndian.word_byte c

@[simp] lemma chachaNonce_set (iv : Vector Byte 16) (c : Word) :
    chachaNonce (setChachaCounter iv c) = chachaNonce iv := by
  apply Vector.ext
  intro i hi
  have h4 : ¬4 + i < 4 := by omega
  simp only [chachaNonce, Vector.getElem_ofFn, getElem_setChachaCounter, if_neg h4]

lemma setChachaCounter_set (iv : Vector Byte 16) (c d : Word) :
    setChachaCounter (setChachaCounter iv c) d = setChachaCounter iv d := by
  apply Vector.ext
  intro i hi
  simp only [getElem_setChachaCounter]
  by_cases h4 : i < 4
  · rw [if_pos h4, if_pos h4]
  · rw [if_neg h4, if_neg h4, if_neg h4]

lemma setChachaCounter_self (iv : Vector Byte 16) :
    setChachaCounter iv (chachaCounter iv) = iv := by
  apply Vector.ext
  intro i hi
  rw [getElem_setChachaCounter]
  by_cases h4 : i < 4
  · rw [if_pos h4, chachaCounter]
    interval_cases i
    · exact LittleEndian.byte_word_zero _ _ _ _
    · exact LittleEndian.byte_word_one _ _ _ _
    · exact LittleEndian.byte_word_two _ _ _ _
    · exact LittleEndian.byte_word_three _ _ _ _
  · rw [if_neg h4]

def chachaIvAt (iv : Vector Byte 16) (q : ℕ) : Vector Byte 16 :=
  setChachaCounter iv (chachaCounter iv + BitVec.ofNat 32 q)

lemma chachaIvAt_zero (iv : Vector Byte 16) : chachaIvAt iv 0 = iv := by
  have hzero : chachaCounter iv + BitVec.ofNat 32 0 = chachaCounter iv := by simp
  rw [chachaIvAt, hzero, setChachaCounter_self]

lemma chachaCounter_add (c : Word) (q n : ℕ) :
    c + BitVec.ofNat 32 q + BitVec.ofNat 32 n = c + BitVec.ofNat 32 (q + n) := by
  rw [BitVec.add_assoc, BitVec.ofNat_add]

lemma vc6Chacha20Alg_advance (iv : Vector Byte 16) (q n : ℕ) :
    vc6Chacha20Alg.advance (chachaIvAt iv q) n = chachaIvAt iv (q + n) := by
  simp only [vc6Chacha20Alg, chachaIvAt, setChachaCounter_set, chachaCounter_set,
    chachaCounter_add]

lemma Backend.IdealChacha20.serves {be : Backend σ}
    {K : Vector Byte 32 → Vector Byte 12 → Word → Vector Byte 64} (hbe : be.IdealChacha20 K)
    (key : Vector Byte 32) (iv : Vector Byte 16) :
    Serves be vc6Chacha20Alg key (chachaIvAt iv)
      (fun j => K key (chachaNonce iv) (chachaCounter iv + BitVec.ofNat 32 j)) := by
  constructor
  · intro q n _
    exact vc6Chacha20Alg_advance iv q n
  · intro s q n input hlen
    obtain ⟨s', hsub⟩ := hbe s ⟨input, key, chachaIvAt iv q, 2⟩ n rfl hlen
    refine ⟨s', ?_⟩
    simp only [chachaIvAt, chachaCounter_set, chachaNonce_set, chachaCounter_add] at hsub
    simp only [vc6Chacha20Alg, chachaIvAt]
    rw [hsub]
    exact congrArg (fun out => (s', some out)) (xorFrom_shift
      (fun j => K key (chachaNonce iv) (chachaCounter iv + BitVec.ofNat 32 j)) q input)

lemma vc6Chacha20Init_eq (ctx : Vc6ChachaCtx) (key : Vector Byte 32) (iv : Vector Byte 16) :
    vc6Chacha20Init ctx (some key.toList) (some iv.toList) =
      (true, { ctx with
        key := key
        iv := iv
        setKey := true
        setIv := true
        partialLen := 0 }) := by
  have hlen : ¬key.toList.length ≠ 32 := by simp
  have htake : iv.toList.take 16 = iv.toList := List.take_of_length_le (by simp)
  simp only [vc6Chacha20Init, if_neg hlen, htake, overlay_toList]

/-- The ChaCha20 stream law, and the nonce is never touched. -/
theorem vc6Chacha20_stream_law (be : Backend σ)
    (K : Vector Byte 32 → Vector Byte 12 → Word → Vector Byte 64) (hbe : be.IdealChacha20 K)
    (s : σ) (ctx : Vc6ChachaCtx) (key : Vector Byte 32) (iv : Vector Byte 16)
    (chunks : List Buffer) (outsize : ℕ) :
    let x := vc6Chacha20Session be (some s) ctx key.toList iv.toList chunks outsize
    x.updates.ctx.partialLen ≤ outsize →
      x.init = true ∧ (∀ r ∈ x.calls, r.ret = true ∧ r.outl = some r.out.length) ∧
        x.output = xorFrom (ofBlocks (fun j =>
            K key (chachaNonce iv) (chachaCounter iv + BitVec.ofNat 32 j))) 0
          (chunks.flatMap Buffer.bytes) ∧
        ∀ r ∈ x.calls, chachaNonce r.ctx.iv = chachaNonce iv := by
  simp only [vc6Chacha20Session, vc6Chacha20Init_eq, vc6Chacha20Call_eq]
  intro hsize
  obtain ⟨hall, hout⟩ := stream_law (hbe.serves key iv) chunks s true
    ⟨rfl, (chachaIvAt_zero iv).symm, by norm_num⟩ rfl outsize hsize
  refine ⟨rfl, fun r hr => ⟨(hall r hr).1, (hall r hr).2.1⟩, hout, ?_⟩
  intro r hr
  obtain ⟨q', hat⟩ := (hall r hr).2.2
  rw [hat.iv_eq, chachaIvAt, chachaNonce_set]

def Backend.idealChacha20 (K : Vector Byte 32 → Vector Byte 12 → Word → Vector Byte 64) :
    Backend Unit where
  submit _ job :=
    ((), some (xorFrom (ofBlocks (fun j =>
      K job.key (chachaNonce job.iv) (chachaCounter job.iv + BitVec.ofNat 32 j))) 0 job.input))
  length_out s job s' out h := by
    rw [← Option.some.inj (Prod.mk.inj h).2, length_combine]

def chachaBlock (key : Vector Byte 32) (nonce : Vector Byte 12) (counter : Word) :
    Vector Byte 64 :=
  Rfc8439.block key counter nonce

/-- A session whose counter wraps after its first block. -/
theorem vc6Chacha20_stream_law_wrap :
    (vc6Chacha20Session (Backend.idealChacha20 chachaBlock) (some ()) (Ctx.zalloc 64)
        (Vector.replicate 32 7).toList (Vector.replicate 16 0xFF).toList
        [⟨List.replicate 70 5, by decide⟩, ⟨[], by decide⟩, ⟨List.replicate 60 6, by decide⟩]
        64).output =
      xorFrom (ofBlocks (fun j => chachaBlock (Vector.replicate 32 7)
        (Vector.replicate 12 0xFF) (0xFFFFFFFF + BitVec.ofNat 32 j))) 0
        (List.replicate 70 5 ++ List.replicate 60 6) :=
  (vc6Chacha20_stream_law (Backend.idealChacha20 chachaBlock) chachaBlock
    (fun _ _ _ _ _ => ⟨(), rfl⟩) () (Ctx.zalloc 64) (Vector.replicate 32 7)
    (Vector.replicate 16 0xFF)
    [⟨List.replicate 70 5, by decide⟩, ⟨[], by decide⟩, ⟨List.replicate 60 6, by decide⟩] 64
    (by decide)).2.2.1

end GpuCrypt
