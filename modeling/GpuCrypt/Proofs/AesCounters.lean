import GpuCrypt.Proofs.AesJob
import GpuCrypt.Model.Provider
import GpuCrypt.Proofs.FailureStreams

/-!
# The counters of an AES session

The shader counts in the last 64 bits of the IV only, and starts again from the provider's IV with
each job. The two ways of counting agree on these 64 bits, so that no session of up to `2 ^ 64`
blocks uses a counter block twice, wherever its jobs begin and whichever of them are refused.
-/

namespace GpuCrypt

variable {σ γ : Type}

/-- The counter block that the shader builds for each block of an AES-256 job. -/
def Job.aesCounters (job : Job) : List (Vector Byte 16) :=
  (List.range ((job.input.length + 15) / 16)).map (fun g =>
    (Aes256Ctr.counterBlock (aes256Params (fun _ => 0) job.input.length job.key job.iv)
      (BitVec.ofNat 32 g)).toBlock)

/-- The counter blocks of the jobs that have been served. -/
def servedCounters (entries : List (Job × Bool)) : List (Vector Byte 16) :=
  (entries.filter Prod.snd).flatMap (fun e => e.1.aesCounters)

/-- The counter blocks that a session has used. -/
def Session.aesCounters (x : Session γ (σ × List (Job × Bool))) : List (Vector Byte 16) :=
  x.final.innerBackend.toList.flatMap (fun s => servedCounters s.2)

/-- The half of a counter block that the shader counts in. -/
def lowHalf (block : Vector Byte 16) : ℕ := BigEndian.toNat block % 2 ^ 64

lemma lowHalf_counter64 (iv : Vector Byte 16) (g : ℕ) :
    lowHalf (counter64 iv g) = (BigEndian.toNat iv + g) % 2 ^ 64 := by
  have hlt := BigEndian.toNat_lt iv
  have hpow : 256 ^ 16 = 2 ^ 64 * 2 ^ 64 := by norm_num
  rw [hpow] at hlt
  rw [lowHalf, counter64, BigEndian.toNat_ofNat, hpow]
  omega

lemma toNat_add_mod (iv : Vector Byte 16) (q g : ℕ) :
    (BigEndian.toNat (BigEndian.add iv q) + g) % 2 ^ 64 =
      (BigEndian.toNat iv + (q + g)) % 2 ^ 64 := by
  have hpow : 256 ^ 16 = 2 ^ 64 * 2 ^ 64 := by norm_num
  rw [BigEndian.toNat_add, hpow, Nat.add_mod, Nat.mod_mul_right_mod, ← Nat.add_mod, Nat.add_assoc]

/-- `n` values of the low half one after the other, from block `q` of the stream on. -/
def lowHalves (iv : Vector Byte 16) (q n : ℕ) : List ℕ :=
  (List.range n).map (fun g => (BigEndian.toNat iv + (q + g)) % 2 ^ 64)

lemma lowHalves_append (iv : Vector Byte 16) (q m n : ℕ) :
    lowHalves iv q m ++ lowHalves iv (q + m) n = lowHalves iv q (m + n) := by
  rw [lowHalves, lowHalves, lowHalves, List.range_add, List.map_append, List.map_map]
  simp only [Function.comp_def, Nat.add_assoc]

lemma nodup_lowHalves (iv : Vector Byte 16) (q : ℕ) {n : ℕ} (hn : n ≤ 2 ^ 64) :
    (lowHalves iv q n).Nodup := by
  refine List.Nodup.map_on ?_ List.nodup_range
  intro i hi j hj heq
  rw [List.mem_range] at hi hj
  omega

lemma Job.lowHalf_aesCounters (job : Job) {iv : Vector Byte 16} {q n : ℕ}
    (hiv : job.iv = BigEndian.add iv q) (hlen : job.input.length = 16 * n)
    (hring : job.input.length ≤ ringSize) :
    job.aesCounters.map lowHalf = lowHalves iv q n := by
  have hblocks : (16 * n + 15) / 16 = n := by omega
  rw [Job.aesCounters, hlen, hblocks, lowHalves, List.map_map]
  apply List.map_congr_left
  intro g hg
  rw [List.mem_range] at hg
  rw [ringSize_eq] at hring
  have hsmall : (BitVec.ofNat 32 g : Word).toNat = g := by
    rw [BitVec.toNat_ofNat, Nat.mod_eq_of_lt (by omega)]
  rw [Function.comp_apply, toBlock_counterBlock (fun i hi => iv_aes256Params _ _ job.key job.iv hi),
    hsmall, lowHalf_counter64, hiv, toNat_add_mod]

/-- The low halves of the counters of a chain of jobs go up by one. -/
lemma JobChain.lowHalf_servedCounters {be : Backend σ}
    (hring : ∀ s s' job out, be.submit s job = (s', some out) → job.input.length ≤ ringSize)
    {alg : StreamAlg} {key : Vector Byte 32} {iv : Vector Byte 16} {q q' : ℕ}
    {entries : List (Job × Option (List Byte))}
    (hchain : JobChain 16 alg key (BigEndian.add iv) q entries q') {s s' : σ}
    (hruns : be.Runs s entries s') :
    (servedCounters (entries.map (fun e => (e.1, e.2.isSome)))).map lowHalf =
      lowHalves iv q (q' - q) := by
  induction hchain generalizing s with
  | nil q => rw [Nat.sub_self]; rfl
  | refused _ _ ih =>
    cases hruns with
    | cons _ hlater => simpa [servedCounters] using ih hlater
  | @served q q' n input out entries hlen hlater ih =>
    cases hruns with
    | cons hsub hrest =>
      have hfirst := Job.lowHalf_aesCounters
        { input := input, key := key, iv := BigEndian.add iv q, algId := alg.algId } rfl hlen
        (hring _ _ _ _ hsub)
      have hcount : q' - q = n + (q' - (q + n)) := by
        have hle := hlater.le
        omega
      have htail := ih hrest
      rw [hcount, ← lowHalves_append, ← htail, ← hfirst]
      simp [servedCounters]

lemma vc6AesInit_partialLen {ctx : Vc6AesCtx} {key iv : Option (List Byte)}
    (hinit : (vc6AesInit ctx key iv).1 = true) : (vc6AesInit ctx key iv).2.partialLen = 0 := by
  unfold vc6AesInit at hinit ⊢
  cases key with
  | none => rfl
  | some key =>
    by_cases hkey : key.length ≠ 16 ∧ key.length ≠ 32
    · simp [hkey] at hinit
    · simp only [if_neg hkey]

/-- An init, updates and a final over any backend that takes no job longer than the ring: the low
halves of the counter blocks it has used go up by one from that of the IV, and up to `2 ^ 64` blocks
no counter block is used twice. -/
theorem vc6_aes_counters (be : Backend σ)
    (hring : ∀ s s' job out, be.submit s job = (s', some out) → job.input.length ≤ ringSize)
    (s : σ) (ctx : Vc6AesCtx) (key iv : Option (List Byte))
    (hinit : (vc6AesInit ctx key iv).1 = true) (chunks : List Buffer) (outsize : ℕ) :
    let start := vc6AesInit ctx key iv
    let x := session (vc6AesCall be.recorded) (some (s, [])) start chunks outsize
    x.aesCounters.map lowHalf = lowHalves start.2.iv 0 x.aesCounters.length ∧
      (x.aesCounters.length ≤ 2 ^ 64 → x.aesCounters.Nodup) := by
  intro start x
  have hring' : ∀ s s' job out, be.recorded.submit s job = (s', some out) →
      job.input.length ≤ ringSize := fun s s' job out hsub =>
    hring s.1 _ job out (Prod.ext rfl (Prod.mk.inj hsub).2)
  have hreached : start.2.toCtx.Reached start.2.key (BigEndian.add start.2.iv) 0 :=
    ⟨rfl, (BigEndian.add_zero start.2.iv).symm, by rw [vc6AesInit_partialLen hinit]; omega⟩
  obtain ⟨s', entries, q', hs', hruns, hchain, _⟩ := session_chained be.recorded
    (by norm_num) (vc6AesAlg_advances start.2.keyLen start.2.iv) chunks (s, []) start.1 hreached
    outsize
  have hlog : s'.2 = entries.map (fun e => (e.1, e.2.isSome)) := hruns.recorded
  have hcounters : x.aesCounters = servedCounters s'.2 := by
    have hx : x = (session (streamCall be.recorded (vc6AesAlg start.2.keyLen)) (some (s, []))
        (start.1, start.2.toCtx) chunks outsize).mapCtx (fun c => { start.2 with toCtx := c }) :=
      session_vc6AesCall be.recorded (some (s, [])) start.1 start.2 chunks outsize
    have hfinal : x.final.innerBackend = some s' := by
      rw [hx]
      exact hs'
    rw [Session.aesCounters, hfinal]
    simp
  have hlow : x.aesCounters.map lowHalf = lowHalves start.2.iv 0 q' := by
    rw [hcounters, hlog]
    exact hchain.lowHalf_servedCounters hring' hruns
  have hlen : x.aesCounters.length = q' := by
    have hlength := congrArg List.length hlow
    simpa [lowHalves] using hlength
  rw [hlen]
  refine ⟨hlow, fun hle => List.Nodup.of_map lowHalf ?_⟩
  rw [hlow]
  exact nodup_lowHalves start.2.iv 0 hle

lemma vc6BackendUnder_ring (vk : Job → VkOutcome) (s s' : Vc6Backend) (job : Job)
    (out : List Byte) (h : (vc6BackendUnder vk).submit s job = (s', some out)) :
    job.input.length ≤ ringSize := by
  by_contra hring
  have hlong : ringSize < job.input.length := by omega
  have hrefused : ((vc6BackendUnder vk).submit s job).2 = none := by
    simp only [vc6BackendUnder, vc6SubmitJob, Aes256Batcher.submit, Batcher.submit, if_pos hlong]
    split <;> rfl
  rw [h] at hrefused
  simp at hrefused

/-- Over the batchers, with a job refused between two that are served; the low half of the IV is at
its end. -/
theorem vc6_aes_counters_refused :
    let refused : VkOutcome := ⟨false, false, false, fun h _ => h⟩
    let vk : Job → VkOutcome := fun job => if job.input.length = 32 then refused else .success
    let backend : Vc6Backend :=
      { aes256 := ⟨fun _ => 0, fun _ => 0, fun _ => 0⟩
        chacha := ⟨fun _ => 0, fun _ => 0, fun _ => 0, 0, fun _ => true⟩ }
    let x := session (vc6AesCall (vc6BackendUnder vk).recorded) (some (backend, []))
      (vc6AesInit Vc6AesCtx.zalloc (some (List.replicate 16 7)) (some (List.replicate 16 0xFF)))
      [⟨List.replicate 16 5, by decide⟩, ⟨List.replicate 32 5, by decide⟩,
        ⟨List.replicate 52 5, by decide⟩] 16
    x.aesCounters.length = 5 ∧ x.aesCounters.Nodup := by
  intro refused vk backend x
  have hlen : x.aesCounters.length = 5 := by decide +kernel
  refine ⟨hlen, ?_⟩
  exact (vc6_aes_counters (vc6BackendUnder vk) (vc6BackendUnder_ring vk) backend Vc6AesCtx.zalloc
    (some (List.replicate 16 7)) (some (List.replicate 16 0xFF)) (by decide)
    [⟨List.replicate 16 5, by decide⟩, ⟨List.replicate 32 5, by decide⟩,
      ⟨List.replicate 52 5, by decide⟩] 16).2 (hlen.trans_le (by norm_num))

end GpuCrypt
