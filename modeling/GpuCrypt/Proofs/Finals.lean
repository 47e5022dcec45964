import GpuCrypt.Proofs.CipherStreams

/-!
# Finals in the middle of a stream

A final encrypts the pending bytes in place and leaves `partial_len` as it is, so they stay
pending, encrypted. Runs in which finals come only at block boundaries are not affected; after any
other final a further one emits the pending bytes again, encrypted twice, which is in the clear.
-/

namespace GpuCrypt

open BlockBuffer Keystream

variable {σ γ : Type} {B : ℕ}

def absorbed (calls : List StreamCall) : List Byte := calls.flatMap StreamCall.input

lemma absorbed_concat (calls : List StreamCall) (c : StreamCall) :
    absorbed (calls ++ [c]) = absorbed calls ++ c.input := by
  simp only [absorbed, List.flatMap_append, List.flatMap_cons, List.flatMap_nil, List.append_nil]

/-- Every final has room for the bytes after the last whole block. -/
def FinalsSufficient (B : ℕ) (calls : List StreamCall) : Prop :=
  ∀ pre outsize post, calls = pre ++ .final outsize :: post →
    (absorbed pre).length % B ≤ outsize

/-- Every final comes when the bytes absorbed so far are whole blocks. -/
def FinalsAligned (B : ℕ) (calls : List StreamCall) : Prop :=
  ∀ pre outsize post, calls = pre ++ .final outsize :: post → B ∣ (absorbed pre).length

/-- After a final that returns 1, a further final returns 1 and emits nothing. -/
def Drained (call : Option σ → γ → StreamCall → CallResult γ σ) (innerBackend : Option σ)
    (ctx : γ) (calls : List StreamCall) : Prop :=
  ∀ pre outsize post, calls = pre ++ .final outsize :: post →
    let run := runCalls call innerBackend ctx pre
    let fin := call run.innerBackend run.ctx (.final outsize)
    fin.ret = true → ∀ outsize',
      (call fin.innerBackend fin.ctx (.final outsize')).ret = true ∧
        (call fin.innerBackend fin.ctx (.final outsize')).outl = some 0

/-- What comes of the first final that is not at a block boundary: it emits what is pending as the
stream goes on, and a further final emits the same bytes in the clear. -/
def TailTwice (B : ℕ) (stream : ℕ → Byte)
    (call : Option σ → γ → StreamCall → CallResult γ σ) (innerBackend : Option σ) (ctx : γ)
    (calls : List StreamCall) : Prop :=
  ∀ pre outsize post, calls = pre ++ .final outsize :: post → FinalsAligned B pre →
    let n := whole B (absorbed pre).length
    let run := runCalls call innerBackend ctx pre
    let fin := call run.innerBackend run.ctx (.final outsize)
    fin.out = xorFrom stream n ((absorbed pre).drop n) ∧
      ∀ outsize', (absorbed pre).length % B ≤ outsize' →
        (call fin.innerBackend fin.ctx (.final outsize')).out = (absorbed pre).drop n

lemma FinalsSufficient.of_concat {calls : List StreamCall} {c : StreamCall}
    (h : FinalsSufficient B (calls ++ [c])) : FinalsSufficient B calls := by
  intro pre outsize post heq
  exact h pre outsize (post ++ [c]) (by rw [heq, List.append_assoc, List.cons_append])

lemma FinalsAligned.of_concat {calls : List StreamCall} {c : StreamCall}
    (h : FinalsAligned B (calls ++ [c])) : FinalsAligned B calls := by
  intro pre outsize post heq
  exact h pre outsize (post ++ [c]) (by rw [heq, List.append_assoc, List.cons_append])

lemma runCalls_concat (call : Option σ → γ → StreamCall → CallResult γ σ)
    (innerBackend : Option σ) (ctx : γ) (calls : List StreamCall) (c : StreamCall) :
    let run := runCalls call innerBackend ctx calls
    let r := call run.innerBackend run.ctx c
    runCalls call innerBackend ctx (calls ++ [c]) =
      { results := run.results ++ [r], ctx := r.ctx, innerBackend := r.innerBackend } := by
  simp only [runCalls_append, runCalls]

section Serving

variable [NeZero B] {be : Backend σ} {alg : StreamAlg} {key : Vector Byte 32}
  {ivAt : ℕ → Vector Byte 16} {blk : ℕ → Vector Byte B}

/-- A second final emits the pending bytes in the clear. -/
theorem streamFinal_twice (h : Serves be alg key ivAt blk) (s : σ) {ctx : Ctx B} {q : ℕ}
    (hat : ctx.At key ivAt q) {outsize outsize' : ℕ} (hout : ctx.partialLen ≤ outsize)
    (hout' : ctx.partialLen ≤ outsize') :
    let fin := streamFinal be alg (some s) ctx outsize
    (streamFinal be alg fin.innerBackend fin.ctx outsize').out = ctx.pending := by
  intro fin
  obtain ⟨_, _, ⟨s', hs'⟩, hfirst, hpending, hat', hlen⟩ := streamFinal_serves h s hat hout
  obtain ⟨_, _, _, hsecond, _⟩ := streamFinal_serves h s' hat' (hlen.trans_le hout')
  simp only [fin, hs']
  rw [hsecond, hpending, hfirst, xorFrom_xorFrom]

/-- Whatever the order of updates and finals, `partial_len` counts the bytes after the last whole
block, and the context belongs to the session. -/
lemma runCalls_at (h : Serves be alg key ivAt blk) (s : σ) {ctx : Ctx B}
    (hat : ctx.At key ivAt 0) (hempty : ctx.partialLen = 0) (calls : List StreamCall)
    (hsuff : FinalsSufficient B calls) :
    let run := runCalls (streamCall be alg) (some s) ctx calls
    ∃ s' q, run.innerBackend = some s' ∧ run.ctx.At key ivAt q ∧
      run.ctx.partialLen = (absorbed calls).length % B := by
  induction calls using List.reverseRecOn with
  | nil => exact ⟨s, 0, rfl, hat, hempty⟩
  | append_singleton calls c ih =>
    obtain ⟨s', q, hs', hat', hlen⟩ := ih hsuff.of_concat
    have hpend := Ctx.length_pending _ hat'.partialLen_lt.le
    rw [runCalls_concat, absorbed_concat]
    cases c with
    | update input =>
      obtain ⟨_, _, ⟨s'', hs''⟩, _, hrest, hat''⟩ :=
        streamCipher_serves h s' hat' input.bytes input.length_lt
      simp only [streamCall, hs']
      refine ⟨s'', _, hs'', hat'', ?_⟩
      rw [← Ctx.length_pending _ hat''.partialLen_lt.le, hrest, length_absorb_snd, hpend, hlen,
        List.length_append, StreamCall.input, Nat.mod_add_mod]
    | final outsize =>
      have hroom := hsuff calls outsize [] rfl
      rw [← hlen] at hroom
      obtain ⟨_, _, ⟨s'', hs''⟩, _, _, hat'', hlen''⟩ := streamFinal_serves h s' hat' hroom
      simp only [streamCall, hs']
      refine ⟨s'', q, hs'', hat'', ?_⟩
      rw [hlen'', hlen, StreamCall.input, List.append_nil]

/-- With finals at block boundaries only, the finals do nothing, and the run is one of updates. -/
lemma runCalls_aligned (h : Serves be alg key ivAt blk) (s : σ) {ctx : Ctx B}
    (hat : ctx.At key ivAt 0) (hempty : ctx.partialLen = 0) (calls : List StreamCall)
    (haligned : FinalsAligned B calls) :
    let run := runCalls (streamCall be alg) (some s) ctx calls
    run.output = xorFrom (ofBlocks blk) 0 (absorb B [] (absorbed calls)).1 ∧
      run.ctx.pending = (absorb B [] (absorbed calls)).2 ∧
      run.ctx.At key ivAt ((absorbed calls).length / B) ∧ ∃ s', run.innerBackend = some s' := by
  induction calls using List.reverseRecOn with
  | nil =>
    have hnil : absorb B ([] : List Byte) [] = ([], []) := absorb_nil (Nat.pos_of_neZero B)
    rw [absorbed, List.flatMap_nil, hnil]
    exact ⟨rfl, ctx.pending_of_zero hempty, by simpa [runCalls] using hat, s, rfl⟩
  | append_singleton calls c ih =>
    obtain ⟨hout, hpending, hat', s', hs'⟩ := ih haligned.of_concat
    have hpend := Ctx.length_pending _ hat'.partialLen_lt.le
    have hplen : (runCalls (streamCall be alg) (some s) ctx calls).ctx.partialLen =
        (absorbed calls).length % B := by
      rw [← hpend, hpending, length_absorb_snd, List.length_nil, Nat.zero_add]
    rw [runCalls_concat, absorbed_concat]
    cases c with
    | update input =>
      obtain ⟨_, _, ⟨s'', hs''⟩, hout'', hrest, hat''⟩ :=
        streamCipher_serves h s' hat' input.bytes input.length_lt
      have hsplit := absorb_append (Nat.pos_of_neZero B) [] (absorbed calls) input.bytes
      have hfst : (absorb B [] (absorbed calls)).1.length = B * ((absorbed calls).length / B) := by
        rw [length_absorb_fst, List.length_nil, Nat.zero_add, whole]
      rw [hpending] at hout'' hrest
      simp only [streamCall, hs', StreamCall.input, hsplit]
      refine ⟨?_, hrest, ?_, s'', hs''⟩
      · rw [xorFrom_append, Nat.zero_add, hfst]
        simp only [Run.output, List.flatMap_append, List.flatMap_cons, List.flatMap_nil,
          List.append_nil] at hout ⊢
        rw [hout, hout'']
      · rw [hplen] at hat''
        rwa [List.length_append, ← div_add_mod_add_div (Nat.pos_of_neZero B)]
    | final outsize =>
      have hdvd := haligned calls outsize [] rfl
      have hzero : (runCalls (streamCall be alg) (some s) ctx calls).ctx.partialLen = 0 := by
        rw [hplen, Nat.mod_eq_zero_of_dvd hdvd]
      simp only [streamCall, streamFinal_of_zero be alg _ outsize hzero, StreamCall.input,
        List.append_nil]
      refine ⟨?_, hpending, hat', s', hs'⟩
      simp only [Run.output, List.flatMap_append, List.flatMap_cons, List.flatMap_nil,
        List.append_nil] at hout ⊢
      exact hout

/-- Runs keep the stream intact, with nothing left pending by any final, exactly when their finals
come at block boundaries. -/
theorem stream_finals_iff (h : Serves be alg key ivAt blk) (s : σ) {ctx : Ctx B}
    (hat : ctx.At key ivAt 0) (hempty : ctx.partialLen = 0) (calls : List StreamCall)
    (hsuff : FinalsSufficient B calls) :
    ((runCalls (streamCall be alg) (some s) ctx calls).output <+:
        xorFrom (ofBlocks blk) 0 (absorbed calls) ∧
      Drained (streamCall be alg) (some s) ctx calls) ↔ FinalsAligned B calls := by
  constructor
  · rintro ⟨_, hdrained⟩ pre outsize post rfl
    have hpre : FinalsSufficient B pre := fun pre' outsize' post' heq =>
      hsuff pre' outsize' (post' ++ .final outsize :: post)
        (by rw [heq, List.append_assoc, List.cons_append])
    obtain ⟨s', q, hs', hat', hlen⟩ := runCalls_at h s hat hempty pre hpre
    have hroom := hsuff pre outsize post rfl
    rw [← hlen] at hroom
    obtain ⟨hret, _, ⟨s'', hs''⟩, _, hpending, hat'', hlen''⟩ := streamFinal_serves h s' hat' hroom
    obtain ⟨_, houtl, _, hout, _⟩ := streamFinal_serves h s'' hat'' hat''.partialLen_lt.le
    have hfurther := hdrained pre outsize post rfl
    simp only [streamCall, hs', hs''] at hfurther
    have hzero := (hfurther hret B).2
    -- the further final emits as many bytes as are pending
    rw [houtl, hout, length_combine, Ctx.length_pending _ hat''.partialLen_lt.le, hlen'', hlen,
      Option.some.injEq] at hzero
    exact Nat.dvd_of_mod_eq_zero hzero
  · intro haligned
    obtain ⟨hout, _⟩ := runCalls_aligned h s hat hempty calls haligned
    constructor
    · rw [hout]
      exact isPrefix_combine _ _ ⟨_, absorb_append_eq B [] (absorbed calls)⟩
    · rintro pre outsize post rfl run fin _ outsize'
      have hpre : FinalsAligned B pre := fun pre' outsize' post' heq =>
        haligned pre' outsize' (post' ++ .final outsize :: post)
          (by rw [heq, List.append_assoc, List.cons_append])
      obtain ⟨_, hpending, hat', _⟩ := runCalls_aligned h s hat hempty pre hpre
      have hzero : run.ctx.partialLen = 0 := by
        rw [← Ctx.length_pending _ hat'.partialLen_lt.le, hpending, length_absorb_snd,
          List.length_nil, Nat.zero_add]
        exact Nat.mod_eq_zero_of_dvd (haligned pre outsize post rfl)
      simp only [fin, streamCall, streamFinal_of_zero be alg _ _ hzero, and_self]

/-- The first final elsewhere, and a further one. -/
lemma stream_tailTwice (h : Serves be alg key ivAt blk) (s : σ) {ctx : Ctx B}
    (hat : ctx.At key ivAt 0) (hempty : ctx.partialLen = 0) (calls : List StreamCall)
    (hsuff : FinalsSufficient B calls) :
    TailTwice B (ofBlocks blk) (streamCall be alg) (some s) ctx calls := by
  rintro pre outsize post rfl haligned n run fin
  obtain ⟨_, hpending, hat', s', hs'⟩ := runCalls_aligned h s hat hempty pre haligned
  have htail : run.ctx.pending = (absorbed pre).drop n := by
    rw [show run.ctx.pending = _ from hpending, absorb, List.length_nil, Nat.zero_add,
      List.nil_append]
  have hlen : run.ctx.partialLen = (absorbed pre).length % B := by
    rw [← Ctx.length_pending _ hat'.partialLen_lt.le, show run.ctx.pending = _ from hpending,
      length_absorb_snd, List.length_nil, Nat.zero_add]
  have hroom : run.ctx.partialLen ≤ outsize := hlen.trans_le (hsuff pre outsize post rfl)
  have hfin : fin = streamFinal be alg (some s') run.ctx outsize := by
    simp only [fin, run, streamCall, hs']
  constructor
  · obtain ⟨_, _, _, hout, _⟩ := streamFinal_serves h s' hat' hroom
    rw [hfin, hout, ← htail]
    rfl
  · intro outsize' hroom'
    have htwice := streamFinal_twice h s' hat' hroom (hlen.trans_le hroom')
    simp only [hfin, streamCall]
    rw [htwice, htail]

end Serving

lemma drained_vc6AesCall (be : Backend σ) (innerBackend : Option σ) (ctx : Vc6AesCtx)
    (calls : List StreamCall) :
    Drained (vc6AesCall be) innerBackend ctx calls ↔
      Drained (streamCall be (vc6AesAlg ctx.keyLen)) innerBackend ctx.toCtx calls := by
  simp only [Drained, runCalls_vc6AesCall, Run.mapCtx, vc6AesCall_eq, CallResult.mapCtx]

lemma tailTwice_vc6AesCall (stream : ℕ → Byte) (be : Backend σ) (innerBackend : Option σ)
    (ctx : Vc6AesCtx) (calls : List StreamCall) :
    TailTwice 16 stream (vc6AesCall be) innerBackend ctx calls ↔
      TailTwice 16 stream (streamCall be (vc6AesAlg ctx.keyLen)) innerBackend ctx.toCtx calls := by
  simp only [TailTwice, runCalls_vc6AesCall, Run.mapCtx, vc6AesCall_eq, CallResult.mapCtx]

/-- For both ciphers, and a backend that serves every job: the bytes emitted by updates and finals
are the stream up to some position, with nothing pending after a final, exactly in the runs whose
finals come at block boundaries. In the others the tail is emitted twice, at last in the clear. -/
theorem vc6_finals_iff (be : Backend σ) (s : σ) (calls : List StreamCall) :
    (∀ E, be.IdealAes E → ∀ (ctx : Vc6AesCtx) (key : List Byte) (iv : Vector Byte 16),
      key.length = 16 ∨ key.length = 32 → FinalsSufficient 16 calls →
        let start := (vc6AesInit ctx (some key) (some iv.toList)).2
        let stream := ofBlocks (ctrBlocks (E (overlay ctx.key key) (vc6AesAlg key.length).algId) iv)
        (((runCalls (vc6AesCall be) (some s) start calls).output <+:
            xorFrom stream 0 (absorbed calls) ∧
          Drained (vc6AesCall be) (some s) start calls) ↔ FinalsAligned 16 calls) ∧
        TailTwice 16 stream (vc6AesCall be) (some s) start calls) ∧
    (∀ K, be.IdealChacha20 K → ∀ (ctx : Vc6ChachaCtx) (key : Vector Byte 32) (iv : Vector Byte 16),
      FinalsSufficient 64 calls →
        let start := (vc6Chacha20Init ctx (some key.toList) (some iv.toList)).2
        let stream := ofBlocks (fun j =>
          K key (chachaNonce iv) (chachaCounter iv + BitVec.ofNat 32 j))
        (((runCalls (vc6Chacha20Call be) (some s) start calls).output <+:
            xorFrom stream 0 (absorbed calls) ∧
          Drained (vc6Chacha20Call be) (some s) start calls) ↔ FinalsAligned 64 calls) ∧
        TailTwice 64 stream (vc6Chacha20Call be) (some s) start calls) := by
  constructor
  · intro E hbe ctx key iv hkey hsuff
    have hat : Ctx.At (vc6AesInit ctx (some key) (some iv.toList)).2.toCtx (overlay ctx.key key)
        (BigEndian.add iv) 0 := by
      rw [vc6AesInit_eq ctx iv hkey]
      exact ⟨rfl, (BigEndian.add_zero iv).symm, by norm_num⟩
    have hserves := hbe.serves key.length (overlay ctx.key key) iv
    simp only [vc6AesInit_eq ctx iv hkey, drained_vc6AesCall, tailTwice_vc6AesCall,
      runCalls_vc6AesCall, Run.output_mapCtx] at hat ⊢
    exact ⟨stream_finals_iff hserves s hat rfl calls hsuff,
      stream_tailTwice hserves s hat rfl calls hsuff⟩
  · intro K hbe ctx key iv hsuff
    have hserves := hbe.serves key iv
    simp only [vc6Chacha20Init_eq, vc6Chacha20Call_eq]
    exact ⟨stream_finals_iff hserves s ⟨rfl, (chachaIvAt_zero iv).symm, by norm_num⟩ rfl calls
        hsuff,
      stream_tailTwice hserves s ⟨rfl, (chachaIvAt_zero iv).symm, by norm_num⟩ rfl calls hsuff⟩

theorem vc6_finals_aligned_run :
    Drained (vc6AesCall (Backend.idealAes aesByAlgId)) (some ())
      (vc6AesInit Vc6AesCtx.zalloc (some (List.replicate 32 7))
        (some (Vector.replicate 16 0).toList)).2
      [.update ⟨List.replicate 16 5, by decide⟩, .final 16] := by
  have hsplit : ∀ pre outsize post,
      [.update ⟨List.replicate 16 5, by decide⟩, .final 16] =
        pre ++ StreamCall.final outsize :: post → (absorbed pre).length = 16 := by
    rintro (_ | ⟨c, _ | ⟨d, pre⟩⟩) outsize post h
    · simp at h
    · simp only [List.cons_append, List.cons.injEq] at h
      rw [← h.1]
      rfl
    · simp at h
  refine (((vc6_finals_iff (Backend.idealAes aesByAlgId) ()
    [.update ⟨List.replicate 16 5, by decide⟩, .final 16]).1 aesByAlgId
    (fun _ _ _ _ => ⟨(), rfl⟩) Vc6AesCtx.zalloc (List.replicate 32 7) (Vector.replicate 16 0)
    (.inr rfl) ?_).1.mpr ?_).2
  · rintro pre outsize post h
    rw [hsplit pre outsize post h]
    exact Nat.zero_le _
  · rintro pre outsize post h
    rw [hsplit pre outsize post h]

/-- One byte and two finals, the block function being the identity: the second final emits the
byte in the clear, and the output is longer than the input. -/
theorem vc6_final_twice_leaks :
    let E : Vector Byte 32 → ℤ → Vector Byte 16 → Vector Byte 16 := fun _ _ counter => counter
    let output := (runCalls (vc6AesCall (Backend.idealAes E)) (some ())
      (vc6AesInit Vc6AesCtx.zalloc (some (List.replicate 32 7)) (some (List.replicate 16 0xAA))).2
      [.update ⟨[0x41], by decide⟩, .final 16, .final 16]).output
    output = [0x41 ^^^ 0xAA, 0x41] ∧
      ¬output <+: xorFrom (ofBlocks (ctrBlocks (E (Vector.replicate 32 7) 1)
        (Vector.replicate 16 0xAA))) 0 [0x41] := by
  intro E output
  have hout : output = [0x41 ^^^ 0xAA, 0x41] := by decide +kernel
  refine ⟨hout, fun h => ?_⟩
  have hlen := h.length_le
  rw [hout, length_combine] at hlen
  simp at hlen

end GpuCrypt
