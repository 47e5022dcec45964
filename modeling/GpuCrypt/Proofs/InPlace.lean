import GpuCrypt.Model.InPlace
import GpuCrypt.Proofs.StreamEnds

/-!
# Updates in place

An update over one memory is the update over lists, but for one thing: after each job it reads the
rest of its input again from the memory. Where the output stays behind what has been read, that is
the same. In place, a flush writes the pending bytes over as many bytes that have not been read.
-/

namespace GpuCrypt

open BlockBuffer Compute

variable {σ γ : Type} {B : ℕ}

/-- The memory at the start of an update, its input and the position of its output. -/
structure Buffers where
  mem : Memory
  inp : ℕ
  inl : ℕ
  outp : ℕ

def Buffers.input (l : Buffers) : List Byte := copyOut l.mem l.inp l.inl

/-- The variables of an update over the memory that has come as far as `q`. -/
def Progress.place (q : Progress B σ) (l : Buffers) : MemProgress B σ where
  backend := q.backend
  ctx := q.ctx
  mem := copyIn l.mem l.outp q.out
  inp := l.inp + l.inl - q.input.length
  inl := q.input.length
  outp := l.outp + q.out.length
  totalWritten := q.totalWritten

/-- The rest of the input, as the memory has it now. -/
def Progress.reread (q : Progress B σ) (l : Buffers) : Progress B σ :=
  { q with
    input := copyOut (copyIn l.mem l.outp q.out) (l.inp + l.inl - q.input.length) q.input.length }

def placed (l : Buffers) :
    Except (Progress B σ) (Progress B σ) → Except (MemProgress B σ) (MemProgress B σ)
  | .error q => .error (q.place l)
  | .ok q => .ok (q.place l)

@[simp] lemma Progress.length_reread (q : Progress B σ) (l : Buffers) :
    (q.reread l).input.length = q.input.length :=
  length_copyOut _ _ _

lemma Progress.place_reread (q : Progress B σ) (l : Buffers) :
    (q.reread l).place l = q.place l := by
  simp only [Progress.place, Progress.length_reread]
  rfl

lemma Progress.reread_reread (q : Progress B σ) (l : Buffers) :
    (q.reread l).reread l = q.reread l := by
  rw [Progress.reread, Progress.length_reread]
  rfl

lemma Progress.start_place (s : σ) (ctx : Ctx B) (l : Buffers) :
    (Progress.start s ctx l.input).place l =
      { backend := s, ctx := ctx, mem := l.mem, inp := l.inp, inl := l.inl, outp := l.outp,
        totalWritten := 0 } := by
  simp only [Progress.place, Progress.start, Buffers.input, length_copyOut, copyIn_nil,
    List.length_nil, Nat.add_zero, Nat.add_sub_cancel]

/-- Phase 1, as long as the memory still has the input. -/
lemma flushPartialAt_place (be : Backend σ) (alg : StreamAlg) {q : Progress B σ} {l : Buffers}
    (hread : q.reread l = q) (hlen : q.input.length ≤ l.inp + l.inl) :
    flushPartialAt be alg (q.place l) = placed l (flushPartial be alg q) := by
  have hinput : copyOut (copyIn l.mem l.outp q.out) (l.inp + l.inl - q.input.length)
      q.input.length = q.input := congrArg Progress.input hread
  have hend : l.inp + l.inl - q.input.length + q.input.length = l.inp + l.inl := by omega
  unfold flushPartialAt flushPartial
  simp only [Progress.place, Ctx.topUpFrom_eq, hinput, hend]
  by_cases hpos : 0 < q.ctx.partialLen
  · rw [if_pos hpos, if_pos hpos]
    by_cases hfull : (q.ctx.topUp q.input).1.partialLen = B
    · rw [if_pos hfull, if_pos hfull]
      rcases hsub : be.submit q.backend ((q.ctx.topUp q.input).1.job alg
        (q.ctx.topUp q.input).1.partialBuf.toList) with ⟨s', _ | out⟩
      · rfl
      · have hout : out.length = B :=
          (be.length_out _ _ _ _ hsub).trans Vector.length_toList
        simp only [placed, Progress.place, copyIn_append, List.length_append, hout, Nat.add_assoc]
    · rw [if_neg hfull, if_neg hfull]
      rfl
  · rw [if_neg hpos, if_neg hpos]
    rfl

/-- Phase 2, as long as the memory still has the input. -/
lemma fullBlocksAt_place (be : Backend σ) (alg : StreamAlg) {q : Progress B σ} {l : Buffers}
    (hread : q.reread l = q) (hlen : q.input.length ≤ l.inp + l.inl) :
    fullBlocksAt be alg (q.place l) = placed l (fullBlocks be alg q) := by
  have hinput : copyOut (copyIn l.mem l.outp q.out) (l.inp + l.inl - q.input.length)
      q.input.length = q.input := congrArg Progress.input hread
  have hwhole : q.input.length - q.input.length % B ≤ q.input.length := Nat.sub_le _ _
  have htake : copyOut (copyIn l.mem l.outp q.out) (l.inp + l.inl - q.input.length)
      (q.input.length - q.input.length % B) =
        q.input.take (q.input.length - q.input.length % B) := by
    rw [← take_copyOut _ _ hwhole, hinput]
  unfold fullBlocksAt fullBlocks
  simp only [Progress.place, htake]
  by_cases hfull : B ≤ q.input.length
  · rw [if_pos hfull, if_pos hfull]
    rcases hsub : be.submit q.backend (q.ctx.job alg
      (q.input.take (q.input.length - q.input.length % B))) with ⟨s', _ | out⟩
    · rfl
    · have hout : out.length = q.input.length - q.input.length % B :=
        (be.length_out _ _ _ _ hsub).trans (List.length_take_of_le hwhole)
      have hnext : l.inp + l.inl - q.input.length + (q.input.length - q.input.length % B) =
          l.inp + l.inl - (q.input.length - (q.input.length - q.input.length % B)) := by omega
      simp only [placed, Progress.place, copyIn_append, List.length_append, List.length_drop, hout,
        hnext, Nat.add_assoc]
  · rw [if_neg hfull, if_neg hfull]
    rfl

/-- What an update returns when it has come to its end, or failed. -/
def finishAt (l : Buffers) : Except (Progress B σ) (Progress B σ) → MemResult (Ctx B) σ
  | .error q =>
    { ret := false, outl := some 0, ctx := q.ctx, innerBackend := some q.backend,
      mem := copyIn l.mem l.outp q.out }
  | .ok q =>
    { ret := true, outl := some q.totalWritten, ctx := q.ctx.bufferRest (q.reread l).input,
      innerBackend := some q.backend, mem := copyIn l.mem l.outp q.out }

lemma flushPartial_input_length {be : Backend σ} {alg : StreamAlg} {p q : Progress B σ}
    (hlen : p.ctx.partialLen ≤ B) (h : flushPartial be alg p = .ok q) :
    q.input.length ≤ p.input.length := by
  rcases flushPartial_cases be alg p hlen with
    ⟨_, hflush⟩ | ⟨_, _, hflush⟩ | ⟨_, _, s', _, hflush⟩ | ⟨_, _, s', out, _, hflush⟩
  all_goals rw [hflush] at h
  · rw [← Except.ok.inj h]
  · rw [← Except.ok.inj h]
    exact Nat.zero_le _
  · cases h
  · rw [← Except.ok.inj h, List.length_drop]
    exact Nat.sub_le _ _

/-- An update over one memory reads its input again after a flush, and once more for the tail. -/
theorem streamCipherAt_eq (be : Backend σ) (alg : StreamAlg) (s : σ) {ctx : Ctx B}
    (hlen : ctx.partialLen ≤ B) (l : Buffers) :
    streamCipherAt be alg (some s) ctx l.mem l.inp l.inl l.outp =
      finishAt l ((flushPartial be alg (.start s ctx l.input)).bind
        (fun q => fullBlocks be alg (q.reread l))) := by
  have hinput : l.input.length = l.inl := length_copyOut _ _ _
  have hstart : (Progress.start s ctx l.input).reread l = Progress.start s ctx l.input := by
    simp only [Progress.reread, Progress.start, hinput, copyIn_nil, Nat.add_sub_cancel]
    rfl
  have hflushAt := flushPartialAt_place be alg hstart
    (show l.input.length ≤ l.inp + l.inl by omega)
  rw [Progress.start_place] at hflushAt
  unfold streamCipherAt
  simp only [hflushAt]
  cases hflush : flushPartial be alg (.start s ctx l.input) with
  | error q => rfl
  | ok q =>
    have hq : q.input.length ≤ l.inl := by
      rw [← hinput]
      exact flushPartial_input_length hlen hflush
    have hblocksAt := fullBlocksAt_place be alg (q.reread_reread l)
      (show (q.reread l).input.length ≤ l.inp + l.inl by rw [Progress.length_reread]; omega)
    rw [Progress.place_reread] at hblocksAt
    simp only [placed, Except.bind, hblocksAt]
    cases fullBlocks be alg (q.reread l) with
    | error q' => rfl
    | ok q' =>
      simp only [finishAt, Progress.place, Ctx.bufferFrom_eq]
      rfl

/-! ### Where the output stays behind -/

/-- The output of an update with `b` bytes pending stays behind its input or off it, or there is
nothing left to read when it comes. -/
def Buffers.ReadsFirst (l : Buffers) (B b : ℕ) : Prop :=
  l.outp + b ≤ l.inp ∨ l.inp + l.inl ≤ l.outp ∨ (0 < b ∧ b + l.inl ≤ B)

/-- The update has read a first part of its input, and written no more than that and what was
pending. -/
structure Progress.Within (q : Progress B σ) (l : Buffers) (b : ℕ) : Prop where
  input_eq : q.input = l.input.drop (l.inl - q.input.length)
  length_le : q.input.length ≤ l.inl
  out_le : q.out.length + q.input.length ≤ b + l.inl

lemma Progress.Within.reread_eq {q : Progress B σ} {l : Buffers} {b : ℕ} (h : q.Within l b)
    (hclear : l.outp + b ≤ l.inp ∨ l.inp + l.inl ≤ l.outp ∨ q.input = []) : q.reread l = q := by
  have hlen := h.length_le
  have hout := h.out_le
  have hinput : copyOut l.mem (l.inp + l.inl - q.input.length) q.input.length = q.input := by
    have hpos : l.inp + (l.inl - q.input.length) = l.inp + l.inl - q.input.length := by omega
    have hcount : l.inl - (l.inl - q.input.length) = q.input.length := by omega
    rw [← hpos]
    calc copyOut l.mem (l.inp + (l.inl - q.input.length)) q.input.length
        = l.input.drop (l.inl - q.input.length) := by rw [Buffers.input, drop_copyOut, hcount]
      _ = q.input := h.input_eq.symm
  have hsame : copyOut (copyIn l.mem l.outp q.out) (l.inp + l.inl - q.input.length)
      q.input.length = q.input := by
    rcases hclear with hbehind | hoff | hnil
    · rw [copyOut_copyIn_of_disjoint _ (by omega), hinput]
    · rw [copyOut_copyIn_of_disjoint _ (by omega), hinput]
    · rw [hnil]
      rfl
  rw [Progress.reread, hsame]

/-- Phase 1 keeps within the buffers, and phase 2 does. -/
lemma flushPartial_within {be : Backend σ} {alg : StreamAlg} {s : σ} {ctx : Ctx B} {l : Buffers}
    {q : Progress B σ} (hlen : ctx.partialLen ≤ B)
    (h : flushPartial be alg (.start s ctx l.input) = .ok q) :
    q.Within l ctx.partialLen ∧
      (0 < ctx.partialLen → ctx.partialLen + l.inl ≤ B → q.input = []) := by
  have hinl : l.input.length = l.inl := length_copyOut _ _ _
  rcases flushPartial_cases be alg (.start s ctx l.input) hlen with
    ⟨hzero, hflush⟩ | ⟨_, _, hflush⟩ | ⟨_, _, s', _, hflush⟩ | ⟨hpos, hfull, s', out, hsub, hflush⟩
  all_goals rw [hflush] at h
  · rw [← Except.ok.inj h]
    refine ⟨⟨?_, hinl.le, ?_⟩, fun hpos => absurd hzero hpos.ne'⟩
    · simp only [Progress.start, hinl, Nat.sub_self, List.drop_zero]
    · simp only [Progress.start, List.length_nil, hinl]
      omega
  · rw [← Except.ok.inj h]
    refine ⟨⟨?_, Nat.zero_le _, Nat.zero_le _⟩, fun _ _ => rfl⟩
    exact (List.drop_eq_nil_of_le (by rw [hinl]; exact le_rfl)).symm
  · cases h
  · have hout := (be.length_out _ _ _ _ hsub).trans
      (length_flushJob alg ctx l.input hlen hfull)
    simp only [Progress.start] at hfull
    rw [← Except.ok.inj h]
    simp only [Progress.start, List.nil_append]
    refine ⟨⟨?_, ?_, ?_⟩, fun _ hshort => List.drop_eq_nil_of_le (by omega)⟩
    · simp only [List.length_drop, hinl]
      by_cases hrest : B - ctx.partialLen ≤ l.inl
      · rw [Nat.sub_sub_self hrest]
      · omega
    · rw [List.length_drop]
      omega
    · rw [List.length_drop, hout]
      omega

lemma fullBlocks_within {be : Backend σ} {alg : StreamAlg} {p q : Progress B σ} {l : Buffers}
    {b : ℕ} (hB : 0 < B) (hp : p.Within l b) (h : fullBlocks be alg p = .ok q) :
    q.Within l b ∧ (p.input = [] → q.input = []) := by
  have hle := whole_le B p.input.length
  have hlen := hp.length_le
  have hout := hp.out_le
  rcases fullBlocks_cases be alg p hB with
    ⟨_, hblocks⟩ | ⟨_, s', _, hblocks⟩ | ⟨_, s', out, hsub, hblocks⟩
  all_goals rw [hblocks] at h
  · rw [← Except.ok.inj h]
    exact ⟨hp, id⟩
  · cases h
  · have hlength := (be.length_out _ _ _ _ hsub).trans (length_blocksJob alg p.ctx p.input)
    rw [← Except.ok.inj h]
    refine ⟨⟨?_, ?_, ?_⟩, fun hnil => by simp only [hnil, List.drop_nil]⟩
    · have hpos : l.inl - (p.input.length - whole B p.input.length) =
          l.inl - p.input.length + whole B p.input.length := by omega
      simp only [List.length_drop, hpos]
      rw [← List.drop_drop, ← hp.input_eq]
    · simp only [List.length_drop]
      omega
    · simp only [List.length_append, List.length_drop, hlength]
      omega

/-- There the update over the memory is the update over lists. -/
theorem streamCipherAt_of_readsFirst (be : Backend σ) (alg : StreamAlg) (innerBackend : Option σ)
    {ctx : Ctx B} (hB : 0 < B) (hlen : ctx.partialLen ≤ B) {l : Buffers}
    (hreads : l.ReadsFirst B ctx.partialLen) :
    streamCipherAt be alg innerBackend ctx l.mem l.inp l.inl l.outp =
      let r := streamCipher be alg innerBackend ctx l.input
      { ret := r.ret, outl := r.outl, ctx := r.ctx, innerBackend := r.innerBackend,
        mem := copyIn l.mem l.outp r.out } := by
  cases innerBackend with
  | none => simp only [streamCipherAt, streamCipher, copyIn_nil]
  | some s =>
    rw [streamCipherAt_eq be alg s hlen l]
    cases hflush : flushPartial be alg (.start s ctx l.input) with
    | error q =>
      rw [streamCipher_of_error hflush]
      rfl
    | ok q =>
      obtain ⟨hwithin, hnil⟩ := flushPartial_within hlen hflush
      have hread : q.reread l = q := by
        apply hwithin.reread_eq
        rcases hreads with hbehind | hoff | ⟨hpos, hshort⟩
        · exact .inl hbehind
        · exact .inr (.inl hoff)
        · exact .inr (.inr (hnil hpos hshort))
      simp only [Except.bind, hread]
      cases hblocks : fullBlocks be alg q with
      | error q' =>
        rw [streamCipher_of_ok_error hflush hblocks]
        rfl
      | ok q' =>
        obtain ⟨hwithin', hnil'⟩ := fullBlocks_within hB hwithin hblocks
        have hread' : q'.reread l = q' := by
          apply hwithin'.reread_eq
          rcases hreads with hbehind | hoff | ⟨hpos, hshort⟩
          · exact .inl hbehind
          · exact .inr (.inl hoff)
          · exact .inr (.inr (hnil' (hnil hpos hshort)))
        rw [streamCipher_of_ok hflush hblocks]
        simp only [finishAt, hread']

/-! ### In place -/

/-- Two updates with their outputs at the given positions have the same effect: the same `*outl`
bytes of output, and the same context. -/
def MemResult.Same (x y : MemResult γ σ) (outp outp' : ℕ) : Prop :=
  x.ret = y.ret ∧ x.outl = y.outl ∧ x.ctx = y.ctx ∧ x.innerBackend = y.innerBackend ∧
    ∀ n ∈ x.outl, copyOut x.mem outp n = copyOut y.mem outp' n

/-- Whatever the jobs do and wherever the buffers are, an update in place has the effect of an
update with disjoint buffers. The output buffer has room for the `b` pending bytes as well. -/
def AgreesInPlace (update : (σ : Type) → Backend σ → Option σ → Memory → ℕ → ℕ → ℕ → MemResult γ σ)
    (b : ℕ) (input : List Byte) : Prop :=
  ∀ (σ : Type) (be : Backend σ) (innerBackend : Option σ) (mem mem' : Memory) (inp inp' outp : ℕ),
    copyOut mem inp input.length = input → copyOut mem' inp' input.length = input →
      inp' + input.length ≤ outp ∨ outp + (b + input.length) ≤ inp' →
        (update σ be innerBackend mem inp input.length inp).Same
          (update σ be innerBackend mem' inp' input.length outp) inp outp

lemma Updates.outl_le {be : Backend σ} {alg : StreamAlg} {ctx : Ctx B} {input : List Byte}
    {innerBackend : Option σ} {r : CallResult (Ctx B) σ}
    (h : Updates be alg ctx input innerBackend r) (hlen : ctx.partialLen ≤ B) :
    ∀ n ∈ r.outl, n ≤ r.out.length := by
  intro n hn
  by_cases hret : r.ret = true
  · rw [(h.accounting hlen hret).1] at hn
    exact (Option.some.inj hn).ge
  · cases h with
    | noBackend => cases hn
    | flushFails => exact (Option.some.inj hn).ge
    | blocksFail => exact (Option.some.inj hn).ge
    | flushesBlocksFail =>
      rw [← Option.some.inj hn]
      exact Nat.zero_le _
    | buffered => exact absurd rfl hret
    | flushes => exact absurd rfl hret
    | blocks => exact absurd rfl hret
    | flushesBlocks => exact absurd rfl hret

/-- Updates that read before they write have the same effect wherever their buffers are. -/
lemma streamCipherAt_same (be : Backend σ) (alg : StreamAlg) (innerBackend : Option σ)
    {ctx : Ctx B} (hB : 0 < B) (hlen : ctx.partialLen ≤ B) {l l' : Buffers}
    (hinput : l.input = l'.input) (hreads : l.ReadsFirst B ctx.partialLen)
    (hreads' : l'.ReadsFirst B ctx.partialLen) :
    (streamCipherAt be alg innerBackend ctx l.mem l.inp l.inl l.outp).Same
      (streamCipherAt be alg innerBackend ctx l'.mem l'.inp l'.inl l'.outp) l.outp l'.outp := by
  have houtl := (streamCipher_updates be alg innerBackend ctx l'.input hB hlen).outl_le hlen
  rw [streamCipherAt_of_readsFirst be alg innerBackend hB hlen hreads,
    streamCipherAt_of_readsFirst be alg innerBackend hB hlen hreads', hinput]
  refine ⟨rfl, rfl, rfl, rfl, fun n hn => ?_⟩
  rw [copyOut_copyIn _ _ (houtl n hn), copyOut_copyIn _ _ (houtl n hn)]

/-- A backend whose first job returns the byte `x` over and over, and the others their input. -/
def Backend.flood (x : Byte) : Backend Bool where
  submit later job := (true, some (if later then job.input else List.replicate job.input.length x))
  length_out later job s' out h := by
    rw [← Option.some.inj (Prod.mk.inj h).2]
    cases later
    · exact List.length_replicate
    · rfl

/-- Over this backend the rest of an update shows what the rest of its input was. -/
lemma finishAt_flood (alg : StreamAlg) (x : Byte) {q : Progress B Bool} {l : Buffers} (hB : 0 < B)
    (hread : q.reread l = q) (hlater : q.backend = true) (hzero : q.ctx.partialLen = 0)
    (htotal : q.totalWritten = q.out.length) :
    let r := finishAt l (fullBlocks (Backend.flood x) alg q)
    (q.input.length < B → r.ctx.pending = q.input) ∧
      (B ≤ q.input.length → ∃ n ∈ r.outl,
        copyOut r.mem l.outp n = q.out ++ q.input.take (whole B q.input.length)) := by
  rcases fullBlocks_cases (Backend.flood x) alg q hB with
    ⟨hshort, h⟩ | ⟨_, s', hsub, _⟩ | ⟨hfull, s', out, hsub, h⟩
  · simp only [h, finishAt, hread]
    refine ⟨fun _ => ?_, fun hfull => by omega⟩
    rw [Ctx.pending_bufferRest _ _ (by omega), Ctx.pending_of_zero _ hzero, List.nil_append]
  · cases (Prod.mk.inj hsub).2
  · have hout : out = q.input.take (whole B q.input.length) := by
      have hsome := Option.some.inj (Prod.mk.inj hsub).2
      rw [hlater, if_pos rfl] at hsome
      exact hsome.symm
    have hlength : (q.out ++ out).length = q.totalWritten + whole B q.input.length := by
      rw [hout, List.length_append, List.length_take_of_le (whole_le B q.input.length), htotal]
    simp only [h, finishAt]
    refine ⟨fun hshort => by omega, fun _ => ⟨_, rfl, ?_⟩⟩
    rw [← hlength, copyOut_copyIn _ _ le_rfl, List.take_length, hout]

/-- The flush of the partial block over this backend. -/
lemma flushPartial_flood (alg : StreamAlg) (x : Byte) {ctx : Ctx B} {input : List Byte}
    (hlen : ctx.partialLen ≤ B) (hpos : 0 < ctx.partialLen)
    (hfull : B ≤ ctx.partialLen + input.length) :
    flushPartial (Backend.flood x) alg (.start false ctx input) = .ok
      { backend := true
        ctx := ctx.flushed alg input
        input := input.drop (B - ctx.partialLen)
        out := List.replicate B x
        totalWritten := B } := by
  rcases flushPartial_cases (Backend.flood x) alg (.start false ctx input) hlen with
    ⟨hzero, _⟩ | ⟨_, hshort, _⟩ | ⟨_, _, s', hsub, _⟩ | ⟨_, _, s', out, hsub, h⟩
  · exact absurd hzero hpos.ne'
  · simp only [Progress.start] at hshort
    omega
  · cases (Prod.mk.inj hsub).2
  · have hout : List.replicate (ctx.flushJob alg input).input.length x = out :=
      Option.some.inj (Prod.mk.inj hsub).2
    rw [length_flushJob alg ctx input hlen hfull] at hout
    rw [h, ← (Prod.mk.inj hsub).1, ← hout]
    simp only [Progress.start, List.nil_append, Nat.zero_add]

/-- With bytes pending and input left after them, the flush shows through. -/
lemma not_agreesInPlace (alg : StreamAlg) {ctx : Ctx B} (hB : 0 < B) (hlen : ctx.partialLen ≤ B)
    {input : List Byte} (hpos : 0 < ctx.partialLen) (hlong : B < ctx.partialLen + input.length) :
    ¬AgreesInPlace (fun _ be innerBackend => streamCipherAt be alg innerBackend ctx)
      ctx.partialLen input := by
  intro hagrees
  have hunread : B - ctx.partialLen < input.length := by omega
  -- a byte other than the first one that has not been read when the flush comes
  set x : Byte := input[B - ctx.partialLen] + 1 with hx
  let mem : Memory := copyIn (fun _ => 0) 0 input
  let inPlace : Buffers := ⟨mem, 0, input.length, 0⟩
  let apart : Buffers := ⟨mem, 0, input.length, input.length⟩
  have hmem : copyOut mem 0 input.length = input := by
    rw [copyOut_copyIn _ _ le_rfl, List.take_length]
  have hsame := hagrees Bool (Backend.flood x) (some false) mem mem 0 0 input.length hmem hmem
    (.inl (by omega))
  have hflush := flushPartial_flood alg x hlen hpos hlong.le
  generalize hq : Progress.mk (B := B) true _ _ _ _ = q at hflush
  have hqinput : q.input = input.drop (B - ctx.partialLen) := by rw [← hq]
  have hqlen : q.input.length = input.length - (B - ctx.partialLen) := by
    rw [hqinput, List.length_drop]
  have hqout : q.out = List.replicate B x := by rw [← hq]
  have htotal : q.totalWritten = q.out.length := by rw [hqout, List.length_replicate, ← hq]
  have hlater : q.backend = true := by rw [← hq]
  have hzero : q.ctx.partialLen = 0 := by
    rw [← hq]
    rfl
  have hrun := streamCipherAt_eq (Backend.flood x) alg false hlen
  have hinPlace := hrun inPlace
  have hapart := hrun apart
  have hinput : inPlace.input = input := hmem
  have hinput' : apart.input = input := hmem
  rw [hinput, hflush] at hinPlace
  rw [hinput', hflush] at hapart
  simp only [Except.bind] at hinPlace hapart
  have hread : q.reread apart = q := by
    obtain ⟨hwithin, _⟩ := flushPartial_within (l := apart) hlen (by rw [hinput']; exact hflush)
    exact hwithin.reread_eq (.inr (.inl (by simp only [apart]; omega)))
  rw [hread] at hapart
  have hfirst := finishAt_flood alg x hB (q.reread_reread inPlace) hlater hzero htotal
  have hsecond := finishAt_flood alg x hB hread hlater hzero htotal
  rw [← hinPlace, Progress.length_reread] at hfirst
  rw [← hapart] at hsecond
  obtain ⟨_, houtl, hctx, _, hbytes⟩ := hsame
  have hoverwritten : (q.reread inPlace).input[0]? = some x := by
    have hpos' : 0 + input.length - q.input.length + 0 = 0 + (B - ctx.partialLen) := by omega
    have hbyte : q.out[B - ctx.partialLen]? = some x := by
      rw [hqout, List.getElem?_replicate, if_pos (by omega)]
    rw [Progress.reread, getElem?_copyOut, if_pos (by omega)]
    simp only [inPlace, hpos']
    rw [copyIn_of_getElem? hbyte]
  have hkept : q.input[0]? = some input[B - ctx.partialLen] := by
    rw [hqinput, List.getElem?_drop, Nat.add_zero, List.getElem?_eq_getElem hunread]
  have hheads : (q.reread inPlace).input[0]? = q.input[0]? := by
    by_cases hshort : q.input.length < B
    · rw [← hfirst.1 hshort, ← hsecond.1 hshort]
      exact congrArg (fun c : Ctx B => c.pending[0]?) hctx
    · obtain ⟨n, hn, hout⟩ := hfirst.2 (by omega)
      obtain ⟨n', hn', hout'⟩ := hsecond.2 (by omega)
      have hsum : n = n' := Option.some.inj (hn.symm.trans (houtl.trans hn'))
      have hwhole : 0 < whole B q.input.length :=
        Nat.mul_pos hB (Nat.div_pos (by omega) hB)
      have htake : (q.reread inPlace).input.take (whole B q.input.length) =
          q.input.take (whole B q.input.length) := by
        have hcopies := hbytes n hn
        rw [hsum] at hcopies hout
        exact List.append_cancel_left (hout.symm.trans (hcopies.trans hout'))
      have hhead := congrArg (fun u => u[0]?) htake
      simpa only [List.getElem?_take, if_pos hwhole] using hhead
  rw [hoverwritten, hkept] at hheads
  have hne : input[B - ctx.partialLen] + 1 ≠ input[B - ctx.partialLen] := by
    generalize input[B - ctx.partialLen] = y
    revert y
    decide
  exact hne (Option.some.inj hheads)

/-- An update in place is right exactly if nothing is pending, or nothing is left to read once the
partial block is full. -/
lemma agreesInPlace_iff (alg : StreamAlg) {ctx : Ctx B} (hB : 0 < B) (hlen : ctx.partialLen ≤ B)
    (input : List Byte) :
    AgreesInPlace (fun _ be innerBackend => streamCipherAt be alg innerBackend ctx)
        ctx.partialLen input ↔
      ctx.partialLen = 0 ∨ ctx.partialLen + input.length ≤ B := by
  constructor
  · intro hagrees
    by_contra hnot
    exact not_agreesInPlace alg hB hlen (by omega) (by omega) hagrees
  · intro hgood σ be innerBackend mem mem' inp inp' outp hmem hmem' hdisjoint
    let inPlace : Buffers := ⟨mem, inp, input.length, inp⟩
    let apart : Buffers := ⟨mem', inp', input.length, outp⟩
    have hinput : inPlace.input = apart.input := hmem.trans hmem'.symm
    have hreads : inPlace.ReadsFirst B ctx.partialLen := by
      simp only [Buffers.ReadsFirst, inPlace]
      omega
    have hreads' : apart.ReadsFirst B ctx.partialLen := by
      simp only [Buffers.ReadsFirst, apart]
      omega
    exact streamCipherAt_same be alg innerBackend hB hlen hinput hreads hreads'

lemma MemResult.same_mapCtx {δ : Type} {f : γ → δ} (hf : Function.Injective f)
    (x y : MemResult γ σ) (outp outp' : ℕ) :
    (x.mapCtx f).Same (y.mapCtx f) outp outp' ↔ x.Same y outp outp' := by
  simp only [MemResult.Same, MemResult.mapCtx, hf.eq_iff]

/-- For the contexts that calls can leave, and every input. -/
theorem vc6_in_place_iff (input : Buffer) :
    (∀ ctx : Vc6AesCtx, ctx.Reachable →
      (AgreesInPlace (fun _ be innerBackend => vc6AesCipherAt be innerBackend ctx)
          ctx.partialLen input.bytes ↔
        ctx.partialLen = 0 ∨ ctx.partialLen + input.bytes.length ≤ 16)) ∧
    (∀ ctx : Vc6ChachaCtx, Vc6ChachaReachable ctx →
      (AgreesInPlace (fun _ be innerBackend => vc6Chacha20CipherAt be innerBackend ctx)
          ctx.partialLen input.bytes ↔
        ctx.partialLen = 0 ∨ ctx.partialLen + input.bytes.length ≤ 64)) := by
  constructor
  · intro ctx hctx
    have hinj : Function.Injective (fun c : Ctx 16 => { ctx with toCtx := c }) :=
      fun _ _ heq => congrArg Vc6AesCtx.toCtx heq
    rw [← agreesInPlace_iff (vc6AesAlg ctx.keyLen) (by norm_num) hctx.partialLen_le]
    simp only [AgreesInPlace, vc6AesCipherAt, MemResult.same_mapCtx hinj]
  · intro ctx hctx
    exact agreesInPlace_iff vc6Chacha20Alg (by norm_num) hctx.partialLen_le input.bytes

/-- Five bytes are pending, and eleven come in place: the block they fill is all there is. -/
theorem vc6_in_place_one_block :
    let ctx := (vc6AesCall .scripted (some [])
      (vc6AesInit .zalloc (some (List.replicate 32 1)) (some (List.replicate 16 2))).2
      (.update ⟨List.replicate 5 9, by decide⟩)).ctx
    ctx.partialLen = 5 ∧
      AgreesInPlace (fun _ be innerBackend => vc6AesCipherAt be innerBackend ctx) ctx.partialLen
        (List.replicate 11 5) := by
  intro ctx
  have hpending : ctx.partialLen = 5 := by decide
  have hctx : ctx.Reachable := .call _ _ _ _ (.init _ _ _ (by decide) .newctx)
  refine ⟨hpending, ((vc6_in_place_iff ⟨List.replicate 11 5, by decide⟩).1 ctx hctx).mpr ?_⟩
  rw [hpending]
  decide

/-- One byte is pending, and sixteen come in place: the flush writes its sixteenth byte over the one
that has not been read, and the context is left with that. -/
theorem vc6_in_place_overwrites :
    let ctx := (vc6AesCall .scripted (some [])
      (vc6AesInit .zalloc (some (List.replicate 32 1)) (some (List.replicate 16 2))).2
      (.update ⟨[9], by decide⟩)).ctx
    let input : List Byte := (List.range 16).map (BitVec.ofNat 8)
    let mem := Compute.copyIn (fun _ => 0) 0 input
    ctx.Reachable ∧ ctx.partialLen = 1 ∧
      (vc6AesCipherAt .scripted (some [true]) ctx mem 0 16 0).ctx.pending = [14] ∧
      (vc6AesCipherAt .scripted (some [true]) ctx mem 0 16 16).ctx.pending = [15] ∧
      ¬AgreesInPlace (fun _ be innerBackend => vc6AesCipherAt be innerBackend ctx) 1 input := by
  intro ctx input mem
  have hinPlace : (vc6AesCipherAt .scripted (some [true]) ctx mem 0 16 0).ctx.pending = [14] := by
    decide
  have hapart : (vc6AesCipherAt .scripted (some [true]) ctx mem 0 16 16).ctx.pending = [15] := by
    decide
  refine ⟨.call _ _ _ _ (.init _ _ _ (by decide) .newctx), by decide, hinPlace, hapart, ?_⟩
  intro hagrees
  have hsame := hagrees _ .scripted (some [true]) mem mem 0 0 16 (by decide) (by decide)
    (by decide)
  have hpending := congrArg (fun c : Vc6AesCtx => c.pending) hsame.2.2.1
  have hdiffer : ([14] : List Byte) = [15] := hinPlace.symm.trans (hpending.trans hapart)
  exact absurd hdiffer (by decide)

end GpuCrypt
