import GpuCrypt.Lib.LittleEndian

/-!
# Bytes, buffers and the job interface

The provider hands whole blocks to `vc6_submit_job`, the one function of the backend it calls.
A `Backend` is any implementation of that call over a state of its own, so that the provider
can be followed over an ideal backend, over one that fails at will, and over the real batchers.
-/

namespace GpuCrypt

abbrev Byte := BitVec 8

/-- `uint32_t`, and GLSL's `uint`. -/
abbrev Word := BitVec 32

/-- A byte array that a C caller can pass: its length is a `size_t`. -/
structure Buffer where
  bytes : List Byte
  length_lt : bytes.length < 2 ^ 64

/-- `memcpy(v, l, length l)` into a fixed array. -/
def overlay {n : ℕ} (v : Vector Byte n) (l : List Byte) : Vector Byte n :=
  v.mapIdx (fun i b => l.getD i b)

/-- The arguments of one `vc6_submit_job` call. The length `len` is that of `input`; `key` and
`iv` are the arrays of the calling context. -/
structure Job where
  input : List Byte
  key : Vector Byte 32
  iv : Vector Byte 16
  algId : ℤ
deriving DecidableEq, Repr

/-- An implementation of `vc6_submit_job`. `none` is the return value 0, after which nothing has
been written to `out`; `some out` is the return value 1 with the `len` bytes written to `out`. -/
structure Backend (σ : Type) where
  submit : σ → Job → σ × Option (List Byte)
  length_out : ∀ s job s' out, submit s job = (s', some out) → out.length = job.input.length

/-- The backend together with the list of the jobs it was given, most recent last. -/
def Backend.logged {σ : Type} (be : Backend σ) : Backend (σ × List Job) where
  submit s job := (((be.submit s.1 job).1, s.2 ++ [job]), (be.submit s.1 job).2)
  length_out s job s' out h := by
    have hout : (be.submit s.1 job).2 = some out := (Prod.mk.inj h).2
    exact be.length_out s.1 job (be.submit s.1 job).1 out (Prod.ext rfl hout)

/-- The backend together with the jobs it was given and whether it served them, most recent last. -/
def Backend.recorded {σ : Type} (be : Backend σ) : Backend (σ × List (Job × Bool)) where
  submit s job :=
    (((be.submit s.1 job).1, s.2 ++ [(job, (be.submit s.1 job).2.isSome)]), (be.submit s.1 job).2)
  length_out s job s' out h := by
    have hout : (be.submit s.1 job).2 = some out := (Prod.mk.inj h).2
    exact be.length_out s.1 job (be.submit s.1 job).1 out (Prod.ext rfl hout)

/-- A backend whose state says which of the next jobs succeed; the output is the input. -/
def Backend.scripted : Backend (List Bool) where
  submit script job :=
    match script with
    | true :: later => (later, some job.input)
    | _ => (script.tail, none)
  length_out script job s' out h := by
    rcases script with _ | ⟨_ | _, later⟩ <;> simp_all

lemma Backend.recorded_submit {σ : Type} {be : Backend σ} {s s' : σ × List (Job × Bool)}
    {job : Job} {result : Option (List Byte)} (h : be.recorded.submit s job = (s', result)) :
    s'.2 = s.2 ++ [(job, result.isSome)] := by
  obtain ⟨rfl, rfl⟩ := Prod.mk.inj h
  rfl

lemma toList_overlay {n : ℕ} (v : Vector Byte n) {l : List Byte} (h : l.length = n) :
    (overlay v l).toList = l := by
  apply List.ext_getElem
  · simp [h]
  · intro i hi hl
    simp [overlay, hl]

lemma overlay_toList {n : ℕ} (v w : Vector Byte n) : overlay v w.toList = w := by
  rw [← Vector.toList_inj, toList_overlay _ Vector.length_toList]

end GpuCrypt
