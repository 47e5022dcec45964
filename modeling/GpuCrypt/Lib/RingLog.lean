import Mathlib.Tactic

/-!
# Logs that start again

Records of any size go to a memory one behind the other. A record that does not fit any more goes to
the start, and the records before it count as lost, although only those it overwrites are.

`Kept P` says that the memory holds `P` of each record at its place. To keep this, an operation has
to write the new record and may write what it likes behind it.
-/

namespace RingLog

variable {σ ρ : Type*}

/-- The records since the last start, and the place of the first of them. -/
structure Log (ρ : Type*) where
  base : ℕ
  records : List ρ

def Log.start (base : ℕ) : Log ρ := { base := base, records := [] }

section

variable (cap : ℕ) (size : ρ → ℕ)

def total (records : List ρ) : ℕ := (records.map size).sum

/-- The place behind the last record. -/
def Log.cursor (log : Log ρ) : ℕ := log.base + total size log.records

/-- The place of the next record. -/
def Log.window (log : Log ρ) (x : ρ) : ℕ :=
  if cap < log.cursor size + size x then 0 else log.cursor size

def Log.push (log : Log ρ) (x : ρ) : Log ρ :=
  if cap < log.cursor size + size x then { base := 0, records := [x] }
  else { log with records := log.records ++ [x] }

/-- `P` holds of every record and its place. -/
def Log.Kept (log : Log ρ) (P : ℕ → ρ → Prop) : Prop :=
  ∀ pre x post, log.records = pre ++ x :: post → P (log.base + total size pre) x

end

variable {cap : ℕ} {size : ρ → ℕ}

@[simp] lemma total_nil : total size [] = 0 := rfl

@[simp] lemma total_append (xs ys : List ρ) :
    total size (xs ++ ys) = total size xs + total size ys := by
  simp [total]

@[simp] lemma total_cons (x : ρ) (xs : List ρ) : total size (x :: xs) = size x + total size xs := by
  simp [total]

namespace Log

variable {log : Log ρ} {P P' : ℕ → ρ → Prop} {x : ρ}

lemma cursor_push (log : Log ρ) (x : ρ) :
    (log.push cap size x).cursor size = log.window cap size x + size x := by
  unfold push window cursor
  split <;> simp [Nat.add_assoc]

lemma kept_start (base : ℕ) (P : ℕ → ρ → Prop) : (start base : Log ρ).Kept size P := by
  intro pre x post heq
  simp [start] at heq

lemma kept_concat_iff {base : ℕ} {records : List ρ} :
    ({ base := base, records := records ++ [x] } : Log ρ).Kept size P ↔
      ({ base := base, records := records } : Log ρ).Kept size P ∧
        P (base + total size records) x := by
  constructor
  · intro h
    refine ⟨fun pre y post heq => h pre y (post ++ [x]) ?_, h records x [] rfl⟩
    have heq' : records = pre ++ y :: post := heq
    simp only [heq', List.append_assoc, List.cons_append]
  · rintro ⟨h, hx⟩ pre y post heq
    rcases List.eq_nil_or_concat post with rfl | ⟨post, z, rfl⟩
    · obtain ⟨rfl, hxy⟩ := List.append_inj' heq rfl
      rw [← List.singleton_inj.mp hxy]
      exact hx
    · rw [List.concat_eq_append, ← List.cons_append, ← List.append_assoc] at heq
      exact h pre y post (List.append_inj' heq rfl).1

/-- A record below the cursor lies below the next window, if the log does not start again. -/
lemma add_size_le_cursor {pre post : List ρ} {y : ρ} (heq : log.records = pre ++ y :: post) :
    log.base + total size pre + size y ≤ log.cursor size := by
  rw [cursor, heq, total_append, total_cons]
  omega

/-- What lies below the window of the new record has to stay. -/
theorem Kept.push (h : log.Kept size P) (hnew : P' (log.window cap size x) x)
    (hold : ∀ w y, w + size y ≤ log.window cap size x → P w y → P' w y) :
    (log.push cap size x).Kept size P' := by
  unfold window at hnew hold
  unfold Log.push
  by_cases hfull : cap < log.cursor size + size x
  · rw [if_pos hfull]
    rw [if_pos hfull] at hnew
    exact kept_concat_iff.mpr ⟨kept_start 0 P', hnew⟩
  · rw [if_neg hfull]
    rw [if_neg hfull] at hnew hold
    have hkept : log.Kept size P' := by
      intro pre y post heq
      exact hold _ y (add_size_le_cursor heq) (h pre y post heq)
    exact kept_concat_iff.mpr ⟨hkept, hnew⟩

end Log

end RingLog
