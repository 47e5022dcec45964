import GpuCrypt.Lib.RingLog
import GpuCrypt.Proofs.SharedBackend

/-!
# What the rings of a Batcher hold

The rings of a `Batcher` are logs: since the cursor was last set back, the inputs lie in the input
ring one behind the other, and so do the outputs of those jobs that have run in the output ring. It
does not matter what became of the jobs otherwise, but none may run on after its wait has returned.
-/

namespace GpuCrypt

open RingLog Compute

def BatcherCall.size (c : BatcherCall) : ℕ := c.input.bytes.length

/-- The log after a call, which is left as it is if the job is refused. -/
def Batcher.logCall (pipelines : Algorithm → Bool) (log : Log BatcherCall) (c : BatcherCall) :
    Log BatcherCall :=
  if Batcher.Accepts pipelines c.size c.alg then log.push ringSize BatcherCall.size c else log

/-- The input of the job is at `w`. -/
def BatcherCall.InputAt (m : Memory) (w : ℕ) (c : BatcherCall) : Prop :=
  copyOut m w c.size = c.input.bytes

/-- The output of the job is at `w` if it has run. -/
def BatcherCall.OutputAt (m : Memory) (w : ℕ) (c : BatcherCall) : Prop :=
  c.vk.queueSubmit = true → c.vk.completed = true →
    some (copyOut m w c.size) = c.alg.output c.input.bytes c.key c.iv

/-- The rings hold the jobs of the log. -/
structure Batcher.Logs (b : Batcher) (log : Log BatcherCall) : Prop where
  offset_eq : b.offset = log.cursor BatcherCall.size
  inputs : log.Kept BatcherCall.size (BatcherCall.InputAt b.inputRing)
  outputs : log.Kept BatcherCall.size (BatcherCall.OutputAt b.outputRing)

/-- The job of a call that is accepted. -/
def BatcherCall.job (c : BatcherCall) {pipelines : Algorithm → Bool}
    (h : Batcher.Accepts pipelines c.size c.alg) : BatcherJob where
  input := c.input.bytes
  key := c.key
  iv := c.iv
  alg := c.alg
  fits := h.1
  ne_count := h.2.1

lemma BatcherJob.output_eq (job : BatcherJob) :
    job.alg.output job.input job.key job.iv = some job.result := by
  have hring : ¬ringSize < job.input.length := Nat.not_lt.mpr job.fits
  have hcount := job.ne_count
  unfold BatcherJob.result Algorithm.output
  rw [if_neg hring]
  cases halg : job.alg with
  | aes256Ctr => rfl
  | chacha20 => rfl
  | count => exact absurd halg hcount

/-- The output ring after a job that is accepted: the output is in the window if the job has run,
and what lies below the window stays. -/
lemma Batcher.outputRing_submitted (b : Batcher) (c : BatcherCall)
    (h : Batcher.Accepts b.pipelines c.size c.alg) :
    let m := (b.submitted c.vk c.input.bytes c.key c.iv c.alg).outputRing
    c.OutputAt m (b.window c.size) ∧
      ∀ w n, w + n ≤ b.window c.size → copyOut m w n = copyOut b.outputRing w n := by
  intro m
  by_cases hran : c.vk.queueSubmit = true ∧ c.vk.completed = true
  · have hm : m = c.alg.run (copyIn b.inputRing (b.window c.size) c.input.bytes) b.outputRing
        (c.alg.params b.params c.size c.key c.iv) (b.window c.size) c.size := if_pos hran
    have hout : copyOut m (b.window c.size) c.size = (c.job h).result := by
      rw [hm]
      exact (c.job h).copyOut_run b.outputRing b.params
        (copyOut_copyIn_self b.inputRing _ c.input.bytes)
    refine ⟨fun _ _ => ?_, fun w n hle => copyOut_congr (fun i hi => ?_)⟩
    · rw [hout]
      exact (c.job h).output_eq.symm
    · rw [hm]
      exact (c.job h).run_outside _ b.outputRing b.params _ (.inl (by omega))
  · have hm : m = b.outputRing := if_neg hran
    exact ⟨fun hqueue hcompleted => absurd ⟨hqueue, hcompleted⟩ hran, fun w n _ => by rw [hm]⟩

lemma Batcher.Logs.call {b : Batcher} {log : Log BatcherCall} (h : b.Logs log) (c : BatcherCall) :
    (b.call c).1.Logs (logCall b.pipelines log c) := by
  rw [Batcher.call, logCall]
  rcases Batcher.submit_cases c.vk b c.input.bytes c.key c.iv c.alg with
    ⟨hrefuse, hsubmit⟩ | ⟨haccept, hsubmit⟩
  · have hrefuse' : ¬Batcher.Accepts b.pipelines c.size c.alg := hrefuse
    rw [hsubmit, if_neg hrefuse']
    exact h
  · have haccept' : Batcher.Accepts b.pipelines c.size c.alg := haccept
    have hwindow : b.window c.size = log.window ringSize BatcherCall.size c := by
      rw [Batcher.window, Log.window, h.offset_eq]
    obtain ⟨hnew, hbelow⟩ := b.outputRing_submitted c haccept'
    rw [hsubmit, if_pos haccept']
    constructor
    · rw [Log.cursor_push, ← hwindow]
      rfl
    · refine h.inputs.push ?_ (fun w d hle hd => ?_)
      · rw [← hwindow]
        exact copyOut_copyIn_self b.inputRing _ c.input.bytes
      · rw [← hwindow] at hle
        exact (copyOut_copyIn_of_disjoint b.inputRing (.inr hle)).trans hd
    · refine h.outputs.push ?_ (fun w d hle hd hqueue hcompleted => ?_)
      · rw [← hwindow]
        exact hnew
      · rw [← hwindow] at hle
        rw [hbelow w d.size hle]
        exact hd hqueue hcompleted

lemma Batcher.Logs.run {b : Batcher} {log : Log BatcherCall} (h : b.Logs log)
    (calls : List BatcherCall) :
    (b.run calls).2.Logs (calls.foldl (logCall b.pipelines) log) := by
  induction calls generalizing b log with
  | nil => exact h
  | cons c calls ih =>
    have hpipe : (b.call c).1.pipelines = b.pipelines := Batcher.pipelines_submit ..
    have hrest := ih (h.call c)
    rw [hpipe] at hrest
    exact hrest

lemma copyOut_add (m : Memory) (off n k : ℕ) :
    copyOut m off (n + k) = copyOut m off n ++ copyOut m (off + n) k := by
  unfold copyOut
  rw [List.range_add, List.map_append, List.map_map]
  simp only [Function.comp_def, Nat.add_assoc]

/-- Records one behind the other are their concatenation. -/
lemma copyOut_records {m : Memory} {base : ℕ} {records : List BatcherCall}
    (h : ({ base := base, records := records } : Log BatcherCall).Kept BatcherCall.size
      (BatcherCall.InputAt m)) :
    copyOut m base (total BatcherCall.size records) =
      records.flatMap (fun c => c.input.bytes) := by
  induction records using List.reverseRecOn with
  | nil => rfl
  | append_singleton records c ih =>
    obtain ⟨hrecords, hc⟩ := Log.kept_concat_iff.mp h
    have hlast : copyOut m (base + total BatcherCall.size records) c.size = c.input.bytes := hc
    rw [total_append, total_cons, total_nil, Nat.add_zero, copyOut_add, ih hrecords, hlast,
      List.flatMap_append]
    simp

/-- After any calls, none of whose jobs runs on when its wait has returned: up to the cursor the
input ring has the inputs of the jobs that were accepted since the cursor was last set back, and the
output ring still has the output of each of these jobs that has run. -/
theorem batcher_ring_log (b : Batcher) (calls : List BatcherCall) :
    let b' := (b.run calls).2
    let log := calls.foldl (Batcher.logCall b.pipelines) (.start b.offset)
    b'.offset = log.base + total BatcherCall.size log.records ∧
      copyOut b'.inputRing log.base (total BatcherCall.size log.records) =
        log.records.flatMap (fun c => c.input.bytes) ∧
      ∀ pre c post, log.records = pre ++ c :: post → c.vk.queueSubmit = true →
        c.vk.completed = true →
          some (copyOut b'.outputRing (log.base + total BatcherCall.size pre) c.size) =
            c.alg.output c.input.bytes c.key c.iv := by
  intro b' log
  have hstart : b.Logs (.start b.offset) := ⟨rfl, Log.kept_start _ _, Log.kept_start _ _⟩
  have hlogs : b'.Logs log := hstart.run calls
  exact ⟨hlogs.offset_eq, copyOut_records hlogs.inputs, hlogs.outputs⟩

end GpuCrypt
