import GpuCrypt.Proofs.BatcherSteps

/-!
# Fences over runs of submissions

A `Batcher` never resets its fence, so it can submit once. An `AES256Batcher` resets its fence
before every submission, which needs the job before to have completed and the reset to succeed; the
wait for the one and the other may fail. Between the calls the GPU may complete what is pending.
-/

namespace GpuCrypt

open SyncObjects

variable {γ ι : Type}

/-- A call of `submit`, or the completion of what is pending on the GPU after a call returned. -/
inductive BatcherEvent (γ : Type)
  | submit (resets : ResetOutcome) (c : γ)
  | complete

def BatcherEvent.syncCalls (calls : ResetOutcome → γ → List (Call ι)) :
    BatcherEvent γ → List (Call ι)
  | .submit resets c => calls resets c
  | .complete => [.complete]

/-! ### Batcher -/

/-- Some call so far has queued a job. -/
def Batcher.Queued (pipelines : Algorithm → Bool) (events : List (BatcherEvent BatcherCall)) :
    Prop :=
  ∃ resets c, .submit resets c ∈ events ∧
    Batcher.Accepts pipelines c.input.bytes.length c.alg ∧ c.vk.queueSubmit = true

lemma Batcher.syncCalls_of_accepts {pipelines : Algorithm → Bool} {c : BatcherCall}
    (h : Batcher.Accepts pipelines c.input.bytes.length c.alg) (resets : ResetOutcome) :
    Batcher.syncCalls pipelines resets c =
      .resetBuffer c.alg resets.buffer :: c.vk.syncCalls c.alg := by
  have hring : ¬ringSize < c.input.bytes.length := by
    have hle := h.1
    omega
  have hready : ¬(c.alg = .count ∨ pipelines c.alg = false) := by
    rintro (hcount | hpipe)
    · exact h.2.1 hcount
    · simp [h.2.2] at hpipe
  rw [Batcher.syncCalls, if_neg hring, if_neg hready]

lemma Batcher.syncCalls_of_not_accepts {pipelines : Algorithm → Bool} {c : BatcherCall}
    (h : ¬Batcher.Accepts pipelines c.input.bytes.length c.alg) (resets : ResetOutcome) :
    Batcher.syncCalls pipelines resets c = [] := by
  unfold Batcher.syncCalls
  by_cases hring : ringSize < c.input.bytes.length
  · rw [if_pos hring]
  · by_cases hready : c.alg = .count ∨ pipelines c.alg = false
    · rw [if_neg hring, if_pos hready]
    · simp only [not_or, Bool.not_eq_false] at hready
      exact absurd ⟨by omega, hready⟩ h

lemma Batcher.Queued.append {pipelines : Algorithm → Bool}
    {events : List (BatcherEvent BatcherCall)} (h : Batcher.Queued pipelines events)
    (later : List (BatcherEvent BatcherCall)) : Batcher.Queued pipelines (events ++ later) := by
  obtain ⟨resets, c, hc, hqueued⟩ := h
  exact ⟨resets, c, List.mem_append_left later hc, hqueued⟩

lemma Batcher.queued_concat_submit (pipelines : Algorithm → Bool)
    (events : List (BatcherEvent BatcherCall)) (resets : ResetOutcome) (c : BatcherCall) :
    Batcher.Queued pipelines (events ++ [.submit resets c]) ↔ Batcher.Queued pipelines events ∨
      (Batcher.Accepts pipelines c.input.bytes.length c.alg ∧ c.vk.queueSubmit = true) := by
  constructor
  · rintro ⟨resets', d, hd, hqueued⟩
    rcases List.mem_append.mp hd with hd | hd
    · exact .inl ⟨resets', d, hd, hqueued⟩
    · obtain ⟨rfl, rfl⟩ := BatcherEvent.submit.inj (List.mem_singleton.mp hd)
      exact .inr hqueued
  · rintro (h | h)
    · exact h.append _
    · exact ⟨resets, c, List.mem_append_right _ List.mem_cons_self, h⟩

lemma Batcher.queued_concat_complete (pipelines : Algorithm → Bool)
    (events : List (BatcherEvent BatcherCall)) :
    Batcher.Queued pipelines (events ++ [.complete]) ↔ Batcher.Queued pipelines events := by
  constructor
  · rintro ⟨resets, d, hd, hqueued⟩
    rcases List.mem_append.mp hd with hd | hd
    · exact ⟨resets, d, hd, hqueued⟩
    · simp at hd
  · exact fun h => h.append _

/-- The state of the objects after some events. -/
def Batcher.syncState (pipelines : Algorithm → Bool) (events : List (BatcherEvent BatcherCall)) :
    State Algorithm :=
  Batcher.createSyncObjects.run
    (events.flatMap (BatcherEvent.syncCalls (Batcher.syncCalls pipelines)))

/-- The fence is unsignaled until a job is queued, and never again. -/
lemma Batcher.syncState_fence (pipelines : Algorithm → Bool)
    (events : List (BatcherEvent BatcherCall)) :
    let s := Batcher.syncState pipelines events
    (s.fence = .unsignaled ↔ ¬Batcher.Queued pipelines events) ∧
      (s.fence = .unsignaled → s.buffers = fun _ => .recordable) := by
  induction events using List.reverseRecOn with
  | nil => exact ⟨by simp [Batcher.Queued, syncState, createSyncObjects, State.run], fun _ => rfl⟩
  | append_singleton events e ih =>
    obtain ⟨hfence, hbuffers⟩ := ih
    set s := Batcher.syncState pipelines events
    have hrun : Batcher.syncState pipelines (events ++ [e]) =
        s.run (e.syncCalls (Batcher.syncCalls pipelines)) := by
      simp only [Batcher.syncState, List.flatMap_append, State.run_append, List.flatMap_cons,
        List.flatMap_nil, List.append_nil, s]
    rw [hrun]
    cases e with
    | complete =>
      rw [Batcher.queued_concat_complete, ← hfence]
      simp only [BatcherEvent.syncCalls, State.run, State.step]
      by_cases hpend : s.fence = .pending
      · simp [hpend]
      · simp [hpend]
    | submit resets c =>
      rw [Batcher.queued_concat_submit]
      by_cases haccept : Batcher.Accepts pipelines c.input.bytes.length c.alg
      · rw [BatcherEvent.syncCalls, Batcher.syncCalls_of_accepts haccept, VkOutcome.syncCalls]
        cases hqueue : c.vk.queueSubmit with
        | false =>
          simp only [State.run, State.step_submit_false, State.fence_resetBuffer,
            Bool.false_eq_true, false_and, if_false, and_false, or_false]
          refine ⟨hfence, fun h => ?_⟩
          rw [State.step_resetBuffer (hbuffers h)]
          exact hbuffers h
        | true =>
          cases hdone : c.vk.completed <;>
            simp [State.run, State.step, haccept]
      · rw [BatcherEvent.syncCalls, Batcher.syncCalls_of_not_accepts haccept]
        simp only [State.run, haccept, false_and, or_false]
        exact ⟨hfence, hbuffers⟩

/-- A run of a `Batcher` keeps to the rules exactly if no job is submitted after one that was
queued. -/
lemma Batcher.legal_iff (pipelines : Algorithm → Bool)
    (events : List (BatcherEvent BatcherCall)) :
    Batcher.createSyncObjects.Legal
        (events.flatMap (BatcherEvent.syncCalls (Batcher.syncCalls pipelines))) ↔
      ∀ pre resets c post, events = pre ++ .submit resets c :: post →
        Batcher.Accepts pipelines c.input.bytes.length c.alg → ¬Batcher.Queued pipelines pre := by
  rw [State.legal_flatMap]
  constructor
  · intro hlegal pre resets c post heq haccept
    have h := hlegal pre (.submit resets c) post heq
    rw [BatcherEvent.syncCalls, Batcher.syncCalls_of_accepts haccept] at h
    have hunsignaled := h.2.1
    change (State.step _ _).fence = _ at hunsignaled
    rw [State.fence_resetBuffer] at hunsignaled
    exact (Batcher.syncState_fence pipelines pre).1.mp hunsignaled
  · rintro hfirst pre e post heq
    cases e with
    | complete => exact ⟨trivial, trivial⟩
    | submit resets c =>
      by_cases haccept : Batcher.Accepts pipelines c.input.bytes.length c.alg
      · obtain ⟨hfence, hbuffers⟩ := Batcher.syncState_fence pipelines pre
        have hunsignaled := hfence.mpr (hfirst pre resets c post heq haccept)
        have hidle := congrFun (hbuffers hunsignaled) c.alg
        rw [BatcherEvent.syncCalls, Batcher.syncCalls_of_accepts haccept, VkOutcome.syncCalls]
        refine ⟨?_, (State.fence_resetBuffer _ c.alg resets.buffer).trans hunsignaled, ?_⟩
        · change (Batcher.syncState pipelines pre).buffers c.alg ≠ .pending
          rw [hidle]
          simp
        · split
          · exact ⟨trivial, trivial⟩
          · trivial
      · rw [BatcherEvent.syncCalls, Batcher.syncCalls_of_not_accepts haccept]
        trivial

/-! ### AES256Batcher -/

/-- The last job that got as far as `vkQueueSubmit` was queued and has not completed. -/
def Aes256Batcher.outstanding (events : List (BatcherEvent (VkOutcome × Buffer))) : Bool :=
  events.foldl (fun pending e =>
    match e with
    | .submit _ c =>
      if ringSize < c.2.bytes.length then pending else c.1.queueSubmit && !c.1.completed
    | .complete => false) false

/-- No job has got as far as `vkQueueSubmit`, or the last one that has was queued: the fence is to
be reset before the next one. -/
def Aes256Batcher.fenceUsed (events : List (BatcherEvent (VkOutcome × Buffer))) : Bool :=
  events.foldl (fun used e =>
    match e with
    | .submit _ c => if ringSize < c.2.bytes.length then used else c.1.queueSubmit
    | .complete => used) true

/-- Every job that gets as far as its Vulkan calls finds none outstanding, and the fence is reset
if it is to be. -/
def Aes256Batcher.Orderly (events : List (BatcherEvent (VkOutcome × Buffer))) : Prop :=
  ∀ pre resets vk input post, events = pre ++ .submit resets (vk, input) :: post →
    input.bytes.length ≤ ringSize →
      Aes256Batcher.outstanding pre = false ∧
        (Aes256Batcher.fenceUsed pre = true → resets.fence = true)

def Aes256Batcher.syncState (events : List (BatcherEvent (VkOutcome × Buffer))) : State Unit :=
  Aes256Batcher.createSyncObjects.run
    (events.flatMap (BatcherEvent.syncCalls (fun resets c =>
      Aes256Batcher.syncCalls resets c.1 c.2)))

section Orderly

@[simp] lemma Aes256Batcher.outstanding_complete
    (events : List (BatcherEvent (VkOutcome × Buffer))) :
    Aes256Batcher.outstanding (events ++ [.complete]) = false := by
  rw [Aes256Batcher.outstanding, List.foldl_append]
  rfl

lemma Aes256Batcher.outstanding_submit (events : List (BatcherEvent (VkOutcome × Buffer)))
    (resets : ResetOutcome) (c : VkOutcome × Buffer) :
    Aes256Batcher.outstanding (events ++ [.submit resets c]) =
      if ringSize < c.2.bytes.length then Aes256Batcher.outstanding events
      else c.1.queueSubmit && !c.1.completed := by
  rw [Aes256Batcher.outstanding, List.foldl_append]
  rfl

@[simp] lemma Aes256Batcher.fenceUsed_complete
    (events : List (BatcherEvent (VkOutcome × Buffer))) :
    Aes256Batcher.fenceUsed (events ++ [.complete]) = Aes256Batcher.fenceUsed events := by
  rw [Aes256Batcher.fenceUsed, List.foldl_append]
  rfl

lemma Aes256Batcher.fenceUsed_submit (events : List (BatcherEvent (VkOutcome × Buffer)))
    (resets : ResetOutcome) (c : VkOutcome × Buffer) :
    Aes256Batcher.fenceUsed (events ++ [.submit resets c]) =
      if ringSize < c.2.bytes.length then Aes256Batcher.fenceUsed events
      else c.1.queueSubmit := by
  rw [Aes256Batcher.fenceUsed, List.foldl_append]
  rfl

variable {events : List (BatcherEvent (VkOutcome × Buffer))}

lemma Aes256Batcher.orderly_concat {e : BatcherEvent (VkOutcome × Buffer)} :
    Aes256Batcher.Orderly (events ++ [e]) ↔ Aes256Batcher.Orderly events ∧
      ∀ resets vk input, e = .submit resets (vk, input) → input.bytes.length ≤ ringSize →
        Aes256Batcher.outstanding events = false ∧
          (Aes256Batcher.fenceUsed events = true → resets.fence = true) := by
  constructor
  · intro h
    refine ⟨fun pre resets vk input post heq => h pre resets vk input (post ++ [e]) ?_,
      fun resets vk input he => h events resets vk input [] (by rw [he])⟩
    rw [heq, List.append_assoc, List.cons_append]
  · rintro ⟨hall, hlast⟩ pre resets vk input post heq
    rcases List.eq_nil_or_concat post with rfl | ⟨post, f, rfl⟩
    · obtain ⟨rfl, he⟩ := List.append_inj' heq rfl
      exact hlast resets vk input (List.singleton_inj.mp he)
    · rw [List.concat_eq_append, ← List.cons_append, ← List.append_assoc] at heq
      exact hall pre resets vk input post (List.append_inj' heq rfl).1

lemma Aes256Batcher.fenceUsed_of_outstanding (events : List (BatcherEvent (VkOutcome × Buffer)))
    (h : Aes256Batcher.outstanding events = true) : Aes256Batcher.fenceUsed events = true := by
  induction events using List.reverseRecOn with
  | nil => rfl
  | append_singleton events e ih =>
    cases e with
    | complete => simp at h
    | submit resets c =>
      rw [Aes256Batcher.outstanding_submit] at h
      rw [Aes256Batcher.fenceUsed_submit]
      by_cases hring : ringSize < c.2.bytes.length
      · rw [if_pos hring] at h ⊢
        exact ih h
      · rw [if_neg hring] at h ⊢
        exact (Bool.and_eq_true_iff.mp h).1

/-- A submission with an unsignaled fence. -/
lemma VkOutcome.run_syncCalls (vk : VkOutcome) :
    ({ fence := .unsignaled, buffers := fun _ => .recordable } : State Unit).run
        (vk.syncCalls ()) =
      { fence :=
          if vk.queueSubmit && !vk.completed then .pending
          else if vk.queueSubmit then .signaled else .unsignaled
        buffers := fun _ =>
          if vk.queueSubmit && !vk.completed then .pending else .recordable } := by
  unfold VkOutcome.syncCalls
  cases vk.queueSubmit with
  | false => rfl
  | true =>
    cases vk.completed with
    | true => rfl
    | false =>
      simp only [State.run, State.step, Function.update_eq_const_of_subsingleton]
      rfl

lemma VkOutcome.legal_syncCalls (vk : VkOutcome) :
    ({ fence := .unsignaled, buffers := fun _ => .recordable } : State Unit).Legal
      (vk.syncCalls ()) := by
  refine ⟨rfl, ?_⟩
  split
  · exact ⟨trivial, trivial⟩
  · trivial

/-- What an orderly run leaves. -/
lemma Aes256Batcher.syncState_of_orderly (h : Aes256Batcher.Orderly events) :
    Aes256Batcher.syncState events =
      { fence :=
          if Aes256Batcher.outstanding events then .pending
          else if Aes256Batcher.fenceUsed events then .signaled else .unsignaled
        buffers := fun _ =>
          if Aes256Batcher.outstanding events then .pending else .recordable } := by
  induction events using List.reverseRecOn with
  | nil => rfl
  | append_singleton events e ih =>
    obtain ⟨hall, hlast⟩ := Aes256Batcher.orderly_concat.mp h
    have hs := ih hall
    have hrun : Aes256Batcher.syncState (events ++ [e]) =
        (Aes256Batcher.syncState events).run
          (e.syncCalls (fun resets c => Aes256Batcher.syncCalls resets c.1 c.2)) := by
      simp only [Aes256Batcher.syncState, List.flatMap_append, State.run_append, List.flatMap_cons,
        List.flatMap_nil, List.append_nil]
    cases e with
    | complete =>
      rw [hrun, hs, Aes256Batcher.outstanding_complete, Aes256Batcher.fenceUsed_complete]
      simp only [BatcherEvent.syncCalls, State.run, State.step]
      cases hout : Aes256Batcher.outstanding events with
      | true => simp [Aes256Batcher.fenceUsed_of_outstanding events hout]
      | false => cases Aes256Batcher.fenceUsed events <;> simp
    | submit resets c =>
      rw [hrun]
      by_cases hring : ringSize < c.2.bytes.length
      · rw [Aes256Batcher.outstanding_submit, Aes256Batcher.fenceUsed_submit, if_pos hring,
          if_pos hring, BatcherEvent.syncCalls, Aes256Batcher.syncCalls, if_pos hring]
        exact hs
      · obtain ⟨hnone, hreset⟩ := hlast resets c.1 c.2 rfl (by omega)
        rw [hnone, if_neg Bool.false_ne_true, if_neg Bool.false_ne_true] at hs
        rw [Aes256Batcher.outstanding_submit, Aes256Batcher.fenceUsed_submit, if_neg hring,
          if_neg hring, BatcherEvent.syncCalls, Aes256Batcher.syncCalls, if_neg hring, State.run,
          State.step_resetBuffer (by rw [hs]), State.run, hs,
          State.step_resetFence (by simpa using hreset), VkOutcome.run_syncCalls]

/-- A run of an `AES256Batcher` keeps to the rules exactly if it is orderly. -/
lemma Aes256Batcher.legal_iff (events : List (BatcherEvent (VkOutcome × Buffer))) :
    Aes256Batcher.createSyncObjects.Legal
        (events.flatMap (BatcherEvent.syncCalls (fun resets c =>
          Aes256Batcher.syncCalls resets c.1 c.2))) ↔ Aes256Batcher.Orderly events := by
  induction events using List.reverseRecOn with
  | nil => exact iff_of_true trivial (fun pre resets vk input post heq => by simp at heq)
  | append_singleton events e ih =>
    rw [Aes256Batcher.orderly_concat, List.flatMap_append, State.legal_append, ih,
      List.flatMap_singleton]
    refine and_congr_right (fun horderly => ?_)
    change (Aes256Batcher.syncState events).Legal _ ↔ _
    have hs := Aes256Batcher.syncState_of_orderly horderly
    cases e with
    | complete =>
      exact iff_of_true ⟨trivial, trivial⟩ (fun resets vk input he => by cases he)
    | submit resets c =>
      rw [BatcherEvent.syncCalls, Aes256Batcher.syncCalls]
      by_cases hring : ringSize < c.2.bytes.length
      · rw [if_pos hring]
        refine iff_of_true trivial (fun resets' vk input he hlen => ?_)
        obtain ⟨-, rfl⟩ := BatcherEvent.submit.inj he
        exact absurd hlen (Nat.not_le.mpr hring)
      · rw [if_neg hring, hs]
        constructor
        · intro hlegal resets' vk input he _
          obtain ⟨rfl, -⟩ := BatcherEvent.submit.inj he
          have hnone : Aes256Batcher.outstanding events = false := by
            rw [← Bool.not_eq_true]
            exact fun hout => hlegal.1 (if_pos hout)
          refine ⟨hnone, fun hused => ?_⟩
          have hunsignaled := hlegal.2.2.1
          rw [hnone, State.step_resetBuffer rfl] at hunsignaled
          cases hok : resets.fence with
          | true => rfl
          | false => simp [hok, hused, State.Allows, State.step] at hunsignaled
        · intro hcond
          obtain ⟨hnone, hreset⟩ := hcond resets c.1 c.2 rfl (by omega)
          rw [hnone, if_neg Bool.false_ne_true, if_neg Bool.false_ne_true, State.Legal,
            State.Legal, State.step_resetBuffer rfl, State.step_resetFence hreset]
          refine ⟨?_, ?_, VkOutcome.legal_syncCalls c.1⟩
          · exact fun h => by cases h
          · split <;> exact fun h => by cases h

end Orderly

/-- Over runs of any length and whatever the Vulkan calls return: a `Batcher` keeps to the rules of
its fence and command buffers exactly if it submits nothing after a job that was queued, and an
`AES256Batcher` exactly if it submits nothing while a job is outstanding and `vkResetFences`
succeeds whenever the fence has been used. -/
theorem sync_legal_iff (pipelines : Algorithm → Bool) (events : List (BatcherEvent BatcherCall))
    (events256 : List (BatcherEvent (VkOutcome × Buffer))) :
    (Batcher.createSyncObjects.Legal
        (events.flatMap (BatcherEvent.syncCalls (Batcher.syncCalls pipelines))) ↔
      ∀ pre resets c post, events = pre ++ .submit resets c :: post →
        Batcher.Accepts pipelines c.input.bytes.length c.alg → ¬Batcher.Queued pipelines pre) ∧
    (Aes256Batcher.createSyncObjects.Legal
        (events256.flatMap (BatcherEvent.syncCalls (fun resets c =>
          Aes256Batcher.syncCalls resets c.1 c.2))) ↔
      ∀ pre resets vk input post, events256 = pre ++ .submit resets (vk, input) :: post →
        input.bytes.length ≤ ringSize →
          Aes256Batcher.outstanding pre = false ∧
            (Aes256Batcher.fenceUsed pre = true → resets.fence = true)) :=
  ⟨Batcher.legal_iff pipelines events, Aes256Batcher.legal_iff events256⟩

/-- Two jobs on a `Batcher`, all calls succeeding: the second `vkQueueSubmit` finds the fence
signaled. On an `AES256Batcher` whose wait fails, the second job resets a pending command buffer,
and on one whose `vkResetFences` fails the first `vkQueueSubmit` finds the fence signaled. -/
theorem sync_not_legal :
    let c : BatcherCall := ⟨.success, ⟨List.replicate 64 5, by decide⟩, Vector.replicate 32 7,
      Vector.replicate 16 8, .chacha20⟩
    let lost : VkOutcome := ⟨true, false, false, fun _ h => h⟩
    let calls256 := BatcherEvent.syncCalls (fun resets (c : VkOutcome × Buffer) =>
      Aes256Batcher.syncCalls resets c.1 c.2)
    ¬Batcher.createSyncObjects.Legal ([.submit ⟨true, true⟩ c, .submit ⟨true, true⟩ c].flatMap
        (BatcherEvent.syncCalls (Batcher.syncCalls (fun _ => true)))) ∧
      ¬Aes256Batcher.createSyncObjects.Legal (
        [.submit ⟨true, true⟩ (lost, c.input), .submit ⟨true, true⟩ (lost, c.input)].flatMap
          calls256) ∧
      ¬Aes256Batcher.createSyncObjects.Legal (
        [.submit ⟨true, false⟩ (.success, c.input)].flatMap calls256) := by
  intro c lost calls256
  refine ⟨?_, ?_, ?_⟩
  · rw [Batcher.legal_iff]
    intro h
    exact h [.submit ⟨true, true⟩ c] ⟨true, true⟩ c [] rfl (by decide)
      ⟨⟨true, true⟩, c, List.mem_cons_self, by decide, rfl⟩
  · rw [Aes256Batcher.legal_iff]
    intro h
    exact absurd (h [.submit ⟨true, true⟩ (lost, c.input)] ⟨true, true⟩ lost c.input [] rfl
      (by decide)).1 (by decide)
  · rw [Aes256Batcher.legal_iff]
    intro h
    exact absurd ((h [] ⟨true, false⟩ .success c.input [] rfl (by decide)).2 rfl) (by decide)

end GpuCrypt
