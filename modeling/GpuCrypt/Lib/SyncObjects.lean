import Mathlib.Data.List.Basic
import Mathlib.Tactic.Common

/-!
# Fences and command buffers

The states of a fence and of the command buffers that are submitted with it, and the rules of the
calls on them: a submission needs its fence unsignaled, and neither the fence nor a command buffer
may be reset while a submission is pending. A trace is legal if every call meets its rule in the
state the calls before it leave.
-/

namespace SyncObjects

inductive Fence
  | unsignaled
  | signaled
  | pending
deriving DecidableEq, Repr

inductive CommandBuffer
  | recordable
  | pending
deriving DecidableEq, Repr

structure State (ι : Type*) where
  fence : Fence
  buffers : ι → CommandBuffer

/-- A call on the objects, with its result, or the completion of whatever is pending. A call that
fails leaves the objects as they are. -/
inductive Call (ι : Type*)
  | resetBuffer (i : ι) (ok : Bool)
  | resetFence (ok : Bool)
  | submit (i : ι) (ok : Bool)
  | complete
deriving DecidableEq, Repr

variable {ι : Type*}

def State.Allows (s : State ι) : Call ι → Prop
  | .resetBuffer i _ => s.buffers i ≠ .pending
  | .resetFence _ => s.fence ≠ .pending
  | .submit _ _ => s.fence = .unsignaled
  | .complete => True

variable [DecidableEq ι]

instance (s : State ι) (c : Call ι) : Decidable (s.Allows c) := by
  cases c <;> unfold State.Allows <;> infer_instance

def State.step (s : State ι) : Call ι → State ι
  | .resetBuffer i true => { s with buffers := Function.update s.buffers i .recordable }
  | .resetFence true => { s with fence := .unsignaled }
  | .submit i true => { fence := .pending, buffers := Function.update s.buffers i .pending }
  | .resetBuffer _ false => s
  | .resetFence false => s
  | .submit _ false => s
  | .complete =>
    { fence := if s.fence = .pending then .signaled else s.fence
      buffers := fun _ => .recordable }

@[simp] lemma State.fence_resetBuffer (s : State ι) (i : ι) (ok : Bool) :
    (s.step (.resetBuffer i ok)).fence = s.fence := by
  cases ok <;> rfl

/-- Where no command buffer is pending, the reset of one changes nothing. -/
lemma State.step_resetBuffer {s : State ι} (h : s.buffers = fun _ => .recordable) (i : ι)
    (ok : Bool) : s.step (.resetBuffer i ok) = s := by
  cases ok with
  | true => rw [State.step, h, Function.update_eq_self, ← h]
  | false => rfl

/-- A fence that is unsignaled, or reset, is unsignaled. -/
lemma State.step_resetFence {used ok : Bool} (h : used = true → ok = true)
    (buffers : ι → CommandBuffer) :
    ({ fence := if used then .signaled else .unsignaled, buffers := buffers } : State ι).step
        (.resetFence ok) = { fence := .unsignaled, buffers := buffers } := by
  cases ok with
  | true => rfl
  | false =>
    have hused : ¬used = true := fun hused => Bool.false_ne_true (h hused)
    rw [State.step, if_neg hused]

lemma State.step_submit_false (s : State ι) (i : ι) : s.step (.submit i false) = s := rfl

def State.run : State ι → List (Call ι) → State ι
  | s, [] => s
  | s, c :: cs => (s.step c).run cs

def State.Legal : State ι → List (Call ι) → Prop
  | _, [] => True
  | s, c :: cs => s.Allows c ∧ (s.step c).Legal cs

lemma State.run_append (s : State ι) (cs ds : List (Call ι)) :
    s.run (cs ++ ds) = (s.run cs).run ds := by
  induction cs generalizing s with
  | nil => rfl
  | cons c cs ih => exact ih (s.step c)

lemma State.legal_append (s : State ι) (cs ds : List (Call ι)) :
    s.Legal (cs ++ ds) ↔ s.Legal cs ∧ (s.run cs).Legal ds := by
  induction cs generalizing s with
  | nil => simp [State.Legal, State.run]
  | cons c cs ih => simp only [List.cons_append, State.Legal, State.run, ih, and_assoc]

/-- A trace put together from events is legal if the calls of every event are legal after the
events before it. -/
theorem State.legal_flatMap {ε : Type*} (s : State ι) (calls : ε → List (Call ι))
    (events : List ε) :
    s.Legal (events.flatMap calls) ↔ ∀ pre e post, events = pre ++ e :: post →
      (s.run (pre.flatMap calls)).Legal (calls e) := by
  induction events generalizing s with
  | nil => simp [State.Legal]
  | cons e events ih =>
    rw [List.flatMap_cons, s.legal_append, ih]
    constructor
    · rintro ⟨hfirst, hlater⟩ pre d post heq
      cases pre with
      | nil =>
        obtain ⟨rfl, -⟩ := List.cons.inj heq
        exact hfirst
      | cons c pre =>
        obtain ⟨rfl, htail⟩ := List.cons.inj heq
        rw [List.flatMap_cons, s.run_append]
        exact hlater pre d post htail
    · intro hall
      refine ⟨hall [] e events rfl, fun pre d post heq => ?_⟩
      have hd := hall (e :: pre) d post (by rw [heq, List.cons_append])
      rwa [List.flatMap_cons, s.run_append] at hd

end SyncObjects
