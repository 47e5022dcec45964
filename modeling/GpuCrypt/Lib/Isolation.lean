import Mathlib.Data.List.Basic
import Mathlib.Data.List.ReduceOption
import Mathlib.Tactic.Common

/-!
# Clients of a shared system

A system answers the calls of several clients one after the other, in one state. A client is
isolated if the calls of the others make no difference to it. By `Unwinding.run_isolated` it is
enough to look at single calls: those of others keep what the client can tell of the state, and its
own calls depend on that alone.
-/

namespace Isolation

variable {σ τ κ μ ρ ι : Type*}

/-- The answers to the calls, and the state they leave. -/
def run (step : σ → κ → σ × ρ) : σ → List κ → List ρ × σ
  | s, [] => ([], s)
  | s, c :: cs => ((step s c).2 :: (run step (step s c).1 cs).1, (run step (step s c).1 cs).2)

/-- A forward simulation: related states answer a call alike, and stay related. -/
lemma run_simulation {step : σ → κ → σ × ρ} {step' : τ → μ → τ × ρ} {R : σ → τ → Prop} {g : κ → μ}
    {Ok : κ → Prop}
    (hstep : ∀ s t c, Ok c → R s t →
      (step s c).2 = (step' t (g c)).2 ∧ R (step s c).1 (step' t (g c)).1)
    {s : σ} {t : τ} (hst : R s t) {calls : List κ} (hok : ∀ c ∈ calls, Ok c) :
    (run step s calls).1 = (run step' t (calls.map g)).1 ∧
      R (run step s calls).2 (run step' t (calls.map g)).2 := by
  induction calls generalizing s t with
  | nil => exact ⟨rfl, hst⟩
  | cons c calls ih =>
    obtain ⟨hanswer, hnext⟩ := hstep s t c (hok c List.mem_cons_self) hst
    obtain ⟨hanswers, hend⟩ := ih hnext (fun d hd => hok d (List.mem_cons_of_mem c hd))
    simp only [run, List.map_cons, hanswer, hanswers]
    exact ⟨trivial, hend⟩

/-- A map from the states of one system to those of another that every call respects. -/
lemma run_map {step : σ → κ → σ × ρ} {step' : τ → κ → τ × ρ} {f : σ → τ} {Ok : κ → Prop}
    (hstep : ∀ s c, Ok c → step' (f s) c = (f (step s c).1, (step s c).2)) (s : σ)
    {calls : List κ} (hok : ∀ c ∈ calls, Ok c) :
    run step' (f s) calls = ((run step s calls).1, f (run step s calls).2) := by
  have hsim : ∀ s t c, Ok c → t = f s →
      (step s c).2 = (step' t c).2 ∧ (step' t c).1 = f (step s c).1 := by
    rintro s _ c hc rfl
    rw [hstep s c hc]
    exact ⟨rfl, rfl⟩
  obtain ⟨hanswers, hend⟩ := run_simulation (R := fun s t => t = f s) (g := id) hsim rfl hok
  rw [List.map_id] at hanswers hend
  exact Prod.ext hanswers.symm hend

/-- The calls to another system that the calls of a run stand for. A call may stand for none. -/
def history (step : σ → κ → σ × ρ) (g : σ → κ → Option μ) : σ → List κ → List μ
  | _, [] => []
  | s, c :: cs => (g s c).toList ++ history step g (step s c).1 cs

/-- A forward simulation with stuttering: a call that stands for none has no answer, and leaves a
state that is still related. -/
lemma run_stuttering {step : σ → κ → σ × Option ρ} {step' : τ → μ → τ × Option ρ}
    {R : σ → τ → Prop} {g : σ → κ → Option μ} {Ok : κ → Prop}
    (hnone : ∀ s t c, Ok c → R s t → g s c = none → (step s c).2 = none ∧ R (step s c).1 t)
    (hsome : ∀ s t c d, Ok c → R s t → g s c = some d →
      (step s c).2 = (step' t d).2 ∧ R (step s c).1 (step' t d).1)
    {s : σ} {t : τ} (hst : R s t) {calls : List κ} (hok : ∀ c ∈ calls, Ok c) :
    (run step s calls).1.reduceOption =
        (run step' t (history step g s calls)).1.reduceOption ∧
      R (run step s calls).2 (run step' t (history step g s calls)).2 := by
  induction calls generalizing s t with
  | nil => exact ⟨rfl, hst⟩
  | cons c calls ih =>
    have hc := hok c List.mem_cons_self
    have hlater : ∀ d ∈ calls, Ok d := fun d hd => hok d (List.mem_cons_of_mem c hd)
    cases hg : g s c with
    | none =>
      obtain ⟨hanswer, hnext⟩ := hnone s t c hc hst hg
      obtain ⟨hanswers, hend⟩ := ih hnext hlater
      simp only [run, history, hg, Option.toList_none, List.nil_append, hanswer,
        List.reduceOption_cons_of_none]
      exact ⟨hanswers, hend⟩
    | some d =>
      obtain ⟨hanswer, hnext⟩ := hsome s t c d hc hst hg
      obtain ⟨hanswers, hend⟩ := ih hnext hlater
      simp only [run, history, hg, Option.toList_some, List.singleton_append, hanswer]
      refine ⟨?_, hend⟩
      cases (step' t d).2 with
      | none => exact hanswers
      | some a => exact congrArg (List.cons a) hanswers

variable [DecidableEq ι]

/-- The answers, among those of a run, to the calls of client `i`. -/
def answersOf (owner : κ → ι) (i : ι) : List κ → List ρ → List ρ
  | c :: cs, a :: as =>
    if owner c = i then a :: answersOf owner i cs as else answersOf owner i cs as
  | _, _ => []

/-- Client `i` cannot tell the states apart that `Same` relates: the calls of others keep `Same` on
one side, and its own calls keep it on both, with the same answers. -/
structure Unwinding (step : σ → κ → σ × ρ) (owner : κ → ι) (i : ι) (Inv : σ → Prop)
    (Ok : κ → Prop) (Same : σ → σ → Prop) : Prop where
  inv : ∀ s c, Ok c → Inv s → Inv (step s c).1
  others : ∀ s t c, Ok c → Inv s → Same s t → owner c ≠ i → Same (step s c).1 t
  own : ∀ s t c, Ok c → Inv s → Inv t → Same s t → owner c = i →
    (step s c).2 = (step t c).2 ∧ Same (step s c).1 (step t c).1

/-- A run with the calls of all clients is, for client `i`, the run of its own calls. -/
theorem Unwinding.run_isolated {step : σ → κ → σ × ρ} {owner : κ → ι} {i : ι} {Inv : σ → Prop}
    {Ok : κ → Prop} {Same : σ → σ → Prop} (h : Unwinding step owner i Inv Ok Same) {s t : σ}
    (hs : Inv s) (ht : Inv t) (hsame : Same s t) {calls : List κ} (hok : ∀ c ∈ calls, Ok c) :
    answersOf owner i calls (run step s calls).1 =
        (run step t (calls.filter (fun c => owner c = i))).1 ∧
      Same (run step s calls).2 (run step t (calls.filter (fun c => owner c = i))).2 := by
  induction calls generalizing s t with
  | nil => exact ⟨rfl, hsame⟩
  | cons c calls ih =>
    have hc := hok c List.mem_cons_self
    have hlater : ∀ d ∈ calls, Ok d := fun d hd => hok d (List.mem_cons_of_mem c hd)
    by_cases howner : owner c = i
    · obtain ⟨hanswer, hnext⟩ := h.own s t c hc hs ht hsame howner
      obtain ⟨hanswers, hend⟩ := ih (h.inv s c hc hs) (h.inv t c hc ht) hnext hlater
      rw [List.filter_cons_of_pos (by simpa using howner)]
      simp only [run, answersOf, if_pos howner, hanswer, hanswers]
      exact ⟨trivial, hend⟩
    · have hnext := h.others s t c hc hs hsame howner
      obtain ⟨hanswers, hend⟩ := ih (h.inv s c hc hs) ht hnext hlater
      rw [List.filter_cons_of_neg (by simpa using howner)]
      simp only [run, answersOf, if_neg howner, hanswers]
      exact ⟨trivial, hend⟩

end Isolation
