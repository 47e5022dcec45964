import Mathlib.Data.List.Perm.Basic
import Mathlib.Tactic

/-!
# A cell that is filled on first use

Clients that need the value of a cell look whether it is full, and make a value and store it if it
is not. Between the three steps of one client others may take theirs. Every client that looks before
the first store makes a value, and all but the last of these stores are overwritten.
-/

namespace LazyCell

variable {ι : Type*}

/-- How far a client has come. -/
inductive Stage
  | idle
  | making
  | made
deriving DecidableEq, Repr

structure State (ι : Type*) where
  full : Bool
  stage : ι → Stage

def start : State ι := { full := false, stage := fun _ => .idle }

inductive Step (ι : Type*)
  | check (i : ι)
  | make (i : ι)
  | store (i : ι)

def Step.client : Step ι → ι
  | .check i => i
  | .make i => i
  | .store i => i

/-- The stage from which the client takes the step. -/
def Step.stage : Step ι → Stage
  | .check _ => .idle
  | .make _ => .making
  | .store _ => .made

/-- The client has come to the step. -/
def State.Enabled (x : State ι) (c : Step ι) : Prop := x.stage c.client = c.stage

/-- The stage to which the step takes the client. -/
def State.target (x : State ι) : Step ι → Stage
  | .check _ => if x.full then .idle else .making
  | .make _ => .made
  | .store _ => .idle

def State.fullAfter (x : State ι) : Step ι → Bool
  | .store _ => true
  | _ => x.full

/-- The clients that look before the first store. -/
def earlyChecks : List (Step ι) → List ι
  | [] => []
  | .check i :: steps => i :: earlyChecks steps
  | .make _ :: steps => earlyChecks steps
  | .store _ :: _ => []

/-- The clients of the steps from a stage. -/
def clients (stage : Stage) (steps : List (Step ι)) : List ι :=
  (steps.filter (fun c => c.stage = stage)).map Step.client

/-- The clients that make a value. -/
abbrev makers : List (Step ι) → List ι := clients .making

/-- The clients that store one. -/
abbrev storers : List (Step ι) → List ι := clients .made

/-- 1 if the client is in the stage, and 0 if it is not. -/
def State.count (x : State ι) (stage : Stage) (i : ι) : ℕ := if x.stage i = stage then 1 else 0

variable [DecidableEq ι]

def State.next (x : State ι) (c : Step ι) : State ι :=
  { full := x.fullAfter c, stage := Function.update x.stage c.client (x.target c) }

/-- The state after the steps, each of which has to be enabled. -/
inductive Run : State ι → List (Step ι) → State ι → Prop
  | nil (x : State ι) : Run x [] x
  | cons {x y : State ι} {c : Step ι} {steps : List (Step ι)} (henabled : x.Enabled c)
      (hrun : Run (x.next c) steps y) : Run x (c :: steps) y

/-- A step takes its client from one stage to another. -/
lemma State.count_next {x : State ι} {c : Step ι} (h : x.Enabled c) (stage : Stage) (i : ι) :
    (x.next c).count stage i + (if c.client = i ∧ c.stage = stage then 1 else 0) =
      x.count stage i + (if c.client = i ∧ x.target c = stage then 1 else 0) := by
  rw [State.Enabled] at h
  by_cases hi : c.client = i
  · subst hi
    simp only [State.count, State.next, Function.update_self, h, true_and]
    exact Nat.add_comm _ _
  · simp [State.count, State.next, Function.update_of_ne (Ne.symm hi), hi]

lemma count_clients_cons (stage : Stage) (c : Step ι) (steps : List (Step ι)) (i : ι) :
    (clients stage (c :: steps)).count i =
      (clients stage steps).count i + if c.client = i ∧ c.stage = stage then 1 else 0 := by
  by_cases hstage : c.stage = stage
  · simp [clients, hstage, List.count_cons]
  · simp [clients, hstage]

/-- A client stores each value that it makes. -/
lemma Run.count_storers {x y : State ι} {steps : List (Step ι)} (h : Run x steps y) (i : ι) :
    (storers steps).count i + y.count .made i = (makers steps).count i + x.count .made i := by
  rw [makers, storers]
  induction h with
  | nil x => rfl
  | @cons x y c steps henabled _ ih =>
    have htarget : x.target c = .made ↔ c.stage = .making := by
      cases c <;> cases hfull : x.full <;> simp [State.target, Step.stage, hfull]
    have hstep := State.count_next henabled .made i
    rw [if_congr (and_congr_right' htarget) rfl rfl] at hstep
    rw [count_clients_cons, count_clients_cons]
    omega

/-- A client makes a value each time it has found the cell empty. -/
lemma Run.count_makers {x y : State ι} {steps : List (Step ι)} (h : Run x steps y) (i : ι) :
    (makers steps).count i + y.count .making i =
      cond x.full 0 ((earlyChecks steps).count i) + x.count .making i := by
  rw [makers]
  induction h with
  | nil x => simp [clients, earlyChecks]
  | @cons x y c steps henabled _ ih =>
    -- what the step adds to the early checks it also takes to the making clients
    have hearly : cond x.full 0 ((earlyChecks (c :: steps)).count i) =
        cond (x.next c).full 0 ((earlyChecks steps).count i) +
          if c.client = i ∧ x.target c = .making then 1 else 0 := by
      cases c with
      | check j =>
        cases hfull : x.full <;> simp [earlyChecks, State.next, State.fullAfter, State.target,
          Step.client, hfull, List.count_cons]
      | make j => simp [earlyChecks, State.next, State.fullAfter, State.target]
      | store j => simp [earlyChecks, State.next, State.fullAfter, State.target]
    have hstep := State.count_next henabled .making i
    rw [count_clients_cons, hearly]
    omega

/-- When no client is under way any more, those that made a value are those that looked before the
first store, and each of them has stored its value. -/
theorem Run.settled {y : State ι} {steps : List (Step ι)} (h : Run start steps y)
    (hidle : ∀ i, y.stage i = .idle) :
    (makers steps).Perm (earlyChecks steps) ∧ (storers steps).Perm (makers steps) := by
  have hcount : ∀ stage, stage ≠ .idle → ∀ i,
      y.count stage i = (start : State ι).count stage i := by
    intro stage hstage i
    rw [State.count, State.count, hidle i]
    rfl
  constructor
  · apply List.perm_iff_count.mpr
    intro i
    have hmakers := h.count_makers i
    rw [hcount .making (by decide) i] at hmakers
    exact Nat.add_right_cancel hmakers
  · apply List.perm_iff_count.mpr
    intro i
    have hstorers := h.count_storers i
    rw [hcount .made (by decide) i] at hstorers
    exact Nat.add_right_cancel hstorers

end LazyCell
