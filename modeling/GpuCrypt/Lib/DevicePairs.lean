import GpuCrypt.Lib.SharedDevice

/-!
# Two devices side by side

The clients of two devices take their steps in one schedule. The devices have no memory in common,
so that the clients of each see the run of their own steps, and the run does not depend on how the
steps for the two are merged.
-/

namespace SharedDevice

variable {σ τ J K α ι κ : Type*}

/-- A pair of devices; a job is for one of them. -/
def Device.sum (D : Device σ J α) (E : Device τ K α) : Device (σ × τ) (J ⊕ K) α where
  load
    | (s, t), .inl j => (((D.load s j).1, t), (D.load s j).2)
    | (s, t), .inr k => ((s, (E.load t k).1), (E.load t k).2)
  configure
    | (s, t), .inl j, w => (D.configure s j w, t)
    | (s, t), .inr k, w => (s, E.configure t k w)
  run
    | (s, t), .inl j => (D.run s j, t)
    | (s, t), .inr k => (s, E.run t k)
  fetch
    | (s, _), .inl j, w => D.fetch s j w
    | (_, t), .inr k, w => E.fetch t k w
  inputSpan := Sum.elim D.inputSpan E.inputSpan
  outputSpan := Sum.elim D.outputSpan E.outputSpan

/-- What the clients of the first device see. -/
def State.left (x : State (σ × τ) (ι ⊕ κ) α) : State σ ι α where
  shared := x.shared.1
  stage := x.stage ∘ .inl

/-- What the clients of the second device see. -/
def State.right (x : State (σ × τ) (ι ⊕ κ) α) : State τ κ α where
  shared := x.shared.2
  stage := x.stage ∘ .inr

namespace Device

variable (D : Device σ J α) (E : Device τ K α)

variable [DecidableEq ι] [DecidableEq κ] (jobs : ι → J) (jobs' : κ → K)

end Device

/-! ### Clients that take turns on each device -/

namespace Device

variable (D : Device σ J α)

variable [DecidableEq ι] (jobs : ι → J)

end Device

end SharedDevice
