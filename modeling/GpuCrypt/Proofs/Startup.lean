import GpuCrypt.Lib.LazyCell
import GpuCrypt.Model.Startup
import GpuCrypt.Proofs.ContextIsolation

/-!
# Contexts made by several threads

A `newctx` that is late may assign a second backend, in the middle of the streams of other contexts.
None of them can tell, since a backend without its memory is as good as another. But the backends
that are assigned before it are lost.
-/

namespace GpuCrypt

variable {σ ω ι : Type} {P : σ → Prop}

/-- The context does not depend on the backend. -/
lemma Vc6Functions.newctx_snd (functions : Vc6Functions) (vc6Init vc6Init' : σ)
    (innerBackend innerBackend' : Option σ) :
    (functions.newctx vc6Init innerBackend).2 = (functions.newctx vc6Init' innerBackend').2 := by
  cases functions <;> rfl

/-! ### What the steps keep -/

/-- The backends are in `P`, and no context is live at the address of a `newctx` that is under way.
-/
structure Vc6Threads.Started (P : σ → Prop) (p : Vc6Threads ι σ) : Prop where
  provider : p.toVc6Provider.Started P
  inited : ∀ i functions backend, p.newctxs i = some (functions, some backend) → P backend
  vacant : ∀ i, p.newctxs i ≠ none → p.ctxs i = none

lemma Vc6Threads.started_load : (Vc6Threads.load : Vc6Threads ι σ).Started P where
  provider := Vc6Provider.started_load
  inited _ _ _ h := by cases h
  vacant _ _ := rfl

variable [DecidableEq ι]

/-- A request other than `newctx` is a step of the provider. -/
lemma Vc6Threads.step_call (be : ω → Backend σ) (vc6Init : σ) (p : Vc6Threads ι σ) (i : ι)
    (outcome : ω) (c : ContextCall) :
    p.step be (.call i outcome c) =
      ({ p with toVc6Provider := (p.toVc6Provider.step be vc6Init ⟨i, .call outcome c⟩).1 },
        (p.toVc6Provider.step be vc6Init ⟨i, .call outcome c⟩).2) := by
  simp only [Vc6Threads.step, Vc6Provider.step]
  cases p.ctxs i <;> rfl

lemma Vc6Threads.step_freectx (be : ω → Backend σ) (vc6Init : σ) (p : Vc6Threads ι σ) (i : ι) :
    p.step be (.freectx i) =
      ({ p with toVc6Provider := (p.toVc6Provider.step be vc6Init ⟨i, .freectx⟩).1 },
        (p.toVc6Provider.step be vc6Init ⟨i, .freectx⟩).2) := by
  simp only [Vc6Threads.step, Vc6Provider.step]
  cases p.ctxs i <;> rfl

/-- A request other than `newctx` makes no context. -/
lemma Vc6Provider.ctxs_step_none {be : ω → Backend σ} {vc6Init : σ} {p : Vc6Provider ι σ}
    {c : Vc6Call ι ω} (hnew : ∀ functions, c.request ≠ .newctx functions) {j : ι}
    (hj : p.ctxs j = none) : (p.step be vc6Init c).1.ctxs j = none := by
  by_cases hne : c.ctx = j
  · obtain ⟨i, request⟩ := c
    subst hne
    cases request with
    | newctx functions => exact absurd rfl (hnew functions)
    | freectx => simp only [Vc6Provider.step, hj]
    | call outcome call => simp only [Vc6Provider.step, hj]
  · rw [p.ctxs_step_of_ne hne, hj]

/-- Steps that meet the conditions under which the batchers cannot be told from functions: the
backends of `vc6_init` have the same pipelines, and every queued job has completed when its wait
returns. -/
def Vc6Step.Settled (pipelines : Algorithm → Bool) :
    Vc6Step ι (Job → VkOutcome) Vc6Backend → Prop
  | .init _ backend => backend.chacha.pipelines = pipelines
  | .call i vk c => Vc6Call.Settled (ι := ι) ⟨i, .call vk c⟩
  | _ => True

/-! ### The provider with atomic requests -/

abbrev SamePipelines (vc6Init : Vc6Backend) : Vc6Backend → Prop :=
  fun s => s.chacha.pipelines = vc6Init.chacha.pipelines

/-- The threads and the provider have the same contexts, over backends with the same pipelines. -/
structure Vc6Threads.Matches (vc6Init : Vc6Backend) (p : Vc6Threads ι Vc6Backend)
    (q : Vc6Provider ι Vc6Backend) : Prop where
  started : p.Started (SamePipelines vc6Init)
  atomic : q.Started (SamePipelines vc6Init)
  ctxs_eq : p.ctxs = q.ctxs

namespace Vc6Threads.Matches

variable {vc6Init : Vc6Backend} {p : Vc6Threads ι Vc6Backend} {q : Vc6Provider ι Vc6Backend}

/-- Both sides take a request other than `newctx`. -/
lemma request (h : p.Matches vc6Init q) {c : Vc6Call ι (Job → VkOutcome)} (hc : c.Settled)
    (hnew : ∀ functions, c.request ≠ .newctx functions) :
    (p.toVc6Provider.step vc6BackendUnder vc6Init c).2 = (q.step vc6BackendUnder vc6Init c).2 ∧
      Matches vc6Init
        { p with toVc6Provider := (p.toVc6Provider.step vc6BackendUnder vc6Init c).1 }
        (q.step vc6BackendUnder vc6Init c).1 := by
  have hown := (vc6_unwinding vc6Init c.ctx).own p.toVc6Provider q c hc h.started.provider h.atomic
    (congrFun h.ctxs_eq c.ctx) rfl
  refine ⟨hown.1, ⟨⟨?_, h.started.inited, ?_⟩, ?_, ?_⟩⟩
  · exact (vc6_unwinding vc6Init c.ctx).inv _ c hc h.started.provider
  · intro j hj
    exact Vc6Provider.ctxs_step_none hnew (h.started.vacant j hj)
  · exact (vc6_unwinding vc6Init c.ctx).inv q c hc h.atomic
  · funext j
    by_cases hj : c.ctx = j
    · rw [← hj]
      exact hown.2
    · exact (p.toVc6Provider.ctxs_step_of_ne hj).trans
        ((congrFun h.ctxs_eq j).trans (q.ctxs_step_of_ne hj).symm)

/-- Both sides make the context at `i`. -/
lemma newctx (h : p.Matches vc6Init q) {i : ι} (hi : p.ctxs i = none) (functions : Vc6Functions)
    {backend : Vc6Backend} (hbackend : SamePipelines vc6Init backend)
    {newctxs : ι → Option (Vc6Functions × Option Vc6Backend)} (hnewctxs : newctxs i = none)
    (hothers : ∀ j, j ≠ i → newctxs j = p.newctxs j) (innerBackend : Option Vc6Backend) :
    (q.step vc6BackendUnder vc6Init ⟨i, .newctx functions⟩).2 = none ∧
      Matches vc6Init
        { innerBackend := some backend
          ctxs := Function.update p.ctxs i (some (functions.newctx backend innerBackend).2)
          newctxs := newctxs }
        (q.step vc6BackendUnder vc6Init ⟨i, .newctx functions⟩).1 := by
  have hq : q.ctxs i = none := (congrFun h.ctxs_eq i).symm.trans hi
  have hstep : q.step vc6BackendUnder vc6Init ⟨i, .newctx functions⟩ =
      ({ innerBackend := (functions.newctx vc6Init q.innerBackend).1
         ctxs := Function.update q.ctxs i (some (functions.newctx vc6Init q.innerBackend).2) },
        none) := by
    simp only [Vc6Provider.step, hq]
  refine ⟨by rw [hstep], ⟨⟨?_, ?_, ?_⟩, ?_, ?_⟩⟩
  · exact Vc6Provider.started_of_kept ⟨backend, rfl, hbackend⟩
  · intro j functions' backend' hj
    dsimp only at hj
    by_cases hne : j = i
    · rw [hne, hnewctxs] at hj
      cases hj
    · rw [hothers j hne] at hj
      exact h.started.inited j functions' backend' hj
  · intro j hj
    dsimp only at hj
    have hne : j ≠ i := fun heq => hj (heq ▸ hnewctxs)
    rw [hothers j hne] at hj
    exact (Function.update_of_ne hne _ _).trans (h.started.vacant j hj)
  · exact (vc6_unwinding vc6Init i).inv q ⟨i, .newctx functions⟩ trivial h.atomic
  · rw [hstep, functions.newctx_snd backend vc6Init innerBackend q.innerBackend]
    exact congrArg (fun ctxs => Function.update ctxs i _) h.ctxs_eq

/-- A `newctx` that is under way comes one step further. -/
lemma stutter (h : p.Matches vc6Init q) {i : ι} (hi : p.ctxs i = none) {functions : Vc6Functions}
    {inited : Option Vc6Backend} (hinited : ∀ b ∈ inited, SamePipelines vc6Init b) :
    Matches vc6Init
      { p with newctxs := Function.update p.newctxs i (some (functions, inited)) } q := by
  refine ⟨⟨h.started.provider, ?_, ?_⟩, h.atomic, h.ctxs_eq⟩
  · intro j functions' backend hj
    dsimp only at hj
    by_cases hne : j = i
    · rw [hne, Function.update_self] at hj
      cases hj
      exact hinited backend rfl
    · rw [Function.update_of_ne hne] at hj
      exact h.started.inited j functions' backend hj
  · intro j hj
    dsimp only at hj
    by_cases hne : j = i
    · rw [hne]
      exact hi
    · rw [Function.update_of_ne hne] at hj
      exact h.started.vacant j hj

/-- A step with which no request is done. -/
lemma step_none (h : p.Matches vc6Init q) {c : Vc6Step ι (Job → VkOutcome) Vc6Backend}
    (hc : c.Settled vc6Init.chacha.pipelines) (hnone : p.request c = none) :
    (p.step vc6BackendUnder c).2 = none ∧ (p.step vc6BackendUnder c).1.Matches vc6Init q := by
  cases c with
  | check i functions =>
    simp only [Vc6Threads.request, Vc6Threads.step] at hnone ⊢
    rcases hnew : p.newctxs i with _ | _
    · rcases hctx : p.ctxs i with _ | _
      · rcases hbackend : p.innerBackend with _ | backend
        · exact ⟨rfl, h.stutter hctx (by simp)⟩
        · simp only [hnew, hctx, hbackend, reduceCtorEq] at hnone
      · exact ⟨rfl, h⟩
    · exact ⟨rfl, h⟩
  | init i backend =>
    simp only [Vc6Threads.step]
    rcases hnew : p.newctxs i with _ | ⟨functions, _ | _⟩
    · exact ⟨rfl, h⟩
    · have hctx := h.started.vacant i (by rw [hnew]; exact Option.some_ne_none _)
      refine ⟨rfl, h.stutter hctx ?_⟩
      rintro _ ⟨⟩
      exact hc
    · exact ⟨rfl, h⟩
  | assign i =>
    simp only [Vc6Threads.request, Vc6Threads.step] at hnone ⊢
    rcases hnew : p.newctxs i with _ | ⟨functions, _ | _⟩
    · exact ⟨rfl, h⟩
    · exact ⟨rfl, h⟩
    · simp only [hnew, reduceCtorEq] at hnone
  | freectx i => cases hnone
  | call i vk c => cases hnone

/-- A step with which a request is done. -/
lemma step_some (h : p.Matches vc6Init q) {c : Vc6Step ι (Job → VkOutcome) Vc6Backend}
    (hc : c.Settled vc6Init.chacha.pipelines) {d : Vc6Call ι (Job → VkOutcome)}
    (hsome : p.request c = some d) :
    (p.step vc6BackendUnder c).2 = (q.step vc6BackendUnder vc6Init d).2 ∧
      (p.step vc6BackendUnder c).1.Matches vc6Init (q.step vc6BackendUnder vc6Init d).1 := by
  cases c with
  | check i functions =>
    simp only [Vc6Threads.request, Vc6Threads.step] at hsome ⊢
    rcases hnew : p.newctxs i with _ | _
    · rcases hctx : p.ctxs i with _ | _
      · rcases hbackend : p.innerBackend with _ | backend
        · simp only [hnew, hctx, hbackend, reduceCtorEq] at hsome
        · simp only [hnew, hctx, hbackend, Option.some.injEq] at hsome
          subst hsome
          obtain ⟨hanswer, hmatches⟩ := h.newctx hctx functions
            (h.started.provider.backend backend hbackend) hnew (fun _ _ => rfl) (some backend)
          refine ⟨hanswer.symm, ?_⟩
          simp only [Vc6Functions.newctx_fst, Option.getD_some]
          exact hmatches
      · simp only [hnew, hctx, reduceCtorEq] at hsome
    · simp only [hnew, reduceCtorEq] at hsome
  | init i backend => cases hsome
  | assign i =>
    simp only [Vc6Threads.request, Vc6Threads.step] at hsome ⊢
    rcases hnew : p.newctxs i with _ | ⟨functions, _ | backend⟩
    · simp only [hnew, reduceCtorEq] at hsome
    · simp only [hnew, reduceCtorEq] at hsome
    · simp only [hnew, Option.some.injEq] at hsome
      subst hsome
      have hctx := h.started.vacant i (by rw [hnew]; exact Option.some_ne_none _)
      obtain ⟨hanswer, hmatches⟩ := h.newctx hctx functions
        (h.started.inited i functions backend hnew) (Function.update_self i none p.newctxs)
        (fun _ hne => Function.update_of_ne hne _ _) none
      refine ⟨hanswer.symm, ?_⟩
      simp only [Vc6Functions.newctx_fst, Option.getD_none]
      exact hmatches
  | freectx i =>
    rw [Vc6Threads.request, Option.some.injEq] at hsome
    subst hsome
    rw [p.step_freectx vc6BackendUnder vc6Init]
    exact h.request trivial (fun _ => by simp)
  | call i vk c =>
    rw [Vc6Threads.request, Option.some.injEq] at hsome
    subst hsome
    rw [p.step_call vc6BackendUnder vc6Init]
    exact h.request hc (fun _ => by simp)

end Vc6Threads.Matches

lemma Vc6Threads.Started.step {vc6Init : Vc6Backend} {p : Vc6Threads ι Vc6Backend}
    (h : p.Started (SamePipelines vc6Init)) {c : Vc6Step ι (Job → VkOutcome) Vc6Backend}
    (hc : c.Settled vc6Init.chacha.pipelines) :
    (p.step vc6BackendUnder c).1.Started (SamePipelines vc6Init) := by
  have hself : p.Matches vc6Init p.toVc6Provider := ⟨h, h.provider, rfl⟩
  cases hrequest : p.request c with
  | none => exact (hself.step_none hc hrequest).2.started
  | some d => exact (hself.step_some hc hrequest).2.started

/-! ### How many backends are started -/

/-- How far a `newctx` has come. -/
def newctxStage : Option (Vc6Functions × Option σ) → LazyCell.Stage
  | none => .idle
  | some (_, none) => .making
  | some (_, some _) => .made

/-- The `inner_backend` is a cell that is filled on first use. -/
def Vc6Threads.cell (p : Vc6Threads ι σ) : LazyCell.State ι where
  full := p.innerBackend.isSome
  stage := fun i => newctxStage (p.newctxs i)

/-- What a step does to the cell. -/
def Vc6Threads.event (p : Vc6Threads ι σ) : Vc6Step ι ω σ → Option (LazyCell.Step ι)
  | .check i _ =>
    match p.newctxs i, p.ctxs i with
    | none, none => some (.check i)
    | _, _ => none
  | .init i _ =>
    match p.newctxs i with
    | some (_, none) => some (.make i)
    | _ => none
  | .assign i =>
    match p.newctxs i with
    | some (_, some _) => some (.store i)
    | _ => none
  | _ => none

lemma newctxStage_update (newctxs : ι → Option (Vc6Functions × Option σ)) (i : ι)
    (new : Option (Vc6Functions × Option σ)) :
    (fun j => newctxStage (Function.update newctxs i new j)) =
      Function.update (fun j => newctxStage (newctxs j)) i (newctxStage new) := by
  funext j
  exact Function.apply_update (fun _ => newctxStage) newctxs i new j

/-- A context is called only when there is a backend, and the call leaves one. -/
lemma Vc6Threads.Started.isSome_call {p : Vc6Threads ι σ} (h : p.Started P) (be : ω → Backend σ)
    (i : ι) (outcome : ω) (c : ContextCall) :
    (p.step be (.call i outcome c)).1.innerBackend.isSome = p.innerBackend.isSome := by
  simp only [Vc6Threads.step]
  cases hctx : p.ctxs i with
  | none => rfl
  | some ctx =>
    obtain ⟨s, hs, -⟩ := h.provider.kept hctx
    have hkept : Kept (fun _ => True) p.innerBackend := ⟨s, hs, trivial⟩
    have hcall : Kept (fun _ => True) (ctx.call (be outcome) p.innerBackend c).innerBackend :=
      Vc6Ctx.call_keeps (fun _ _ _ => trivial) hkept ctx c
    obtain ⟨s', hs', -⟩ := hcall
    change (ctx.call (be outcome) p.innerBackend c).innerBackend.isSome = _
    rw [hs', hs]
    rfl

lemma Vc6Threads.Started.event_none {p : Vc6Threads ι σ} (h : p.Started P) {be : ω → Backend σ}
    {c : Vc6Step ι ω σ} (hnone : p.event c = none) : (p.step be c).1.cell = p.cell := by
  cases c with
  | check i functions =>
    simp only [Vc6Threads.event, Vc6Threads.step] at hnone ⊢
    rcases hnew : p.newctxs i with _ | _
    · rcases hctx : p.ctxs i with _ | _
      · simp only [hnew, hctx, reduceCtorEq] at hnone
      · rfl
    · rfl
  | init i backend =>
    simp only [Vc6Threads.event, Vc6Threads.step] at hnone ⊢
    rcases hnew : p.newctxs i with _ | ⟨functions, _ | _⟩
    · rfl
    · simp only [hnew, reduceCtorEq] at hnone
    · rfl
  | assign i =>
    simp only [Vc6Threads.event, Vc6Threads.step] at hnone ⊢
    rcases hnew : p.newctxs i with _ | ⟨functions, _ | _⟩
    · rfl
    · rfl
    · simp only [hnew, reduceCtorEq] at hnone
  | freectx i =>
    simp only [Vc6Threads.step]
    cases p.ctxs i <;> rfl
  | call i outcome c =>
    have hnewctxs : (p.step be (.call i outcome c)).1.newctxs = p.newctxs := by
      simp only [Vc6Threads.step]
      cases p.ctxs i <;> rfl
    simp only [Vc6Threads.cell, h.isSome_call, hnewctxs]

lemma Vc6Threads.event_some (be : ω → Backend σ) {p : Vc6Threads ι σ} {c : Vc6Step ι ω σ}
    {e : LazyCell.Step ι} (hsome : p.event c = some e) :
    p.cell.Enabled e ∧ (p.step be c).1.cell = p.cell.next e := by
  cases c with
  | check i functions =>
    simp only [Vc6Threads.event, Vc6Threads.step] at hsome ⊢
    rcases hnew : p.newctxs i with _ | _
    · rcases hctx : p.ctxs i with _ | _
      · simp only [hnew, hctx, Option.some.injEq] at hsome
        subst hsome
        refine ⟨congrArg newctxStage hnew, ?_⟩
        rcases hbackend : p.innerBackend with _ | backend
        · simp only [Vc6Threads.cell, LazyCell.State.next, newctxStage_update, hbackend]
          rfl
        · have hidle : Function.update (fun j => newctxStage (p.newctxs j)) i .idle =
              fun j => newctxStage (p.newctxs j) :=
            Function.update_eq_self_iff.mpr (congrArg newctxStage hnew).symm
          simp only [Vc6Threads.cell, LazyCell.State.next, LazyCell.State.target,
            LazyCell.Step.client, hbackend, Option.isSome_some, if_true, hidle,
            Vc6Functions.newctx_fst]
          rfl
      · simp only [hnew, hctx, reduceCtorEq] at hsome
    · simp only [hnew, reduceCtorEq] at hsome
  | init i backend =>
    simp only [Vc6Threads.event, Vc6Threads.step] at hsome ⊢
    rcases hnew : p.newctxs i with _ | ⟨functions, _ | _⟩
    · simp only [hnew, reduceCtorEq] at hsome
    · simp only [hnew, Option.some.injEq] at hsome
      subst hsome
      refine ⟨congrArg newctxStage hnew, ?_⟩
      simp only [Vc6Threads.cell, LazyCell.State.next, newctxStage_update]
      rfl
    · simp only [hnew, reduceCtorEq] at hsome
  | assign i =>
    simp only [Vc6Threads.event, Vc6Threads.step] at hsome ⊢
    rcases hnew : p.newctxs i with _ | ⟨functions, _ | backend⟩
    · simp only [hnew, reduceCtorEq] at hsome
    · simp only [hnew, reduceCtorEq] at hsome
    · simp only [hnew, Option.some.injEq] at hsome
      subst hsome
      refine ⟨congrArg newctxStage hnew, ?_⟩
      simp only [Vc6Threads.cell, LazyCell.State.next, newctxStage_update,
        Vc6Functions.newctx_fst]
      rfl
  | freectx i => cases hsome
  | call i outcome c => cases hsome

/-- The steps of a run, as steps of the cell. -/
lemma Vc6Threads.Started.run_cell {vc6Init : Vc6Backend} {p : Vc6Threads ι Vc6Backend}
    (h : p.Started (SamePipelines vc6Init))
    {steps : List (Vc6Step ι (Job → VkOutcome) Vc6Backend)}
    (hsteps : ∀ c ∈ steps, c.Settled vc6Init.chacha.pipelines) :
    LazyCell.Run p.cell
      (Isolation.history (Vc6Threads.step vc6BackendUnder) Vc6Threads.event p steps)
      (Isolation.run (Vc6Threads.step vc6BackendUnder) p steps).2.cell := by
  induction steps generalizing p with
  | nil => exact .nil _
  | cons c steps ih =>
    have hrest := ih (h.step (hsteps c List.mem_cons_self))
      (fun d hd => hsteps d (List.mem_cons_of_mem c hd))
    rw [Isolation.history]
    cases hevent : p.event c with
    | none =>
      rw [h.event_none hevent] at hrest
      exact hrest
    | some e =>
      obtain ⟨henabled, hnext⟩ := Vc6Threads.event_some vc6BackendUnder hevent
      rw [hnext] at hrest
      exact .cons henabled hrest

/-- Contexts made, called and freed by any number of threads, where the parts of a `newctx`
interleave with all the rest: the replies and the contexts are those of a provider whose `newctx` is
atomic. When no `newctx` is under way any more, `vc6_init` has been called once for each that looked
before the first assignment, and each of these backends has been assigned. -/
theorem vc6_newctx_races (vc6Init : Vc6Backend)
    (steps : List (Vc6Step ι (Job → VkOutcome) Vc6Backend))
    (hsteps : ∀ c ∈ steps, c.Settled vc6Init.chacha.pipelines) :
    let step := Vc6Threads.step vc6BackendUnder
    let threads := Isolation.run step .load steps
    let atomic := Isolation.run (Vc6Provider.step vc6BackendUnder vc6Init) .load
      (Isolation.history step Vc6Threads.request .load steps)
    let events := Isolation.history step Vc6Threads.event .load steps
    (threads.1.reduceOption = atomic.1.reduceOption ∧ threads.2.ctxs = atomic.2.ctxs) ∧
      ((∀ i, threads.2.newctxs i = none) →
        (LazyCell.makers events).Perm (LazyCell.earlyChecks events) ∧
          (LazyCell.storers events).Perm (LazyCell.makers events)) := by
  intro step threads atomic events
  constructor
  · have hload : Vc6Threads.load.Matches (ι := ι) vc6Init .load :=
      ⟨Vc6Threads.started_load, Vc6Provider.started_load, rfl⟩
    have hnone : ∀ p q c, Vc6Step.Settled vc6Init.chacha.pipelines c →
        Vc6Threads.Matches vc6Init p q → p.request c = none →
          (step p c).2 = none ∧ (step p c).1.Matches vc6Init q :=
      fun _ _ _ hc h hnone => h.step_none hc hnone
    obtain ⟨hanswers, hend⟩ := Isolation.run_stuttering (R := Vc6Threads.Matches vc6Init) hnone
      (fun _ _ _ _ hc h hsome => h.step_some hc hsome) hload hsteps
    exact ⟨hanswers, hend.ctxs_eq⟩
  · intro hidle
    have hrun : LazyCell.Run LazyCell.start events threads.2.cell :=
      Vc6Threads.started_load.run_cell hsteps
    exact hrun.settled (fun i => congrArg newctxStage (hidle i))

/-- Two threads whose first contexts race: the second backend comes in the middle of the stream of
the first context, and the first backend is lost. -/
theorem vc6_newctx_races_two :
    let backend (b : Byte) : Vc6Backend :=
      { aes256 := ⟨fun _ => b, fun _ => b, fun _ => 0⟩
        chacha := ⟨fun _ => b, fun _ => b, fun _ => 0, 0, fun _ => true⟩ }
    let data : Buffer := ⟨List.replicate 64 0x41, by decide⟩
    let call (c : ContextCall) : Vc6Step Bool (Job → VkOutcome) Vc6Backend :=
      .call true (fun _ => .success) c
    let steps : List (Vc6Step Bool (Job → VkOutcome) Vc6Backend) :=
      [.check true .chacha20, .check false .aes256ctr, .init true (backend 1), .assign true,
        call (.init (some (List.replicate 32 7)) (some (List.replicate 16 9))),
        call (.stream (.update data)), .init false (backend 2), .assign false,
        call (.stream (.update data)), .freectx true]
    let step := Vc6Threads.step vc6BackendUnder
    let threads := Isolation.run step .load steps
    let atomic := Isolation.run (Vc6Provider.step vc6BackendUnder (backend 0)) .load
      (Isolation.history step Vc6Threads.request .load steps)
    let events := Isolation.history step Vc6Threads.event .load steps
    (threads.1.reduceOption = atomic.1.reduceOption ∧ threads.2.ctxs = atomic.2.ctxs) ∧
      (LazyCell.makers events).Perm (LazyCell.earlyChecks events) ∧
        (LazyCell.storers events).Perm (LazyCell.makers events) := by
  intro backend data call steps step threads atomic events
  have hsuccess : VkOutcome.success.Settled := fun _ => rfl
  have hsteps : ∀ c ∈ steps, c.Settled (backend 0).chacha.pipelines := by
    simp only [steps, call, backend, Vc6Step.Settled, Vc6Call.Settled, List.forall_mem_cons,
      List.not_mem_nil, false_imp_iff, implies_true, and_true, hsuccess,
      Option.mem_some_iff, forall_eq', List.length_replicate, le_refl]
  obtain ⟨hsame, hcounts⟩ := vc6_newctx_races (backend 0) steps hsteps
  refine ⟨hsame, hcounts ?_⟩
  intro i
  cases i <;> rfl

end GpuCrypt
