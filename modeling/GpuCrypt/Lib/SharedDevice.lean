import Mathlib.Tactic

/-!
# Jobs on a shared device

A job takes four steps on its device: its input is loaded to a window of the device's memory, the
device is configured for the job, it runs, and the result is fetched from the window. The clients
of one device take their steps in any order, each for a job of its own.

`Device.Safe` says of a step that it writes to nothing another client still needs. In a run of such
steps every client fetches the result of its own job, by `Laws.run_inv`, if the operations of the
device obey `Laws`. Clients that take turns take such steps only.
-/

namespace SharedDevice

variable {σ J α ι : Type*}

/-- A device with state `σ` for jobs `J`. `inputSpan` is the length of a job's input and of its
result in its window, and `outputSpan` the length of what its run writes there. -/
structure Device (σ J α : Type*) where
  load : σ → J → σ × ℕ
  configure : σ → J → ℕ → σ
  run : σ → J → σ
  fetch : σ → J → ℕ → α
  inputSpan : J → ℕ
  outputSpan : J → ℕ

/-- How far a client has come with its job, and the window of the job. -/
inductive Stage (α : Type*)
  | idle
  | loaded (w : ℕ)
  | configured (w : ℕ)
  | ran (w : ℕ)
  | done (result : α)
deriving DecidableEq, Repr

namespace Stage

/-- The window of an input that has yet to be used. -/
def inputWindow : Stage α → Option ℕ
  | .loaded w => some w
  | .configured w => some w
  | _ => none

/-- The window that the device is configured for. -/
def configWindow : Stage α → Option ℕ
  | .configured w => some w
  | _ => none

/-- The window of an output that has yet to be fetched. -/
def outputWindow : Stage α → Option ℕ
  | .ran w => some w
  | _ => none

end Stage

structure State (σ ι α : Type*) where
  shared : σ
  stage : ι → Stage α

def start (s : σ) : State σ ι α := { shared := s, stage := fun _ => .idle }

/-- `m` elements from `a` on and `n` elements from `b` on have none in common. -/
def Apart (a m b n : ℕ) : Prop := m = 0 ∨ n = 0 ∨ a + m ≤ b ∨ b + n ≤ a

instance (a m b n : ℕ) : Decidable (Apart a m b n) := inferInstanceAs (Decidable (_ ∨ _ ∨ _ ∨ _))

/-- An element of the second range is not one of the first. -/
lemma Apart.not_mem {a m b n i : ℕ} (h : Apart a m b n) (hi : i < n) :
    b + i < a ∨ a + m ≤ b + i := by
  unfold Apart at h
  omega

namespace Device

variable (D : Device σ J α)

/-- The next step of a client that has come to the given stage. -/
def advance (s : σ) (j : J) : Stage α → σ × Stage α
  | .idle => ((D.load s j).1, .loaded (D.load s j).2)
  | .loaded w => (D.configure s j w, .configured w)
  | .configured w => (D.run s j, .ran w)
  | .ran w => (s, .done (D.fetch s j w))
  | .done result => (s, .done result)

/-- A whole job, with no other client in between. -/
def turn (s : σ) (j : J) : σ × α :=
  let l := D.load s j
  let s' := D.run (D.configure l.1 j l.2) j
  (s', D.fetch s' j l.2)

variable (jobs : ι → J)

def step [DecidableEq ι] (x : State σ ι α) (i : ι) : State σ ι α :=
  { shared := (D.advance x.shared (jobs i) (x.stage i)).1
    stage := Function.update x.stage i (D.advance x.shared (jobs i) (x.stage i)).2 }

/-- The state after the clients of the schedule have taken a step each, one after the other. -/
def runSchedule [DecidableEq ι] (x : State σ ι α) (schedule : List ι) : State σ ι α :=
  schedule.foldl (D.step jobs) x

/-- The step of client `i` leaves alone what client `k` still needs: its input until it has run,
the configuration from then on until it has run, and its output until it is fetched. -/
def SafeFor (x : State σ ι α) (i k : ι) : Prop :=
  match x.stage i with
  | .idle => ∀ w ∈ (x.stage k).inputWindow,
      Apart (D.load x.shared (jobs i)).2 (D.inputSpan (jobs i)) w (D.inputSpan (jobs k))
  | .loaded _ => (x.stage k).configWindow = none
  | .configured v => ∀ w ∈ (x.stage k).outputWindow,
      Apart v (D.outputSpan (jobs i)) w (D.inputSpan (jobs k))
  | .ran _ => True
  | .done _ => True

def Safe (x : State σ ι α) (i : ι) : Prop := ∀ k, k ≠ i → D.SafeFor jobs x i k

/-- Every step of the schedule is safe in the state in which it is taken. -/
def SafeRun [DecidableEq ι] (x : State σ ι α) : List ι → Prop
  | [] => True
  | i :: rest => D.Safe jobs x i ∧ SafeRun (D.step jobs x i) rest

end Device

/-- What the operations of a device do for a job, and what they leave of the others. -/
structure Laws (D : Device σ J α) where
  result : J → α
  InputHeld : σ → J → ℕ → Prop
  ConfigHeld : σ → J → ℕ → Prop
  OutputHeld : σ → J → ℕ → Prop
  load_input : ∀ s j, InputHeld (D.load s j).1 j (D.load s j).2
  configure_config : ∀ s j w, InputHeld s j w → ConfigHeld (D.configure s j w) j w
  run_output : ∀ s j w, InputHeld s j w → ConfigHeld s j w → OutputHeld (D.run s j) j w
  fetch_result : ∀ s j w, OutputHeld s j w → D.fetch s j w = result j
  input_load : ∀ s j k w, InputHeld s k w →
    Apart (D.load s j).2 (D.inputSpan j) w (D.inputSpan k) → InputHeld (D.load s j).1 k w
  input_configure : ∀ s j v k w, InputHeld s k w → InputHeld (D.configure s j v) k w
  input_run : ∀ s j k w, InputHeld s k w → InputHeld (D.run s j) k w
  config_load : ∀ s j k w, ConfigHeld s k w → ConfigHeld (D.load s j).1 k w
  config_run : ∀ s j k w, ConfigHeld s k w → ConfigHeld (D.run s j) k w
  output_load : ∀ s j k w, OutputHeld s k w → OutputHeld (D.load s j).1 k w
  output_configure : ∀ s j v k w, OutputHeld s k w → OutputHeld (D.configure s j v) k w
  output_run : ∀ s j v k w, ConfigHeld s j v → OutputHeld s k w →
    Apart v (D.outputSpan j) w (D.inputSpan k) → OutputHeld (D.run s j) k w

namespace Laws

variable {D : Device σ J α} (L : Laws D)

/-- What the device holds for a job whose client has come to the given stage. -/
def Holds (s : σ) (j : J) : Stage α → Prop
  | .idle => True
  | .loaded w => L.InputHeld s j w
  | .configured w => L.InputHeld s j w ∧ L.ConfigHeld s j w
  | .ran w => L.OutputHeld s j w
  | .done result => result = L.result j

/-- The device holds for every client what its stage says. -/
def Inv (jobs : ι → J) (x : State σ ι α) : Prop := ∀ i, L.Holds x.shared (jobs i) (x.stage i)

lemma inv_start (jobs : ι → J) (s : σ) : L.Inv jobs (start s) := fun _ => trivial

lemma holds_advance {s : σ} {j : J} {st : Stage α} (h : L.Holds s j st) :
    L.Holds (D.advance s j st).1 j (D.advance s j st).2 := by
  cases st with
  | idle => exact L.load_input s j
  | loaded w => exact ⟨L.input_configure s j w j w h, L.configure_config s j w h⟩
  | configured w => exact L.run_output s j w h.1 h.2
  | ran w => exact L.fetch_result s j w h
  | done result => exact h

variable {jobs : ι → J} {x : State σ ι α} {i k : ι} {w : ℕ}

/-- A safe step of one client keeps the input of another that has not run yet. -/
lemma inputHeld_of_safeFor (hsafe : D.SafeFor jobs x i k)
    (hst : w ∈ (x.stage k).inputWindow) (hk : L.InputHeld x.shared (jobs k) w) :
    L.InputHeld (D.advance x.shared (jobs i) (x.stage i)).1 (jobs k) w := by
  unfold Device.SafeFor at hsafe
  cases hi : x.stage i with
  | idle =>
    rw [hi] at hsafe
    exact L.input_load _ _ _ _ hk (hsafe w hst)
  | loaded v => exact L.input_configure _ _ _ _ _ hk
  | configured v => exact L.input_run _ _ _ _ hk
  | ran v => exact hk
  | done result => exact hk

/-- A safe step of one client keeps the configuration of another. -/
lemma configHeld_of_safeFor (hsafe : D.SafeFor jobs x i k)
    (hst : w ∈ (x.stage k).configWindow) (hk : L.ConfigHeld x.shared (jobs k) w) :
    L.ConfigHeld (D.advance x.shared (jobs i) (x.stage i)).1 (jobs k) w := by
  unfold Device.SafeFor at hsafe
  cases hi : x.stage i with
  | idle => exact L.config_load _ _ _ _ hk
  | loaded v =>
    rw [hi] at hsafe
    rw [hsafe] at hst
    cases hst
  | configured v => exact L.config_run _ _ _ _ hk
  | ran v => exact hk
  | done result => exact hk

/-- A safe step of one client keeps the output of another that has not fetched it yet. -/
lemma outputHeld_of_safeFor (hsafe : D.SafeFor jobs x i k)
    (hi : L.Holds x.shared (jobs i) (x.stage i)) (hst : w ∈ (x.stage k).outputWindow)
    (hk : L.OutputHeld x.shared (jobs k) w) :
    L.OutputHeld (D.advance x.shared (jobs i) (x.stage i)).1 (jobs k) w := by
  unfold Device.SafeFor at hsafe
  cases hi' : x.stage i with
  | idle => exact L.output_load _ _ _ _ hk
  | loaded v => exact L.output_configure _ _ _ _ _ hk
  | configured v =>
    rw [hi'] at hsafe hi
    exact L.output_run _ _ v _ _ hi.2 hk (hsafe w hst)
  | ran v => exact hk
  | done result => exact hk

lemma holds_of_safeFor (hsafe : D.SafeFor jobs x i k)
    (hi : L.Holds x.shared (jobs i) (x.stage i)) (hk : L.Holds x.shared (jobs k) (x.stage k)) :
    L.Holds (D.advance x.shared (jobs i) (x.stage i)).1 (jobs k) (x.stage k) := by
  have hinput := fun w => L.inputHeld_of_safeFor (w := w) hsafe
  have hconfig := fun w => L.configHeld_of_safeFor (w := w) hsafe
  have houtput := fun w => L.outputHeld_of_safeFor (w := w) hsafe hi
  cases hst : x.stage k with
  | idle => trivial
  | loaded w =>
    rw [hst] at hk hinput
    exact hinput w rfl hk
  | configured w =>
    rw [hst] at hk hinput hconfig
    exact ⟨hinput w rfl hk.1, hconfig w rfl hk.2⟩
  | ran w =>
    rw [hst] at hk houtput
    exact houtput w rfl hk
  | done result =>
    rw [hst] at hk
    exact hk

variable [DecidableEq ι]

theorem step_inv (h : L.Inv jobs x) (hsafe : D.Safe jobs x i) : L.Inv jobs (D.step jobs x i) := by
  intro k
  by_cases hki : k = i
  · subst hki
    simp only [Device.step, Function.update_self]
    exact L.holds_advance (h k)
  · simp only [Device.step, Function.update_of_ne hki]
    exact L.holds_of_safeFor (hsafe k hki) (h i) (h k)

theorem run_inv (h : L.Inv jobs x) {schedule : List ι} (hsafe : D.SafeRun jobs x schedule) :
    L.Inv jobs (D.runSchedule jobs x schedule) := by
  induction schedule generalizing x with
  | nil => exact h
  | cons i rest ih => exact ih (L.step_inv h hsafe.1) hsafe.2

end Laws

/-! ### Progress -/

def Stage.rank : Stage α → ℕ
  | .idle => 0
  | .loaded _ => 1
  | .configured _ => 2
  | .ran _ => 3
  | .done _ => 4

lemma Stage.rank_le (st : Stage α) : st.rank ≤ 4 := by cases st <;> simp [Stage.rank]

lemma Stage.eq_done {st : Stage α} (h : 4 ≤ st.rank) : ∃ result, st = .done result := by
  cases st with
  | done result => exact ⟨result, rfl⟩
  | _ => simp [Stage.rank] at h

lemma Stage.rank_of_mem_inputWindow {st : Stage α} {w : ℕ} (h : w ∈ st.inputWindow) :
    st.rank = 1 ∨ st.rank = 2 := by
  cases st with
  | loaded v => exact .inl rfl
  | configured v => exact .inr rfl
  | _ => cases h

lemma Stage.rank_of_mem_configWindow {st : Stage α} {w : ℕ} (h : w ∈ st.configWindow) :
    st.rank = 2 := by
  cases st with
  | configured v => rfl
  | _ => cases h

lemma Stage.rank_of_mem_outputWindow {st : Stage α} {w : ℕ} (h : w ∈ st.outputWindow) :
    st.rank = 3 := by
  cases st with
  | ran v => rfl
  | _ => cases h

namespace Device

variable (D : Device σ J α)

lemma rank_advance (s : σ) (j : J) (st : Stage α) :
    (D.advance s j st).2.rank = min 4 (st.rank + 1) := by
  cases st <;> rfl

variable [DecidableEq ι] (jobs : ι → J)

lemma rank_runSchedule (x : State σ ι α) (schedule : List ι) (i : ι) :
    ((D.runSchedule jobs x schedule).stage i).rank =
      min 4 ((x.stage i).rank + schedule.count i) := by
  induction schedule generalizing x with
  | nil =>
    have hle := (x.stage i).rank_le
    rw [List.count_nil, Nat.add_zero, Nat.min_eq_right hle]
    rfl
  | cons k rest ih =>
    have hle := (x.stage i).rank_le
    rw [show D.runSchedule jobs x (k :: rest) = D.runSchedule jobs (D.step jobs x k) rest from rfl,
      ih]
    by_cases hki : k = i
    · subst hki
      rw [List.count_cons_self]
      simp only [step, Function.update_self, rank_advance]
      omega
    · rw [List.count_cons_of_ne hki]
      simp only [step, Function.update_of_ne (Ne.symm hki)]

/-- In a run of safe steps a client that has taken its four steps has fetched its own result. -/
theorem stage_of_safeRun (L : Laws D) {jobs : ι → J} {s : σ} {schedule : List ι}
    (hsafe : D.SafeRun jobs (start s) schedule) {i : ι} (hi : 4 ≤ schedule.count i) :
    (D.runSchedule jobs (start s) schedule).stage i = .done (L.result (jobs i)) := by
  have hrank := D.rank_runSchedule jobs (start s) schedule i
  obtain ⟨result, hdone⟩ :
      ∃ result, (D.runSchedule jobs (start s) schedule).stage i = .done result :=
    Stage.eq_done (by omega)
  have hinv := L.run_inv (L.inv_start jobs s) hsafe i
  rw [hdone] at hinv ⊢
  rw [show result = L.result (jobs i) from hinv]

lemma runSchedule_append (x : State σ ι α) (xs ys : List ι) :
    D.runSchedule jobs x (xs ++ ys) = D.runSchedule jobs (D.runSchedule jobs x xs) ys :=
  List.foldl_append

lemma safeRun_append {x : State σ ι α} {xs ys : List ι} :
    D.SafeRun jobs x (xs ++ ys) ↔
      D.SafeRun jobs x xs ∧ D.SafeRun jobs (D.runSchedule jobs x xs) ys := by
  induction xs generalizing x with
  | nil => exact (and_iff_right trivial).symm
  | cons i xs ih =>
    rw [List.cons_append, SafeRun, SafeRun, ih, and_assoc]
    rfl

end Device

/-! ### Clients that take turns -/

namespace Device

variable {D : Device σ J α} {jobs : ι → J} {x : State σ ι α} {i : ι}

/-- No client other than `i` is under way. -/
def Alone (x : State σ ι α) (i : ι) : Prop :=
  ∀ k, k ≠ i → x.stage k = .idle ∨ ∃ result, x.stage k = .done result

lemma Alone.safe (h : Alone x i) : D.Safe jobs x i := by
  intro k hki
  unfold SafeFor
  rcases h k hki with hk | ⟨result, hk⟩ <;> rw [hk] <;> split <;>
    simp [Stage.inputWindow, Stage.configWindow, Stage.outputWindow]

variable [DecidableEq ι]

lemma Alone.replicate (h : Alone x i) (n : ℕ) :
    D.SafeRun jobs x (List.replicate n i) ∧
      Alone (D.runSchedule jobs x (List.replicate n i)) i := by
  induction n generalizing x with
  | zero => exact ⟨trivial, h⟩
  | succ n ih =>
    have hstep : Alone (D.step jobs x i) i := by
      intro k hki
      simp only [step, Function.update_of_ne hki]
      exact h k hki
    obtain ⟨hsafe, halone⟩ := ih hstep
    exact ⟨⟨h.safe, hsafe⟩, halone⟩

/-- Clients that take turns, each taking its four steps in one go, take safe steps only. -/
theorem safeRun_turns (order : List ι) (h : ∀ i, Alone x i) :
    D.SafeRun jobs x (order.flatMap (List.replicate 4)) := by
  induction order generalizing x with
  | nil => trivial
  | cons i order ih =>
    obtain ⟨hsafe, halone⟩ : D.SafeRun jobs x (List.replicate 4 i) ∧
        Alone (D.runSchedule jobs x (List.replicate 4 i)) i := (h i).replicate 4
    rw [List.flatMap_cons, safeRun_append]
    refine ⟨hsafe, ih (fun k l hl => ?_)⟩
    by_cases hli : l = i
    · subst hli
      have hrank := D.rank_runSchedule jobs x (List.replicate 4 l) l
      rw [List.count_replicate_self] at hrank
      exact .inr (Stage.eq_done (by omega))
    · exact halone l hli

end Device

/-! ### Schedules without overlap -/

variable [DecidableEq ι]

/-- After `pre`, a step of client `i` is not a load between another client's load and run, not a
configuration between another's and its run, and not a run between another's and its fetch. -/
def Undisturbed (pre : List ι) (i : ι) : Prop :=
  ∀ k, k ≠ i →
    ¬(pre.count i = 0 ∧ (pre.count k = 1 ∨ pre.count k = 2)) ∧
      ¬(pre.count i = 1 ∧ pre.count k = 2) ∧ ¬(pre.count i = 2 ∧ pre.count k = 3)

def Exclusive (schedule : List ι) : Prop :=
  ∀ pre i post, schedule = pre ++ i :: post → Undisturbed pre i

lemma exclusive_concat {schedule : List ι} {i : ι} :
    Exclusive (schedule ++ [i]) ↔ Exclusive schedule ∧ Undisturbed schedule i := by
  constructor
  · intro h
    refine ⟨fun pre k post heq => h pre k (post ++ [i]) ?_, h schedule i [] rfl⟩
    rw [heq, List.append_assoc, List.cons_append]
  · rintro ⟨hall, hlast⟩ pre k post heq
    rcases List.eq_nil_or_concat post with rfl | ⟨post, l, rfl⟩
    · obtain ⟨rfl, hik⟩ := List.append_inj' heq rfl
      rw [List.singleton_inj] at hik
      rwa [← hik]
    · rw [List.concat_eq_append, ← List.cons_append, ← List.append_assoc] at heq
      exact hall pre k post (List.append_inj' heq rfl).1

/-- The first step that disturbs another client. -/
lemma exists_of_not_exclusive {schedule : List ι} (h : ¬Exclusive schedule) :
    ∃ pre i post, schedule = pre ++ i :: post ∧ Exclusive pre ∧ ¬Undisturbed pre i := by
  induction schedule using List.reverseRecOn with
  | nil => exact absurd (fun pre i post heq => by simp at heq) h
  | append_singleton schedule i ih =>
    by_cases hpre : Exclusive schedule
    · exact ⟨schedule, i, [], rfl, hpre, fun hlast => h (exclusive_concat.mpr ⟨hpre, hlast⟩)⟩
    · obtain ⟨pre, k, post, rfl, hex, hdisturbed⟩ := ih hpre
      exact ⟨pre, k, post ++ [i], by rw [List.append_assoc, List.cons_append], hex, hdisturbed⟩

namespace Device

variable (D : Device σ J α) (jobs : ι → J)

lemma rank_start (s : σ) (pre : List ι) (i : ι) :
    ((D.runSchedule jobs (start s) pre).stage i).rank = min 4 (pre.count i) := by
  rw [rank_runSchedule]
  exact congrArg (min 4) (Nat.zero_add _)

/-- Without overlap every step is safe, whatever the device. -/
theorem safeRun_of_exclusive (s : σ) {schedule : List ι} (h : Exclusive schedule) :
    D.SafeRun jobs (start s) schedule := by
  induction schedule using List.reverseRecOn with
  | nil => trivial
  | append_singleton schedule i ih =>
    obtain ⟨hpre, hlast⟩ := exclusive_concat.mp h
    rw [safeRun_append]
    refine ⟨ih hpre, fun k hki => ?_, trivial⟩
    obtain ⟨hload, hconfig, hrun⟩ := hlast k hki
    have hi := D.rank_start jobs s schedule i
    have hk := D.rank_start jobs s schedule k
    unfold SafeFor
    cases hsi : (D.runSchedule jobs (start s) schedule).stage i with
    | idle =>
      intro w hw
      have hrank := Stage.rank_of_mem_inputWindow hw
      rw [hsi, Stage.rank] at hi
      exact absurd ⟨by omega, by omega⟩ hload
    | loaded v =>
      refine Option.eq_none_iff_forall_not_mem.mpr (fun w hw => ?_)
      have hrank := Stage.rank_of_mem_configWindow hw
      rw [hsi, Stage.rank] at hi
      exact absurd ⟨by omega, by omega⟩ hconfig
    | configured v =>
      intro w hw
      have hrank := Stage.rank_of_mem_outputWindow hw
      rw [hsi, Stage.rank] at hi
      exact absurd ⟨by omega, by omega⟩ hrun
    | ran v => trivial
    | done result => trivial

end Device

end SharedDevice
