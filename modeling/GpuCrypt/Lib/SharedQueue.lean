import GpuCrypt.Lib.DevicePairs

/-!
# Clients that share a queue

Besides the steps on its device a client makes calls on a queue, each from a beginning to an end.
The queue is for one client at a time: when a call begins while another is under way, what happens
from then on is undefined. Apart from that the calls leave no trace on the devices.
-/

namespace SharedDevice

variable {σ J α ι κ : Type*}

/-- What a client does next: a step on its device, or the beginning or the end of a call on the
queue. -/
inductive Action
  | device
  | enter
  | leave
deriving DecidableEq, Repr

/-- Client `c` has begun a call that it has not ended. -/
def Inside (schedule : List (ι × Action)) (c : ι) : Prop :=
  ∃ pre mid, schedule = pre ++ (c, .enter) :: mid ∧ (c, .leave) ∉ mid

/-- No call begins while another is under way. -/
def OneAtATime (schedule : List (ι × Action)) : Prop :=
  ∀ pre c post, schedule = pre ++ (c, .enter) :: post → ∀ d, ¬Inside pre d

lemma inside_concat {schedule : List (ι × Action)} {a : ι × Action} {c : ι} :
    Inside (schedule ++ [a]) c ↔ a = (c, .enter) ∨ (Inside schedule c ∧ a ≠ (c, .leave)) := by
  constructor
  · rintro ⟨pre, mid, heq, hleave⟩
    rcases List.eq_nil_or_concat mid with rfl | ⟨mid, b, rfl⟩
    · obtain ⟨-, ha⟩ := List.append_inj' heq rfl
      exact .inl (List.singleton_inj.mp ha)
    · rw [List.concat_eq_append] at heq hleave
      rw [← List.cons_append, ← List.append_assoc] at heq
      obtain ⟨rfl, ha⟩ := List.append_inj' heq rfl
      obtain rfl := List.singleton_inj.mp ha
      rw [List.mem_append, List.mem_singleton, not_or] at hleave
      exact .inr ⟨⟨pre, mid, rfl, hleave.1⟩, Ne.symm hleave.2⟩
  · rintro (rfl | ⟨⟨pre, mid, rfl, hleave⟩, ha⟩)
    · exact ⟨schedule, [], rfl, List.not_mem_nil⟩
    · refine ⟨pre, mid ++ [a], by rw [List.append_assoc, List.cons_append], ?_⟩
      rw [List.mem_append, List.mem_singleton, not_or]
      exact ⟨hleave, Ne.symm ha⟩

lemma oneAtATime_concat {schedule : List (ι × Action)} {a : ι × Action} :
    OneAtATime (schedule ++ [a]) ↔
      OneAtATime schedule ∧ (a.2 = .enter → ∀ d, ¬Inside schedule d) := by
  constructor
  · intro h
    refine ⟨fun pre c post heq => h pre c (post ++ [a]) ?_, fun ha => h schedule a.1 [] ?_⟩
    · rw [heq, List.append_assoc, List.cons_append]
    · rw [← ha]
  · rintro ⟨hall, hlast⟩ pre c post heq
    rcases List.eq_nil_or_concat post with rfl | ⟨post, b, rfl⟩
    · obtain ⟨rfl, ha⟩ := List.append_inj' heq rfl
      exact hlast (by rw [List.singleton_inj.mp ha])
    · rw [List.concat_eq_append, ← List.cons_append, ← List.append_assoc] at heq
      exact hall pre c post (List.append_inj' heq rfl).1

/-! ### The queue -/

section Queue

variable [DecidableEq ι]

/-- The client that is in a call after an action, if any is; `none` if the queue has been entered
with another call under way. -/
def useQueue : Option ι → ι × Action → Option (Option ι)
  | user, (_, .device) => some user
  | none, (c, .enter) => some (some c)
  | some _, (_, .enter) => none
  | user, (c, .leave) => some (if user = some c then none else user)

def runQueue (schedule : List (ι × Action)) : Option (Option ι) := schedule.foldlM useQueue none

lemma runQueue_concat (schedule : List (ι × Action)) (a : ι × Action) :
    runQueue (schedule ++ [a]) = (runQueue schedule).bind (fun user => useQueue user a) := by
  rw [runQueue, List.foldlM_append]
  refine congrArg ((runQueue schedule).bind) (funext (fun user => ?_))
  rw [List.foldlM_cons]
  simp

/-- What is known of the queue after an action, if its user was known before. -/
lemma useQueue_inside {schedule : List (ι × Action)} {a : ι × Action} {user : Option ι}
    (huser : ∀ c, user = some c ↔ Inside schedule c)
    (ha : a.2 = .enter → ∀ d, ¬Inside schedule d) :
    ∃ user', useQueue user a = some user' ∧ ∀ c, user' = some c ↔ Inside (schedule ++ [a]) c := by
  obtain ⟨i, action⟩ := a
  cases action with
  | device =>
    refine ⟨user, by cases user <;> rfl, fun c => ?_⟩
    rw [huser, inside_concat]
    simp
  | enter =>
    have hnone : user = none := Option.eq_none_iff_forall_ne_some.mpr
      (fun d hd => ha rfl d ((huser d).mp hd))
    subst hnone
    refine ⟨some i, rfl, fun c => ?_⟩
    rw [inside_concat, ← huser]
    simp
  | leave =>
    refine ⟨if user = some i then none else user, by cases user <;> rfl, fun c => ?_⟩
    rw [inside_concat, ← huser]
    by_cases hi : user = some i
    · rw [if_pos hi, hi]
      simp
    · rw [if_neg hi]
      constructor
      · rintro rfl
        exact .inr ⟨rfl, fun heq => hi (by rw [Prod.mk.inj heq |>.1])⟩
      · rintro (heq | ⟨hc, -⟩)
        · cases heq
        · exact hc

lemma runQueue_of_oneAtATime {schedule : List (ι × Action)} (h : OneAtATime schedule) :
    ∃ user, runQueue schedule = some user ∧ ∀ c, user = some c ↔ Inside schedule c := by
  induction schedule using List.reverseRecOn with
  | nil =>
    refine ⟨none, rfl, fun c => iff_of_false (by simp) ?_⟩
    rintro ⟨pre, mid, heq, -⟩
    simp at heq
  | append_singleton schedule a ih =>
    obtain ⟨hall, hlast⟩ := oneAtATime_concat.mp h
    obtain ⟨user, hrun, huser⟩ := ih hall
    obtain ⟨user', hstep, huser'⟩ := useQueue_inside huser hlast
    exact ⟨user', by rw [runQueue_concat, hrun, Option.bind_some, hstep], huser'⟩

lemma oneAtATime_of_runQueue {schedule : List (ι × Action)} {user : Option ι}
    (h : runQueue schedule = some user) : OneAtATime schedule := by
  induction schedule using List.reverseRecOn generalizing user with
  | nil => exact fun pre c post heq => by simp at heq
  | append_singleton schedule a ih =>
    rw [runQueue_concat, Option.bind_eq_some_iff] at h
    obtain ⟨before, hrun, hstep⟩ := h
    have hall := ih hrun
    refine oneAtATime_concat.mpr ⟨hall, fun ha d hd => ?_⟩
    obtain ⟨before', hrun', huser⟩ := runQueue_of_oneAtATime hall
    obtain rfl := Option.some.inj (hrun.symm.trans hrun')
    rw [(huser d).mpr hd, show a = (a.1, .enter) by rw [← ha]] at hstep
    cases hstep

/-- The queue is used as it should be exactly if no call begins during another. -/
theorem isSome_runQueue {schedule : List (ι × Action)} :
    (runQueue schedule).isSome = true ↔ OneAtATime schedule := by
  constructor
  · intro h
    obtain ⟨user, hrun⟩ := Option.isSome_iff_exists.mp h
    exact oneAtATime_of_runQueue hrun
  · intro h
    obtain ⟨user, hrun, -⟩ := runQueue_of_oneAtATime h
    rw [hrun]
    rfl

instance (schedule : List (ι × Action)) : Decidable (OneAtATime schedule) :=
  decidable_of_iff _ isSome_runQueue

end Queue

/-! ### Devices whose clients share a queue -/

namespace Device

variable [DecidableEq ι] (D : Device σ J α) (jobs : ι → J)

end Device

/-! ### Two devices and one queue -/

end SharedDevice
