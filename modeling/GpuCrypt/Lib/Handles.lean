import Mathlib.Tactic
import Mathlib.Data.Multiset.Bind
import Mathlib.Data.Multiset.Filter

/-!
# Objects behind handles

Programs that create objects and destroy them again, and that may throw in between. A child has to
be destroyed before its parent; an object that was allocated from a pool goes with the pool. A
registry has the objects that are live, and the handles that have been used or destroyed when they
should not.

`Triple xs m Q E` says what `m` makes of the objects `xs` that it owns, whatever else there is in
the registry. All of it is left alone.
-/

namespace Handles

variable {κ ε : Type*} {α β : Type}

/-- The kind of an object, and a number that no other object has. -/
structure Handle (κ : Type*) where
  kind : κ
  id : ℕ
deriving DecidableEq, Repr

/-- A handle of an object of the kind `k`. -/
structure Ref (k : κ) where
  id : ℕ
deriving DecidableEq, Repr

def Ref.handle {k : κ} (x : Ref k) : Handle κ := { kind := k, id := x.id }

inductive Origin (κ : Type*)
  | root
  | child (parent : Handle κ)
  | pooled (pool : Handle κ)
deriving DecidableEq, Repr

def Origin.parent : Origin κ → Option (Handle κ)
  | .root => none
  | .child h => some h
  | .pooled h => some h

structure Object (κ : Type*) where
  handle : Handle κ
  origin : Origin κ
deriving DecidableEq, Repr

def Ref.object {k : κ} (x : Ref k) (origin : Origin κ) : Object κ where
  handle := x.handle
  origin := origin

@[simp] lemma Ref.object_handle {k : κ} (x : Ref k) (origin : Origin κ) :
    (x.object origin).handle = x.handle := rfl

@[simp] lemma Ref.object_origin {k : κ} (x : Ref k) (origin : Origin κ) :
    (x.object origin).origin = origin := rfl

/-- The object is not `h`, and has not been allocated from `h`. -/
def Object.Survives (h : Handle κ) (o : Object κ) : Prop := o.handle ≠ h ∧ o.origin ≠ .pooled h

instance [DecidableEq κ] (h : Handle κ) : DecidablePred (Object.Survives h) :=
  fun _ => inferInstanceAs (Decidable (_ ∧ _))

structure Registry (κ : Type*) where
  next : ℕ
  live : Multiset (Object κ)
  faults : List (Handle κ)

namespace Registry

def empty : Registry κ := { next := 0, live := 0, faults := [] }

def handles (r : Registry κ) : Multiset (Handle κ) := r.live.map Object.handle

variable [DecidableEq κ]

/-- A new object. It is a fault to create one from a parent that is not live. -/
def add (r : Registry κ) (kind : κ) (origin : Origin κ) : Registry κ where
  next := r.next + 1
  live := Ref.object (k := kind) { id := r.next } origin ::ₘ r.live
  faults := r.faults ++ origin.parent.toList.filter (fun p => p ∉ r.handles)

/-- The object `h` goes, with what has been allocated from it. It is a fault if it is not live or
has children that are. -/
def remove (r : Registry κ) (h : Handle κ) : Registry κ where
  next := r.next
  live := r.live.filter (Object.Survives h)
  faults :=
    if h ∈ r.handles ∧ ∀ o ∈ r.live, o.origin ≠ .child h then r.faults else r.faults ++ [h]

end Registry

/-! ### Programs -/

/-- A program over a registry, which returns or throws. -/
def Prog (κ ε : Type*) (α : Type) := Registry κ → Registry κ × Except ε α

namespace Prog

instance : Monad (Prog κ ε) where
  pure a := fun r => (r, .ok a)
  bind m f := fun r =>
    match m r with
    | (r', .ok a) => f a r'
    | (r', .error e) => (r', .error e)

def throw (e : ε) : Prog κ ε α := fun r => (r, .error e)

/-- `m`, or `f e` if `m` throws `e`. -/
def catching (m : Prog κ ε α) (f : ε → Prog κ ε α) : Prog κ ε α := fun r =>
  match m r with
  | (r', .ok a) => (r', .ok a)
  | (r', .error e) => f e r'

variable [DecidableEq κ]

def create (kind : κ) (origin : Origin κ) : Prog κ ε (Ref kind) := fun r =>
  (r.add kind origin, .ok { id := r.next })

def destroy {kind : κ} (x : Ref kind) : Prog κ ε Unit := fun r => (r.remove x.handle, .ok ())

end Prog

/-! ### What a program makes of the objects it owns -/

/-- The parents of the objects are among them. -/
def Closed (s : Multiset (Object κ)) : Prop :=
  ∀ o ∈ s, ∀ p ∈ o.origin.parent, p ∈ s.map Object.handle

/-- Besides the objects of `rest` the registry has those of `xs`, and nothing has gone wrong. -/
structure Owns (rest : Multiset (Object κ)) (r : Registry κ) (xs : List (Object κ)) : Prop where
  live_eq : r.live = ↑xs + rest
  faults_eq : r.faults = []
  nodup : r.handles.Nodup
  id_lt : ∀ h ∈ r.handles, h.id < r.next
  closed : Closed (xs : Multiset (Object κ))
  closed_rest : Closed rest

/-- Whatever else is in the registry, `m` leaves it alone and makes `ys` of the objects `xs`: if it
returns `a`, then with `Q a ys`, and if it throws `e`, then with `E e ys`. -/
def Triple (xs : List (Object κ)) (m : Prog κ ε α) (Q : α → List (Object κ) → Prop)
    (E : ε → List (Object κ) → Prop) : Prop :=
  ∀ rest r, Owns rest r xs →
    match m r with
    | (r', .ok a) => ∃ ys, Owns rest r' ys ∧ Q a ys
    | (r', .error e) => ∃ ys, Owns rest r' ys ∧ E e ys

namespace Triple

variable {xs : List (Object κ)} {m : Prog κ ε α} {f : α → Prog κ ε β}
  {Q : α → List (Object κ) → Prop} {Q' : β → List (Object κ) → Prop}
  {E E' : ε → List (Object κ) → Prop}

lemma ret {a : α} (h : Q a xs) : Triple xs (pure a : Prog κ ε α) Q E :=
  fun _ _ howns => ⟨xs, howns, h⟩

lemma throw {e : ε} (h : E e xs) : Triple xs (Prog.throw e : Prog κ ε α) Q E :=
  fun _ _ howns => ⟨xs, howns, h⟩

lemma bind (hm : Triple xs m Q E) (hf : ∀ a ys, Q a ys → Triple ys (f a) Q' E) :
    Triple xs (m >>= f) Q' E := by
  intro rest r howns
  have h := hm rest r howns
  simp only [Bind.bind]
  rcases hr : m r with ⟨r', e | a⟩
  · rw [hr] at h
    exact h
  · rw [hr] at h
    obtain ⟨ys, hys, hQ⟩ := h
    exact hf a ys hQ rest r' hys

lemma mono {Q₁ : α → List (Object κ) → Prop} (hm : Triple xs m Q E) (hQ : ∀ a ys, Q a ys → Q₁ a ys)
    (hE : ∀ e ys, E e ys → E' e ys) : Triple xs m Q₁ E' := by
  intro rest r howns
  have h := hm rest r howns
  rcases hr : m r with ⟨r', e | a⟩
  · rw [hr] at h
    obtain ⟨ys, hys, he⟩ := h
    exact ⟨ys, hys, hE e ys he⟩
  · rw [hr] at h
    obtain ⟨ys, hys, ha⟩ := h
    exact ⟨ys, hys, hQ a ys ha⟩

lemma throw_bind {e : ε} (h : E e xs) : Triple xs (Prog.throw e >>= f) Q' E :=
  bind (throw (Q := fun _ _ => False) h) (fun _ _ hfalse => hfalse.elim)

lemma catching {g : ε → Prog κ ε α} (hm : Triple xs m Q E)
    (hg : ∀ e ys, E e ys → Triple ys (g e) Q E') : Triple xs (m.catching g) Q E' := by
  intro rest r howns
  have h := hm rest r howns
  simp only [Prog.catching]
  rcases hr : m r with ⟨r', e | a⟩
  · rw [hr] at h
    obtain ⟨ys, hys, hE⟩ := h
    exact hg e ys hE rest r' hys
  · rw [hr] at h
    exact h

lemma perm {ys : List (Object κ)} (hperm : xs.Perm ys) (h : Triple ys m Q E) :
    Triple xs m Q E := by
  intro rest r howns
  have hcoe : (xs : Multiset (Object κ)) = ys := Multiset.coe_eq_coe.mpr hperm
  exact h rest r
    { live_eq := hcoe ▸ howns.live_eq
      faults_eq := howns.faults_eq
      nodup := howns.nodup
      id_lt := howns.id_lt
      closed := hcoe ▸ howns.closed
      closed_rest := howns.closed_rest }

variable [DecidableEq κ]

/-- A new object, of a parent that is owned. -/
lemma create {kind : κ} {origin : Origin κ} {Q : Ref kind → List (Object κ) → Prop}
    (hparent : ∀ p ∈ origin.parent, p ∈ xs.map Object.handle)
    (h : ∀ x : Ref kind, Q x (xs ++ [x.object origin])) :
    Triple xs (Prog.create kind origin) Q E := by
  intro rest r howns
  let o : Object κ := Ref.object (k := kind) { id := r.next } origin
  have hlive : (o ::ₘ r.live) = ↑(xs ++ [o]) + rest := by
    rw [howns.live_eq, ← Multiset.coe_add, Multiset.coe_singleton, add_right_comm,
      ← Multiset.singleton_add, add_comm]
  have hold : ∀ p ∈ xs.map Object.handle, p ∈ r.handles := by
    intro p hp
    rw [Registry.handles, howns.live_eq, Multiset.map_add, Multiset.mem_add]
    exact .inl (by simpa using hp)
  refine ⟨xs ++ [o], ?_, h { id := r.next }⟩
  constructor
  · exact hlive
  · have hnone : origin.parent.toList.filter (fun p => p ∉ r.handles) = [] := by
      rw [List.filter_eq_nil_iff]
      intro p hp
      simpa using hold p (hparent p (Option.mem_toList.mp hp))
    simp only [Registry.add, hnone, howns.faults_eq, List.append_nil]
  · have hnew : o.handle ∉ r.handles := fun hmem => (howns.id_lt _ hmem).ne rfl
    simp only [Registry.handles, Registry.add, Multiset.map_cons]
    exact Multiset.nodup_cons.mpr ⟨hnew, howns.nodup⟩
  · intro p hp
    simp only [Registry.handles, Registry.add, Multiset.map_cons, Multiset.mem_cons] at hp
    rcases hp with rfl | hp
    · exact Nat.lt_succ_self _
    · exact (howns.id_lt p hp).trans (Nat.lt_succ_self _)
  · intro x hx p hp
    rw [Multiset.mem_coe, List.mem_append, List.mem_singleton] at hx
    rw [Multiset.map_coe, Multiset.mem_coe, List.map_append, List.mem_append]
    rcases hx with hx | rfl
    · exact .inl (by simpa using howns.closed x (Multiset.mem_coe.mpr hx) p hp)
    · exact .inl (hparent p hp)
  · exact howns.closed_rest

lemma create_bind {kind : κ} {origin : Origin κ} {g : Ref kind → Prog κ ε β}
    (hparent : ∀ p ∈ origin.parent, p ∈ xs.map Object.handle)
    (h : ∀ x : Ref kind, Triple (xs ++ [x.object origin]) (g x) Q' E) :
    Triple xs (Prog.create kind origin >>= g) Q' E :=
  bind (Q := fun x ys => ys = xs ++ [x.object origin])
    (create hparent (fun _ => rfl)) (fun x _ hys => hys ▸ h x)

/-- A pool goes with what has been allocated from it, when it has no child and when nothing else
has come from it. -/
lemma destroy_pool {kind : κ} {x : Ref kind} {origin : Origin κ}
    (allocated : List (Object κ)) {ys : List (Object κ)} {Q : Unit → List (Object κ) → Prop}
    (hpooled : ∀ o ∈ allocated, o.origin = .pooled x.handle)
    (hself : x.handle ∉ origin.parent) (hrefs : ∀ o ∈ ys, x.handle ∉ o.origin.parent)
    (hfree : ∀ o ∈ ys, ∀ p ∈ o.origin.parent, p ∉ allocated.map Object.handle) (h : Q () ys) :
    Triple (x.object origin :: (allocated ++ ys)) (Prog.destroy x) Q E := by
  intro rest r howns
  have hlive : r.live = x.object origin ::ₘ
      ((allocated : Multiset (Object κ)) + ((ys : Multiset (Object κ)) + rest)) := by
    rw [howns.live_eq, ← Multiset.cons_coe, ← Multiset.coe_add, Multiset.cons_add, add_assoc]
  have hnodup := howns.nodup
  rw [Registry.handles, hlive, Multiset.map_cons, Multiset.nodup_cons] at hnodup
  have hother : ∀ o ∈ (ys : Multiset (Object κ)) + rest, o.handle ≠ x.handle := by
    intro o ho heq
    exact hnodup.1 (Multiset.mem_map.mpr ⟨o, Multiset.mem_add.mpr (.inr ho), heq⟩)
  have hparent : ∀ o ∈ (ys : Multiset (Object κ)) + rest, x.handle ∉ o.origin.parent := by
    intro o ho hx
    rcases Multiset.mem_add.mp ho with ho | ho
    · exact hrefs o (Multiset.mem_coe.mp ho) hx
    · obtain ⟨p, hp, heq⟩ := Multiset.mem_map.mp (howns.closed_rest o ho _ hx)
      exact hother p (Multiset.mem_add.mpr (.inr hp)) heq
  have hfilter : r.live.filter (Object.Survives x.handle) = ↑ys + rest := by
    have hnone : (allocated : Multiset (Object κ)).filter (Object.Survives x.handle) = 0 := by
      rw [Multiset.filter_eq_nil]
      exact fun o ho hsurv => hsurv.2 (hpooled o (Multiset.mem_coe.mp ho))
    have hall : ((ys : Multiset (Object κ)) + rest).filter (Object.Survives x.handle) =
        ↑ys + rest := by
      rw [Multiset.filter_eq_self]
      refine fun o ho => ⟨hother o ho, fun horigin => hparent o ho ?_⟩
      rw [horigin]
      rfl
    rw [hlive, Multiset.filter_cons_of_neg _ (fun hsurv => hsurv.1 rfl), Multiset.filter_add, hnone,
      hall, zero_add]
  have hhandles : (r.remove x.handle).handles ≤ r.handles :=
    Multiset.map_le_map (Multiset.filter_le _ _)
  refine ⟨ys, ?_, h⟩
  constructor
  · exact hfilter
  · have hmem : x.handle ∈ r.handles := by
      rw [Registry.handles, hlive, Multiset.map_cons]
      exact Multiset.mem_cons_self _ _
    have hchild : ∀ o ∈ r.live, o.origin ≠ .child x.handle := by
      intro o ho horigin
      rw [hlive, Multiset.mem_cons, Multiset.mem_add] at ho
      rcases ho with rfl | ho | ho
      · exact hself (by rw [show origin = _ from horigin]; rfl)
      · rw [hpooled o (Multiset.mem_coe.mp ho)] at horigin
        cases horigin
      · exact hparent o ho (by rw [horigin]; rfl)
    simp only [Registry.remove, if_pos (And.intro hmem hchild), howns.faults_eq]
  · exact Multiset.nodup_of_le hhandles howns.nodup
  · exact fun p hp => howns.id_lt p (Multiset.mem_of_le hhandles hp)
  · intro o ho p hp
    have ho' := Multiset.mem_coe.mp ho
    have hmem := howns.closed o (by
      rw [Multiset.mem_coe]
      exact List.mem_cons_of_mem _ (List.mem_append_right _ ho')) p hp
    rw [Multiset.map_coe, Multiset.mem_coe, List.map_cons, List.map_append, List.mem_cons,
      List.mem_append] at hmem
    rw [Multiset.map_coe, Multiset.mem_coe]
    rcases hmem with rfl | hmem | hmem
    · exact absurd hp (hrefs o ho')
    · exact absurd hmem (hfree o ho' p hp)
    · exact hmem
  · exact howns.closed_rest

lemma destroy {kind : κ} {x : Ref kind} {origin : Origin κ} {ys : List (Object κ)}
    {Q : Unit → List (Object κ) → Prop} (hself : x.handle ∉ origin.parent)
    (hrefs : ∀ o ∈ ys, x.handle ∉ o.origin.parent) (h : Q () ys) :
    Triple (x.object origin :: ys) (Prog.destroy x) Q E :=
  destroy_pool [] (by simp) hself hrefs (by simp) h

lemma destroy_pool_bind {kind : κ} {x : Ref kind} {origin : Origin κ}
    (allocated : List (Object κ)) {ys : List (Object κ)} {g : Unit → Prog κ ε β}
    (hpooled : ∀ o ∈ allocated, o.origin = .pooled x.handle) (hself : x.handle ∉ origin.parent)
    (hrefs : ∀ o ∈ ys, x.handle ∉ o.origin.parent)
    (hfree : ∀ o ∈ ys, ∀ p ∈ o.origin.parent, p ∉ allocated.map Object.handle)
    (h : Triple ys (g ()) Q' E) :
    Triple (x.object origin :: (allocated ++ ys))
      (Prog.destroy x >>= g) Q' E :=
  bind (Q := fun _ zs => zs = ys) (destroy_pool allocated hpooled hself hrefs hfree rfl)
    (fun _ _ hzs => hzs ▸ h)

lemma destroy_bind {kind : κ} {x : Ref kind} {origin : Origin κ} {ys : List (Object κ)}
    {g : Unit → Prog κ ε β} (hself : x.handle ∉ origin.parent)
    (hrefs : ∀ o ∈ ys, x.handle ∉ o.origin.parent) (h : Triple ys (g ()) Q' E) :
    Triple (x.object origin :: ys) (Prog.destroy x >>= g) Q' E :=
  destroy_pool_bind [] (by simp) hself hrefs (by simp) h

end Triple

/-! ### Groups of objects -/

/-- The live objects are those of the groups, no group refers to another, and nothing has gone
wrong. -/
structure Holds (r : Registry κ) (groups : List (List (Object κ))) : Prop where
  live_eq : r.live = ↑groups.flatten
  faults_eq : r.faults = []
  nodup : r.handles.Nodup
  id_lt : ∀ h ∈ r.handles, h.id < r.next
  closed : ∀ g ∈ groups, Closed (g : Multiset (Object κ))

namespace Holds

variable {r : Registry κ} {groups groups' : List (List (Object κ))}

lemma empty : Holds (Registry.empty : Registry κ) [] where
  live_eq := rfl
  faults_eq := rfl
  nodup := Multiset.nodup_zero
  id_lt := by simp [Registry.handles, Registry.empty]
  closed := by simp

lemma perm (h : Holds r groups) (hperm : groups.Perm groups') : Holds r groups' where
  live_eq := h.live_eq.trans (Multiset.coe_eq_coe.mpr hperm.flatten)
  faults_eq := h.faults_eq
  nodup := h.nodup
  id_lt := h.id_lt
  closed := fun g hg => h.closed g (hperm.mem_iff.mpr hg)

lemma cons_nil_iff : Holds r ([] :: groups) ↔ Holds r groups := by
  constructor
  · intro h
    exact ⟨h.live_eq, h.faults_eq, h.nodup, h.id_lt,
      fun g hg => h.closed g (List.mem_cons_of_mem _ hg)⟩
  · intro h
    refine ⟨h.live_eq, h.faults_eq, h.nodup, h.id_lt, fun g hg => ?_⟩
    rcases List.mem_cons.mp hg with rfl | hg
    · intro o ho
      simp at ho
    · exact h.closed g hg

lemma closed_flatten (h : ∀ g ∈ groups, Closed (g : Multiset (Object κ))) :
    Closed (groups.flatten : Multiset (Object κ)) := by
  intro o ho p hp
  rw [Multiset.mem_coe, List.mem_flatten] at ho
  obtain ⟨g, hg, hog⟩ := ho
  have hmem := h g hg o (Multiset.mem_coe.mpr hog) p hp
  rw [Multiset.map_coe, Multiset.mem_coe] at hmem ⊢
  obtain ⟨o', ho', heq⟩ := List.mem_map.mp hmem
  exact List.mem_map.mpr ⟨o', List.mem_flatten.mpr ⟨g, hg, ho'⟩, heq⟩

/-- A program that owns one of the groups leaves the others as they are. -/
theorem run {xs : List (Object κ)} {m : Prog κ ε α} {Q : α → List (Object κ) → Prop}
    {E : ε → List (Object κ) → Prop} (h : Holds r (xs :: groups)) (hm : Triple xs m Q E) :
    match m r with
    | (r', .ok a) => ∃ ys, Holds r' (ys :: groups) ∧ Q a ys
    | (r', .error e) => ∃ ys, Holds r' (ys :: groups) ∧ E e ys := by
  have hclosed : ∀ g ∈ groups, Closed (g : Multiset (Object κ)) :=
    fun g hg => h.closed g (List.mem_cons_of_mem _ hg)
  have hback : ∀ {r' : Registry κ} {ys : List (Object κ)}, Owns ↑groups.flatten r' ys →
      Holds r' (ys :: groups) := fun howns =>
    { live_eq := by rw [howns.live_eq, List.flatten_cons, ← Multiset.coe_add]
      faults_eq := howns.faults_eq
      nodup := howns.nodup
      id_lt := howns.id_lt
      closed := by
        intro g hg
        rcases List.mem_cons.mp hg with rfl | hg
        · exact howns.closed
        · exact hclosed g hg }
  have hrun := hm ↑groups.flatten r
    { live_eq := by rw [h.live_eq, List.flatten_cons, ← Multiset.coe_add]
      faults_eq := h.faults_eq
      nodup := h.nodup
      id_lt := h.id_lt
      closed := h.closed xs List.mem_cons_self
      closed_rest := closed_flatten hclosed }
  rcases hr : m r with ⟨r', e | a⟩
  · rw [hr] at hrun
    obtain ⟨ys, hys, hE⟩ := hrun
    exact ⟨ys, hback hys, hE⟩
  · rw [hr] at hrun
    obtain ⟨ys, hys, hQ⟩ := hrun
    exact ⟨ys, hback hys, hQ⟩

end Holds

end Handles
