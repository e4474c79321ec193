import HabitHive.Lib.Draining
import Mathlib.Algebra.BigOperators.Group.List.Basic
import Mathlib.Algebra.Order.Group.Multiset
import Mathlib.Data.List.Induction

/-!
# Machines that share a store

Machines of one kind take steps on a common store, in any order.  Each has
its own copy of the store, which `put` replaces before a step and `get`
takes out after it, so between two steps of a machine the others may have
changed everything in the store.

* `All.next`: what each machine keeps, whatever the others do to the store,
  all of them keep.  `hput` is what a machine relies on, and `hget` what it
  guarantees.
* `run_member`: steps of one machine in a row are its run on the store.
* `drains`: if an event makes the work of each machine smaller, it makes the
  work of all smaller.  So machines that come to rest one by one come to rest
  together (`rests`).
-/

namespace Runs

/-- The store, and the machines but for their copies of it. -/
structure Pool (τ σ : Type*) where
  store : τ
  members : List σ

namespace Pool

variable {τ σ ε : Type*} (get : σ → τ) (put : τ → σ → σ) (step : σ → ε → σ)

/-- Machine `e.1` takes event `e.2`. -/
def next (x : Pool τ σ) (e : ℕ × ε) : Pool τ σ :=
  match x.members[e.1]? with
  | none => x
  | some m =>
    let m' := step (put x.store m) e.2
    { store := get m', members := x.members.set e.1 m' }

/-- The store satisfies `I`, and each machine `J`. -/
structure All (I : τ → Prop) (J : σ → Prop) (x : Pool τ σ) : Prop where
  store : I x.store
  members : ∀ m ∈ x.members, J m

/-- A machine that is there takes its step. -/
theorem next_cases (x : Pool τ σ) (e : ℕ × ε) :
    next get put step x e = x ∨ ∃ m, x.members[e.1]? = some m ∧
      next get put step x e =
        { store := get (step (put x.store m) e.2)
          members := x.members.set e.1 (step (put x.store m) e.2) } := by
  rw [next]
  split
  · exact Or.inl rfl
  · next m hm => exact Or.inr ⟨m, hm, rfl⟩

section Cases

variable {get put step} {x : Pool τ σ} {e : ℕ × ε}

theorem All.mono {I I' : τ → Prop} {J J' : σ → Prop} (h : All I J x) (hI : I x.store → I' x.store)
    (hJ : ∀ m, J m → J' m) : All I' J' x :=
  ⟨hI h.store, fun m hm => hJ m (h.members m hm)⟩

/-- What each machine makes of `J`, on a store that satisfies `I`. -/
theorem All.next {I I' : τ → Prop} {J J' : σ → Prop} (h : All I J x)
    (hput : ∀ m, J m → J (put x.store m)) (hstep : ∀ m, J m → J' (step m e.2))
    (hget : ∀ m, J' m → I' (get m)) (hI : I x.store → I' x.store) (hJ : ∀ m, J m → J' m) :
    All I' J' (Pool.next get put step x e) := by
  rcases next_cases get put step x e with hx | ⟨m, hm, hx⟩ <;> rw [hx]
  · exact h.mono hI hJ
  · have hnext := hstep _ (hput m (h.members m (List.mem_of_getElem? hm)))
    refine ⟨hget _ hnext, fun m' hm' => ?_⟩
    rcases List.mem_or_eq_of_mem_set hm' with hm' | rfl
    · exact hJ m' (h.members m' hm')
    · exact hnext

/-- A machine that takes several steps in a row is not disturbed. -/
theorem run_member (hput : ∀ m, put (get m) m = m) {x : Pool τ σ} {k : ℕ} {m : σ}
    (hm : x.members[k]? = some m) (e : ε) (es : List ε) :
    run (next get put step) x ((e :: es).map (Prod.mk k)) =
      { store := get (run step (put x.store m) (e :: es))
        members := x.members.set k (run step (put x.store m) (e :: es)) } := by
  have hk : k < x.members.length := (List.getElem?_eq_some_iff.mp hm).1
  induction es using List.reverseRecOn with
  | nil => simp [next, hm]
  | append_singleton es f ih =>
    rw [← List.cons_append, List.map_append, run_append, ih, run_append]
    simp [next, List.getElem?_set_self hk, hput]

end Cases

/-! ## Work -/

section Work

variable {β ι : Type*} (held : σ → β) (work : σ → Multiset ι)

/-- What all machines hold. -/
def heldAll (x : Pool τ σ) : List β := x.members.map held

/-- The work of all machines. -/
def workAll (x : Pool τ σ) : Multiset ι := (x.members.map work).sum

variable {get put step held work} {e : ℕ × ε}

theorem workAll_eq_of_held (hwork : ∀ s t, held s = held t → work s = work t) {x y : Pool τ σ}
    (h : heldAll held x = heldAll held y) : workAll work x = workAll work y := by
  rw [heldAll, heldAll, ← List.forall₂_eq_eq_eq, List.forall₂_map_left_iff,
    List.forall₂_map_right_iff] at h
  have hsame : x.members.map work = y.members.map work := by
    rw [← List.forall₂_eq_eq_eq, List.forall₂_map_left_iff, List.forall₂_map_right_iff]
    exact h.imp hwork
  rw [workAll, workAll, hsame]

/-- The work of all machines, one of which is replaced. -/
theorem sum_set (work : σ → Multiset ι) {ms : List σ} {k : ℕ} {m : σ} (hm : ms[k]? = some m)
    (m' : σ) :
    (ms.map work).sum = work m + ((ms.eraseIdx k).map work).sum ∧
      ((ms.set k m').map work).sum = work m' + ((ms.eraseIdx k).map work).sum := by
  obtain ⟨hk, rfl⟩ := List.getElem?_eq_some_iff.mp hm
  constructor
  · rw [((List.getElem_cons_eraseIdx_perm hk).symm.map work).sum_eq, List.map_cons, List.sum_cons]
  · rw [((List.set_perm_cons_eraseIdx hk m').map work).sum_eq, List.map_cons, List.sum_cons]

/-- A machine is replaced by one that holds the same. -/
theorem map_held_set {ms : List σ} {k : ℕ} {m m' : σ} (hm : ms[k]? = some m)
    (h : held m' = held m) : (ms.set k m').map held = ms.map held := by
  obtain ⟨hk, rfl⟩ := List.getElem?_eq_some_iff.mp hm
  rw [List.map_set, h, ← List.getElem_map held (h := by simpa), List.set_getElem_self]

/-- An event that leaves what each machine holds. -/
theorem heldAll_next (hheld : ∀ s m, held (put s m) = held m)
    (h : ∀ m, held (step m e.2) = held m) (x : Pool τ σ) :
    heldAll held (next get put step x e) = heldAll held x := by
  rcases next_cases get put step x e with hx | ⟨m, hm, hx⟩ <;> rw [hx]
  exact map_held_set hm ((h _).trans (hheld _ _))

/-- An event that drains each machine drains all of them. -/
theorem drains [Preorder ι] (hheld : ∀ s m, held (put s m) = held m)
    (hwork : ∀ s m, work (put s m) = work m)
    (h : ∀ m, Draining.Drains step held work m e.2) (x : Pool τ σ) :
    Draining.Drains (next get put step) (heldAll held) (workAll work) x e := by
  rcases next_cases get put step x e with hx | ⟨m, hm, hx⟩
  · exact Or.inl (by rw [hx])
  · rw [Draining.Drains, hx]
    refine (h (put x.store m)).imp (fun hsame => ?_) fun hlt => ?_
    · exact map_held_set hm (hsame.trans (hheld _ _))
    · obtain ⟨hold, hnew⟩ := sum_set work hm (step (put x.store m) e.2)
      rw [workAll, workAll, hnew, hold, ← hwork x.store m]
      exact Draining.lt_add_right _ hlt

/-! ### Schedules -/

variable [Preorder ι] [WellFoundedLT ι] {x : Pool τ σ} {es : ℕ → ℕ × ε}

/-- What the machines hold changes finitely often. -/
theorem settles (hheld : ∀ s m, held (put s m) = held m)
    (hwork : ∀ m n, held m = held n → work m = work n)
    (h : ∀ n m, Draining.Drains step held work m (es n).2) :
    ∃ n, ∀ m, n ≤ m → heldAll held (trace (next get put step) x es m) =
      heldAll held (trace (next get put step) x es n) :=
  Draining.settles (fun _ _ => workAll_eq_of_held hwork) fun y n =>
    drains hheld (fun s m => hwork _ _ (hheld s m)) (h n) y

/-- Machines that move sooner or later while one of them is busy come to
rest. -/
theorem rests (hheld : ∀ s m, held (put s m) = held m)
    (hwork : ∀ m n, held m = held n → work m = work n)
    (h : ∀ n m, Draining.Drains step held work m (es n).2) (busy : β → Prop)
    (hfair : ∀ n, (∃ m ∈ (trace (next get put step) x es n).members, busy (held m)) →
      ∃ m, n ≤ m ∧ heldAll held (trace (next get put step) x es (m + 1)) ≠
        heldAll held (trace (next get put step) x es m)) :
    ∃ n, ∀ m, n ≤ m → ∀ s ∈ (trace (next get put step) x es m).members, ¬busy (held s) := by
  obtain ⟨n, hrest, hsame⟩ := Draining.rests (s := x)
    (fun _ _ => workAll_eq_of_held hwork)
    (fun y n => drains hheld (fun s m => hwork _ _ (hheld s m)) (h n) y)
    (fun hs => ∃ h ∈ hs, busy h) fun n hn => hfair n (by simpa [heldAll] using hn)
  refine ⟨n, fun m hm s hs hbusy => hrest ?_⟩
  rw [← hsame m hm]
  exact ⟨held s, List.mem_map_of_mem hs, hbusy⟩

end Work

end Pool

end Runs
