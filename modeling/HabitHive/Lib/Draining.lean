import Mathlib.Data.Multiset.DershowitzManna
import Mathlib.Order.WellFounded
import HabitHive.Lib.Runs

/-!
# Machines that come to rest

A machine holds items that wait to be served, and serving one may bring in
others.  `held` is the part of the state that says what is held, and `work`
is a multiset of ranks read off it.

An event drains a state when it leaves what is held, or makes the work
smaller in the order of Dershowitz and Manna.  The usual case is
`lt_of_replace`: an item is taken out, and all items that are put in have a
smaller rank.  There need be no bound on how many these are.

* `settles`: along an infinite schedule of events that drain, what is held
  changes finitely often.
* `rests`: if moreover a machine that is busy moves sooner or later, it
  comes to rest for good.
* `exists_rest`: a machine that can always drain while it is busy has a
  finite schedule to rest, and `fair_of_rest` makes it one that moves
  sooner or later.
-/

namespace Runs

variable {σ ε : Type*}

/-- The states that an infinite schedule passes. -/
def trace (step : σ → ε → σ) (s : σ) (e : ℕ → ε) : ℕ → σ
  | 0 => s
  | n + 1 => step (trace step s e n) (e n)

section Trace

variable (step : σ → ε → σ) (s : σ) (e : ℕ → ε)

@[simp] theorem trace_zero : trace step s e 0 = s := rfl

@[simp] theorem trace_succ (n : ℕ) :
    trace step s e (n + 1) = step (trace step s e n) (e n) := rfl

/-- A schedule is its first event and then the others. -/
theorem trace_tail (n : ℕ) :
    trace step s e (n + 1) = trace step (step s (e 0)) (fun n => e (n + 1)) n := by
  induction n with
  | zero => rfl
  | succ n ih => rw [trace_succ, ih, trace_succ]

/-- A finite schedule that goes on with one event forever. -/
theorem trace_getD (es : List ε) (idle : ε) (k : ℕ) :
    trace step s (fun n => es.getD n idle) (es.length + k) =
      trace step (run step s es) (fun _ => idle) k := by
  induction es generalizing s with
  | nil => simp
  | cons e es ih =>
    rw [List.length_cons, Nat.add_right_comm, trace_tail]
    exact ih (step s e)

end Trace

end Runs

namespace Draining

open Runs Multiset

/-! ## The order -/

section Order

variable {ι : Type*} [Preorder ι] {M N T : Multiset ι} {a : ι}

/-- One item is taken out and items of smaller rank are put in. -/
theorem lt_of_replace (h : ∀ b ∈ T, b < a) : IsDershowitzMannaLT (M + T) (a ::ₘ M) := by
  refine ⟨M, T, {a}, by simp, rfl, by rw [add_comm, singleton_add], fun b hb => ?_⟩
  exact ⟨a, mem_singleton_self a, h b hb⟩

/-- All items are taken out. -/
theorem zero_lt (h : N ≠ 0) : IsDershowitzMannaLT 0 N :=
  ⟨0, 0, N, h, rfl, by simp, by simp⟩

/-- Items that stay. -/
theorem lt_add_left (K : Multiset ι) (h : IsDershowitzMannaLT M N) :
    IsDershowitzMannaLT (K + M) (K + N) := by
  obtain ⟨X, Y, Z, hZ, rfl, rfl, hYZ⟩ := h
  exact ⟨K + X, Y, Z, hZ, by rw [add_assoc], by rw [add_assoc], hYZ⟩

theorem lt_add_right (K : Multiset ι) (h : IsDershowitzMannaLT M N) :
    IsDershowitzMannaLT (M + K) (N + K) := by
  rw [add_comm M, add_comm N]
  exact lt_add_left K h

end Order

/-! ## Schedules -/

variable {σ ε β ι : Type*} [Preorder ι]

/-- The event leaves what is held or makes the work smaller. -/
def Drains (step : σ → ε → σ) (held : σ → β) (work : σ → Multiset ι) (s : σ) (e : ε) : Prop :=
  held (step s e) = held s ∨ IsDershowitzMannaLT (work (step s e)) (work s)

variable [WellFoundedLT ι] {step : σ → ε → σ} {held : σ → β} {work : σ → Multiset ι} {s : σ}

/-- What is held changes finitely often, if the work is read off it. -/
theorem settles (hwork : ∀ s t, held s = held t → work s = work t) {e : ℕ → ε}
    (h : ∀ s n, Drains step held work s (e n)) :
    ∃ n, ∀ m, n ≤ m → held (trace step s e m) = held (trace step s e n) := by
  obtain ⟨_, ⟨n, rfl⟩, hmin⟩ := wellFounded_isDershowitzMannaLT.has_min
    (Set.range fun n => work (trace step s e n)) ⟨_, 0, rfl⟩
  refine ⟨n, fun m hm => ?_⟩
  induction m, hm using Nat.le_induction with
  | base => rfl
  | succ m _ ih =>
    rcases h (trace step s e m) m with hheld | hlt
    · rw [trace_succ, hheld, ih]
    · -- the work was as small as it gets
      rw [hwork _ _ ih] at hlt
      exact absurd hlt (hmin _ ⟨m + 1, rfl⟩)

/-- A busy machine that moves sooner or later comes to rest. -/
theorem rests (hwork : ∀ s t, held s = held t → work s = work t) {e : ℕ → ε}
    (h : ∀ s n, Drains step held work s (e n)) (busy : β → Prop)
    (hfair : ∀ n, busy (held (trace step s e n)) →
      ∃ m, n ≤ m ∧ held (trace step s e (m + 1)) ≠ held (trace step s e m)) :
    ∃ n, ¬busy (held (trace step s e n)) ∧
      ∀ m, n ≤ m → held (trace step s e m) = held (trace step s e n) := by
  obtain ⟨n, hn⟩ := settles (s := s) hwork h
  refine ⟨n, fun hbusy => ?_, hn⟩
  obtain ⟨m, hm, hmoves⟩ := hfair n hbusy
  exact hmoves (by rw [hn (m + 1) (by omega), hn m hm])

/-- A finite schedule to rest, continued with an event that leaves a machine
at rest, meets the hypothesis of `rests`. -/
theorem fair_of_rest (held : σ → β) (busy : β → Prop) {idle : ε}
    (hidle : ∀ s, ¬busy (held s) → held (step s idle) = held s) {es : List ε}
    (hrest : ¬busy (held (run step s es))) (n : ℕ)
    (hn : busy (held (trace step s (fun n => es.getD n idle) n))) :
    ∃ m, n ≤ m ∧ held (trace step s (fun n => es.getD n idle) (m + 1)) ≠
      held (trace step s (fun n => es.getD n idle) m) := by
  by_contra hstill
  push Not at hstill
  have hsame : ∀ k, held (trace step s (fun n => es.getD n idle) (n + k)) =
      held (trace step s (fun n => es.getD n idle) n) := by
    intro k
    induction k with
    | zero => rfl
    | succ k ih => rw [← Nat.add_assoc, hstill (n + k) (by omega), ih]
  have hend : ∀ k, held (trace step (run step s es) (fun _ => idle) k) =
      held (run step s es) := by
    intro k
    induction k with
    | zero => rfl
    | succ k ih =>
      rw [trace_succ, hidle _ (by rw [ih]; exact hrest), ih]
  rw [← hsame es.length, Nat.add_comm, trace_getD, hend n] at hn
  exact hrest hn

/-- A finite schedule to rest. -/
theorem exists_rest {ok : ε → Prop} (busy : σ → Prop)
    (hprogress : ∀ s, busy s → ∃ e, ok e ∧ IsDershowitzMannaLT (work (step s e)) (work s))
    (s : σ) : ∃ es : List ε, (∀ e ∈ es, ok e) ∧ ¬busy (run step s es) := by
  induction hM : work s using
    (wellFounded_isDershowitzMannaLT (α := ι)).induction generalizing s with
  | _ M ih =>
    subst hM
    by_cases hbusy : busy s
    · obtain ⟨e, he, hlt⟩ := hprogress s hbusy
      obtain ⟨es, hes, hrest⟩ := ih _ hlt (step s e) rfl
      exact ⟨e :: es, by simpa [he] using hes, hrest⟩
    · exact ⟨[], by simp, hbusy⟩

end Draining
