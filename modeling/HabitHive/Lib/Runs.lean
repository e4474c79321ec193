import Mathlib.Data.List.Basic

/-!
# Runs of a deterministic event machine

A machine is a function `step : σ → ε → σ`.  A run is the fold of `step`
over a list of events, so every list of events is a run and an event that
is not possible in a state is a step that changes nothing.

Six notions are built on it.

* `Guarded step ok s es`: every step of the run of `es` from `s` is taken
  from a state in which `ok` allows it.  Claims about schedules are
  statements about guarded runs.
* The rules `run_view`, `run_invariant` and `Guarded.dichotomy`: what no
  event changes, a run does not change; what one allowed step keeps, a
  guarded run keeps; and what the first forbidden step breaks stays broken.
* `Always step P s es`: `P` holds in every state that the run passes.
  `always_iff_of_exact` is the rule for the guard that is exactly right
  for `P`.
* `observe`: the list of what an observer sees along a run, one entry list
  for each step, read off the state the step is taken from.
* `simulation`: the forward simulation of a machine by another one that
  takes the observed operations.
* `record`: the machine that carries this list with its state.  A guard of
  the recorded machine is a guard that knows the history.  With `steps` the
  history is the whole run so far, and `InOrder` what holds between its
  states.
-/

namespace Runs

variable {σ ε : Type*}

/-- The state after the events `es`. -/
def run (step : σ → ε → σ) (s : σ) (es : List ε) : σ := es.foldl step s

section Run

variable (step : σ → ε → σ) (s : σ)

@[simp] theorem run_nil : run step s [] = s := rfl

@[simp] theorem run_cons (e : ε) (es : List ε) :
    run step s (e :: es) = run step (step s e) es := rfl

theorem run_append (es fs : List ε) :
    run step s (es ++ fs) = run step (run step s es) fs := by
  simp [run, List.foldl_append]

end Run

/-- A view of the state that no event of the run changes. -/
theorem run_view {α : Type*} {step : σ → ε → σ} (view : σ → α) {s : σ} {es : List ε}
    (h : ∀ e ∈ es, ∀ s, view (step s e) = view s) : view (run step s es) = view s := by
  induction es generalizing s with
  | nil => rfl
  | cons e es ih =>
    rw [run_cons, ih fun e' he' => h e' (List.mem_cons_of_mem e he'), h e (by simp)]

/-- Every step of the run of `es` from `s` is allowed by `ok` in the state
it is taken from. -/
def Guarded (step : σ → ε → σ) (ok : σ → ε → Prop) : σ → List ε → Prop
  | _, [] => True
  | s, e :: es => ok s e ∧ Guarded step ok (step s e) es

instance Guarded.decidable (step : σ → ε → σ) (ok : σ → ε → Prop)
    [∀ s e, Decidable (ok s e)] :
    ∀ (s : σ) (es : List ε), Decidable (Guarded step ok s es)
  | _, [] => isTrue trivial
  | s, e :: es =>
      match inferInstanceAs (Decidable (ok s e)),
        Guarded.decidable step ok (step s e) es with
      | isTrue h, isTrue hs => isTrue ⟨h, hs⟩
      | isFalse h, _ => isFalse fun hg => h hg.1
      | _, isFalse hs => isFalse fun hg => hs hg.2

section Guarded

variable {step : σ → ε → σ} {ok ok' : σ → ε → Prop}

@[simp] theorem guarded_nil (s : σ) : Guarded step ok s [] := trivial

@[simp] theorem guarded_cons {s : σ} {e : ε} {es : List ε} :
    Guarded step ok s (e :: es) ↔ ok s e ∧ Guarded step ok (step s e) es :=
  Iff.rfl

theorem guarded_append {s : σ} {es fs : List ε} :
    Guarded step ok s (es ++ fs) ↔
      Guarded step ok s es ∧ Guarded step ok (run step s es) fs := by
  induction es generalizing s with
  | nil => simp
  | cons e es ih => simp [ih, and_assoc]

/-- A guard follows from another one wherever the invariant holds. -/
theorem Guarded.mono {I : σ → Prop} (hstep : ∀ s e, I s → I (step s e))
    (hok : ∀ s e, I s → ok s e → ok' s e) {s : σ} {es : List ε} (h : Guarded step ok s es)
    (hs : I s) : Guarded step ok' s es := by
  induction es generalizing s with
  | nil => trivial
  | cons e es ih => exact ⟨hok s e hs h.1, ih h.2 (hstep s e hs)⟩

/-- A condition on the events alone, as part of the guard. -/
theorem Guarded.and_forall {alpha : ε → Prop} {s : σ} {es : List ε} (h : Guarded step ok s es)
    (hes : ∀ e ∈ es, alpha e) : Guarded step (fun s e => ok s e ∧ alpha e) s es := by
  induction es generalizing s with
  | nil => trivial
  | cons e es ih => exact ⟨⟨h.1, hes e (by simp)⟩, ih h.2 fun e' he' => hes e' (by simp [he'])⟩

theorem Guarded.and {s : σ} {es : List ε} (h : Guarded step ok s es) (h' : Guarded step ok' s es) :
    Guarded step (fun s e => ok s e ∧ ok' s e) s es := by
  induction es generalizing s with
  | nil => trivial
  | cons e es ih => exact ⟨⟨h.1, h'.1⟩, ih h.2 h'.2⟩

/-- What every allowed step keeps, a guarded run keeps. -/
theorem run_invariant {I : σ → Prop}
    (hstep : ∀ s e, I s → ok s e → I (step s e)) {s : σ} {es : List ε}
    (h : Guarded step ok s es) (hs : I s) : I (run step s es) := by
  induction es generalizing s with
  | nil => exact hs
  | cons e es ih => exact ih h.2 (hstep s e hs h.1)

/-- What a run adds to a log, one of its steps adds. -/
theorem mem_log_run {ω : Type*} (log : σ → List ω) {Q : σ → ε → ω → Prop}
    (hstep : ∀ s e, ok s e → ∀ w ∈ log (step s e), w ∈ log s ∨ Q s e w) {s : σ} {es : List ε}
    (h : Guarded step ok s es) {w : ω} (hw : w ∈ log (run step s es)) :
    w ∈ log s ∨ ∃ fs e, fs ++ [e] <+: es ∧ Q (run step s fs) e w := by
  induction es generalizing s with
  | nil => exact Or.inl hw
  | cons e es ih =>
    rcases ih h.2 hw with hold | ⟨fs, e', hpre, hQ⟩
    · exact (hstep s e h.1 w hold).imp_right fun hQ => ⟨[], e, by simp, hQ⟩
    · exact Or.inr ⟨e :: fs, e', List.cons_prefix_cons.mpr ⟨rfl, hpre⟩, hQ⟩

theorem guarded_true (s : σ) (es : List ε) : Guarded step (fun _ _ => True) s es := by
  induction es generalizing s with
  | nil => trivial
  | cons e es ih => exact ⟨trivial, ih (step s e)⟩

/-- A guard is met if and only if every step of the run meets it. -/
theorem guarded_iff_forall_prefix (s : σ) (es : List ε) :
    Guarded step ok s es ↔ ∀ fs e, fs ++ [e] <+: es → ok (run step s fs) e := by
  constructor
  · rintro h fs e ⟨gs, rfl⟩
    rw [List.append_assoc, guarded_append] at h
    exact h.2.1
  · intro h
    induction es generalizing s with
    | nil => trivial
    | cons e es ih =>
      refine ⟨h [] e (by simp), ih _ fun fs f hfs => ?_⟩
      exact h (e :: fs) f (List.cons_prefix_cons.mpr ⟨rfl, hfs⟩)

/-- Guards that agree wherever the invariant holds.  The invariant is only
needed as long as they hold, in runs that meet `base`. -/
theorem guarded_congr {base : σ → ε → Prop} {I : σ → Prop}
    (hstep : ∀ s e, I s → base s e → ok s e → I (step s e))
    (hok : ∀ s e, I s → base s e → (ok s e ↔ ok' s e)) {s : σ} {es : List ε}
    (hbase : Guarded step base s es) (hs : I s) : Guarded step ok s es ↔ Guarded step ok' s es := by
  induction es generalizing s with
  | nil => exact Iff.rfl
  | cons e es ih =>
    rw [guarded_cons, guarded_cons, ← hok s e hs hbase.1]
    exact and_congr_right fun h => ih hbase.2 (hstep s e hs hbase.1 h)

/-- The two outcomes of a run whose events are all in `alpha`.  As long as
every step is allowed the run is good.  The first step that is not allowed
makes it bad, and nothing makes it good again. -/
theorem Guarded.dichotomy (step : σ → ε → σ) (ok : σ → ε → Prop) {alpha : ε → Prop}
    (Good Bad : σ → Prop)
    (hgood : ∀ s e, Good s → alpha e → ok s e → Good (step s e))
    (hlose : ∀ s e, Good s → alpha e → ¬ok s e → Bad (step s e))
    (hbad : ∀ s e, Bad s → alpha e → Bad (step s e))
    {s : σ} {es : List ε} (hes : ∀ e ∈ es, alpha e) (hs : Good s) :
    Guarded step ok s es ∧ Good (run step s es) ∨
      ¬Guarded step ok s es ∧ Bad (run step s es) := by
  have hstay : ∀ (es : List ε) (s : σ), (∀ e ∈ es, alpha e) → Bad s → Bad (run step s es) := by
    intro es
    induction es with
    | nil => exact fun s _ h => h
    | cons e es ih =>
      exact fun s hes h => ih _ (fun e' he' => hes e' (by simp [he']))
        (hbad s e h (hes e (by simp)))
  induction es generalizing s with
  | nil => exact Or.inl ⟨trivial, hs⟩
  | cons e es ih =>
    have he : alpha e := hes e (by simp)
    have hes' : ∀ e' ∈ es, alpha e' := fun e' he' => hes e' (by simp [he'])
    by_cases hok : ok s e
    · rcases ih hes' (hgood s e hs he hok) with ⟨hg, h⟩ | ⟨hg, h⟩
      · exact Or.inl ⟨⟨hok, hg⟩, h⟩
      · exact Or.inr ⟨fun hg' => hg hg'.2, h⟩
    · exact Or.inr ⟨fun hg => hok hg.1, hstay es _ hes' (hlose s e hs he hok)⟩

end Guarded

/-- `P` holds in every state of the run. -/
def Always (step : σ → ε → σ) (P : σ → Prop) (s : σ) (es : List ε) : Prop :=
  ∀ fs, fs <+: es → P (run step s fs)

section Always

variable {step : σ → ε → σ} {P : σ → Prop}

theorem always_cons (s : σ) (e : ε) (es : List ε) :
    Always step P s (e :: es) ↔ P s ∧ Always step P (step s e) es := by
  constructor
  · intro h
    exact ⟨h [] (List.nil_prefix), fun fs hfs => h (e :: fs) (List.cons_prefix_cons.mpr ⟨rfl, hfs⟩)⟩
  · rintro ⟨hs, h⟩ fs hfs
    cases fs with
    | nil => exact hs
    | cons f fs =>
      rw [List.cons_prefix_cons] at hfs
      rw [hfs.1, run_cons]
      exact h fs hfs.2

/-- Every state of a run is its first state or the result of a step. -/
theorem always_iff_guarded (s : σ) (es : List ε) :
    Always step P s es ↔ P s ∧ Guarded step (fun s e => P (step s e)) s es := by
  induction es generalizing s with
  | nil => simp [Always]
  | cons e es ih => rw [always_cons, ih, guarded_cons]

/-- What every allowed step keeps, a guarded run never loses. -/
theorem Guarded.always {ok : σ → ε → Prop} (hstep : ∀ s e, P s → ok s e → P (step s e)) {s : σ}
    {es : List ε} (h : Guarded step ok s es) (hs : P s) : Always step P s es := by
  induction es generalizing s with
  | nil => simpa [Always] using hs
  | cons e es ih => exact (always_cons s e es).mpr ⟨hs, ih h.2 (hstep s e hs h.1)⟩

/-- The rule for an exact guard: where the invariant holds, an allowed step
keeps it, and no other step keeps `P`. -/
theorem always_iff_of_exact {base ok : σ → ε → Prop} {I : σ → Prop} (hsafe : ∀ s, I s → P s)
    (hstep : ∀ s e, I s → base s e → ok s e → I (step s e))
    (hexact : ∀ s e, I s → base s e → P (step s e) → ok s e) {s : σ} {es : List ε}
    (hbase : Guarded step base s es) (hs : I s) :
    Always step P s es ↔ Guarded step ok s es := by
  have hguard : Guarded step ok s es ↔ Guarded step (fun s e => P (step s e)) s es :=
    guarded_congr hstep
      (fun s e h hb => ⟨fun hok => hsafe _ (hstep s e h hb hok), hexact s e h hb⟩) hbase hs
  rw [always_iff_guarded, hguard, and_iff_right (hsafe s hs)]

/-- Each step is related to the next exactly when any two moments of the
run are. -/
theorem guarded_iff_between {R : σ → σ → Prop} (hrefl : ∀ s, R s s)
    (htrans : ∀ a b c, R a b → R b c → R a c) (s : σ) (es : List ε) :
    Guarded step (fun s e => R s (step s e)) s es ↔
      ∀ fs gs, fs ++ gs <+: es → R (run step s fs) (run step s (fs ++ gs)) := by
  constructor
  · intro h fs gs hpre
    have hlater : ∀ (es : List ε) (s : σ), Guarded step (fun s e => R s (step s e)) s es →
        R s (run step s es) := by
      intro es
      induction es with
      | nil => exact fun s _ => hrefl s
      | cons e es ih => exact fun s h => htrans _ _ _ h.1 (ih _ h.2)
    obtain ⟨hs, rfl⟩ := hpre
    rw [List.append_assoc, guarded_append] at h
    rw [run_append]
    exact hlater gs _ (guarded_append.mp h.2).1
  · intro h
    induction es generalizing s with
    | nil => trivial
    | cons e es ih =>
      refine ⟨h [] [e] (by simp), ih _ fun fs gs hpre => ?_⟩
      exact h (e :: fs) gs (List.cons_prefix_cons.mpr ⟨rfl, hpre⟩)

end Always

/-- What an observer sees along a run: the entries of each step, read off
the state the step is taken from, in order. -/
def observe {ω : Type*} (step : σ → ε → σ) (look : σ → ε → List ω) :
    σ → List ε → List ω
  | _, [] => []
  | s, e :: es => look s e ++ observe step look (step s e) es

section Observe

variable {ω : Type*} (step : σ → ε → σ) (look : σ → ε → List ω)

@[simp] theorem observe_nil (s : σ) : observe step look s [] = [] := rfl

@[simp] theorem observe_cons (s : σ) (e : ε) (es : List ε) :
    observe step look s (e :: es) =
      look s e ++ observe step look (step s e) es := rfl

/-- Forward simulation.  The abstract machine takes the operations that are
observed, any number of them for one concrete step. -/
theorem simulation {τ : Type*} (apply : τ → ω → τ) (ok : σ → ε → Prop) (R : τ → σ → Prop)
    (hstep : ∀ t s e, R t s → ok s e → R (run apply t (look s e)) (step s e))
    {t : τ} {s : σ} {es : List ε} (h : Guarded step ok s es) (hR : R t s) :
    R (run apply t (observe step look s es)) (run step s es) := by
  induction es generalizing t s with
  | nil => exact hR
  | cons e es ih =>
    rw [observe_cons, run_append, run_cons]
    exact ih h.2 (hstep t s e hR h.1)

/-- A property of all that is observed is a guard on the steps. -/
theorem forall_mem_observe {P : ω → Prop} (s : σ) (es : List ε) :
    (∀ a ∈ observe step look s es, P a) ↔
      Guarded step (fun s e => ∀ a ∈ look s e, P a) s es := by
  induction es generalizing s with
  | nil => simp
  | cons e es ih =>
    rw [observe_cons, List.forall_mem_append, guarded_cons, ih]

end Observe

/-- The machine that carries what an observer has seen so far. -/
def record {ω : Type*} (step : σ → ε → σ) (look : σ → ε → List ω) (x : σ × List ω) (e : ε) :
    σ × List ω := (step x.1 e, x.2 ++ look x.1 e)

section Record

variable {ω : Type*} (step : σ → ε → σ) (look : σ → ε → List ω)

@[simp] theorem record_fst (x : σ × List ω) (e : ε) :
    (record step look x e).1 = step x.1 e := rfl

@[simp] theorem record_snd (x : σ × List ω) (e : ε) :
    (record step look x e).2 = x.2 ++ look x.1 e := rfl

theorem run_record (x : σ × List ω) (es : List ε) :
    run (record step look) x es = (run step x.1 es, x.2 ++ observe step look x.1 es) := by
  induction es generalizing x with
  | nil => simp
  | cons e es ih => simp [ih, List.append_assoc]

/-- A guard that does not look at the history. -/
theorem guarded_record {ok : σ → ε → Prop} (x : σ × List ω) (es : List ε) :
    Guarded (record step look) (fun x e => ok x.1 e) x es ↔ Guarded step ok x.1 es := by
  induction es generalizing x with
  | nil => simp
  | cons e es ih => simp [ih]

end Record

/-- The steps of a run: each event with the state it is taken from. -/
def steps (s : σ) (e : ε) : List (σ × ε) := [(s, e)]

/-- All that is observed can be read off the steps. -/
theorem flatMap_observe_steps {ω : Type*} {step : σ → ε → σ} (look : σ → ε → List ω) (s : σ)
    (es : List ε) :
    (observe step steps s es).flatMap (fun x => look x.1 x.2) = observe step look s es := by
  induction es generalizing s with
  | nil => rfl
  | cons e es ih =>
    rw [observe_cons, steps, List.singleton_append, List.flatMap_cons, ih, observe_cons]

/-- The recorded states are related in the order they were passed, and each
of them to the state that is reached. -/
structure InOrder (R : σ → σ → Prop) (x : σ × List (σ × ε)) : Prop where
  reached : ∀ y ∈ x.2, R y.1 x.1
  pairwise : x.2.Pairwise fun y z => R y.1 z.1

namespace InOrder

variable {R : σ → σ → Prop} {x : σ × List (σ × ε)} {step : σ → ε → σ}

theorem nil (s : σ) : InOrder R ((s, []) : σ × List (σ × ε)) := ⟨by simp, .nil⟩

theorem record (htrans : ∀ a b c, R a b → R b c → R a c) (h : InOrder R x) {e : ε}
    (he : R x.1 (step x.1 e)) : InOrder R (record step steps x e) where
  reached y hy := by
    rcases List.mem_append.mp hy with hy | hy
    · exact htrans _ _ _ (h.reached y hy) he
    · rw [List.mem_singleton.mp hy]
      exact he
  pairwise := by
    refine List.pairwise_append.mpr ⟨h.pairwise, List.pairwise_singleton _ _, fun y hy z hz => ?_⟩
    rw [List.mem_singleton.mp hz]
    exact h.reached y hy

/-- Two recorded steps are the same or related in one of the orders. -/
theorem compare (h : InOrder R x) {y z : σ × ε} (hy : y ∈ x.2) (hz : z ∈ x.2) :
    y = z ∨ R y.1 z.1 ∨ R z.1 y.1 :=
  List.Pairwise.forall_of_forall_of_flip (R := fun y z => y = z ∨ R y.1 z.1 ∨ R z.1 y.1)
    (fun _ _ => Or.inl rfl) (h.pairwise.imp fun hyz => Or.inr (Or.inl hyz))
    (h.pairwise.imp fun hyz => Or.inr (Or.inr hyz)) hy hz

end InOrder

end Runs
