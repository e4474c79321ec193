import Mathlib.Data.List.Perm.Basic
import HabitHive.Model.Step

/-!
# What one event does

Case lemmas for the events that take a call out of flight or serve it, and
the rule that a run without a relaunch has crashed at no earlier point if
it has not crashed at its end.  The proofs about runs use these and do not
unfold `step`, `serve`, `deliver` or `fail` again.
-/

namespace HabitHive

open HabitCollection

@[simp] theorem run_nil (s : State) : run s [] = s := rfl

@[simp] theorem run_cons (s : State) (e : Event) (es : List Event) :
    run s (e :: es) = run (step s e) es := rfl

theorem run_append (s : State) (es fs : List Event) :
    run s (es ++ fs) = run (run s es) fs := Runs.run_append step s es fs

/-! ## Crashes -/

theorem step_of_running {s : State} {e : Event} (h : s.crashed = none) :
    step s e = handle s e := by
  rw [step, if_pos h]

/-- Only a relaunch takes a crashed session on. -/
theorem running_of_step {s : State} {e : Event} (he : e ≠ .relaunch)
    (h : (step s e).crashed = none) : s.crashed = none := by
  by_contra hc
  rw [step, if_neg hc, if_neg he] at h
  exact hc h

/-- `Guarded.dichotomy` for runs without a relaunch that end without a
crash.  The log is what `look` observes, and the guard may read it. -/
theorem run_dichotomy {ω : Type} {alpha : Event → Prop} (look : State → Event → List ω)
    (ok : State × List ω → Event → Prop) (Good Bad : List ω → State → Prop)
    (hne : ∀ e, alpha e → e ≠ .relaunch)
    (hgood : ∀ log s e, s.crashed = none → Good log s → alpha e → ok (s, log) e →
      (handle s e).crashed = none → Good (log ++ look s e) (handle s e))
    (hlose : ∀ log s e, s.crashed = none → Good log s → alpha e → ¬ok (s, log) e →
      (handle s e).crashed = none → Bad (log ++ look s e) (handle s e))
    (hbad : ∀ log s e, s.crashed = none → Bad log s → alpha e →
      (handle s e).crashed = none → Bad (log ++ look s e) (handle s e))
    {s : State} {log : List ω} {es : List Event} (hes : ∀ e ∈ es, alpha e)
    (hs : Good log s) (hend : (run s es).crashed = none) :
    Runs.Guarded (Runs.record step look) ok (s, log) es ∧
        Good (log ++ Runs.observe step look s es) (run s es) ∨
      ¬Runs.Guarded (Runs.record step look) ok (s, log) es ∧
        Bad (log ++ Runs.observe step look s es) (run s es) := by
  have hstep : ∀ {P Q : List ω → State → Prop} (x : State × List ω) (e : Event), alpha e →
      (x.1.crashed = none → P x.2 x.1) →
      (x.1.crashed = none → P x.2 x.1 → (handle x.1 e).crashed = none →
        Q (x.2 ++ look x.1 e) (handle x.1 e)) →
      (step x.1 e).crashed = none → Q (x.2 ++ look x.1 e) (step x.1 e) := by
    intro P Q x e he hP hQ hcrash
    have hrunning := running_of_step (hne e he) hcrash
    rw [step_of_running hrunning] at hcrash ⊢
    exact hQ hrunning (hP hrunning) hcrash
  have hdich := Runs.Guarded.dichotomy (Runs.record step look) ok
    (fun x => x.1.crashed = none → Good x.2 x.1) (fun x => x.1.crashed = none → Bad x.2 x.1)
    (fun x e hx he hok => hstep x e he hx fun h hx hc => hgood x.2 x.1 e h hx he hok hc)
    (fun x e hx he hok => hstep x e he hx fun h hx hc => hlose x.2 x.1 e h hx he hok hc)
    (fun x e hx he => hstep x e he hx fun h hx hc => hbad x.2 x.1 e h hx he hc)
    (s := (s, log)) hes fun _ => hs
  rw [Runs.run_record] at hdich
  rcases hdich with ⟨hg, h⟩ | ⟨hg, h⟩
  · exact Or.inl ⟨hg, h hend⟩
  · exact Or.inr ⟨hg, h hend⟩

/-! ## Calls in flight -/

/-- Taking a call out leaves the others. -/
theorem pending_perm {s : State} {i : Nat} {p : Pending} (h : s.pending[i]? = some p) :
    s.pending.Perm (p :: (s.dropPending i).pending) := by
  obtain ⟨hi, rfl⟩ := List.getElem?_eq_some_iff.mp h
  exact (List.getElem_cons_eraseIdx_perm hi).symm

theorem mem_pending {s : State} {i : Nat} {p q : Pending} (h : s.pending[i]? = some p) :
    q ∈ s.pending ↔ q = p ∨ q ∈ (s.dropPending i).pending := by
  rw [(pending_perm h).mem_iff, List.mem_cons]

theorem set_pending_perm {s : State} {i : Nat} {p : Pending} (h : s.pending[i]? = some p)
    (q : Pending) : (s.pending.set i q).Perm (q :: (s.dropPending i).pending) := by
  obtain ⟨hi, _⟩ := List.getElem?_eq_some_iff.mp h
  exact List.set_perm_cons_eraseIdx hi q

/-- The only call in flight. -/
theorem only_pending {s : State} {p q : Pending} {i : Nat} (h : s.pending = [p])
    (hq : s.pending[i]? = some q) : q = p ∧ (s.dropPending i).pending = [] := by
  rw [h] at hq
  cases i with
  | zero => exact ⟨(Option.some.inj hq).symm, by simp [h]⟩
  | succ i => simp at hq

/-- Serving fills in the snapshot of one read, or does nothing. -/
theorem serve_cases (s : State) (i : Nat) :
    s.serve i = s ∨ ∃ p, s.pending[i]? = some p ∧ p.callback.isRead = true ∧
      p.snapshot = none ∧
      s.serve i =
        { s with pending := s.pending.set i { p with snapshot := some s.store } } := by
  rw [State.serve]
  split
  · exact Or.inl rfl
  · next p hp =>
    split
    · next hread => exact Or.inr ⟨p, hp, hread.1, by simpa using hread.2, rfl⟩
    · exact Or.inl rfl

/-- A delivery runs one callback, with the snapshot its read was served
from, or does nothing. -/
theorem deliver_cases (s : State) (i : Nat) :
    s.deliver i = s ∧ (∀ p, s.pending[i]? = some p → p.snapshot = none) ∨
      ∃ p, s.pending[i]? = some p ∧
        (p.callback.isRead = true → ∃ st, p.snapshot = some st) ∧
        s.deliver i = p.callback.run p.snapshot (s.dropPending i) := by
  rw [State.deliver]
  split
  · next hnone => exact Or.inl ⟨rfl, fun p hp => by rw [hnone] at hp; contradiction⟩
  · next p hp =>
    split
    · next hread =>
      refine Or.inl ⟨rfl, fun q hq => ?_⟩
      rw [hp, Option.some.injEq] at hq
      simpa [← hq] using hread.2
    · next hread =>
      refine Or.inr ⟨p, hp, fun h => ?_, rfl⟩
      cases hsnap : p.snapshot with
      | none => exact absurd ⟨h, by rw [hsnap]; rfl⟩ hread
      | some st => exact ⟨st, rfl⟩

/-- A failed read runs its callback without a document, or nothing happens. -/
theorem fail_cases (s : State) (i : Nat) :
    s.fail i = s ∨ ∃ p, s.pending[i]? = some p ∧ p.callback.isRead = true ∧
      s.fail i = p.callback.run none (s.dropPending i) := by
  rw [State.fail]
  split
  · exact Or.inl rfl
  · next p hp =>
    split
    · next hread => exact Or.inr ⟨p, hp, hread, rfl⟩
    · exact Or.inl rfl

section Serve

variable (s : State) (i : Nat)

@[simp] theorem serve_store : (s.serve i).store = s.store := by
  rcases serve_cases s i with h | ⟨p, _, _, _, h⟩ <;> rw [h]

@[simp] theorem serve_journal : (s.serve i).journal = s.journal := by
  rcases serve_cases s i with h | ⟨p, _, _, _, h⟩ <;> rw [h]

@[simp] theorem serve_crashed : (s.serve i).crashed = s.crashed := by
  rcases serve_cases s i with h | ⟨p, _, _, _, h⟩ <;> rw [h]

@[simp] theorem serve_habitArray : (s.serve i).habitArray = s.habitArray := by
  rcases serve_cases s i with h | ⟨p, _, _, _, h⟩ <;> rw [h]

/-- Serving keeps the calls that are in flight. -/
theorem serve_callbacks :
    (s.serve i).pending.map Pending.callback = s.pending.map Pending.callback := by
  rcases serve_cases s i with h | ⟨p, hp, _, _, h⟩
  · rw [h]
  · rw [h, List.map_set]
    obtain ⟨hi, rfl⟩ := List.getElem?_eq_some_iff.mp hp
    have hi' : i < (s.pending.map Pending.callback).length := by simpa using hi
    have hget : s.pending[i].callback = (s.pending.map Pending.callback)[i] := by simp
    rw [hget]
    exact List.set_getElem_self hi'

/-- A call in flight after serving was in flight before, or is a read with
the current documents as its snapshot. -/
theorem mem_serve {q : Pending} (h : q ∈ (s.serve i).pending) :
    q ∈ s.pending ∨
      q.snapshot = some s.store ∧ { q with snapshot := none } ∈ s.pending := by
  rcases serve_cases s i with hs | ⟨p, hp, _, hnone, hs⟩
  · rw [hs] at h
    exact Or.inl h
  · rw [hs] at h
    rcases List.mem_or_eq_of_mem_set h with hmem | rfl
    · exact Or.inl hmem
    · refine Or.inr ⟨rfl, ?_⟩
      have hmem := List.mem_of_getElem? hp
      obtain ⟨cb, snap⟩ := p
      simp only at hnone
      subst hnone
      exact hmem

end Serve

/-! ## What is in flight -/

section Flight

variable {s s' : State} {i : Nat} {p : Pending} {cbs : List Callback}

/-- Calls that are issued have not been served. -/
theorem mem_of_served (hpending : s'.pending = s.pending ++ cbs.map ({ callback := · }))
    (hp : p ∈ s'.pending) {st : Store} (hst : p.snapshot = some st) : p ∈ s.pending := by
  rw [hpending] at hp
  rcases List.mem_append.mp hp with hp | hp
  · exact hp
  · obtain ⟨cb, _, rfl⟩ := List.mem_map.mp hp
    contradiction

/-- A test of the calls in flight that the calls issued pass. -/
theorem all_of_issued (q : Callback → Bool)
    (hpending : s'.pending = s.pending ++ cbs.map ({ callback := · }))
    (hcbs : ∀ cb ∈ cbs, q cb = true) :
    (s'.pending.all fun p => q p.callback) = s.pending.all fun p => q p.callback := by
  have hnew : cbs.all q = true := List.all_eq_true.mpr hcbs
  rw [hpending, List.all_append, List.all_map, Function.comp_def, hnew, Bool.and_true]

theorem all_serve (q : Callback → Bool) (s : State) (i : Nat) :
    ((s.serve i).pending.all fun p => q p.callback) = s.pending.all fun p => q p.callback := by
  have hmap := congrArg (List.all · q) (serve_callbacks s i)
  simpa only [List.all_map, Function.comp_def] using hmap

theorem noFetch_iff : s.noFetch = true ↔ ∀ p ∈ s.pending, p.callback.isFetch = false := by
  simp [State.noFetch]

theorem noChain_iff : s.noChain = true ↔ ∀ p ∈ s.pending, p.callback.isChain = false := by
  simp [State.noChain]

theorem noFetch_of_issued (hpending : s'.pending = s.pending ++ cbs.map ({ callback := · }))
    (hcbs : ∀ cb ∈ cbs, cb.isFetch = false) : s'.noFetch = s.noFetch :=
  all_of_issued (fun cb => !cb.isFetch) hpending fun cb hcb => by rw [hcbs cb hcb, Bool.not_false]

theorem noChain_of_issued (hpending : s'.pending = s.pending ++ cbs.map ({ callback := · }))
    (hcbs : ∀ cb ∈ cbs, cb.isChain = false) : s'.noChain = s.noChain :=
  all_of_issued (fun cb => !cb.isChain) hpending fun cb hcb => by rw [hcbs cb hcb, Bool.not_false]

@[simp] theorem noFetch_serve (s : State) (i : Nat) : (s.serve i).noFetch = s.noFetch :=
  all_serve (fun cb => !cb.isFetch) s i

@[simp] theorem noChain_serve (s : State) (i : Nat) : (s.serve i).noChain = s.noChain :=
  all_serve (fun cb => !cb.isChain) s i

theorem noFetch_drop (h : s.noFetch = true) : (s.dropPending i).noFetch = true :=
  noFetch_iff.mpr fun _ hp => noFetch_iff.mp h _ (List.mem_of_mem_eraseIdx hp)

/-- A call that is no step of a delete leaves the deletes under way. -/
theorem noChain_drop (hp : s.pending[i]? = some p) (hcb : p.callback.isChain = false) :
    (s.dropPending i).noChain = s.noChain := by
  rw [Bool.eq_iff_iff, noChain_iff, noChain_iff]
  refine ⟨fun h q hq => ?_, fun h q hq => h q ((mem_pending hp).mpr (Or.inr hq))⟩
  rcases (mem_pending hp).mp hq with rfl | hq
  · exact hcb
  · exact h q hq

theorem noChain_eq_false (hp : s.pending[i]? = some p) (hcb : p.callback.isChain = true) :
    s.noChain = false := by
  rw [Bool.eq_false_iff]
  intro h
  rw [noChain_iff.mp h p (List.mem_of_getElem? hp)] at hcb
  contradiction

theorem noFetch_issue (h : s.noFetch = true) {cb : Callback} (hcb : cb.isFetch = false) :
    (s.issue cb).noFetch = true := by
  rw [noFetch_iff] at h ⊢
  intro q hq
  rcases List.mem_append.mp hq with hq | hq
  · exact h q hq
  · rw [List.mem_singleton.mp hq]
    exact hcb

theorem noChain_issue (s : State) {cb : Callback} (hcb : cb.isChain = true) :
    (s.issue cb).noChain = false := by
  simp [State.noChain, hcb]

end Flight

/-! ## The callbacks of a refresh -/

/-- The blocks and callbacks that touch the list and the view only. -/
def Callback.isRefresh : Callback → Bool
  | .fetchCounter | .fetchHabit _ | .fetch | .reload => true
  | .deleteDone | .counterDone | .addHabit .. | .finished .. => false

theorem Callback.isRefresh_of_isFetch {cb : Callback} (h : cb.isFetch = true) :
    cb.isRefresh = true := by
  cases cb <;> first | rfl | contradiction

theorem Callback.isChain_of_isRefresh {cb : Callback} (h : cb.isRefresh = true) :
    cb.isChain = false := by
  cases cb <;> first | rfl | contradiction

theorem Callback.isChain_of_isFetch {cb : Callback} (h : cb.isFetch = true) :
    cb.isChain = false :=
  isChain_of_isRefresh (isRefresh_of_isFetch h)

/-- `s'` is `s` but for the list, the view and the calls in flight. -/
structure ListOnly (s s' : State) : Prop where
  store : s'.store = s.store
  journal : s'.journal = s.journal
  today : s'.today = s.today
  palmiIsCool : s'.palmiIsCool = s.palmiIsCool
  sectionColor : s'.sectionColor = s.sectionColor
  signedIn : s'.signedIn = s.signedIn
  indexPathGlobal : s'.indexPathGlobal = s.indexPathGlobal
  creating : s'.creating = s.creating
  editing : s'.editing = s.editing
  nextIdent : s'.nextIdent = s.nextIdent

theorem fetchFirebaseHabits_listOnly (s : State) : ListOnly s (fetchFirebaseHabits s) := by
  constructor <;> rfl

theorem fetchCounterRead_listOnly (document : Option Store) (s : State) :
    ListOnly s (fetchCounterRead document s) := by
  unfold fetchCounterRead
  cases document <;> dsimp only <;> split_ifs <;> constructor <;> rfl

theorem fetchHabitRead_listOnly (n : Nat) (document : Option Store) (s : State) :
    ListOnly s (fetchHabitRead n document s) := by
  unfold fetchHabitRead
  cases document with
  | none => constructor <;> rfl
  | some doc => cases hread : doc.readHabit n <;> constructor <;> simp [hread]

theorem listOnly_of_isRefresh {cb : Callback} (h : cb.isRefresh = true)
    (document : Option Store) (s : State) : ListOnly s (cb.run document s) := by
  cases cb with
  | fetchCounter => exact fetchCounterRead_listOnly document s
  | fetchHabit n => exact fetchHabitRead_listOnly n document s
  | fetch => exact fetchFirebaseHabits_listOnly s
  | reload => constructor <;> rfl
  | _ => contradiction

theorem fetchCounterRead_pending (document : Option Store) (s : State) :
    ∃ n, (fetchCounterRead document s).pending =
      s.pending ++ ((List.range n).map .fetchHabit).map ({ callback := · }) := by
  unfold fetchCounterRead
  cases document <;> dsimp only <;> split_ifs
  -- the two branches without reads issue an empty range of them
  all_goals first | exact ⟨_, rfl⟩ | exact ⟨0, by simp⟩

theorem fetchCounterRead_habitArray (document : Option Store) (s : State) :
    (fetchCounterRead document s).habitArray = s.habitArray := by
  unfold fetchCounterRead
  cases document <;> dsimp only <;> split_ifs <;> rfl

/-- The list after the read of a document. -/
theorem mem_fetchHabitRead {n : Nat} {document : Option Store} {s : State} {h : Habit}
    (hmem : h ∈ (fetchHabitRead n document s).habitArray) :
    h ∈ s.habitArray ∨ ∃ st, document = some st ∧ st.readHabit n = some h := by
  unfold fetchHabitRead at hmem
  cases document with
  | none => exact Or.inl ((Keyed.sortByKey_perm _ _).mem_iff.mp hmem)
  | some st =>
    cases hread : st.readHabit n with
    | none =>
      simp only [hread] at hmem
      exact Or.inl hmem
    | some habit =>
      simp only [hread] at hmem
      rcases List.mem_append.mp ((Keyed.sortByKey_perm _ _).mem_iff.mp hmem) with hmem | hmem
      · exact Or.inl hmem
      · rw [List.mem_singleton.mp hmem]
        exact Or.inr ⟨st, rfl, hread⟩

/-- A callback of a refresh issues reads of a refresh only. -/
theorem pending_of_isRefresh {cb : Callback} (h : cb.isRefresh = true)
    (document : Option Store) (s : State) :
    ∃ cbs : List Callback, (cb.run document s).pending = s.pending ++ cbs.map ({ callback := · }) ∧
      ∀ cb ∈ cbs, cb.isFetch = true := by
  cases cb with
  | fetchCounter =>
    obtain ⟨n, hn⟩ := fetchCounterRead_pending document s
    refine ⟨_, hn, ?_⟩
    intro cb hcb
    obtain ⟨k, _, rfl⟩ := List.mem_map.mp hcb
    rfl
  | fetchHabit n =>
    refine ⟨[], ?_, by simp⟩
    simp only [Callback.run, fetchHabitRead]
    cases document with
    | none => simp
    | some doc => cases hread : doc.readHabit n <;> simp [hread]
  | fetch => exact ⟨[.fetchCounter], rfl, by simp [Callback.isFetch]⟩
  | reload => exact ⟨[], by simp [Callback.run], by simp⟩
  | _ => contradiction

end HabitHive
