import Mathlib.Tactic.FinCases
import HabitHive.Session

/-!
# Refreshes

A call of `fetchFirebaseHabits` empties `habitArray`, reads the counter,
and then reads every document; each document callback appends one habit
and sorts.  This module follows the list through the callbacks of any
number of calls.

`View` is what the reads see, through a projection `f` of habits.  Reads
of one refresh can be served at different moments, so what matters is
that all the stores they were served from have the same view.

`Loading f v xs s` is the invariant: the habits that `habitArray` shows,
together with those that the reads still in flight will append, are `xs`.
A call that starts alone makes `xs` the whole list (`Loading.start`), a
callback of a refresh keeps `xs` (`Loading.fetchRead`), and when no read
is in flight the list is `xs` in order (`Loading.finished`).

`refreshed_iff` settles overlapping calls.  After all callbacks, the list
is right exactly when the last call started with nothing in flight, or
there is nothing to load: every read that an earlier call still had in
flight appends one habit too many.
-/

namespace HabitHive

open HabitCollection

variable {κ : Type}

/-! ## Views -/

/-- The counter and the habits that reads of the documents see. -/
structure View (κ : Type) where
  count : Nat
  read : Nat → Option κ

/-- The view of a store through a projection of habits. -/
def Store.view (f : Habit → κ) (st : Store) : View κ where
  count := st.user.habitCounter
  read n := (st.readHabit n).map f

namespace View

/-- The habits that the counter reaches, in order. -/
def all (v : View κ) : List κ := (List.range v.count).filterMap v.read

/-- What the rest of a refresh appends once this callback has run and all
that it issues. -/
def yields (v : View κ) : Callback → List κ
  | .fetchCounter => v.all
  | .fetchHabit n => (v.read n).toList
  | _ => []

theorem yields_of_not_isFetch (v : View κ) {cb : Callback} (h : cb.isFetch = false) :
    v.yields cb = [] := by
  cases cb <;> first | rfl | simp [Callback.isFetch] at h

/-- The document reads of one refresh yield the whole list. -/
theorem flatMap_yields_fetchHabit (v : View κ) (n : Nat) :
    ((List.range n).map .fetchHabit).flatMap v.yields = (List.range n).filterMap v.read := by
  rw [List.flatMap_map, List.filterMap_eq_flatMap_toList]
  rfl

end View

/-- What the calls in flight append to the list. -/
def outstanding (v : View κ) (ps : List Pending) : List κ :=
  (ps.map Pending.callback).flatMap v.yields

theorem outstanding_perm (v : View κ) {ps qs : List Pending} (h : ps.Perm qs) :
    (outstanding v ps).Perm (outstanding v qs) :=
  (h.map Pending.callback).flatMap_right v.yields

@[simp] theorem outstanding_nil (v : View κ) : outstanding v [] = [] := rfl

@[simp] theorem outstanding_cons (v : View κ) (p : Pending) (ps : List Pending) :
    outstanding v (p :: ps) = v.yields p.callback ++ outstanding v ps := rfl

@[simp] theorem outstanding_append (v : View κ) (ps qs : List Pending) :
    outstanding v (ps ++ qs) = outstanding v ps ++ outstanding v qs := by
  simp [outstanding]

/-- Calls that are not reads of a refresh append nothing. -/
theorem outstanding_of_noFetch (v : View κ) {ps : List Pending}
    (h : ∀ p ∈ ps, p.callback.isFetch = false) : outstanding v ps = [] := by
  induction ps with
  | nil => rfl
  | cons p ps ih =>
    rw [outstanding_cons, v.yields_of_not_isFetch (h p (by simp)),
      ih fun q hq => h q (List.mem_cons_of_mem p hq)]
    rfl

/-! ## The callbacks -/

theorem fetchCounterRead_some (st : Store) (s : State) :
    fetchCounterRead (some st) s =
      { s with localHabitCounter := st.user.habitCounter - 1 }.issueAll
        ((List.range st.user.habitCounter).map .fetchHabit) := by
  unfold fetchCounterRead
  cases hcount : st.user.habitCounter with
  | zero => simp [State.issueAll, hcount]
  | succ n =>
    have hne : ((n + 1 : Nat) : Int) - 1 ≠ -1 := by omega
    have hnonneg : ¬((n + 1 : Nat) : Int) - 1 < 0 := by omega
    have hnat : (((n + 1 : Nat) : Int) - 1 + 1).toNat = n + 1 := by omega
    simp only [hcount, if_neg hne, if_neg hnonneg, hnat]

theorem fetchHabitRead_some {st : Store} {n : Nat} {h : Habit}
    (hread : st.readHabit n = some h) (s : State) :
    fetchHabitRead n (some st) s =
      { s with habitArray := sortByNumber (s.habitArray ++ [h]) }.reloadData := by
  simp [fetchHabitRead, hread]

/-- A document callback that does not end the process read a habit. -/
theorem exists_of_fetchHabitRead {st : Store} {n : Nat} {s : State}
    (h : (fetchHabitRead n (some st) s).crashed = none) :
    ∃ habit, st.readHabit n = some habit := by
  cases hread : st.readHabit n with
  | none => simp [fetchHabitRead, hread] at h
  | some habit => exact ⟨habit, rfl⟩

/-- The habit read for number `n` carries that number. -/
theorem Store.habitNumber_of_readHabit {st : Store} {n : Nat} {h : Habit}
    (hread : st.readHabit n = some h) : h.habitNumber = n := by
  rw [Store.readHabit, Habit.ofDocument_eq] at hread
  obtain ⟨doc, _, hdoc⟩ := Option.bind_eq_some_iff.mp hread
  obtain ⟨e, _, rfl⟩ := Option.map_eq_some_iff.mp hdoc
  rfl

/-- A habit that is read has all its fields in the store. -/
theorem Store.habits_of_readHabit {st : Store} {n : Nat} {h : Habit}
    (hread : st.readHabit n = some h) : st.habits n = some h.toDocument := by
  rw [Store.readHabit] at hread
  cases hdoc : st.habits n with
  | none =>
    rw [hdoc] at hread
    contradiction
  | some doc =>
    rw [hdoc] at hread
    rw [Habit.toDocument_of_ofDocument hread]

/-! ## The invariant of loading -/

/-- The list and the reads in flight together hold `xs`, as all their
stores show it. -/
structure Loading (f : Habit → κ) (v : View κ) (xs : List κ) (s : State) : Prop where
  store : s.store.view f = v
  served : ∀ p ∈ s.pending, p.callback.isFetch = true →
    ∀ st, p.snapshot = some st → st.view f = v
  rows : (s.habitArray.map f ++ outstanding v s.pending).Perm xs
  sorted : s.habitArray.Pairwise fun a b => a.habitNumber ≤ b.habitNumber
  missing : ∀ n < v.count, v.read n = none →
    ∃ p ∈ s.pending, p.callback = .fetchCounter ∨ p.callback = .fetchHabit n

namespace Loading

variable {f : Habit → κ} {v : View κ} {xs : List κ} {s : State}

/-- A call that finds other reads in flight adds its own to theirs. -/
theorem start (hstore : s.store.view f = v)
    (hserved : ∀ p ∈ s.pending, p.callback.isFetch = true →
      ∀ st, p.snapshot = some st → st.view f = v) :
    Loading f v (outstanding v s.pending ++ v.all) (fetchFirebaseHabits s) where
  store := hstore
  served := by
    intro p hp hfetch st hst
    simp only [fetchFirebaseHabits, State.issue, List.mem_append, List.mem_singleton] at hp
    rcases hp with hp | rfl
    · exact hserved p hp hfetch st hst
    · simp at hst
  rows := by
    simp [fetchFirebaseHabits, View.yields]
  sorted := by simp [fetchFirebaseHabits]
  missing := by
    intro n _ _
    exact ⟨{ callback := .fetchCounter }, by simp [fetchFirebaseHabits], Or.inl rfl⟩

/-- A call with no read in flight starts to load the whole list. -/
theorem start_alone (hstore : s.store.view f = v) (halone : s.noFetch = true) :
    Loading f v v.all (fetchFirebaseHabits s) := by
  have hnone : ∀ p ∈ s.pending, p.callback.isFetch = false := by
    simpa [State.noFetch] using halone
  have hstart := start (f := f) (s := s) hstore fun p hp hfetch => by
    rw [hnone p hp] at hfetch
    contradiction
  rwa [outstanding_of_noFetch v hnone, List.nil_append] at hstart

/-- Serving a read. -/
theorem serve (h : Loading f v xs s) (i : Nat) : Loading f v xs (s.serve i) where
  store := by rw [serve_store]; exact h.store
  served := by
    intro p hp hfetch st hst
    rcases mem_serve s i hp with hmem | ⟨hsnap, _⟩
    · exact h.served p hmem hfetch st hst
    · rw [hsnap, Option.some.injEq] at hst
      exact hst ▸ h.store
  rows := by
    rw [serve_habitArray, outstanding, serve_callbacks]
    exact h.rows
  sorted := by rw [serve_habitArray]; exact h.sorted
  missing := by
    intro n hn hnone
    obtain ⟨p, hp, hcb⟩ := h.missing n hn hnone
    have hmem : p.callback ∈ (s.serve i).pending.map Pending.callback := by
      rw [serve_callbacks]
      exact List.mem_map_of_mem hp
    obtain ⟨q, hq, hqp⟩ := List.mem_map.mp hmem
    exact ⟨q, hq, hqp ▸ hcb⟩

/-- The counter callback issues the document reads. -/
theorem fetchCounter (h : Loading f v xs s) {i : Nat} {p : Pending} {st : Store}
    (hp : s.pending[i]? = some p) (hcb : p.callback = .fetchCounter)
    (hst : p.snapshot = some st) :
    Loading f v xs (fetchCounterRead (some st) (s.dropPending i)) := by
  have hview : st.view f = v :=
    h.served p (List.mem_of_getElem? hp) (by rw [hcb]; rfl) st hst
  have hcount : st.user.habitCounter = v.count := by rw [← hview]; rfl
  rw [fetchCounterRead_some, hcount]
  refine ⟨h.store, ?_, ?_, h.sorted, ?_⟩
  · intro q hq hfetch st' hst'
    simp only [State.issueAll_pending, List.mem_append] at hq
    rcases hq with hq | hq
    · exact h.served q ((mem_pending hp).mpr (Or.inr hq)) hfetch st' hst'
    · obtain ⟨cb, _, rfl⟩ := List.mem_map.mp hq
      simp at hst'
  · have hrows := h.rows
    have hout := outstanding_perm v (pending_perm hp)
    rw [outstanding_cons, hcb] at hout
    refine List.Perm.trans (List.Perm.append_left _ ?_) hrows
    refine List.Perm.trans ?_ hout.symm
    rw [State.issueAll_pending, outstanding_append]
    refine List.Perm.trans List.perm_append_comm (List.Perm.append_right _ ?_)
    have hread := v.flatMap_yields_fetchHabit v.count
    simp only [outstanding, List.map_map, Function.comp_def] at hread ⊢
    simpa [View.yields, View.all] using hread ▸ List.Perm.refl _
  · intro n hn hnone
    exact ⟨{ callback := .fetchHabit n }, by simp [hn], Or.inr rfl⟩

/-- A document callback appends the habit it reads. -/
theorem fetchHabit (h : Loading f v xs s) {i n : Nat} {p : Pending} {st : Store}
    (hp : s.pending[i]? = some p) (hcb : p.callback = .fetchHabit n)
    (hst : p.snapshot = some st)
    (hok : (fetchHabitRead n (some st) (s.dropPending i)).crashed = none) :
    Loading f v xs (fetchHabitRead n (some st) (s.dropPending i)) := by
  obtain ⟨habit, hread⟩ := exists_of_fetchHabitRead hok
  have hview : st.view f = v :=
    h.served p (List.mem_of_getElem? hp) (by rw [hcb]; rfl) st hst
  have hvread : v.read n = some (f habit) := by
    rw [← hview]
    simp [Store.view, hread]
  rw [fetchHabitRead_some hread]
  refine ⟨h.store, ?_, ?_, Keyed.sortByKey_pairwise _ _, ?_⟩
  · intro q hq
    exact h.served q ((mem_pending hp).mpr (Or.inr hq))
  · have hout := outstanding_perm v (pending_perm hp)
    have hyield : v.yields (Callback.fetchHabit n) = [f habit] := by simp [View.yields, hvread]
    rw [outstanding_cons, hcb, hyield, List.singleton_append] at hout
    have hins : ((sortByNumber (s.habitArray ++ [habit])).map f).Perm
        (f habit :: s.habitArray.map f) :=
      (Keyed.insertByKey_perm Habit.habitNumber s.habitArray habit).map f
    refine (hins.append_right _).trans (List.Perm.trans ?_ h.rows)
    exact List.Perm.trans List.perm_middle.symm (hout.symm.append_left _)
  · intro m hm hnone
    obtain ⟨q, hq, hqcb⟩ := h.missing m hm hnone
    rcases (mem_pending hp).mp hq with rfl | hq
    · rw [hcb] at hqcb
      rcases hqcb with hqcb | hqcb
      · simp at hqcb
      · rw [Callback.fetchHabit.injEq] at hqcb
        rw [hqcb, hnone] at hvread
        simp at hvread
    · exact ⟨q, hq, hqcb⟩

/-- A callback of a refresh, delivered with a document. -/
theorem fetchRead (h : Loading f v xs s) {i : Nat} {p : Pending}
    (hp : s.pending[i]? = some p) (hfetch : p.callback.isFetch = true)
    (hread : p.callback.isRead = true → ∃ st, p.snapshot = some st)
    (hok : (p.callback.run p.snapshot (s.dropPending i)).crashed = none) :
    Loading f v xs (p.callback.run p.snapshot (s.dropPending i)) := by
  cases hcb : p.callback with
  | fetchCounter =>
    obtain ⟨st, hst⟩ := hread (by rw [hcb]; rfl)
    rw [hst]
    exact h.fetchCounter hp hcb hst
  | fetchHabit n =>
    obtain ⟨st, hst⟩ := hread (by rw [hcb]; rfl)
    rw [hcb, hst] at hok
    rw [hst]
    exact h.fetchHabit hp hcb hst hok
  | _ => rw [hcb] at hfetch; contradiction

/-- With no read in flight every document was there. -/
theorem read_isSome (h : Loading f v xs s) (hdone : s.noFetch = true) {n : Nat}
    (hn : n < v.count) : (v.read n).isSome = true := by
  rw [Option.isSome_iff_ne_none]
  intro hnone
  obtain ⟨p, hp, hcb⟩ := h.missing n hn hnone
  have hnot : p.callback.isFetch = false := by
    have := List.all_eq_true.mp hdone p hp
    simpa using this
  rcases hcb with hcb | hcb <;> rw [hcb] at hnot <;> contradiction

/-- With no read in flight the list holds `xs`. -/
theorem rows_perm (h : Loading f v xs s) (hdone : s.noFetch = true) :
    (s.habitArray.map f).Perm xs := by
  have hnone : ∀ p ∈ s.pending, p.callback.isFetch = false := by
    simpa [State.noFetch] using hdone
  have hrows := h.rows
  rwa [outstanding_of_noFetch v hnone, List.append_nil] at hrows

/-- A list that was loaded by one call is the whole list, in order. -/
theorem finished (key : κ → Nat) (hkey : ∀ h, key (f h) = h.habitNumber)
    (h : Loading f v v.all s) (hdone : s.noFetch = true) :
    s.habitArray.map f = v.all := by
  refine Keyed.eq_of_perm_of_key_lt key (h.rows_perm hdone) ?_ ?_
  · rw [List.pairwise_map]
    simpa only [hkey] using h.sorted
  · refine Keyed.filterMap_range_key_lt key v.count ?_
    intro n a ha
    rw [← h.store] at ha
    obtain ⟨habit, hread, rfl⟩ := Option.map_eq_some_iff.mp ha
    rw [hkey, Store.habitNumber_of_readHabit hread]

end Loading

/-! ## Overlapping calls -/

/-- Calls of `fetchFirebaseHabits` and what Firestore does with their reads. -/
inductive RefreshEvent : Event → Prop where
  | fetch : RefreshEvent .fetchFirebaseHabits
  | serve (i : Nat) : RefreshEvent (.serve i)
  | deliver (i : Nat) : RefreshEvent (.deliver i)

/-- The stored habits, in the order of their document numbers. -/
def Store.loaded (st : Store) : List Habit := st.numbers.filterMap st.readHabit

theorem Store.all_view_id (st : Store) : (st.view id).all = st.loaded := by
  simp [View.all, Store.view, Store.loaded, Store.numbers]

/-- The last call starts with nothing in flight. -/
def LastCallAlone (s : State) (es : List Event) : Prop :=
  ∀ pre post, es = pre ++ .fetchFirebaseHabits :: post →
    .fetchFirebaseHabits ∉ post → (run s pre).pending = []

/-- The state of calls over fixed documents: only reads of refreshes are in
flight, of documents that the counter counts. -/
structure Refreshing (st : Store) (s : State) : Prop where
  running : s.crashed = none
  store : s.store = st
  fetch : ∀ p ∈ s.pending, p.callback = .fetchCounter ∨
    ∃ n < st.user.habitCounter, p.callback = .fetchHabit n
  served : ∀ p ∈ s.pending, ∀ st', p.snapshot = some st' → st' = st

namespace Refreshing

variable {st : Store} {s : State}

theorem isFetch (h : Refreshing st s) {p : Pending} (hp : p ∈ s.pending) :
    p.callback.isFetch = true := by
  rcases h.fetch p hp with hcb | ⟨n, _, hcb⟩ <;> rw [hcb] <;> rfl

theorem served_view (h : Refreshing st s) (p : Pending) (hp : p ∈ s.pending)
    (st' : Store) (hst : p.snapshot = some st') : st'.view id = st.view id := by
  rw [h.served p hp st' hst]

theorem call (h : Refreshing st s) : Refreshing st (fetchFirebaseHabits s) where
  running := h.running
  store := h.store
  fetch := by
    intro p hp
    simp only [fetchFirebaseHabits, State.issue, List.mem_append, List.mem_singleton] at hp
    rcases hp with hp | rfl
    · exact h.fetch p hp
    · exact Or.inl rfl
  served := by
    intro p hp st' hst
    simp only [fetchFirebaseHabits, State.issue, List.mem_append, List.mem_singleton] at hp
    rcases hp with hp | rfl
    · exact h.served p hp st' hst
    · simp at hst

theorem serve (h : Refreshing st s) (i : Nat) : Refreshing st (s.serve i) where
  running := by rw [serve_crashed]; exact h.running
  store := by rw [serve_store]; exact h.store
  fetch := by
    intro p hp
    rcases mem_serve s i hp with hmem | ⟨_, hmem⟩
    · exact h.fetch p hmem
    · exact h.fetch { callback := p.callback } hmem
  served := by
    intro p hp st' hst
    rcases mem_serve s i hp with hmem | ⟨hsnap, _⟩
    · exact h.served p hmem st' hst
    · rw [hsnap, Option.some.injEq] at hst
      exact hst ▸ h.store

/-- Over documents that can all be read, no callback ends the process. -/
theorem deliver (h : Refreshing st s)
    (hstored : ∀ n < st.user.habitCounter, (st.readHabit n).isSome = true) (i : Nat) :
    Refreshing st (s.deliver i) := by
  rcases deliver_cases s i with ⟨hs, _⟩ | ⟨p, hp, hread, hs⟩
  · rw [hs]
    exact h
  · rw [hs]
    have hmem := List.mem_of_getElem? hp
    have hrest : ∀ q ∈ (s.dropPending i).pending, q ∈ s.pending := fun q hq =>
      (mem_pending hp).mpr (Or.inr hq)
    rcases h.fetch p hmem with hcb | ⟨n, hn, hcb⟩
    · obtain ⟨st', hst⟩ := hread (by rw [hcb]; rfl)
      obtain rfl := h.served p hmem st' hst
      rw [hcb, hst]
      simp only [Callback.run, fetchCounterRead_some]
      refine ⟨h.running, h.store, ?_, ?_⟩
      · intro q hq
        simp only [State.issueAll_pending, List.mem_append, List.mem_map] at hq
        rcases hq with hq | ⟨cb, ⟨n, hn, rfl⟩, rfl⟩
        · exact h.fetch q (hrest q hq)
        · exact Or.inr ⟨n, List.mem_range.mp hn, rfl⟩
      · intro q hq st' hst'
        simp only [State.issueAll_pending, List.mem_append, List.mem_map] at hq
        rcases hq with hq | ⟨cb, _, rfl⟩
        · exact h.served q (hrest q hq) st' hst'
        · simp at hst'
    · obtain ⟨st', hst⟩ := hread (by rw [hcb]; rfl)
      obtain rfl := h.served p hmem st' hst
      obtain ⟨habit, hhabit⟩ := Option.isSome_iff_exists.mp (hstored n hn)
      rw [hcb, hst]
      simp only [Callback.run, fetchHabitRead_some hhabit]
      exact ⟨h.running, h.store, fun q hq => h.fetch q (hrest q hq),
        fun q hq => h.served q (hrest q hq)⟩

theorem step (h : Refreshing st s)
    (hstored : ∀ n < st.user.habitCounter, (st.readHabit n).isSome = true) {e : Event}
    (he : RefreshEvent e) : Refreshing st (HabitHive.step s e) := by
  rw [step_of_running h.running]
  cases he with
  | fetch => exact h.call
  | serve i => exact h.serve i
  | deliver i => exact h.deliver hstored i

theorem run (h : Refreshing st s)
    (hstored : ∀ n < st.user.habitCounter, (st.readHabit n).isSome = true)
    {es : List Event} (hes : ∀ e ∈ es, RefreshEvent e) :
    Refreshing st (HabitHive.run s es) := by
  induction es generalizing s with
  | nil => exact h
  | cons e es ih =>
    exact ih (h.step hstored (hes e (by simp))) fun e' he' => hes e' (by simp [he'])

/-- The events after the last call keep the habits of the list and of the
reads in flight. -/
theorem loading (h : Refreshing st s) {xs : List Habit}
    (hstored : ∀ n < st.user.habitCounter, (st.readHabit n).isSome = true)
    (hload : Loading id (st.view id) xs s) {es : List Event}
    (hes : ∀ e ∈ es, RefreshEvent e) (hlast : Event.fetchFirebaseHabits ∉ es) :
    Loading id (st.view id) xs (HabitHive.run s es) := by
  induction es generalizing s with
  | nil => exact hload
  | cons e es ih =>
    have hnext := h.step hstored (hes e (by simp))
    refine ih hnext ?_ (fun e' he' => hes e' (by simp [he'])) (fun hm => hlast (by simp [hm]))
    rw [step_of_running h.running] at hnext ⊢
    cases hes e (by simp) with
    | fetch => exact absurd (by simp) hlast
    | serve i => exact hload.serve i
    | deliver i =>
      have hok := hnext.running
      simp only [handle] at hok ⊢
      rcases deliver_cases s i with ⟨hs, _⟩ | ⟨p, hp, hread, hs⟩
      · rwa [hs]
      · rw [hs] at hok ⊢
        exact hload.fetchRead hp (h.isFetch (List.mem_of_getElem? hp)) hread hok

/-- Each read in flight yields a habit when there is one to load. -/
theorem pending_eq_nil_of_outstanding (h : Refreshing st s)
    (hstored : ∀ n < st.user.habitCounter, (st.readHabit n).isSome = true)
    (hcount : st.user.habitCounter ≠ 0) (hout : outstanding (st.view id) s.pending = []) :
    s.pending = [] := by
  cases hps : s.pending with
  | nil => rfl
  | cons p ps =>
    exfalso
    rw [hps, outstanding_cons, List.append_eq_nil_iff] at hout
    rcases h.fetch p (by simp [hps]) with hcb | ⟨n, hn, hcb⟩
    · have hyield := hout.1
      rw [hcb, View.yields, View.all, List.filterMap_eq_nil_iff] at hyield
      have hzero := hyield 0 (List.mem_range.mpr (Nat.pos_of_ne_zero hcount))
      have hsome := hstored 0 (Nat.pos_of_ne_zero hcount)
      simp [Store.view] at hzero
      simp [hzero] at hsome
    · have hyield := hout.1
      have hsome := hstored n hn
      obtain ⟨habit, hread⟩ := Option.isSome_iff_exists.mp hsome
      simp [hcb, View.yields, Store.view, hread] at hyield

/-- Nothing is outstanding when there is nothing to load. -/
theorem outstanding_eq_nil (h : Refreshing st s) (hcount : st.user.habitCounter = 0) :
    outstanding (st.view id) s.pending = [] := by
  rw [outstanding, List.flatMap_eq_nil_iff]
  intro cb hcb
  obtain ⟨p, hp, rfl⟩ := List.mem_map.mp hcb
  rcases h.fetch p hp with hcb | ⟨n, hn, _⟩
  · rw [hcb]
    simp [View.yields, View.all, Store.view, hcount]
  · omega

end Refreshing

/-- The last call of a list that has one. -/
theorem exists_last_call {es : List Event} (h : Event.fetchFirebaseHabits ∈ es) :
    ∃ pre post, es = pre ++ .fetchFirebaseHabits :: post ∧ .fetchFirebaseHabits ∉ post := by
  obtain ⟨pre, post, heq, hnot⟩ := List.eq_append_cons_of_mem (List.mem_reverse.mpr h)
  refine ⟨post.reverse, pre.reverse, ?_, by simpa using hnot⟩
  rw [← List.reverse_reverse es, heq]
  simp

/-- After all callbacks of any number of interleaved refreshes over `n`
documents, `habitArray` holds the `n` habits once each and in order exactly
when the last call started with nothing in flight, or `n` is zero. -/
theorem refreshed_iff {s : State} {es : List Event} (hrunning : s.crashed = none)
    (hidle : s.pending = [])
    (hstored : ∀ n < s.store.user.habitCounter, (s.store.readHabit n).isSome = true)
    (hes : ∀ e ∈ es, RefreshEvent e) (hcall : Event.fetchFirebaseHabits ∈ es)
    (hdone : (run s es).pending = []) :
    (run s es).crashed = none ∧
      ((run s es).habitArray = s.store.loaded ↔
        s.store.user.habitCounter = 0 ∨ LastCallAlone s es) := by
  have hstart : Refreshing s.store s := ⟨hrunning, rfl, by simp [hidle], by simp [hidle]⟩
  refine ⟨(hstart.run hstored hes).running, ?_⟩
  have hfetched : (run s es).noFetch = true := by simp [State.noFetch, hdone]
  -- what the list holds at the end, seen from a last call
  have hlast : ∀ pre post, es = pre ++ .fetchFirebaseHabits :: post →
      .fetchFirebaseHabits ∉ post →
      Refreshing s.store (run s pre) ∧
        Loading id (s.store.view id)
          (outstanding (s.store.view id) (run s pre).pending ++ s.store.loaded) (run s es) := by
    intro pre post heq hnot
    have hpre : Refreshing s.store (run s pre) :=
      hstart.run hstored fun e he => hes e (by simp [heq, he])
    refine ⟨hpre, ?_⟩
    have hload := Loading.start (f := id) (v := s.store.view id)
      (by rw [hpre.store]) (fun p hp _ => hpre.served_view p hp)
    rw [Store.all_view_id] at hload
    rw [heq, run_append, run_cons, step_of_running hpre.running]
    exact hpre.call.loading hstored hload (fun e he => hes e (by simp [heq, he])) hnot
  constructor
  · intro harray
    by_cases hcount : s.store.user.habitCounter = 0
    · exact Or.inl hcount
    · refine Or.inr fun pre post heq hnot => ?_
      obtain ⟨hpre, hload⟩ := hlast pre post heq hnot
      refine hpre.pending_eq_nil_of_outstanding hstored hcount (List.eq_nil_of_length_eq_zero ?_)
      have hlen := (hload.rows_perm hfetched).length_eq
      rw [harray, List.length_map, List.length_append] at hlen
      omega
  · intro hcond
    obtain ⟨pre, post, heq, hnot⟩ := exists_last_call hcall
    obtain ⟨hpre, hload⟩ := hlast pre post heq hnot
    have hout : outstanding (s.store.view id) (run s pre).pending = [] := by
      rcases hcond with hcount | halone
      · exact hpre.outstanding_eq_nil hcount
      · rw [halone pre post heq hnot]
        rfl
    rw [hout, List.nil_append, ← Store.all_view_id] at hload
    have hfin := hload.finished Habit.habitNumber (fun _ => rfl) hfetched
    simpa [Store.all_view_id] using hfin

/-- Two calls over one document, the second before the first read comes
back, show the habit twice. -/
theorem overlapping_refreshes_duplicate :
    let s := State.launched (Store.ofFields [(Entry.sample 1).fields])
    let es : List Event :=
      [.fetchFirebaseHabits, .fetchFirebaseHabits, .serve 0, .serve 1, .deliver 0,
        .deliver 0, .serve 0, .serve 1, .deliver 0, .deliver 0]
    (∀ e ∈ es, RefreshEvent e) ∧ (run s es).pending = [] ∧ (run s es).crashed = none ∧
      s.store.loaded.length = 1 ∧ (run s es).habitArray = s.store.loaded ++ s.store.loaded ∧
      (run s es).habitArray ≠ s.store.loaded := by
  refine ⟨?_, by decide, by decide, by decide, by decide, by decide⟩
  intro e he
  fin_cases he <;> constructor

/-- Two calls that overlap, and a third one after them, whose second document
comes back first. -/
theorem refreshed_iff_twice :
    let s := State.launched (Store.ofFields [(Entry.sample 1).fields, (Entry.sample 2).fields])
    let es : List Event :=
      [.fetchFirebaseHabits, .fetchFirebaseHabits, .serve 0, .serve 1, .deliver 1, .deliver 0,
        .serve 0, .serve 1, .serve 2, .serve 3, .deliver 3, .deliver 1, .deliver 0, .deliver 0,
        .fetchFirebaseHabits, .serve 0, .deliver 0, .serve 0, .serve 1, .deliver 1, .deliver 0]
    s.store.loaded.map Habit.goal = [1, 2] ∧ (run s es).crashed = none ∧
      ((run s es).habitArray = s.store.loaded ↔
        s.store.user.habitCounter = 0 ∨ LastCallAlone s es) := by
  refine ⟨by decide, refreshed_iff rfl rfl (by decide) ?_ (by decide) (by decide)⟩
  intro e he
  fin_cases he <;> constructor

end HabitHive
