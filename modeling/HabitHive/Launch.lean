import Mathlib.Data.List.GetD
import Mathlib.Tactic.IntervalCases
import HabitHive.Loadable
import HabitHive.Numbering
import HabitHive.Settle

/-!
# A launch shows the stored habits

At a launch the list screen loads, which starts a refresh, and appears,
which runs a daily reset on a list that is still empty.  From then on
Firestore serves and delivers the reads in any order, and may fail them.

`Launching` is what holds until everything has arrived.  The list and the
reads in flight hold some of the stored habits, and all of them as long as no read
has failed: a failed read of a document loses its habit, and a failed read
of the counter all habits but the first.  The view shows the list, unless
the reload of the launch is still to come.

`Draining.rests` says that the reads run out, so every launch ends with
stored habits in the view, in order and each once (`launch_shows`), or ends
the process when a document is missing (`launch_crashes`).
-/

namespace HabitHive

open HabitCollection

/-! ## Reads that fail -/

namespace Loading

variable {κ : Type} {f : Habit → κ} {v : View κ} {xs : List κ} {s s' : State}

/-- A step that leaves the documents, the list and the calls. -/
theorem same (h : Loading f v xs s) (hstore : s'.store = s.store)
    (hlist : s'.habitArray = s.habitArray) (hpending : s'.pending = s.pending) :
    Loading f v xs s' where
  store := hstore ▸ h.store
  served := hpending ▸ h.served
  rows := by rw [hlist, hpending]; exact h.rows
  sorted := hlist ▸ h.sorted
  missing := hpending ▸ h.missing

/-- A read that is replaced by reads of some of the habits it would yield. -/
theorem lose {t : State} (h : Loading f v xs s)
    (hstored : ∀ n < v.count, (v.read n).isSome = true) {i : Nat} {p : Pending}
    (hp : s.pending[i]? = some p) (hstore : t.store = s.store)
    (hlist : t.habitArray.Perm s.habitArray)
    (hsorted : t.habitArray.Pairwise fun a b => a.habitNumber ≤ b.habitNumber)
    (cs : List Callback)
    (hpending : t.pending = (s.dropPending i).pending ++ cs.map ({ callback := · }))
    (hcs : (cs.flatMap v.yields).Sublist (v.yields p.callback)) :
    ∃ ys : List κ, ys.Subperm xs ∧ Loading f v ys t := by
  refine ⟨t.habitArray.map f ++ outstanding v t.pending, ?_, ?_⟩
  · have hrows := (outstanding_perm v (pending_perm hp)).append_left (s.habitArray.map f)
    have hout : outstanding v t.pending =
        outstanding v (s.dropPending i).pending ++ cs.flatMap v.yields := by
      rw [hpending, outstanding_append]
      simp [outstanding, Function.comp_def]
    rw [← (hrows.symm.trans h.rows).subperm_left, hout, outstanding_cons,
      (hlist.map f).append_right _ |>.subperm_right]
    refine (List.subperm_append_left _).mpr ?_
    rw [List.perm_append_comm.subperm_right]
    exact (hcs.append_right _).subperm
  · refine ⟨hstore ▸ h.store, fun q hq hfetch st hst => ?_, .refl _, hsorted, fun n hn hnone => ?_⟩
    · exact h.served q ((mem_pending hp).mpr (Or.inr (mem_of_served hpending hq hst))) hfetch st hst
    · rw [← Option.not_isSome_iff_eq_none, hstored n hn] at hnone
      contradiction

end Loading

/-! ## The start -/

/-- The list screen of a new process loads and appears. -/
def launch (s : State) : State := run s [.relaunch, .viewDidLoad, .viewWillAppear]

/-- What can happen while the habits arrive. -/
def Event.waits : Event → Bool
  | .serve _ | .deliver _ | .fail _ | .nextDay | .addButtonTapped | .createName ..
  | .createAmount .. | .sectionColor _ => true
  | _ => false

theorem Event.calls_of_waits {e : Event} (he : e.waits = true) : e.calls = false := by
  cases e <;> first | rfl | contradiction

/-- The habits that are on their way. -/
structure Launching (fails : Bool) (st : Store) (s : State) : Prop where
  running : s.crashed = none
  loading : ∃ xs : List Habit, xs.Subperm st.loaded ∧ (fails = false → xs = st.loaded) ∧
    Loading id (st.view id) xs s
  calls : ∀ p ∈ s.pending, p.callback = .reload ∨ p.callback = .fetchCounter ∨
    ∃ n < st.user.habitCounter, p.callback = .fetchHabit n
  /-- a failed read of the counter asks for habits that exist -/
  counter : fails = true → 0 ≤ s.localHabitCounter ∧ s.localHabitCounter < st.user.habitCounter
  view : s.viewStale = false ∧ s.shownRows = s.habitArray.length ∨
    ∃ p ∈ s.pending, p.callback = .reload

namespace Launching

variable {fails : Bool} {st : Store} {s s' : State}

/-- The reset of a launch finds no habit. -/
theorem launch_eq (hsigned : s.signedIn = true) :
    ∃ ws : List Write, (∀ w ∈ ws, w = .updateUser { finishedHabits := some 0 }) ∧
      launch s = ((fetchFirebaseHabits s.relaunch.reloadData).issue .reload).writeAll ws := by
  have hload : run s [.relaunch, .viewDidLoad] =
      (fetchFirebaseHabits s.relaunch.reloadData).issue .reload := by
    have hstart : step s .relaunch = s.relaunch := by
      by_cases hrunning : s.crashed = none <;> simp [step, handle, hrunning]
    rw [run_cons, run_cons, run_nil, hstart, step_of_running rfl]
    simp [handle, viewDidLoad, State.relaunch, hsigned]
  rw [launch, show [Event.relaunch, .viewDidLoad, .viewWillAppear] =
    [.relaunch, .viewDidLoad] ++ [.viewWillAppear] from rfl, run_append, hload, run_cons, run_nil,
    step_of_running rfl, handle, viewWillAppear]
  split_ifs with hresets
  · exact ⟨[.updateUser { finishedHabits := some 0 }], by simp, rfl⟩
  · exact ⟨[], by simp, by rw [State.writeAll, Store.applyAll_nil, List.append_nil]⟩

/-- The count of finished habits is no part of the list. -/
theorem view_writeAll (st : Store) {ws : List Write}
    (hws : ∀ w ∈ ws, w = .updateUser { finishedHabits := some 0 }) :
    (st.applyAll ws).view id = st.view id :=
  Runs.run_view (fun st : Store => st.view id) fun w hw st => by rw [hws w hw]; rfl

theorem start (hsigned : s.signedIn = true)
    (hcount : fails = true → 0 < s.store.user.habitCounter) :
    Launching fails s.store (launch s) := by
  obtain ⟨ws, hws, hlaunch⟩ := launch_eq hsigned
  rw [hlaunch]
  have hload : Loading id (s.store.view id) s.store.loaded
      ((fetchFirebaseHabits s.relaunch.reloadData).issue .reload) := by
    rw [← Store.all_view_id]
    have hfetch := Loading.start_alone (f := id) (s := s.relaunch.reloadData) rfl rfl
    refine ⟨hfetch.store, fun p hp hread st hst => ?_, by simp [fetchFirebaseHabits, View.yields,
      State.relaunch], hfetch.sorted, fun n _ _ => ⟨{ callback := .fetchCounter }, ?_, Or.inl rfl⟩⟩
    · have hnone : p.snapshot = none := by
        simp only [State.issue, fetchFirebaseHabits, State.relaunch, State.reloadData,
          List.nil_append, List.mem_append, List.mem_singleton] at hp
        rcases hp with rfl | rfl <;> rfl
      rw [hnone] at hst
      contradiction
    · simp [fetchFirebaseHabits]
  refine ⟨rfl, ⟨_, List.Subperm.refl _, fun _ => rfl, ?_⟩, ?_, ?_, Or.inr ?_⟩
  · exact ⟨(view_writeAll _ hws).trans hload.store, hload.served, hload.rows, hload.sorted,
      hload.missing⟩
  · intro p hp
    simp only [State.writeAll, State.issue, fetchFirebaseHabits, State.relaunch, State.reloadData,
      List.nil_append, List.mem_append, List.mem_singleton] at hp
    rcases hp with rfl | rfl
    · exact Or.inr (Or.inl rfl)
    · exact Or.inl rfl
  · intro hf
    have := hcount hf
    simp [fetchFirebaseHabits, State.relaunch]
    omega
  · exact ⟨{ callback := .reload }, by simp [fetchFirebaseHabits], rfl⟩

/-! ## The callbacks -/

/-- A step that leaves the list and the view. -/
theorem same (h : Launching fails st s) (hrunning : s'.crashed = none)
    (hstore : s'.store = s.store) (hlist : s'.habitArray = s.habitArray)
    (hpending : s'.pending = s.pending) (hcounter : s'.localHabitCounter = s.localHabitCounter)
    (hstale : s'.viewStale = s.viewStale) (hshown : s'.shownRows = s.shownRows) :
    Launching fails st s' where
  running := hrunning
  loading := by
    obtain ⟨xs, hsub, hall, hload⟩ := h.loading
    exact ⟨xs, hsub, hall, hload.same hstore hlist hpending⟩
  calls := hpending ▸ h.calls
  counter := hcounter ▸ h.counter
  view := by rw [hstale, hshown, hlist, hpending]; exact h.view

theorem serve (h : Launching fails st s) (i : Nat) : Launching fails st (s.serve i) := by
  have hmap := serve_callbacks s i
  have hmem : ∀ p ∈ (s.serve i).pending, ∃ q ∈ s.pending, q.callback = p.callback := by
    intro p hp
    have hcb := List.mem_map_of_mem (f := Pending.callback) hp
    rw [hmap] at hcb
    exact List.mem_map.mp hcb
  have hview : (s.serve i).viewStale = s.viewStale ∧ (s.serve i).shownRows = s.shownRows ∧
      (s.serve i).localHabitCounter = s.localHabitCounter := by
    rcases serve_cases s i with hs | ⟨_, _, _, _, hs⟩ <;> rw [hs] <;> exact ⟨rfl, rfl, rfl⟩
  refine ⟨by rw [serve_crashed]; exact h.running, ?_, fun p hp => ?_, ?_, ?_⟩
  · obtain ⟨xs, hsub, hall, hload⟩ := h.loading
    exact ⟨xs, hsub, hall, hload.serve i⟩
  · obtain ⟨q, hq, hcb⟩ := hmem p hp
    rw [← hcb]
    exact h.calls q hq
  · rw [hview.2.2]
    exact h.counter
  · rw [hview.1, hview.2.1, serve_habitArray]
    refine h.view.imp_right fun ⟨p, hp, hcb⟩ => ?_
    have hmem := List.mem_map_of_mem (f := Pending.callback) hp
    rw [← hmap] at hmem
    obtain ⟨q, hq, hqp⟩ := List.mem_map.mp hmem
    exact ⟨q, hq, hqp.trans hcb⟩

/-- A read that comes back, or the reload of the launch.  A document that
cannot be read ends the process. -/
theorem deliver (h : Launching fails st s) (i : Nat) :
    Launching fails st (s.deliver i) ∨
      ¬st.Loadable ∧ (s.deliver i).crashed = some .forcedCast := by
  rcases deliver_cases s i with ⟨hs, _⟩ | ⟨p, hp, hread, hs⟩ <;> rw [hs]
  · exact Or.inl h
  have hmem := List.mem_of_getElem? hp
  obtain ⟨xs, hsub, hall, hloading⟩ := h.loading
  have hrest : ∀ q ∈ (s.dropPending i).pending, q ∈ s.pending := fun q hq =>
    (mem_pending hp).mpr (Or.inr hq)
  have hserved : ∀ st', p.snapshot = some st' → p.callback.isFetch = true →
      st'.view id = st.view id := fun st' hst hfetch => hloading.served p hmem hfetch st' hst
  rcases h.calls p hmem with hcb | hcb | ⟨n, hn, hcb⟩
  · left
    rw [hcb]
    refine ⟨h.running, ⟨xs, hsub, hall, ?_⟩, fun q hq => h.calls q (hrest q hq), h.counter,
      Or.inl ⟨rfl, rfl⟩⟩
    exact (hloading.drop hp (by rw [hcb]; rfl)).same rfl rfl rfl
  · left
    obtain ⟨st', hst⟩ := hread (by rw [hcb]; rfl)
    have hcount : st'.user.habitCounter = st.user.habitCounter :=
      congrArg View.count (hserved st' hst (by rw [hcb]; rfl))
    have hnext := hloading.fetchCounter hp hcb hst
    rw [fetchCounterRead_some] at hnext
    rw [hcb, hst, Callback.run, fetchCounterRead_some]
    refine ⟨h.running, ⟨xs, hsub, hall, hnext⟩, fun q hq => ?_, fun hf => ?_, ?_⟩
    · simp only [State.issueAll_pending, List.mem_append, List.mem_map] at hq
      rcases hq with hq | ⟨cb, ⟨n, hn, rfl⟩, rfl⟩
      · exact h.calls q (hrest q hq)
      · exact Or.inr (Or.inr ⟨n, hcount ▸ List.mem_range.mp hn, rfl⟩)
    · have := h.counter hf
      simp only [State.issueAll_localHabitCounter, hcount]
      omega
    · refine h.view.imp_right ?_
      rintro ⟨q, hq, hqcb⟩
      refine ⟨q, ?_, hqcb⟩
      rcases (mem_pending hp).mp hq with rfl | hq
      · rw [hcb] at hqcb
        contradiction
      · exact List.mem_append_left _ hq
  · obtain ⟨st', hst⟩ := hread (by rw [hcb]; rfl)
    have hview : st'.readHabit n = st.readHabit n := by
      have hread := congrArg (fun v : View Habit => v.read n) (hserved st' hst (by rw [hcb]; rfl))
      simpa [Store.view] using hread
    cases hhabit : st'.readHabit n with
    | none =>
      refine Or.inr ⟨fun hload => ?_, ?_⟩
      · have hsome := hload n hn
        rw [← hview, hhabit] at hsome
        contradiction
      · rw [hcb, hst]
        simp [Callback.run, fetchHabitRead, hhabit]
    | some habit =>
      left
      have hrunning : (fetchHabitRead n (some st') (s.dropPending i)).crashed = none := by
        rw [fetchHabitRead_some hhabit]
        exact h.running
      have hnext := hloading.fetchHabit hp hcb hst hrunning
      rw [fetchHabitRead_some hhabit] at hnext
      rw [hcb, hst, Callback.run, fetchHabitRead_some hhabit]
      exact ⟨h.running, ⟨xs, hsub, hall, hnext⟩, fun q hq => h.calls q (hrest q hq), h.counter,
        Or.inl ⟨rfl, rfl⟩⟩

/-- A read that fails. -/
theorem fail (h : Launching true st s) (hload : st.Loadable) (i : Nat) :
    Launching true st (s.fail i) := by
  rcases fail_cases s i with hs | ⟨p, hp, hread, hs⟩ <;> rw [hs]
  · exact h
  have hmem := List.mem_of_getElem? hp
  obtain ⟨xs, hsub, hall, hloading⟩ := h.loading
  have hrest : ∀ q ∈ (s.dropPending i).pending, q ∈ s.pending := fun q hq =>
    (mem_pending hp).mpr (Or.inr hq)
  have hstored : ∀ n < (st.view id).count, ((st.view id).read n).isSome = true := fun n hn => by
    simpa [Store.view] using hload n hn
  rcases h.calls p hmem with hcb | hcb | ⟨n, hn, hcb⟩
  · rw [hcb] at hread
    contradiction
  · -- the first habits are read, as many as the old counter says
    obtain ⟨hnonneg, hlt⟩ := h.counter rfl
    have hne : s.localHabitCounter ≠ -1 := by omega
    have hrun : fetchCounterRead none (s.dropPending i) = (s.dropPending i).issueAll
        ((List.range (s.localHabitCounter + 1).toNat).map .fetchHabit) := by
      simp [fetchCounterRead, hne, Int.not_lt.mpr hnonneg]
    have hle : (s.localHabitCounter + 1).toNat ≤ st.user.habitCounter := by omega
    rw [hcb, Callback.run, hrun]
    refine ⟨h.running, ?_, fun q hq => ?_, h.counter, ?_⟩
    · obtain ⟨ys, hys, hnext⟩ := hloading.lose hstored hp
        (t := (s.dropPending i).issueAll
          ((List.range (s.localHabitCounter + 1).toNat).map .fetchHabit))
        rfl (.refl _) hloading.sorted _ rfl (by
          rw [hcb, View.flatMap_yields_fetchHabit]
          exact (List.range_sublist.mpr hle).filterMap _)
      exact ⟨ys, hys.trans hsub, by simp, hnext⟩
    · simp only [State.issueAll_pending, List.mem_append, List.mem_map] at hq
      rcases hq with hq | ⟨cb, ⟨n, hn, rfl⟩, rfl⟩
      · exact h.calls q (hrest q hq)
      · exact Or.inr (Or.inr ⟨n, (List.mem_range.mp hn).trans_le hle, rfl⟩)
    · refine h.view.imp_right ?_
      rintro ⟨q, hq, hqcb⟩
      refine ⟨q, ?_, hqcb⟩
      rcases (mem_pending hp).mp hq with rfl | hq
      · rw [hcb] at hqcb
        contradiction
      · exact List.mem_append_left _ hq
  · rw [hcb, Callback.run, fetchHabitRead]
    refine ⟨h.running, ?_, fun q hq => h.calls q (hrest q hq), h.counter, Or.inl ⟨rfl, rfl⟩⟩
    obtain ⟨ys, hys, hnext⟩ := hloading.lose hstored hp
      (t := { s.dropPending i with habitArray := sortByNumber s.habitArray }.reloadData)
      rfl (Keyed.sortByKey_perm _ _) (Keyed.sortByKey_pairwise _ _) [] (by simp) (by simp)
    exact ⟨ys, hys.trans hsub, by simp, hnext⟩

theorem step (h : Launching fails st s) {e : Event} (he : e.waits = true)
    (hload : fails = true → st.Loadable) (hfail : fails = false → ∀ i, e ≠ .fail i) :
    Launching fails st (HabitHive.step s e) ∨
      ¬st.Loadable ∧ (HabitHive.step s e).crashed = some .forcedCast := by
  rw [step_of_running h.running]
  cases e with
  | serve i => exact Or.inl (h.serve i)
  | deliver i => exact h.deliver i
  | fail i =>
    cases fails with
    | false => exact absurd rfl (hfail rfl i)
    | true => exact Or.inl (h.fail (hload rfl) i)
  | nextDay => exact Or.inl (h.same h.running rfl rfl rfl rfl rfl rfl)
  | addButtonTapped => exact Or.inl (h.same h.running rfl rfl rfl rfl rfl rfl)
  | sectionColor color => exact Or.inl (h.same h.running rfl rfl rfl rfl rfl rfl)
  | createName c text =>
    left
    simp only [handle, CreateHabit.habitNameChanged]
    split
    · exact h
    · exact h.same h.running rfl rfl rfl rfl rfl rfl
  | createAmount c amount =>
    left
    simp only [handle, CreateHabit.didTapConfirmAmount]
    split
    · exact h
    · exact h.same h.running rfl rfl rfl rfl rfl rfl
  | _ => contradiction

/-- Until the process ends, the habits are on their way. -/
theorem trace (hsigned : s.signedIn = true) {e : ℕ → Event} (he : ∀ n, (e n).waits = true)
    (hload : fails = true → s.store.Loadable ∧ 0 < s.store.user.habitCounter)
    (hfail : fails = false → ∀ n i, e n ≠ .fail i) (n : ℕ) :
    Launching fails s.store (Runs.trace HabitHive.step (launch s) e n) ∨
      ¬s.store.Loadable ∧
        (Runs.trace HabitHive.step (launch s) e n).crashed = some .forcedCast := by
  induction n with
  | zero => exact Or.inl (.start hsigned fun hf => (hload hf).2)
  | succ n ih =>
    rcases ih with ih | ⟨hunloadable, hcrashed⟩
    · exact ih.step (he n) (fun hf => (hload hf).1) fun hf => hfail hf n
    · refine Or.inr ⟨hunloadable, ?_⟩
      have hrelaunch : e n ≠ .relaunch := fun h => by
        have := he n
        rw [h] at this
        contradiction
      rw [Runs.trace_succ, HabitHive.step, if_neg (by simp [hcrashed]), if_neg hrelaunch]
      exact hcrashed

/-- What the view shows when everything has arrived. -/
theorem shows (h : Launching fails st s) (hidle : s.pending = []) :
    s.habitArray.Sublist st.loaded ∧ s.shownRows = s.habitArray.length ∧ s.viewStale = false ∧
      (fails = false → s.habitArray = st.loaded) := by
  obtain ⟨xs, hsub, hall, hloading⟩ := h.loading
  have hperm : s.habitArray.Perm xs := by
    simpa using hloading.rows_perm (by simp [State.noFetch, hidle])
  have hlt : st.loaded.Pairwise fun a b => a.habitNumber < b.habitNumber :=
    Keyed.filterMap_range_key_lt _ _ fun n a ha => Store.habitNumber_of_readHabit ha
  have hview : s.viewStale = false ∧ s.shownRows = s.habitArray.length := by
    refine h.view.resolve_right ?_
    rw [hidle]
    simp
  refine ⟨?_, hview.2, hview.1, fun hf => ?_⟩
  · exact Keyed.sublist_of_subperm_of_key_lt _ (hperm.subperm_right.mpr hsub) hloading.sorted hlt
  · exact Keyed.eq_of_perm_of_key_lt _ (hall hf ▸ hperm) hloading.sorted hlt

end Launching

/-- A schedule on which a launch that runs and has calls in flight moves
sooner or later. -/
def Fair (s : State) (e : ℕ → Event) : Prop :=
  ∀ n, State.Busy (Runs.trace step (launch s) e n).held →
    ∃ m, n ≤ m ∧ (Runs.trace step (launch s) e (m + 1)).held ≠
      (Runs.trace step (launch s) e m).held

/-- A fair launch comes to rest or ends. -/
theorem Fair.rests {s : State} {e : ℕ → Event} (hfair : Fair s e) (he : ∀ n, (e n).waits = true) :
    ∃ n, ∀ m, n ≤ m → (Runs.trace step (launch s) e m).crashed ≠ none ∨
      (Runs.trace step (launch s) e m).pending = [] := by
  have hdrains : ∀ (s : State) n, Draining.Drains step State.held State.work s (e n) :=
    fun s n => State.drains_step (Event.calls_of_waits (he n)) s
  have hwork : ∀ s t : State, s.held = t.held → s.work = t.work := fun _ _ => State.work_eq_of_held
  obtain ⟨n, hrest, hsame⟩ := Draining.rests (s := launch s) hwork hdrains State.Busy hfair
  refine ⟨n, fun m hm => ?_⟩
  rw [← hsame m hm, State.Busy, not_and_or, not_not] at hrest
  exact hrest

instance (st : Store) : Decidable st.Loadable :=
  inferInstanceAs (Decidable (∀ k < st.user.habitCounter, (st.readHabit k).isSome = true))

/-- Every launch on an account that can be loaded comes to rest, whatever
the order in which its reads are served, delivered and failed, with stored
habits in the view, each once and in the order of their documents.  When no
read fails these are all of them. -/
theorem launch_shows {s : State} (hsigned : s.signedIn = true) (hload : s.store.Loadable)
    {e : ℕ → Event} (he : ∀ n, (e n).waits = true)
    (hcount : 0 < s.store.user.habitCounter ∨ ∀ n i, e n ≠ .fail i) (hfair : Fair s e) :
    ∃ n, ∀ m, n ≤ m →
      let t := Runs.trace step (launch s) e m
      t.crashed = none ∧ t.pending = [] ∧ t.habitArray.Sublist s.store.loaded ∧
        t.shownRows = t.habitArray.length ∧ t.viewStale = false ∧
        ((∀ n i, e n ≠ .fail i) → t.habitArray = s.store.loaded) := by
  have hlaunching : ∀ fails, (fails = true → 0 < s.store.user.habitCounter) →
      (fails = false → ∀ n i, e n ≠ .fail i) →
      ∀ n, Launching fails s.store (Runs.trace step (launch s) e n) := fun fails hcount hfail n =>
    (Launching.trace hsigned he (fun hf => ⟨hload, hcount hf⟩) hfail n).resolve_right
      fun h => h.1 hload
  obtain ⟨fails, hall⟩ : ∃ fails, ∀ n,
      Launching fails s.store (Runs.trace step (launch s) e n) := by
    rcases hcount with hcount | hfail
    · exact ⟨true, hlaunching true (fun _ => hcount) (by simp)⟩
    · exact ⟨false, hlaunching false (by simp) fun _ => hfail⟩
  obtain ⟨n, hrest⟩ := hfair.rests he
  refine ⟨n, fun m hm => ?_⟩
  have hidle := (hrest m hm).resolve_left fun h => h (hall m).running
  obtain ⟨hsub, hshown, hstale, _⟩ := (hall m).shows hidle
  refine ⟨(hall m).running, hidle, hsub, hshown, hstale, fun hfail => ?_⟩
  exact ((hlaunching false (by simp) (fun _ => hfail) m).shows hidle).2.2.2 rfl

/-- Every launch on an account that cannot be loaded ends the process, if no
read fails. -/
theorem launch_crashes {s : State} (hsigned : s.signedIn = true) (hload : ¬s.store.Loadable)
    {e : ℕ → Event} (he : ∀ n, (e n).waits = true) (hfail : ∀ n i, e n ≠ .fail i)
    (hfair : Fair s e) :
    ∃ n, ∀ m, n ≤ m → (Runs.trace step (launch s) e m).crashed = some .forcedCast := by
  have hall : ∀ m, Launching false s.store (Runs.trace step (launch s) e m) ∨ ¬s.store.Loadable ∧
      (Runs.trace step (launch s) e m).crashed = some .forcedCast :=
    Launching.trace hsigned he (by simp) fun _ => hfail
  obtain ⟨n, hrest⟩ := hfair.rests he
  refine ⟨n, fun m hm => ((hall m).resolve_left fun h => hload fun k hk => ?_).2⟩
  have hidle := (hrest m hm).resolve_left fun hcrashed => hcrashed h.running
  obtain ⟨xs, _, _, hloading⟩ := h.loading
  simpa [Store.view] using hloading.read_isSome (by simp [State.noFetch, hidle]) hk

/-- A schedule on which all reads of a launch arrive and then the days pass. -/
theorem Fair.of_run {s : State} {es : List Event} (h : (run (launch s) es).pending = []) :
    Fair s fun n => es.getD n .nextDay := by
  refine Draining.fair_of_rest State.held State.Busy (fun s _ => ?_) fun hbusy => hbusy.2 h
  by_cases hrunning : s.crashed = none <;> simp [State.held, step, handle, hrunning]

/-- The documents of two stored habits arrive in the wrong order. -/
def arrival : List Event :=
  [.serve 0, .deliver 0, .serve 1, .serve 2, .deliver 2, .deliver 0, .deliver 0]

theorem arrival_waits (n : ℕ) :
    (arrival.getD n .nextDay).waits = true ∧ ∀ i, arrival.getD n .nextDay ≠ .fail i := by
  rcases Nat.lt_or_ge n arrival.length with hlt | hge
  · change n < 7 at hlt
    interval_cases n <;> simp [arrival, Event.waits]
  · rw [List.getD_eq_default _ _ hge]
    simp [Event.waits]

/-- Every fair launch has one outcome, whatever the order in which its reads
are served and delivered.  If no read fails, it comes to rest with the stored
habits in the view when they can be loaded, and ends the process when they
cannot.  If reads fail, it comes to rest with some of the stored habits, each
once and in the order of their documents. -/
theorem launch_outcome {s : State} (hsigned : s.signedIn = true) {e : ℕ → Event}
    (he : ∀ n, (e n).waits = true) (hfair : Fair s e) :
    let t := Runs.trace step (launch s) e
    ((∀ n i, e n ≠ .fail i) → ∃ n, ∀ m, n ≤ m →
      if s.store.Loadable then
        (t m).crashed = none ∧ (t m).pending = [] ∧ (t m).habitArray = s.store.loaded ∧
          (t m).shownRows = s.store.loaded.length
      else (t m).crashed = some .forcedCast) ∧
    (s.store.Loadable → 0 < s.store.user.habitCounter → ∃ n, ∀ m, n ≤ m →
      (t m).crashed = none ∧ (t m).pending = [] ∧ (t m).habitArray.Sublist s.store.loaded ∧
        (t m).shownRows = (t m).habitArray.length) := by
  intro t
  refine ⟨fun hfail => ?_, fun hload hcount => ?_⟩
  · by_cases hload : s.store.Loadable
    · obtain ⟨n, hn⟩ := launch_shows hsigned hload he (Or.inr hfail) hfair
      refine ⟨n, fun m hm => ?_⟩
      obtain ⟨hcrashed, hidle, _, hshown, _, hall⟩ := hn m hm
      rw [if_pos hload]
      exact ⟨hcrashed, hidle, hall hfail, by rw [hshown, hall hfail]⟩
    · obtain ⟨n, hn⟩ := launch_crashes hsigned hload he hfail hfair
      refine ⟨n, fun m hm => ?_⟩
      rw [if_neg hload]
      exact hn m hm
  · obtain ⟨n, hn⟩ := launch_shows hsigned hload he (Or.inl hcount) hfair
    refine ⟨n, fun m hm => ?_⟩
    obtain ⟨hcrashed, hidle, hsub, hshown, _⟩ := hn m hm
    exact ⟨hcrashed, hidle, hsub, hshown⟩

theorem launch_outcome_arrival :
    let s := State.launched (.ofEntries [.sample 1, .sample 2])
    let t := Runs.trace step (launch s) fun n => arrival.getD n .nextDay
    ((∀ n i, arrival.getD n .nextDay ≠ .fail i) → ∃ n, ∀ m, n ≤ m →
      if s.store.Loadable then
        (t m).crashed = none ∧ (t m).pending = [] ∧ (t m).habitArray = s.store.loaded ∧
          (t m).shownRows = s.store.loaded.length
      else (t m).crashed = some .forcedCast) ∧
    (s.store.Loadable → 0 < s.store.user.habitCounter → ∃ n, ∀ m, n ≤ m →
      (t m).crashed = none ∧ (t m).pending = [] ∧ (t m).habitArray.Sublist s.store.loaded ∧
        (t m).shownRows = (t m).habitArray.length) :=
  launch_outcome (s := .launched (.ofEntries [.sample 1, .sample 2])) rfl
    (fun n => (arrival_waits n).1) (.of_run (by decide))

/-- One habit is counted and there is no document: the launch ends. -/
example :
    let s := State.launched { Store.signUp with user :=
      { Store.signUp.user with habitCounter := 1 } }
    ∃ n, ∀ m, n ≤ m →
      (Runs.trace step (launch s) (fun n => arrival.getD n .nextDay) m).crashed =
        some .forcedCast := by
  intro s
  exact launch_crashes (s := s) rfl (by decide) (fun n => (arrival_waits n).1)
    (fun n => (arrival_waits n).2) (.of_run (by decide))

end HabitHive
