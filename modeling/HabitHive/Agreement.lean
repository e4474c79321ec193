import HabitHive.Fleet

/-!
# All devices show the same habits

The app is launched on every device of a user, and from then on the reads
of all launches are served, delivered and failed in any order.  `Launching`
holds of each session on its own, whatever the others read, so a fair
schedule ends for all of them as it does for one (`launches_agree`): with
the same habits in every view.
-/

namespace HabitHive

/-! ## A launch on documents that others use -/

namespace Launching

variable {fails : Bool} {st st' : Store} {s : State}

/-- Only what the list shows of the documents matters. -/
theorem of_view (h : Launching fails st s) (hview : st.view id = st'.view id) :
    Launching fails st' s where
  running := h.running
  loading := by
    obtain ⟨xs, hsub, hall, hload⟩ := h.loading
    have hloaded : st.loaded = st'.loaded := by
      rw [← Store.all_view_id, hview, Store.all_view_id]
    exact ⟨xs, hloaded ▸ hsub, hloaded ▸ hall, hview ▸ hload⟩
  calls := by
    have hcount : st.user.habitCounter = st'.user.habitCounter := congrArg View.count hview
    exact hcount ▸ h.calls
  counter := by
    have hcount : st.user.habitCounter = st'.user.habitCounter := congrArg View.count hview
    exact hcount ▸ h.counter
  view := h.view

/-- Others have changed documents that the list does not show. -/
theorem on (h : Launching fails st s) (hview : st'.view id = st.view id) :
    Launching fails st (s.on st') where
  running := h.running
  loading := by
    obtain ⟨xs, hsub, hall, hload⟩ := h.loading
    exact ⟨xs, hsub, hall, hview, hload.served, hload.rows, hload.sorted, hload.missing⟩
  calls := h.calls
  counter := h.counter
  view := h.view

theorem store_view (h : Launching fails st s) : s.store.view id = st.view id := by
  obtain ⟨xs, _, _, hload⟩ := h.loading
  exact hload.store

theorem isRefresh (h : Launching fails st s) {p : Pending} (hp : p ∈ s.pending) :
    p.callback.isRefresh = true := by
  rcases h.calls p hp with hcb | hcb | ⟨n, _, hcb⟩ <;> rw [hcb] <;> rfl

/-- Nothing is written. -/
theorem store_step (h : Launching fails st s) {e : Event} (he : e.waits = true) :
    (HabitHive.step s e).store = s.store := by
  rw [step_of_running h.running]
  cases e with
  | serve i => exact serve_store s i
  | deliver i =>
    rcases deliver_cases s i with ⟨hs, _⟩ | ⟨p, hp, _, hs⟩ <;> rw [handle, hs]
    exact (listOnly_of_isRefresh (h.isRefresh (List.mem_of_getElem? hp)) p.snapshot _).store
  | fail i =>
    rcases fail_cases s i with hs | ⟨p, hp, _, hs⟩ <;> rw [handle, hs]
    exact (listOnly_of_isRefresh (h.isRefresh (List.mem_of_getElem? hp)) none _).store
  | createName c text =>
    simp only [handle, CreateHabit.habitNameChanged]
    split <;> rfl
  | createAmount c amount =>
    simp only [handle, CreateHabit.didTapConfirmAmount]
    split <;> rfl
  | nextDay | addButtonTapped | sectionColor color => rfl
  | _ => contradiction

end Launching

/-- A launch on documents that show `st`: its habits are on their way, or
the process has ended because one of them is missing. -/
structure Arriving (fails : Bool) (st : Store) (s : State) : Prop where
  view : s.store.view id = st.view id
  launching : Launching fails st s ∨ ¬st.Loadable ∧ s.crashed = some .forcedCast

namespace Arriving

variable {fails : Bool} {st st' : Store} {s : State}

theorem on (h : Arriving fails st s) (hview : st'.view id = st.view id) :
    Arriving fails st (s.on st') :=
  ⟨hview, h.launching.imp_left fun h => h.on hview⟩

theorem step (h : Arriving fails st s) {e : Event} (he : e.waits = true)
    (hload : fails = true → st.Loadable) (hfail : fails = false → ∀ i, e ≠ .fail i) :
    Arriving fails st (HabitHive.step s e) := by
  rcases h.launching with hlaunching | ⟨hunloadable, hcrashed⟩
  · exact ⟨by rw [hlaunching.store_step he]; exact h.view, hlaunching.step he hload hfail⟩
  · have hrelaunch : e ≠ .relaunch := fun h => by
      rw [h] at he
      contradiction
    rw [HabitHive.step, if_neg (by simp [hcrashed]), if_neg hrelaunch]
    exact h

/-- What a launch shows once everything has arrived. -/
theorem shows (h : Arriving fails st s) (hrest : ¬State.Busy s.held) :
    (¬st.Loadable ∧ s.crashed = some .forcedCast) ∨
      s.crashed = none ∧ s.pending = [] ∧ s.habitArray.Sublist st.loaded ∧
        s.shownRows = s.habitArray.length ∧
          (fails = false → st.Loadable ∧ s.habitArray = st.loaded) := by
  refine h.launching.symm.imp_right fun hlaunching => ?_
  have hidle : s.pending = [] := by
    by_contra hne
    exact hrest ⟨hlaunching.running, hne⟩
  obtain ⟨hsub, hshown, _, hall⟩ := hlaunching.shows hidle
  refine ⟨hlaunching.running, hidle, hsub, hshown, fun hf => ⟨fun k hk => ?_, hall hf⟩⟩
  obtain ⟨xs, _, _, hloading⟩ := hlaunching.loading
  simpa [Store.view] using hloading.read_isSome (by simp [State.noFetch, hidle]) hk

end Arriving

/-! ## Launches on all devices -/

/-- The sessions of devices that share the documents of an account. -/
abbrev Sessions := Runs.Pool Store State

namespace Sessions

/-- An event of one device. -/
abbrev step : Sessions → ℕ × Event → Sessions :=
  Runs.Pool.next State.store State.on HabitHive.step

/-- The app is launched on the first `n` devices. -/
def launches (n : ℕ) : List (ℕ × Event) :=
  (List.range n).flatMap fun k => [Event.relaunch, .viewDidLoad, .viewWillAppear].map (Prod.mk k)

/-- The app is launched on all devices. -/
def launched (x : Sessions) : Sessions := Runs.run step x (launches x.members.length)

variable {x : Sessions} {fails : Bool}

theorem run_launch {k : ℕ} {s : State} (hs : x.members[k]? = some s) :
    Runs.run step x ([Event.relaunch, .viewDidLoad, .viewWillAppear].map (Prod.mk k)) =
      { store := (launch (s.on x.store)).store
        members := x.members.set k (launch (s.on x.store)) } :=
  Runs.Pool.run_member (fun _ => rfl) hs _ _

/-- The launches leave the habits. -/
theorem arriving_launches (hsigned : ∀ s ∈ x.members, s.signedIn = true)
    (hcount : fails = true → 0 < x.store.user.habitCounter) (n : ℕ) (hn : n ≤ x.members.length) :
    let y := Runs.run step x (launches n)
    y.members.length = x.members.length ∧ y.store.view id = x.store.view id ∧
      (∀ k < n, ∀ s ∈ y.members[k]?, Arriving fails x.store s) ∧
        ∀ k, n ≤ k → y.members[k]? = x.members[k]? := by
  induction n with
  | zero => exact ⟨rfl, rfl, by simp, fun _ _ => rfl⟩
  | succ n ih =>
    obtain ⟨hlen, hview, harriving, hwaiting⟩ := ih (by omega)
    rw [launches, List.range_succ, List.flatMap_append, Runs.run_append, List.flatMap_singleton,
      ← launches]
    generalize Runs.run step x (launches n) = y at hlen hview harriving hwaiting ⊢
    have hlt : n < y.members.length := by omega
    have hs : y.members[n]? = some y.members[n] := List.getElem?_eq_getElem hlt
    have hsigned' : y.members[n].signedIn = true :=
      hsigned _ (List.mem_of_getElem? ((hwaiting n (le_refl n)).symm.trans hs))
    have hlaunch : Launching fails y.store (launch (y.members[n].on y.store)) :=
      .start (s := y.members[n].on y.store) hsigned' fun hf =>
        (congrArg View.count hview).trans_gt (hcount hf)
    have hstart := hlaunch.of_view hview
    rw [run_launch hs]
    refine ⟨by rw [List.length_set, hlen], hstart.store_view, fun k hk s hmem => ?_, fun k hk => ?_⟩
    · by_cases hkn : k = n
      · rw [hkn, Option.mem_def, List.getElem?_set_self hlt, Option.some.injEq] at hmem
        rw [← hmem]
        exact ⟨hstart.store_view, Or.inl hstart⟩
      · rw [List.getElem?_set_ne (Ne.symm hkn)] at hmem
        exact harriving k (by omega) s hmem
    · rw [List.getElem?_set_ne (by omega)]
      exact hwaiting k (by omega)

/-- A schedule on which sessions of which one runs and has calls in flight
move sooner or later. -/
def Fair (x : Sessions) (e : ℕ → ℕ × Event) : Prop :=
  ∀ n, (∃ s ∈ (Runs.trace step x e n).members, State.Busy s.held) → ∃ m, n ≤ m ∧
    (Runs.trace step x e (m + 1)).heldAll State.held ≠ (Runs.trace step x e m).heldAll State.held

/-- Until everything has arrived, all launches are on their way. -/
theorem arriving_trace (hsigned : ∀ s ∈ x.members, s.signedIn = true) {e : ℕ → ℕ × Event}
    (he : ∀ n, (e n).2.waits = true)
    (hload : fails = true → x.store.Loadable ∧ 0 < x.store.user.habitCounter)
    (hfail : fails = false → ∀ n i, (e n).2 ≠ .fail i) (n : ℕ) :
    Runs.Pool.All (fun st => st.view id = x.store.view id) (Arriving fails x.store)
      (Runs.trace step x.launched e n) := by
  induction n with
  | zero =>
    obtain ⟨hlen, hview, harriving, _⟩ :=
      arriving_launches hsigned (fun hf => (hload hf).2) x.members.length (le_refl _)
    refine ⟨hview, fun s hs => ?_⟩
    obtain ⟨k, hk⟩ := List.mem_iff_getElem?.mp hs
    exact harriving k (hlen ▸ (List.getElem?_eq_some_iff.mp hk).1) s hk
  | succ n ih =>
    exact ih.next (fun s h => h.on ih.store)
      (fun s h => h.step (he n) (fun hf => (hload hf).1) fun hf => hfail hf n)
      (fun s h => h.view) id fun _ => id

/-- The app is launched on any number of devices of one user, and the reads
of all launches are served and delivered in any fair order.  If no read
fails, every view comes to show the stored habits when they can be loaded,
and every process ends when they cannot.  If reads fail, every view comes to
show some of the stored habits, each once and in the order of their
documents. -/
theorem launches_agree (x : Sessions) (hsigned : ∀ s ∈ x.members, s.signedIn = true)
    {e : ℕ → ℕ × Event} (he : ∀ n, (e n).2.waits = true) (hfair : Fair x.launched e) :
    let t := Runs.trace step x.launched e
    ((∀ n i, (e n).2 ≠ .fail i) → ∃ n, ∀ m, n ≤ m → ∀ s ∈ (t m).members,
      if x.store.Loadable then
        s.crashed = none ∧ s.pending = [] ∧ s.habitArray = x.store.loaded ∧
          s.shownRows = x.store.loaded.length
      else s.crashed = some .forcedCast) ∧
    (x.store.Loadable → 0 < x.store.user.habitCounter → ∃ n, ∀ m, n ≤ m → ∀ s ∈ (t m).members,
      s.crashed = none ∧ s.pending = [] ∧ s.habitArray.Sublist x.store.loaded ∧
        s.shownRows = s.habitArray.length) := by
  have hheld : ∀ st (s : State), (s.on st).held = s.held := fun _ _ => rfl
  obtain ⟨n, hidle⟩ := Runs.Pool.rests (x := x.launched) hheld
    (fun _ _ => State.work_eq_of_held)
    (fun n s => State.drains_step (Event.calls_of_waits (he n)) s) State.Busy hfair
  refine ⟨fun hfail => ⟨n, fun m hm s hs => ?_⟩, fun hload hcount => ⟨n, fun m hm s hs => ?_⟩⟩
  · have harriving : Arriving false x.store s :=
      (arriving_trace hsigned he (by simp) (fun _ => hfail) m).members s hs
    rcases harriving.shows (hidle m hm s hs) with ⟨hunloadable, hcrashed⟩ |
      ⟨hrunning, hpending, _, hshown, hall⟩
    · rwa [if_neg hunloadable]
    · obtain ⟨hload, hlist⟩ := hall rfl
      rw [if_pos hload]
      exact ⟨hrunning, hpending, hlist, by rw [hshown, hlist]⟩
  · have harriving : Arriving true x.store s :=
      (arriving_trace hsigned he (fun _ => ⟨hload, hcount⟩) (by simp) m).members s hs
    rcases harriving.shows (hidle m hm s hs) with ⟨hunloadable, _⟩ |
      ⟨hrunning, hpending, hsub, hshown, _⟩
    · exact absurd hload hunloadable
    · exact ⟨hrunning, hpending, hsub, hshown⟩

/-- A schedule on which all reads arrive and then the days pass. -/
theorem Fair.of_run {es : List (ℕ × Event)}
    (h : ∀ s ∈ (Runs.run step x es).members, s.pending = []) :
    Fair x fun n => es.getD n (0, .nextDay) := by
  have hbusy : ∀ x : Sessions, (∃ h ∈ x.heldAll State.held, State.Busy h) ↔
      ∃ s ∈ x.members, State.Busy s.held := by
    intro x
    simp [Runs.Pool.heldAll]
  have hidle : ∀ s : State, (HabitHive.step s .nextDay).held = s.held := by
    intro s
    by_cases hrunning : s.crashed = none <;> simp [State.held, HabitHive.step, handle, hrunning]
  refine fun n hn => Draining.fair_of_rest (Runs.Pool.heldAll State.held)
    (fun hs => ∃ h ∈ hs, State.Busy h) (fun x _ => ?_) ?_ n ((hbusy _).mpr hn)
  · exact Runs.Pool.heldAll_next (e := ((0 : ℕ), Event.nextDay))
      (fun st s => (rfl : (s.on st).held = s.held)) hidle x
  · rw [hbusy]
    rintro ⟨s, hs, hbusy⟩
    exact hbusy.2 (h s hs)

/-- The documents of two stored habits arrive on two devices, on the second
one after the first. -/
def bothArrive : List (ℕ × Event) := arrival.map (Prod.mk 0) ++ arrival.map (Prod.mk 1)

theorem launches_agree_two :
    let x : Sessions :=
      { store := .ofEntries [.sample 1, .sample 2]
        members := [State.launched .signUp, State.launched .signUp] }
    let t := Runs.trace step x.launched fun n => bothArrive.getD n (0, .nextDay)
    x.store.Loadable ∧
    ((∀ n i, (bothArrive.getD n (0, .nextDay)).2 ≠ .fail i) → ∃ n, ∀ m, n ≤ m →
      ∀ s ∈ (t m).members,
        if x.store.Loadable then
          s.crashed = none ∧ s.pending = [] ∧ s.habitArray = x.store.loaded ∧
            s.shownRows = x.store.loaded.length
        else s.crashed = some .forcedCast) ∧
    (x.store.Loadable → 0 < x.store.user.habitCounter → ∃ n, ∀ m, n ≤ m → ∀ s ∈ (t m).members,
      s.crashed = none ∧ s.pending = [] ∧ s.habitArray.Sublist x.store.loaded ∧
        s.shownRows = s.habitArray.length) := by
  intro x t
  have hwaits : ∀ n, (bothArrive.getD n (0, .nextDay)).2.waits = true
    | 0 | 1 | 2 | 3 | 4 | 5 | 6 | 7 | 8 | 9 | 10 | 11 | 12 | 13 | _ + 14 => rfl
  exact ⟨by decide, launches_agree x (by decide) hwaits (.of_run (by decide))⟩

end Sessions

end HabitHive
