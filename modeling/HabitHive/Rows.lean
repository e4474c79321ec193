import HabitHive.Effects

/-!
# Rows of the view

The user and the countdowns use rows that the collection view shows, and
five entry points index `habitArray` with them.  The view shows as many
rows as the list had at the last reload.

`ViewCurrent` is the invariant of all runs.  The view is up to date, except
after `fetchFirebaseHabits` has emptied the list: then it still shows the
old rows until the first document callback reloads it.  So an access is in
range exactly when its row is shown and the view is not stale, which is
`accesses_inRange_iff`.
-/

namespace HabitHive

open HabitCollection

/-- The row at which an entry point indexes `habitArray`. -/
def accessedRow (s : State) (e : Event) : Option Nat :=
  if s.crashed = none then
    match e with
    | .didSelectItemAt row _ | .handleLongPress row | .createTimeArray row _ _ | .showAlert row =>
        some row
    | .editHabit => s.indexPathGlobal
    | _ => none
  else none

/-- The accesses `habitArray[row]` of an event, with `habitArray.count`. -/
def accesses (s : State) (e : Event) : List (Nat × Nat) :=
  (accessedRow s e).toList.map fun row => (row, s.habitArray.length)

/-- The row is on the view, and the list has not been emptied since the view
was reloaded. -/
def RowShown (s : State) (e : Event) : Prop :=
  ∀ row, accessedRow s e = some row → row < s.shownRows ∧ s.viewStale = false

/-! ## The view -/

/-- The view shows the list, or the list was emptied since. -/
structure ViewCurrent (s : State) : Prop where
  current : s.viewStale = false → s.shownRows = s.habitArray.length
  emptied : s.viewStale = true → s.habitArray = []

namespace ViewCurrent

variable {s s' : State}

/-- A step that keeps the number of habits and the view. -/
theorem same (h : ViewCurrent s) (hlen : s'.habitArray.length = s.habitArray.length)
    (hshown : s'.shownRows = s.shownRows) (hstale : s'.viewStale = s.viewStale) :
    ViewCurrent s' where
  current hs := by
    rw [hshown, hlen]
    exact h.current (hstale ▸ hs)
  emptied hs := by
    have hnil := h.emptied (hstale ▸ hs)
    rw [hnil] at hlen
    exact List.eq_nil_of_length_eq_zero hlen

theorem reloadData (s : State) : ViewCurrent s.reloadData :=
  ⟨fun _ => rfl, fun h => by simp at h⟩

theorem fetchFirebaseHabits (s : State) : ViewCurrent (fetchFirebaseHabits s) :=
  ⟨fun h => by simp [HabitCollection.fetchFirebaseHabits] at h, fun _ => rfl⟩

theorem deleteHabit (h : ViewCurrent s) : ViewCurrent (deleteHabit s) := by
  rcases deleteHabit_cases s with ⟨f, _, hs⟩ | ⟨row, hglobal, hrow⟩
  · rw [hs]
    exact h.same rfl rfl rfl
  · rw [deleteHabit_eq hglobal hrow]
    refine ⟨fun hs => ?_, fun hs => ?_⟩
    · have hcurrent := h.current hs
      simp [hcurrent, List.length_eraseIdx, hrow]
    · rw [h.emptied hs] at hrow
      contradiction

theorem fetchCounterRead (h : ViewCurrent s) (document : Option Store) :
    ViewCurrent (fetchCounterRead document s) := by
  unfold HabitCollection.fetchCounterRead
  cases document <;> dsimp only <;> split_ifs <;> exact h.same rfl rfl rfl

theorem fetchHabitRead (h : ViewCurrent s) (n : Nat) (document : Option Store) :
    ViewCurrent (fetchHabitRead n document s) := by
  unfold HabitCollection.fetchHabitRead
  cases document with
  | none => exact reloadData _
  | some doc =>
    cases hread : doc.readHabit n with
    | none =>
      have hcrash : ViewCurrent (s.crash .forcedCast) := h.same rfl rfl rfl
      simpa [hread] using hcrash
    | some habit => simpa [hread] using reloadData _

theorem callback (h : ViewCurrent s) (cb : Callback) (document : Option Store) :
    ViewCurrent (cb.run document s) := by
  cases cb with
  | fetchCounter => exact h.fetchCounterRead document
  | fetchHabit n => exact h.fetchHabitRead n document
  | deleteDone =>
    simp only [Callback.run, deleteDone]
    split
    · exact h.same rfl rfl rfl
    · split <;> exact h.same rfl rfl rfl
  | counterDone => exact h.same rfl rfl rfl
  | fetch => exact fetchFirebaseHabits s
  | reload => exact reloadData s
  | addHabit c habit =>
    simp only [Callback.run, CreateHabit.addHabitRead]
    split <;> exact h.same rfl rfl rfl
  | finished row ident => cases document <;> exact h.same rfl rfl rfl

theorem viewWillAppear (h : ViewCurrent s) : ViewCurrent (viewWillAppear s) := by
  unfold HabitCollection.viewWillAppear
  dsimp only
  split_ifs
  · exact h.same (by simp) rfl rfl
  · exact h.same rfl rfl rfl
  · exact h

theorem didSelectItemAt (h : ViewCurrent s) (row : Nat) (menu : Bool) :
    ViewCurrent (didSelectItemAt row menu s) := by
  rcases didSelectItemAt_cases row menu s with ⟨_, hs⟩ | ⟨habit, _, ⟨_, hs⟩ | ⟨_, hs⟩⟩ <;> rw [hs]
  · exact h.same rfl rfl rfl
  · exact h.same rfl rfl rfl
  · exact h.same (by simp) rfl rfl

theorem screens (h : ViewCurrent s) (hscreens : ScreensOnly s s') : ViewCurrent s' :=
  h.same (congrArg List.length hscreens.habitArray) hscreens.shownRows hscreens.viewStale

/-- One event, of any kind. -/
theorem handle (h : ViewCurrent s) (e : Event) : ViewCurrent (handle s e) := by
  cases e with
  | relaunch => exact ⟨fun _ => rfl, fun _ => rfl⟩
  | nextDay => exact h.same rfl rfl rfl
  | viewDidLoad =>
    simp only [HabitHive.handle, viewDidLoad]
    split
    · exact (fetchFirebaseHabits s.reloadData).same rfl rfl rfl
    · exact h
  | viewWillAppear => exact h.viewWillAppear
  | fetchFirebaseHabits => exact fetchFirebaseHabits s
  | deleteHabit => exact h.deleteHabit
  | didSelectItemAt row menu => exact h.didSelectItemAt row menu
  | createTimeArray row ident time =>
    simp only [HabitHive.handle, createTimeArray, returnTimeArray]
    split <;> exact h.same (by simp) rfl rfl
  | showAlert row =>
    simp only [HabitHive.handle, showAlert]
    split <;> exact h.same (by simp) rfl rfl
  | addHabitButtonTapped c =>
    simp only [HabitHive.handle, CreateHabit.addHabitButtonTapped]
    split
    · exact h
    · split_ifs <;> exact h.same rfl rfl rfl
  | editConfirmed e =>
    rcases editConfirmed_cases e s with hscreens | ⟨form, color, row, hs⟩
    · exact h.screens hscreens
    · rw [HabitHive.handle, hs]
      exact h.same rfl rfl rfl
  | serve i =>
    simp only [HabitHive.handle]
    rcases serve_cases s i with hs | ⟨_, _, _, _, hs⟩ <;> rw [hs]
    · exact h
    · exact h.same rfl rfl rfl
  | deliver i =>
    simp only [HabitHive.handle]
    rcases deliver_cases s i with ⟨hs, _⟩ | ⟨p, _, _, hs⟩ <;> rw [hs]
    · exact h
    · have hdrop : ViewCurrent (s.dropPending i) := h.same rfl rfl rfl
      exact hdrop.callback p.callback p.snapshot
  | fail i =>
    simp only [HabitHive.handle]
    rcases fail_cases s i with hs | ⟨p, _, _, hs⟩ <;> rw [hs]
    · exact h
    · have hdrop : ViewCurrent (s.dropPending i) := h.same rfl rfl rfl
      exact hdrop.callback p.callback none
  | _ => exact h.screens (screensOnly_of_event rfl s)

theorem step (h : ViewCurrent s) (e : Event) : ViewCurrent (step s e) := by
  rw [HabitHive.step]
  split_ifs
  · exact h.handle e
  · exact ⟨fun _ => rfl, fun _ => rfl⟩
  · exact h

/-- Where the invariant holds, the rows in range are the rows shown on a
view that is not stale. -/
theorem inRange_iff (h : ViewCurrent s) (e : Event) :
    (∀ a ∈ accesses s e, a.1 < a.2) ↔ RowShown s e := by
  simp only [accesses, List.forall_mem_map, Option.mem_toList, RowShown]
  refine forall₂_congr fun row _ => ?_
  cases hs : s.viewStale
  · simp [h.current hs]
  · simp [h.emptied hs]

end ViewCurrent

/-- In every run from the start of a process, every access of a row is in
range exactly when each entry point runs for a row that is shown, on a view
that was reloaded since `fetchFirebaseHabits` last emptied the list. -/
theorem accesses_inRange_iff (s : State) (es : List Event) :
    (∀ a ∈ Runs.observe step accesses s.started es, a.1 < a.2) ↔
      Runs.Guarded step RowShown s.started es := by
  rw [Runs.forall_mem_observe]
  exact Runs.guarded_congr (I := ViewCurrent) (fun _ e h _ _ => h.step e)
    (fun _ e h _ => h.inRange_iff e) (Runs.guarded_true s.started es) ⟨fun _ => rfl, fun _ => rfl⟩

/-- A tap on the one row that is shown, right after a refresh has emptied
the list. -/
theorem tap_during_refresh_outOfRange :
    let s := State.launched (Store.ofFields [(Entry.sample 1).fields])
    let loaded : List Event :=
      [.fetchFirebaseHabits, .serve 0, .deliver 0, .serve 0, .deliver 0]
    let es := loaded ++ [.fetchFirebaseHabits, .didSelectItemAt 0 false]
    s.started.crashed = none ∧ (run s.started (loaded ++ [.fetchFirebaseHabits])).shownRows = 1 ∧
      Runs.observe step accesses s.started es = [(0, 0)] ∧
      ¬(∀ a ∈ Runs.observe step accesses s.started es, a.1 < a.2) ∧
      (run s.started es).crashed = some .indexOutOfRange := by
  decide

end HabitHive
