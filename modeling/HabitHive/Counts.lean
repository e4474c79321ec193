import HabitHive.Ranges

/-!
# Counts and goals

A tap counts up to the goal that the list knows, and writes the count alone.
The document can have another goal by then: an edit changes it in the
document, and the list follows with the next refresh.  A count above the goal
is never reset by taps, since a tap does nothing unless the count is at most
the goal, so that the habit cannot be completed on that day.

`counts_fit_iff` says that this is the only way to such a count.
-/

namespace HabitHive

open HabitCollection

/-! ## Documents -/

/-- The count among the fields is at most the goal. -/
def HabitFields.Fits (f : HabitFields) : Prop :=
  ∀ count ∈ f.currentCount, ∀ goal ∈ f.goal, count ≤ goal

def Store.Fits (st : Store) : Prop := ∀ k, ∀ doc ∈ st.habits k, doc.fields.Fits

def Habit.Fits (h : Habit) : Prop := h.currentCount ≤ h.goal

/-- After this write the document fits, if it did before. -/
def Write.Fits : Write → Prop
  | .setHabit _ doc => doc.fields.Fits
  | .updateHabit _ fields _ => ∀ old : HabitFields, old.Fits → (old.merge fields).Fits
  | .updateUser _ | .deleteHabit _ => True

/-- Fields without count and goal. -/
theorem HabitFields.Fits.merge_of_none {old new : HabitFields} (h : old.Fits)
    (hcount : new.currentCount = none) (hgoal : new.goal = none) : (old.merge new).Fits := by
  intro count hc goal hg
  refine h count ?_ goal ?_
  · simpa [HabitFields.merge, hcount] using hc
  · simpa [HabitFields.merge, hgoal] using hg

/-- Fields with both. -/
theorem HabitFields.fits_merge_of_some {old new : HabitFields} {count goal : Int}
    (hcount : new.currentCount = some count) (hgoal : new.goal = some goal) (hle : count ≤ goal) :
    (old.merge new).Fits := by
  intro count' hc goal' hg
  obtain rfl : count = count' := by simpa [HabitFields.merge, hcount] using hc
  obtain rfl : goal = goal' := by simpa [HabitFields.merge, hgoal] using hg
  exact hle

namespace Store.Fits

variable {st : Store}

theorem apply (h : st.Fits) {w : Write} (hw : w.Fits) : (st.apply w).Fits := by
  intro k doc hdoc
  cases w with
  | updateUser fields => exact h k doc hdoc
  | setHabit n new =>
    rw [Option.mem_def, Store.apply_setHabit_habits] at hdoc
    split at hdoc
    · rw [← Option.some.inj hdoc]
      exact hw
    · exact h k doc hdoc
  | updateHabit n fields ident =>
    rw [Option.mem_def, Store.apply_updateHabit_habits] at hdoc
    split at hdoc
    · obtain ⟨old, hold, rfl⟩ := Option.map_eq_some_iff.mp hdoc
      exact hw _ (h n old hold)
    · exact h k doc hdoc
  | deleteHabit n =>
    rw [Option.mem_def, Store.apply_deleteHabit_habits] at hdoc
    split at hdoc
    · contradiction
    · exact h k doc hdoc

theorem applyAll (h : st.Fits) {ws : List Write} (hws : ∀ w ∈ ws, w.Fits) :
    (st.applyAll ws).Fits := by
  induction ws generalizing st with
  | nil => exact h
  | cons w ws ih => exact ih (h.apply (hws w (by simp))) fun w' hw' => hws w' (by simp [hw'])

theorem readHabit (h : st.Fits) {n : Nat} {habit : Habit} (hread : st.readHabit n = some habit) :
    habit.Fits := by
  rw [Store.readHabit, Habit.ofDocument_eq] at hread
  obtain ⟨doc, hdoc, hhabit⟩ := Option.bind_eq_some_iff.mp hread
  obtain ⟨entry, hentry, rfl⟩ := Option.map_eq_some_iff.mp hhabit
  have hfields := h n doc hdoc
  rw [HabitFields.decode_eq_some.mp hentry] at hfields
  exact hfields _ rfl _ rfl

/-- A count that is written alone has to fit the goal of the document. -/
theorem apply_count_iff (h : st.Fits) (n : Nat) (count : Int) (ident : Nat) :
    (st.apply (.updateHabit n { currentCount := some count } ident)).Fits ↔
      ∀ doc ∈ st.habits n, ∀ goal ∈ doc.fields.goal, count ≤ goal := by
  constructor
  · intro hfits doc hdoc goal hgoal
    refine hfits n { doc with fields := doc.fields.merge { currentCount := some count } }
      ?_ count rfl
      goal hgoal
    rw [Option.mem_def, Store.apply_updateHabit_habits, if_pos rfl, Option.mem_def.mp hdoc]
    rfl
  · intro hle k doc hdoc
    rw [Option.mem_def, Store.apply_updateHabit_habits] at hdoc
    split at hdoc
    · obtain ⟨old, hold, rfl⟩ := Option.map_eq_some_iff.mp hdoc
      intro count' hcount goal hgoal
      rw [← Option.some.inj hcount]
      exact hle old hold goal hgoal
    · exact h k doc hdoc

end Store.Fits

/-! ## Sessions -/

/-- Values with goals that are not negative. -/
def goals : Values where
  typed _ := True
  name _ := True
  color _ := True
  goal goal := 0 ≤ goal
  count _ := True
  streak _ := True

theorem goals_closed : goals.Closed := by
  constructor <;> simp [goals]

/-- No count is above its goal, in the documents, in the list and in the
reads in flight. -/
structure CountsFit (s : State) : Prop where
  store : s.store.Fits
  list : ∀ h ∈ s.habitArray, h.Fits
  reads : ∀ p ∈ s.pending, ∀ st ∈ p.snapshot, st.Fits
  goals : Holds goals s

/-- A tap that is counted finds a document whose goal is above the count of
the list. -/
def TapFits (s : State) : Event → Prop
  | .didSelectItemAt row menu => ∀ habit ∈ s.habitArray[row]?, accepts menu habit = true →
      habit.currentCount < habit.goal → ∀ doc ∈ s.store.habits row, ∀ goal ∈ doc.fields.goal,
        habit.currentCount < goal
  | _ => True

/-- The counts that are stored and listed are at most their goals. -/
def Fitting (s : State) : Prop := s.store.Fits ∧ ∀ h ∈ s.habitArray, h.Fits

namespace CountsFit

variable {s s' : State} {e : Event}

theorem launched {st : Store} (hst : st.Fits) (hgoals : st.Within HabitHive.goals) :
    CountsFit (State.launched st) where
  store := hst
  list := by simp [State.launched]
  reads := by simp [State.launched]
  goals := .fresh hgoals rfl rfl rfl rfl trivial

/-- The writes of an event other than a tap. -/
theorem issues (h : CountsFit s) (htap : ∀ row menu, e ≠ .didSelectItemAt row menu) {w : Write}
    (hissues : Issues s e w) : w.Fits := by
  cases hissues with
  | user fields => trivial
  | delete n => trivial
  | @list habit n hmem =>
    intro count hcount goal hgoal
    rw [← Option.some.inj hcount, ← Option.some.inj hgoal]
    exact h.list habit hmem
  | create n time hmem hcb =>
    intro count hcount goal hgoal
    rw [← Option.some.inj hcount, ← Option.some.inj hgoal]
    exact (h.goals.creates _ hmem _ _ hcb).2.2
  | @reset habit n he hmem =>
    exact fun old _ => HabitFields.fits_merge_of_some rfl rfl (h.goals.list habit hmem).goal
  | tap he => exact absurd he (htap _ _)
  | edit he hform hname hlength hcolor =>
    exact fun old _ => HabitFields.fits_merge_of_some rfl rfl
      (h.goals.editing _ (List.mem_of_getElem? hform)).2.1
  | time row ident time => exact fun old hold => hold.merge_of_none rfl rfl
  | finish row ident => exact fun old hold => hold.merge_of_none rfl rfl

/-- A tap counts up to the goal that the list knows. -/
theorem leaves (h : CountsFit s) {habit : Habit} (hleaves : Leaves s e habit) : habit.Fits := by
  cases hleaves with
  | same hmem => exact h.list habit hmem
  | reset he hmem => exact (h.goals.list _ hmem).goal
  | @tapped old hmem =>
    have hold := h.list old hmem
    have hincremented : old.incremented.Fits := by
      rw [Habit.incremented]
      split
      · next hlt => exact Int.add_one_le_of_lt hlt
      · exact hold
    rw [Habit.tapped]
    split
    · exact hincremented
    · exact hincremented
  | @time old time hmem => exact h.list old hmem
  | @finish old hmem => exact h.list old hmem
  | read hmem hst hread => exact (h.reads _ hmem _ hst).readHabit hread

/-- The documents after a tap. -/
theorem tap_iff (h : CountsFit s) (row : Nat) (menu : Bool) :
    (didSelectItemAt row menu s).store.Fits ↔ TapFits s (.didSelectItemAt row menu) := by
  rcases didSelectItemAt_cases row menu s with
    ⟨hrow, hs⟩ | ⟨habit, hrow, ⟨haccepts, hs⟩ | ⟨haccepts, hs⟩⟩
  · rw [hs]
    exact iff_of_true h.store (by simp [TapFits, hrow])
  · rw [hs]
    exact iff_of_true h.store (by simp [TapFits, hrow, haccepts])
  · by_cases hlt : habit.currentCount < habit.goal
    · have hstore : (didSelectItemAt row menu s).store = s.store.apply
          (.updateHabit row { currentCount := some (habit.currentCount + 1) } habit.ident) := by
        simp [hs, tapWrites, hlt]
      rw [hstore, h.store.apply_count_iff]
      simp only [Int.add_one_le_iff]
      simp [TapFits, hrow, haccepts, hlt]
    · have hstore : (didSelectItemAt row menu s).store = s.store := by simp [hs, tapWrites, hlt]
      rw [hstore]
      exact iff_of_true h.store (by simp [TapFits, hrow, hlt])

theorem step (h : CountsFit s) (hrunning : s.crashed = none) (he : e.Enters HabitHive.goals)
    (hok : TapFits s e) : CountsFit (step s e) := by
  have ho := origins_step s e
  refine ⟨?_, fun habit hmem => h.leaves (ho.list habit hmem), fun p hp st hst => ?_,
    h.goals.step goals_closed he fun _ _ _ => trivial⟩
  · by_cases htap : ∃ row menu, e = .didSelectItemAt row menu
    · obtain ⟨row, menu, rfl⟩ := htap
      rw [step_of_running hrunning]
      exact (h.tap_iff row menu).mpr hok
    · push Not at htap
      obtain ⟨ws, hstore, _, hws⟩ := ho.writes
      rw [hstore]
      exact h.store.applyAll fun w hw => h.issues htap (hws w hw)
  · rcases ho.reads p hp st hst with ⟨q, hq, hst⟩ | rfl
    · exact h.reads q hq st hst
    · exact h.store

/-- A process that has ended takes no tap. -/
theorem step_of_crashed (h : CountsFit s) (hcrashed : s.crashed ≠ none) (e : Event) :
    CountsFit (HabitHive.step s e) := by
  rw [HabitHive.step, if_neg hcrashed]
  split
  · exact ⟨h.store, by simp [State.relaunch], by simp [State.relaunch],
      .fresh h.goals.store rfl rfl rfl rfl trivial⟩
  · exact h

end CountsFit

/-- The count of a habit is at most its goal at every moment of a run, stored
and listed, exactly if every tap that is counted finds a document whose goal
is above the count of the list.  All events are allowed, in any order. -/
theorem counts_fit_iff {st : Store} (hst : st.Fits) (hgoals : st.Within goals) {es : List Event}
    (hes : ∀ e ∈ es, e.Enters goals) :
    Runs.Always step Fitting (State.launched st) es ↔
      Runs.Guarded step (fun s e => s.crashed = none → TapFits s e) (State.launched st) es := by
  refine Runs.always_iff_of_exact (I := CountsFit)
    (fun s h => ⟨h.store, h.list⟩) (fun s e h (he : True ∧ e.Enters goals) hok => ?_)
    (fun s e h _ hfit hrunning => ?_) ((Runs.guarded_true _ es).and_forall hes)
    (.launched hst hgoals)
  · by_cases hrunning : s.crashed = none
    · exact h.step hrunning he.2 (hok hrunning)
    · exact h.step_of_crashed hrunning e
  · cases e with
    | didSelectItemAt row menu =>
      rw [step_of_running hrunning] at hfit
      exact (h.tap_iff row menu).mp hfit.1
    | _ => trivial

/-- A habit with goal 2 is created, loaded and tapped twice. -/
def createAndTap : List Event :=
  [.addButtonTapped, .createAmount 0 2, .createName 0 ["w"], .addHabitButtonTapped 0, .serve 0,
    .deliver 0, .deliver 0, .serve 0, .deliver 0, .serve 0, .deliver 0, .didSelectItemAt 0 false,
    .didSelectItemAt 0 false]

theorem counts_fit_iff_two :
    Runs.Always step Fitting (State.launched .signUp) createAndTap ↔
      Runs.Guarded step (fun s e => s.crashed = none → TapFits s e) (State.launched .signUp)
        createAndTap :=
  counts_fit_iff (by simp [Store.Fits, Store.signUp]) (by simp [Store.Within, Store.signUp])
    fun e he => by
      simp only [createAndTap, List.mem_cons, List.not_mem_nil, or_false] at he
      rcases he with rfl | rfl | rfl | rfl | rfl | rfl | rfl | rfl | rfl | rfl | rfl | rfl | rfl <;>
        simp [Event.Enters, goals]

/-- A refresh is under way when the goal of the habit is changed from 3 to 1:
the list shows the old goal, and two taps count to 2. -/
example :
    let es : List Event := [.fetchFirebaseHabits, .serve 0, .deliver 0, .serve 0, .deliver 0,
      .didSelectItemAt 0 false, .handleLongPress 0, .editHabit, .editAmount 0 1,
      .fetchFirebaseHabits, .serve 0, .deliver 0, .serve 0, .editConfirmed 0,
        .deliver 1, .deliver 0,
      .didSelectItemAt 0 false]
    ((run (.launched (.ofEntries [.sample 3])) es).store.habits 0).map
      (fun doc => (doc.fields.currentCount, doc.fields.goal)) = some (some 2, some 1) := by
  decide

end HabitHive
