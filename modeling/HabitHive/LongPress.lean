import HabitHive.CellTime
import HabitHive.Layout

/-!
# A long press and the remaining time

A long press on the cell of a timed habit stops a countdown, also where
none is running, and stopping stores the hour, minute and second that the
cell holds.  They are the remaining time only if a read of this habit has
set them: a cell whose read is still in flight or has failed holds zeros or
the time of the habit it showed before, and for a finished habit there is no
read.

`longPress_keeps_time_iff` says when the stored time stays.
-/

namespace HabitHive.Screen

/-- The remaining times, in the documents and in the list, are the same. -/
structure TimeKept (x y : Screen) : Prop where
  documents : ∀ k, (y.session.store.habits k).map (·.fields.timeArray) =
    (x.session.store.habits k).map (·.fields.timeArray)
  list : y.session.habitArray.map Habit.time = x.session.habitArray.map Habit.time

theorem TimeKept.refl (x : Screen) : TimeKept x x := ⟨fun _ => rfl, rfl⟩

/-- The array is read as the time that the cell holds, and has the digits of
this time. -/
def Holds (cell : Cell) (result : List Int) : Prop :=
  arrayTime result = some cell.time ∧ Canonical result

instance (cell : Cell) (result : List Int) : Decidable (Holds cell result) :=
  inferInstanceAs (Decidable (_ ∧ _))

theorem holds_iff (cell : Cell) (result : List Int) :
    Holds cell result ↔ cell.createdArray = result := (cell.createdArray_eq_iff result).symm

/-- The cell holds the remaining time of row `r`, as it is stored and as it
is in the list. -/
def HoldsTime (r : Nat) (cell : Cell) (x : Screen) : Prop :=
  (∀ doc ∈ x.session.store.habits r, ∃ result ∈ doc.fields.timeArray, Holds cell result) ∧
    ∀ habit ∈ x.session.habitArray[r]?, Holds cell habit.time

section Stop

variable {x : Screen} {r c : Nat} {habit : Habit}

/-- A long press that is not ignored stores the array that the cell builds. -/
theorem longPress_session (hrunning : x.session.crashed = none) (hshown : x.cellForItem r = some c)
    (hrow : x.session.habitArray[r]? = some habit) (htimed : habit.counted = false)
    (hpress : (x.cells c).running = false) :
    (x.step (.handleLongPress r)).session.store =
        x.session.store.apply (.updateHabit r { timeArray := some (x.cells c).createdArray }
          ((x.shownIdent c).getD 0)) ∧
      (x.step (.handleLongPress r)).session.habitArray =
        x.session.habitArray.set r { habit with time := (x.cells c).createdArray } := by
  obtain ⟨hlt, rfl⟩ := List.getElem?_eq_some_iff.mp hrow
  rw [step, if_pos hrunning, handle, handleLongPress_of_row x c r hshown hpress hrow,
    if_neg (by simp [htimed])]
  simp [stop, opened, HabitCollection.createTimeArray, HabitCollection.returnTimeArray,
    HabitCollection.handleLongPress, shownIdent, Cell.setMenu, Cell.createdArray, hlt]

/-- The update keeps the time of every document exactly when the document of
the row has it already. -/
theorem documents_kept_iff (st : Store) (result : List Int) (ident : Nat) :
    (∀ k, ((st.apply (.updateHabit r { timeArray := some result } ident)).habits k).map
        (·.fields.timeArray) = (st.habits k).map (·.fields.timeArray)) ↔
      ∀ doc ∈ st.habits r, doc.fields.timeArray = some result := by
  constructor
  · intro h doc hdoc
    have hr := h r
    rw [Store.apply_updateHabit_habits, if_pos rfl, Option.mem_def.mp hdoc] at hr
    simpa [HabitFields.merge] using hr.symm
  · intro h k
    rw [Store.apply_updateHabit_habits]
    split
    · next hk =>
      subst hk
      cases hdoc : st.habits k with
      | none => rfl
      | some doc => simp [HabitFields.merge, h doc hdoc]
    · rfl

theorem list_kept_iff {hs : List Habit} (hrow : hs[r]? = some habit) (result : List Int) :
    (hs.set r { habit with time := result }).map Habit.time = hs.map Habit.time ↔
      habit.time = result := by
  constructor
  · intro h
    have hr := congrArg (·[r]?) h
    obtain ⟨hlt, _⟩ := List.getElem?_eq_some_iff.mp hrow
    simp only [List.getElem?_map, List.getElem?_set_self hlt, hrow, Option.map_some,
      Option.some.injEq] at hr
    exact hr.symm
  · intro h
    exact map_set_of_eq Habit.time hrow h.symm

end Stop

/-- A long press on the cell of a timed habit leaves all remaining times as
they were exactly when it is ignored, because the cell takes its countdown
for running, or the cell holds the remaining time of its row. -/
theorem longPress_keeps_time_iff {x : Screen} {r c : Nat} {habit : Habit}
    (hrunning : x.session.crashed = none) (hshown : x.cellForItem r = some c)
    (hrow : x.session.habitArray[r]? = some habit) (htimed : habit.counted = false) :
    TimeKept x (x.step (.handleLongPress r)) ↔
      (x.cells c).running = true ∨ HoldsTime r (x.cells c) x := by
  cases hpress : (x.cells c).running with
  | true =>
    have hsame : x.step (.handleLongPress r) = x := by
      rw [step, if_pos hrunning, handle, handleLongPress_of_running]
      rintro c' hc'
      rwa [Option.some.inj (hc'.symm.trans hshown)]
    simpa [hsame] using TimeKept.refl x
  | false =>
    obtain ⟨hstore, hlist⟩ := longPress_session hrunning hshown hrow htimed hpress
    have hdocuments : (∀ doc ∈ x.session.store.habits r,
          doc.fields.timeArray = some (x.cells c).createdArray) ↔
        ∀ doc ∈ x.session.store.habits r, ∃ result ∈ doc.fields.timeArray,
          Holds (x.cells c) result := by
      simp only [holds_iff, Option.mem_def, exists_eq_right']
    have htime : (∀ habit ∈ x.session.habitArray[r]?, Holds (x.cells c) habit.time) ↔
        habit.time = (x.cells c).createdArray := by
      simp only [holds_iff, hrow, Option.mem_def, Option.some.injEq, forall_eq', eq_comm]
    rw [or_iff_right (by simp), HoldsTime, ← hdocuments, htime, ← documents_kept_iff,
      ← list_kept_iff hrow, ← hstore, ← hlist]
    exact ⟨fun h => ⟨h.documents, h.list⟩, fun h => ⟨h.1, h.2⟩⟩

/-- The read of a new cell is still in flight: ten minutes become zero. -/
theorem longPress_before_read :
    let x := loaded account
    x.session.crashed = none ∧ x.cellForItem 0 = some 0 ∧ ¬Live 0 x ∧
      (x.session.habitArray[0]?.map Habit.time) = some [0, 0, 1, 0, 0, 0] ∧
      ((x.step (.handleLongPress 0)).session.habitArray[0]?.map Habit.time) =
        some [0, 0, 0, 0, 0, 0] ∧
      ¬TimeKept x (x.step (.handleLongPress 0)) := by
  refine ⟨by decide +kernel, by decide +kernel, by decide +kernel, by decide +kernel,
    by decide +kernel, fun h => ?_⟩
  exact absurd h.list (by decide +kernel)

/-- The same press after the read has come back. -/
theorem longPress_keeps_time_iff_read :
    let x := (loaded account).run (arrivals 2 0)
    TimeKept x (x.step (.handleLongPress 0)) ↔
      (x.cells 0).running = true ∨ HoldsTime 0 (x.cells 0) x :=
  longPress_keeps_time_iff (by decide +kernel) (by decide +kernel)
    (show ((loaded account).run (arrivals 2 0)).session.habitArray[0]? =
      some ((Entry.timed [0, 0, 1, 0, 0, 0]).toHabit 0 0) by decide +kernel) (by decide)

end HabitHive.Screen
