import HabitHive.Effects
import HabitHive.Model.Screen

/-!
# What the methods of a cell change

One lemma for each method and each part of the screen: the cells, the
timers, the calls in flight and the list.
-/

namespace HabitHive.Screen

variable (x : Screen) (c row : Nat)

/-- A view of the cells that a change of one of them keeps. -/
theorem setCell_view {α : Type} (view : Cell → α) {cell : Cell} (h : view cell = view (x.cells c))
    (d : Nat) : view ((x.setCell c cell).cells d) = view (x.cells d) := by
  rw [setCell_cells]
  by_cases hd : d = c
  · rw [hd, Function.update_self, h]
  · rw [Function.update_of_ne hd]

/-! ## `configure` -/

/-- The cell that `configure` leaves. -/
def configured (habit : Habit) (cell : Cell) : Cell :=
  { cell with habitCell := some habit }.setMenu true

/-- `configure` sets up the cell, and then reads its time or ends the
process. -/
theorem configure_cases (habit : Habit) :
    let y := x.setCell c (configured habit (x.cells c))
    (habit.counted = true ∨ habit.addFirebase = false) ∧ x.configure c habit = y ∨
      habit.addFirebase = true ∧ habit.counted = false ∧
        (∃ row, (x.cells c).indexPathCell = some row ∧
          x.configure c habit = y.fetchTimeFromFirebase c row false) ∨
      ∃ f, x.configure c habit = y.crash f := by
  unfold configure
  dsimp only
  split
  · next hadd =>
    split
    · next hcounted => exact Or.inl ⟨Or.inl hcounted, rfl⟩
    · next hcounted =>
      cases hrow : (x.cells c).indexPathCell with
      | none => exact Or.inr (Or.inr ⟨.nilUnwrap, by simp [Cell.setMenu, hrow, configured]⟩)
      | some row =>
        refine Or.inr (Or.inl ⟨hadd, Bool.eq_false_of_not_eq_true hcounted, row, rfl, ?_⟩)
        simp [Cell.setMenu, hrow, configured]
  · next hadd =>
    split
    · exact Or.inr (Or.inr ⟨.indexOutOfRange, rfl⟩)
    · exact Or.inl ⟨Or.inr (Bool.eq_false_of_not_eq_true hadd), rfl⟩

section Configure

variable (habit : Habit)

/-- When `configure` does not end the process. -/
theorem configure_session
    (h : habit.counted = true ∨
      habit.addFirebase = true ∧ (∃ row, (x.cells c).indexPathCell = some row) ∨
      habit.addFirebase = false ∧ 6 ≤ (x.cells c).originalTimerArray.length) :
    (x.configure c habit).session = x.session := by
  unfold configure
  rcases h with hcounted | ⟨hadd, row, hrow⟩ | ⟨hadd, hlen⟩
  · cases hadd : habit.addFirebase <;> simp [hcounted]
  · cases hcounted : habit.counted <;> simp [hadd, hrow, Cell.setMenu]
  · simp [hadd, Nat.not_lt.mpr hlen, Cell.setMenu]

theorem configure_counted (h : habit.counted = true) :
    x.configure c habit = x.setCell c (configured habit (x.cells c)) := by
  unfold configure
  cases hadd : habit.addFirebase <;> simp [h, configured]

@[simp] theorem configure_cells :
    (x.configure c habit).cells = Function.update x.cells c (configured habit (x.cells c)) := by
  rcases configure_cases x c habit with ⟨_, h⟩ | ⟨_, _, _, _, h⟩ | ⟨_, h⟩ <;> rw [h] <;> rfl

@[simp] theorem configure_timers : (x.configure c habit).timers = x.timers := by
  rcases configure_cases x c habit with ⟨_, h⟩ | ⟨_, _, _, _, h⟩ | ⟨_, h⟩ <;> rw [h] <;> rfl

@[simp] theorem configure_timerArray : (x.configure c habit).timerArray = x.timerArray := by
  rcases configure_cases x c habit with ⟨_, h⟩ | ⟨_, _, _, _, h⟩ | ⟨_, h⟩ <;> rw [h] <;> rfl

@[simp] theorem configure_blocks : (x.configure c habit).blocks = x.blocks := by
  rcases configure_cases x c habit with ⟨_, h⟩ | ⟨_, _, _, _, h⟩ | ⟨_, h⟩ <;> rw [h] <;> rfl

@[simp] theorem configure_shown : (x.configure c habit).shown = x.shown := by
  rcases configure_cases x c habit with ⟨_, h⟩ | ⟨_, _, _, _, h⟩ | ⟨_, h⟩ <;> rw [h] <;> rfl

@[simp] theorem configure_habitArray :
    (x.configure c habit).session.habitArray = x.session.habitArray := by
  rcases configure_cases x c habit with ⟨_, h⟩ | ⟨_, _, _, _, h⟩ | ⟨_, h⟩ <;> rw [h] <;> rfl

end Configure

/-! ## Start and stop -/

/-- The cell that a start leaves. -/
def started (cell : Cell) : Cell := { cell with startVar := true, timerRunning := some true }

/-- The cell that a stop leaves. -/
def stopped (cell : Cell) : Cell :=
  { cell with
    startVar := false
    timeArray := cell.createdArray
    timerRunning := some false }

theorem createTimeArray_of_row {s : State} {row : Nat} {habit : Habit}
    (h : s.habitArray[row]? = some habit) (ident : Nat) (time : List Int) :
    HabitCollection.createTimeArray row ident time s =
      (s.write (.updateHabit row { timeArray := some time } ident)).setRow row
        { habit with time } := by
  simp [HabitCollection.createTimeArray, HabitCollection.returnTimeArray, h]

/-- The screen that a stop leaves. -/
def stop : Screen :=
  { (x.invalidate (x.cells c).timer.toList).setCell c (stopped (x.cells c)) with
    session := HabitCollection.createTimeArray row ((x.shownIdent c).getD 0)
      (x.cells c).createdArray x.session }

theorem startCountdown_true :
    x.startCountdown c row true =
      (x.setCell c (started (x.cells c))).fetchTimeFromFirebase c row true := by
  simp [startCountdown, started, setCell]

theorem startCountdown_false : x.startCountdown c row false = x.stop c row := by
  simp [startCountdown, stop, stopped, createTimeArray, setCell, invalidate, shownIdent,
    Cell.createdArray]

/-- A stop stores the array of the cell, in the document and in the list. -/
theorem stop_session {habit : Habit} (h : x.session.habitArray[row]? = some habit) :
    (x.stop c row).session = (x.session.write
      (.updateHabit row { timeArray := some (x.cells c).createdArray }
        ((x.shownIdent c).getD 0))).setRow row { habit with time := (x.cells c).createdArray } :=
  createTimeArray_of_row h _ _

/-! ## `cellForItemAt` -/

section InvalidateAll

@[simp] theorem invalidateAll_session : x.invalidateAll.session = x.session := by
  unfold invalidateAll
  split <;> rfl

@[simp] theorem invalidateAll_cells : x.invalidateAll.cells = x.cells := by
  unfold invalidateAll
  split <;> rfl

@[simp] theorem invalidateAll_nextTimer : x.invalidateAll.nextTimer = x.nextTimer := by
  unfold invalidateAll
  split <;> rfl

@[simp] theorem invalidateAll_reads : x.invalidateAll.reads = x.reads := by
  unfold invalidateAll
  split <;> rfl

@[simp] theorem invalidateAll_blocks : x.invalidateAll.blocks = x.blocks := by
  unfold invalidateAll
  split <;> rfl

theorem invalidateAll_timers : x.invalidateAll.timers =
    if x.timerArray.length > 1 then x.timers.filter fun t => t.id ∉ x.timerArray else x.timers := by
  unfold invalidateAll
  split <;> rfl

/-- What the cleanup stops depends on the timers alone. -/
theorem invalidateAll_congr {x y : Screen} (htimers : y.timers = x.timers)
    (harray : y.timerArray = x.timerArray) : y.invalidateAll.timers = x.invalidateAll.timers := by
  rw [invalidateAll_timers, invalidateAll_timers, htimers, harray]

end InvalidateAll

/-- The cell that `cellForItemAt` sets up for a row, before `configure`. -/
def laidOut (habit : Habit) (cell : Cell) : Cell :=
  { cell with
    indexPathCell := some row
    originalTimerArray := habit.timeOriginal
    counted := some habit.counted }

/-- The object `c` shows `row`. -/
def place : Screen :=
  { x.invalidateAll with shown := (row, c) :: x.shown.filter fun p => p.1 ≠ row }

theorem cellForItemAt_of_row {habit : Habit} (h : x.session.habitArray[row]? = some habit) :
    x.cellForItemAt row c =
      ((x.place c row).setCell c (laidOut row habit (x.cells c))).configure c habit := by
  simp [cellForItemAt, place, laidOut, h]

theorem cellForItemAt_of_none (h : x.session.habitArray[row]? = none) :
    x.cellForItemAt row c = (x.place c row).crash .indexOutOfRange := by
  simp [cellForItemAt, place, h]

section Reload

@[simp] theorem cellForItemAt_habitArray :
    (x.cellForItemAt row c).session.habitArray = x.session.habitArray := by
  cases hrow : x.session.habitArray[row]? with
  | none => simp [cellForItemAt_of_none x c row hrow, place]
  | some habit => simp [cellForItemAt_of_row x c row hrow, place]

@[simp] theorem cellForItemAt_shown :
    (x.cellForItemAt row c).shown = (row, c) :: x.shown.filter fun p => p.1 ≠ row := by
  cases hrow : x.session.habitArray[row]? with
  | none => simp [cellForItemAt_of_none x c row hrow, place]
  | some habit => simp [cellForItemAt_of_row x c row hrow, place]

@[simp] theorem cellForItemAt_timers : (x.cellForItemAt row c).timers = x.invalidateAll.timers := by
  cases hrow : x.session.habitArray[row]? with
  | none => simp [cellForItemAt_of_none x c row hrow, place]
  | some habit => simp [cellForItemAt_of_row x c row hrow, place]

@[simp] theorem cellForItemAt_timerArray :
    (x.cellForItemAt row c).timerArray = x.invalidateAll.timerArray := by
  cases hrow : x.session.habitArray[row]? with
  | none => simp [cellForItemAt_of_none x c row hrow, place]
  | some habit => simp [cellForItemAt_of_row x c row hrow, place]

theorem cellForItemAt_of_ne {d : Nat} (h : d ≠ c) :
    (x.cellForItemAt row c).cells d = x.cells d := by
  cases hrow : x.session.habitArray[row]? with
  | none => simp [cellForItemAt_of_none x c row hrow, place]
  | some habit => simp [cellForItemAt_of_row x c row hrow, place, Function.update_of_ne h]

/-- The cell after a reload. -/
theorem cellForItemAt_cell {habit : Habit} (h : x.session.habitArray[row]? = some habit) :
    (x.cellForItemAt row c).cells c = configured habit (laidOut row habit (x.cells c)) := by
  simp [cellForItemAt_of_row x c row h]

/-- A reload for a counted habit issues no read. -/
theorem cellForItemAt_counted {habit : Habit} (h : x.session.habitArray[row]? = some habit)
    (hcounted : habit.counted = true) :
    (x.cellForItemAt row c).session = x.session ∧ (x.cellForItemAt row c).reads = x.reads := by
  rw [cellForItemAt_of_row x c row h, configure_counted _ c habit hcounted]
  simp [place, setCell]

/-- A reload reads the time of a timed habit that is not finished, or the
process ends. -/
theorem cellForItemAt_reads {habit : Habit} (h : x.session.habitArray[row]? = some habit) :
    (habit.counted = true ∨ habit.addFirebase = false) ∧
        (x.cellForItemAt row c).reads = x.reads ∨
      (x.cellForItemAt row c).reads =
        x.reads ++ [{ cell := c, row, start := false, ident := some habit.ident }] ∨
      (x.cellForItemAt row c).session.crashed ≠ none := by
  rw [cellForItemAt_of_row x c row h]
  generalize hy : (x.place c row).setCell c (laidOut row habit (x.cells c)) = y
  have hreads : y.reads = x.reads := by
    rw [← hy]
    simp [place]
  have hindex : (y.cells c).indexPathCell = some row := by
    rw [← hy]
    simp [laidOut]
  rcases configure_cases y c habit with ⟨hkind, heq⟩ | ⟨_, _, row', hrow', heq⟩ | ⟨f, heq⟩
  · exact Or.inl ⟨hkind, by rw [heq, setCell_reads, hreads]⟩
  · obtain rfl := Option.some.inj (hindex.symm.trans hrow')
    exact Or.inr (Or.inl (by simp [heq, hreads, shownIdent, configured, Cell.setMenu]))
  · exact Or.inr (Or.inr (by simp [heq]))

@[simp] theorem cellForItemAt_blocks : (x.cellForItemAt row c).blocks = x.blocks := by
  cases hrow : x.session.habitArray[row]? with
  | none => simp [cellForItemAt_of_none x c row hrow, place]
  | some habit => simp [cellForItemAt_of_row x c row hrow, place]

/-- A reload leaves the objects of the other rows. -/
theorem cellForItem_cellForItemAt {r : Nat} (h : r ≠ row) :
    (x.cellForItemAt row c).cellForItem r = x.cellForItem r := by
  have hfilter : ∀ l : List (Nat × Nat), (l.filter fun p => p.1 ≠ row).lookup r = l.lookup r := by
    intro l
    induction l with
    | nil => rfl
    | cons p l ih =>
      by_cases hp : p.1 = row
      · have hr : (r == p.1) = false := by simpa [hp] using h
        rw [List.filter_cons_of_neg (by simpa using hp), ih, List.lookup_cons, hr]
      · rw [List.filter_cons_of_pos (by simpa using hp), List.lookup_cons, List.lookup_cons, ih]
  have hr : (r == row) = false := by simpa using h
  rw [cellForItem, cellForItem, cellForItemAt_shown, List.lookup_cons, hr]
  exact hfilter x.shown

/-- The cleanup does nothing for one timer. -/
theorem invalidateAll_of_le (h : x.timerArray.length ≤ 1) : x.invalidateAll = x := by
  simp [invalidateAll, Nat.not_lt.mpr h]

end Reload

section Complete

variable (habit : Habit)

/-- The habit that a completion leaves. -/
def completed (habit : Habit) : Habit :=
  { habit with finishedFirstTime := false, addFirebase := false }

theorem completeCounted_cases (hcounted : habit.counted = true) :
    let y := { x with session := HabitCollection.completeCounted row habit x.session }
    x.completeCounted c row habit = y ∨
      x.completeCounted c row habit = y.setCell c (configured (completed habit) (x.cells c)) := by
  unfold completeCounted
  dsimp only
  split
  · exact Or.inr (configure_counted _ c (completed habit) hcounted)
  · exact Or.inl rfl

theorem completeCounted_session (hcounted : habit.counted = true) :
    (x.completeCounted c row habit).session =
      HabitCollection.completeCounted row habit x.session := by
  rcases completeCounted_cases x c row habit hcounted with h | h
  · rw [h]
  · rw [h]
    rfl

@[simp] theorem completeCounted_shown : (x.completeCounted c row habit).shown = x.shown := by
  unfold completeCounted
  dsimp only
  split <;> simp

@[simp] theorem completeCounted_timers : (x.completeCounted c row habit).timers = x.timers := by
  unfold completeCounted
  dsimp only
  split <;> simp

@[simp] theorem completeCounted_timerArray :
    (x.completeCounted c row habit).timerArray = x.timerArray := by
  unfold completeCounted
  dsimp only
  split <;> simp

theorem completeCounted_of_ne {d : Nat} (h : d ≠ c) :
    (x.completeCounted c row habit).cells d = x.cells d := by
  unfold completeCounted
  dsimp only
  split
  · rw [configure_cells, Function.update_of_ne h]
  · rfl

end Complete

/-! ## Gestures -/

/-- A tap saves the day. -/
def saveDay : Screen :=
  { x with session := { x.session with palmiIsCool := some x.session.today } }

/-- What a tap on the cell `d` of a row does, by the habit at the row. -/
inductive Tap (row c₁ c₂ d : Nat) (habit : Habit) : Screen → Prop where
  /-- the habit is finished and its menu is not open -/
  | finished (hadd : habit.addFirebase = false) : Tap row c₁ c₂ d habit x.saveDay
  /-- the menu is open: the row is reloaded -/
  | menu (hmenu : (x.cells d).deleteButtonHidden = false) :
      Tap row c₁ c₂ d habit (x.saveDay.cellForItemAt row c₂)
  | start (hmenu : (x.cells d).deleteButtonHidden = true) (hadd : habit.addFirebase = true)
      (hcounted : habit.counted = false) (hstart : (x.cells d).startVar = false) :
      Tap row c₁ c₂ d habit (x.saveDay.startCountdown d row true)
  | stop (hmenu : (x.cells d).deleteButtonHidden = true) (hadd : habit.addFirebase = true)
      (hcounted : habit.counted = false) (hstart : (x.cells d).startVar = true) :
      Tap row c₁ c₂ d habit (x.saveDay.startCountdown d row false)
  | counted (hmenu : (x.cells d).deleteButtonHidden = true) (hadd : habit.addFirebase = true)
      (hcounted : habit.counted = true) :
      Tap row c₁ c₂ d habit (x.saveDay.tapCounted d row c₁ c₂ habit)

/-- `startCountdown` has set `timerRunning` already. -/
theorem startCountdown_timerRunning (start : Bool) :
    let y := x.startCountdown c row start
    y.setCell c { y.cells c with timerRunning := some start } = y := by
  cases start
  · rw [startCountdown_false]
    simp [stop, stopped, setCell]
  · rw [startCountdown_true]
    simp [started, setCell, fetchTimeFromFirebase]

theorem didSelectItemAt_of_none {c₁ c₂ : Nat} (h : x.cellForItem row = none) :
    x.didSelectItemAt row c₁ c₂ = x := by
  simp [didSelectItemAt, h]

theorem didSelectItemAt_of_row {c₁ c₂ d : Nat} (h : x.cellForItem row = some d)
    (hrow : x.session.habitArray[row]? = none) :
    x.didSelectItemAt row c₁ c₂ = x.saveDay.crash .indexOutOfRange := by
  simp [didSelectItemAt, h, hrow, saveDay]

theorem didSelectItemAt_tap {c₁ c₂ d : Nat} {habit : Habit} (h : x.cellForItem row = some d)
    (hrow : x.session.habitArray[row]? = some habit) :
    x.Tap row c₁ c₂ d habit (x.didSelectItemAt row c₁ c₂) := by
  cases hmenu : (x.cells d).deleteButtonHidden with
  | false =>
    have : x.didSelectItemAt row c₁ c₂ = x.saveDay.cellForItemAt row c₂ := by
      simp [didSelectItemAt, h, hrow, saveDay, hmenu]
    rw [this]
    exact .menu hmenu
  | true =>
    cases hadd : habit.addFirebase with
    | false =>
      have : x.didSelectItemAt row c₁ c₂ = x.saveDay := by
        simp [didSelectItemAt, h, hrow, saveDay, hmenu, hadd]
      rw [this]
      exact .finished hadd
    | true =>
      cases hcounted : habit.counted with
      | true =>
        have : x.didSelectItemAt row c₁ c₂ = x.saveDay.tapCounted d row c₁ c₂ habit := by
          simp [didSelectItemAt, h, hrow, saveDay, hmenu, hadd, hcounted]
        rw [this]
        exact .counted hmenu hadd hcounted
      | false =>
        cases hstart : (x.cells d).startVar with
        | false =>
          have : x.didSelectItemAt row c₁ c₂ = x.saveDay.startCountdown d row true := by
            simp only [didSelectItemAt, h, hrow, hmenu, hadd, hcounted, hstart]
            exact x.saveDay.startCountdown_timerRunning d row true
          rw [this]
          exact .start hmenu hadd hcounted hstart
        | true =>
          have : x.didSelectItemAt row c₁ c₂ = x.saveDay.startCountdown d row false := by
            simp only [didSelectItemAt, h, hrow, hmenu, hadd, hcounted, hstart]
            exact x.saveDay.startCountdown_timerRunning d row false
          rw [this]
          exact .stop hmenu hadd hcounted hstart

/-- A tap on a row that is not shown, on one that the list does not have, or
on the cell of a habit. -/
theorem didSelectItemAt_cases (c₁ c₂ : Nat) :
    x.didSelectItemAt row c₁ c₂ = x ∨
      x.didSelectItemAt row c₁ c₂ = x.saveDay.crash .indexOutOfRange ∨
      ∃ d habit, x.cellForItem row = some d ∧ x.session.habitArray[row]? = some habit ∧
        x.Tap row c₁ c₂ d habit (x.didSelectItemAt row c₁ c₂) := by
  cases hshown : x.cellForItem row with
  | none => exact Or.inl (didSelectItemAt_of_none x row hshown)
  | some d =>
    cases hrow : x.session.habitArray[row]? with
    | none => exact Or.inr (Or.inl (didSelectItemAt_of_row x row hshown hrow))
    | some habit =>
      exact Or.inr (Or.inr ⟨d, habit, rfl, rfl, didSelectItemAt_tap x row hshown hrow⟩)

/-- The list and the document of a row, with the habit that was counted
up. -/
def countUp (habit : Habit) : Screen :=
  { x with
    session := (x.session.setRow row habit).write
      (.updateHabit row { currentCount := some habit.currentCount } habit.ident) }

theorem tapCounted_of_lt {d c₁ c₂ : Nat} {habit : Habit} (h : habit.currentCount < habit.goal) :
    x.tapCounted d row c₁ c₂ habit =
      (((x.countUp row habit.incremented).cellForItemAt row c₁).completeCounted d row
        habit.incremented).cellForItemAt row c₂ := by
  simp [tapCounted, countUp, Habit.incremented, h]

theorem tapCounted_of_not_lt {d c₁ c₂ : Nat} {habit : Habit}
    (h : ¬habit.currentCount < habit.goal) :
    x.tapCounted d row c₁ c₂ habit = (x.completeCounted d row habit).cellForItemAt row c₂ := by
  simp [tapCounted, h]

/-- A long press on a shown cell opens its menu. -/
def opened (c : Nat) : Screen := x.setCell c ((x.cells c).setMenu false)

/-- A long press that is not ignored stops the countdown of a timed habit
and takes the row as the target of the menu. -/
theorem handleLongPress_of_row {habit : Habit} (h : x.cellForItem row = some c)
    (hrunning : (x.cells c).running = false) (hrow : x.session.habitArray[row]? = some habit) :
    let y := if habit.counted then x.opened c else (x.opened c).stop c row
    x.handleLongPress row =
      { y with
        session := HabitCollection.handleLongPress row y.session
        cellsWhichAreLongPressed := y.cellsWhichAreLongPressed ++ [c] } := by
  cases hcounted : habit.counted <;>
    simp [handleLongPress, opened, startCountdown_false, h, hrunning, hrow, hcounted]

theorem handleLongPress_of_running
    (h : ∀ c, x.cellForItem row = some c → (x.cells c).running = true) :
    x.handleLongPress row = x := by
  cases hc : x.cellForItem row with
  | none => simp [handleLongPress, hc]
  | some c => simp [handleLongPress, hc, h c hc]

theorem handleLongPress_of_none (h : x.cellForItem row = some c)
    (hrunning : (x.cells c).running = false) (hrow : x.session.habitArray[row]? = none) :
    x.handleLongPress row = (x.opened c).crash .indexOutOfRange := by
  simp [handleLongPress, opened, h, hrunning, hrow]

/-! ## `showAlert` -/

/-- The cell that `showAlert` sets up for the habit at its row, before
`configure`. -/
def alerted (habit : Habit) (cell : Cell) : Cell :=
  { cell with originalTimerArray := habit.timeOriginal }

/-- The habit of the cell that `showAlert` passes to `configure`. -/
def finished (shown : Habit) : Habit := { shown with addFirebase := false }

/-- The cell is set up again, and unless that ends the process the row is
finished. -/
theorem showAlert_of_row {habit shown : Habit} (hrow : x.session.habitArray[row]? = some habit)
    (hshown : (x.cells c).habitCell = some shown) :
    let y := (x.setCell c (alerted habit (x.cells c))).configure c (finished shown)
    x.showAlert c row =
      if y.session.crashed = none then
        { y with session := HabitCollection.showAlert row y.session }
      else y := by
  unfold showAlert
  simp only [hrow]
  split
  · next hnone =>
    rw [hshown] at hnone
    contradiction
  · next shown' hshown' =>
    obtain rfl : shown' = shown := Option.some.inj (hshown'.symm.trans hshown)
    rfl

theorem showAlert_cases :
    (∃ f, x.showAlert c row = x.crash f) ∨
    ∃ habit shown, x.session.habitArray[row]? = some habit ∧ (x.cells c).habitCell = some shown ∧
      let y := (x.setCell c (alerted habit (x.cells c))).configure c (finished shown)
      (x.showAlert c row = y ∨
        x.showAlert c row = { y with session := HabitCollection.showAlert row y.session }) := by
  cases hrow : x.session.habitArray[row]? with
  | none => exact Or.inl ⟨.indexOutOfRange, by simp [showAlert, hrow]⟩
  | some habit =>
    cases hcell : (x.cells c).habitCell with
    | none => exact Or.inl ⟨.nilUnwrap, by simp [showAlert, hrow, hcell]⟩
    | some shown =>
      refine Or.inr ⟨habit, shown, rfl, rfl, ?_⟩
      dsimp only
      rw [showAlert_of_row x c row hrow hcell]
      split
      · exact Or.inr rfl
      · exact Or.inl rfl

/-! ## `Action` -/

theorem action_of_pos (h : (x.cells c).atZero = false) :
    x.action c = x.setCell c (x.cells c).countDown := by
  simp [action, h]

/-- At zero the timer of the cell stops, and the alert is shown for the row
that the cell was laid out for. -/
theorem action_of_zero (h : (x.cells c).atZero = true) :
    let y := x.invalidate (x.cells c).timer.toList
    x.action c = y.crash .nilUnwrap ∨
      ∃ row, (x.cells c).indexPathCell = some row ∧ x.action c = y.showAlert c row := by
  cases hrow : (x.cells c).indexPathCell with
  | none => exact Or.inl (by simp [action, h, hrow])
  | some row => exact Or.inr ⟨row, rfl, by simp [action, h, hrow]⟩

theorem showAlert_of_ne {d : Nat} (h : d ≠ c) : (x.showAlert c row).cells d = x.cells d := by
  rcases showAlert_cases x c row with ⟨f, hcrash⟩ | ⟨habit, shown, _, _, halert⟩
  · rw [hcrash]
    rfl
  · rcases halert with halert | halert <;> rw [halert] <;> simp [Function.update_of_ne h]

/-- A tick changes no other cell. -/
theorem action_of_ne {d : Nat} (h : d ≠ c) : (x.action c).cells d = x.cells d := by
  cases hzero : (x.cells c).atZero with
  | false => rw [action_of_pos x c hzero, setCell_cells, Function.update_of_ne h]
  | true =>
    rcases action_of_zero x c hzero with hcrash | ⟨row, _, halert⟩
    · rw [hcrash]
      rfl
    · rw [halert, showAlert_of_ne _ c row h]
      rfl

/-! ## `fetchTimeFromFirebase` -/

/-- The cell with the time that was read. -/
def timed (hour minute second : Int) (ident : Option Nat) (cell : Cell) : Cell :=
  { cell with
    timeDisplayedHour := hour
    timeDisplayedMinute := minute
    timeDisplayedSecond := second
    timeIdent := ident }

/-- A read sets the time of a cell that shows a timed habit. -/
theorem timeRead_cases (r : TimeRead) (document : Option Store) :
    (document = none ∨ (x.cells r.cell).counted ≠ some false) ∧ x.timeRead r document = x ∨
    (∃ f, x.timeRead r document = x.crash f) ∨
    ∃ doc hour minute second, document = some doc ∧ (x.cells r.cell).counted = some false ∧
      x.timeRead r document =
        x.setCell r.cell (timed hour minute second (doc.timeIdent r.row) (x.cells r.cell)) := by
  cases document with
  | none => exact Or.inl ⟨Or.inl rfl, rfl⟩
  | some doc =>
    by_cases hcounted : (x.cells r.cell).counted = some false
    · refine Or.inr ?_
      unfold timeRead
      simp only [hcounted, if_true]
      split
      · exact Or.inl ⟨_, rfl⟩
      · next result _ =>
        rcases result with _ | ⟨_, _ | ⟨_, _ | ⟨_, _ | ⟨_, _ | ⟨_, _ | ⟨_, _⟩⟩⟩⟩⟩⟩
        all_goals first
          | exact Or.inl ⟨_, rfl⟩
          | exact Or.inr ⟨doc, _, _, _, rfl, trivial, rfl⟩
    · exact Or.inl ⟨Or.inr hcounted, by simp [timeRead, hcounted]⟩

section LeaveGroup

variable (r : TimeRead)

@[simp] theorem leaveGroup_cells : (x.leaveGroup r).cells = x.cells := by
  unfold leaveGroup
  split <;> rfl

@[simp] theorem leaveGroup_reads : (x.leaveGroup r).reads = x.reads := by
  unfold leaveGroup
  split <;> rfl

@[simp] theorem leaveGroup_timers : (x.leaveGroup r).timers = x.timers := by
  unfold leaveGroup
  split <;> rfl

@[simp] theorem leaveGroup_session : (x.leaveGroup r).session = x.session := by
  unfold leaveGroup
  split <;> rfl

theorem mem_leaveGroup_blocks : ∀ b ∈ (x.leaveGroup r).blocks,
    b ∈ x.blocks ∨ r.start = true ∧ b.cell = r.cell ∧ b.ident = r.ident := by
  intro b hb
  unfold leaveGroup at hb
  split at hb
  · next hstart =>
    rcases List.mem_append.mp hb with hb | hb
    · exact Or.inl hb
    · rw [List.mem_singleton.mp hb]
      exact Or.inr ⟨hstart, rfl, rfl⟩
  · exact Or.inl hb

end LeaveGroup

/-- A tick before the end changes nothing but the time. -/
theorem countDown_timed (cell : Cell) :
    ∃ hour minute second, cell.countDown = timed hour minute second cell.timeIdent cell := by
  unfold Cell.countDown Cell.borrowHour Cell.borrowMinute
  split_ifs <;> exact ⟨_, _, _, rfl⟩

/-! ## Relations between two screens

A reflexive and transitive relation that holds of the parts of a method
holds of the method. -/

section Relation

variable {R : Screen → Screen → Prop} (hrefl : ∀ x, R x x)
  (htrans : ∀ {x y z}, R x y → R y z → R x z)

include hrefl htrans

theorem rel_handleLongPress (hcrash : ∀ x f, R x (x.crash f)) (hopened : ∀ x c, R x (x.opened c))
    (hstop : ∀ x c, R x (x.startCountdown c row false))
    (htarget : ∀ x cs, R x { x with
      session := HabitCollection.handleLongPress row x.session
      cellsWhichAreLongPressed := cs }) : R x (x.handleLongPress row) := by
  cases hshown : x.cellForItem row with
  | none =>
    rw [handleLongPress_of_running x row (by simp [hshown])]
    exact hrefl x
  | some c =>
    cases hrunning : (x.cells c).running with
    | true =>
      rw [handleLongPress_of_running x row (by simp [hshown, hrunning])]
      exact hrefl x
    | false =>
      cases hrow : x.session.habitArray[row]? with
      | none =>
        rw [handleLongPress_of_none x c row hshown hrunning hrow]
        exact htrans (hopened x c) (hcrash _ _)
      | some habit =>
        rw [handleLongPress_of_row x c row hshown hrunning hrow]
        refine htrans ?_ (htarget _ _)
        split
        · exact hopened x c
        · rw [← startCountdown_false]
          exact htrans (hopened x c) (hstop _ c)

theorem rel_handlePressOnCollectionView (hreset : ∀ x c, R x (x.resetCellsToStandard c))
    (hclear : ∀ x, R x { x with cellsWhichAreLongPressed := [] }) :
    R x x.handlePressOnCollectionView := by
  have hall : ∀ (cs : List Nat) (y : Screen),
      R y (cs.foldl (fun x c => x.resetCellsToStandard c) y) := by
    intro cs
    induction cs with
    | nil => exact hrefl
    | cons c cs ih => exact fun y => htrans (hreset y c) (ih _)
  exact htrans (hall _ x) (hclear _)

theorem rel_tick (id : Nat) (haction : ∀ c, R x (x.action c))
    (hstop : ∀ x ids, R x (x.invalidate ids)) : R x (x.tick id) := by
  unfold tick
  split
  · exact hrefl x
  · next t _ =>
    dsimp only
    split
    · exact haction t.cell
    · exact htrans (haction t.cell) (hstop _ _)

omit hrefl in
theorem rel_action (hcrash : ∀ x f, R x (x.crash f))
    (hcount : ∀ hour minute second,
      R x (x.setCell c (timed hour minute second (x.cells c).timeIdent (x.cells c))))
    (hstop : ∀ x ids, R x (x.invalidate ids)) (halert : ∀ x row, R x (x.showAlert c row)) :
    R x (x.action c) := by
  cases hzero : (x.cells c).atZero with
  | false =>
    obtain ⟨hour, minute, second, hcell⟩ := countDown_timed (x.cells c)
    rw [action_of_pos x c hzero, hcell]
    exact hcount hour minute second
  | true =>
    rcases action_of_zero x c hzero with h | ⟨row, _, h⟩ <;> rw [h]
    · exact htrans (hstop x _) (hcrash _ _)
    · exact htrans (hstop x _) (halert _ row)

end Relation

end HabitHive.Screen
