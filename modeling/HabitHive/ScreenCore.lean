import HabitHive.Devices
import HabitHive.Simulation

/-!
# A screen without the saved day, colors and idents

`Screen.core` erases from a screen what `State.core` erases from its
session, and the colors and idents that its cells, time reads, blocks and
timers hold.  The methods of
the cells and of the controller look at none of it, so each of them goes its
way on the core (`core_handle`), and only a tap saves the day
(`keepsDay_handle`, `savedToday_didSelectItemAt`).

`Screen.Alike` relates two screens with the same core on which the saved day
is today in both or in neither.  Each event keeps this (`Alike.step`).
-/

namespace HabitHive

open HabitCollection

/-! ## The core of a screen -/

@[simps] def Cell.core (cell : Cell) : Cell :=
  { cell with
    habitCell := cell.habitCell.map Habit.core
    timeIdent := cell.timeIdent.map fun _ => 0 }

@[simps] def TimeRead.core (r : TimeRead) : TimeRead :=
  { r with
    ident := r.ident.map fun _ => 0
    snapshot := r.snapshot.map Store.core }

@[simps] def StartBlock.core (b : StartBlock) : StartBlock :=
  { b with ident := b.ident.map fun _ => 0 }

@[simps] def CellTimer.core (t : CellTimer) : CellTimer :=
  { t with ident := t.ident.map fun _ => 0 }

/-- The screen without the saved day, colors and idents. -/
@[simps] def Screen.core (x : Screen) : Screen :=
  { x with
    session := x.session.core
    cells := fun c => (x.cells c).core
    timers := x.timers.map CellTimer.core
    reads := x.reads.map TimeRead.core
    blocks := x.blocks.map StartBlock.core }

@[simp] theorem Store.core_core (st : Store) : st.core.core = st.core := by
  have hdoc : ∀ doc : HabitDoc, doc.core.core = doc.core := by
    rintro ⟨⟨_, color, _⟩, _⟩
    cases color <;> rfl
  refine congrArg (Store.mk _) (funext fun k => ?_)
  cases hdocument : st.habits k <;> simp [hdocument, hdoc]

@[simp] theorem Cell.core_core (cell : Cell) : cell.core.core = cell.core := by
  have hhabit : ∀ habit : Habit, habit.core.core = habit.core := fun _ => rfl
  simp [Cell.core, Function.comp_def, hhabit]

theorem core_completeCounted (row : Nat) (habit : Habit) (s : State) :
    (completeCounted row habit s).core = completeCounted row habit.core s.core := by
  simp only [completeCounted, Habit.core_currentCount, Habit.core_goal, Habit.core_addFirebase]
  split_ifs
  · rw [core_setRow, core_issue]
    rfl
  · rw [core_setRow]
    rfl
  · rfl

namespace Screen

@[simp] theorem core_core (x : Screen) : x.core.core = x.core := by
  have hread : ∀ r : TimeRead, r.core.core = r.core := by
    intro r
    simp [TimeRead.core, Function.comp_def]
  have htimer : ∀ t : CellTimer, t.core.core = t.core := by
    intro t
    simp [CellTimer.core, Function.comp_def]
  have hblock : ∀ b : StartBlock, b.core.core = b.core := by
    intro b
    simp [StartBlock.core, Function.comp_def]
  simp [core, Function.comp_def, hread, htimer, hblock]

section Methods

variable (x : Screen) (c row : Nat)

/-! ## Cells -/

theorem core_setCell (cell : Cell) : (x.setCell c cell).core = x.core.setCell c cell.core := by
  simp only [core, setCell]
  congr 1
  funext d
  simp only [Function.update_apply]
  split <;> rfl

theorem core_crash (f : Fault) : (x.crash f).core = x.core.crash f := rfl

theorem core_invalidate (ids : List Nat) : (x.invalidate ids).core = x.core.invalidate ids := by
  simp [core, invalidate, List.filter_map, Function.comp_def]

theorem core_withSession (s : State) :
    ({ x with session := s } : Screen).core = { x.core with session := s.core } := rfl

theorem core_getElem? : x.core.session.habitArray[row]? =
    x.session.habitArray[row]?.map Habit.core := by simp

theorem shownIdent_core : x.core.shownIdent c = (x.shownIdent c).map fun _ => 0 := by
  simp [shownIdent, Function.comp_def]

theorem core_fetchTimeFromFirebase (start : Bool) :
    (x.fetchTimeFromFirebase c row start).core = x.core.fetchTimeFromFirebase c row start := by
  simp only [fetchTimeFromFirebase, shownIdent_core]
  simp [core, TimeRead.core]

theorem core_configure (habit : Habit) :
    (x.configure c habit).core = x.core.configure c habit.core := by
  have hset : (x.setCell c ({ x.cells c with habitCell := some habit }.setMenu true)).core =
      x.core.setCell c ({ x.core.cells c with habitCell := some habit.core }.setMenu true) :=
    core_setCell x c _
  have hpath : ((x.core.setCell c ({ x.core.cells c with
      habitCell := some habit.core }.setMenu true)).cells c).indexPathCell =
      ((x.setCell c ({ x.cells c with habitCell := some habit }.setMenu true)).cells
        c).indexPathCell := by simp [Cell.setMenu]
  have hlabel : ((x.core.setCell c ({ x.core.cells c with
      habitCell := some habit.core }.setMenu true)).cells c).originalTimerArray =
      ((x.setCell c ({ x.cells c with habitCell := some habit }.setMenu true)).cells
        c).originalTimerArray := by simp [Cell.setMenu]
  simp only [configure, Habit.core_addFirebase, Habit.core_counted, hpath, hlabel]
  split_ifs
  · exact hset
  · split
    · rw [core_crash, hset]
    · rw [core_fetchTimeFromFirebase, hset]
  · rw [core_crash, hset]
  · exact hset

theorem core_stop : (x.stop c row).core = x.core.stop c row := by
  have hsession := core_handle (e := .createTimeArray row ((x.shownIdent c).getD 0)
    (x.cells c).createdArray) rfl x.session
  have hcell := core_setCell (x.invalidate (x.cells c).timer.toList) c (stopped (x.cells c))
  have hident : (x.core.shownIdent c).getD 0 = 0 := by
    rw [shownIdent_core]
    cases x.shownIdent c <;> rfl
  rw [stop, core_withSession, hcell, core_invalidate, stop, hident]
  exact congrArg (fun s => ({ (x.core.invalidate (x.cells c).timer.toList).setCell c
    (stopped (x.cells c)).core with session := s } : Screen)) hsession

theorem core_startCountdown (start : Bool) :
    (x.startCountdown c row start).core = x.core.startCountdown c row start := by
  cases start with
  | true =>
    rw [startCountdown_true, startCountdown_true, core_fetchTimeFromFirebase, core_setCell]
    rfl
  | false => rw [startCountdown_false, startCountdown_false, core_stop]

/-- A time read yields the same time. -/
theorem core_timeRead (r : TimeRead) (document : Option Store) :
    (x.timeRead r document).core =
      x.core.timeRead r.core (document.map Store.core) := by
  cases document with
  | none => rfl
  | some doc =>
    have hfield : ((doc.core.habits r.row).bind fun d => d.fields.timeArray) =
        (doc.habits r.row).bind fun d => d.fields.timeArray := by
      cases hdoc : doc.habits r.row <;> simp [hdoc]
    have hident : doc.core.timeIdent r.row = (doc.timeIdent r.row).map fun _ => 0 := by
      cases hdoc : doc.habits r.row <;> simp [Store.timeIdent, hdoc, Function.comp_def]
    have htime : (x.cells r.cell).core.habitCell.map Habit.time =
        (x.cells r.cell).habitCell.map Habit.time := by
      cases hhabit : (x.cells r.cell).habitCell <;> simp [hhabit]
    have hread : ∀ result, (x.cells r.cell).core.readTime result =
        ((x.cells r.cell).readTime result).map Cell.core := by
      intro result
      unfold Cell.readTime
      split <;> rfl
    simp only [timeRead, Option.map_some, core_cells, Cell.core_counted, TimeRead.core_row,
      TimeRead.core_cell, hfield, hident, htime]
    split
    · cases ((doc.habits r.row).bind fun d => d.fields.timeArray).orElse fun _ =>
        (x.cells r.cell).habitCell.map Habit.time with
      | none => exact core_crash x .nilUnwrap
      | some result =>
        dsimp only
        rw [hread]
        cases (x.cells r.cell).readTime result with
        | none => exact core_crash x .indexOutOfRange
        | some cell => exact core_setCell x r.cell _
    · rfl

theorem core_leaveGroup (r : TimeRead) : (x.leaveGroup r).core = x.core.leaveGroup r.core := by
  simp only [leaveGroup, TimeRead.core_start]
  split
  · simp [core, StartBlock.core]
  · rfl

theorem core_startTimer (b : StartBlock) : (x.startTimer b).core = x.core.startTimer b.core := by
  have hcell := core_setCell x b.cell { x.cells b.cell with timer := some x.nextTimer }
  refine (congrArg (fun y : Screen => ({ y with
    timers := (x.startTimer b).timers.map CellTimer.core
    timerArray := x.timerArray ++ [x.nextTimer]
    nextTimer := x.nextTimer + 1 } : Screen)) hcell).trans ?_
  rw [startTimer, List.map_append]
  rfl

/-! ## The controller -/

theorem core_showAlert : (x.showAlert c row).core = x.core.showAlert c row := by
  cases hrow : x.session.habitArray[row]? with
  | none =>
    simp [showAlert, hrow, core_crash]
  | some habit =>
    have hrow' : x.core.session.habitArray[row]? = some habit.core := by
      rw [core_getElem?, hrow]; rfl
    cases hshown : (x.cells c).habitCell with
    | none => simp [showAlert, hrow, hshown, core_crash]
    | some shown =>
      have hconfigured := core_configure (x.setCell c (alerted habit (x.cells c))) c
        (finished shown)
      rw [core_setCell] at hconfigured
      have hconfigured' : ((x.setCell c (alerted habit (x.cells c))).configure c
          (finished shown)).core = (x.core.setCell c
            (alerted habit.core (x.core.cells c))).configure
            c (finished shown.core) := hconfigured
      have hshown' : (x.core.cells c).habitCell = some shown.core := by simp [hshown]
      rw [showAlert_of_row x c row hrow hshown, showAlert_of_row x.core c row hrow' hshown',
        ← hconfigured']
      simp only [core_session, State.core_crashed]
      split
      · rw [core_withSession]
        exact congrArg (fun s => ({ Screen.core _ with session := s } : Screen))
          (core_handle (e := .showAlert row) rfl _)
      · rfl

theorem core_borrowMinute (cell : Cell) : cell.borrowMinute.core = cell.core.borrowMinute := by
  rw [Cell.borrowMinute, apply_ite Cell.core]
  rfl

theorem core_borrowHour (cell : Cell) : cell.borrowHour.core = cell.core.borrowHour := by
  rw [Cell.borrowHour, apply_ite Cell.core, apply_ite Cell.core]
  rfl

theorem core_countDown (cell : Cell) : cell.countDown.core = cell.core.countDown := by
  rw [Cell.countDown, apply_ite Cell.core, core_borrowHour, core_borrowMinute]
  rfl

theorem core_action : (x.action c).core = x.core.action c := by
  have hzero : (x.core.cells c).atZero = (x.cells c).atZero := rfl
  have hpath : (x.core.cells c).indexPathCell = (x.cells c).indexPathCell := rfl
  cases h : (x.cells c).atZero with
  | false =>
    rw [action_of_pos x c h, action_of_pos x.core c (hzero.trans h), core_setCell, core_countDown]
    rfl
  | true =>
    have hinvalid := core_invalidate x (x.cells c).timer.toList
    have htimer : (x.core.cells c).timer = (x.cells c).timer := rfl
    simp only [action, hzero, hpath, htimer, h, if_true, ← hinvalid]
    split
    · rfl
    · exact core_showAlert (x.invalidate (x.cells c).timer.toList) c _

theorem core_invalidateAll : x.invalidateAll.core = x.core.invalidateAll := by
  simp only [invalidateAll, core_timerArray, ← core_invalidate]
  split <;> rfl

theorem core_cellForItemAt : (x.cellForItemAt row c).core = x.core.cellForItemAt row c := by
  have hplace : (x.place c row).core = x.core.place c row := by
    simp only [place, ← core_invalidateAll]
    rfl
  cases hrow : x.session.habitArray[row]? with
  | none =>
    rw [cellForItemAt_of_none x c row hrow,
      cellForItemAt_of_none x.core c row (by rw [core_getElem?, hrow]; rfl), core_crash, hplace]
  | some habit =>
    have hrow' : x.core.session.habitArray[row]? = some habit.core := by
      rw [core_getElem?, hrow]; rfl
    rw [cellForItemAt_of_row x c row hrow, cellForItemAt_of_row x.core c row hrow', core_configure,
      core_setCell, hplace]
    rfl

theorem core_completeCounted (d : Nat) (habit : Habit) :
    (x.completeCounted d row habit).core = x.core.completeCounted d row habit.core := by
  simp only [completeCounted, Habit.core_currentCount, Habit.core_goal, Habit.core_addFirebase]
  split
  · rw [core_configure, core_withSession, HabitHive.core_completeCounted]
    rfl
  · rw [core_withSession, HabitHive.core_completeCounted]
    rfl

theorem core_tapCounted (d c₁ c₂ : Nat) (habit : Habit) :
    (x.tapCounted d row c₁ c₂ habit).core = x.core.tapCounted d row c₁ c₂ habit.core := by
  simp only [tapCounted, Habit.core_currentCount, Habit.core_goal]
  split
  · rw [core_cellForItemAt, core_completeCounted, core_cellForItemAt, core_withSession, core_write,
      core_setRow]
    rfl
  · rw [core_cellForItemAt, core_completeCounted]

/-- A tap saves the day, which the core does not have. -/
theorem core_didSelectItemAt (c₁ c₂ : Nat) :
    (x.didSelectItemAt row c₁ c₂).core = (x.core.didSelectItemAt row c₁ c₂).core := by
  have hsaved : x.core.saveDay.core = x.saveDay.core := core_core x
  have hshown : x.core.cellForItem row = x.cellForItem row := rfl
  cases h : x.cellForItem row with
  | none => rw [didSelectItemAt_of_none x row h, didSelectItemAt_of_none x.core row h, core_core]
  | some d =>
    cases hrow : x.session.habitArray[row]? with
    | none =>
      have hrow' : x.core.session.habitArray[row]? = none := by rw [core_getElem?, hrow]; rfl
      rw [didSelectItemAt_of_row x row h hrow, didSelectItemAt_of_row x.core row h hrow',
        core_crash, core_crash, hsaved]
    | some habit =>
      have hrow' : x.core.session.habitArray[row]? = some habit.core := by
        rw [core_getElem?, hrow]; rfl
      have hlayout : ∀ c, (x.saveDay.cellForItemAt row c).core =
          (x.core.saveDay.cellForItemAt row c).core := fun c => by
        rw [core_cellForItemAt, core_cellForItemAt, hsaved]
      have hstart : ∀ start, (x.saveDay.startCountdown d row start).core =
          (x.core.saveDay.startCountdown d row start).core := fun start => by
        rw [core_startCountdown, core_startCountdown, hsaved]
      have hrunning : ∀ y : Screen, ∀ start, (y.setCell d { y.cells d with
          timerRunning := some start }).core = y.core.setCell d { y.core.cells d with
            timerRunning := some start } := fun y start => core_setCell y d _
      simp only [didSelectItemAt, hshown, h, hrow, hrow', core_cells, Cell.core_deleteButtonHidden,
        Cell.core_startVar, Habit.core_addFirebase, Habit.core_counted]
      split_ifs
      · exact hlayout c₂
      · exact hsaved.symm
      · exact hlayout c₂
      · rw [hrunning, hrunning]
        exact congrArg (fun y : Screen => y.setCell d { y.cells d with
          timerRunning := some false }) (hstart false)
      · rw [hrunning, hrunning]
        exact congrArg (fun y : Screen => y.setCell d { y.cells d with
          timerRunning := some true }) (hstart true)
      · change (x.saveDay.tapCounted d row c₁ c₂ habit).core =
          (x.core.saveDay.tapCounted d row c₁ c₂ habit.core).core
        rw [core_tapCounted, core_tapCounted, hsaved]
        rfl

theorem core_opened : (x.opened c).core = x.core.opened c := core_setCell x c _

theorem core_handleLongPress : (x.handleLongPress row).core = x.core.handleLongPress row := by
  cases h : x.cellForItem row with
  | none =>
    rw [handleLongPress_of_running x row (by simp [h]),
      handleLongPress_of_running x.core row fun c hc => absurd (hc.symm.trans h) (by simp)]
  | some c =>
    cases hrunning : (x.cells c).running with
    | true =>
      have hall : ∀ d, x.cellForItem row = some d → (x.cells d).running = true := fun d hd => by
        rwa [Option.some.inj (hd.symm.trans h)]
      rw [handleLongPress_of_running x row hall, handleLongPress_of_running x.core row hall]
    | false =>
      cases hrow : x.session.habitArray[row]? with
      | none =>
        have hrow' : x.core.session.habitArray[row]? = none := by rw [core_getElem?, hrow]; rfl
        rw [handleLongPress_of_none x c row h hrunning hrow,
          handleLongPress_of_none x.core c row h hrunning hrow', core_crash, core_opened]
      | some habit =>
        have hrow' : x.core.session.habitArray[row]? = some habit.core := by
          rw [core_getElem?, hrow]; rfl
        have htarget : (if habit.counted then x.opened c else (x.opened c).stop c row).core =
            if habit.core.counted then x.core.opened c else (x.core.opened c).stop c row := by
          rw [apply_ite core, core_stop, core_opened]
          rfl
        have hpress : ∀ {y z : Screen}, y.core = z →
            ({ y with
              session := HabitCollection.handleLongPress row y.session
              cellsWhichAreLongPressed := y.cellsWhichAreLongPressed ++ [c] } : Screen).core =
            { z with
              session := HabitCollection.handleLongPress row z.session
              cellsWhichAreLongPressed := z.cellsWhichAreLongPressed ++ [c] } := by
          rintro y _ rfl
          exact congrArg (fun s => ({ y.core with
              session := s
              cellsWhichAreLongPressed := y.cellsWhichAreLongPressed ++ [c] } : Screen))
            (core_handle (e := .handleLongPress row) rfl y.session)
        rw [handleLongPress_of_row x c row h hrunning hrow,
          handleLongPress_of_row x.core c row h hrunning hrow']
        exact hpress htarget

theorem core_handlePressOnCollectionView :
    x.handlePressOnCollectionView.core = x.core.handlePressOnCollectionView := by
  have hall : ∀ (cs : List Nat) (y : Screen),
      (cs.foldl (fun x c => x.resetCellsToStandard c) y).core =
        cs.foldl (fun x c => x.resetCellsToStandard c) y.core := by
    intro cs
    induction cs with
    | nil => exact fun _ => rfl
    | cons c cs ih =>
      intro y
      refine (ih _).trans ?_
      exact congrArg (fun z => cs.foldl (fun x c => x.resetCellsToStandard c) z)
        (core_setCell y c _)
  exact congrArg (fun y : Screen => { y with cellsWhichAreLongPressed := [] }) (hall _ x)

theorem core_deleteHabit : (x.deleteHabit c).core = x.core.deleteHabit c := by
  have hsession := core_handle (e := .deleteHabit) rfl x.session
  have hdelete := congrArg (fun s => ({ x.core with session := s } : Screen)) hsession
  simp only [deleteHabit, core_session, State.core_indexPathGlobal, State.core_habitArray,
    List.length_map, core_cells, Cell.core_deleteButtonHidden, core_shown]
  split
  · cases x.session.indexPathGlobal with
    | none => exact hdelete
    | some row =>
      dsimp only
      split
      · exact congrArg (deleteItems row) hdelete
      · exact hdelete
  · rfl

theorem core_editHabit : (x.editHabit c).core = (x.core.editHabit c).core := by
  simp only [editHabit, core_cells, Cell.core_editButtonHidden, core_shown]
  split
  · have hrest : ({ x.core with session := HabitCollection.editHabit x.session.core } :
        Screen).core = { x.core with session :=
            (HabitCollection.editHabit x.session.core).core } := by
      rw [core_withSession x.core, core_core]
    exact (congrArg (fun s => ({ x.core with session := s } : Screen))
      (core_openEdit x.session)).trans hrest.symm
  · exact (core_core x).symm

/-! ## Timers and reads -/

theorem core_tick (id : Nat) : (x.tick id).core = x.core.tick id := by
  have hfind : x.core.timers.find? (fun t => t.id = id) =
      (x.timers.find? fun t => t.id = id).map CellTimer.core := by
    rw [core_timers, List.find?_map]
    rfl
  rw [tick, tick, hfind]
  cases x.timers.find? fun t => t.id = id with
  | none => rfl
  | some t =>
    simp only [Option.map_some, CellTimer.core_cell, CellTimer.core_repeats, ← core_action,
      ← core_invalidate]
    exact apply_ite core _ _ _

theorem core_serveTime (i : Nat) : (x.serveTime i).core = x.core.serveTime i := by
  simp only [serveTime, core_reads, List.getElem?_map]
  cases x.reads[i]? with
  | none => rfl
  | some r =>
    simp only [Option.map_some, TimeRead.core_snapshot, Option.isNone_map]
    split
    · simp [core, TimeRead.core, List.map_set]
    · rfl

theorem core_dropRead (i : Nat) : (x.dropRead i).core = x.core.dropRead i := by
  simp [core, dropRead, List.eraseIdx_map]

theorem core_deliverTime (i : Nat) : (x.deliverTime i).core = x.core.deliverTime i := by
  simp only [deliverTime, core_reads, List.getElem?_map]
  cases x.reads[i]? with
  | none => rfl
  | some r =>
    simp only [Option.map_some, TimeRead.core_snapshot, Option.isNone_map]
    split
    · rfl
    · rw [core_leaveGroup, core_timeRead, core_dropRead]

theorem core_failTime (i : Nat) : (x.failTime i).core = x.core.failTime i := by
  simp only [failTime, core_reads, List.getElem?_map]
  cases x.reads[i]? with
  | none => rfl
  | some r =>
    dsimp only [Option.map_some]
    rw [core_leaveGroup, core_dropRead]

theorem core_runBlock (i : Nat) : (x.runBlock i).core = x.core.runBlock i := by
  simp only [runBlock, core_blocks, List.getElem?_map]
  cases x.blocks[i]? with
  | none => rfl
  | some b =>
    have hrest : ({ x with blocks := x.blocks.eraseIdx i } : Screen).core =
        { x.core with blocks := (x.blocks.map StartBlock.core).eraseIdx i } := by
      simp [core, List.eraseIdx_map]
    rw [core_startTimer, hrest]
    rfl

end Methods

/-! ## Events -/

/-- What happens on the cells goes its way on the core. -/
theorem core_handle (x : Screen) {e : ScreenEvent} (he : ∀ e', e ≠ .session e') :
    (x.handle e).core = (x.core.handle e).core := by
  have hcore : ∀ {y z : Screen}, y.core = z → y.core = z.core := by
    rintro y _ rfl
    exact (core_core y).symm
  cases e with
  | session e => exact absurd rfl (he e)
  | cellForItemAt row c =>
    simp only [handle]
    have hfree : x.core.Free row c ↔ x.Free row c := Iff.rfl
    simp only [hfree]
    split
    · exact hcore (core_cellForItemAt x c row)
    · exact hcore rfl
  | didEndDisplaying row => exact hcore rfl
  | handleLongPress row => exact hcore (core_handleLongPress x row)
  | handlePressOnCollectionView => exact hcore (core_handlePressOnCollectionView x)
  | deleteHabit c => exact hcore (core_deleteHabit x c)
  | editHabit c => exact core_editHabit x c
  | didSelectItemAt row c₁ c₂ =>
    simp only [handle]
    have hfree : ∀ c, x.core.Free row c ↔ x.Free row c := fun _ => Iff.rfl
    simp only [hfree]
    split
    · exact core_didSelectItemAt x row c₁ c₂
    · exact hcore rfl
  | tick id => exact hcore (core_tick x id)
  | serveTime i => exact hcore (core_serveTime x i)
  | deliverTime i => exact hcore (core_deliverTime x i)
  | failTime i => exact hcore (core_failTime x i)
  | startTimer i => exact hcore (core_runBlock x i)

/-! ## The saved day -/

end Screen

/-- The day and the saved day. -/
def State.day (s : State) : Nat × Option Nat := (s.today, s.palmiIsCool)

theorem savedToday_of_day {s t : State} (h : s.day = t.day) : SavedToday s ↔ SavedToday t := by
  obtain ⟨htoday, hsaved⟩ := Prod.mk.inj h
  rw [SavedToday, SavedToday, htoday, hsaved]

theorem day_handle {e : Event} (he : e.isDay = false) (s : State) : (handle s e).day = s.day :=
  Prod.ext (device_handle he s).1 (device_handle he s).2.1

theorem day_completeCounted (row : Nat) (habit : Habit) (s : State) :
    (completeCounted row habit s).day = s.day := by
  unfold completeCounted
  dsimp only
  split_ifs <;> rfl

namespace Screen

/-- A method leaves the day and the saved day. -/
def KeepsDay (x y : Screen) : Prop := y.session.day = x.session.day

section KeepsDay

variable (x : Screen) (c row : Nat)

theorem KeepsDay.of_cases {y : Screen}
    (h : y.session = x.session ∨ ∃ f, y.session = x.session.crash f) : KeepsDay x y := by
  rcases h with h | ⟨f, h⟩
  · exact congrArg State.day h
  · exact (congrArg State.day h).trans rfl

theorem KeepsDay.trans {x y z : Screen} (h : KeepsDay x y) (h' : KeepsDay y z) : KeepsDay x z :=
  Eq.trans h' h

theorem keepsDay_cellForItemAt : KeepsDay x (x.cellForItemAt row c) :=
  .of_cases x (cellForItemAt_session_cases x c row)

theorem keepsDay_startCountdown (start : Bool) : KeepsDay x (x.startCountdown c row start) := by
  cases start with
  | true =>
    rw [startCountdown_true]
    rfl
  | false =>
    rw [startCountdown_false]
    exact day_handle (e := .createTimeArray row _ _) rfl x.session

theorem keepsDay_completeCounted (d : Nat) (habit : Habit) :
    KeepsDay x (x.completeCounted d row habit) := by
  have hsession := day_completeCounted row habit x.session
  unfold completeCounted
  dsimp only
  split
  · exact .trans (y := { x with session := HabitCollection.completeCounted row habit x.session })
      hsession (.of_cases _ (configure_session_cases _ d _))
  · exact hsession

theorem keepsDay_tapCounted (d c₁ c₂ : Nat) (habit : Habit) :
    KeepsDay x (x.tapCounted d row c₁ c₂ habit) := by
  have hcomplete : ∀ (y : Screen) (h : Habit),
      KeepsDay y ((y.completeCounted d row h).cellForItemAt row c₂) := fun y h =>
    (keepsDay_completeCounted y row d h).trans (keepsDay_cellForItemAt _ c₂ row)
  by_cases hlow : habit.currentCount < habit.goal
  · rw [tapCounted_of_lt x row hlow]
    have hcount : KeepsDay x (x.countUp row habit.incremented) := rfl
    exact (hcount.trans (keepsDay_cellForItemAt _ c₁ row)).trans (hcomplete _ _)
  · rw [tapCounted_of_not_lt x row hlow]
    exact hcomplete x habit

theorem keepsDay_showAlert : KeepsDay x (x.showAlert c row) := by
  rcases showAlert_cases x c row with ⟨f, h⟩ | ⟨habit, shown, _, _, h⟩
  · rw [h]
    rfl
  · have hcell : KeepsDay x ((x.setCell c (alerted habit (x.cells c))).configure c
        (finished shown)) := .of_cases _ (configure_session_cases _ c _)
    rcases h with h | h <;> rw [h]
    · exact hcell
    · exact hcell.trans (day_handle (e := .showAlert row) rfl _)

theorem keepsDay_action : KeepsDay x (x.action c) :=
  rel_action x c .trans (fun _ _ => rfl) (fun _ _ _ => rfl) (fun _ _ => rfl)
    fun y row => keepsDay_showAlert y c row

/-- What happens on the cells, but for a tap, leaves the saved day. -/
theorem keepsDay_handle {e : ScreenEvent} (he : ∀ e', e ≠ .session e')
    (htap : ∀ row c₁ c₂, e ≠ .didSelectItemAt row c₁ c₂) : KeepsDay x (x.handle e) := by
  cases e with
  | session e => exact absurd rfl (he e)
  | didSelectItemAt row c₁ c₂ => exact absurd rfl (htap row c₁ c₂)
  | cellForItemAt row c =>
    rw [handle]
    split
    · exact keepsDay_cellForItemAt x c row
    · rfl
  | didEndDisplaying row => rfl
  | handleLongPress row =>
    exact rel_handleLongPress x row (fun _ => rfl) .trans (fun _ _ => rfl) (fun _ _ => rfl)
      (fun y c => keepsDay_startCountdown y c row false)
      fun y _ => day_handle (e := .handleLongPress row) rfl y.session
  | handlePressOnCollectionView =>
    exact rel_handlePressOnCollectionView x (fun _ => rfl) .trans (fun _ _ => rfl) fun _ => rfl
  | deleteHabit c =>
    have hdelete := day_handle (e := .deleteHabit) rfl x.session
    rw [handle, deleteHabit]
    split
    · dsimp only
      split
      · exact hdelete
      · split <;> exact hdelete
    · rfl
  | editHabit c =>
    rw [handle, editHabit]
    split
    · exact day_handle (e := .editHabit) rfl x.session
    · rfl
  | tick id =>
    exact rel_tick (R := KeepsDay) x (fun _ => rfl) .trans id (keepsDay_action x) fun _ _ => rfl
  | serveTime i =>
    rw [handle, serveTime]
    split
    · rfl
    · split <;> rfl
  | deliverTime i =>
    rw [handle, deliverTime]
    split
    · rfl
    · split
      · rfl
      · refine .of_cases x ?_
        rw [leaveGroup_session]
        exact timeRead_session_cases (x.dropRead i) _ _
  | failTime i =>
    rw [handle, failTime]
    split
    · rfl
    · exact congrArg State.day (leaveGroup_session (x.dropRead i) _)
  | startTimer i =>
    rw [handle, runBlock]
    split <;> rfl

/-- A tap on a cell that is shown saves the day. -/
theorem savedToday_didSelectItemAt {d : Nat} (h : x.cellForItem row = some d) (c₁ c₂ : Nat) :
    SavedToday (x.didSelectItemAt row c₁ c₂).session := by
  have hsave : SavedToday x.saveDay.session := rfl
  have hkeeps : ∀ {y}, KeepsDay x.saveDay y → SavedToday y.session := fun h =>
    (savedToday_of_day h).mpr hsave
  cases hrow : x.session.habitArray[row]? with
  | none =>
    rw [didSelectItemAt_of_row x row h hrow]
    exact hsave
  | some habit =>
    have htap : x.Tap row c₁ c₂ d habit (x.didSelectItemAt row c₁ c₂) :=
      didSelectItemAt_tap x row h hrow
    generalize x.didSelectItemAt row c₁ c₂ = y at htap
    cases htap with
    | finished => exact hsave
    | menu => exact hkeeps (keepsDay_cellForItemAt _ c₂ row)
    | start => exact hkeeps (keepsDay_startCountdown _ d row true)
    | stop => exact hkeeps (keepsDay_startCountdown _ d row false)
    | counted => exact hkeeps (keepsDay_tapCounted _ row d c₁ c₂ habit)

end KeepsDay

/-! ## Two screens -/

/-- Screens that differ in colors and in old saved days only. -/
structure Alike (x y : Screen) : Prop where
  core : x.core = y.core
  savedToday : SavedToday x.session ↔ SavedToday y.session

section Alike

variable {x y : Screen}

theorem Alike.session (h : Alike x y) : HabitHive.Alike x.session y.session :=
  ⟨congrArg Screen.session h.core, h.savedToday⟩

theorem reloadsData_core (s : State) (e : Event) : reloadsData s.core e = reloadsData s e := by
  have hreloads : ∀ cb : Callback, cb.core.reloads = cb.reloads := by
    intro cb
    cases cb <;> rfl
  cases e with
  | deliver i | fail i =>
    simp only [reloadsData, core_pending?]
    cases s.pending[i]? <;>
      simp [hreloads, Callback.isRead_core]
  | _ => rfl

/-- What happens in the session. -/
theorem Alike.sessionEvent (h : Alike x y) (hx : SoundDevice x.session)
    (hy : SoundDevice y.session) (e : Event) : Alike (x.sessionEvent e) (y.sessionEvent e) := by
  have hsession := h.session.step hx hy e
  have hreloads : reloadsData x.session e = reloadsData y.session e := by
    rw [← reloadsData_core, h.session.core, reloadsData_core]
  rw [Screen.sessionEvent, Screen.sessionEvent, hreloads]
  split
  · exact ⟨congrArg (fun s => ({ session := s } : Screen))
      (congrArg State.relaunch h.session.core), h.savedToday⟩
  · split
    · exact h
    · refine ⟨?_, hsession.savedToday⟩
      have hsame := congrArg (fun z : Screen => { z with
        session := (HabitHive.step x.session e).core
        shown := if reloadsData y.session e then [] else z.shown }) h.core
      refine hsame.trans ?_
      rw [hsession.core]
      rfl

theorem Alike.handle (h : Alike x y) (hx : SoundDevice x.session) (hy : SoundDevice y.session)
    (e : ScreenEvent) : Alike (x.handle e) (y.handle e) := by
  cases e with
  | session e => exact h.sessionEvent hx hy e
  | didSelectItemAt row c₁ c₂ =>
    refine ⟨by rw [core_handle x (by simp), core_handle y (by simp), h.core], ?_⟩
    have hshown : x.shown = y.shown := by simpa using congrArg Screen.shown h.core
    have hfree : ∀ c, x.Free row c ↔ y.Free row c := fun c => by rw [Free, Free, hshown]
    have hcell : x.cellForItem row = y.cellForItem row := by
      rw [cellForItem, cellForItem, hshown]
    simp only [Screen.handle, hfree]
    split
    · cases hx : x.cellForItem row with
      | none =>
        rw [didSelectItemAt_of_none x row hx, didSelectItemAt_of_none y row (hcell ▸ hx)]
        exact h.savedToday
      | some d =>
        exact iff_of_true (savedToday_didSelectItemAt x row hx c₁ c₂)
          (savedToday_didSelectItemAt y row (hcell ▸ hx) c₁ c₂)
    · exact h.savedToday
  | _ =>
    refine ⟨by rw [core_handle x (by simp), core_handle y (by simp), h.core], ?_⟩
    rw [savedToday_of_day (keepsDay_handle x (by simp) (by simp)),
      savedToday_of_day (keepsDay_handle y (by simp) (by simp))]
    exact h.savedToday

theorem saved_step {x : Screen}
    (h : ∀ day, x.session.palmiIsCool = some day → day ≤ x.session.today)
    (e : ScreenEvent) :
    ∀ day, (x.step e).session.palmiIsCool = some day → day ≤ (x.step e).session.today :=
  (step_covered x e).invariant (I := fun s => ∀ day, s.palmiIsCool = some day → day ≤ s.today)
    (fun _ _ h => h) (fun _ e _ h => HabitHive.saved_step h e) h

theorem soundDevice_step (h : SoundDevice x.session) (e : ScreenEvent) :
    SoundDevice (x.step e).session :=
  (step_covered x e).invariant (fun _ _ h => ⟨h.saved, h.color⟩) (fun _ e _ h => h.step e) h

theorem Alike.step (h : Alike x y) (hx : SoundDevice x.session) (hy : SoundDevice y.session)
    (e : ScreenEvent) : Alike (x.step e) (y.step e) := by
  have hcrashed : x.session.crashed = y.session.crashed := by
    simpa using congrArg State.crashed h.session.core
  rw [Screen.step, Screen.step, ← hcrashed]
  split
  · exact h.handle hx hy e
  · split
    · exact ⟨congrArg (fun s => ({ session := s } : Screen))
        (congrArg State.relaunch h.session.core), h.savedToday⟩
    · exact h

end Alike

end Screen

end HabitHive
