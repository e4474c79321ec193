import HabitHive.Countdown
import HabitHive.LongPress

/-!
# A countdown with pauses

The user of one cell taps it and presses it long, and its timer ticks.  A
tap is an action together with the read that it issues, which is served and
delivered before the next action, and the block of a start.

The cell is `Paused`, `Counting` or `Over`.  A stop stores the time of the
cell and a start reads it back, so taps and long presses do not change it,
and each tick takes one second.  `countdown_exact` is the result: the ticks
of such a run are the ticks of one countdown that was never stopped.
-/

namespace HabitHive.Screen

/-! ## Actions -/

/-- What happens on the cell. -/
inductive Action where
  | tap
  | longPress
  | tick
  deriving DecidableEq, Repr

/-- The events of an action.  A read and a block that a tap adds are the
last ones; where it adds none, there is nothing to serve and to run. -/
def actionEvents (r c : Nat) (x : Screen) : Action → List ScreenEvent
  | .tap => [.didSelectItemAt r c c, .serveTime x.reads.length, .deliverTime x.reads.length,
      .startTimer x.blocks.length]
  | .longPress => [.handleLongPress r]
  | .tick => (x.timersOf c).map fun t => .tick t.id

/-- The screen after an action. -/
def act (r c : Nat) (x : Screen) (a : Action) : Screen := x.run (actionEvents r c x a)

/-- The ticks of an action, each with whether it shows the alert. -/
def actTicks (r c : Nat) (x : Screen) (a : Action) : List Bool :=
  Runs.observe step (ticked c) x (actionEvents r c x a)

variable {r c : Nat} {x : Screen}

theorem act_tap : act r c x .tap = (x.step (.didSelectItemAt r c c)).run
    [.serveTime x.reads.length, .deliverTime x.reads.length, .startTimer x.blocks.length] := rfl

/-! ## Reads that arrive -/

/-- A row with a timed habit that is not finished is laid out, and its time
is read. -/
theorem cellForItemAt_timed (x : Screen) (c row : Nat) {habit : Habit}
    (hrow : x.session.habitArray[row]? = some habit) (htimed : habit.counted = false)
    (hadd : habit.addFirebase = true) :
    x.cellForItemAt row c = ((x.place c row).setCell c
      (configured habit (laidOut row habit (x.cells c)))).fetchTimeFromFirebase c row false := by
  rw [cellForItemAt_of_row x c row hrow]
  simp [configure, configured, laidOut, htimed, hadd, Cell.setMenu, setCell]

theorem timeRead_stored {read : TimeRead} {doc : Store} {time : Int × Int × Int}
    (hcounted : (x.cells read.cell).counted = some false)
    (hstored : doc.storedTime read.row = some time) :
    x.timeRead read (some doc) = x.setCell read.cell
      (timed time.1 time.2.1 time.2.2 (doc.timeIdent read.row) (x.cells read.cell)) := by
  obtain ⟨result, hresult, htime⟩ := Option.bind_eq_some_iff.mp hstored
  simp only [timeRead, hcounted, if_true, hresult, Option.orElse_some, Cell.readTime_eq, htime,
    Option.map_some]
  rfl

/-- The cell with the stored time. -/
def arrived (r c : Nat) (time : Int × Int × Int) (x : Screen) : Screen :=
  x.setCell c (timed time.1 time.2.1 time.2.2 (x.session.store.timeIdent r) (x.cells c))

/-- A read that was just issued brings the stored time, and the read of a
start schedules the timer. -/
theorem fetch_arrives {time : Int × Int × Int} (start : Bool)
    (hrunning : x.session.crashed = none) (hcounted : (x.cells c).counted = some false)
    (hstored : x.session.store.storedTime r = some time) :
    (x.fetchTimeFromFirebase c r start).run [.serveTime x.reads.length,
        .deliverTime x.reads.length, .startTimer x.blocks.length] =
      if start then (x.arrived r c time).startTimer { cell := c, ident := x.shownIdent c }
      else x.arrived r c time := by
  have hserve : (x.fetchTimeFromFirebase c r start).step (.serveTime x.reads.length) =
      { x with reads := x.reads ++ [{ cell := c, row := r, start, ident := x.shownIdent c,
                                      snapshot := some x.session.store }] } := by
    simp [step, handle, hrunning, serveTime]
    rfl
  have hdeliver : ∀ read : TimeRead, read.cell = c → read.row = r →
      read.snapshot = some x.session.store →
      ({ x with reads := x.reads ++ [read] } : Screen).step (.deliverTime x.reads.length) =
        (x.arrived r c time).leaveGroup read := by
    rintro read rfl rfl hsnap
    have hread := timeRead_stored hcounted hstored
    simpa [step, handle, hrunning, deliverTime, hsnap, dropRead, arrived,
      List.eraseIdx_append_of_length_le] using congrArg (·.leaveGroup read) hread
  simp only [Runs.run_cons, Runs.run_nil, hserve]
  rw [hdeliver _ rfl rfl rfl]
  cases start with
  | true =>
    simp [leaveGroup, step, handle, arrived, hrunning, runBlock, List.eraseIdx_append_of_length_le,
      startTimer, setCell]
  | false => simp [leaveGroup, step, handle, arrived, hrunning, runBlock]

/-! ## Phases -/

/-- The cell `c` shows a timed habit at row `r` that is not finished. -/
structure Bound (r c : Nat) (x : Screen) : Prop where
  running : x.session.crashed = none
  laid : Laid x
  scheduled : Scheduled x
  shown : x.cellForItem r = some c
  index : (x.cells c).indexPathCell = some r
  habit : ∃ habit, x.session.habitArray[r]? = some habit ∧ habit.counted = false ∧
    habit.addFirebase = true
  document : ∃ doc, x.session.store.habits r = some doc

/-- No timer is scheduled, and the stored time is that of the cell. -/
structure Paused (r c : Nat) (x : Screen) : Prop extends Bound r c x where
  startVar : (x.cells c).startVar = false
  timers : x.timersOf c = []
  stored : x.session.store.storedTime r = some (x.cells c).time

/-- The timer of the cell is scheduled, and the menu is closed. -/
structure Counting (r c : Nat) (x : Screen) : Prop extends Bound r c x where
  startVar : (x.cells c).startVar = true
  press : (x.cells c).running = true
  menu : (x.cells c).deleteButtonHidden = true
  timers : ∃ t, x.timersOf c = [t] ∧ (x.cells c).timer = some t.id ∧ t.repeats = true

/-- The habit at row `r` is finished, in the list and in its document. -/
structure Finished (r : Nat) (s : State) : Prop where
  habit : ∃ habit, s.habitArray[r]? = some habit ∧ habit.addFirebase = false
  document : ∃ doc, s.store.habits r = some doc ∧ doc.fields.addFirebase = some false

/-- The alert was shown, or the process has ended with it. -/
inductive Over (r c : Nat) (x : Screen) : Prop where
  | crashed (h : x.session.crashed ≠ none)
  | shown (hshown : x.cellForItem r = some c) (hpress : (x.cells c).running = true)
      (hmenu : (x.cells c).deleteButtonHidden = true)
      (hfinished : Finished r x.session) (htimers : x.timersOf c = [])

namespace Bound

theorem counted (h : Bound r c x) : (x.cells c).counted = some false := by
  obtain ⟨habit, hrow, htimed, _⟩ := h.habit
  rw [(h.laid.habit (r, c) (mem_of_cellForItem h.shown) habit hrow).2, htimed]

theorem free (h : Bound r c x) : x.Free r c := h.laid.free h.shown

/-- What every run keeps is kept here too. -/
theorem run (h : Bound r c x) {es : List ScreenEvent} {y : Screen} (hy : x.run es = y)
    (hrunning : y.session.crashed = none) (hshown : y.cellForItem r = some c)
    (hindex : (y.cells c).indexPathCell = some r)
    (hhabit : ∃ habit, y.session.habitArray[r]? = some habit ∧ habit.counted = false ∧
      habit.addFirebase = true)
    (hdocument : ∃ doc, y.session.store.habits r = some doc) : Bound r c y where
  running := hrunning
  laid := hy ▸ Runs.run_invariant (fun _ e h _ => h.step e) (Runs.guarded_true x es) h.laid
  scheduled :=
    hy ▸ Runs.run_invariant (fun _ e h _ => h.step e) (Runs.guarded_true x es) h.scheduled
  shown := hshown
  index := hindex
  habit := hhabit
  document := hdocument

theorem tap (h : Bound r c x) (hmenu : (x.cells c).deleteButtonHidden = true) :
    x.step (.didSelectItemAt r c c) = x.saveDay.startCountdown c r !(x.cells c).startVar := by
  obtain ⟨habit, hrow, htimed, hadd⟩ := h.habit
  exact tap_timed x c r h.running ⟨h.free, h.free⟩ h.shown hrow htimed hadd hmenu

/-- A tap on an open menu lays the row out again. -/
theorem tap_menu (h : Bound r c x) (hmenu : (x.cells c).deleteButtonHidden = false) :
    x.step (.didSelectItemAt r c c) = x.saveDay.cellForItemAt r c := by
  obtain ⟨habit, hrow, htimed, hadd⟩ := h.habit
  have htap : x.Tap r c c c habit _ := didSelectItemAt_tap x r h.shown hrow
  rw [step, if_pos h.running, handle, if_pos ⟨h.free, h.free⟩]
  generalize x.didSelectItemAt r c c = y at htap
  cases htap with
  | menu => rfl
  | _ => simp_all

end Bound

/-- There is nothing to serve, to deliver and to run. -/
theorem run_arrivals (y : Screen) {n m : Nat} (hreads : y.reads.length ≤ n)
    (hblocks : y.blocks.length ≤ m) :
    y.run [.serveTime n, .deliverTime n, .startTimer m] = y := by
  by_cases hrunning : y.session.crashed = none
  · simp [step, handle, hrunning, serveTime, deliverTime, runBlock, hreads, hblocks]
  · simp [step, hrunning]

namespace Paused

/-- A tap on a closed menu starts the countdown with the time that the cell
has. -/
theorem start (h : Paused r c x) (hmenu : (x.cells c).deleteButtonHidden = true) :
    Counting r c (act r c x .tap) ∧ ((act r c x .tap).cells c).time = (x.cells c).time := by
  have hact : act r c x .tap =
      ((x.saveDay.setCell c (started (x.cells c))).arrived r c (x.cells c).time).startTimer
        { cell := c, ident := (x.saveDay.setCell c (started (x.cells c))).shownIdent c } := by
    rw [act_tap, h.tap hmenu, h.startVar, Bool.not_false, startCountdown_true]
    refine fetch_arrives true h.running ?_ h.stored
    rw [setCell_cells, Function.update_self]
    exact h.counted
  have htimers := h.timers
  simp only [timersOf] at htimers
  rw [hact]
  refine ⟨⟨h.run hact h.running h.shown ?_ h.habit h.document, ?_, ?_, ?_, ?_⟩, ?_⟩
  · simpa [startTimer, arrived, timed, started] using h.index
  · simp [startTimer, arrived, timed, started]
  · simp [startTimer, arrived, timed, started, Cell.running]
  · simpa [startTimer, arrived, timed, started] using hmenu
  · exact ⟨_, by simp [timersOf, startTimer, arrived, htimers, saveDay]; rfl,
      by simp [startTimer, arrived, saveDay], by simp [timed, started]⟩
  · simp [startTimer, arrived, timed, Cell.time]

/-- A tap on an open menu closes it, and the time is read again. -/
theorem close (h : Paused r c x) (hmenu : (x.cells c).deleteButtonHidden = false) :
    Paused r c (act r c x .tap) ∧ ((act r c x .tap).cells c).time = (x.cells c).time := by
  obtain ⟨habit, hrow, htimed, hadd⟩ := h.habit
  let y := (x.saveDay.place c r).setCell c (configured habit (laidOut r habit (x.cells c)))
  have hreads : y.reads = x.reads := invalidateAll_reads x.saveDay
  have hblocks : y.blocks = x.blocks := invalidateAll_blocks x.saveDay
  have hsession : y.session = x.saveDay.session := invalidateAll_session x.saveDay
  have hact : act r c x .tap = y.arrived r c (x.cells c).time := by
    rw [act_tap, h.tap_menu hmenu, cellForItemAt_timed x.saveDay c r hrow htimed hadd, ← hreads,
      ← hblocks]
    refine fetch_arrives false (hsession ▸ h.running) ?_ (hsession ▸ h.stored)
    simp [configured, laidOut, Cell.setMenu, htimed]
  have htimers : (y.arrived r c (x.cells c).time).timersOf c = [] := by
    have hnone := h.timers
    simp only [timersOf, List.filter_eq_nil_iff] at hnone ⊢
    exact fun t ht => hnone t ((keeps_invalidateAll x.saveDay).timers t ht)
  rw [hact]
  refine ⟨⟨h.run hact ?_ ?_ ?_ ?_ ?_, ?_, htimers, ?_⟩, ?_⟩
  · exact hsession ▸ h.running
  · simp [arrived, y, place, cellForItem]
  · simp [arrived, y, timed, configured, laidOut, Cell.setMenu]
  · exact hsession ▸ h.habit
  · exact hsession ▸ h.document
  · simpa [arrived, y, timed, configured, laidOut, Cell.setMenu] using h.startVar
  · have hstored := h.stored
    simp only [arrived, setCell_session, setCell_cells, Function.update_self, hsession]
    exact hstored
  · simp [arrived, timed, Cell.time]

/-- A tap leaves the time as it is. -/
theorem tap (h : Paused r c x) :
    (Paused r c (act r c x .tap) ∨ Counting r c (act r c x .tap)) ∧
      ((act r c x .tap).cells c).time = (x.cells c).time := by
  cases hmenu : (x.cells c).deleteButtonHidden with
  | true => exact ⟨Or.inr (h.start hmenu).1, (h.start hmenu).2⟩
  | false => exact ⟨Or.inl (h.close hmenu).1, (h.close hmenu).2⟩

end Paused

/-- A stop stores the time of the cell. -/
theorem Bound.stop (h : Bound r c x) {es : List ScreenEvent} {y : Screen}
    (hy : x.run es = y) (hrunning : y.session.crashed = none) (hshown : y.shown = x.shown)
    (hindex : (y.cells c).indexPathCell = (x.cells c).indexPathCell)
    (hstart : (y.cells c).startVar = false) (htime : (y.cells c).time = (x.cells c).time)
    (htimers : y.timersOf c = [])
    (hstore : ∃ ident, y.session.store = x.session.store.apply
      (.updateHabit r { timeArray := some (x.cells c).createdArray } ident))
    (hlist : ∀ habit, x.session.habitArray[r]? = some habit → y.session.habitArray =
      x.session.habitArray.set r { habit with time := (x.cells c).createdArray }) :
    Paused r c y := by
  obtain ⟨habit, hrow, htimed, hadd⟩ := h.habit
  obtain ⟨hlt, _⟩ := List.getElem?_eq_some_iff.mp hrow
  obtain ⟨doc, hdoc⟩ := h.document
  obtain ⟨ident, hstore⟩ := hstore
  have hdocument : y.session.store.habits r =
      some { doc with
        fields := doc.fields.merge { timeArray := some (x.cells c).createdArray } } := by
    rw [hstore, Store.apply_updateHabit_habits, if_pos rfl, hdoc]
    rfl
  refine ⟨h.run hy hrunning ?_ (hindex.trans h.index) ?_ ⟨_, hdocument⟩, hstart, htimers, ?_⟩
  · rw [cellForItem, hshown]
    exact h.shown
  · exact ⟨{ habit with time := (x.cells c).createdArray },
      by rw [hlist habit hrow, List.getElem?_set_self hlt], htimed, hadd⟩
  · simp [Store.storedTime, hdocument, HabitFields.merge, htime]

/-- A long press stops a countdown that does not run. -/
theorem Paused.longPress (h : Paused r c x) :
    Paused r c (act r c x .longPress) ∧
      ((act r c x .longPress).cells c).time = (x.cells c).time := by
  have hact : act r c x .longPress = x.handleLongPress r := if_pos h.running
  cases hpress : (x.cells c).running with
  | true =>
    have hsame : act r c x .longPress = x := by
      rw [hact, handleLongPress_of_running]
      intro c' hc'
      rwa [← Option.some.inj (h.shown.symm.trans hc')]
    rw [hsame]
    exact ⟨h, rfl⟩
  | false =>
    obtain ⟨habit, hrow, htimed, hadd⟩ := h.habit
    obtain ⟨hstore, hlist⟩ := longPress_session h.running h.shown hrow htimed hpress
    obtain ⟨hlt, _⟩ := List.getElem?_eq_some_iff.mp hrow
    have hpressed := handleLongPress_of_row x c r h.shown hpress hrow
    rw [htimed, if_neg (by decide)] at hpressed
    have hsession := stop_session (x.opened c) c r hrow
    have htime : ((act r c x .longPress).cells c).time = (x.cells c).time := by
      rw [hact, hpressed]
      simp [stop, stopped, opened, Cell.time, Cell.setMenu]
    refine ⟨h.stop rfl ?_ ?_ ?_ ?_ htime ?_ ⟨_, hstore⟩ fun habit' hrow' => ?_, htime⟩
    · have hrow' : r < ((x.opened c).stop c r).session.habitArray.length := by
        rw [hsession, State.setRow_habitArray, List.length_set]
        exact hlt
      rw [hact, hpressed]
      dsimp only
      rw [HabitCollection.handleLongPress, if_pos hrow', hsession]
      exact h.running
    · rw [hact, hpressed]
      rfl
    · rw [hact, hpressed]
      simp [stop, stopped, opened, Cell.setMenu]
    · rw [hact, hpressed]
      simp [stop, stopped, opened]
    · rw [hact, hpressed]
      show ((x.opened c).invalidate _).timersOf c = []
      rw [timersOf_invalidate, show (x.opened c).timersOf c = [] from h.timers, List.filter_nil]
    · rw [← Option.some.inj (hrow.symm.trans hrow')]
      exact hlist

/-- A tap stops the countdown. -/
theorem Counting.tap (h : Counting r c x) :
    Paused r c (act r c x .tap) ∧ ((act r c x .tap).cells c).time = (x.cells c).time := by
  obtain ⟨habit, hrow, htimed, hadd⟩ := h.habit
  obtain ⟨t, htimers, htimer, _⟩ := h.timers
  have hact : act r c x .tap = x.saveDay.stop c r := by
    rw [act_tap, h.toBound.tap h.menu, h.startVar, Bool.not_true, startCountdown_false]
    exact run_arrivals _ (Nat.le_refl _) (Nat.le_refl _)
  have hsession := stop_session x.saveDay c r hrow
  have htime : ((x.saveDay.stop c r).cells c).time = (x.cells c).time := by
    simp [stop, stopped, Cell.time, saveDay]
  rw [hact]
  refine ⟨h.stop hact ?_ rfl ?_ ?_ htime ?_ ⟨(x.shownIdent c).getD 0, ?_⟩ fun habit' hrow' => ?_,
    htime⟩
  · rw [hsession]
    exact h.running
  · simp [stop, stopped, saveDay]
  · simp [stop, stopped]
  · show (x.invalidate (x.cells c).timer.toList).timersOf c = []
    simp [timersOf_invalidate, htimers, htimer]
  · rw [hsession]
    rfl
  · rw [← Option.some.inj (hrow.symm.trans hrow'), hsession]
    rfl

theorem Counting.longPress (h : Counting r c x) : act r c x .longPress = x := by
  show x.step (.handleLongPress r) = x
  rw [step, if_pos h.running, handle, handleLongPress_of_running]
  intro c' hc'
  rw [← Option.some.inj (h.shown.symm.trans hc')]
  exact h.press

/-! ## Ticks -/

theorem act_tick_of_nil (h : x.timersOf c = []) :
    act r c x .tick = x ∧ actTicks r c x .tick = [] := by
  simp [act, actTicks, actionEvents, h]

/-- The one timer of the cell ticks. -/
theorem act_tick {t : CellTimer} (hscheduled : Scheduled x) (hrunning : x.session.crashed = none)
    (htimers : x.timersOf c = [t]) (hrepeats : t.repeats = true) :
    act r c x .tick = x.action c ∧ actTicks r c x .tick = [(x.cells c).alerts] := by
  obtain ⟨ht, hcell⟩ := List.mem_filter.mp (htimers ▸ List.mem_singleton_self t : t ∈ x.timersOf c)
  have hcell : t.cell = c := by simpa using hcell
  have hfind : x.timers.find? (fun t' => t'.id = t.id) = some t := by
    cases hfound : x.timers.find? fun t' => t'.id = t.id with
    | none =>
      have := List.find?_eq_none.mp hfound t ht
      simp at this
    | some t' =>
      have hid : t'.id = t.id := by simpa using List.find?_some hfound
      rw [hscheduled.unique t' (List.mem_of_find?_eq_some hfound) t ht hid]
  simp [act, actTicks, actionEvents, htimers, step, handle, Screen.tick, ticked, hrunning, hfind,
    hrepeats, hcell]

/-- A tick before the end takes one second. -/
theorem Counting.tick (h : Counting r c x) (hpos : (x.cells c).atZero = false) :
    Counting r c (act r c x .tick) ∧
      ((act r c x .tick).cells c).time = (x.cells c).countDown.time ∧
      actTicks r c x .tick = [false] := by
  obtain ⟨t, htimers, htimer, hrepeats⟩ := h.timers
  obtain ⟨hact, hticks⟩ := act_tick h.scheduled h.running htimers hrepeats (r := r)
  obtain ⟨hour, minute, second, hcell⟩ := countDown_timed (x.cells c)
  have hact : act r c x .tick =
      x.setCell c (timed hour minute second (x.cells c).timeIdent (x.cells c)) := by
    rw [hact, action_of_pos x c hpos, hcell]
  refine ⟨?_, ?_, ?_⟩
  · rw [hact]
    refine ⟨h.run hact h.running h.shown ?_ h.habit h.document, ?_, ?_, ?_, t, htimers,
      ?_, hrepeats⟩
    all_goals rw [setCell_cells, Function.update_self]
    · exact h.index
    · exact h.startVar
    · exact h.press
    · exact h.menu
    · exact htimer
  · rw [hact, setCell_cells, Function.update_self, hcell]
  · rw [hticks, Cell.alerts, hpos, Bool.false_and]

/-- The tick at zero finishes the habit, unless the process ends. -/
theorem Counting.finished (h : Counting r c x) (hzero : (x.cells c).atZero = true)
    (hnext : (x.action c).session.crashed = none) : Finished r (x.action c).session := by
  have halerts : (x.cells c).alerts = true := by
    rw [Cell.alerts, hzero, h.index]
    rfl
  obtain ⟨row, habit, hindex, hrow, hsession⟩ := (alerts_iff x c hnext).mp halerts
  obtain rfl : row = r := Option.some.inj (hindex.symm.trans h.index)
  obtain ⟨hlt, _⟩ := List.getElem?_eq_some_iff.mp hrow
  obtain ⟨doc, hdoc⟩ := h.document
  rw [hsession]
  constructor
  · exact ⟨{ habit with addFirebase := false }, by
      simp [HabitCollection.showAlert, hrow, List.getElem?_set_self hlt], rfl⟩
  · exact ⟨{ doc with fields := doc.fields.merge { addFirebase := some false } },
      by simp [HabitCollection.showAlert, hrow, Store.apply_updateHabit_habits, hdoc], rfl⟩

/-- The tick at zero shows the alert. -/
theorem Counting.alert (h : Counting r c x) (hzero : (x.cells c).atZero = true) :
    Over r c (act r c x .tick) ∧ actTicks r c x .tick = [true] := by
  obtain ⟨t, htimers, htimer, hrepeats⟩ := h.timers
  obtain ⟨hact, hticks⟩ := act_tick h.scheduled h.running htimers hrepeats (r := r)
  refine ⟨?_, by rw [hticks, Cell.alerts, hzero, h.index]; rfl⟩
  rcases action_of_zero x c hzero with hcrash | ⟨row, hindex, halert⟩
  · exact .crashed (by simp [hact, hcrash])
  · obtain rfl := Option.some.inj (hindex.symm.trans h.index)
    have hfinished := h.finished hzero
    rw [hact]
    rw [halert] at hfinished ⊢
    by_cases hrunning :
        ((x.invalidate (x.cells c).timer.toList).showAlert c row).session.crashed = none
    · have hsame := same_showAlert c (x.invalidate (x.cells c).timer.toList) c row
      have hshown := (steady_showAlert (x.invalidate (x.cells c).timer.toList) c row).shown
      refine .shown ?_ ?_ (hsame.menu h.menu) (hfinished hrunning) ?_
      · rw [cellForItem, hshown]
        exact h.shown
      · rw [Cell.running, hsame.timerRunning]
        exact h.press
      · rw [hsame.timers]
        simp [timersOf_invalidate, htimers, htimer]
    · exact .crashed hrunning

namespace Over

/-- Nothing happens on the cell any more. -/
theorem act (h : Over r c x) (a : Action) :
    Over r c (act r c x a) ∧ actTicks r c x a = [] := by
  by_cases hrunning : x.session.crashed = none
  · cases h with
    | crashed hcrashed => exact absurd hrunning hcrashed
    | shown hshown hpress hmenu hfinished htimers =>
      have hover : Over r c x := .shown hshown hpress hmenu hfinished htimers
      cases a with
      | tap =>
        obtain ⟨habit, hrow, hadd⟩ := hfinished.habit
        have htap : x.Tap r c c c habit _ := didSelectItemAt_tap x r hshown hrow
        rw [act_tap, step, if_pos hrunning, handle]
        refine ⟨?_, rfl⟩
        split
        · generalize x.didSelectItemAt r c c = y at htap
          cases htap with
          | finished =>
            have hover : Over r c x.saveDay :=
              .shown hshown hpress hmenu ⟨⟨habit, hrow, hadd⟩, hfinished.document⟩ htimers
            rwa [← run_arrivals x.saveDay (n := x.reads.length) (m := x.blocks.length)
              (Nat.le_refl _) (Nat.le_refl _)] at hover
          | _ => simp_all
        · rw [run_arrivals _ (Nat.le_refl _) (Nat.le_refl _)]
          exact hover
      | longPress =>
        have hact : Screen.act r c x .longPress = x := by
          show x.step (.handleLongPress r) = x
          rw [step, if_pos hrunning, handle, handleLongPress_of_running]
          intro c' hc'
          rwa [← Option.some.inj (hshown.symm.trans hc')]
        rw [hact]
        exact ⟨hover, rfl⟩
      | tick =>
        rw [(act_tick_of_nil htimers).1]
        exact ⟨hover, (act_tick_of_nil htimers).2⟩
  · have hevents : ∀ e ∈ actionEvents r c x a, e ≠ .session .relaunch := by
      cases a <;> simp [actionEvents]
    obtain ⟨hact, hticks⟩ := run_of_crashed c hrunning hevents
    rw [Screen.act, hact]
    exact ⟨h, hticks⟩

end Over

/-! ## Runs -/

/-- A screen and its ticks so far: those of a countdown of `N` seconds. -/
inductive Progress (r c N : Nat) (p : Screen × List Bool) : Prop where
  | left (hphase : Paused r c p.1 ∨ Counting r c p.1) (hnonneg : NonNeg (p.1.cells c).time)
      (hseconds : seconds (p.1.cells c).time + p.2.length = N)
      (hticks : p.2 = List.replicate p.2.length false)
  | zero (h : Over r c p.1) (hticks : p.2 = List.replicate N false ++ [true])

namespace Progress

variable {N : Nat} {ticks : List Bool}

/-- A tap or a long press keeps the time. -/
theorem press (hphase : Paused r c x ∨ Counting r c x) {a : Action} (ha : a ≠ .tick) :
    (Paused r c (act r c x a) ∨ Counting r c (act r c x a)) ∧
      ((act r c x a).cells c).time = (x.cells c).time ∧ actTicks r c x a = [] := by
  cases a with
  | tick => contradiction
  | tap =>
    rcases hphase with h | h
    · exact ⟨h.tap.1, h.tap.2, rfl⟩
    · exact ⟨Or.inl h.tap.1, h.tap.2, rfl⟩
  | longPress =>
    rcases hphase with h | h
    · exact ⟨Or.inl h.longPress.1, h.longPress.2, rfl⟩
    · rw [h.longPress]
      exact ⟨Or.inr h, rfl, rfl⟩

theorem tick (hphase : Paused r c x ∨ Counting r c x) (hnonneg : NonNeg (x.cells c).time)
    (hseconds : seconds (x.cells c).time + ticks.length = N)
    (hticks : ticks = List.replicate ticks.length false) :
    Progress r c N (act r c x .tick, ticks ++ actTicks r c x .tick) := by
  rcases hphase with h | h
  · obtain ⟨hact, hnone⟩ := act_tick_of_nil (r := r) h.timers
    rw [hact, hnone, List.append_nil]
    exact .left (Or.inl h) hnonneg hseconds hticks
  · cases hzero : (x.cells c).atZero with
    | true =>
      obtain ⟨hover, halert⟩ := h.alert hzero
      have hlength : ticks.length = N := by
        rw [Cell.seconds_of_atZero _ hzero] at hseconds
        omega
      rw [halert]
      refine .zero hover ?_
      rw [hticks, hlength]
    | false =>
      obtain ⟨hcounting, htime, hfalse⟩ := h.tick hzero
      obtain ⟨hnonneg', hless⟩ := (x.cells c).seconds_countDown hnonneg hzero
      rw [hfalse]
      refine .left (Or.inr hcounting) (by rwa [htime]) ?_ ?_
      · simp only [htime, hless, List.length_append, List.length_singleton]
        push_cast
        omega
      · rw [List.length_append, List.length_singleton, List.replicate_succ', ← hticks]

theorem step {p : Screen × List Bool} (h : Progress r c N p) (a : Action) :
    Progress r c N (Runs.record (act r c) (actTicks r c) p a) := by
  obtain ⟨x, ticks⟩ := p
  cases h with
  | left hphase hnonneg hseconds hticks =>
    by_cases ha : a = .tick
    · rw [ha]
      exact tick hphase hnonneg hseconds hticks
    · obtain ⟨hphase', htime, hnone⟩ := press hphase ha
      refine .left hphase' ?_ ?_ ?_ <;>
        simp only [Runs.record_fst, Runs.record_snd, hnone, List.append_nil, htime]
      · exact hnonneg
      · exact hseconds
      · exact hticks
  | zero hover hticks =>
    obtain ⟨hover', hnone⟩ := hover.act a
    exact .zero hover' (by rw [Runs.record_snd, hnone, List.append_nil, hticks])

end Progress

/-- The ticks so far are those of one countdown of `N` seconds, which shows
the alert once, at its last tick.  Until then the cell has the time that is
left, which no press changes and each stop stores. -/
structure Exact (r c N : Nat) (x : Screen) (ticks : List Bool) : Prop where
  alert : ticks <+: List.replicate N false ++ [true]
  time : ticks.length ≤ N →
    NonNeg (x.cells c).time ∧ seconds (x.cells c).time = (N : Int) - ticks.length
  /-- a stop has stored what the next start reads -/
  stored : ticks.length ≤ N → (x.cells c).startVar = false →
    x.session.store.storedTime r = some (x.cells c).time
  press : ticks.length ≤ N → ∀ a ≠ .tick, ((act r c x a).cells c).time = (x.cells c).time
  /-- a tap with the menu closed is a stop or a start -/
  toggles : ticks.length ≤ N → (x.cells c).deleteButtonHidden = true →
    ((act r c x .tap).cells c).startVar = !(x.cells c).startVar
  /-- the countdown goes on while it is not stopped -/
  counts : ticks.length ≤ N → (x.cells c).startVar = true → (actTicks r c x .tick).length = 1
  /-- the alert has finished the habit, unless the process ended with it -/
  finished : ticks.length = N + 1 → x.session.crashed = none → Finished r x.session

theorem Progress.exact {N : Nat} {ticks : List Bool} (h : Progress r c N (x, ticks)) :
    Exact r c N x ticks := by
  cases h with
  | left hphase hnonneg hseconds hticks =>
    simp only at hphase hnonneg hseconds hticks
    have hlength : ticks.length ≤ N := by
      obtain ⟨hhour, hminute, hsecond⟩ := hnonneg
      simp only [seconds] at hseconds
      omega
    refine ⟨?_, fun _ => ⟨hnonneg, by omega⟩, fun _ hstart => ?_,
      fun _ a ha => (Progress.press hphase ha).2.1, fun _ hmenu => ?_, fun _ hstart => ?_,
      fun hend => by omega⟩
    · refine (?_ : ticks <+: List.replicate N false).trans (List.prefix_append _ _)
      exact ⟨List.replicate (N - ticks.length) false, by
        rw [hticks, List.length_replicate, ← List.replicate_add, Nat.add_sub_cancel' hlength]⟩
    · rcases hphase with h | h
      · exact h.stored
      · simp [h.startVar] at hstart
    · rcases hphase with h | h
      · rw [(h.start hmenu).1.startVar, h.startVar, Bool.not_false]
      · rw [h.tap.1.startVar, h.startVar, Bool.not_true]
    · rcases hphase with h | h
      · simp [h.startVar] at hstart
      · obtain ⟨t, htimers, _, hrepeats⟩ := h.timers
        rw [(act_tick h.scheduled h.running htimers hrepeats).2]
        rfl
  | zero hover hticks =>
    simp only at hover hticks
    have hlength : ticks.length = N + 1 := by
      rw [hticks, List.length_append, List.length_replicate, List.length_singleton]
    have hfinished : x.session.crashed = none → Finished r x.session := by
      intro hrunning
      cases hover with
      | crashed hcrashed => exact absurd hrunning hcrashed
      | shown _ _ _ hfinished _ => exact hfinished
    refine ⟨hticks ▸ List.prefix_refl _, ?_, ?_, ?_, ?_, ?_, fun _ => hfinished⟩ <;> intro hle <;>
      omega

/-- From every reachable screen on which the cell of a timed habit is not
counting and has the stored time: whatever sequence of taps, long presses
and ticks follows, the ticks are those of one countdown. -/
theorem countdown_exact (st : Store) (fs : List ScreenEvent) (as : List Action) {x : Screen}
    {r c : Nat} {habit : Habit} {doc : HabitDoc} {a₀ a₁ a₂ a₃ a₄ a₅ : Nat}
    (hx : (launched st).run fs = x) (hrunning : x.session.crashed = none)
    (hshown : x.cellForItem r = some c) (hindex : (x.cells c).indexPathCell = some r)
    (hrow : x.session.habitArray[r]? = some habit) (htimed : habit.counted = false)
    (hadd : habit.addFirebase = true) (hstart : (x.cells c).startVar = false)
    (hlive : ¬Live c x) (hdoc : x.session.store.habits r = some doc)
    (harray : doc.fields.timeArray = some [(a₀ : Int), a₁, a₂, a₃, a₄, a₅])
    (hread : (x.cells c).time = (10 * (a₀ : Int) + a₁, 10 * (a₂ : Int) + a₃,
      10 * (a₄ : Int) + a₅)) :
    Exact r c (3600 * (10 * a₀ + a₁) + 60 * (10 * a₂ + a₃) + (10 * a₄ + a₅))
      (Runs.run (act r c) x as) (Runs.observe (act r c) (actTicks r c) x as) := by
  have hbound : Bound r c x :=
    ⟨hrunning, hx ▸ laid_run st fs, hx ▸ scheduled_run st fs, hshown, hindex,
      ⟨habit, hrow, htimed, hadd⟩, ⟨doc, hdoc⟩⟩
  have htimers : x.timersOf c = [] := by
    refine List.filter_eq_nil_iff.mpr fun t ht hc => hlive ⟨t, ht, by simpa using hc⟩
  have hstored : x.session.store.storedTime r = some (x.cells c).time := by
    rw [hread]
    simp [Store.storedTime, hdoc, harray, arrayTime, Int.mul_comm]
  have hbegin : Progress r c (3600 * (10 * a₀ + a₁) + 60 * (10 * a₂ + a₃) + (10 * a₄ + a₅))
      (x, []) := by
    refine .left (Or.inl ⟨hbound, hstart, htimers, hstored⟩) ?_ ?_ rfl
    · rw [hread]
      simp only [NonNeg]
      omega
    · simp only [hread, seconds, List.length_nil]
      push_cast
      ring
  have hend := Runs.run_invariant (fun _ a h _ => h.step a) (Runs.guarded_true (x, []) as) hbegin
  rw [Runs.run_record, List.nil_append] at hend
  exact hend.exact

/-- The habit of five minutes, after the reads of the layout. -/
theorem countdown_exact_five_minutes :
    let x := (loaded account).run (arrivals 2 0)
    ∀ as, Exact 1 1 300 (Runs.run (act 1 1) x as) (Runs.observe (act 1 1) (actTicks 1 1) x as) :=
  fun as => countdown_exact (.ofEntries account) (loads 3 ++ arrivals 2 0) as
    (Runs.run_append ..) (by decide +kernel) (by decide +kernel) (by decide +kernel)
    (show ((loaded account).run (arrivals 2 0)).session.habitArray[1]? =
      some ((Entry.timed [0, 0, 0, 5, 0, 0]).toHabit 1 1) by decide +kernel)
    (by decide) (by decide) (by decide +kernel) (by decide +kernel)
    (show ((loaded account).run (arrivals 2 0)).session.store.habits 1 =
      some { fields := (Entry.timed [0, 0, 0, 5, 0, 0]).fields, ident := 1 } by decide +kernel)
    (show (Entry.timed [0, 0, 0, 5, 0, 0]).fields.timeArray =
      some [((0 : Nat) : Int), (0 : Nat), (0 : Nat), (5 : Nat), (0 : Nat), (0 : Nat)] from rfl)
    (by decide +kernel)

end HabitHive.Screen
