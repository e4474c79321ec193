import HabitHive.Cells
import HabitHive.Times

/-!
# Stored times in every run

A time gets into the documents from a picker, from a cell whose countdown
stops, and from a document that was read before.  A cell holds a time in
range at every moment, since it is set from well-formed arrays only and a
tick keeps the range.

The array of a picker is well formed as soon as it was moved.  Before that
it is what `viewDidLoad` made of the array it was given: six entries for a
create form, more than six for an edit form.
-/

namespace HabitHive

/-- The time of a cell is in range, and the habit that it shows has
well-formed times. -/
def Cell.TimesFormed (cell : Cell) : Prop :=
  InRange cell.time ∧ ∀ habit ∈ cell.habitCell, habit.TimesFormed

namespace Screen

/-- An event of the session that is no launch and happens on no cell. -/
theorem step_session {x : Screen} {e : Event} (hrunning : x.session.crashed = none)
    (hrelaunch : e ≠ .relaunch) (hcell : e.onCell = false) :
    x.step (.session e) = { x with
      session := HabitHive.handle x.session e
      shown := if reloadsData x.session e then [] else x.shown } := by
  rw [Screen.step, if_pos hrunning, Screen.handle, sessionEvent, if_neg hrelaunch,
    if_neg (Bool.eq_false_iff.mp hcell), step_of_running hrunning]

/-- All times of the session, of the cells and of their reads are well
formed. -/
structure Formed (unmoved : Nat → Bool) (x : Screen) : Prop where
  session : HabitHive.Formed unmoved x.session
  cells : ∀ c, (x.cells c).TimesFormed
  reads : ∀ r ∈ x.reads, ∀ doc ∈ r.snapshot, doc.TimesFormed

namespace Formed

variable {unmoved : Nat → Bool} {x : Screen}

theorem fresh {s : State} (hs : HabitHive.Formed unmoved s) : Formed unmoved { session := s } := by
  have hcell : ({} : Cell).TimesFormed := ⟨⟨by decide, by decide, by decide⟩, by simp⟩
  exact ⟨hs, fun _ => hcell, by simp⟩

theorem setCell (h : Formed unmoved x) (c : Nat) {cell : Cell} (hcell : cell.TimesFormed) :
    Formed unmoved (x.setCell c cell) := by
  refine ⟨h.session, fun d => ?_, h.reads⟩
  rw [setCell_cells, Function.update_apply]
  split
  · exact hcell
  · exact h.cells d

theorem withSession (h : Formed unmoved x) {s : State} (hs : HabitHive.Formed unmoved s) :
    Formed unmoved { x with session := s } := ⟨hs, h.cells, h.reads⟩

theorem crash (h : Formed unmoved x) (f : Fault) : Formed unmoved (x.crash f) :=
  h.withSession (h.session.same rfl (fun _ hmem => hmem) rfl rfl rfl)

theorem fetch (h : Formed unmoved x) (c row : Nat) (start : Bool) :
    Formed unmoved (x.fetchTimeFromFirebase c row start) := by
  refine ⟨h.session, h.cells, fun r hr => ?_⟩
  rcases List.mem_append.mp hr with hr | hr
  · exact h.reads r hr
  · rw [List.mem_singleton.mp hr]
    simp

theorem configure (h : Formed unmoved x) (c : Nat) {habit : Habit} (hhabit : habit.TimesFormed) :
    Formed unmoved (x.configure c habit) := by
  have hcell : Formed unmoved (x.setCell c (configured habit (x.cells c))) := by
    refine h.setCell c ⟨(h.cells c).1, fun habit' hmem => ?_⟩
    rwa [← Option.some.inj hmem]
  rcases configure_cases x c habit with ⟨_, heq⟩ | ⟨_, _, row, _, heq⟩ | ⟨f, heq⟩ <;> rw [heq]
  · exact hcell
  · exact hcell.fetch c row false
  · exact hcell.crash f

theorem place (h : Formed unmoved x) (c row : Nat) : Formed unmoved (x.place c row) := by
  refine ⟨?_, ?_, ?_⟩
  · simpa [Screen.place] using h.session
  · simpa [Screen.place] using h.cells
  · simpa [Screen.place] using h.reads

theorem cellForItemAt (h : Formed unmoved x) (row c : Nat) :
    Formed unmoved (x.cellForItemAt row c) := by
  cases hrow : x.session.habitArray[row]? with
  | none =>
    rw [cellForItemAt_of_none x c row hrow]
    exact (h.place c row).crash _
  | some habit =>
    rw [cellForItemAt_of_row x c row hrow]
    have hcell : (laidOut row habit (x.cells c)).TimesFormed := h.cells c
    exact ((h.place c row).setCell c hcell).configure c (h.session.row hrow)

theorem stop (h : Formed unmoved x) (c row : Nat) : Formed unmoved (x.stop c row) := by
  have hcell : (stopped (x.cells c)).TimesFormed := h.cells c
  have hstopped := (h.setCell c hcell).withSession (h.session.createTimeArray row
    ((x.shownIdent c).getD 0) (wellFormed_createdArray (h.cells c).1))
  exact ⟨hstopped.session, hstopped.cells, hstopped.reads⟩

theorem startCountdown (h : Formed unmoved x) (c row : Nat) (start : Bool) :
    Formed unmoved (x.startCountdown c row start) := by
  cases start
  · rw [startCountdown_false]
    exact h.stop c row
  · rw [startCountdown_true]
    have hcell : (started (x.cells c)).TimesFormed := h.cells c
    exact (h.setCell c hcell).fetch c row true

theorem completeCounted (h : Formed unmoved x) (d row : Nat) {habit : Habit}
    (hhabit : habit.TimesFormed) : Formed unmoved (x.completeCounted d row habit) := by
  have hsession := h.withSession (h.session.completeCounted row hhabit)
  have hcompleted : (completed habit).TimesFormed := hhabit
  unfold Screen.completeCounted
  dsimp only
  split
  · exact hsession.configure d hcompleted
  · exact hsession

theorem tapCounted (h : Formed unmoved x) (d row c₁ c₂ : Nat) {habit : Habit}
    (hhabit : habit.TimesFormed) : Formed unmoved (x.tapCounted d row c₁ c₂ habit) := by
  have hincremented : habit.incremented.TimesFormed := by
    unfold Habit.incremented
    split <;> exact hhabit
  by_cases hcount : habit.currentCount < habit.goal
  · rw [tapCounted_of_lt x row hcount]
    have hup := h.withSession (h.session.countUp row hincremented)
    exact ((hup.cellForItemAt row c₁).completeCounted d row hincremented).cellForItemAt row c₂
  · rw [tapCounted_of_not_lt x row hcount]
    exact (h.completeCounted d row hhabit).cellForItemAt row c₂

theorem didSelectItemAt (h : Formed unmoved x) (row c₁ c₂ : Nat) :
    Formed unmoved (x.didSelectItemAt row c₁ c₂) := by
  have hday : Formed unmoved x.saveDay :=
    h.withSession (h.session.same rfl (fun _ hmem => hmem) rfl rfl rfl)
  rcases didSelectItemAt_cases x row c₁ c₂ with heq | heq | ⟨d, habit, _, hrow, htap⟩
  · rwa [heq]
  · rw [heq]
    exact hday.crash _
  · generalize x.didSelectItemAt row c₁ c₂ = y at htap ⊢
    cases htap with
    | finished => exact hday
    | menu => exact hday.cellForItemAt row c₂
    | start => exact hday.startCountdown d row true
    | stop => exact hday.startCountdown d row false
    | counted => exact hday.tapCounted d row c₁ c₂ (h.session.row hrow)

theorem setMenu (h : Formed unmoved x) (c : Nat) (hidden : Bool) :
    Formed unmoved (x.setCell c ((x.cells c).setMenu hidden)) := by
  have hcell : ((x.cells c).setMenu hidden).TimesFormed := h.cells c
  exact h.setCell c hcell

theorem handleLongPress (h : Formed unmoved x) (row : Nat) :
    Formed unmoved (x.handleLongPress row) :=
  rel_handleLongPress (R := fun x y => Formed unmoved x → Formed unmoved y) x row (fun _ => id)
    (fun hxy hyz hx => hyz (hxy hx)) (fun _ f hx => hx.crash f) (fun _ c hx => hx.setMenu c false)
    (fun _ c hx => hx.startCountdown c row false)
    (fun _ _ hx => ⟨hx.session.handleLongPress row, hx.cells, hx.reads⟩) h

theorem handlePressOnCollectionView (h : Formed unmoved x) :
    Formed unmoved x.handlePressOnCollectionView :=
  rel_handlePressOnCollectionView (R := fun x y => Formed unmoved x → Formed unmoved y) x
    (fun _ => id) (fun hxy hyz hx => hyz (hxy hx)) (fun _ c hx => hx.setMenu c true)
    (fun _ hx => ⟨hx.session, hx.cells, hx.reads⟩) h

theorem deleteHabit (h : Formed unmoved x) (c : Nat) : Formed unmoved (x.deleteHabit c) := by
  have hdeleted := h.withSession h.session.deleteHabit
  unfold Screen.deleteHabit
  split
  · split
    · exact hdeleted
    · split
      · exact ⟨hdeleted.session, hdeleted.cells, hdeleted.reads⟩
      · exact hdeleted
  · exact h

theorem editHabit (h : Formed unmoved x) (c : Nat) : Formed unmoved (x.editHabit c) := by
  unfold Screen.editHabit
  split
  · exact h.withSession h.session.editHabit
  · exact h

/-! ### Countdowns -/

theorem showAlert (h : Formed unmoved x) (c row : Nat) : Formed unmoved (x.showAlert c row) := by
  rcases showAlert_cases x c row with ⟨f, heq⟩ | ⟨habit, shown, _, hshown, heq⟩
  · rw [heq]
    exact h.crash f
  · have halerted : (alerted habit (x.cells c)).TimesFormed := h.cells c
    have hfinished : (finished shown).TimesFormed := (h.cells c).2 shown hshown
    have hconfigured := (h.setCell c halerted).configure c hfinished
    rcases heq with heq | heq <;> rw [heq]
    · exact hconfigured
    · exact hconfigured.withSession (hconfigured.session.showAlert row)

theorem invalidate (h : Formed unmoved x) (ids : List Nat) : Formed unmoved (x.invalidate ids) :=
  ⟨h.session, h.cells, h.reads⟩

theorem action (h : Formed unmoved x) (c : Nat) : Formed unmoved (x.action c) := by
  cases hzero : (x.cells c).atZero with
  | false =>
    rw [action_of_pos x c hzero]
    obtain ⟨hour, minute, second, hcell⟩ := countDown_timed (x.cells c)
    refine h.setCell c ⟨inRange_countDown (h.cells c).1, ?_⟩
    rw [hcell]
    exact (h.cells c).2
  | true =>
    rcases action_of_zero x c hzero with heq | ⟨row, _, heq⟩ <;> rw [heq]
    · exact (h.invalidate _).crash _
    · exact (h.invalidate _).showAlert c row

theorem tick (h : Formed unmoved x) (id : Nat) : Formed unmoved (x.tick id) :=
  rel_tick (R := fun x y => Formed unmoved x → Formed unmoved y) x (fun _ hx => hx)
    (fun hxy hyz hx => hyz (hxy hx)) id (fun c hx => hx.action c)
      (fun _ ids hx => hx.invalidate ids) h

/-- A read brings a time in range, from the documents or from the habit of
the cell. -/
theorem timeRead (h : Formed unmoved x) (r : TimeRead) {document : Option Store}
    (hdoc : ∀ doc ∈ document, doc.TimesFormed) : Formed unmoved (x.timeRead r document) := by
  unfold Screen.timeRead
  split
  · exact h
  · next doc =>
    split
    · dsimp only
      split
      · exact h.crash _
      · next result hresult =>
        have hformed : WellFormed result := by
          cases hfield : (doc.habits r.row).bind (·.fields.timeArray) with
          | none =>
            rw [hfield, Option.orElse_none] at hresult
            obtain ⟨habit, hhabit, rfl⟩ := Option.map_eq_some_iff.mp hresult
            exact ((h.cells r.cell).2 habit hhabit).1
          | some time =>
            rw [hfield, Option.orElse_some] at hresult
            obtain ⟨stored, hstored, htime⟩ := Option.bind_eq_some_iff.mp hfield
            exact (hdoc doc rfl r.row stored hstored).1 result (htime.trans hresult)
        obtain ⟨time, htime, hrange⟩ := hformed.arrayTime
        rw [Cell.readTime_eq, htime, Option.map_some]
        exact h.setCell r.cell ⟨hrange, (h.cells r.cell).2⟩
    · exact h

theorem leaveGroup (h : Formed unmoved x) (r : TimeRead) : Formed unmoved (x.leaveGroup r) := by
  unfold Screen.leaveGroup
  split
  · exact ⟨h.session, h.cells, h.reads⟩
  · exact h

theorem dropRead (h : Formed unmoved x) (i : Nat) : Formed unmoved (x.dropRead i) :=
  ⟨h.session, h.cells, fun r hr => h.reads r (List.mem_of_mem_eraseIdx hr)⟩

theorem serveTime (h : Formed unmoved x) (i : Nat) : Formed unmoved (x.serveTime i) := by
  unfold Screen.serveTime
  split
  · exact h
  · next r hr =>
    split
    · refine ⟨h.session, h.cells, fun r' hr' => ?_⟩
      rcases List.mem_or_eq_of_mem_set hr' with hr' | rfl
      · exact h.reads r' hr'
      · intro doc hdoc
        rw [← Option.some.inj hdoc]
        exact h.session.store
    · exact h

theorem deliverTime (h : Formed unmoved x) (i : Nat) : Formed unmoved (x.deliverTime i) := by
  unfold Screen.deliverTime
  split
  · exact h
  · next r hr =>
    split
    · exact h
    · exact ((h.dropRead i).timeRead r (h.reads r (List.mem_of_getElem? hr))).leaveGroup r

theorem failTime (h : Formed unmoved x) (i : Nat) : Formed unmoved (x.failTime i) := by
  unfold Screen.failTime
  split
  · exact h
  · next r _ => exact (h.dropRead i).leaveGroup r

theorem runBlock (h : Formed unmoved x) (i : Nat) : Formed unmoved (x.runBlock i) := by
  unfold Screen.runBlock
  split
  · exact h
  · next b _ =>
    have hcell : ({ x.cells b.cell with timer := some x.nextTimer } : Cell).TimesFormed :=
      h.cells b.cell
    have hset := h.setCell b.cell hcell
    exact ⟨hset.session, hset.cells, hset.reads⟩

/-! ### Steps -/

/-- An event of the session alone. -/
theorem sessionStep (h : Formed unmoved x) {unmoved' : Nat → Bool} {e : Event}
    (hrunning : x.session.crashed = none) (hrelaunch : e ≠ .relaunch) (hcell : e.onCell = false)
    (hs : HabitHive.Formed unmoved' (HabitHive.handle x.session e)) :
    Formed unmoved' (x.step (.session e)) := by
  rw [step_session hrunning hrelaunch hcell]
  exact ⟨hs, h.cells, h.reads⟩

/-- An event that is no launch and confirms no time. -/
theorem step (h : Formed unmoved x) {e : ScreenEvent}
    (hsession : ∀ e', e = .session e' → e' ≠ .relaunch ∧ e'.confirmsTime = false ∧
      (x.session.crashed = none → Careful unmoved x.session e')) : Formed unmoved (x.step e) := by
  by_cases hrunning : x.session.crashed = none
  · have hstep : x.step e = x.handle e := if_pos hrunning
    cases e with
    | session e =>
      obtain ⟨hrelaunch, htime, hok⟩ := hsession e rfl
      cases hcell : e.onCell with
      | true =>
        rw [hstep, Screen.handle, sessionEvent, if_neg hrelaunch, if_pos hcell]
        exact h
      | false =>
        exact h.sessionStep hrunning hrelaunch hcell
          (h.session.handle hrelaunch hcell htime (hok hrunning))
    | cellForItemAt row c =>
      rw [hstep, Screen.handle]
      split
      · exact h.cellForItemAt row c
      · exact h
    | didEndDisplaying row => exact hstep ▸ ⟨h.session, h.cells, h.reads⟩
    | handleLongPress row => exact hstep ▸ h.handleLongPress row
    | handlePressOnCollectionView => exact hstep ▸ h.handlePressOnCollectionView
    | deleteHabit c => exact hstep ▸ h.deleteHabit c
    | editHabit c => exact hstep ▸ h.editHabit c
    | didSelectItemAt row c₁ c₂ =>
      rw [hstep, Screen.handle]
      split
      · exact h.didSelectItemAt row c₁ c₂
      · exact h
    | tick id => exact hstep ▸ h.tick id
    | serveTime i => exact hstep ▸ h.serveTime i
    | deliverTime i => exact hstep ▸ h.deliverTime i
    | failTime i => exact hstep ▸ h.failTime i
    | startTimer i => exact hstep ▸ h.runBlock i
  · have hne : e ≠ .session .relaunch := fun he => (hsession .relaunch he).1 rfl
    rwa [Screen.step, if_neg hrunning, if_neg hne]

end Formed

end Screen

/-! ## Pickers -/

/-- The array of a picker, unless it is one of an edit form that was not
moved. -/
def SetTime.Formed (p : SetTime) : Prop :=
  match p.timeDelegate with
  | .create _ => WellFormed p.timeArray
  | .edit _ => if p.moved then WellFormed p.timeArray else 6 < p.timeArray.length

namespace App

/-- All times that are stored, and those of the list, are well formed. -/
def TimesFormed (a : App) : Prop :=
  a.screen.session.store.TimesFormed ∧ ∀ h ∈ a.screen.session.habitArray, h.TimesFormed

/-- The event writes no time that is not well formed. -/
def Careful (a : App) : AppEvent → Prop
  | .screen (.session e) =>
      a.screen.session.crashed = none → HabitHive.Careful a.unmoved a.screen.session e
  | _ => True

structure Formed (a : App) : Prop where
  screen : a.screen.Formed a.unmoved
  pickers : ∀ p ∈ a.pickers, p.Formed

/-- An event of the session that happens on no cell and in no picker. -/
theorem step_session {a : App} {e : Event} (hrunning : a.screen.session.crashed = none)
    (hrelaunch : e ≠ .relaunch) (htime : e.confirmsTime = false) (hcell : e.onCell = false) :
    (a.step (.screen (.session e))).screen.session = HabitHive.handle a.screen.session e := by
  rw [App.step, if_pos hrunning, App.handle, App.screenEvent, if_neg hrelaunch,
    if_neg (Bool.eq_false_iff.mp htime), Screen.step_session hrunning hrelaunch hcell]

namespace Formed

variable {a : App}

theorem launched {st : Store} (hst : st.TimesFormed) : Formed (App.launched st) :=
  ⟨.fresh (.fresh hst rfl rfl rfl rfl), by simp [App.launched]⟩

theorem timesFormed (h : Formed a) : TimesFormed a :=
  ⟨h.screen.session.store, h.screen.session.list⟩

theorem relaunch (h : Formed a) : Formed { screen := a.screen.step (.session .relaunch) } := by
  have hstep : a.screen.step (.session .relaunch) = { session := a.screen.session.relaunch } := by
    unfold Screen.step
    split <;> rfl
  rw [hstep]
  exact ⟨.fresh h.screen.session.relaunch, by simp⟩

theorem screenEvent (h : Formed a) {e : ScreenEvent} (hok : Careful a (.screen e)) :
    Formed (a.screenEvent e) := by
  cases e with
  | session e =>
    simp only [App.screenEvent]
    split
    · next he =>
      rw [he]
      exact h.relaunch
    · next hrelaunch =>
      split
      · exact h
      · next htime =>
        refine ⟨h.screen.step fun e' he' => ?_, h.pickers⟩
        rw [← ScreenEvent.session.inj he']
        exact ⟨hrelaunch, Bool.eq_false_of_not_eq_true htime, hok⟩
  | _ => exact ⟨h.screen.step (by simp), h.pickers⟩

theorem addPicker (h : Formed a) {p : SetTime} (hp : p.Formed) :
    Formed { a with pickers := a.pickers ++ [p] } := by
  refine ⟨h.screen, fun q hq => ?_⟩
  rcases List.mem_append.mp hq with hq | hq
  · exact h.pickers q hq
  · rwa [List.mem_singleton.mp hq]

/-- The picker of an edit form holds more than six entries at first. -/
theorem editTimedButtonTapped (h : Formed a) (e : Nat) : Formed (a.editTimedButtonTapped e) := by
  unfold App.editTimedButtonTapped
  split
  · exact h
  · next form hform =>
    have hlength := (h.screen.session.editing e form hform).length_ge
    refine h.addPicker (show 6 < (form.habit.time ++ [0, 0, 0, 1, 0, 0]).length from ?_)
    rw [List.length_append]
    exact Nat.lt_add_of_pos_right (by decide) |>.trans_le' hlength

theorem timePickerValue (h : Formed a) (i : Nat) (hour : Fin 24) (minute : Fin 60) :
    Formed (a.timePickerValue i hour minute) := by
  refine ⟨h.screen, fun p hp => ?_⟩
  obtain ⟨j, hj⟩ := List.mem_iff_getElem?.mp hp
  rw [App.timePickerValue, List.getElem?_modify] at hj
  obtain ⟨q, hq, heq⟩ := Option.map_eq_some_iff.mp hj
  have hformed := h.pickers q (List.mem_of_getElem? hq)
  have htime := wellFormed_timePickerValue hour minute q
  split at heq
  · rw [← heq, SetTime.Formed]
    split
    · exact htime
    · exact htime
  · rwa [← heq]

/-- A form gets the array of its picker. -/
theorem confirmButton (h : Formed a) (hrunning : a.screen.session.crashed = none) (i : Nat) :
    Formed (a.confirmButton i) := by
  unfold App.confirmButton
  split
  · exact h
  · next p hp =>
    have hformed := h.pickers p (List.mem_of_getElem? hp)
    rw [SetTime.Formed] at hformed
    split
    · next c hc =>
      rw [hc] at hformed
      exact ⟨h.screen.sessionStep hrunning (by simp) rfl (h.screen.session.createTime c hformed),
        h.pickers⟩
    · next e he =>
      rw [he] at hformed
      split
      · next hlt =>
        refine ⟨h.screen.sessionStep hrunning (by simp) rfl
          (h.screen.session.editTime hlt ?_), h.pickers⟩
        cases hmoved : p.moved <;> simpa [hmoved] using hformed
      · exact h

theorem step (h : Formed a) {e : AppEvent} (hok : Careful a e) : Formed (a.step e) := by
  by_cases hrunning : a.screen.session.crashed = none
  · rw [App.step, if_pos hrunning]
    cases e with
    | screen e => exact h.screenEvent hok
    | createTimedButtonTapped c =>
      simp only [App.handle, App.createTimedButtonTapped]
      split
      · exact h
      · exact h.addPicker (show WellFormed [0, 0, 0, 1, 0, 0] by decide)
    | editTimedButtonTapped e => exact h.editTimedButtonTapped e
    | timePickerValue i hour minute => exact h.timePickerValue i hour minute
    | confirmButton i => exact h.confirmButton hrunning i
  · rw [App.step, if_neg hrunning]
    split
    · exact h.relaunch
    · exact h

/-- A step after which all times are well formed is careful. -/
theorem careful (h : Formed a) {e : AppEvent} (htimes : TimesFormed (a.step e)) : Careful a e := by
  cases e with
  | screen e =>
    cases e with
    | session e =>
      intro hrunning
      have hguarded : e ≠ .relaunch → e.confirmsTime = false → e.onCell = false →
          HabitHive.Careful a.unmoved a.screen.session e := by
        intro hrelaunch htime hcell
        refine h.screen.session.careful ?_
        rw [← step_session hrunning hrelaunch htime hcell]
        exact htimes.1
      cases e with
      | deliver i => exact hguarded (by simp) rfl rfl
      | fail i => exact hguarded (by simp) rfl rfl
      | editConfirmed e => exact hguarded (by simp) rfl rfl
      | _ => trivial
    | _ => trivial
  | _ => trivial

end Formed

/-- From documents with well-formed times, all times in the documents and in
the list are well formed at every moment of a run exactly when every event
is careful: the callback of a create finds no time in a form that creates a
counted habit, and no edit is saved to a document with a time that was
confirmed last in a picker that was not moved. -/
theorem timesFormed_iff_careful {st : Store} (hst : st.TimesFormed) (es : List AppEvent) :
    Runs.Always step TimesFormed (launched st) es ↔ Runs.Guarded step Careful (launched st) es :=
  Runs.always_iff_of_exact (fun _ h => h.timesFormed) (fun _ _ h _ hok => h.step hok)
    (fun _ _ h _ htimes => h.careful htimes) (Runs.guarded_true _ es) (Formed.launched hst)

theorem signUp_timesFormed : Store.signUp.TimesFormed := by
  simp [Store.TimesFormed, Store.signUp]

theorem not_always_timesFormed {st : Store} {es : List AppEvent} (k : Nat) (time : List Int)
    (hstored : ((run (launched st) es).screen.session.store.habits k).bind (·.fields.timeArray) =
      some time) (hlength : time.length ≠ 6) : ¬Runs.Always step TimesFormed (launched st) es := by
  intro h
  obtain ⟨doc, hdoc, htime⟩ := Option.bind_eq_some_iff.mp hstored
  exact hlength (((h es List.prefix_rfl).1 k doc hdoc).1 time htime).1

/-- A form with a name, in which the time picker is confirmed as it is. -/
def enterTimed : List AppEvent :=
  [.screen (.session .addButtonTapped), .screen (.session (.createName 0 ["w"])),
    .createTimedButtonTapped 0, .confirmButton 0]

/-- Add Habit is pressed and its callback runs. -/
def pressAddHabit : List AppEvent :=
  [.screen (.session (.addHabitButtonTapped 0)), .screen (.session (.serve 0)),
    .screen (.session (.deliver 0))]

/-- The habit of a form is loaded and its edit form is opened. -/
def openEdit : List AppEvent :=
  [.screen (.session (.deliver 0)), .screen (.session (.serve 0)), .screen (.session (.deliver 0)),
    .screen (.session (.serve 0)), .screen (.session (.deliver 0)), .screen (.cellForItemAt 0 0),
    .screen (.serveTime 0), .screen (.deliverTime 0), .screen (.handleLongPress 0),
    .screen (.editHabit 0)]

/-- Three runs after which a document has twelve entries: Counted is chosen
after Timed, Add Habit is pressed twice on a counted form, and the picker of
an edit is confirmed as it is. -/
theorem timed_then_counted :
    ¬Runs.Always step TimesFormed (launched .signUp)
        (enterTimed ++ [.screen (.session (.createAmount 0 2))] ++ pressAddHabit) ∧
      ¬Runs.Always step TimesFormed (launched .signUp)
        ([.screen (.session .addButtonTapped), .screen (.session (.createName 0 ["w"])),
          .screen (.session (.createAmount 0 2)), .screen (.session (.addHabitButtonTapped 0))] ++
          pressAddHabit ++ [.screen (.session (.serve 0)), .screen (.session (.deliver 0))]) ∧
      ¬Runs.Always step TimesFormed (launched .signUp)
        (enterTimed ++ pressAddHabit ++ openEdit ++
          [.editTimedButtonTapped 0, .confirmButton 1, .screen (.session (.editConfirmed 0))]) := by
  refine ⟨not_always_timesFormed 0 [0, 0, 0, 1, 0, 0, 0, 0, 0, 0, 0, 0] ?_ (by decide),
    not_always_timesFormed 1 [0, 0, 0, 0, 0, 0, 0, 0, 0, 0, 0, 0] ?_ (by decide),
    not_always_timesFormed 0 [0, 0, 0, 1, 0, 0, 0, 0, 0, 1, 0, 0] ?_ (by decide)⟩ <;>
    decide +kernel

/-- A timed habit whose picker was moved, with an edit of its time. -/
theorem timesFormed_iff_careful_moved :
    let es := enterTimed ++ pressAddHabit ++ openEdit ++
      [.editTimedButtonTapped 0, .timePickerValue 1 23 59, .confirmButton 1,
        .screen (.session (.editConfirmed 0))]
    Runs.Always step TimesFormed (launched .signUp) es ↔
      Runs.Guarded step Careful (launched .signUp) es :=
  timesFormed_iff_careful signUp_timesFormed _

end App

end HabitHive
