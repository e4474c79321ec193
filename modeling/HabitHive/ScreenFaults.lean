import HabitHive.Faults
import HabitHive.Layout
import HabitHive.Simulation

/-!
# How the process ends

`Screen.fault` reads off a screen which event ends the process, and with
which fault.  `ends_by_fault` is the result for every run: an index out of
range and the cast of a missing document are all there is.  No run meets a
`nil`, a missing entry of `UserDefaults` or a negative range.  The faults are
those of the source: the consistency checks of UIKit on the collection view
and the overflow of an `Int` are left out.

Two more invariants are behind this.  A cell that is shown, read for or
counted down is `Ready`, which means that `cellForItemAt` has set it up.
And a menu that is open has chosen a row.  `Upholds` is the relation of two
screens that keeps both; each method is in it, unless it ends the process.
-/

namespace HabitHive

open HabitCollection

/-! ## The faults of an event -/

/-- The label of a finished timed habit shows the six digits of `original`. -/
def labelFault (habit : Habit) (original : List Int) : Option Fault :=
  if habit.addFirebase ∨ habit.counted then none else digitsFault 6 original

theorem Cell.readTime_eq_none_iff (result : List Int) (cell : Cell) :
    cell.readTime result = none ↔ result.length < 6 := by
  rcases result with _ | ⟨_, _ | ⟨_, _ | ⟨_, _ | ⟨_, _ | ⟨_, _ | ⟨_, _⟩⟩⟩⟩⟩⟩ <;>
    simp [Cell.readTime]

namespace Screen

/-- The fault in which `cellForItemAt` ends for a row. -/
def layoutFault (x : Screen) (row : Nat) : Option Fault :=
  match x.session.habitArray[row]? with
  | none => some .indexOutOfRange
  | some habit => labelFault habit habit.timeOriginal

/-- The fault in which the alert of a cell ends.  The label is that of the
habit which the cell shows, with the digits of the habit in the list. -/
def alertFault (x : Screen) (c row : Nat) : Option Fault :=
  match x.session.habitArray[row]? with
  | none => some .indexOutOfRange
  | some habit =>
    (x.cells c).habitCell.bind fun shown => labelFault (finished shown) habit.timeOriginal

/-- The fault in which the read of a time ends. -/
def timeFault (x : Screen) (r : TimeRead) (doc : Store) : Option Fault :=
  if (x.cells r.cell).counted = some false then
    (((doc.habits r.row).bind (·.fields.timeArray)).orElse
      fun _ => (x.cells r.cell).habitCell.map Habit.time).bind (digitsFault 6)
  else none

/-- The fault in which an event ends the process. -/
def fault (x : Screen) : ScreenEvent → Option Fault
  | .session e => if e.onCell then none else x.session.fault e
  | .cellForItemAt row c => if x.Free row c then x.layoutFault row else none
  | .handleLongPress row => (x.cellForItem row).bind fun c =>
      if (x.cells c).running then none else x.session.rowFault row
  | .deleteHabit c =>
      if c ∈ x.shown.map Prod.snd ∧ (x.cells c).deleteButtonHidden = false then
        x.session.fault .deleteHabit
      else none
  | .editHabit c =>
      if c ∈ x.shown.map Prod.snd ∧ (x.cells c).editButtonHidden = false then
        x.session.fault .editHabit
      else none
  | .didSelectItemAt row c₁ c₂ =>
      if x.Free row c₁ ∧ x.Free row c₂ then
        (x.cellForItem row).bind fun d =>
          if (x.cells d).deleteButtonHidden then x.session.rowFault row else x.layoutFault row
      else none
  | .tick id => (x.timers.find? fun t => t.id = id).bind fun t =>
      if (x.cells t.cell).atZero then (x.cells t.cell).indexPathCell.bind (x.alertFault t.cell)
      else none
  | .deliverTime i => x.reads[i]?.bind fun r => r.snapshot.bind (x.timeFault r)
  | .didEndDisplaying _ | .handlePressOnCollectionView | .serveTime _ | .failTime _
  | .startTimer _ => none

/-! ## The faults of the methods -/

section Methods

variable {x : Screen} (hrunning : x.session.crashed = none)

include hrunning

theorem configure_crashed (c : Nat) (habit : Habit) (hpath : (x.cells c).indexPathCell ≠ none) :
    (x.configure c habit).session.crashed =
      labelFault habit (x.cells c).originalTimerArray := by
  obtain ⟨row, hrow⟩ := Option.ne_none_iff_exists'.mp hpath
  cases hadd : habit.addFirebase <;> cases hcounted : habit.counted
  · by_cases hlen : (x.cells c).originalTimerArray.length < 6 <;>
      simp [configure, labelFault, digitsFault, Cell.setMenu, hadd, hcounted, hlen, hrunning]
  · simp [configure, labelFault, hadd, hcounted, hrunning]
  · simp [configure, labelFault, Cell.setMenu, hadd, hcounted, hrow, hrunning]
  · simp [configure, labelFault, hadd, hcounted, hrunning]

theorem cellForItemAt_crashed (row c : Nat) :
    (x.cellForItemAt row c).session.crashed = x.layoutFault row := by
  cases hrow : x.session.habitArray[row]? with
  | none => simp [cellForItemAt_of_none x c row hrow, layoutFault, hrow]
  | some habit =>
    rw [cellForItemAt_of_row x c row hrow, configure_crashed (by simpa [place] using hrunning) _ _
      (by simp [laidOut])]
    simp [layoutFault, hrow, laidOut]

omit hrunning in
theorem showAlert_crashed_of_row {s : State} {row : Nat} {h : Habit}
    (hrow : s.habitArray[row]? = some h) :
    (HabitCollection.showAlert row s).crashed = s.crashed := by
  simp [HabitCollection.showAlert, hrow]

theorem alert_crashed {c row : Nat} {habit shown : Habit}
    (hrow : x.session.habitArray[row]? = some habit) (hshown : (x.cells c).habitCell = some shown)
    (hpath : (x.cells c).indexPathCell ≠ none) :
    ((x.setCell c (alerted habit (x.cells c))).configure c (finished shown)).session.crashed =
      x.alertFault c row := by
  rw [configure_crashed (x := x.setCell c (alerted habit (x.cells c))) hrunning c _
    (by simpa [alerted] using hpath)]
  simp [alertFault, hrow, hshown, alerted]

theorem showAlert_crashed (c row : Nat) (hpath : (x.cells c).indexPathCell ≠ none)
    (hhabit : (x.cells c).habitCell ≠ none) :
    (x.showAlert c row).session.crashed = x.alertFault c row := by
  obtain ⟨shown, hshown⟩ := Option.ne_none_iff_exists'.mp hhabit
  cases hrow : x.session.habitArray[row]? with
  | none => simp [showAlert, alertFault, hrow]
  | some habit =>
    have hlabel := alert_crashed hrunning hrow hshown hpath
    have hlist := configure_habitArray (x.setCell c (alerted habit (x.cells c))) c (finished shown)
    rw [showAlert_of_row x c row hrow hshown]
    split
    · exact (showAlert_crashed_of_row ((congrArg (·[row]?) hlist).trans hrow)).trans hlabel
    · exact hlabel

theorem timeRead_crashed (r : TimeRead) (doc : Store) (hhabit : (x.cells r.cell).habitCell ≠ none) :
    (x.timeRead r (some doc)).session.crashed = x.timeFault r doc := by
  obtain ⟨shown, hshown⟩ := Option.ne_none_iff_exists'.mp hhabit
  simp only [timeRead, timeFault, hshown]
  split
  · generalize hfield : ((doc.habits r.row).bind (·.fields.timeArray)) = field
    obtain ⟨result, hresult⟩ :
        ∃ result, (field.orElse fun _ => (some shown).map Habit.time) = some result := by
      cases field <;> simp
    rw [hresult]
    dsimp only
    cases htime : (x.cells r.cell).readTime result with
    | none => simp [digitsFault, (Cell.readTime_eq_none_iff _ _).mp htime]
    | some cell =>
      have hlen : ¬result.length < 6 := fun hlt => by
        rw [(Cell.readTime_eq_none_iff _ _).mpr hlt] at htime
        contradiction
      simp [digitsFault, hlen, hrunning]
  · exact hrunning

end Methods

/-! ## Cells that are set up -/

end Screen

/-- `cellForItemAt` has set up the cell. -/
structure Cell.Ready (cell : Cell) : Prop where
  path : cell.indexPathCell ≠ none
  habit : cell.habitCell ≠ none

/-- A button of the menu can be pressed. -/
def Cell.menuOpen (cell : Cell) : Prop :=
  cell.deleteButtonHidden = false ∨ cell.editButtonHidden = false

namespace Screen

/-- The cell is shown, or something is under way that will use it. -/
def Uses (x : Screen) (c : Nat) : Prop :=
  c ∈ x.shown.map Prod.snd ∨ (∃ r ∈ x.reads, r.cell = c) ∨ (∃ b ∈ x.blocks, b.cell = c) ∨
    ∃ t ∈ x.timers, t.cell = c

/-- What the screen takes for granted. -/
structure Sound (x : Screen) : Prop where
  session : x.session.Sound
  ready : ∀ c, x.Uses c → (x.cells c).Ready
  menu : ∀ c, (x.cells c).menuOpen → x.session.indexPathGlobal ≠ none

/-- `y` comes from `x` by steps that keep the cells set up, use no others
and open no menu without a row. -/
structure Upholds (x y : Screen) : Prop where
  ready : ∀ c, (x.cells c).Ready → (y.cells c).Ready
  uses : ∀ c, y.Uses c → x.Uses c ∨ (y.cells c).Ready
  menu : ∀ c, (y.cells c).menuOpen → (x.cells c).menuOpen ∨ y.session.indexPathGlobal ≠ none
  chosen : x.session.indexPathGlobal ≠ none → y.session.indexPathGlobal ≠ none

namespace Upholds

variable {x y z : Screen}

theorem refl (x : Screen) : Upholds x x :=
  ⟨fun _ => id, fun _ => Or.inl, fun _ => Or.inl, id⟩

theorem trans (h : Upholds x y) (h' : Upholds y z) : Upholds x z where
  ready c hc := h'.ready c (h.ready c hc)
  uses c hc := (h'.uses c hc).elim
    (fun hy => (h.uses c hy).imp_right (h'.ready c)) Or.inr
  menu c hc := (h'.menu c hc).elim
    (fun hy => (h.menu c hy).imp_right h'.chosen) Or.inr
  chosen hx := h'.chosen (h.chosen hx)

theorem sound (h : Upholds x y) (hx : x.Sound) (hy : y.session.Sound) : y.Sound where
  session := hy
  ready c hc := (h.uses c hc).elim (fun hc => h.ready c (hx.ready c hc)) id
  menu c hc := (h.menu c hc).elim (fun hc => h.chosen (hx.menu c hc)) id

/-- A step of the session alone. -/
theorem of_session (hcells : y.cells = x.cells) (huses : ∀ c, y.Uses c → x.Uses c)
    (hchosen : x.session.indexPathGlobal ≠ none → y.session.indexPathGlobal ≠ none) :
    Upholds x y where
  ready _ hc := hcells ▸ hc
  uses c hc := Or.inl (huses c hc)
  menu _ hc := Or.inl (hcells ▸ hc)
  chosen := hchosen

/-- A cell is changed. -/
theorem setCell {c : Nat} {cell : Cell} (hready : (x.cells c).Ready → cell.Ready)
    (hmenu : cell.menuOpen → (x.cells c).menuOpen) : Upholds x (x.setCell c cell) where
  ready d hd := by
    rw [setCell_cells]
    by_cases hdc : d = c
    · rw [hdc, Function.update_self]
      exact hready (hdc ▸ hd)
    · rwa [Function.update_of_ne hdc]
  uses d hd := Or.inl hd
  menu d hd := by
    rw [setCell_cells] at hd
    left
    by_cases hdc : d = c
    · rw [hdc, Function.update_self] at hd
      exact hdc ▸ hmenu hd
    · rwa [Function.update_of_ne hdc] at hd
  chosen := id

theorem crash (f : Fault) : Upholds x (x.crash f) :=
  of_session rfl (fun _ => id) id

theorem invalidate (ids : List Nat) : Upholds x (x.invalidate ids) := by
  refine of_session rfl (fun c hc => ?_) id
  rcases hc with hc | hc | hc | ⟨t, ht, htc⟩
  · exact Or.inl hc
  · exact Or.inr (Or.inl hc)
  · exact Or.inr (Or.inr (Or.inl hc))
  · exact Or.inr (Or.inr (Or.inr ⟨t, List.mem_of_mem_filter ht, htc⟩))

/-- A read for a cell that is set up. -/
theorem fetchTime {c row : Nat} {start : Bool} (hc : (x.cells c).Ready) :
    Upholds x (x.fetchTimeFromFirebase c row start) where
  ready _ hd := hd
  uses d hd := by
    rcases hd with hd | ⟨r, hr, hrd⟩ | hd
    · exact Or.inl (Or.inl hd)
    · rcases List.mem_append.mp hr with hr | hr
      · exact Or.inl (Or.inr (Or.inl ⟨r, hr, hrd⟩))
      · rw [List.mem_singleton.mp hr] at hrd
        exact Or.inr (hrd ▸ hc)
    · exact Or.inl (Or.inr (Or.inr hd))
  menu _ hd := Or.inl hd
  chosen := id

theorem configure (c : Nat) (habit : Habit) : Upholds x (x.configure c habit) := by
  have hset : Upholds x (x.setCell c (configured habit (x.cells c))) :=
    .setCell (fun h => ⟨h.path, by simp [configured, Cell.setMenu]⟩)
      (by simp [configured, Cell.setMenu, Cell.menuOpen])
  rcases configure_cases x c habit with ⟨_, h⟩ | ⟨_, _, row, hrow, h⟩ | ⟨f, h⟩ <;> rw [h]
  · exact hset
  · refine hset.trans (.fetchTime ?_)
    rw [setCell_cells, Function.update_self]
    exact ⟨by simp [configured, Cell.setMenu, hrow], by simp [configured, Cell.setMenu]⟩
  · exact hset.trans (.crash f)

/-- A row of the list is laid out. -/
theorem cellForItemAt {row : Nat} {habit : Habit} (c : Nat)
    (hrow : x.session.habitArray[row]? = some habit) : Upholds x (x.cellForItemAt row c) := by
  have hcell := cellForItemAt_cell x c row hrow
  have hready : ((x.cellForItemAt row c).cells c).Ready := by
    rw [hcell]
    exact ⟨by simp [configured, laidOut, Cell.setMenu], by simp [configured, Cell.setMenu]⟩
  refine ⟨fun d hd => ?_, fun d hd => ?_, fun d hd => ?_, fun hglobal => ?_⟩
  · by_cases hdc : d = c
    · exact hdc ▸ hready
    · rwa [cellForItemAt_of_ne x c row hdc]
  · by_cases hdc : d = c
    · exact Or.inr (hdc ▸ hready)
    · rw [cellForItemAt_of_row x c row hrow] at hd ⊢
      refine (Upholds.configure c habit).uses d hd |>.imp_left fun hd => ?_
      rcases hd with hd | hd | hd | ⟨t, ht, htd⟩
      · refine Or.inl ?_
        simp only [place, setCell_shown, List.map_cons, List.mem_cons, hdc, false_or] at hd
        exact (List.filter_sublist.map Prod.snd).subset hd
      · exact Or.inr (Or.inl (by simpa [place] using hd))
      · exact Or.inr (Or.inr (Or.inl (by simpa [place] using hd)))
      · refine Or.inr (Or.inr (Or.inr ⟨t, ?_, htd⟩))
        simp only [place, setCell_timers, invalidateAll_timers] at ht
        split at ht
        · exact List.mem_of_mem_filter ht
        · exact ht
  · left
    by_cases hdc : d = c
    · rw [hdc, hcell] at hd
      simp [configured, Cell.setMenu, Cell.menuOpen] at hd
    · rwa [cellForItemAt_of_ne x c row hdc] at hd
  · rcases cellForItemAt_session_cases x c row with h | ⟨f, h⟩ <;> rw [h] <;> exact hglobal

/-- The countdown of a cell that is set up starts. -/
theorem start {c row : Nat} (hc : (x.cells c).Ready) : Upholds x (x.startCountdown c row true) := by
  rw [startCountdown_true]
  have hset : Upholds x (x.setCell c (started (x.cells c))) :=
    .setCell (fun h => ⟨h.path, h.habit⟩) id
  refine hset.trans (.fetchTime ?_)
  rw [setCell_cells, Function.update_self]
  exact ⟨hc.path, hc.habit⟩

theorem stop (c row : Nat) : Upholds x (x.startCountdown c row false) := by
  rw [startCountdown_false]
  have hset : Upholds x ((x.invalidate (x.cells c).timer.toList).setCell c (stopped (x.cells c))) :=
    (Upholds.invalidate _).trans (.setCell (fun h => ⟨h.path, h.habit⟩) id)
  refine hset.trans (.of_session rfl (fun _ => id) fun hglobal => ?_)
  simp only [Screen.stop, HabitCollection.createTimeArray, returnTimeArray]
  split <;> exact hglobal

theorem completeCounted (c row : Nat) {habit : Habit} (hcounted : habit.counted = true) :
    Upholds x (x.completeCounted c row habit) := by
  have hsession : Upholds x
      { x with session := HabitCollection.completeCounted row habit x.session } := by
    refine .of_session rfl (fun _ => id) fun hglobal => ?_
    simp only [HabitCollection.completeCounted]
    split_ifs <;> exact hglobal
  rcases completeCounted_cases x c row habit hcounted with h | h <;> rw [h]
  · exact hsession
  · exact hsession.trans (.setCell (fun h => ⟨h.path, by simp [configured, Cell.setMenu]⟩)
      (by simp [configured, Cell.setMenu, Cell.menuOpen]))

theorem showAlert (c row : Nat) : Upholds x (x.showAlert c row) := by
  rcases showAlert_cases x c row with ⟨f, h⟩ | ⟨habit, shown, _, _, h⟩
  · rw [h]
    exact .crash f
  · have hset : Upholds x (x.setCell c (alerted habit (x.cells c))) :=
      .setCell (fun h => ⟨h.path, h.habit⟩) id
    have hlabel := hset.trans (.configure c (finished shown))
    rcases h with h | h <;> rw [h]
    · exact hlabel
    · refine hlabel.trans (.of_session rfl (fun _ => id) fun hglobal => ?_)
      simp only [HabitCollection.showAlert]
      split <;> exact hglobal

theorem timed (c : Nat) (hour minute second : Int) (ident : Option Nat) :
    Upholds x (x.setCell c (timed hour minute second ident (x.cells c))) :=
  .setCell (fun h => ⟨h.path, h.habit⟩) id

theorem tick (id : Nat) : Upholds x (x.tick id) :=
  rel_tick x refl trans id
    (fun c => rel_action x c trans (fun _ f => .crash f) (fun h m s => .timed c h m s _)
      (fun _ ids => .invalidate ids) fun _ row => .showAlert c row) fun _ ids => .invalidate ids

theorem saveDay : Upholds x x.saveDay := .of_session rfl (fun _ => id) id

theorem dropRead (i : Nat) : Upholds x (x.dropRead i) := by
  refine .of_session rfl (fun c hc => ?_) id
  rcases hc with hc | ⟨r, hr, hrc⟩ | hc
  · exact Or.inl hc
  · exact Or.inr (Or.inl ⟨r, List.mem_of_mem_eraseIdx hr, hrc⟩)
  · exact Or.inr (Or.inr hc)

theorem leaveGroup {r : TimeRead} (hc : (x.cells r.cell).Ready) : Upholds x (x.leaveGroup r) where
  ready d hd := by rwa [leaveGroup_cells]
  uses d hd := by
    rcases hd with hd | hd | ⟨b, hb, hbd⟩ | hd
    · refine Or.inl (Or.inl ?_)
      unfold Screen.leaveGroup at hd
      split at hd <;> exact hd
    · exact Or.inl (Or.inr (Or.inl (by rwa [leaveGroup_reads] at hd)))
    · rcases mem_leaveGroup_blocks x r b hb with hb | ⟨_, hcell, _⟩
      · exact Or.inl (Or.inr (Or.inr (Or.inl ⟨b, hb, hbd⟩)))
      · rw [leaveGroup_cells, ← hbd, hcell]
        exact Or.inr hc
    · exact Or.inl (Or.inr (Or.inr (Or.inr (by rwa [leaveGroup_timers] at hd))))
  menu d hd := Or.inl (by rwa [leaveGroup_cells] at hd)
  chosen h := by rwa [leaveGroup_session]

theorem serveTime (i : Nat) : Upholds x (x.serveTime i) := by
  unfold Screen.serveTime
  split
  · exact refl x
  · next r hr =>
    split
    · refine .of_session rfl (fun c hc => ?_) id
      rcases hc with hc | ⟨q, hq, hqc⟩ | hc
      · exact Or.inl hc
      · rcases List.mem_or_eq_of_mem_set hq with hq | rfl
        · exact Or.inr (Or.inl ⟨q, hq, hqc⟩)
        · exact Or.inr (Or.inl ⟨r, List.mem_of_getElem? hr, hqc⟩)
      · exact Or.inr (Or.inr hc)
    · exact refl x

theorem dropBlock (i : Nat) : Upholds x { x with blocks := x.blocks.eraseIdx i } := by
  refine .of_session rfl (fun c hc => ?_) id
  rcases hc with hc | hc | ⟨b, hb, hbc⟩ | hc
  · exact Or.inl hc
  · exact Or.inr (Or.inl hc)
  · exact Or.inr (Or.inr (Or.inl ⟨b, List.mem_of_mem_eraseIdx hb, hbc⟩))
  · exact Or.inr (Or.inr (Or.inr hc))

/-- The timer of a cell that is set up. -/
theorem startTimer {b : StartBlock} (hc : (x.cells b.cell).Ready) : Upholds x (x.startTimer b) := by
  have hset : Upholds x (x.setCell b.cell { x.cells b.cell with timer := some x.nextTimer }) :=
    .setCell (fun h => ⟨h.path, h.habit⟩) id
  refine ⟨hset.ready, fun c huses => ?_, hset.menu, hset.chosen⟩
  rcases huses with hs | hs | hs | ⟨t, ht, htc⟩
  · exact Or.inl (Or.inl hs)
  · exact Or.inl (Or.inr (Or.inl hs))
  · exact Or.inl (Or.inr (Or.inr (Or.inl hs)))
  · rcases List.mem_append.mp ht with ht | ht
    · exact Or.inl (Or.inr (Or.inr (Or.inr ⟨t, ht, htc⟩)))
    · rw [List.mem_singleton.mp ht] at htc
      exact Or.inr (htc ▸ hset.ready b.cell hc)

/-- A completion and the reload after it, on a row of the list. -/
theorem reloadCompleted {d row : Nat} (c : Nat) {habit : Habit} (hcounted : habit.counted = true)
    (hrow : row < x.session.habitArray.length) :
    Upholds x ((x.completeCounted d row habit).cellForItemAt row c) := by
  have hlen : (x.completeCounted d row habit).session.habitArray.length =
      x.session.habitArray.length := by
    rw [completeCounted_session x d row habit hcounted, HabitCollection.completeCounted]
    split
    · dsimp only
      split <;> simp
    · rfl
  exact (Upholds.completeCounted d row hcounted).trans
    (.cellForItemAt c (List.getElem?_eq_getElem (hlen ▸ hrow)))

theorem tapCounted {d row : Nat} (c₁ c₂ : Nat) {habit : Habit}
    (hrow : row < x.session.habitArray.length) (hcounted : habit.counted = true) :
    Upholds x (x.tapCounted d row c₁ c₂ habit) := by
  by_cases hlt : habit.currentCount < habit.goal
  · rw [tapCounted_of_lt x row hlt]
    have hcount : Upholds x (x.countUp row habit.incremented) := .of_session rfl (fun _ => id) id
    have hnew : (x.countUp row habit.incremented).session.habitArray[row]? =
        some habit.incremented := by simp [countUp, hrow]
    have hkind : habit.incremented.counted = true := by
      rw [Habit.incremented, if_pos hlt]
      exact hcounted
    refine (hcount.trans (.cellForItemAt c₁ hnew)).trans (.reloadCompleted c₂ hkind ?_)
    rw [cellForItemAt_habitArray]
    exact (List.getElem?_eq_some_iff.mp hnew).1
  · rw [tapCounted_of_not_lt x row hlt]
    exact .reloadCompleted c₂ hcounted hrow

theorem handlePressOnCollectionView : Upholds x x.handlePressOnCollectionView :=
  rel_handlePressOnCollectionView x refl trans
    (fun y c => .setCell (fun h => ⟨h.path, h.habit⟩) (by simp [Cell.setMenu, Cell.menuOpen]))
    fun _ => .of_session rfl (fun _ => id) id

theorem timeRead (r : TimeRead) (document : Option Store) : Upholds x (x.timeRead r document) := by
  rcases timeRead_cases x r document with ⟨_, h⟩ | ⟨f, h⟩ | ⟨_, _, _, _, _, _, h⟩ <;> rw [h]
  · exact refl x
  · exact .crash f
  · exact .timed r.cell _ _ _ _

end Upholds

/-! ## One event -/

/-- An event that ends in `f` makes `y` of `x`. -/
structure Ends (x : Screen) (f : Option Fault) (y : Screen) : Prop where
  crashed : y.session.crashed = f
  upholds : f = none → Upholds x y

section Step

variable {x : Screen} (hx : x.Sound) (hrunning : x.session.crashed = none)

theorem Ends.refl (hrunning : x.session.crashed = none) : Ends x none x :=
  ⟨hrunning, fun _ => .refl x⟩

theorem Ends.of_upholds {f : Option Fault} {y : Screen} (hcrashed : y.session.crashed = f)
    (h : Upholds x y) : Ends x f y :=
  ⟨hcrashed, fun _ => h⟩

theorem Ends.of_crashed {f : Fault} {y : Screen} (h : y.session.crashed = some f) :
    Ends x (some f) y :=
  ⟨h, by simp⟩

include hx hrunning

theorem ends_session {e : Event} (he : e ≠ .relaunch) :
    Ends x (x.fault (.session e)) (x.sessionEvent e) := by
  rw [fault, sessionEvent, if_neg he]
  by_cases hcell : e.onCell = true
  · rw [if_pos hcell, if_pos hcell]
    exact .refl hrunning
  · rw [if_neg hcell, if_neg hcell]
    refine .of_upholds ?_ (.of_session rfl (fun c hc => ?_) fun h => State.chosen_step h he)
    · dsimp only
      rw [step_of_running hrunning]
      refine (hx.session.handle hrunning e).2 fun h => ?_
      rcases h with rfl | rfl <;> exact absurd rfl hcell
    · refine hc.imp_left fun hc => ?_
      dsimp only at hc
      split at hc
      · contradiction
      · exact hc

omit hx in
theorem ends_cellForItemAt (row c : Nat) : Ends x (x.layoutFault row) (x.cellForItemAt row c) := by
  refine ⟨cellForItemAt_crashed hrunning row c, fun h => ?_⟩
  cases hrow : x.session.habitArray[row]? with
  | none => simp [layoutFault, hrow] at h
  | some habit => exact .cellForItemAt c hrow

omit hx in
theorem ends_handleLongPress (row : Nat) :
    Ends x (x.fault (.handleLongPress row)) (x.handleLongPress row) := by
  rw [fault]
  cases hshown : x.cellForItem row with
  | none =>
    rw [handleLongPress_of_running x row (by simp [hshown])]
    exact .refl hrunning
  | some c =>
    rw [Option.bind_some]
    cases hcell : (x.cells c).running with
    | true =>
      rw [handleLongPress_of_running x row (by simp [hshown, hcell])]
      exact .refl hrunning
    | false =>
      rw [if_neg (by simp), State.rowFault]
      cases hrow : x.session.habitArray[row]? with
      | none =>
        rw [handleLongPress_of_none x c row hshown hcell hrow,
          if_neg (Nat.not_lt.mpr (List.getElem?_eq_none_iff.mp hrow))]
        exact .of_crashed rfl
      | some habit =>
        have hlt := (List.getElem?_eq_some_iff.mp hrow).1
        rw [handleLongPress_of_row x c row hshown hcell hrow, if_pos hlt]
        generalize hy : (if habit.counted = true then x.opened c else (x.opened c).stop c row) = y
        have hopened : ∀ d, (x.cells d).Ready → ((x.opened c).cells d).Ready := fun d hd => by
          by_cases hdc : d = c
          · rw [hdc, opened, setCell_cells, Function.update_self]
            exact ⟨(hdc ▸ hd).path, (hdc ▸ hd).habit⟩
          · rwa [opened, setCell_cells, Function.update_of_ne hdc]
        obtain ⟨hupholds, hlist, hcrashed⟩ : Upholds (x.opened c) y ∧
            y.session.habitArray.length = x.session.habitArray.length ∧
            y.session.crashed = none := by
          rw [← hy]
          split
          · exact ⟨.refl _, rfl, hrunning⟩
          · rw [stop_session (x.opened c) c row hrow, ← startCountdown_false]
            exact ⟨.stop c row, by simp [opened], hrunning⟩
        have hpress : HabitCollection.handleLongPress row y.session =
            { y.session with indexPathGlobal := some row } := by
          rw [HabitCollection.handleLongPress, if_pos (hlist.symm ▸ hlt)]
        rw [hpress]
        exact .of_upholds hcrashed ⟨fun d hd => hupholds.ready d (hopened d hd), hupholds.uses,
          fun _ _ => Or.inr (by simp), fun _ => by simp⟩

/-- A press of a button in the menu of a cell. -/
theorem ends_deleteHabit (c : Nat) : Ends x (x.fault (.deleteHabit c)) (x.deleteHabit c) := by
  rw [fault, Screen.deleteHabit]
  split
  · next hopen =>
    have hglobal := hx.menu c (Or.inl hopen.2)
    obtain ⟨row, hrow⟩ := Option.ne_none_iff_exists'.mp hglobal
    have hcrashed := (hx.session.deleteHabit hrunning).2 hglobal
    have hupholds : Upholds x { x with session := HabitCollection.deleteHabit x.session } := by
      refine .of_session rfl (fun _ => id) fun h => ?_
      have hstep := State.chosen_step (e := .deleteHabit) h (by simp)
      rwa [step_of_running hrunning] at hstep
    rw [hrow]
    dsimp only
    split
    · refine .of_upholds hcrashed (hupholds.trans (.of_session rfl (fun d hd => ?_) id))
      refine hd.imp_left fun hd => ?_
      simp only [deleteItems_shown, List.map_map] at hd
      obtain ⟨p, hp, hpd⟩ := List.mem_map.mp hd
      exact List.mem_map.mpr ⟨p, List.mem_of_mem_filter hp, hpd⟩
    · exact .of_upholds hcrashed hupholds
  · exact .refl hrunning

theorem ends_editHabit (c : Nat) : Ends x (x.fault (.editHabit c)) (x.editHabit c) := by
  rw [fault, Screen.editHabit]
  split
  · next hopen =>
    have hglobal := hx.menu c (Or.inr hopen.2)
    refine .of_upholds ((hx.session.editHabit hrunning).2 hglobal) ?_
    refine .of_session rfl (fun _ => id) fun h => ?_
    have hstep := State.chosen_step (e := .editHabit) h (by simp)
    rwa [step_of_running hrunning] at hstep
  · exact .refl hrunning

theorem ends_tick (id : Nat) : Ends x (x.fault (.tick id)) (x.tick id) := by
  refine .of_upholds ?_ (.tick id)
  rw [fault, Screen.tick]
  cases htimer : x.timers.find? fun t => t.id = id with
  | none => exact hrunning
  | some t =>
    have hready := hx.ready t.cell
      (Or.inr (Or.inr (Or.inr ⟨t, List.mem_of_find?_eq_some htimer, rfl⟩)))
    have hlast : (if t.repeats then x.action t.cell
        else (x.action t.cell).invalidate [id]).session = (x.action t.cell).session := by
      split <;> rfl
    dsimp only
    rw [hlast, Option.bind_some]
    cases hzero : (x.cells t.cell).atZero with
    | false =>
      rw [action_of_pos x t.cell hzero]
      exact hrunning
    | true =>
      obtain ⟨row, hrow⟩ := Option.ne_none_iff_exists'.mp hready.path
      have halert : x.action t.cell =
          (x.invalidate (x.cells t.cell).timer.toList).showAlert t.cell row := by
        simp [action, hzero, hrow]
      rw [halert, if_pos rfl, hrow, Option.bind_some]
      exact showAlert_crashed (x := x.invalidate (x.cells t.cell).timer.toList) hrunning t.cell row
        hready.path hready.habit

theorem ends_deliverTime (i : Nat) : Ends x (x.fault (.deliverTime i)) (x.deliverTime i) := by
  rw [fault, Screen.deliverTime]
  cases hr : x.reads[i]? with
  | none => exact .refl hrunning
  | some r =>
    have hready := hx.ready r.cell (Or.inr (Or.inl ⟨r, List.mem_of_getElem? hr, rfl⟩))
    rw [Option.bind_some]
    dsimp only
    cases hsnapshot : r.snapshot with
    | none => exact .refl hrunning
    | some doc =>
      have hread : Upholds (x.dropRead i) ((x.dropRead i).timeRead r (some doc)) := .timeRead r _
      rw [if_neg (by simp)]
      refine .of_upholds ?_ (((Upholds.dropRead i).trans hread).trans
        (.leaveGroup (hread.ready r.cell hready)))
      rw [leaveGroup_session, Option.bind_some]
      exact timeRead_crashed (x := x.dropRead i) hrunning r doc hready.habit

theorem ends_didSelectItemAt (row c₁ c₂ : Nat) :
    Ends x ((x.cellForItem row).bind fun d =>
      if (x.cells d).deleteButtonHidden then x.session.rowFault row else x.layoutFault row)
      (x.didSelectItemAt row c₁ c₂) := by
  cases hshown : x.cellForItem row with
  | none =>
    rw [didSelectItemAt_of_none x row hshown]
    exact .refl hrunning
  | some d =>
    rw [Option.bind_some]
    cases hrow : x.session.habitArray[row]? with
    | none =>
      have hout := Nat.not_lt.mpr (List.getElem?_eq_none_iff.mp hrow)
      rw [didSelectItemAt_of_row x row hshown hrow, State.rowFault, if_neg hout, layoutFault, hrow]
      simpa using Ends.of_crashed rfl
    | some habit =>
      have hlt := (List.getElem?_eq_some_iff.mp hrow).1
      rw [State.rowFault, if_pos hlt]
      cases hmenu : (x.cells d).deleteButtonHidden with
      | false =>
        have hreload : x.didSelectItemAt row c₁ c₂ = x.saveDay.cellForItemAt row c₂ := by
          simp [didSelectItemAt, hshown, hrow, saveDay, hmenu]
        rw [hreload, if_neg (by simp)]
        have hlaid := ends_cellForItemAt (x := x.saveDay) hrunning row c₂
        exact ⟨hlaid.crashed, fun h => Upholds.saveDay.trans (hlaid.upholds h)⟩
      | true =>
        have htap : x.Tap row c₁ c₂ d habit (x.didSelectItemAt row c₁ c₂) :=
          didSelectItemAt_tap x row hshown hrow
        rw [if_pos rfl]
        generalize x.didSelectItemAt row c₁ c₂ = y at htap
        cases htap with
        | finished => exact .of_upholds hrunning .saveDay
        | menu hopen => simp [hmenu] at hopen
        | start =>
          have hready := hx.ready d (Or.inl (List.mem_map_of_mem (mem_of_cellForItem hshown)))
          exact .of_upholds (by rw [startCountdown_true]; exact hrunning)
            (Upholds.saveDay.trans (.start hready))
        | stop =>
          refine .of_upholds ?_ (Upholds.saveDay.trans (.stop d row))
          rw [startCountdown_false, stop_session x.saveDay d row hrow]
          exact hrunning
        | counted _ _ hcounted =>
          refine .of_upholds ?_ (Upholds.saveDay.trans (.tapCounted c₁ c₂ hlt hcounted))
          rw [tapCounted_session x.saveDay row hrow hcounted]
          simp only [HabitCollection.tapCounted, HabitCollection.completeCounted]
          split_ifs <;> exact hrunning

theorem ends_step {e : ScreenEvent} (he : e ≠ .session .relaunch) :
    Ends x (x.fault e) (x.step e) := by
  rw [Screen.step, if_pos hrunning]
  cases e with
  | session e => exact ends_session hx hrunning fun h => he (congrArg _ h)
  | cellForItemAt row c =>
    rw [fault, Screen.handle]
    split
    · exact ends_cellForItemAt hrunning row c
    · exact .refl hrunning
  | didEndDisplaying row =>
    refine .of_upholds hrunning (.of_session rfl (fun c hc => ?_) id)
    exact hc.imp_left fun hc => (List.filter_sublist.map Prod.snd).subset hc
  | handleLongPress row => exact ends_handleLongPress hrunning row
  | handlePressOnCollectionView =>
    have hsession : x.handlePressOnCollectionView.session = x.session :=
      rel_handlePressOnCollectionView (R := fun x y => y.session = x.session) x (fun _ => rfl)
        (fun h h' => h'.trans h) (fun _ _ => rfl) fun _ => rfl
    refine .of_upholds ?_ .handlePressOnCollectionView
    rw [Screen.handle, hsession]
    exact hrunning
  | deleteHabit c => exact ends_deleteHabit hx hrunning c
  | editHabit c => exact ends_editHabit hx hrunning c
  | didSelectItemAt row c₁ c₂ =>
    rw [fault, Screen.handle]
    split
    · exact ends_didSelectItemAt hx hrunning row c₁ c₂
    · exact .refl hrunning
  | tick id => exact ends_tick hx hrunning id
  | serveTime i =>
    refine .of_upholds ?_ (.serveTime i)
    rw [Screen.handle, Screen.serveTime]
    split
    · exact hrunning
    · split <;> exact hrunning
  | deliverTime i => exact ends_deliverTime hx hrunning i
  | failTime i =>
    rw [fault, Screen.handle, Screen.failTime]
    cases hr : x.reads[i]? with
    | none => exact .refl hrunning
    | some r =>
      have hready := hx.ready r.cell (Or.inr (Or.inl ⟨r, List.mem_of_getElem? hr, rfl⟩))
      refine .of_upholds ?_ ((Upholds.dropRead i).trans (.leaveGroup hready))
      rw [leaveGroup_session]
      exact hrunning
  | startTimer i =>
    rw [fault, Screen.handle, Screen.runBlock]
    cases hb : x.blocks[i]? with
    | none => exact .refl hrunning
    | some b =>
      have hready := hx.ready b.cell
        (Or.inr (Or.inr (Or.inl ⟨b, List.mem_of_getElem? hb, rfl⟩)))
      exact .of_upholds hrunning ((Upholds.dropBlock i).trans (.startTimer hready))

end Step

/-! ## Runs -/

/-- A launch starts with nothing that is set up. -/
theorem Sound.relaunch (s : State) : Sound { session := s.relaunch } where
  session := .relaunch s
  ready c hc := by simp [Uses] at hc
  menu c hc := by simp [Cell.menuOpen] at hc

/-- The two faults that events end in. -/
def Met (f : Option Fault) : Prop := ∀ g ∈ f, g = .indexOutOfRange ∨ g = .forcedCast

namespace Met

theorem none : Met none := by simp [Met]

theorem outOfRange : Met (some .indexOutOfRange) := by simp [Met]

theorem cast : Met (some .forcedCast) := by simp [Met]

theorem ite {p : Prop} [Decidable p] {f g : Option Fault} (hf : Met f) (hg : Met g) :
    Met (if p then f else g) := by
  split
  · exact hf
  · exact hg

theorem bind {α : Type} {o : Option α} {f : α → Option Fault} (h : ∀ a, Met (f a)) :
    Met (o.bind f) := by
  cases o with
  | none => exact none
  | some a => exact h a

theorem digits (n : Nat) (digits : List Int) : Met (digitsFault n digits) := ite outOfRange none

theorem row (s : State) (row : Nat) : Met (s.rowFault row) := ite none outOfRange

theorem label (habit : Habit) (original : List Int) : Met (labelFault habit original) :=
  ite none (digits 6 original)

theorem callback (cb : Callback) (document : Option Store) : Met (cb.fault document) := by
  cases cb with
  | fetchHabit n => exact bind fun _ => ite none cast
  | _ => exact none

theorem session (s : State) (e : Event) : Met (s.fault e) := by
  cases e with
  | handleLongPress row' | didSelectItemAt row' _ | createTimeArray row' _ _ | showAlert row' =>
    exact row s row'
  | deleteHabit => exact bind fun row' => row s row'
  | editHabit =>
    refine bind fun row' => ?_
    split
    · exact outOfRange
    · exact ite none (digits 4 _)
  | createTime _ time | editTime _ time => exact bind fun _ => digits 4 time
  | deliver i => exact bind fun p => callback p.callback p.snapshot
  | _ => exact none

theorem layout (x : Screen) (row : Nat) : Met (x.layoutFault row) := by
  unfold layoutFault
  split
  · exact outOfRange
  · exact label _ _

theorem alert (x : Screen) (c row : Nat) : Met (x.alertFault c row) := by
  unfold alertFault
  split
  · exact outOfRange
  · exact bind fun _ => label _ _

theorem screen (x : Screen) (e : ScreenEvent) : Met (x.fault e) := by
  cases e with
  | session e => exact ite none (session x.session e)
  | cellForItemAt row' _ => exact ite (layout x row') none
  | handleLongPress row' => exact bind fun _ => ite none (row x.session row')
  | deleteHabit _ => exact ite (session x.session .deleteHabit) none
  | editHabit _ => exact ite (session x.session .editHabit) none
  | didSelectItemAt row' _ _ =>
    exact ite (bind fun _ => ite (row x.session row') (layout x row')) none
  | tick _ => exact bind fun t => ite (bind fun row' => alert x t.cell row') none
  | deliverTime _ => exact bind fun _ => bind fun _ => ite (bind fun _ => digits 6 _) none
  | _ => exact none

end Met

/-- A running screen is sound, and one that has ended met one of the two
faults. -/
theorem run_sound (st : Store) (es : List ScreenEvent) :
    let x := (launched st).run es
    (x.session.crashed = none → x.Sound) ∧ Met x.session.crashed := by
  refine Runs.run_invariant
    (I := fun x : Screen => (x.session.crashed = none → x.Sound) ∧ Met x.session.crashed)
    (fun x e h _ => ?_) (Runs.guarded_true _ es) ⟨fun _ => .relaunch (.launched st), .none⟩
  by_cases hrelaunch : e = .session .relaunch
  · have hstep : x.step e = { session := x.session.relaunch } := by
      rw [hrelaunch, Screen.step]
      split <;> rfl
    rw [hstep]
    exact ⟨fun _ => .relaunch x.session, .none⟩
  · by_cases hrunning : x.session.crashed = none
    · have hends := ends_step (h.1 hrunning) hrunning hrelaunch
      have hsession : (x.step e).session.Sound :=
        (step_covered x e).invariant (fun _ f hs => hs.crash f) (fun _ e' _ hs => hs.step e')
          (h.1 hrunning).session
      rw [hends.crashed]
      exact ⟨fun hnone => (hends.upholds hnone).sound (h.1 hrunning) hsession, .screen x e⟩
    · rw [Screen.step, if_neg hrunning, if_neg hrelaunch]
      exact h

/-- Of the faults of the source, an index out of range and a document that is
missing end the process, and nothing else does.  `fault` says which event of a
run does so. -/
theorem ends_by_fault (st : Store) (es : List ScreenEvent) :
    let x := (launched st).run es
    (x.session.crashed = none → ∀ e, (x.step e).session.crashed = x.fault e) ∧
      ∀ f ∈ x.session.crashed, f = .indexOutOfRange ∨ f = .forcedCast := by
  intro x
  obtain ⟨hsound, hmet⟩ := run_sound st es
  refine ⟨fun hrunning e => ?_, hmet⟩
  by_cases hrelaunch : e = .session .relaunch
  · rw [hrelaunch, Screen.step, if_pos hrunning]
    rfl
  · exact (ends_step (hsound hrunning) hrunning hrelaunch).crashed

/-- The counter is 1 and there is no document: the read of the document ends
the process. -/
example :
    let st := { Store.signUp with user := { Store.signUp.user with habitCounter := 1 } }
    let x := (launched st).run [.session .fetchFirebaseHabits, .session (.serve 0),
      .session (.deliver 0), .session (.serve 0)]
    x.fault (.session (.deliver 0)) = some .forcedCast := by decide

end Screen

end HabitHive
