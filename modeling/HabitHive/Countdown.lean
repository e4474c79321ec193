import HabitHive.Layout

/-!
# One timer for each countdown

The cell of one timed habit is followed through taps, long presses, ticks
and the time reads of its starts.  It is in one of three phases.  It is
idle, or it waits for the read and the block of one start, or one timer
counts down.  `Phase` says what the two flags, the timers and the calls in
flight are in each of them.

Two kinds of steps leave the three phases.  A tap stops a countdown whose
timer is still to be scheduled, since the block that is in flight then
schedules it all the same.  And a tick at zero stops the timer, but resets
none of the flags.  In every run without such steps the cell has at most
one timer, and its flags say whether it has one.
-/

namespace HabitHive

namespace Screen

/-- The timers that are scheduled for a cell. -/
def timersOf (c : Nat) (x : Screen) : List CellTimer := x.timers.filter fun t => t.cell = c

theorem timersOf_invalidate (c : Nat) (x : Screen) (ids : List Nat) :
    (x.invalidate ids).timersOf c = (x.timersOf c).filter fun t => t.id ∉ ids := by
  simp only [timersOf, invalidate_timers, List.filter_filter, Bool.and_comm]

/-- The starts of a cell whose timer is still to be scheduled: their reads
and their blocks. -/
def starts (c : Nat) (x : Screen) : Nat :=
  x.reads.countP (fun r => r.cell = c && r.start) + x.blocks.countP fun b => b.cell = c

/-- The property of the cell at every point of a run. -/
structure OneTimer (c : Nat) (x : Screen) : Prop where
  single : (x.timersOf c).length ≤ 1
  /-- while `startVar` is false no tick changes the time -/
  frozen : (x.cells c).startVar = false →
    ∀ id, ((x.step (.tick id)).cells c).time = (x.cells c).time
  /-- when no start is in flight, both flags say whether a timer is live -/
  flags : x.starts c = 0 →
    ((x.cells c).startVar = true ↔ Live c x) ∧ ((x.cells c).running = true ↔ Live c x)

/-- Nothing of a countdown is left on the cell. -/
structure Idle (c : Nat) (x : Screen) : Prop where
  startVar : (x.cells c).startVar = false
  running : (x.cells c).running = false
  timers : x.timersOf c = []
  starts : x.starts c = 0

/-- The events of the cell `c` of row `r`, which reload it as the same
object, and the ticks and deliveries of all cells. -/
def CellEvent (r c : Nat) : ScreenEvent → Prop
  | .didSelectItemAt row c₁ c₂ => row = r ∧ c₁ = c ∧ c₂ = c
  | .handleLongPress row => row = r
  | .handlePressOnCollectionView | .tick _ | .serveTime _ | .deliverTime _ | .failTime _
  | .startTimer _ => True
  | _ => False

instance (r c : Nat) (e : ScreenEvent) : Decidable (CellEvent r c e) := by
  induction e using ScreenEvent.casesOn <;> unfold CellEvent <;> infer_instance

/-- A tap on the row would stop the countdown of the cell. -/
def StopsAt (c : Nat) (x : Screen) (row : Nat) : Prop :=
  (x.cells c).startVar = true ∧ (x.cells c).deleteButtonHidden = true ∧
    ∃ habit, x.session.habitArray[row]? = some habit ∧ habit.addFirebase = true

/-- A tap stops a countdown only once its timer is scheduled, and no timer
of the cell ticks at zero. -/
def Steadily (c : Nat) (x : Screen) : ScreenEvent → Prop
  | .didSelectItemAt row _ _ => StopsAt c x row → x.starts c = 0
  | .tick id => ∀ t, x.timers.find? (fun t => t.id = id) = some t → t.cell = c →
      (x.cells c).atZero = false
  | _ => True

/-! ## Steps that keep the phase -/

/-- The flags, the timers and the starts of the cell are the same, and its
menu is not opened. -/
structure Same (c : Nat) (x y : Screen) : Prop where
  startVar : (y.cells c).startVar = (x.cells c).startVar
  timerRunning : (y.cells c).timerRunning = (x.cells c).timerRunning
  timer : (y.cells c).timer = (x.cells c).timer
  menu : (x.cells c).deleteButtonHidden = true → (y.cells c).deleteButtonHidden = true
  timers : y.timersOf c = x.timersOf c
  starts : y.starts c = x.starts c

namespace Same

variable {c : Nat} {x y z : Screen}

theorem refl (x : Screen) : Same c x x := ⟨rfl, rfl, rfl, id, rfl, rfl⟩

theorem trans (h : Same c x y) (h' : Same c y z) : Same c x z where
  startVar := h'.startVar.trans h.startVar
  timerRunning := h'.timerRunning.trans h.timerRunning
  timer := h'.timer.trans h.timer
  menu := fun hmenu => h'.menu (h.menu hmenu)
  timers := h'.timers.trans h.timers
  starts := h'.starts.trans h.starts

/-- The cell itself does not change. -/
theorem of_cell (hcell : y.cells c = x.cells c) (htimers : y.timersOf c = x.timersOf c)
    (hstarts : y.starts c = x.starts c) : Same c x y :=
  ⟨by rw [hcell], by rw [hcell], by rw [hcell], by rw [hcell]; exact id, htimers, hstarts⟩

end Same

variable (c : Nat) (x : Screen)

theorem same_session (s : State) : Same c x { x with session := s } := .of_cell rfl rfl rfl

theorem same_crash (f : Fault) : Same c x (x.crash f) := same_session c x _

theorem same_setCell_of_ne {d : Nat} (h : c ≠ d) (cell : Cell) : Same c x (x.setCell d cell) :=
  .of_cell (by rw [setCell_cells, Function.update_of_ne h]) rfl rfl

/-- A change of the cell in other fields. -/
theorem same_setCell {cell : Cell} (hstart : cell.startVar = (x.cells c).startVar)
    (hrunning : cell.timerRunning = (x.cells c).timerRunning)
    (htimer : cell.timer = (x.cells c).timer)
    (hmenu : (x.cells c).deleteButtonHidden = true → cell.deleteButtonHidden = true) :
    Same c x (x.setCell c cell) := by
  have hcell : (x.setCell c cell).cells c = cell := by simp
  exact ⟨by rw [hcell, hstart], by rw [hcell, hrunning], by rw [hcell, htimer],
    by rw [hcell]; exact hmenu, rfl, rfl⟩

theorem same_invalidate {ids : List Nat} (h : ∀ t ∈ x.timersOf c, t.id ∉ ids) :
    Same c x (x.invalidate ids) := by
  refine .of_cell rfl ?_ rfl
  rw [timersOf, timersOf, invalidate_timers, List.filter_filter]
  refine List.filter_congr fun t ht => ?_
  by_cases hc : t.cell = c
  · have hid := h t (List.mem_filter.mpr ⟨ht, by simpa using hc⟩)
    simp [hc, hid]
  · simp [hc]

theorem same_configure (d : Nat) (habit : Habit) : Same c x (x.configure d habit) := by
  have hcell : Same c x (x.setCell d (configured habit (x.cells d))) := by
    by_cases h : c = d
    · subst h
      exact same_setCell c x rfl rfl rfl fun _ => rfl
    · exact same_setCell_of_ne c x h _
  rcases configure_cases x d habit with ⟨_, h⟩ | ⟨_, _, row, _, h⟩ | ⟨f, h⟩ <;> rw [h]
  · exact hcell
  · refine hcell.trans (.of_cell rfl rfl ?_)
    -- the read of `configure` is not the read of a start
    simp [starts]
  · exact hcell.trans (same_crash c _ f)

theorem same_showAlert (d row : Nat) : Same c x (x.showAlert d row) := by
  rcases showAlert_cases x d row with ⟨f, h⟩ | ⟨habit, shown, _, _, h⟩
  · rw [h]
    exact same_crash c x f
  · have hcell : Same c x (x.setCell d (alerted habit (x.cells d))) := by
      by_cases hd : c = d
      · subst hd
        exact same_setCell c x rfl rfl rfl id
      · exact same_setCell_of_ne c x hd _
    have hconfigured := hcell.trans (same_configure c _ d (finished shown))
    rcases h with h | h <;> rw [h]
    · exact hconfigured
    · exact hconfigured.trans (same_session c _ _)

theorem same_handlePressOnCollectionView : Same c x x.handlePressOnCollectionView := by
  have hreset : ∀ (y : Screen) d, Same c y (y.resetCellsToStandard d) := by
    intro y d
    by_cases h : c = d
    · subst h
      exact same_setCell c y rfl rfl rfl fun _ => rfl
    · exact same_setCell_of_ne c y h _
  exact rel_handlePressOnCollectionView x .refl .trans hreset fun _ => .of_cell rfl rfl rfl

/-! ## Ticks -/

theorem same_countDown : Same c x (x.setCell c (x.cells c).countDown) := by
  obtain ⟨hour, minute, second, hcell⟩ := countDown_timed (x.cells c)
  rw [hcell]
  exact same_setCell c x rfl rfl rfl id

/-- No tick of another cell stops a timer of the cell. -/
theorem same_action_of_ne {c d : Nat} {x : Screen} (hsched : Scheduled x) (h : c ≠ d) :
    Same c x (x.action d) := by
  cases hzero : (x.cells d).atZero with
  | false =>
    rw [action_of_pos x d hzero]
    exact same_setCell_of_ne c x h _
  | true =>
    have hstop : Same c x (x.invalidate (x.cells d).timer.toList) := by
      refine same_invalidate c x fun t ht hid => h ?_
      obtain ⟨hmem, hc⟩ := List.mem_filter.mp ht
      rw [← of_decide_eq_true hc]
      exact hsched.owner d t.id (Option.mem_toList.mp hid) t hmem rfl
    rcases action_of_zero x d hzero with h | ⟨row, _, h⟩ <;> rw [h]
    · exact hstop.trans (same_crash c _ _)
    · exact hstop.trans (same_showAlert c _ d row)

theorem same_tick {c id : Nat} {x : Screen} (hsched : Scheduled x)
    (hrepeats : ∀ t ∈ x.timersOf c, t.repeats = true) (hok : Steadily c x (.tick id)) :
    Same c x (x.tick id) := by
  unfold tick
  split
  · exact .refl x
  · next t ht =>
    have hmem := List.mem_of_find?_eq_some ht
    by_cases hc : t.cell = c
    · have hpos := hok t ht hc
      have hrep : t.repeats = true := hrepeats t (List.mem_filter.mpr ⟨hmem, by simpa using hc⟩)
      simp only [hrep, if_true, hc, action_of_pos x c hpos]
      exact same_countDown c x
    · have haction := same_action_of_ne hsched (Ne.symm hc)
      dsimp only
      split
      · exact haction
      · refine haction.trans (same_invalidate c _ fun t' ht' hid => hc ?_)
        obtain ⟨hmem', hc'⟩ := List.mem_filter.mp ht'
        have hid' : t.id = id := by simpa using List.find?_some ht
        have heq := hsched.unique t' ((keeps_action x t.cell).timers t' hmem') t hmem
          ((List.mem_singleton.mp hid).trans hid'.symm)
        rw [← heq]
        exact of_decide_eq_true hc'

/-! ## The time reads -/

theorem starts_dropRead {i : Nat} {r : TimeRead} (h : x.reads[i]? = some r) :
    x.starts c = (x.dropRead i).starts c + if r.cell = c && r.start then 1 else 0 := by
  obtain ⟨hlt, rfl⟩ := List.getElem?_eq_some_iff.mp h
  have hperm := (List.getElem_cons_eraseIdx_perm hlt).countP_eq fun r => r.cell = c && r.start
  rw [List.countP_cons] at hperm
  simp only [starts, dropRead_reads, dropRead_blocks, ← hperm]
  omega

theorem starts_leaveGroup (r : TimeRead) :
    (x.leaveGroup r).starts c = x.starts c + if r.cell = c && r.start then 1 else 0 := by
  cases hstart : r.start <;> by_cases hc : r.cell = c <;>
    simp [leaveGroup, starts, hstart, hc, List.countP_append, Nat.add_assoc]

theorem same_timeRead (r : TimeRead) (document : Option Store) :
    Same c x (x.timeRead r document) := by
  rcases timeRead_cases x r document with ⟨_, h⟩ | ⟨f, h⟩ | ⟨doc, _, _, _, _, _, h⟩ <;> rw [h]
  · exact .refl x
  · exact same_crash c x f
  · by_cases hc : c = r.cell
    · subst hc
      exact same_setCell _ x rfl rfl rfl id
    · exact same_setCell_of_ne c x hc _

/-- A read of a start that comes back leaves its block behind. -/
theorem same_leaveGroup {i : Nat} {r : TimeRead} {y : Screen} (hr : x.reads[i]? = some r)
    (h : Same c (x.dropRead i) y) : Same c x (y.leaveGroup r) := by
  have htimers : (y.leaveGroup r).timersOf c = y.timersOf c := by
    rw [timersOf, timersOf, leaveGroup_timers]
  refine ⟨by rw [leaveGroup_cells, h.startVar]; rfl, by rw [leaveGroup_cells, h.timerRunning]; rfl,
    by rw [leaveGroup_cells, h.timer]; rfl, by rw [leaveGroup_cells]; exact h.menu,
    htimers.trans h.timers, ?_⟩
  rw [starts_leaveGroup, h.starts]
  exact (starts_dropRead c x hr).symm

theorem same_deliverTime (i : Nat) : Same c x (x.deliverTime i) := by
  unfold deliverTime
  split
  · exact .refl x
  · next r hr =>
    split
    · exact .refl x
    · exact same_leaveGroup c x hr (same_timeRead c _ r r.snapshot)

theorem same_failTime (i : Nat) : Same c x (x.failTime i) := by
  unfold failTime
  split
  · exact .refl x
  · next r hr => exact same_leaveGroup c x hr (.refl _)

theorem same_serveTime (i : Nat) : Same c x (x.serveTime i) := by
  unfold serveTime
  split
  · exact .refl x
  · next r hr =>
    split
    · refine .of_cell rfl rfl ?_
      obtain ⟨hlt, rfl⟩ := List.getElem?_eq_some_iff.mp hr
      have hset := (List.set_perm_cons_eraseIdx hlt
        { x.reads[i] with snapshot := some x.session.store }).countP_eq
          fun r => r.cell = c && r.start
      have hperm := (List.getElem_cons_eraseIdx_perm hlt).countP_eq fun r => r.cell = c && r.start
      rw [List.countP_cons] at hset hperm
      exact congrArg (· + _) (hset.trans hperm)
    · exact .refl x

/-! ## Blocks -/

theorem starts_runBlock {i : Nat} {b : StartBlock} (h : x.blocks[i]? = some b) :
    x.starts c = (x.runBlock i).starts c + if b.cell = c then 1 else 0 := by
  obtain ⟨hlt, rfl⟩ := List.getElem?_eq_some_iff.mp h
  have hperm := (List.getElem_cons_eraseIdx_perm hlt).countP_eq fun b => b.cell = c
  rw [List.countP_cons] at hperm
  simp only [starts, runBlock, h, startTimer, setCell, ← hperm, decide_eq_true_eq]
  omega

theorem timersOf_runBlock {i : Nat} {b : StartBlock} (h : x.blocks[i]? = some b) :
    (x.runBlock i).timersOf c = x.timersOf c ++
      if b.cell = c then
        [{ id := x.nextTimer, cell := c, repeats := (x.cells c).startVar, ident := b.ident }]
      else [] := by
  by_cases hc : b.cell = c <;>
    simp [timersOf, runBlock, h, startTimer, List.filter_append, hc]

theorem same_runBlock_of_ne {i : Nat} {b : StartBlock} (h : x.blocks[i]? = some b)
    (hc : b.cell ≠ c) : Same c x (x.runBlock i) := by
  refine .of_cell ?_ ?_ ?_
  · simp [runBlock, h, startTimer, setCell, Function.update_of_ne (Ne.symm hc)]
  · rw [timersOf_runBlock c x h, if_neg hc, List.append_nil]
  · have hstarts := starts_runBlock c x h
    rw [if_neg hc] at hstarts
    exact hstarts.symm

/-! ## The three phases -/

/-- What a countdown of the cell has come to. -/
inductive Phase (c : Nat) (x : Screen) : Prop where
  | idle (h : Idle c x)
  /-- the read or the block of a start is in flight -/
  | waiting (hstart : (x.cells c).startVar = true) (hrunning : (x.cells c).running = true)
      (hmenu : (x.cells c).deleteButtonHidden = true) (htimers : x.timersOf c = [])
      (hstarts : x.starts c = 1)
  /-- one timer is scheduled, and the cell holds it -/
  | counting (hstart : (x.cells c).startVar = true) (hrunning : (x.cells c).running = true)
      (hmenu : (x.cells c).deleteButtonHidden = true) (t : CellTimer) (htimers : x.timersOf c = [t])
      (htimer : (x.cells c).timer = some t.id) (hrepeats : t.repeats = true)
      (hstarts : x.starts c = 0)

namespace Phase

variable {c : Nat} {x y : Screen}

theorem same (h : Phase c x) (hsame : Same c x y) : Phase c y := by
  have hrunning : (y.cells c).running = (x.cells c).running := by
    rw [Cell.running, hsame.timerRunning, Cell.running]
  cases h with
  | idle h =>
    exact .idle ⟨hsame.startVar.trans h.startVar, hrunning.trans h.running,
      hsame.timers.trans h.timers, hsame.starts.trans h.starts⟩
  | waiting hstart hrun hmenu htimers hstarts =>
    exact .waiting (hsame.startVar.trans hstart) (hrunning.trans hrun) (hsame.menu hmenu)
      (hsame.timers.trans htimers) (hsame.starts.trans hstarts)
  | counting hstart hrun hmenu t htimers htimer hrepeats hstarts =>
    exact .counting (hsame.startVar.trans hstart) (hrunning.trans hrun) (hsame.menu hmenu) t
      (hsame.timers.trans htimers) (hsame.timer.trans htimer) hrepeats
      (hsame.starts.trans hstarts)

theorem repeats (h : Phase c x) : ∀ t ∈ x.timersOf c, t.repeats = true := by
  intro t ht
  cases h with
  | idle h => simp [h.timers] at ht
  | waiting _ _ _ htimers => simp [htimers] at ht
  | counting _ _ _ t' htimers _ hrepeats =>
    rw [htimers] at ht
    rw [List.mem_singleton.mp ht]
    exact hrepeats

/-- The cell of each phase has the property. -/
theorem oneTimer (h : Phase c x) : OneTimer c x := by
  have hlive : Live c x ↔ x.timersOf c ≠ [] := by
    simp [Live, timersOf, List.filter_eq_nil_iff]
  refine ⟨?_, fun hstart id => ?_, fun hstarts => ?_⟩
  · cases h with
    | idle h => simp [h.timers]
    | waiting _ _ _ htimers => simp [htimers]
    | counting _ _ _ t htimers => simp [htimers]
  · -- no timer of the cell is scheduled, so the tick is one of another cell
    have hnone : x.timersOf c = [] := by
      cases h with
      | idle h => exact h.timers
      | waiting hstart' => simp [hstart] at hstart'
      | counting hstart' => simp [hstart] at hstart'
    unfold step
    split
    · simp only [handle, tick]
      split
      · rfl
      · next t ht =>
        have hc : t.cell ≠ c := by
          intro hc
          have hmem : t ∈ x.timersOf c :=
            List.mem_filter.mpr ⟨List.mem_of_find?_eq_some ht, by simpa using hc⟩
          rw [hnone] at hmem
          contradiction
        have hcells := action_of_ne x t.cell (Ne.symm hc)
        split
        · rw [hcells]
        · rw [invalidate_cells, hcells]
    · rw [if_neg (by simp)]
  · rw [hlive]
    cases h with
    | idle h => simp [h.startVar, h.running, h.timers]
    | waiting _ _ _ _ hstarts' => omega
    | counting hstart hrun _ t htimers => simp [hstart, hrun, htimers]

/-! ## Gestures and blocks -/

/-- The block of a start schedules the one timer. -/
theorem runBlock (h : Phase c x) (i : Nat) : Phase c (x.runBlock i) := by
  cases hb : x.blocks[i]? with
  | none => simpa [Screen.runBlock, hb] using h
  | some b =>
    by_cases hc : b.cell = c
    · have hstarts := starts_runBlock c x hb
      have htimers := timersOf_runBlock c x hb
      rw [if_pos hc] at hstarts htimers
      cases h with
      | idle h =>
        have := h.starts
        omega
      | waiting hstart hrunning hmenu htimers' hstarts' =>
        rw [htimers', hstart] at htimers
        have hcell : (x.runBlock i).cells c = { x.cells c with timer := some x.nextTimer } := by
          simp [Screen.runBlock, hb, startTimer, setCell, hc]
        exact .counting (by rw [hcell]; exact hstart) (by rw [hcell]; exact hrunning)
          (by rw [hcell]; exact hmenu) _ htimers (by rw [hcell]) rfl (by omega)
      | counting _ _ _ _ _ _ _ hstarts' => omega
    · exact h.same (same_runBlock_of_ne c x hb hc)

/-- A stop that is not made while a start is in flight. -/
theorem stop (h : Phase c x) (hstarts : x.starts c = 0) (row : Nat) :
    Idle c (x.startCountdown c row false) := by
  rw [startCountdown_false]
  refine ⟨by simp [Screen.stop, stopped, setCell], by simp [Screen.stop, stopped, setCell,
    Cell.running], ?_, hstarts⟩
  have htimers : (x.stop c row).timersOf c =
      (x.timersOf c).filter fun t => t.id ∉ (x.cells c).timer.toList :=
    timersOf_invalidate c x _
  rw [htimers]
  cases h with
  | idle h => rw [h.timers, List.filter_nil]
  | waiting _ _ _ htimers => rw [htimers, List.filter_nil]
  | counting _ _ _ t htimers htimer => simp [htimers, htimer]

end Phase

namespace Idle

variable {c : Nat} {x : Screen}

/-- A start of an idle cell whose menu is closed. -/
theorem start (h : Idle c x) (hmenu : (x.cells c).deleteButtonHidden = true) (row : Nat) :
    Phase c (x.startCountdown c row true) := by
  rw [startCountdown_true]
  have hcell : ((x.setCell c (started (x.cells c))).fetchTimeFromFirebase c row true).cells c =
      started (x.cells c) := by simp
  refine .waiting (by rw [hcell]; rfl) (by rw [hcell]; rfl) (by rw [hcell]; exact hmenu) h.timers ?_
  have hstarts := h.starts
  simp only [Screen.starts] at hstarts ⊢
  simp [List.countP_append]
  omega

/-- The cleanup of a reload can only happen to an idle cell, since the menu
of the others is closed. -/
theorem reload (h : Idle c x) (row : Nat) : Idle c (x.cellForItemAt row c) := by
  have hcell : ((x.cellForItemAt row c).cells c).startVar = (x.cells c).startVar ∧
      ((x.cellForItemAt row c).cells c).running = (x.cells c).running := by
    cases hrow : x.session.habitArray[row]? with
    | none => simp [cellForItemAt_of_none x c row hrow, place]
    | some habit =>
      simp [cellForItemAt_cell x c row hrow, configured, laidOut, Cell.setMenu, Cell.running]
  refine ⟨hcell.1.trans h.startVar, hcell.2.trans h.running, ?_, ?_⟩
  · refine List.filter_eq_nil_iff.mpr fun t ht => ?_
    exact List.filter_eq_nil_iff.mp h.timers t ((keeps_cellForItemAt x c row).timers t ht)
  · have hplace : (x.place c row).starts c = 0 := by
      simpa [Screen.starts, place] using h.starts
    cases hrow : x.session.habitArray[row]? with
    | none =>
      rw [cellForItemAt_of_none x c row hrow]
      exact hplace
    | some habit =>
      rw [cellForItemAt_of_row x c row hrow, (same_configure c _ c habit).starts]
      exact hplace

theorem opened (h : Idle c x) : Idle c (x.opened c) where
  startVar := by simpa [Screen.opened, Cell.setMenu] using h.startVar
  running := by simpa [Screen.opened, Cell.setMenu, Cell.running] using h.running
  timers := h.timers
  starts := h.starts

end Idle

/-- The row `r` holds a timed habit, and the cell `c` that shows it is in
one of the phases. -/
structure Followed (r c : Nat) (x : Screen) : Prop where
  scheduled : Scheduled x
  phase : Phase c x
  shown : x.cellForItem r = some c
  timed : ∀ habit, x.session.habitArray[r]? = some habit → habit.counted = false

namespace Followed

variable {r c : Nat} {x y : Screen}

theorem steady (h : Followed r c x) (hsched : Scheduled y) (hphase : Phase c y)
    (hsteady : Steady x y) : Followed r c y where
  scheduled := hsched
  phase := hphase
  shown := by rw [cellForItem, hsteady.shown]; exact h.shown
  timed habit hrow := by
    obtain ⟨old, hold, hkind⟩ := hsteady.row hrow
    exact (congrArg Prod.snd hkind).trans (h.timed old hold)

/-- A tap reloads an idle cell, starts a countdown or stops it. -/
theorem tap (h : Followed r c x) (hok : StopsAt c x r → x.starts c = 0) :
    Followed r c (x.didSelectItemAt r c c) := by
  have hsched := h.scheduled.keeps (keeps_didSelectItemAt x r c c)
  have hday : Same c x x.saveDay := same_session c x _
  have hsteady : Steady x x.saveDay := steady_session x rfl
  cases hrow : x.session.habitArray[r]? with
  | none =>
    rw [didSelectItemAt_of_row x r h.shown hrow] at hsched ⊢
    exact h.steady hsched (h.phase.same (hday.trans (same_crash c _ _)))
      (hsteady.trans (steady_crash _ _))
  | some habit =>
    have htap : x.Tap r c c c habit _ := didSelectItemAt_tap x r h.shown hrow
    generalize x.didSelectItemAt r c c = y at htap hsched ⊢
    cases htap with
    | finished => exact h.steady hsched (h.phase.same hday) hsteady
    | menu hmenu =>
      cases h.phase.same hday with
      | idle hidle =>
        refine ⟨hsched, .idle (hidle.reload r), ?_, fun habit' hhabit => ?_⟩
        · simp [cellForItem]
        · rw [cellForItemAt_habitArray] at hhabit
          exact h.timed habit' hhabit
      | waiting _ _ hmenu' => exact absurd (hmenu.symm.trans hmenu') (by simp)
      | counting _ _ hmenu' => exact absurd (hmenu.symm.trans hmenu') (by simp)
    | start hmenu _ _ hstart =>
      cases h.phase.same hday with
      | idle hidle =>
        exact h.steady hsched (hidle.start hmenu r)
          (hsteady.trans (steady_startCountdown _ c r true))
      | waiting hstart' => exact absurd (hstart.symm.trans hstart') (by simp)
      | counting hstart' => exact absurd (hstart.symm.trans hstart') (by simp)
    | stop hmenu hadd _ hstart =>
      have hstarts := hok ⟨hstart, hmenu, habit, hrow, hadd⟩
      exact h.steady hsched (.idle ((h.phase.same hday).stop hstarts r))
        (hsteady.trans (steady_startCountdown _ c r false))
    | counted _ _ hcounted => exact absurd (hcounted.symm.trans (h.timed habit hrow)) (by simp)

/-- A long press that is not ignored finds the cell idle. -/
theorem longPress (h : Followed r c x) : Followed r c (x.handleLongPress r) := by
  have hsched := h.scheduled.keeps (keeps_handleLongPress x r)
  refine h.steady hsched ?_ (steady_handleLongPress x r)
  cases hrunning : (x.cells c).running with
  | true =>
    rw [handleLongPress_of_running x r fun d hd => ?_]
    · exact h.phase
    · rw [← Option.some.inj (h.shown.symm.trans hd), hrunning]
  | false =>
    have hidle : Idle c x := by
      cases h.phase with
      | idle hidle => exact hidle
      | waiting _ hrun => exact absurd (hrunning.symm.trans hrun) (by simp)
      | counting _ hrun => exact absurd (hrunning.symm.trans hrun) (by simp)
    cases hrow : x.session.habitArray[r]? with
    | none =>
      rw [handleLongPress_of_none x c r h.shown hrunning hrow]
      exact (Phase.idle hidle.opened).same (same_crash c _ _)
    | some habit =>
      rw [handleLongPress_of_row x c r h.shown hrunning hrow, h.timed habit hrow]
      simp only [Bool.false_eq_true, if_false]
      have hstop := (Phase.idle hidle.opened).stop hidle.opened.starts r
      rw [startCountdown_false] at hstop
      exact (Phase.idle hstop).same (.of_cell rfl rfl rfl)

theorem step (h : Followed r c x) {e : ScreenEvent} (he : CellEvent r c e)
    (hok : Steadily c x e) : Followed r c (x.step e) := by
  have hsched := h.scheduled.step e
  rw [Screen.step] at hsched ⊢
  split
  · next hrunning =>
    rw [if_pos hrunning] at hsched
    cases e with
    | didSelectItemAt row c₁ c₂ =>
      obtain ⟨rfl, rfl, rfl⟩ := he
      simp only [handle] at hsched ⊢
      split
      · exact h.tap hok
      · exact h
    | handleLongPress row =>
      obtain rfl := he
      exact h.longPress
    | handlePressOnCollectionView =>
      exact h.steady hsched (h.phase.same (same_handlePressOnCollectionView c x))
        (steady_handlePressOnCollectionView x)
    | tick id =>
      exact h.steady hsched (h.phase.same (same_tick h.scheduled h.phase.repeats hok))
        (steady_tick x id)
    | serveTime i =>
      exact h.steady hsched (h.phase.same (same_serveTime c x i)) (steady_serveTime x i)
    | deliverTime i =>
      exact h.steady hsched (h.phase.same (same_deliverTime c x i)) (steady_deliverTime x i)
    | failTime i => exact h.steady hsched (h.phase.same (same_failTime c x i)) (steady_failTime x i)
    | startTimer i => exact h.steady hsched (h.phase.runBlock i) (steady_runBlock x i)
    | _ => exact absurd he id
  · split
    · next hrelaunch =>
      subst hrelaunch
      exact absurd he id
    · exact h

end Followed

/-- From every reachable screen on which the cell of a timed habit is idle:
in a run in which no countdown is stopped before its timer is scheduled and
none completes, the cell always has at most one timer, no tick changes its
time while `startVar` is false, and its flags say whether a timer is
live. -/
theorem oneTimer_always (st : Store) (fs es : List ScreenEvent) {r c : Nat} {habit : Habit}
    (hshown : ((launched st).run fs).cellForItem r = some c)
    (hhabit : ((launched st).run fs).session.habitArray[r]? = some habit)
    (htimed : habit.counted = false) (hidle : Idle c ((launched st).run fs))
    (hes : ∀ e ∈ es, CellEvent r c e)
    (hok : Runs.Guarded step (Steadily c) ((launched st).run fs) es) :
    Runs.Always step (OneTimer c) ((launched st).run fs) es := by
  have hfollowed : Followed r c ((launched st).run fs) :=
    ⟨scheduled_run st fs, .idle hidle, hshown, fun habit' hrow => by
      rw [← Option.some.inj (hhabit.symm.trans hrow), htimed]⟩
  have halways := (hok.and_forall hes).always (fun x e hx he => hx.step he.2 he.1) hfollowed
  exact fun gs hgs => (halways gs hgs).phase.oneTimer

/-- A countdown of one second runs out, and one is stopped and started again
before the read of its first start is back. -/
theorem completion_and_restart_break :
    let fs := loads 1 ++ arrivals 1 0
    let x := (launched (.ofEntries [.timed [0, 0, 0, 0, 0, 1]])).run fs
    let tap : ScreenEvent := .didSelectItemAt 0 0 0
    let completed := [tap] ++ arrivals 1 1 ++ [.tick 0, .tick 0]
    let restarted := [tap, tap, tap] ++ arrivals 2 2
    x.cellForItem 0 = some 0 ∧ Idle 0 x ∧
      ((∀ e ∈ completed, CellEvent 0 0 e) ∧ ¬Runs.Always step (OneTimer 0) x completed) ∧
      (∀ e ∈ restarted, CellEvent 0 0 e) ∧ ¬Runs.Always step (OneTimer 0) x restarted := by
  intro fs x tap completed restarted
  refine ⟨by decide +kernel, ?_, ⟨by decide +kernel, fun h => ?_⟩, by decide +kernel, fun h => ?_⟩
  · exact ⟨by decide +kernel, by decide +kernel, by decide +kernel, by decide +kernel⟩
  · have hflags := (h completed (List.prefix_refl _)).flags (by decide +kernel)
    revert hflags
    decide +kernel
  · have hsingle := (h restarted (List.prefix_refl _)).single
    revert hsingle
    decide +kernel

/-- A countdown that ticks once and is stopped. -/
theorem oneTimer_always_stopped :
    let x := (launched (.ofEntries account)).run (loads 3)
    Runs.Always step (OneTimer 0) x
      ([.didSelectItemAt 0 0 0] ++ arrivals 3 1 ++ [.tick 0, .didSelectItemAt 0 0 0]) := by
  have hshown : ((launched (.ofEntries account)).run (loads 3)).cellForItem 0 = some 0 := by
    decide +kernel
  have hhabit : ((launched (.ofEntries account)).run (loads 3)).session.habitArray[0]? =
      some ((Entry.timed [0, 0, 1, 0, 0, 0]).toHabit 0 0) := by decide +kernel
  refine oneTimer_always (.ofEntries account) (loads 3) _ hshown hhabit rfl
    ⟨by decide +kernel, by decide +kernel, by decide +kernel, by decide +kernel⟩
    (by decide +kernel) ?_
  exact ⟨fun _ => by decide +kernel, trivial, trivial, trivial, trivial, trivial, trivial, trivial,
    fun _ _ _ => by decide +kernel, fun _ => by decide +kernel, trivial⟩

end Screen

end HabitHive
