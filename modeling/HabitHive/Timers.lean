import HabitHive.Cells
import HabitHive.Session

/-!
# The timers of the screen

`Keeps x y` says that a step schedules nothing: the timers of `y` are among
those of `x`, and no cell has changed its `timer`.  Every step but the
block of a start is of this kind, and `Scheduled` is what follows for all
reachable screens.  An id belongs to one timer and one cell, and
`timerArray` holds the ids of all timers that are scheduled.
-/

namespace HabitHive

namespace Screen

/-- A timer of the cell is scheduled. -/
def Live (c : Nat) (x : Screen) : Prop := ∃ t ∈ x.timers, t.cell = c

instance (c : Nat) (x : Screen) : Decidable (Live c x) :=
  inferInstanceAs (Decidable (∃ t ∈ x.timers, t.cell = c))

/-- No timer is scheduled between `x` and `y`. -/
structure Keeps (x y : Screen) : Prop where
  timers : ∀ t ∈ y.timers, t ∈ x.timers
  nextTimer : y.nextTimer = x.nextTimer
  timer : ∀ c, (y.cells c).timer = (x.cells c).timer
  timerArray : ∀ t ∈ y.timers, t.id ∈ x.timerArray → t.id ∈ y.timerArray

namespace Keeps

variable {x y z : Screen}

theorem refl (x : Screen) : Keeps x x := ⟨fun _ h => h, rfl, fun _ => rfl, fun _ _ h => h⟩

theorem trans (h : Keeps x y) (h' : Keeps y z) : Keeps x z where
  timers t ht := h.timers t (h'.timers t ht)
  nextTimer := h'.nextTimer.trans h.nextTimer
  timer c := (h'.timer c).trans (h.timer c)
  timerArray t ht hid := h'.timerArray t ht (h.timerArray t (h'.timers t ht) hid)

/-- A step that leaves the timers alone. -/
theorem same (htimers : y.timers = x.timers) (harray : y.timerArray = x.timerArray)
    (hnext : y.nextTimer = x.nextTimer) (htimer : ∀ c, (y.cells c).timer = (x.cells c).timer) :
    Keeps x y where
  timers _ ht := htimers ▸ ht
  nextTimer := hnext
  timer := htimer
  timerArray _ _ hid := harray ▸ hid

end Keeps

variable (x : Screen) (c row : Nat)

/-- A cell changes, but not its timer. -/
theorem keeps_setCell (cell : Cell) (h : cell.timer = (x.cells c).timer) :
    Keeps x (x.setCell c cell) := .same rfl rfl rfl (setCell_view x c Cell.timer h)

theorem keeps_crash (f : Fault) : Keeps x (x.crash f) := .same rfl rfl rfl fun _ => rfl

theorem keeps_invalidate (ids : List Nat) : Keeps x (x.invalidate ids) where
  timers _ ht := (List.mem_filter.mp ht).1
  nextTimer := rfl
  timer _ := rfl
  timerArray _ _ hid := hid

theorem keeps_fetch (start : Bool) : Keeps x (x.fetchTimeFromFirebase c row start) :=
  .same rfl rfl rfl fun _ => rfl

theorem keeps_configure (habit : Habit) : Keeps x (x.configure c habit) := by
  have hcell : Keeps x (x.setCell c (configured habit (x.cells c))) := keeps_setCell x c _ rfl
  rcases configure_cases x c habit with ⟨_, h⟩ | ⟨_, _, row, _, h⟩ | ⟨f, h⟩ <;> rw [h]
  · exact hcell
  · exact hcell.trans (keeps_fetch _ c row false)
  · exact hcell.trans (keeps_crash _ f)

/-- The cleanup leaves no timer behind that was in `timerArray`. -/
theorem keeps_invalidateAll : Keeps x x.invalidateAll := by
  unfold invalidateAll
  split
  · refine ⟨fun _ ht => (List.mem_filter.mp ht).1, rfl, fun _ => rfl, fun t ht hid => ?_⟩
    have hnot := (List.mem_filter.mp ht).2
    simp only [decide_eq_true_eq] at hnot
    exact absurd hid hnot
  · exact .refl x

theorem keeps_place : Keeps x (x.place c row) :=
  (keeps_invalidateAll x).trans (.same rfl rfl rfl fun _ => rfl)

theorem keeps_cellForItemAt : Keeps x (x.cellForItemAt row c) := by
  cases hrow : x.session.habitArray[row]? with
  | none =>
    rw [cellForItemAt_of_none x c row hrow]
    exact (keeps_place x c row).trans (keeps_crash _ _)
  | some habit =>
    rw [cellForItemAt_of_row x c row hrow]
    refine ((keeps_place x c row).trans (keeps_setCell _ c _ ?_)).trans (keeps_configure _ c habit)
    simp [place, laidOut]

theorem keeps_startCountdown (start : Bool) : Keeps x (x.startCountdown c row start) := by
  cases start
  · rw [startCountdown_false]
    refine ((keeps_invalidate x _).trans (keeps_setCell _ c _ ?_)).trans
      (.same rfl rfl rfl fun _ => rfl)
    rfl
  · rw [startCountdown_true]
    exact (keeps_setCell x c (started (x.cells c)) rfl).trans
      (keeps_fetch _ c row true)

theorem keeps_session (s : State) : Keeps x { x with session := s } :=
  .same rfl rfl rfl fun _ => rfl

theorem keeps_completeCounted (habit : Habit) : Keeps x (x.completeCounted c row habit) := by
  unfold completeCounted
  dsimp only
  split
  · exact (keeps_session x _).trans (keeps_configure _ c _)
  · exact keeps_session x _

theorem keeps_tapCounted (d c₁ c₂ : Nat) (habit : Habit) :
    Keeps x (x.tapCounted d row c₁ c₂ habit) := by
  by_cases hcount : habit.currentCount < habit.goal
  · rw [tapCounted_of_lt x row hcount]
    exact (((keeps_session x _).trans (keeps_cellForItemAt _ c₁ row)).trans
      (keeps_completeCounted _ d row _)).trans (keeps_cellForItemAt _ c₂ row)
  · rw [tapCounted_of_not_lt x row hcount]
    exact (keeps_completeCounted x d row habit).trans (keeps_cellForItemAt _ c₂ row)

theorem keeps_didSelectItemAt (c₁ c₂ : Nat) : Keeps x (x.didSelectItemAt row c₁ c₂) := by
  have hday : Keeps x x.saveDay := keeps_session x _
  rcases didSelectItemAt_cases x row c₁ c₂ with h | h | ⟨d, habit, _, _, htap⟩
  · rw [h]
    exact .refl x
  · rw [h]
    exact hday.trans (keeps_crash _ _)
  · generalize x.didSelectItemAt row c₁ c₂ = y at htap ⊢
    cases htap with
    | finished => exact hday
    | menu => exact hday.trans (keeps_cellForItemAt _ c₂ row)
    | start => exact hday.trans (keeps_startCountdown _ d row true)
    | stop => exact hday.trans (keeps_startCountdown _ d row false)
    | counted => exact hday.trans (keeps_tapCounted _ row d c₁ c₂ habit)

theorem keeps_handleLongPress : Keeps x (x.handleLongPress row) :=
  rel_handleLongPress x row .refl .trans keeps_crash (fun y c => keeps_setCell y c _ rfl)
    (fun y c => keeps_startCountdown y c row false) fun _ _ => .same rfl rfl rfl fun _ => rfl

theorem keeps_handlePressOnCollectionView : Keeps x x.handlePressOnCollectionView :=
  rel_handlePressOnCollectionView x .refl .trans (fun y c => keeps_setCell y c _ rfl)
    fun _ => .same rfl rfl rfl fun _ => rfl

theorem keeps_showAlert : Keeps x (x.showAlert c row) := by
  rcases showAlert_cases x c row with ⟨f, h⟩ | ⟨habit, shown, _, _, h⟩
  · rw [h]
    exact keeps_crash x f
  · have hcell := (keeps_setCell x c (alerted habit (x.cells c)) rfl).trans
      (keeps_configure _ c (finished shown))
    rcases h with h | h <;> rw [h]
    · exact hcell
    · exact hcell.trans (keeps_session _ _)

theorem keeps_action : Keeps x (x.action c) :=
  rel_action x c .trans keeps_crash (fun _ _ _ => keeps_setCell x c _ rfl) keeps_invalidate
    fun y row => keeps_showAlert y c row

theorem keeps_tick (id : Nat) : Keeps x (x.tick id) :=
  rel_tick x .refl .trans id (keeps_action x) keeps_invalidate

/-! ## The time reads -/

theorem keeps_timeRead (r : TimeRead) (document : Option Store) :
    Keeps x (x.timeRead r document) := by
  rcases timeRead_cases x r document with ⟨_, h⟩ | ⟨f, h⟩ | ⟨doc, _, _, _, _, _, h⟩ <;> rw [h]
  · exact .refl x
  · exact keeps_crash x f
  · exact keeps_setCell x r.cell _ rfl

theorem keeps_leaveGroup (r : TimeRead) : Keeps x (x.leaveGroup r) := by
  unfold leaveGroup
  split
  · exact .same rfl rfl rfl fun _ => rfl
  · exact .refl x

theorem keeps_deliverTime (i : Nat) : Keeps x (x.deliverTime i) := by
  unfold deliverTime
  split
  · exact .refl x
  · next r _ =>
    split
    · exact .refl x
    · have hdrop : Keeps x (x.dropRead i) := .same rfl rfl rfl fun _ => rfl
      exact (hdrop.trans (keeps_timeRead _ r r.snapshot)).trans (keeps_leaveGroup _ r)

theorem keeps_failTime (i : Nat) : Keeps x (x.failTime i) := by
  unfold failTime
  split
  · exact .refl x
  · next r _ =>
    have hdrop : Keeps x (x.dropRead i) := .same rfl rfl rfl fun _ => rfl
    exact hdrop.trans (keeps_leaveGroup _ r)

theorem keeps_serveTime (i : Nat) : Keeps x (x.serveTime i) := by
  unfold serveTime
  split
  · exact .refl x
  · split
    · exact .same rfl rfl rfl fun _ => rfl
    · exact .refl x

/-! ## One step -/

/-- Only the block of a start schedules a timer. -/
theorem keeps_handle {e : ScreenEvent} (hrelaunch : e ≠ .session .relaunch)
    (hblock : ∀ i, e ≠ .startTimer i) : Keeps x (x.handle e) := by
  cases e with
  | session e =>
    have he : e ≠ .relaunch := fun he => hrelaunch (congrArg _ he)
    simp only [handle, sessionEvent, if_neg he]
    split
    · exact .refl x
    · exact .same rfl rfl rfl fun _ => rfl
  | cellForItemAt row c =>
    simp only [handle]
    split
    · exact keeps_cellForItemAt x c row
    · exact .refl x
  | didEndDisplaying row => exact .same rfl rfl rfl fun _ => rfl
  | handleLongPress row => exact keeps_handleLongPress x row
  | handlePressOnCollectionView => exact keeps_handlePressOnCollectionView x
  | deleteHabit c =>
    simp only [handle, deleteHabit]
    split
    · split
      · exact keeps_session x _
      · split
        · exact .same rfl rfl rfl fun _ => rfl
        · exact keeps_session x _
    · exact .refl x
  | editHabit c =>
    simp only [handle, editHabit]
    split
    · exact keeps_session x _
    · exact .refl x
  | didSelectItemAt row c₁ c₂ =>
    simp only [handle]
    split
    · exact keeps_didSelectItemAt x row c₁ c₂
    · exact .refl x
  | tick id => exact keeps_tick x id
  | serveTime i => exact keeps_serveTime x i
  | deliverTime i => exact keeps_deliverTime x i
  | failTime i => exact keeps_failTime x i
  | startTimer i => exact absurd rfl (hblock i)

/-- What holds of the timers in every reachable screen. -/
structure Scheduled (x : Screen) : Prop where
  /-- the ids of timers are handed out in order -/
  timer_lt : ∀ c i, (x.cells c).timer = some i → i < x.nextTimer
  lt : ∀ t ∈ x.timers, t.id < x.nextTimer
  unique : ∀ t ∈ x.timers, ∀ t' ∈ x.timers, t.id = t'.id → t = t'
  /-- the timer that a cell holds was scheduled for it -/
  owner : ∀ c i, (x.cells c).timer = some i → ∀ t ∈ x.timers, t.id = i → t.cell = c
  /-- `timerArray` knows all timers that are scheduled -/
  mem : ∀ t ∈ x.timers, t.id ∈ x.timerArray

namespace Scheduled

variable {x y : Screen}

theorem fresh (s : State) : Scheduled { session := s } := by
  constructor <;> simp

theorem keeps (h : Scheduled x) (hkeeps : Keeps x y) : Scheduled y where
  timer_lt c i hi := by
    rw [hkeeps.nextTimer]
    exact h.timer_lt c i (hkeeps.timer c ▸ hi)
  lt t ht := by
    rw [hkeeps.nextTimer]
    exact h.lt t (hkeeps.timers t ht)
  unique t ht t' ht' := h.unique t (hkeeps.timers t ht) t' (hkeeps.timers t' ht')
  owner c i hi t ht := h.owner c i (hkeeps.timer c ▸ hi) t (hkeeps.timers t ht)
  mem t ht := hkeeps.timerArray t ht (h.mem t (hkeeps.timers t ht))

/-- The block of a start takes a new id. -/
theorem startTimer (h : Scheduled x) (b : StartBlock) : Scheduled (x.startTimer b) := by
  have htimer : ∀ c, ((x.startTimer b).cells c).timer =
      if c = b.cell then some x.nextTimer else (x.cells c).timer := by
    intro c
    by_cases hc : c = b.cell
    · simp [Screen.startTimer, setCell, hc]
    · simp [Screen.startTimer, setCell, hc]
  have hmem : ∀ t ∈ (x.startTimer b).timers, t ∈ x.timers ∨ t.id = x.nextTimer ∧
      t.cell = b.cell ∧ t.repeats = (x.cells b.cell).startVar ∧ t.ident = b.ident := by
    intro t ht
    rcases List.mem_append.mp ht with ht | ht
    · exact Or.inl ht
    · rw [List.mem_singleton.mp ht]
      exact Or.inr ⟨rfl, rfl, rfl, rfl⟩
  refine ⟨fun c i hi => ?_, fun t ht => ?_, fun t ht t' ht' hid => ?_, fun c i hi t ht hid => ?_,
    fun t ht => ?_⟩
  · show i < x.nextTimer + 1
    rw [htimer] at hi
    split at hi
    · have := Option.some.inj hi
      omega
    · have := h.timer_lt c i hi
      omega
  · show t.id < x.nextTimer + 1
    rcases hmem t ht with ht | ⟨hid, _⟩
    · have := h.lt t ht
      omega
    · omega
  · rcases hmem t ht with ht | ⟨hnew, hcell, hrepeats, hident⟩ <;>
      rcases hmem t' ht' with ht' | ⟨hnew', hcell', hrepeats', hident'⟩
    · exact h.unique t ht t' ht' hid
    · have := h.lt t ht
      omega
    · have := h.lt t' ht'
      omega
    · obtain ⟨id, cell, repeats, ident⟩ := t
      obtain ⟨id', cell', repeats', ident'⟩ := t'
      rw [CellTimer.mk.injEq]
      exact ⟨hid, hcell.trans hcell'.symm, hrepeats.trans hrepeats'.symm,
        hident.trans hident'.symm⟩
  · rw [htimer] at hi
    rcases hmem t ht with ht | ⟨hnew, hcell, _⟩
    · have hlt := h.lt t ht
      split at hi
      · have := Option.some.inj hi
        omega
      · exact h.owner c i hi t ht hid
    · split at hi
      · next hc => rw [hcell, hc]
      · have := h.timer_lt c i hi
        omega
  · show t.id ∈ x.timerArray ++ [x.nextTimer]
    rcases hmem t ht with ht | ⟨hid, _⟩
    · exact List.mem_append_left _ (h.mem t ht)
    · simp [hid]

theorem handle (h : Scheduled x) (e : ScreenEvent) : Scheduled (x.handle e) := by
  by_cases hrelaunch : e = .session .relaunch
  · subst hrelaunch
    exact fresh _
  by_cases hblock : ∀ i, e ≠ .startTimer i
  · exact h.keeps (keeps_handle x hrelaunch hblock)
  · push Not at hblock
    obtain ⟨i, rfl⟩ := hblock
    simp only [Screen.handle, runBlock]
    split
    · exact h
    · next b _ =>
      have hdrop : Keeps x { x with blocks := x.blocks.eraseIdx i } :=
        .same rfl rfl rfl fun _ => rfl
      exact (h.keeps hdrop).startTimer b

theorem step (h : Scheduled x) (e : ScreenEvent) : Scheduled (x.step e) := by
  unfold Screen.step
  split
  · exact h.handle e
  · split
    · exact fresh _
    · exact h

end Scheduled

/-- Every screen that can be reached has its timers in order. -/
theorem scheduled_run (st : Store) (es : List ScreenEvent) : Scheduled ((launched st).run es) :=
  Runs.run_invariant (fun _ e h _ => h.step e) (Runs.guarded_true (launched st) es)
    (Scheduled.fresh _)

end Screen

end HabitHive
