import HabitHive.Layout

/-!
# The row of the menu

A long press opens the menu of its cell and remembers the row in
`indexPathGlobal`.  The two buttons of a menu read the row there, and not
from the cell they are on.  Several menus can be open at once.

`menuOpened` observes the rows whose menu is opened.  In every run of
gestures on a loaded screen, the buttons act on the last of them, so they
act on their own cell exactly when its menu was opened last.
-/

namespace HabitHive

/-- Long presses, swipes and taps. -/
def ScreenEvent.isGesture : ScreenEvent → Bool
  | .handleLongPress _ | .handlePressOnCollectionView | .didSelectItemAt .. => true
  | _ => false

/-- A cell can show the habit: the label of a finished timed habit has its
six digits. -/
def Habit.Displayable (h : Habit) : Prop :=
  h.counted = true ∨ h.addFirebase = true ∨ 6 ≤ h.timeOriginal.length

instance (h : Habit) : Decidable h.Displayable :=
  inferInstanceAs (Decidable (h.counted = true ∨ h.addFirebase = true ∨ 6 ≤ h.timeOriginal.length))

/-- The edit screen can open the habit. -/
def Habit.Editable (h : Habit) : Prop := h.counted = true ∨ 4 ≤ h.time.length

namespace Screen

/-- A button of the menu is visible. -/
def MenuOpen (c : Nat) (x : Screen) : Prop :=
  (x.cells c).deleteButtonHidden = false ∨ (x.cells c).editButtonHidden = false

instance (c : Nat) (x : Screen) : Decidable (MenuOpen c x) :=
  inferInstanceAs (Decidable (_ ∨ _))

/-- The rows that are laid out show habits of the list, with their menus
closed. -/
structure Loaded (x : Screen) : Prop where
  running : x.session.crashed = none
  habit : ∀ p ∈ x.shown, ∃ habit, x.session.habitArray[p.1]? = some habit ∧ habit.Displayable
  closed : ∀ p ∈ x.shown, ¬MenuOpen p.2 x

/-- A screen that `cellForItemAt` has laid out is loaded. -/
theorem Loaded.cellForItemAt {x : Screen} (h : x.session.crashed = none → Loaded x) {row c : Nat}
    (hrunning : (x.step (.cellForItemAt row c)).session.crashed = none) :
    Loaded (x.step (.cellForItemAt row c)) := by
  cases hcrashed : x.session.crashed with
  | some f =>
    have hstuck : x.step (.cellForItemAt row c) = x := by simp [step, hcrashed]
    rw [hstuck, hcrashed] at hrunning
    contradiction
  | none =>
    have hx := h hcrashed
    simp only [step, hcrashed, if_true, handle] at hrunning ⊢
    split
    · next hfree =>
      rw [if_pos hfree] at hrunning
      cases hrow : x.session.habitArray[row]? with
      | none =>
        rw [cellForItemAt_of_none x c row hrow] at hrunning
        simp at hrunning
      | some habit =>
        -- the label of a finished timed habit was set
        have hdisplay : habit.Displayable := by
          rw [cellForItemAt_of_row x c row hrow] at hrunning
          unfold configure at hrunning
          simp only [Habit.Displayable]
          cases hcounted : habit.counted
          · cases hadd : habit.addFirebase
            · by_contra hnot
              simp only [Bool.false_eq_true, false_or, not_le] at hnot
              simp [hcounted, hadd, Cell.setMenu, laidOut, hnot] at hrunning
            · exact Or.inr (Or.inl rfl)
          · exact Or.inl rfl
        refine ⟨hrunning, fun p hp => ?_, fun p hp => ?_⟩
        · rw [cellForItemAt_shown] at hp
          rw [cellForItemAt_habitArray]
          rcases List.mem_cons.mp hp with rfl | hp
          · exact ⟨habit, hrow, hdisplay⟩
          · exact hx.habit p (List.mem_filter.mp hp).1
        · rw [cellForItemAt_shown] at hp
          have hclosed : ¬MenuOpen c (x.cellForItemAt row c) := by
            simp [MenuOpen, cellForItemAt_cell x c row hrow, configured, Cell.setMenu]
          by_cases hpc : p.2 = c
          · rwa [hpc]
          · rw [MenuOpen, cellForItemAt_of_ne x c row hpc]
            rcases List.mem_cons.mp hp with rfl | hp
            · exact absurd rfl hpc
            · exact hx.closed p (List.mem_filter.mp hp).1
    · exact hx

/-- Every list that can be laid out is loaded that way. -/
theorem loaded_layOut (s : State) (rows : List (Nat × Nat))
    (hrunning : (Screen.run { session := s }
      (rows.map fun p => .cellForItemAt p.1 p.2)).session.crashed = none) :
    Loaded (Screen.run { session := s } (rows.map fun p => .cellForItemAt p.1 p.2)) := by
  have hall : ∀ (rows : List (Nat × Nat)) (x : Screen), (x.session.crashed = none → Loaded x) →
      (x.run (rows.map fun p => .cellForItemAt p.1 p.2)).session.crashed = none →
      Loaded (x.run (rows.map fun p => .cellForItemAt p.1 p.2)) := by
    intro rows
    induction rows with
    | nil => exact fun x h hrunning => h hrunning
    | cons p rows ih =>
      exact fun x h hrunning => ih _ (fun hnext => .cellForItemAt h hnext) hrunning
  exact hall rows _ (fun h => ⟨h, by simp, by simp⟩) hrunning

/-- The row whose menu an event opens. -/
def menuOpened (x : Screen) : ScreenEvent → List Nat
  | .handleLongPress row =>
      match x.cellForItem row with
      | some c => if (x.cells c).running then [] else [row]
      | none => []
  | _ => []

/-- The habit at a row is removed, in the list and in the store. -/
def Removes (row : Nat) (x y : Screen) : Prop :=
  y.session.habitArray = x.session.habitArray.eraseIdx row ∧
    y.session.journal = x.session.journal ++ [.deleteHabit row]

instance (row : Nat) (x y : Screen) : Decidable (Removes row x y) :=
  inferInstanceAs (Decidable (_ ∧ _))

/-- The habit at a row is opened for editing, under its row. -/
def Opens (row : Nat) (x y : Screen) : Prop :=
  ∃ form : EditForm, y.session.editing = x.session.editing ++ [form] ∧
    x.session.habitArray[row]? = some form.habit ∧ form.indexPath = some row

/-! ## Steps that open no menu -/

/-- No menu is opened between `x` and `y`, and no habit gets lost. -/
structure Closes (x y : Screen) : Prop where
  crashed : y.session.crashed = x.session.crashed
  target : y.session.indexPathGlobal = x.session.indexPathGlobal
  habit : ∀ (row : Nat) (habit : Habit), x.session.habitArray[row]? = some habit →
    ∃ habit' : Habit, y.session.habitArray[row]? = some habit' ∧
      (habit.Displayable → habit'.Displayable) ∧ (habit.Editable → habit'.Editable)
  shown : ∀ p ∈ y.shown, ∃ q ∈ x.shown, q.1 = p.1 ∧ (MenuOpen p.2 y → MenuOpen q.2 x)

namespace Closes

variable {x y z : Screen}

theorem refl (x : Screen) : Closes x x :=
  ⟨rfl, rfl, fun _ habit h => ⟨habit, h, id, id⟩, fun p hp => ⟨p, hp, rfl, id⟩⟩

theorem trans (h : Closes x y) (h' : Closes y z) : Closes x z where
  crashed := h'.crashed.trans h.crashed
  target := h'.target.trans h.target
  habit row habit hrow := by
    obtain ⟨habit', hrow', hdisplay, hedit⟩ := h.habit row habit hrow
    obtain ⟨habit'', hrow'', hdisplay', hedit'⟩ := h'.habit row habit' hrow'
    exact ⟨habit'', hrow'', fun hd => hdisplay' (hdisplay hd), fun he => hedit' (hedit he)⟩
  shown p hp := by
    obtain ⟨q, hq, hrow, hopen⟩ := h'.shown p hp
    obtain ⟨q', hq', hrow', hopen'⟩ := h.shown q hq
    exact ⟨q', hq', hrow'.trans hrow, fun ho => hopen' (hopen ho)⟩

/-- Only cells change, and no menu opens. -/
theorem cells (hsession : y.session = x.session) (hshown : y.shown = x.shown)
    (hopen : ∀ c, MenuOpen c y → MenuOpen c x) : Closes x y where
  crashed := by rw [hsession]
  target := by rw [hsession]
  habit row habit hrow := ⟨habit, by rwa [hsession], id, id⟩
  shown p hp := ⟨p, hshown ▸ hp, rfl, hopen p.2⟩

/-- The habit at a row is replaced by one that can be shown and edited where
the old one could. -/
theorem session {s : State} {row : Nat} {habit habit' : Habit}
    (hrow : x.session.habitArray[row]? = some habit)
    (hlist : s.habitArray = x.session.habitArray.set row habit')
    (hcrashed : s.crashed = x.session.crashed)
    (htarget : s.indexPathGlobal = x.session.indexPathGlobal)
    (hdisplay : habit.Displayable → habit'.Displayable) (hedit : habit.Editable → habit'.Editable) :
    Closes x { x with session := s } where
  crashed := hcrashed
  target := htarget
  habit r h hr := by
    rw [show ({ x with session := s } : Screen).session.habitArray = _ from hlist]
    by_cases hrr : row = r
    · subst hrr
      obtain rfl := Option.some.inj (hrow.symm.trans hr)
      exact ⟨habit', List.getElem?_set_self (List.getElem?_eq_some_iff.mp hrow).1, hdisplay, hedit⟩
    · exact ⟨h, by rwa [List.getElem?_set_ne hrr], id, id⟩
  shown p hp := ⟨p, hp, rfl, id⟩

end Closes

variable (x : Screen) (c row : Nat)

theorem closes_setCell (cell : Cell)
    (hdelete : cell.deleteButtonHidden = false → (x.cells c).deleteButtonHidden = false)
    (hedit : cell.editButtonHidden = false → (x.cells c).editButtonHidden = false) :
    Closes x (x.setCell c cell) := by
  refine .cells rfl rfl fun d hopen => ?_
  unfold MenuOpen at hopen ⊢
  rw [setCell_cells] at hopen
  by_cases hd : d = c
  · subst hd
    rw [Function.update_self] at hopen
    exact hopen.imp hdelete hedit
  · rwa [Function.update_of_ne hd] at hopen

theorem closes_startCountdown {habit : Habit} (hrow : x.session.habitArray[row]? = some habit)
    (start : Bool) : Closes x (x.startCountdown c row start) := by
  cases start
  · rw [startCountdown_false]
    have htimer : Closes x (x.invalidate (x.cells c).timer.toList) := .cells rfl rfl fun _ h => h
    have hstop := htimer.trans (closes_setCell (x.invalidate (x.cells c).timer.toList) c
      (stopped (x.cells c)) id id)
    rw [stop, createTimeArray_of_row hrow]
    exact hstop.trans (.session hrow rfl rfl rfl id fun _ => Or.inr (by simp [Cell.createdArray]))
  · rw [startCountdown_true]
    exact (closes_setCell x c (started (x.cells c)) id id).trans
      (.cells rfl rfl fun _ h => h)

/-- A row with a habit that can be shown is reloaded, with its menu closed. -/
theorem closes_cellForItemAt {habit : Habit} (hshown : ∃ d, (row, d) ∈ x.shown)
    (hrow : x.session.habitArray[row]? = some habit) (hdisplay : habit.Displayable) :
    Closes x (x.cellForItemAt row c) ∧ ¬MenuOpen c (x.cellForItemAt row c) := by
  have hclosed : ¬MenuOpen c (x.cellForItemAt row c) := by
    simp [MenuOpen, cellForItemAt_cell x c row hrow, configured, Cell.setMenu]
  refine ⟨⟨?_, ?_, fun r h hr => ⟨h, by simpa using hr, id, id⟩, fun p hp => ?_⟩, hclosed⟩
  · rw [cellForItemAt_of_row x c row hrow, configure_session]
    · simp [place]
    · rcases hdisplay with hcounted | hadd | hlen
      · exact Or.inl hcounted
      · exact Or.inr (Or.inl ⟨hadd, row, by simp [laidOut]⟩)
      · cases hadd : habit.addFirebase with
        | true => exact Or.inr (Or.inl ⟨rfl, row, by simp [laidOut]⟩)
        | false => exact Or.inr (Or.inr ⟨rfl, by simpa [laidOut] using hlen⟩)
  · rw [cellForItemAt_of_row x c row hrow]
    rcases configure_cases ((x.place c row).setCell c (laidOut row habit (x.cells c))) c habit with
      ⟨_, h⟩ | ⟨_, _, _, _, h⟩ | ⟨_, h⟩ <;> rw [h] <;> simp [place]
  · rw [cellForItemAt_shown] at hp
    rcases List.mem_cons.mp hp with rfl | hp
    · obtain ⟨d, hd⟩ := hshown
      exact ⟨_, hd, rfl, fun hopen => absurd hopen hclosed⟩
    · refine ⟨p, (List.mem_filter.mp hp).1, rfl, fun hopen => ?_⟩
      by_cases hpc : p.2 = c
      · exact absurd (hpc ▸ hopen) hclosed
      · rwa [MenuOpen, cellForItemAt_of_ne x c row hpc] at hopen

theorem closes_completeCounted {habit : Habit} (hrow : x.session.habitArray[row]? = some habit)
    (hcounted : habit.counted = true) : Closes x (x.completeCounted c row habit) := by
  have hsession : Closes x
      { x with session := HabitCollection.completeCounted row habit x.session } := by
    unfold HabitCollection.completeCounted
    dsimp only
    split_ifs
    · exact .session hrow rfl rfl rfl (fun _ => Or.inl hcounted) fun _ => Or.inl hcounted
    · exact .session hrow rfl rfl rfl (fun _ => Or.inl hcounted) fun _ => Or.inl hcounted
    · exact .refl x
  rcases completeCounted_cases x c row habit hcounted with h | h <;> rw [h]
  · exact hsession
  · exact hsession.trans (closes_setCell _ c _ (by simp [configured, Cell.setMenu])
      (by simp [configured, Cell.setMenu]))

/-- The completion and the reload that ends a tap. -/
theorem closes_complete_reload {d c₂ : Nat} {habit : Habit} (hshown : ∃ d, (row, d) ∈ x.shown)
    (hrow : x.session.habitArray[row]? = some habit) (hcounted : habit.counted = true) :
    Closes x ((x.completeCounted d row habit).cellForItemAt row c₂) := by
  refine (closes_completeCounted x d row hrow hcounted).trans ?_
  obtain ⟨habit', hrow', hkind⟩ := row_completeCounted hrow
  rw [← completeCounted_session x d row habit hcounted] at hrow'
  have hcounted' : habit'.counted = true := (congrArg Prod.snd hkind).trans hcounted
  refine (closes_cellForItemAt _ c₂ row ?_ hrow' (Or.inl hcounted')).1
  rwa [completeCounted_shown]

theorem closes_tapCounted {d c₁ c₂ : Nat} {habit : Habit} (hshown : (row, d) ∈ x.shown)
    (hrow : x.session.habitArray[row]? = some habit) (hcounted : habit.counted = true) :
    Closes x (x.tapCounted d row c₁ c₂ habit) := by
  by_cases hcount : habit.currentCount < habit.goal
  · rw [tapCounted_of_lt x row hcount]
    have hcounted' : habit.incremented.counted = true :=
      (congrArg Prod.snd habit.kind_incremented).trans hcounted
    have hup : Closes x (x.countUp row habit.incremented) :=
      .session hrow rfl rfl rfl (fun _ => Or.inl hcounted') fun _ => Or.inl hcounted'
    have hrow' : (x.countUp row habit.incremented).session.habitArray[row]? =
        some habit.incremented := List.getElem?_set_self (List.getElem?_eq_some_iff.mp hrow).1
    have hreload := (closes_cellForItemAt (x.countUp row habit.incremented) c₁ row ⟨d, hshown⟩ hrow'
      (Or.inl hcounted')).1
    refine (hup.trans hreload).trans (closes_complete_reload _ row ⟨c₁, ?_⟩ ?_ hcounted')
    · simp
    · rwa [cellForItemAt_habitArray]
  · rw [tapCounted_of_not_lt x row hcount]
    exact closes_complete_reload x row ⟨d, hshown⟩ hrow hcounted

/-- A tap on a row whose habit can be shown. -/
theorem closes_didSelectItemAt {c₁ c₂ : Nat}
    (hhabit : ∀ p ∈ x.shown, ∃ habit, x.session.habitArray[p.1]? = some habit ∧
      habit.Displayable) : Closes x (x.didSelectItemAt row c₁ c₂) := by
  cases hshown : x.cellForItem row with
  | none =>
    rw [didSelectItemAt_of_none x row hshown]
    exact .refl x
  | some d =>
    have hmem := mem_of_cellForItem hshown
    obtain ⟨habit, hrow, hdisplay⟩ := hhabit _ hmem
    have hday : Closes x x.saveDay := ⟨rfl, rfl, (Closes.refl x).habit, (Closes.refl x).shown⟩
    have htap : x.Tap row c₁ c₂ d habit _ := didSelectItemAt_tap x row hshown hrow
    generalize x.didSelectItemAt row c₁ c₂ = y at htap ⊢
    cases htap with
    | finished => exact hday
    | menu => exact hday.trans (closes_cellForItemAt x.saveDay c₂ row ⟨d, hmem⟩ hrow hdisplay).1
    | start => exact hday.trans (closes_startCountdown x.saveDay d row hrow true)
    | stop => exact hday.trans (closes_startCountdown x.saveDay d row hrow false)
    | counted _ _ hcounted => exact hday.trans (closes_tapCounted x.saveDay row hmem hrow hcounted)

theorem closes_handlePressOnCollectionView : Closes x x.handlePressOnCollectionView := by
  have hreset : ∀ y c, Closes y (y.resetCellsToStandard c) := fun y c =>
    closes_setCell y c _ (by simp [Cell.setMenu]) (by simp [Cell.setMenu])
  exact rel_handlePressOnCollectionView x .refl .trans hreset fun _ => .cells rfl rfl fun _ h => h

/-! ## Runs of gestures -/

/-- What holds after gestures that opened the menus of `rows`. -/
structure Pressed (rows : List Nat) (x : Screen) : Prop where
  running : x.session.crashed = none
  habit : ∀ p ∈ x.shown, ∃ habit, x.session.habitArray[p.1]? = some habit ∧ habit.Displayable
  menu : ∀ p ∈ x.shown, MenuOpen p.2 x → rows ≠ []
  target : ∀ row, rows.getLast? = some row → x.session.indexPathGlobal = some row ∧
    ∃ habit, x.session.habitArray[row]? = some habit ∧ habit.Editable

namespace Pressed

variable {x y : Screen} {rows : List Nat}

theorem loaded (h : Loaded x) : Pressed [] x :=
  ⟨h.running, h.habit, fun p hp hopen => absurd hopen (h.closed p hp), by simp⟩

theorem closes (h : Pressed rows x) (hcloses : Closes x y) : Pressed rows y where
  running := hcloses.crashed.trans h.running
  habit p hp := by
    obtain ⟨q, hq, hrow, _⟩ := hcloses.shown p hp
    obtain ⟨habit, hhabit, hdisplay⟩ := h.habit q hq
    obtain ⟨habit', hhabit', hdisplay', _⟩ := hcloses.habit q.1 habit hhabit
    exact ⟨habit', hrow ▸ hhabit', hdisplay' hdisplay⟩
  menu p hp hopen := by
    obtain ⟨q, hq, _, hmenu⟩ := hcloses.shown p hp
    exact h.menu q hq (hmenu hopen)
  target row hlast := by
    obtain ⟨htarget, habit, hhabit, hedit⟩ := h.target row hlast
    obtain ⟨habit', hhabit', _, hedit'⟩ := hcloses.habit row habit hhabit
    exact ⟨hcloses.target.trans htarget, habit', hhabit', hedit' hedit⟩

/-- The countdown of a timed habit is stopped before its menu is opened, which
leaves six digits in its time. -/
theorem stopped_habit (h : Pressed rows x) {row c : Nat} {habit : Habit}
    (hrow : x.session.habitArray[row]? = some habit) :
    let y := if habit.counted then x.opened c else (x.opened c).stop c row
    y.session.crashed = none ∧ y.shown = x.shown ∧
      (∀ p ∈ x.shown, ∃ habit, y.session.habitArray[p.1]? = some habit ∧ habit.Displayable) ∧
      ∃ habit, y.session.habitArray[row]? = some habit ∧ habit.Editable := by
  cases hcounted : habit.counted with
  | true => exact ⟨h.running, rfl, h.habit, habit, hrow, Or.inl hcounted⟩
  | false =>
    simp only [Bool.false_eq_true, if_false]
    have hstop : Closes (x.opened c) ((x.opened c).stop c row) := by
      rw [← startCountdown_false]
      exact closes_startCountdown (x.opened c) c row hrow false
    refine ⟨hstop.crashed.trans h.running, rfl, fun p hp => ?_, ?_⟩
    · obtain ⟨old, hold, hdisplay⟩ := h.habit p hp
      obtain ⟨habit', hhabit', hdisplay', _⟩ := hstop.habit p.1 old hold
      exact ⟨habit', hhabit', hdisplay' hdisplay⟩
    · refine ⟨{ habit with time := ((x.opened c).cells c).createdArray }, ?_, Or.inr ?_⟩
      · have hlist : ((x.opened c).stop c row).session.habitArray = x.session.habitArray.set row
            { habit with time := ((x.opened c).cells c).createdArray } := by
          rw [stop_session (x.opened c) c row hrow, State.setRow_habitArray, State.write_habitArray]
          rfl
        rw [hlist]
        exact List.getElem?_set_self (List.getElem?_eq_some_iff.mp hrow).1
      · simp [Cell.createdArray]

theorem handleLongPress (h : Pressed rows x) (row : Nat) :
    Pressed (rows ++ menuOpened x (.handleLongPress row)) (x.handleLongPress row) := by
  cases hshown : x.cellForItem row with
  | none => simpa [menuOpened, Screen.handleLongPress, hshown] using h
  | some c =>
    cases hrunning : (x.cells c).running with
    | true => simpa [menuOpened, Screen.handleLongPress, hshown, hrunning] using h
    | false =>
      have hopened : menuOpened x (.handleLongPress row) = [row] := by
        simp [menuOpened, hshown, hrunning]
      obtain ⟨habit, hrow, _⟩ := h.habit _ (mem_of_cellForItem hshown)
      obtain ⟨hcrashed, hsame, hdisplay, habit', hhabit', hedit⟩ := h.stopped_habit (c := c) hrow
      rw [hopened, handleLongPress_of_row x c row hshown hrunning hrow]
      -- the row exists, so it becomes the target
      have hlt := (List.getElem?_eq_some_iff.mp hhabit').1
      simp only [HabitCollection.handleLongPress, if_pos hlt]
      refine ⟨hcrashed, fun p hp => hdisplay p (hsame ▸ hp), by simp, fun r hlast => ?_⟩
      rw [List.getLast?_concat, Option.some.injEq] at hlast
      subst hlast
      exact ⟨rfl, habit', hhabit', hedit⟩

theorem step (h : Pressed rows x) {e : ScreenEvent} (he : e.isGesture = true) :
    Pressed (rows ++ menuOpened x e) (x.step e) := by
  rw [Screen.step, if_pos h.running]
  cases e with
  | handleLongPress row => exact h.handleLongPress row
  | handlePressOnCollectionView =>
    simp only [menuOpened, List.append_nil]
    exact h.closes (closes_handlePressOnCollectionView x)
  | didSelectItemAt row c₁ c₂ =>
    simp only [menuOpened, List.append_nil]
    simp only [handle]
    split
    · exact h.closes (closes_didSelectItemAt x row h.habit)
    · exact h
  | _ => contradiction

/-- The rows whose menu was opened in a run of gestures. -/
theorem run (h : Loaded x) {es : List ScreenEvent} (hes : ∀ e ∈ es, e.isGesture = true) :
    Pressed (Runs.observe Screen.step menuOpened x es) (x.run es) := by
  have hguard := (Runs.guarded_record Screen.step menuOpened (x, []) es).mpr
    ((Runs.guarded_true x es).and_forall hes)
  have hinv := Runs.run_invariant (I := fun y : Screen × List Nat => Pressed y.2 y.1)
    (fun y e hy he => hy.step he.2) hguard (loaded h)
  rw [Runs.run_record] at hinv
  simpa using hinv

/-- The delete button removes the target of the menu. -/
theorem removes_iff (h : Pressed rows x) {r c : Nat} (hmem : (r, c) ∈ x.shown)
    (hvisible : (x.cells c).deleteButtonHidden = false) :
    Removes r x (x.step (.deleteHabit c)) ↔ rows.getLast? = some r := by
  obtain ⟨row, hlast⟩ := Option.ne_none_iff_exists'.mp fun hnone =>
    h.menu _ hmem (Or.inl hvisible) (List.getLast?_eq_none_iff.mp hnone)
  obtain ⟨htarget, habit, hrow, _⟩ := h.target row hlast
  have hlt := (List.getElem?_eq_some_iff.mp hrow).1
  have hc : c ∈ x.shown.map Prod.snd := List.mem_map.mpr ⟨_, hmem, rfl⟩
  have hstep : (x.step (.deleteHabit c)).session = HabitCollection.deleteHabit x.session := by
    rw [Screen.step, if_pos h.running]
    simp [Screen.handle, Screen.deleteHabit, hc, hvisible, htarget, hlt]
  rw [Removes, hstep, deleteHabit_eq htarget hlt, hlast]
  simp only [State.issue_habitArray, State.write_habitArray, State.issue_journal,
    State.write_journal, List.append_cancel_left_eq, List.cons.injEq, Write.deleteHabit.injEq,
    and_true, Option.some.injEq]
  constructor
  · exact fun hremoved => hremoved.2
  · rintro rfl
    exact ⟨rfl, rfl⟩

/-- The edit button opens the target of the menu. -/
theorem opens_iff (h : Pressed rows x) {r c : Nat} (hmem : (r, c) ∈ x.shown)
    (hvisible : (x.cells c).editButtonHidden = false) :
    Opens r x (x.step (.editHabit c)) ↔ rows.getLast? = some r := by
  obtain ⟨row, hlast⟩ := Option.ne_none_iff_exists'.mp fun hnone =>
    h.menu _ hmem (Or.inr hvisible) (List.getLast?_eq_none_iff.mp hnone)
  obtain ⟨htarget, habit, hrow, hedit⟩ := h.target row hlast
  have hc : c ∈ x.shown.map Prod.snd := List.mem_map.mpr ⟨_, hmem, rfl⟩
  have hopen : ¬(¬habit.counted = true ∧ habit.time.length < 4) := by
    rintro ⟨hcounted, hlen⟩
    exact hedit.elim hcounted fun hlen' => absurd hlen (Nat.not_lt.mpr hlen')
  have hstep : (x.step (.editHabit c)).session.editing = x.session.editing ++
      [{ habit, indexPath := some row, habitName := habit.name, valueCounter := habit.goal }] := by
    rw [Screen.step, if_pos h.running]
    simp only [Screen.handle, Screen.editHabit, if_pos (And.intro hc hvisible),
      HabitCollection.editHabit, htarget, hrow, if_neg hopen]
  rw [Opens, hlast, Option.some.injEq]
  constructor
  · rintro ⟨form, hediting, _, hpath⟩
    rw [hstep] at hediting
    obtain rfl := List.singleton_injective (List.append_cancel_left hediting)
    exact Option.some.inj hpath
  · rintro rfl
    exact ⟨_, hstep, hrow, rfl⟩

end Pressed

/-- After every run of gestures on a loaded screen, a button that is visible
on the cell of row `r` acts on row `r` exactly when the menu that was opened
last is the one of row `r`. -/
theorem menu_acts_iff {x : Screen} (hx : Loaded x) {es : List ScreenEvent}
    (hes : ∀ e ∈ es, e.isGesture = true) {r c : Nat} (hshown : (x.run es).cellForItem r = some c) :
    (((x.run es).cells c).deleteButtonHidden = false →
      (Removes r (x.run es) ((x.run es).step (.deleteHabit c)) ↔
        (Runs.observe step menuOpened x es).getLast? = some r)) ∧
    (((x.run es).cells c).editButtonHidden = false →
      (Opens r (x.run es) ((x.run es).step (.editHabit c)) ↔
        (Runs.observe step menuOpened x es).getLast? = some r)) :=
  ⟨(Pressed.run hx hes).removes_iff (mem_of_cellForItem hshown),
    (Pressed.run hx hes).opens_iff (mem_of_cellForItem hshown)⟩

/-- Long presses on two rows. -/
def pressBoth : List ScreenEvent := [.handleLongPress 0, .handleLongPress 1]

/-- The delete button of row 0 is still visible and removes row 1. -/
theorem other_menu_deletes :
    let x := (loaded [.sample 1, .sample 2]).run pressBoth
    x.cellForItem 0 = some 0 ∧ (x.cells 0).deleteButtonHidden = false ∧
      ¬Removes 0 x (x.step (.deleteHabit 0)) := by
  decide +kernel

theorem loaded_samples : Loaded (loaded [.sample 1, .sample 2]) :=
  loaded_layOut ((launched (.ofEntries [.sample 1, .sample 2])).run ((loads 2).take 7)).session
    [(0, 0), (1, 1)] (by decide +kernel)

/-- The menu of row 1 was opened last. -/
theorem menu_acts_iff_pressBoth :
    let x := (loaded [.sample 1, .sample 2]).run pressBoth
    let rows := Runs.observe step menuOpened (loaded [.sample 1, .sample 2]) pressBoth
    (Removes 1 x (x.step (.deleteHabit 1)) ↔ rows.getLast? = some 1) ∧
      (Opens 1 x (x.step (.editHabit 1)) ↔ rows.getLast? = some 1) :=
  have hacts := menu_acts_iff loaded_samples (by decide : ∀ e ∈ pressBoth, e.isGesture = true)
    (r := 1) (c := 1) (by decide +kernel)
  ⟨hacts.1 (by decide +kernel), hacts.2 (by decide +kernel)⟩

end Screen

end HabitHive
