import HabitHive.Timers

/-!
# What the cells show

A cell object shows at most one row, a row is shown by at most one object,
and the object shows the habit that the list has at the row.  `Laid` is
this invariant of all reachable screens.

Between two reloads the list changes in two ways only.  A delete takes one
row out of the list and of the view, and `fetchFirebaseHabits` empties the
list.  Every other change keeps the habit at each row.
-/

namespace HabitHive

open HabitCollection

/-- A timed habit with the given digits of its time. -/
def Entry.timed (digits : List Int) : Entry :=
  { Entry.sample 0 with counted := false, timeArray := digits, timeArrayOriginal := digits }

/-- The habit and its type. -/
def Habit.kind (h : Habit) : Nat × Bool := (h.ident, h.counted)

theorem Habit.kind_incremented (h : Habit) : h.incremented.kind = h.kind := by
  unfold Habit.incremented
  split <;> rfl

/-! ## The list -/

section List

variable {s : State}

theorem kind_setRow {row : Nat} {h h' : Habit} (hrow : s.habitArray[row]? = some h)
    (hkind : h'.kind = h.kind) :
    (s.setRow row h').habitArray.map Habit.kind = s.habitArray.map Habit.kind := by
  rw [State.setRow_habitArray]
  exact map_set_of_eq Habit.kind hrow hkind

theorem kind_createTimeArray (row ident : Nat) (time : List Int) (s : State) :
    (createTimeArray row ident time s).habitArray.map Habit.kind =
      s.habitArray.map Habit.kind := by
  unfold createTimeArray returnTimeArray
  split
  · rfl
  · next habit hrow => exact kind_setRow hrow rfl

theorem kind_completeCounted {row : Nat} {h : Habit} (hrow : s.habitArray[row]? = some h) :
    (completeCounted row h s).habitArray.map Habit.kind = s.habitArray.map Habit.kind := by
  unfold completeCounted
  dsimp only
  split_ifs
  · exact kind_setRow (s := s.issue _) hrow rfl
  · exact kind_setRow hrow rfl
  · rfl

theorem row_completeCounted {row : Nat} {h : Habit} (hrow : s.habitArray[row]? = some h) :
    ∃ h', (completeCounted row h s).habitArray[row]? = some h' ∧ h'.kind = h.kind := by
  have hkind := congrArg (·[row]?) (kind_completeCounted hrow)
  simp only [List.getElem?_map, hrow, Option.map_some] at hkind
  exact Option.map_eq_some_iff.mp hkind

theorem kind_showAlert (row : Nat) (s : State) :
    (showAlert row s).habitArray.map Habit.kind = s.habitArray.map Habit.kind := by
  unfold showAlert
  split
  · rfl
  · next habit hrow => exact kind_setRow hrow rfl

/-- A callback empties the list, reloads the view or keeps all rows. -/
theorem kind_callback (cb : Callback) (document : Option Store) (s : State) :
    (cb.run document s).habitArray = [] ∨ cb.reloads = true ∨
      (cb.run document s).habitArray = s.habitArray := by
  cases cb with
  | fetchCounter => exact Or.inr (Or.inr (fetchCounterRead_habitArray document s))
  | fetchHabit n => exact Or.inr (Or.inl rfl)
  | deleteDone =>
    rcases deleteDone_cases s with hs | ⟨row, hglobal⟩
    · exact Or.inr (Or.inr (by simp [Callback.run, hs]))
    · exact Or.inr (Or.inr (by simp [Callback.run, deleteDone_eq hglobal]))
  | counterDone => exact Or.inr (Or.inr rfl)
  | fetch => exact Or.inl rfl
  | reload => exact Or.inr (Or.inl rfl)
  | addHabit c habit =>
    refine Or.inr (Or.inr ?_)
    simp only [Callback.run, CreateHabit.addHabitRead]
    split <;> rfl
  | finished row ident =>
    refine Or.inr (Or.inr ?_)
    cases document <;> rfl

/-- An event in which no cell takes part empties the list, reloads the view
or keeps the habit at each row. -/
theorem kind_handle {e : Event} (hcell : e.onCell = false) (hrelaunch : e ≠ .relaunch) (s : State) :
    (handle s e).habitArray = [] ∨ reloadsData s e = true ∨
      (handle s e).habitArray.map Habit.kind = s.habitArray.map Habit.kind := by
  cases e with
  | relaunch => contradiction
  | handleLongPress _ | deleteHabit | editHabit | didSelectItemAt _ _ | createTimeArray _ _ _
  | showAlert _ => contradiction
  | nextDay => exact Or.inr (Or.inr rfl)
  | viewDidLoad =>
    cases hsigned : s.signedIn with
    | true => exact Or.inr (Or.inl hsigned)
    | false => exact Or.inr (Or.inr (by simp [handle, viewDidLoad, hsigned]))
  | viewWillAppear =>
    refine Or.inr (Or.inr ?_)
    simp only [handle, viewWillAppear]
    split_ifs
    · rw [State.issue_habitArray, State.writeAll_habitArray, List.map_map]
      rfl
    · rfl
    · rfl
  | fetchFirebaseHabits => exact Or.inl rfl
  | addHabitButtonTapped c =>
    refine Or.inr (Or.inr ?_)
    simp only [handle, CreateHabit.addHabitButtonTapped]
    split
    · rfl
    · split_ifs <;> rfl
  | editConfirmed e =>
    refine Or.inr (Or.inr ?_)
    rcases editConfirmed_cases e s with hscreens | ⟨form, color, row, hs⟩
    · rw [handle, hscreens.habitArray]
    · rw [handle, hs]
      rfl
  | serve i => exact Or.inr (Or.inr (by simp [handle]))
  | deliver i =>
    simp only [handle]
    rcases deliver_cases s i with ⟨hs, _⟩ | ⟨p, hp, hread, hs⟩ <;> rw [hs]
    · exact Or.inr (Or.inr rfl)
    · rcases kind_callback p.callback p.snapshot (s.dropPending i) with h | h | h
      · exact Or.inl h
      · refine Or.inr (Or.inl ?_)
        simp only [reloadsData, hp, Option.any_some, h, Bool.true_and, Bool.or_eq_true,
          Bool.not_eq_true']
        cases hcb : p.callback.isRead with
        | false => exact Or.inl rfl
        | true =>
          obtain ⟨st, hst⟩ := hread hcb
          exact Or.inr (by rw [hst]; rfl)
      · exact Or.inr (Or.inr (by rw [h]; rfl))
  | fail i =>
    simp only [handle]
    rcases fail_cases s i with hs | ⟨p, hp, hread, hs⟩ <;> rw [hs]
    · exact Or.inr (Or.inr rfl)
    · rcases kind_callback p.callback none (s.dropPending i) with h | h | h
      · exact Or.inl h
      · exact Or.inr (Or.inl (by simp [reloadsData, hp, h, hread]))
      · exact Or.inr (Or.inr (by rw [h]; rfl))
  | _ => exact Or.inr (Or.inr (by rw [(screensOnly_of_event rfl s).habitArray]))

end List

namespace Screen

/-! ## Steps that keep the layout -/

/-- The same rows are laid out, and each cell and each row of the list has
the same habit. -/
structure Steady (x y : Screen) : Prop where
  shown : y.shown = x.shown
  habitCell : ∀ c, (y.cells c).habitCell.map Habit.kind = (x.cells c).habitCell.map Habit.kind
  counted : ∀ c, (y.cells c).counted = (x.cells c).counted
  list : y.session.habitArray.map Habit.kind = x.session.habitArray.map Habit.kind

namespace Steady

variable {x y z : Screen}

theorem refl (x : Screen) : Steady x x := ⟨rfl, fun _ => rfl, fun _ => rfl, rfl⟩

theorem trans (h : Steady x y) (h' : Steady y z) : Steady x z where
  shown := h'.shown.trans h.shown
  habitCell c := (h'.habitCell c).trans (h.habitCell c)
  counted c := (h'.counted c).trans (h.counted c)
  list := h'.list.trans h.list

/-- The habit at a row is the same. -/
theorem row (h : Steady x y) {row : Nat} {habit : Habit}
    (hrow : y.session.habitArray[row]? = some habit) :
    ∃ old, x.session.habitArray[row]? = some old ∧ habit.kind = old.kind := by
  have hlist := congrArg (·[row]?) h.list
  simp only [List.getElem?_map, hrow, Option.map_some] at hlist
  obtain ⟨old, hold, hkind⟩ := Option.map_eq_some_iff.mp hlist.symm
  exact ⟨old, hold, hkind.symm⟩

end Steady

variable (x : Screen) (c row : Nat)

theorem steady_setCell (cell : Cell)
    (hhabit : cell.habitCell.map Habit.kind = (x.cells c).habitCell.map Habit.kind)
    (hcounted : cell.counted = (x.cells c).counted) : Steady x (x.setCell c cell) :=
  ⟨rfl, setCell_view x c (fun cell => cell.habitCell.map Habit.kind) hhabit,
    setCell_view x c Cell.counted hcounted, rfl⟩

theorem steady_session {s : State}
    (hlist : s.habitArray.map Habit.kind = x.session.habitArray.map Habit.kind) :
    Steady x { x with session := s } := ⟨rfl, fun _ => rfl, fun _ => rfl, hlist⟩

theorem steady_crash (f : Fault) : Steady x (x.crash f) := steady_session x rfl

theorem steady_startCountdown (start : Bool) : Steady x (x.startCountdown c row start) := by
  cases start
  · rw [startCountdown_false]
    have hcell := steady_setCell x c (stopped (x.cells c)) rfl rfl
    exact ⟨rfl, hcell.habitCell, hcell.counted, kind_createTimeArray row _ _ _⟩
  · rw [startCountdown_true]
    have hcell := steady_setCell x c (started (x.cells c)) rfl rfl
    exact hcell.trans ⟨rfl, fun _ => rfl, fun _ => rfl, rfl⟩

theorem steady_handleLongPress : Steady x (x.handleLongPress row) :=
  rel_handleLongPress x row .refl .trans steady_crash (fun y c => steady_setCell y c _ rfl rfl)
    (fun y c => steady_startCountdown y c row false) fun y _ =>
      ⟨rfl, fun _ => rfl, fun _ => rfl, congrArg (·.map Habit.kind)
        (screensOnly_of_event (e := .handleLongPress row) rfl y.session).habitArray⟩

theorem steady_handlePressOnCollectionView : Steady x x.handlePressOnCollectionView :=
  rel_handlePressOnCollectionView x .refl .trans (fun y c => steady_setCell y c _ rfl rfl)
    fun _ => ⟨rfl, fun _ => rfl, fun _ => rfl, rfl⟩

/-- `showAlert` configures the cell with the habit that it shows. -/
theorem steady_showAlert : Steady x (x.showAlert c row) := by
  rcases showAlert_cases x c row with ⟨f, h⟩ | ⟨habit, shown, _, hshown, h⟩
  · rw [h]
    exact steady_crash x f
  · have hcell : Steady x ((x.setCell c (alerted habit (x.cells c))).configure c
        (finished shown)) := by
      refine ⟨by simp, fun d => ?_, fun d => ?_, by simp⟩
      · by_cases hd : d = c
        · simp [hd, configured, finished, Cell.setMenu, hshown, Habit.kind]
        · simp [hd]
      · by_cases hd : d = c
        · simp [hd, configured, alerted, Cell.setMenu]
        · simp [hd]
    rcases h with h | h <;> rw [h]
    · exact hcell
    · exact hcell.trans (steady_session _ (kind_showAlert row _))

theorem steady_invalidate (ids : List Nat) : Steady x (x.invalidate ids) :=
  ⟨rfl, fun _ => rfl, fun _ => rfl, rfl⟩

theorem steady_action : Steady x (x.action c) :=
  rel_action x c .trans steady_crash (fun _ _ _ => steady_setCell x c _ rfl rfl) steady_invalidate
    fun y row => steady_showAlert y c row

theorem steady_tick (id : Nat) : Steady x (x.tick id) :=
  rel_tick x .refl .trans id (steady_action x) steady_invalidate

theorem steady_timeRead (r : TimeRead) (document : Option Store) :
    Steady x (x.timeRead r document) := by
  rcases timeRead_cases x r document with ⟨_, h⟩ | ⟨f, h⟩ | ⟨doc, _, _, _, _, _, h⟩ <;> rw [h]
  · exact .refl x
  · exact steady_crash x f
  · exact steady_setCell x r.cell _ rfl rfl

theorem steady_leaveGroup (r : TimeRead) : Steady x (x.leaveGroup r) := by
  unfold leaveGroup
  split
  · exact ⟨rfl, fun _ => rfl, fun _ => rfl, rfl⟩
  · exact .refl x

theorem steady_dropRead (i : Nat) : Steady x (x.dropRead i) :=
  ⟨rfl, fun _ => rfl, fun _ => rfl, rfl⟩

theorem steady_deliverTime (i : Nat) : Steady x (x.deliverTime i) := by
  unfold deliverTime
  split
  · exact .refl x
  · next r _ =>
    split
    · exact .refl x
    · exact ((steady_dropRead x i).trans (steady_timeRead _ r r.snapshot)).trans
        (steady_leaveGroup _ r)

theorem steady_failTime (i : Nat) : Steady x (x.failTime i) := by
  unfold failTime
  split
  · exact .refl x
  · next r _ => exact (steady_dropRead x i).trans (steady_leaveGroup _ r)

theorem steady_serveTime (i : Nat) : Steady x (x.serveTime i) := by
  unfold serveTime
  split
  · exact .refl x
  · split
    · exact ⟨rfl, fun _ => rfl, fun _ => rfl, rfl⟩
    · exact .refl x

theorem steady_startTimer (b : StartBlock) : Steady x (x.startTimer b) := by
  have hcell := steady_setCell x b.cell { x.cells b.cell with timer := some x.nextTimer } rfl rfl
  exact ⟨rfl, hcell.habitCell, hcell.counted, rfl⟩

theorem steady_runBlock (i : Nat) : Steady x (x.runBlock i) := by
  unfold runBlock
  split
  · exact .refl x
  · next b _ =>
    have hdrop : Steady x { x with blocks := x.blocks.eraseIdx i } :=
      ⟨rfl, fun _ => rfl, fun _ => rfl, rfl⟩
    exact hdrop.trans (steady_startTimer _ b)

theorem steady_editHabit : Steady x (x.editHabit c) := by
  unfold editHabit
  split
  · exact steady_session x (congrArg (·.map Habit.kind)
      (screensOnly_of_event (e := .editHabit) rfl x.session).habitArray)
  · exact .refl x

/-- An object that is free for a row stays free when the row is reloaded. -/
theorem free_cellForItemAt {d : Nat} (h : x.Free row d) : (x.cellForItemAt row c).Free row d := by
  intro p hp hd
  rw [cellForItemAt_shown] at hp
  rcases List.mem_cons.mp hp with rfl | hp
  · rfl
  · exact h p (List.mem_filter.mp hp).1 hd

/-! ## The layout of a reachable screen -/

/-- Each object shows one row, each row is shown by one object, and the
object shows the habit of the row. -/
structure Laid (x : Screen) : Prop where
  object : ∀ p ∈ x.shown, ∀ q ∈ x.shown, p.1 = q.1 → p = q
  row : ∀ p ∈ x.shown, ∀ q ∈ x.shown, p.2 = q.2 → p = q
  habit : ∀ p ∈ x.shown, ∀ habit, x.session.habitArray[p.1]? = some habit →
    (x.cells p.2).habitCell.map Habit.kind = some habit.kind ∧
      (x.cells p.2).counted = some habit.counted

theorem lookup_mem {α β : Type} [BEq α] [LawfulBEq α] {a : α} {b : β} {l : List (α × β)}
    (h : l.lookup a = some b) : (a, b) ∈ l := by
  obtain ⟨l₁, l₂, rfl, _⟩ := List.lookup_eq_some_iff.mp h
  simp

theorem mem_of_cellForItem {x : Screen} {row c : Nat} (h : x.cellForItem row = some c) :
    (row, c) ∈ x.shown := lookup_mem h

namespace Laid

variable {x y : Screen}

theorem empty (hshown : y.shown = []) : Laid y := by
  constructor <;> simp [hshown]

theorem fresh (s : State) : Laid { session := s } := empty rfl

theorem steady (h : Laid x) (hsteady : Steady x y) : Laid y where
  object p hp q hq := h.object p (hsteady.shown ▸ hp) q (hsteady.shown ▸ hq)
  row p hp q hq := h.row p (hsteady.shown ▸ hp) q (hsteady.shown ▸ hq)
  habit p hp habit hrow := by
    obtain ⟨old, hold, hkind⟩ := hsteady.row hrow
    obtain ⟨hcell, hcounted⟩ := h.habit p (hsteady.shown ▸ hp) old hold
    rw [hsteady.habitCell, hsteady.counted, hcell, hcounted, hkind]
    exact ⟨rfl, congrArg (fun k => some k.2) hkind.symm⟩

/-- Rows are taken out of the view. -/
theorem filter (h : Laid x) (q : Nat × Nat → Bool) (hshown : y.shown = x.shown.filter q)
    (hcells : y.cells = x.cells) (hlist : y.session.habitArray = x.session.habitArray) :
    Laid y := by
  have hmem : ∀ p ∈ y.shown, p ∈ x.shown := fun p hp => (List.mem_filter.mp (hshown ▸ hp)).1
  refine ⟨fun p hp q hq => h.object p (hmem p hp) q (hmem q hq),
    fun p hp q hq => h.row p (hmem p hp) q (hmem q hq), fun p hp habit hrow => ?_⟩
  rw [hcells]
  exact h.habit p (hmem p hp) habit (hlist ▸ hrow)

/-- A row is laid out on an object that shows no other row. -/
theorem cellForItemAt (h : Laid x) {row c : Nat} (hfree : x.Free row c) :
    Laid (x.cellForItemAt row c) := by
  have hshown : ∀ p ∈ (row, c) :: x.shown.filter (fun p => p.1 ≠ row),
      p = (row, c) ∨ p ∈ x.shown ∧ p.1 ≠ row ∧ p.2 ≠ c := by
    intro p hp
    rcases List.mem_cons.mp hp with rfl | hp
    · exact Or.inl rfl
    · obtain ⟨hmem, hne⟩ := List.mem_filter.mp hp
      have hne : p.1 ≠ row := by simpa using hne
      exact Or.inr ⟨hmem, hne, fun hc => hne (hfree p hmem hc)⟩
  have hplace : ∀ y : Screen, y.shown = (row, c) :: x.shown.filter (fun p => p.1 ≠ row) →
      (∀ p ∈ y.shown, ∀ habit, y.session.habitArray[p.1]? = some habit →
        (y.cells p.2).habitCell.map Habit.kind = some habit.kind ∧
          (y.cells p.2).counted = some habit.counted) → Laid y := by
    intro y hy hhabit
    refine ⟨fun p hp q hq hpq => ?_, fun p hp q hq hpq => ?_, hhabit⟩
    all_goals
      rw [hy] at hp hq
      rcases hshown p hp with rfl | ⟨hp, hprow, hpc⟩ <;>
        rcases hshown q hq with rfl | ⟨hq, hqrow, hqc⟩
    · rfl
    · exact absurd hpq.symm hqrow
    · exact absurd hpq hprow
    · exact h.object p hp q hq hpq
    · rfl
    · exact absurd hpq.symm hqc
    · exact absurd hpq hpc
    · exact h.row p hp q hq hpq
  cases hrow : x.session.habitArray[row]? with
  | none =>
    rw [cellForItemAt_of_none x c row hrow]
    refine hplace _ rfl fun p hp habit hhabit => ?_
    rcases hshown p hp with rfl | ⟨hp, _, _⟩
    · exact absurd (hrow.symm.trans (by simpa [place] using hhabit)) (by simp)
    · simpa [place] using h.habit p hp habit (by simpa [place] using hhabit)
  | some old =>
    rw [cellForItemAt_of_row x c row hrow]
    refine hplace _ (by simp [place]) fun p hp habit hhabit => ?_
    have hhabit : x.session.habitArray[p.1]? = some habit := by simpa [place] using hhabit
    rcases hshown p (by simpa [place] using hp) with rfl | ⟨hp, _, hc⟩
    · obtain rfl := Option.some.inj (hrow.symm.trans hhabit)
      simp [configured, laidOut, Cell.setMenu]
    · simpa [place, Function.update_of_ne hc] using h.habit p hp habit hhabit

/-- The completion configures the cell that was tapped, for the habit that
it shows. -/
theorem completeCounted (h : Laid x) {row d : Nat} {habit : Habit} (hfree : x.Free row d)
    (hrow : x.session.habitArray[row]? = some habit) : Laid (x.completeCounted d row habit) := by
  have hy : Laid { x with session := HabitCollection.completeCounted row habit x.session } :=
    h.steady (steady_session x (kind_completeCounted hrow))
  unfold Screen.completeCounted
  dsimp only
  split
  · refine ⟨by simpa using hy.object, by simpa using hy.row, fun p hp habit' hhabit => ?_⟩
    rw [configure_habitArray] at hhabit
    rw [configure_shown] at hp
    obtain ⟨hcell, hcounted⟩ := hy.habit p hp habit' hhabit
    by_cases hd : p.2 = d
    · -- the object shows the row that was tapped, so it has its habit
      have hp1 : p.1 = row := hfree p hp hd
      have hkind : habit.kind = habit'.kind := by
        obtain ⟨old, hold, hkind⟩ := (steady_session x (kind_completeCounted hrow)).row hhabit
        rw [hp1, hrow] at hold
        rw [Option.some.inj hold, hkind]
      rw [configure_cells, hd, Function.update_self]
      rw [hd] at hcounted
      exact ⟨congrArg some hkind, hcounted⟩
    · rw [configure_cells, Function.update_of_ne hd]
      exact ⟨hcell, hcounted⟩
  · exact hy

theorem free (h : Laid x) {row d : Nat} (hd : x.cellForItem row = some d) : x.Free row d :=
  fun p hp hpd => congrArg Prod.fst (h.row p hp (row, d) (mem_of_cellForItem hd) hpd)

theorem tapCounted (h : Laid x) {row d c₁ c₂ : Nat} {habit : Habit}
    (hd : x.cellForItem row = some d)
    (hc₁ : x.Free row c₁) (hc₂ : x.Free row c₂)
    (hrow : x.session.habitArray[row]? = some habit) : Laid (x.tapCounted d row c₁ c₂ habit) := by
  have hfree : x.Free row d := h.free hd
  by_cases hcount : habit.currentCount < habit.goal
  · rw [tapCounted_of_lt x row hcount]
    have hset : Laid (x.countUp row habit.incremented) :=
      h.steady (steady_session x (kind_setRow hrow habit.kind_incremented))
    have hc₂ : (x.countUp row habit.incremented).Free row c₂ := hc₂
    refine ((hset.cellForItemAt hc₁).completeCounted ?_ ?_).cellForItemAt ?_
    · exact free_cellForItemAt _ c₁ row hfree
    · rw [cellForItemAt_habitArray]
      exact List.getElem?_set_self (List.getElem?_eq_some_iff.mp hrow).1
    · intro p hp
      rw [completeCounted_shown] at hp
      exact free_cellForItemAt _ c₁ row hc₂ p hp
  · rw [tapCounted_of_not_lt x row hcount]
    refine (h.completeCounted hfree hrow).cellForItemAt fun p hp => ?_
    rw [completeCounted_shown] at hp
    exact hc₂ p hp

theorem didSelectItemAt (h : Laid x) {row c₁ c₂ : Nat} (hc₁ : x.Free row c₁)
    (hc₂ : x.Free row c₂) : Laid (x.didSelectItemAt row c₁ c₂) := by
  have hday : Laid x.saveDay := h.steady (steady_session x rfl)
  rcases didSelectItemAt_cases x row c₁ c₂ with heq | heq | ⟨d, habit, hshown, hrow, htap⟩
  · rwa [heq]
  · rw [heq]
    exact hday.steady (steady_crash _ _)
  · generalize x.didSelectItemAt row c₁ c₂ = y at htap ⊢
    cases htap with
    | finished => exact hday
    | menu => exact hday.cellForItemAt hc₂
    | start => exact hday.steady (steady_startCountdown _ d row true)
    | stop => exact hday.steady (steady_startCountdown _ d row false)
    | counted => exact hday.tapCounted hshown hc₁ hc₂ hrow

/-- A delete takes the row out of the list and of the view. -/
theorem deleteHabit (h : Laid x) (c : Nat) : Laid (x.deleteHabit c) := by
  unfold Screen.deleteHabit
  split
  · cases hglobal : x.session.indexPathGlobal with
    | none =>
      refine h.steady (steady_session x ?_)
      simp [HabitCollection.deleteHabit, deleteHabitAction, hglobal]
    | some row =>
      dsimp only
      split
      · next hlt =>
        have hmem : ∀ p ∈ (x.shown.filter fun p => p.1 ≠ row).map fun p =>
            (if p.1 < row then p.1 else p.1 - 1, p.2),
            ∃ q ∈ x.shown, q.1 ≠ row ∧ p.1 = (if q.1 < row then q.1 else q.1 - 1) ∧ p.2 = q.2 := by
          intro p hp
          obtain ⟨q, hq, rfl⟩ := List.mem_map.mp hp
          obtain ⟨hq, hne⟩ := List.mem_filter.mp hq
          exact ⟨q, hq, by simpa using hne, rfl, rfl⟩
        rw [deleteHabit_eq hglobal hlt]
        refine ⟨fun p hp q hq hpq => ?_, fun p hp q hq hpq => ?_, fun p hp habit hrow => ?_⟩
        · obtain ⟨p', hp', hpne, hp1, hp2⟩ := hmem p hp
          obtain ⟨q', hq', hqne, hq1, hq2⟩ := hmem q hq
          have : p'.1 = q'.1 := by
            rw [hp1, hq1] at hpq
            split_ifs at hpq <;> omega
          have := h.object p' hp' q' hq' this
          subst this
          exact Prod.ext hpq (hp2.trans hq2.symm)
        · obtain ⟨p', hp', hpne, hp1, hp2⟩ := hmem p hp
          obtain ⟨q', hq', hqne, hq1, hq2⟩ := hmem q hq
          have := h.row p' hp' q' hq' (hp2.symm.trans (hpq.trans hq2))
          subst this
          exact Prod.ext (hp1.trans hq1.symm) hpq
        · obtain ⟨p', hp', hpne, hp1, hp2⟩ := hmem p hp
          rw [hp2]
          refine h.habit p' hp' habit ?_
          have hrow : (x.session.habitArray.eraseIdx row)[p.1]? = some habit := hrow
          rw [hp1, List.getElem?_eraseIdx] at hrow
          by_cases hlt' : p'.1 < row
          · rwa [if_pos hlt', if_pos hlt'] at hrow
          · have hsub : p'.1 - 1 + 1 = p'.1 := by omega
            rwa [if_neg hlt', if_neg (by omega), hsub] at hrow
      · next hlt =>
        refine h.steady (steady_session x ?_)
        simp [HabitCollection.deleteHabit, deleteHabitAction, hglobal, hlt]
  · exact h

/-- An event of the session alone. -/
theorem sessionEvent (h : Laid x) (hrunning : x.session.crashed = none) (e : Event) :
    Laid (x.sessionEvent e) := by
  unfold Screen.sessionEvent
  split
  · exact fresh _
  · next hrelaunch =>
    split
    · exact h
    · next hcell =>
      rw [step_of_running hrunning]
      rcases kind_handle (Bool.eq_false_of_not_eq_true hcell) hrelaunch x.session with hs | hs | hs
      · cases hreload : reloadsData x.session e with
        | true => exact empty rfl
        | false => exact ⟨h.object, h.row, by simp [hs]⟩
      · exact empty (by simp [hs])
      · cases hreload : reloadsData x.session e with
        | true => exact empty rfl
        | false => exact h.steady (steady_session x hs)

theorem handle (h : Laid x) (hrunning : x.session.crashed = none) (e : ScreenEvent) :
    Laid (x.handle e) := by
  cases e with
  | session e => exact h.sessionEvent hrunning e
  | cellForItemAt row c =>
    simp only [Screen.handle]
    split
    · next hfree => exact h.cellForItemAt hfree
    · exact h
  | didEndDisplaying row => exact h.filter _ rfl rfl rfl
  | handleLongPress row => exact h.steady (steady_handleLongPress x row)
  | handlePressOnCollectionView => exact h.steady (steady_handlePressOnCollectionView x)
  | deleteHabit c => exact h.deleteHabit c
  | editHabit c => exact h.steady (steady_editHabit x c)
  | didSelectItemAt row c₁ c₂ =>
    simp only [Screen.handle]
    split
    · next hfree => exact h.didSelectItemAt hfree.1 hfree.2
    · exact h
  | tick id => exact h.steady (steady_tick x id)
  | serveTime i => exact h.steady (steady_serveTime x i)
  | deliverTime i => exact h.steady (steady_deliverTime x i)
  | failTime i => exact h.steady (steady_failTime x i)
  | startTimer i => exact h.steady (steady_runBlock x i)

theorem step (h : Laid x) (e : ScreenEvent) : Laid (x.step e) := by
  unfold Screen.step
  split
  · next hrunning => exact h.handle hrunning e
  · split
    · exact fresh _
    · exact h

end Laid

/-- Every screen that can be reached shows the habits of its list. -/
theorem laid_run (st : Store) (es : List ScreenEvent) : Laid ((launched st).run es) :=
  Runs.run_invariant (fun _ e h _ => h.step e) (Runs.guarded_true (launched st) es) (Laid.fresh _)

/-! ## Screens for examples -/

/-- The account of the examples: two timed habits and a counted one. -/
def account : List Entry :=
  [.timed [0, 0, 1, 0, 0, 0], .timed [0, 0, 0, 5, 0, 0], .sample 2]

/-- The list is fetched, and row `n` is laid out on object `n`. -/
def loads (n : Nat) : List ScreenEvent :=
  let reads : List Event := (List.replicate (n + 1) [.serve 0, .deliver 0]).flatten
  (.fetchFirebaseHabits :: reads).map .session ++ (List.range n).map fun row =>
    .cellForItemAt row row

/-- The time reads in flight come back, and the blocks of the starts run. -/
def arrivals (reads blocks : Nat) : List ScreenEvent :=
  (List.replicate reads [.serveTime 0, .deliverTime 0]).flatten ++
    List.replicate blocks (.startTimer 0)

/-- The loaded screen of an account. -/
def loaded (entries : List Entry) : Screen :=
  (launched (.ofEntries entries)).run (loads entries.length)

end Screen

end HabitHive
