import HabitHive.Model.SetAmount
import HabitHive.Values

/-!
# The ranges of stored values

The amounts come from a stepper and the colors from six buttons, and both
forms test the name.  `ranges` are the values that this allows, and
`stored_in_range` says that every run keeps to them.  The counts of a habit
are at most as large as a goal can be, although not always as its own goal:
see `HabitHive.Counts`.

A streak is counted up by an appearance of the list only, so that it is at
most the number of appearances (`streak_le_appearances`).
-/

namespace HabitHive

open HabitCollection

/-! ## Ranges -/

/-- The values that the controls allow. -/
def ranges : Values where
  typed _ := True
  name text := text.Accepted
  color color := 1 ≤ color ∧ color ≤ 6
  goal goal := 0 ≤ goal ∧ goal ≤ 100
  count count := 0 ≤ count ∧ count ≤ 100
  streak streak := 0 ≤ streak

theorem ranges_closed : ranges.Closed where
  empty := trivial
  typed _ _ := trivial
  name _ _ h := h
  noCount := by simp [ranges]
  countUp count goal hcount hgoal hlt := by
    have hlow : 0 ≤ count := hcount.1
    have hhigh : goal ≤ 100 := hgoal.2
    constructor <;> omega
  noStreak := by simp [ranges]

theorem ColorButton.sectionColor_range (color : ColorButton) : ranges.color color.sectionColor := by
  cases color <;> simp [ranges, sectionColor]

/-- The stepper keeps its value between 0 and 100. -/
def SetAmount.InRange (p : SetAmount) : Prop := ranges.goal p.stepperValue

namespace SetAmount

theorem setValue_inRange (value : Int) (p : SetAmount) : (p.setValue value).InRange := by
  constructor
  · exact le_max_left _ _
  · exact max_le (by decide) (min_le_right _ _)

theorem viewDidLoad_inRange (value : Option Int) {p : SetAmount} (h : p.InRange) :
    (p.viewDidLoad value).InRange := by
  cases value with
  | none => exact h
  | some value => exact setValue_inRange value p

end SetAmount

/-! ## Layers -/

/-- The app does nothing to the screen but by an event of the screen, which
enters no more than the event of the app does. -/
theorem App.step_screen (a : App) (e : AppEvent) :
    (a.step e).screen = a.screen ∨ ∃ e', (a.step e).screen = a.screen.step e' ∧
      ∀ V : Values, V.goal 0 → (∀ e'', e = .screen (.session e'') → e''.Enters V) →
        ∀ e'', e' = .session e'' → e''.Enters V := by
  have hevent : ∀ e, (a.screenEvent e).screen = a.screen ∨
      (a.screenEvent e).screen = a.screen.step e := by
    intro e
    unfold App.screenEvent
    split
    · split_ifs with hrelaunch
      · exact Or.inr (by rw [hrelaunch])
      · exact Or.inl rfl
      · exact Or.inr rfl
    · exact Or.inr rfl
  have hscreen : ∀ e, (a.screenEvent e).screen = a.screen ∨ ∃ e',
      (a.screenEvent e).screen = a.screen.step e' ∧
        ∀ V : Values, V.goal 0 →
          (∀ e'', AppEvent.screen e = .screen (.session e'') → e''.Enters V) →
            ∀ e'', e' = .session e'' → e''.Enters V := fun e =>
    (hevent e).imp_right fun h => ⟨e, h, fun V _ hV e'' he => hV e'' (by rw [he])⟩
  rw [App.step]
  split_ifs with _ hrelaunch
  · cases e with
    | screen e => exact hscreen e
    | createTimedButtonTapped c =>
      rw [App.handle, App.createTimedButtonTapped]
      split <;> exact Or.inl rfl
    | editTimedButtonTapped e =>
      rw [App.handle, App.editTimedButtonTapped]
      split <;> exact Or.inl rfl
    | timePickerValue i hour minute => exact Or.inl rfl
    | confirmButton i =>
      rw [App.handle, App.confirmButton]
      split
      · exact Or.inl rfl
      · split
        · refine Or.inr ⟨_, rfl, fun V hzero _ e'' he => ?_⟩
          rw [← ScreenEvent.session.inj he]
          exact hzero
        · split
          · refine Or.inr ⟨_, rfl, fun V _ _ e'' he => ?_⟩
            rw [← ScreenEvent.session.inj he]
            trivial
          · exact Or.inl rfl
  · subst hrelaunch
    exact hscreen _
  · exact Or.inl rfl

namespace Controls

/-- The session keeps to the ranges, and so do the pickers. -/
structure InRange (a : Controls) : Prop where
  session : Holds ranges a.app.screen.session
  amounts : ∀ p ∈ a.amounts, p.InRange

namespace InRange

variable {a : Controls}

theorem screen (h : InRange a) {e : AppEvent}
    (he : ∀ e', e = .screen (.session e') → e'.Enters ranges) :
    Holds ranges (a.app.step e).screen.session := by
  rcases App.step_screen a.app e with hs | ⟨e', hs, henters⟩ <;> rw [hs]
  · exact h.session
  · change Holds ranges (a.app.screen.run [e']).session
    exact h.session.screen ranges_closed (fun _ h => Int.add_nonneg h (by decide))
      fun e'' he'' => henters ranges (by simp [ranges]) he e'' (List.mem_singleton.mp he'').symm

/-- An event of the session that a control or the app stands for. -/
theorem enter (h : InRange a) {e : Event} (he : e.Enters ranges) : InRange (a.session e) :=
  ⟨h.screen fun e' he' => by
    rw [← ScreenEvent.session.inj (AppEvent.screen.inj he')]
    exact he, h.amounts⟩

theorem launched {st : Store} (hst : st.Within ranges) : InRange (Controls.launched st) where
  session := .fresh hst rfl rfl rfl rfl (by
    change (1 : Int) ≤ 3 ∧ (3 : Int) ≤ 6
    decide)
  amounts := by simp [Controls.launched]

theorem relaunch (h : InRange a) :
    InRange { app := a.app.step (.screen (.session .relaunch)) } where
  session := h.screen fun e he => by
    rw [← ScreenEvent.session.inj (AppEvent.screen.inj he)]
    trivial
  amounts := by simp

theorem appEvent (h : InRange a) (e : AppEvent) : InRange (a.appEvent e) := by
  unfold Controls.appEvent
  split
  · next e =>
    split_ifs with hrelaunch hcontrol
    · exact h.relaunch
    · exact h
    · refine h.enter ?_
      cases e with
      | createAmount _ _ | editAmount _ _ | sectionColor _ => exact absurd rfl hcontrol
      | createTime _ _ => exact ⟨le_rfl, by decide⟩
      | _ => trivial
  · next e hne =>
    exact ⟨h.screen fun e' he' => absurd he' (hne e'), h.amounts⟩

theorem modify (h : InRange a) (i : Nat) {f : SetAmount → SetAmount}
    (hf : ∀ p : SetAmount, p.InRange → (f p).InRange) :
    InRange { a with amounts := a.amounts.modify i f } where
  session := h.session
  amounts p hp := by
    obtain ⟨j, hj⟩ := List.mem_iff_getElem?.mp hp
    rw [List.getElem?_modify] at hj
    obtain ⟨q, hq, rfl⟩ := Option.map_eq_some_iff.mp hj
    have hrange := h.amounts q (List.mem_of_getElem? hq)
    split
    · exact hf q hrange
    · exact hrange

theorem addPicker (h : InRange a) {p : SetAmount} (hp : p.InRange) :
    InRange { a with amounts := a.amounts ++ [p] } where
  session := h.session
  amounts q hq := by
    rcases List.mem_append.mp hq with hq | hq
    · exact h.amounts q hq
    · rw [List.mem_singleton.mp hq]
      exact hp

theorem step (h : InRange a) (e : ControlsEvent) : InRange (a.step e) := by
  have hten : ∀ d, ({ amountDelegate := d } : SetAmount).InRange := fun d =>
    (by simp [SetAmount.InRange, ranges])
  rw [Controls.step]
  split_ifs
  · cases e with
    | app e => exact h.appEvent e
    | colorButton color => exact h.enter color.sectionColor_range
    | createCountedButtonTapped c =>
      rw [Controls.handle, createCountedButtonTapped]
      split
      · exact h
      · exact h.addPicker (SetAmount.viewDidLoad_inRange none (hten _))
    | editCountedButtonTapped e =>
      rw [Controls.handle, editCountedButtonTapped]
      split
      · exact h
      · exact h.addPicker (SetAmount.viewDidLoad_inRange _ (hten _))
    | valueChanged i up => exact h.modify i fun p _ => SetAmount.setValue_inRange _ p
    | step i => exact h.modify i fun p hp => hp
    | confirmButtonTapped i =>
      rw [Controls.handle, confirmButtonTapped]
      split
      · exact h
      · next p hp =>
        have hrange := h.amounts p (List.mem_of_getElem? hp)
        split
        · exact h.enter hrange
        · exact h.enter hrange
  · exact h.appEvent _
  · exact h

end InRange

/-- In every run of the app in which amounts and colors come from the
controls, each stored and each listed habit has a name of 1 to 23
characters, a color from 1 to 6, a goal and a count from 0 to 100, and a
streak that is not negative. -/
theorem stored_in_range {st : Store} (hst : st.Within ranges) (es : List ControlsEvent) :
    let s := ((launched st).run es).app.screen.session
    s.store.Within ranges ∧ ∀ habit ∈ s.habitArray, habit.Within ranges := by
  have h : InRange ((launched st).run es) :=
    Runs.run_invariant (fun a e h _ => h.step e) (Runs.guarded_true _ es) (.launched hst)
  exact ⟨h.session.store, h.session.list⟩

/-- A create form with the amount 11 and the color blue. -/
def fillForm : List ControlsEvent :=
  [.app (.screen (.session .addButtonTapped)), .createCountedButtonTapped 0, .valueChanged 0 true,
    .step 0, .confirmButtonTapped 0, .colorButton .blueButtonPressed,
    .app (.screen (.session (.createName 0 ["w"]))),
    .app (.screen (.session (.addHabitButtonTapped 0))), .app (.screen (.session (.serve 0))),
    .app (.screen (.session (.deliver 0)))]

theorem stored_in_range_signUp :
    let s := ((launched .signUp).run fillForm).app.screen.session
    s.store.Within ranges ∧ ∀ habit ∈ s.habitArray, habit.Within ranges :=
  stored_in_range (by simp [Store.Within, Store.signUp]) fillForm

/-- The form creates the habit with these values. -/
example : (((launched .signUp).run fillForm).app.screen.session.store.habits 0).map
    (fun doc => (doc.fields.goal, doc.fields.color)) = some (some 11, some 1) := by
  decide

end Controls

/-! ## Streaks -/

/-- Values with streaks up to `k`. -/
def streakUpTo (k : Nat) : Values where
  typed _ := True
  name _ := True
  color _ := True
  goal _ := True
  count _ := True
  streak streak := streak ≤ k

theorem streakUpTo_closed (k : Nat) : (streakUpTo k).Closed := by
  constructor <;> simp [streakUpTo]

theorem streakUpTo_mono {j k : Nat} (h : j ≤ k) : (streakUpTo j).Le (streakUpTo k) := by
  have hle : (j : Int) ≤ k := Int.ofNat_le.mpr h
  constructor <;> intro x hx
  all_goals first | trivial | exact le_trans hx hle

theorem Event.enters_streakUpTo (k : Nat) (e : Event) : e.Enters (streakUpTo k) := by
  cases e <;> trivial

/-- An appearance of the list raises a streak by one at most. -/
theorem run_streaks {s : State} {k : Nat} (h : Holds (streakUpTo k) s) (es : List Event) :
    Holds (streakUpTo (k + es.count .viewWillAppear)) (run s es) := by
  induction es generalizing s k with
  | nil => exact h
  | cons e es ih =>
    rw [run_cons]
    by_cases he : e = .viewWillAppear
    · subst he
      have hnext : Holds (streakUpTo (k + 1)) (step s .viewWillAppear) := by
        refine (h.mono (streakUpTo_mono (Nat.le_succ k))).step (streakUpTo_closed _) trivial
          fun _ habit hmem => ?_
        have hhigh : habit.streak ≤ (k : Int) := (h.list habit hmem).streak
        change habit.streak + 1 ≤ ((k + 1 : Nat) : Int)
        push_cast
        omega
      have hrun := ih hnext
      rwa [Nat.add_right_comm, Nat.add_assoc, ← List.count_cons_self] at hrun
    · have hnext := h.step (streakUpTo_closed k) (e.enters_streakUpTo k) fun h => absurd h he
      rw [List.count_cons_of_ne he]
      exact ih hnext

theorem count_sessionEvents (es : List ScreenEvent) (e : Event) :
    (es.flatMap ScreenEvent.sessionEvents).count e = es.count (.session e) := by
  induction es with
  | nil => rfl
  | cons e' es ih =>
    rw [List.flatMap_cons, List.count_append, ih, List.count_cons, Nat.add_comm]
    congr 1
    cases e' with
    | session e' => simp [ScreenEvent.sessionEvents, List.count_singleton]
    | _ => simp [ScreenEvent.sessionEvents]

/-- The same for the screen. -/
theorem Screen.run_streaks {x : Screen} {k : Nat} (h : HabitHive.Holds (streakUpTo k) x.session)
    (es : List ScreenEvent) :
    HabitHive.Holds (streakUpTo (k + es.count (.session .viewWillAppear))) (x.run es).session := by
  obtain ⟨fs, hfs, hs⟩ := Screen.run_covered x es
  have hcount : fs.count .viewWillAppear ≤ es.count (.session .viewWillAppear) := by
    calc fs.count .viewWillAppear
        = (fs.filter fun e => !e.onCell).count .viewWillAppear := (List.count_filter rfl).symm
      _ ≤ (es.flatMap ScreenEvent.sessionEvents).count .viewWillAppear := hfs.count_le _
      _ = es.count (.session .viewWillAppear) := count_sessionEvents es _
  have hrun := (HabitHive.run_streaks h fs).mono
    (streakUpTo_mono (Nat.add_le_add_left hcount k))
  rcases hs with hs | ⟨f, hs⟩ <;> rw [hs]
  · exact hrun
  · exact hrun.crash f

/-- In every run of the screen a streak is at most the number of appearances
of the list, next to the longest one that was stored before. -/
theorem streak_le_appearances {st : Store} {k : Nat} (hst : st.Within (streakUpTo k))
    (es : List ScreenEvent) :
    let s := ((Screen.launched st).run es).session
    let V := streakUpTo (k + es.count (.session .viewWillAppear))
    s.store.Within V ∧ ∀ habit ∈ s.habitArray, habit.Within V := by
  have hstart : Holds (streakUpTo k) (Screen.launched st).session :=
    .fresh hst rfl rfl rfl rfl trivial
  exact ⟨(Screen.run_streaks hstart es).store, (Screen.run_streaks hstart es).list⟩

/-- The list with one habit is loaded and appears. -/
def ScreenEvent.appearOne : List ScreenEvent :=
  [Event.viewDidLoad, .serve 0, .deliver 0, .deliver 0, .serve 0, .deliver 0, .viewWillAppear].map
    .session

/-- One habit with the streak 2, completed and not yet reset. -/
def completedStore : Store := .ofEntries [{ Entry.sample 1 with addFirebase := false, streak := 2 }]

theorem completedStore_within : completedStore.Within (streakUpTo 2) := by
  refine .ofEntries (List.forall_mem_singleton.mpr ?_)
  constructor <;> simp [Entry.fields, streakUpTo]

/-- The appearance raises the streak. -/
theorem streak_le_appearances_completed :
    let s := ((Screen.launched completedStore).run ScreenEvent.appearOne).session
    let V := streakUpTo (2 + ScreenEvent.appearOne.count (.session .viewWillAppear))
    (s.store.habits 0).map (·.fields.streak) = some (some 3) ∧ s.habitArray.map Habit.streak = [3] ∧
      s.store.Within V ∧ ∀ habit ∈ s.habitArray, habit.Within V :=
  ⟨by decide, by decide, streak_le_appearances completedStore_within _⟩

end HabitHive
