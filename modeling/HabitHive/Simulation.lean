import Mathlib.Data.List.Induction
import HabitHive.Cells

/-!
# The session of a screen

`Screen` refines `State`: what an event of the screen does to the session is
a short run of events of the session, after which the screen may end the
process.  `step_covered` says this of one event and `run_covered` of a whole
run.  The events that happen on a cell are chosen by what the cells hold;
the others are events of the run, in the same order.  A session that is over
takes no step but a launch, and a launch keeps neither the fault nor
anything else that was in memory.

`Covered.invariant` transfers an invariant of the session to the screen.
-/

namespace HabitHive

open HabitCollection

/-- `t` is what a run leaves of `s`, unless the process has ended since.
Apart from what happens on cells, its events are events of `plan`, in the
same order. -/
def Covered (plan : List Event) (s t : State) : Prop :=
  ∃ es : List Event, (es.filter fun e => !e.onCell).Sublist plan ∧
    (t = run s es ∨ ∃ f, t = (run s es).crash f)

namespace Covered

variable {plan plan' : List Event} {s t u : State}

theorem refl (s : State) : Covered plan s s := ⟨[], List.nil_sublist _, Or.inl rfl⟩

theorem crash (hrunning : s.crashed = none) (h : Covered plan t s) (f : Fault) :
    Covered plan t (s.crash f) := by
  obtain ⟨es, hes, rfl | ⟨g, rfl⟩⟩ := h
  · exact ⟨es, hes, Or.inr ⟨f, rfl⟩⟩
  · contradiction

/-- The session is the same, unless the process has ended. -/
theorem of_cases (hrunning : s.crashed = none) (h : t = s ∨ ∃ f, t = s.crash f) :
    Covered plan s t := by
  rcases h with rfl | ⟨f, rfl⟩
  · exact refl t
  · exact crash hrunning (refl s) f

/-- An event on a cell. -/
theorem cell {e : Event} (he : e.onCell = true) (hrunning : s.crashed = none) :
    Covered plan s (handle s e) :=
  ⟨[e], by simp [he], Or.inl (step_of_running hrunning).symm⟩

/-- Any event. -/
theorem event (s : State) (e : Event) : Covered [e] s (step s e) :=
  ⟨[e], List.filter_sublist, Or.inl rfl⟩

/-- The next events of a session that is not over. -/
theorem trans (h : Covered plan s t) (hrunning : t.crashed = none) (h' : Covered plan' t u) :
    Covered (plan ++ plan') s u := by
  obtain ⟨es, hes, rfl | ⟨f, rfl⟩⟩ := h
  · obtain ⟨fs, hfs, hu⟩ := h'
    refine ⟨es ++ fs, ?_, ?_⟩
    · rw [List.filter_append]
      exact hes.append hfs
    · rwa [run_append]
  · contradiction

theorem mono (hplan : plan.Sublist plan') (h : Covered plan s t) : Covered plan' s t := by
  obtain ⟨es, hes, ht⟩ := h
  exact ⟨es, hes.trans hplan, ht⟩

/-- A launch finds the same after the process has ended. -/
theorem relaunch (h : Covered plan s t) : Covered (plan ++ [.relaunch]) s t.relaunch := by
  obtain ⟨es, hes, ht⟩ := h
  refine ⟨es ++ [.relaunch], ?_, Or.inl ?_⟩
  · rw [List.filter_append]
    exact hes.append List.filter_sublist
  · have hrelaunch : run s (es ++ [.relaunch]) = (run s es).relaunch := by
      rw [run_append, run_cons, run_nil, step]
      split <;> simp [handle]
    rw [hrelaunch]
    rcases ht with rfl | ⟨f, rfl⟩ <;> rfl

theorem launch (s : State) : Covered [.relaunch] s s.relaunch :=
  (refl s : Covered [] s s).relaunch

/-- An invariant that the events keep, and that does not depend on whether
the process has ended. -/
theorem invariant {I : State → Prop} (hcrash : ∀ s f, I s → I (s.crash f))
    (hstep : ∀ s e, e.onCell = true ∨ e ∈ plan → I s → I (step s e)) (h : Covered plan s t)
    (hs : I s) : I t := by
  obtain ⟨es, hes, ht⟩ := h
  have hkind : ∀ e ∈ es, e.onCell = true ∨ e ∈ plan := fun e he => by
    cases hcell : e.onCell with
    | true => exact Or.inl rfl
    | false => exact Or.inr (hes.subset (List.mem_filter.mpr ⟨he, by simp [hcell]⟩))
  have hrun : I (run s es) := by
    clear ht hes
    induction es generalizing s with
    | nil => exact hs
    | cons e es ih =>
      exact ih (hstep s e (hkind e (by simp)) hs) fun e' he' => hkind e' (by simp [he'])
  rcases ht with rfl | ⟨f, rfl⟩
  · exact hrun
  · exact hcrash _ f hrun

end Covered

namespace Screen

variable (x : Screen) (c row : Nat)

/-! ## What a method does to the session -/

theorem configure_session_cases (habit : Habit) :
    (x.configure c habit).session = x.session ∨
      ∃ f, (x.configure c habit).session = x.session.crash f := by
  rcases configure_cases x c habit with ⟨_, h⟩ | ⟨_, _, _, _, h⟩ | ⟨f, h⟩ <;> rw [h]
  · exact Or.inl rfl
  · exact Or.inl rfl
  · exact Or.inr ⟨f, rfl⟩

theorem cellForItemAt_session_cases :
    (x.cellForItemAt row c).session = x.session ∨
      ∃ f, (x.cellForItemAt row c).session = x.session.crash f := by
  cases hrow : x.session.habitArray[row]? with
  | none =>
    rw [cellForItemAt_of_none x c row hrow]
    exact Or.inr ⟨.indexOutOfRange, by simp [place]⟩
  | some habit =>
    rw [cellForItemAt_of_row x c row hrow]
    simpa [place] using
      configure_session_cases ((x.place c row).setCell c (laidOut row habit (x.cells c))) c habit

theorem timeRead_session_cases (r : TimeRead) (document : Option Store) :
    (x.timeRead r document).session = x.session ∨
      ∃ f, (x.timeRead r document).session = x.session.crash f := by
  rcases timeRead_cases x r document with ⟨_, h⟩ | ⟨f, h⟩ | ⟨_, _, _, _, _, _, h⟩ <;> rw [h]
  · exact Or.inl rfl
  · exact Or.inr ⟨f, rfl⟩
  · exact Or.inl rfl

/-- The branch for a counted habit does to the session what the controller
does. -/
theorem tapCounted_session {d c₁ c₂ : Nat} {habit : Habit}
    (hrow : x.session.habitArray[row]? = some habit) (hcounted : habit.counted = true) :
    (x.tapCounted d row c₁ c₂ habit).session =
      HabitCollection.tapCounted row habit x.session := by
  have hlt : row < x.session.habitArray.length := by
    rw [List.getElem?_eq_some_iff] at hrow
    exact hrow.1
  have hcomplete : ∀ (y : Screen) (h : Habit), h.counted = true →
      y.session.habitArray[row]? = some h →
      ((y.completeCounted d row h).cellForItemAt row c₂).session =
        HabitCollection.completeCounted row h y.session := by
    intro y h hh hyrow
    have hsession := completeCounted_session y d row h hh
    obtain ⟨h', hrow', hcounted'⟩ : ∃ h', (y.completeCounted d row h).session.habitArray[row]? =
        some h' ∧ h'.counted = true := by
      have hylt : row < y.session.habitArray.length := by
        rw [List.getElem?_eq_some_iff] at hyrow
        exact hyrow.1
      rw [hsession, HabitCollection.completeCounted]
      split
      · dsimp only
        split <;> simp [hylt, hh]
      · exact ⟨h, hyrow, hh⟩
    rw [(cellForItemAt_counted _ c₂ row hrow' hcounted').1, hsession]
  by_cases hlow : habit.currentCount < habit.goal
  · rw [tapCounted_of_lt x row hlow]
    have hrow₁ : (x.countUp row habit.incremented).session.habitArray[row]? =
        some habit.incremented := by
      simp [countUp, hlt]
    have hc : habit.incremented.counted = true := by
      rw [Habit.incremented, if_pos hlow]
      exact hcounted
    have hfirst := (cellForItemAt_counted (x.countUp row habit.incremented) c₁ row hrow₁ hc).1
    rw [hcomplete _ _ hc (by rw [hfirst]; exact hrow₁), hfirst]
    simp [HabitCollection.tapCounted, hlow, countUp, Habit.incremented]
  · rw [tapCounted_of_not_lt x row hlow, hcomplete x habit hcounted hrow]
    simp [HabitCollection.tapCounted, hlow]

variable {x}

theorem didSelectItemAt_covered (hrunning : x.session.crashed = none) (c₁ c₂ : Nat) :
    Covered [] x.session (x.didSelectItemAt row c₁ c₂).session := by
  have htap : ∀ menu, Covered [] x.session
      (HabitCollection.didSelectItemAt row menu x.session) := fun menu =>
    .cell (e := .didSelectItemAt row menu) rfl hrunning
  cases hshown : x.cellForItem row with
  | none =>
    rw [didSelectItemAt_of_none x row hshown]
    exact .refl _
  | some d =>
    cases hrow : x.session.habitArray[row]? with
    | none =>
      rw [didSelectItemAt_of_row x row hshown hrow]
      simpa [HabitCollection.didSelectItemAt, hrow, saveDay] using htap false
    | some habit =>
      -- a tap with the menu open only saves the day
      have hsave : Covered [] x.session x.saveDay.session := by
        have hmenu : HabitCollection.didSelectItemAt row true x.session = x.saveDay.session := by
          cases hadd : habit.addFirebase <;>
            simp [HabitCollection.didSelectItemAt, hrow, hadd, saveDay]
        exact hmenu ▸ htap true
      have h : x.Tap row c₁ c₂ d habit (x.didSelectItemAt row c₁ c₂) :=
        didSelectItemAt_tap x row hshown hrow
      generalize x.didSelectItemAt row c₁ c₂ = y at h
      cases h with
      | finished => exact hsave
      | menu =>
        exact hsave.trans hrunning
          (Covered.of_cases hrunning (cellForItemAt_session_cases x.saveDay c₂ row))
      | start =>
        rw [startCountdown_true]
        exact hsave
      | stop =>
        rw [startCountdown_false]
        exact hsave.trans hrunning (.cell (e := .createTimeArray row _ _) rfl hrunning)
      | counted hmenu hadd hcounted =>
        rw [tapCounted_session x.saveDay row hrow hcounted]
        simpa [HabitCollection.didSelectItemAt, hrow, hadd, hcounted, saveDay] using htap false

/-- A long press stops the countdown of a timed habit, and then takes the
row as the target of the menu. -/
theorem handleLongPress_covered (hrunning : x.session.crashed = none) :
    Covered [] x.session (x.handleLongPress row).session := by
  cases hshown : x.cellForItem row with
  | none =>
    rw [handleLongPress_of_running x row (by simp [hshown])]
    exact .refl _
  | some c =>
    cases hcell : (x.cells c).running with
    | true =>
      rw [handleLongPress_of_running x row (by simp [hshown, hcell])]
      exact .refl _
    | false =>
      cases hrow : x.session.habitArray[row]? with
      | none =>
        rw [handleLongPress_of_none x c row hshown hcell hrow]
        exact Covered.crash hrunning (.refl _) _
      | some habit =>
        rw [handleLongPress_of_row x c row hshown hcell hrow]
        cases hcounted : habit.counted with
        | true => exact .cell (e := .handleLongPress row) rfl hrunning
        | false =>
          have hstop := stop_session (x.opened c) c row hrow
          have hstopped : ((x.opened c).stop c row).session.crashed = none := by
            rw [hstop]
            exact hrunning
          have hfirst : Covered [] x.session ((x.opened c).stop c row).session :=
            .cell (e := .createTimeArray row _ _) rfl hrunning
          exact hfirst.trans hstopped (.cell (e := .handleLongPress row) rfl hstopped)

theorem showAlert_covered (hrunning : x.session.crashed = none) :
    Covered [] x.session (x.showAlert c row).session := by
  cases hrow : x.session.habitArray[row]? with
  | none =>
    rw [showAlert, hrow]
    exact Covered.crash hrunning (.refl _) _
  | some habit =>
    rw [showAlert, hrow]
    dsimp only
    split
    · exact Covered.crash hrunning (.refl _) _
    · next shown _ =>
      have hconfigure := configure_session_cases
        (x.setCell c { x.cells c with originalTimerArray := habit.timeOriginal }) c
        { shown with addFirebase := false }
      split
      · next hrunning' =>
        rcases hconfigure with h | ⟨f, h⟩
        · rw [h]
          exact .cell (e := .showAlert row) rfl hrunning
        · rw [h] at hrunning'
          contradiction
      · exact Covered.of_cases hrunning hconfigure

theorem action_covered (hrunning : x.session.crashed = none) :
    Covered [] x.session (x.action c).session := by
  cases hzero : (x.cells c).atZero with
  | false =>
    rw [action_of_pos x c hzero]
    exact .refl _
  | true =>
    rcases action_of_zero x c hzero with h | ⟨row, _, h⟩ <;> rw [h]
    · exact Covered.crash hrunning (.refl _) _
    · exact showAlert_covered (x := x.invalidate (x.cells c).timer.toList) c row hrunning

end Screen

/-! ## Runs -/

/-- The event of the session in an event of the screen. -/
def ScreenEvent.sessionEvents : ScreenEvent → List Event
  | .session e => [e]
  | _ => []

namespace Screen

theorem step_covered (x : Screen) (e : ScreenEvent) :
    Covered e.sessionEvents x.session (x.step e).session := by
  by_cases hrunning : x.session.crashed = none
  · have hcell : ∀ {t}, Covered [] x.session t → Covered e.sessionEvents x.session t :=
      fun h => h.mono (List.nil_sublist _)
    rw [Screen.step, if_pos hrunning]
    cases e with
    | session e =>
      rw [Screen.handle, sessionEvent]
      split
      · next he =>
        rw [he]
        exact .launch _
      · split
        · exact .refl _
        · exact .event _ e
    | cellForItemAt row c =>
      rw [Screen.handle]
      split
      · exact Covered.of_cases hrunning (cellForItemAt_session_cases x c row)
      · exact .refl _
    | didEndDisplaying row => exact .refl _
    | handleLongPress row => exact hcell (handleLongPress_covered row hrunning)
    | handlePressOnCollectionView =>
      have hsame : x.handlePressOnCollectionView.session = x.session :=
        rel_handlePressOnCollectionView (R := fun x y => y.session = x.session) x (fun _ => rfl)
          (fun h h' => h'.trans h) (fun _ _ => rfl) fun _ => rfl
      rw [Screen.handle, hsame]
      exact .refl _
    | deleteHabit c =>
      rw [Screen.handle, Screen.deleteHabit]
      split
      · have hdelete := hcell (.cell (e := .deleteHabit) rfl hrunning)
        dsimp only
        split
        · exact hdelete
        · split <;> exact hdelete
      · exact .refl _
    | editHabit c =>
      rw [Screen.handle, Screen.editHabit]
      split
      · exact hcell (.cell (e := .editHabit) rfl hrunning)
      · exact .refl _
    | didSelectItemAt row c₁ c₂ =>
      rw [Screen.handle]
      split
      · exact hcell (didSelectItemAt_covered row hrunning c₁ c₂)
      · exact .refl _
    | tick id =>
      rw [Screen.handle, tick]
      split
      · exact .refl _
      · next t _ =>
        have haction := hcell (action_covered t.cell hrunning)
        dsimp only
        split <;> exact haction
    | serveTime i =>
      rw [Screen.handle, serveTime]
      split
      · exact .refl _
      · split <;> exact .refl _
    | deliverTime i =>
      rw [Screen.handle, deliverTime]
      split
      · exact .refl _
      · split
        · exact .refl _
        · rw [leaveGroup_session]
          exact Covered.of_cases hrunning (timeRead_session_cases (x.dropRead i) _ _)
    | failTime i =>
      rw [Screen.handle, failTime]
      split
      · exact .refl _
      · rw [leaveGroup_session]
        exact .refl _
    | startTimer i =>
      rw [Screen.handle, runBlock]
      split <;> exact .refl _
  · rw [Screen.step, if_neg hrunning]
    split
    · next he =>
      subst he
      exact .launch _
    · exact .refl _

/-- Every run of a screen is a run of its session. -/
theorem run_covered (x : Screen) (es : List ScreenEvent) :
    Covered (es.flatMap ScreenEvent.sessionEvents) x.session (x.run es).session := by
  induction es using List.reverseRecOn with
  | nil => exact .refl _
  | append_singleton es e ih =>
    rw [List.flatMap_append, List.flatMap_singleton, Screen.run, Runs.run_append, Runs.run_cons,
      Runs.run_nil]
    by_cases hrunning : (x.run es).session.crashed = none
    · exact ih.trans hrunning (step_covered _ e)
    · -- the process is over, and only a launch changes that
      rw [Screen.step, if_neg hrunning]
      split
      · next he =>
        subst he
        exact ih.relaunch
      · exact ih.mono (List.sublist_append_left _ _)

end Screen

end HabitHive
