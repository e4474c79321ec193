import HabitHive.Layout

/-!
# A countdown and the taps on other rows

Every reload of a row runs the cleanup of `cellForItemAt`.  It stops all
timers of `timerArray` as soon as there are two of them, and a timer stays
in `timerArray` when its countdown is stopped.

So the taps on other rows leave a countdown alone exactly when no tap is
made or `timerArray` holds one timer, which is `countdown_kept_iff`.
-/

namespace HabitHive.Screen

/-- A tap on a row other than `r` that counts up its habit, and reloads the
row on objects other than `c`. -/
def OtherTap (r c : Nat) (x : Screen) : ScreenEvent → Prop
  | .didSelectItemAt row c₁ c₂ =>
      x.session.crashed = none ∧ row ≠ r ∧ (x.Free row c₁ ∧ c₁ ≠ c) ∧ (x.Free row c₂ ∧ c₂ ≠ c) ∧
        ∃ d habit, x.cellForItem row = some d ∧ (x.cells d).deleteButtonHidden = true ∧
          x.session.habitArray[row]? = some habit ∧ habit.addFirebase = true ∧
          habit.counted = true
  | _ => False

section Tap

variable {x : Screen} {r c row d c₁ c₂ : Nat} {habit : Habit}

theorem timers_tapCounted (h : x.timerArray.length ≤ 1) :
    (x.tapCounted d row c₁ c₂ habit).timers = x.timers ∧
      (x.tapCounted d row c₁ c₂ habit).timerArray = x.timerArray := by
  have hreload : ∀ (y : Screen) c, y.timerArray.length ≤ 1 →
      (y.cellForItemAt row c).timers = y.timers ∧
        (y.cellForItemAt row c).timerArray = y.timerArray := by
    intro y c hy
    rw [cellForItemAt_timers, cellForItemAt_timerArray, invalidateAll_of_le y hy]
    exact ⟨rfl, rfl⟩
  by_cases hcount : habit.currentCount < habit.goal
  · rw [tapCounted_of_lt x row hcount]
    obtain ⟨htimers, harray⟩ := hreload (x.countUp row habit.incremented) c₁ h
    have hlen := (congrArg List.length harray).trans_le h
    obtain ⟨htimers', harray'⟩ := hreload
      (((x.countUp row habit.incremented).cellForItemAt row c₁).completeCounted d row
        habit.incremented) c₂ (by rwa [completeCounted_timerArray])
    rw [htimers', harray', completeCounted_timers, completeCounted_timerArray, htimers, harray]
    exact ⟨rfl, rfl⟩
  · rw [tapCounted_of_not_lt x row hcount]
    obtain ⟨htimers, harray⟩ := hreload (x.completeCounted d row habit) c₂
      (by rwa [completeCounted_timerArray])
    rw [htimers, harray, completeCounted_timers, completeCounted_timerArray]
    exact ⟨rfl, rfl⟩

theorem timers_invalidateAll (h : Scheduled x) (hlen : 1 < x.timerArray.length) :
    x.invalidateAll.timers = [] := by
  rw [invalidateAll, if_pos hlen]
  exact List.filter_eq_nil_iff.mpr fun t ht => by simpa using h.mem t ht

/-- The last reload of a tap stops every timer, or an earlier one has. -/
theorem timers_tapCounted_of_lt (h : Scheduled x) (hlen : 1 < x.timerArray.length) :
    (x.tapCounted d row c₁ c₂ habit).timers = [] := by
  have hnil : ∀ {y z : Screen}, Keeps y z → y.timers = [] → z.timers = [] := by
    intro y z hkeeps hy
    exact List.eq_nil_iff_forall_not_mem.mpr fun t ht => by
      have := hkeeps.timers t ht
      rw [hy] at this
      contradiction
  by_cases hcount : habit.currentCount < habit.goal
  · rw [tapCounted_of_lt x row hcount]
    refine hnil ((keeps_completeCounted _ d row _).trans (keeps_cellForItemAt _ c₂ row)) ?_
    rw [cellForItemAt_timers]
    exact timers_invalidateAll (h.keeps (keeps_session x _)) hlen
  · rw [tapCounted_of_not_lt x row hcount, cellForItemAt_timers]
    refine timers_invalidateAll (h.keeps (keeps_completeCounted x d row habit)) ?_
    rwa [completeCounted_timerArray]

theorem cells_tapCounted (hd : c ≠ d) (h₁ : c₁ ≠ c) (h₂ : c₂ ≠ c) :
    (x.tapCounted d row c₁ c₂ habit).cells c = x.cells c := by
  by_cases hcount : habit.currentCount < habit.goal
  · rw [tapCounted_of_lt x row hcount, cellForItemAt_of_ne _ _ _ h₂.symm,
      completeCounted_of_ne _ _ _ _ hd, cellForItemAt_of_ne _ _ _ h₁.symm]
    rfl
  · rw [tapCounted_of_not_lt x row hcount, cellForItemAt_of_ne _ _ _ h₂.symm,
      completeCounted_of_ne _ _ _ _ hd]

theorem cellForItem_tapCounted (hr : r ≠ row) :
    (x.tapCounted d row c₁ c₂ habit).cellForItem r = x.cellForItem r := by
  have hcomplete : ∀ (y : Screen) habit,
      (y.completeCounted d row habit).cellForItem r = y.cellForItem r := by
    intro y habit
    rw [cellForItem, cellForItem, completeCounted_shown]
  by_cases hcount : habit.currentCount < habit.goal
  · rw [tapCounted_of_lt x row hcount, cellForItem_cellForItemAt _ _ _ hr, hcomplete,
      cellForItem_cellForItemAt _ _ _ hr]
    rfl
  · rw [tapCounted_of_not_lt x row hcount, cellForItem_cellForItemAt _ _ _ hr, hcomplete]

end Tap

variable {x : Screen} {r c : Nat} {e : ScreenEvent}

/-- An accepted tap is counted, on an object other than the one that shows
the row `r`. -/
theorem otherTap_step (hlaid : Laid x) (hshown : x.cellForItem r = some c) (h : OtherTap r c x e) :
    ∃ d row c₁ c₂ habit, x.step e = x.saveDay.tapCounted d row c₁ c₂ habit ∧
      r ≠ row ∧ c ≠ d ∧ c₁ ≠ c ∧ c₂ ≠ c := by
  cases e with
  | didSelectItemAt row c₁ c₂ =>
    obtain ⟨hrunning, hrow, ⟨hfree₁, h₁⟩, ⟨hfree₂, h₂⟩, d, habit, hd, hmenu, hhabit, hadd,
      hcounted⟩ := h
    refine ⟨d, row, c₁, c₂, habit, ?_, hrow.symm, fun hcd => hrow ?_, h₁, h₂⟩
    · simp [step, hrunning, handle, hfree₁, hfree₂, didSelectItemAt, saveDay, hd, hmenu, hhabit,
        hadd, hcounted]
    · have hmem := hlaid.row _ (mem_of_cellForItem hd) _ (mem_of_cellForItem hshown) hcd.symm
      exact congrArg Prod.fst hmem
  | _ => exact absurd h id

/-- What the taps leave of the screen `x`. -/
structure Spared (c : Nat) (x y : Screen) : Prop where
  timers : y.timers = x.timers
  timerArray : y.timerArray = x.timerArray
  cell : y.cells c = x.cells c

/-- While `timerArray` holds one timer, no tap disturbs the countdown. -/
theorem spared_step (hlaid : Laid x) (hshown : x.cellForItem r = some c)
    (hlen : x.timerArray.length ≤ 1) (h : OtherTap r c x e) :
    Spared c x (x.step e) ∧ (x.step e).cellForItem r = some c := by
  obtain ⟨d, row, c₁, c₂, habit, hstep, hrow, hd, h₁, h₂⟩ := otherTap_step hlaid hshown h
  rw [hstep]
  have hkept : (x.saveDay.tapCounted d row c₁ c₂ habit).timers = x.timers ∧
      (x.saveDay.tapCounted d row c₁ c₂ habit).timerArray = x.timerArray := timers_tapCounted hlen
  obtain ⟨htimers, harray⟩ := hkept
  refine ⟨⟨htimers, harray, cells_tapCounted hd h₁ h₂⟩, ?_⟩
  rw [cellForItem_tapCounted hrow]
  exact hshown

theorem spared_run {es : List ScreenEvent} (hlaid : Laid x) (hshown : x.cellForItem r = some c)
    (hlen : x.timerArray.length ≤ 1) (hes : Runs.Guarded step (OtherTap r c) x es) :
    Spared c x (x.run es) := by
  have hinv := Runs.run_invariant
    (I := fun y => Laid y ∧ y.cellForItem r = some c ∧ Spared c x y)
    (fun y e hy he => ?_) hes ⟨hlaid, hshown, rfl, rfl, rfl⟩
  · exact hinv.2.2
  · obtain ⟨hlaid, hshown, hspared⟩ := hy
    obtain ⟨hnext, hshown'⟩ := spared_step hlaid hshown (by rwa [hspared.timerArray]) he
    exact ⟨hlaid.step e, hshown', hnext.timers.trans hspared.timers,
      hnext.timerArray.trans hspared.timerArray, hnext.cell.trans hspared.cell⟩

/-- With two timers in `timerArray`, the first tap stops them all. -/
theorem timers_run {es : List ScreenEvent} (hsched : Scheduled x) (hlaid : Laid x)
    (hshown : x.cellForItem r = some c) (hlen : 1 < x.timerArray.length) (hne : es ≠ [])
    (hes : Runs.Guarded step (OtherTap r c) x es) : (x.run es).timers = [] := by
  obtain _ | ⟨e, es⟩ := es
  · contradiction
  obtain ⟨he, hes⟩ := hes
  have hfirst : (x.step e).timers = [] := by
    obtain ⟨d, row, c₁, c₂, habit, hstep, _⟩ := otherTap_step hlaid hshown he
    rw [hstep]
    exact timers_tapCounted_of_lt (hsched.keeps (keeps_session x _)) hlen
  rw [Screen.run, Runs.run_cons]
  refine Runs.run_invariant (I := fun y : Screen => y.timers = []) (fun y e hy he => ?_) hes hfirst
  cases e with
  | didSelectItemAt row c₁ c₂ =>
    have hkeeps : Keeps y (y.step (.didSelectItemAt row c₁ c₂)) := by
      rw [step, if_pos he.1]
      exact keeps_handle y (by simp) (by simp)
    exact List.eq_nil_iff_forall_not_mem.mpr fun t ht => by
      have := hkeeps.timers t ht
      rw [hy] at this
      contradiction
  | _ => exact absurd he id

/-- From every reachable screen on which the cell of row `r` counts down, a
run of accepted taps on other rows leaves the countdown running with its
time exactly when there is no tap or `timerArray` holds one timer. -/
theorem countdown_kept_iff (st : Store) (fs es : List ScreenEvent) {r c : Nat}
    (hshown : ((launched st).run fs).cellForItem r = some c)
    (hlive : Live c ((launched st).run fs))
    (hes : Runs.Guarded step (OtherTap r c) ((launched st).run fs) es) :
    (Live c (((launched st).run fs).run es) ∧
        ((((launched st).run fs).run es).cells c).time = (((launched st).run fs).cells c).time) ↔
      es = [] ∨ ((launched st).run fs).timerArray.length ≤ 1 := by
  have hsched := scheduled_run st fs
  have hlaid := laid_run st fs
  generalize (launched st).run fs = x at *
  constructor
  · rintro ⟨hlive', _⟩
    by_contra hnot
    rw [not_or, not_le] at hnot
    obtain ⟨t, ht, _⟩ := hlive'
    rw [timers_run hsched hlaid hshown hnot.2 hnot.1 hes] at ht
    contradiction
  · rintro (rfl | hlen)
    · exact ⟨hlive, rfl⟩
    · have hspared := spared_run hlaid hshown hlen hes
      refine ⟨?_, congrArg Cell.time hspared.cell⟩
      obtain ⟨t, ht, hc⟩ := hlive
      exact ⟨t, by rwa [hspared.timers], hc⟩

/-- Two countdowns are running.  A tap on the counted habit stops both. -/
theorem tap_stops_countdowns :
    let fs := loads 3 ++ [.didSelectItemAt 0 0 0, .didSelectItemAt 1 1 1] ++ arrivals 4 2
    let x := (launched (.ofEntries account)).run fs
    x.cellForItem 0 = some 0 ∧ Live 0 x ∧ OtherTap 0 0 x (.didSelectItemAt 2 2 2) ∧
      ¬(Live 0 (x.run [.didSelectItemAt 2 2 2]) ∧
        ((x.run [.didSelectItemAt 2 2 2]).cells 0).time = (x.cells 0).time) := by
  refine ⟨by decide +kernel, by decide +kernel, ?_, by decide +kernel⟩
  exact ⟨by decide +kernel, by decide, ⟨by decide +kernel, by decide⟩,
    ⟨by decide +kernel, by decide⟩, 2, _, by decide +kernel, by decide +kernel, rfl,
    by decide +kernel, by decide +kernel⟩

/-- One countdown is running. -/
theorem countdown_kept_iff_single :
    let fs := loads 3 ++ [.didSelectItemAt 0 0 0] ++ arrivals 3 1
    let x := (launched (.ofEntries account)).run fs
    (Live 0 (x.run [.didSelectItemAt 2 2 2]) ∧
        ((x.run [.didSelectItemAt 2 2 2]).cells 0).time = (x.cells 0).time) ↔
      ([.didSelectItemAt 2 2 2] : List ScreenEvent) = [] ∨ x.timerArray.length ≤ 1 := by
  refine countdown_kept_iff (.ofEntries account) _ [.didSelectItemAt 2 2 2] (r := 0) (c := 0)
    (by decide +kernel) (by decide +kernel) ⟨?_, trivial⟩
  exact ⟨by decide +kernel, by decide, ⟨by decide +kernel, by decide⟩,
    ⟨by decide +kernel, by decide⟩, 2, _, by decide +kernel, by decide +kernel, rfl,
    by decide +kernel, by decide +kernel⟩

end HabitHive.Screen
