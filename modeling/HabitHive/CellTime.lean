import HabitHive.Cells
import HabitHive.Lib.Digits

/-!
# The time of a cell

A stored time is six digits, which `fetchTimeFromFirebase` reads as hour,
minute and second, and `createTimeArray` splits again.  What was split is
read back as it was, for all integers.

A tick takes at most one second, and exactly one from a time without
negative parts.  The ticks that are observed as alerts are those that finish
the habit (`alerts_iff`).
-/

namespace HabitHive

/-- The time that `fetchTimeFromFirebase` makes of an array. -/
def arrayTime : List Int → Option (Int × Int × Int)
  | a₀ :: a₁ :: a₂ :: a₃ :: a₄ :: a₅ :: _ => some (a₀ * 10 + a₁, a₂ * 10 + a₃, a₄ * 10 + a₅)
  | _ => none

/-- Six digits that are the split of the time they are read as. -/
def Canonical : List Int → Prop
  | [a₀, a₁, a₂, a₃, a₄, a₅] => Digits.Split 10 a₀ a₁ ∧ Digits.Split 10 a₂ a₃ ∧
      Digits.Split 10 a₄ a₅
  | _ => False

instance : DecidablePred Canonical
  | [a₀, a₁, a₂, a₃, a₄, a₅] =>
      inferInstanceAs (Decidable (Digits.Split 10 a₀ a₁ ∧ Digits.Split 10 a₂ a₃ ∧
        Digits.Split 10 a₄ a₅))
  | [] | [_] | [_, _] | [_, _, _] | [_, _, _, _] | [_, _, _, _, _]
  | _ :: _ :: _ :: _ :: _ :: _ :: _ :: _ => inferInstanceAs (Decidable False)

/-- The time that document `r` stores. -/
def Store.storedTime (st : Store) (r : Nat) : Option (Int × Int × Int) :=
  ((st.habits r).bind (·.fields.timeArray)).bind arrayTime

/-- The length of a time. -/
def seconds (time : Int × Int × Int) : Int := 3600 * time.1 + 60 * time.2.1 + time.2.2

/-- No part of a time is negative. -/
def NonNeg (time : Int × Int × Int) : Prop := 0 ≤ time.1 ∧ 0 ≤ time.2.1 ∧ 0 ≤ time.2.2

namespace Cell

variable (cell : Cell)

theorem readTime_eq (result : List Int) :
    cell.readTime result = (arrayTime result).map fun time =>
      Screen.timed time.1 time.2.1 time.2.2 cell.timeIdent cell := by
  rcases result with _ | ⟨_, _ | ⟨_, _ | ⟨_, _ | ⟨_, _ | ⟨_, _ | ⟨_, _⟩⟩⟩⟩⟩⟩ <;> rfl

@[simp] theorem time_timed (time : Int × Int × Int) (ident : Option Nat) :
    (Screen.timed time.1 time.2.1 time.2.2 ident cell).time = time := rfl

/-- A time that was split is read back. -/
@[simp] theorem arrayTime_createdArray : arrayTime cell.createdArray = some cell.time := by
  simp [createdArray, arrayTime, time, Int.tdiv_mul_add_tmod]

/-- An array that is read as the time of the cell is the one that the cell
splits its time into, if it is a split. -/
theorem createdArray_eq_iff (result : List Int) :
    cell.createdArray = result ↔ arrayTime result = some cell.time ∧ Canonical result := by
  rcases result with _ | ⟨a₀, _ | ⟨a₁, _ | ⟨a₂, _ | ⟨a₃, _ | ⟨a₄, _ | ⟨a₅, _ | ⟨a₆, rest⟩⟩⟩⟩⟩⟩⟩
  case cons.cons.cons.cons.cons.cons.nil =>
    have hhour := Digits.split_iff (n := cell.timeDisplayedHour) (a := a₀) (b := a₁)
      (show 0 < 10 by decide)
    have hminute := Digits.split_iff (n := cell.timeDisplayedMinute) (a := a₂) (b := a₃)
      (show 0 < 10 by decide)
    have hsecond := Digits.split_iff (n := cell.timeDisplayedSecond) (a := a₄) (b := a₅)
      (show 0 < 10 by decide)
    push_cast at hhour hminute hsecond
    simp only [createdArray, arrayTime, Canonical, time, List.cons.injEq, Option.some.injEq,
      Prod.mk.injEq]
    constructor
    · rintro ⟨h₀, h₁, h₂, h₃, h₄, h₅, _⟩
      have hh := hhour.mp ⟨h₀, h₁⟩
      have hm := hminute.mp ⟨h₂, h₃⟩
      have hs := hsecond.mp ⟨h₄, h₅⟩
      exact ⟨⟨hh.1, hm.1, hs.1⟩, hh.2, hm.2, hs.2⟩
    · rintro ⟨⟨hh, hm, hs⟩, splitHour, splitMinute, splitSecond⟩
      obtain ⟨h₀, h₁⟩ := hhour.mpr ⟨hh, splitHour⟩
      obtain ⟨h₂, h₃⟩ := hminute.mpr ⟨hm, splitMinute⟩
      obtain ⟨h₄, h₅⟩ := hsecond.mpr ⟨hs, splitSecond⟩
      exact ⟨h₀, h₁, h₂, h₃, h₄, h₅, trivial⟩
  all_goals simp [createdArray, Canonical]

theorem atZero_iff : cell.atZero = true ↔ cell.time = (0, 0, 0) := by
  simp [atZero, time, and_assoc]

theorem seconds_of_atZero (h : cell.atZero = true) : seconds cell.time = 0 := by
  rw [(atZero_iff cell).mp h]
  rfl

/-- A tick takes one second from a time without negative parts. -/
theorem seconds_countDown (hnonneg : NonNeg cell.time) (hpos : cell.atZero = false) :
    NonNeg cell.countDown.time ∧ seconds cell.countDown.time = seconds cell.time - 1 := by
  obtain ⟨hhour, hminute, hsecond⟩ := hnonneg
  simp only [atZero, Bool.and_eq_false_iff, decide_eq_false_iff_not] at hpos
  simp only [time] at hhour hminute hsecond
  unfold countDown borrowHour borrowMinute
  split_ifs <;> simp only [NonNeg, seconds, time] at * <;> omega

/-- Whatever the time is, a tick takes no more than one second. -/
theorem seconds_countDown_ge : seconds cell.time - 1 ≤ seconds cell.countDown.time := by
  unfold countDown borrowHour borrowMinute
  split_ifs <;> simp only [seconds, time] at * <;> omega

/-- A tick shows the alert. -/
def alerts : Bool := cell.atZero && cell.indexPathCell.isSome

end Cell

namespace Screen

variable (x : Screen) (c row : Nat)

/-! ## Ticks -/

/-- The ticks of a cell, each with whether it shows the alert. -/
def ticked (c : Nat) (x : Screen) : ScreenEvent → List Bool
  | .tick id =>
    if x.session.crashed = none then
      match x.timers.find? fun t => t.id = id with
      | some t => if t.cell = c then [(x.cells c).alerts] else []
      | none => []
    else []
  | _ => []

/-- A process that has ended takes no step and no tick. -/
theorem run_of_crashed {x : Screen} (h : x.session.crashed ≠ none) {es : List ScreenEvent}
    (hes : ∀ e ∈ es, e ≠ .session .relaunch) :
    x.run es = x ∧ Runs.observe step (ticked c) x es = [] := by
  induction es with
  | nil => exact ⟨rfl, rfl⟩
  | cons e es ih =>
    have hstuck : x.step e = x := by rw [step, if_neg h, if_neg (hes e (by simp))]
    have hnone : ticked c x e = [] := by
      cases e <;> simp [ticked, h]
    simp only [run, Runs.run_cons, Runs.observe_cons, hstuck, hnone, List.nil_append]
    exact ih fun e' he' => hes e' (by simp [he'])

/-- What the alert does not change of its cell. -/
theorem showAlert_view {α : Type} (view : Cell → α)
    (h : ∀ cell habit shown, view (configured shown (alerted habit cell)) = view cell) :
    view ((x.showAlert c row).cells c) = view (x.cells c) := by
  rcases showAlert_cases x c row with ⟨f, hcrash⟩ | ⟨habit, shown, _, _, halert⟩
  · rw [hcrash]
    rfl
  · have hcell : (x.showAlert c row).cells c =
        configured (finished shown) (alerted habit (x.cells c)) := by
      rcases halert with halert | halert <;> rw [halert] <;> simp
    rw [hcell, h]

/-- What a tick with no time left does not change of its cell. -/
theorem action_view_of_zero {α : Type} (view : Cell → α)
    (h : ∀ cell habit shown, view (configured shown (alerted habit cell)) = view cell)
    (hzero : (x.cells c).atZero = true) : view ((x.action c).cells c) = view (x.cells c) := by
  rcases action_of_zero x c hzero with hcrash | ⟨row, _, halert⟩
  · rw [hcrash]
    rfl
  · rw [halert, showAlert_view _ c row view h]
    rfl

theorem showAlert_blocks : (x.showAlert c row).blocks = x.blocks := by
  rcases showAlert_cases x c row with ⟨f, h⟩ | ⟨habit, shown, _, _, h⟩
  · rw [h]
    rfl
  · rcases h with h | h <;> rw [h] <;> simp

/-- The alert, where it does not end the process, finishes the habit at its
row. -/
theorem showAlert_session (hnext : (x.showAlert c row).session.crashed = none) :
    ∃ habit, x.session.habitArray[row]? = some habit ∧
      (x.showAlert c row).session = HabitCollection.showAlert row x.session := by
  cases hrow : x.session.habitArray[row]? with
  | none => simp [showAlert, hrow] at hnext
  | some habit =>
    refine ⟨habit, rfl, ?_⟩
    cases hshown : (x.cells c).habitCell with
    | none => simp [showAlert, hrow, hshown] at hnext
    | some shown =>
      rw [showAlert_of_row x c row hrow hshown] at hnext ⊢
      have hconfigured : ((x.setCell c (alerted habit (x.cells c))).configure c
          (finished shown)).session.crashed = none := by
        by_contra hcrashed
        rw [if_neg hcrashed] at hnext
        exact hcrashed hnext
      rw [if_pos hconfigured]
      rcases configure_cases (x.setCell c (alerted habit (x.cells c))) c (finished shown) with
        ⟨_, h⟩ | ⟨_, _, _, _, h⟩ | ⟨f, h⟩
      · rw [h]
        rfl
      · rw [h]
        rfl
      · rw [h] at hconfigured
        simp at hconfigured

/-- Where the process goes on, the ticks that are observed as alerts are
those that finish the habit at the row of the cell, in the list and in its
document. -/
theorem alerts_iff (hnext : (x.action c).session.crashed = none) :
    (x.cells c).alerts = true ↔
      ∃ row habit, (x.cells c).indexPathCell = some row ∧
        x.session.habitArray[row]? = some habit ∧
        (x.action c).session = HabitCollection.showAlert row x.session := by
  constructor
  · intro halerts
    obtain ⟨hzero, hindex⟩ := Bool.and_eq_true_iff.mp halerts
    obtain ⟨row, hindex⟩ := Option.isSome_iff_exists.mp hindex
    have haction : x.action c = (x.invalidate (x.cells c).timer.toList).showAlert c row := by
      simp [action, hzero, hindex]
    rw [haction] at hnext ⊢
    obtain ⟨habit, hrow, hsession⟩ := showAlert_session _ c row hnext
    exact ⟨row, habit, hindex, hrow, hsession⟩
  · rintro ⟨row, habit, hindex, hrow, hsession⟩
    by_contra hnot
    have hpos : (x.cells c).atZero = false := by
      simpa [Cell.alerts, hindex] using hnot
    -- no other tick writes
    have hjournal := congrArg State.journal hsession
    rw [action_of_pos x c hpos] at hjournal
    simp [HabitCollection.showAlert, hrow] at hjournal

/-- The time after a tick. -/
theorem action_time :
    ((x.action c).cells c).time =
      if (x.cells c).atZero then (x.cells c).time else (x.cells c).countDown.time := by
  cases hzero : (x.cells c).atZero with
  | true => exact action_view_of_zero x c Cell.time (fun _ _ _ => rfl) hzero
  | false =>
    rw [action_of_pos x c hzero, setCell_cells, Function.update_self]
    rfl

theorem action_counted : ((x.action c).cells c).counted = (x.cells c).counted := by
  cases hzero : (x.cells c).atZero with
  | true => exact action_view_of_zero x c Cell.counted (fun _ _ _ => rfl) hzero
  | false =>
    obtain ⟨hour, minute, second, hcell⟩ := countDown_timed (x.cells c)
    rw [action_of_pos x c hzero, setCell_cells, Function.update_self, hcell]
    rfl

/-- A tap on a timed habit with its menu closed starts the countdown, or
stops it. -/
theorem tap_timed {c₁ c₂ : Nat} {habit : Habit} (hrunning : x.session.crashed = none)
    (hfree : x.Free row c₁ ∧ x.Free row c₂) (hshown : x.cellForItem row = some c)
    (hrow : x.session.habitArray[row]? = some habit) (htimed : habit.counted = false)
    (hadd : habit.addFirebase = true) (hmenu : (x.cells c).deleteButtonHidden = true) :
    x.step (.didSelectItemAt row c₁ c₂) =
      x.saveDay.startCountdown c row !(x.cells c).startVar := by
  have htap : x.Tap row c₁ c₂ c habit _ := didSelectItemAt_tap x row hshown hrow
  rw [step, if_pos hrunning, handle, if_pos hfree]
  generalize x.didSelectItemAt row c₁ c₂ = y at htap
  cases htap with
  | start _ _ _ hstart => rw [hstart]; rfl
  | stop _ _ _ hstart => rw [hstart]; rfl
  | _ => simp_all

theorem action_blocks : (x.action c).blocks = x.blocks :=
  rel_action (R := fun x y => y.blocks = x.blocks) x c (fun h h' => h'.trans h) (fun _ _ => rfl)
    (fun _ _ _ => rfl) (fun _ _ => rfl) fun x row => showAlert_blocks x c row

end Screen

end HabitHive
