import HabitHive.Lib.Decimal
import HabitHive.Model.Labels

/-!
# A time on the labels

Each of the three ways of printing a time prints `Decimal.clock` of its
hour, minute and second, and a clock shows one time only.  The two that
branch on the size of the numbers choose the padding of each number; the
third prints the tens and the last digit, which is the padded number.
-/

namespace HabitHive

/-- Both labels show the same text. -/
def Labels.both (text : String) : Labels where
  habitCountLabel := text
  timerLabel := text

theorem Labels.both_inj {text text' : String} : both text = both text' ↔ text = text' := by
  simp [both]

namespace Cell

theorem toString_natCast (n : Nat) : toString (n : Int) = n.repr := rfl

/-- The test of the branchings chooses the padding. -/
theorem padded_cast (n : Nat) :
    Decimal.padded n =
      if (n : Int) < 10 then "0" ++ toString (n : Int) else toString (n : Int) := by
  rw [toString_natCast, Decimal.padded]
  exact if_congr (by omega) rfl rfl

theorem colon_zero : (":0" : String) = ":" ++ "0" := by decide

variable {cell : Cell} {hour minute second : Nat}

theorem setTimerLabels_eq (htime : cell.time = (↑hour, ↑minute, ↑second)) :
    cell.setTimerLabels = .both (Decimal.clock hour minute second) := by
  obtain ⟨hh, hm, hs⟩ : cell.timeDisplayedHour = hour ∧ cell.timeDisplayedMinute = minute ∧
    cell.timeDisplayedSecond = second := by simpa [time] using htime
  rw [setTimerLabels, Decimal.clock, padded_cast, padded_cast, padded_cast, hh, hm, hs]
  by_cases h : (hour : Int) < 10 <;> by_cases m : (minute : Int) < 10 <;>
    by_cases s : (second : Int) < 10 <;>
    simp only [h, m, s, if_true, if_false, Labels.both, colon_zero, String.append_assoc, toString]

/-- The two branchings are the same. -/
theorem actionLabels_eq (labels : Labels) (hzero : cell.atZero = false) :
    cell.actionLabels labels = cell.countDown.setTimerLabels := by
  rw [actionLabels, if_neg (by simp [hzero])]
  rfl

/-- The digits that `createTimeArray` splits a time into. -/
theorem createdArray_eq (htime : cell.time = (↑hour, ↑minute, ↑second)) :
    cell.createdArray = [↑(hour / 10), ↑(hour % 10), ↑(minute / 10), ↑(minute % 10),
      ↑(second / 10), ↑(second % 10)] := by
  obtain ⟨hh, hm, hs⟩ : cell.timeDisplayedHour = hour ∧ cell.timeDisplayedMinute = minute ∧
    cell.timeDisplayedSecond = second := by simpa [time] using htime
  rw [createdArray, hh, hm, hs]
  rfl

theorem configureLabels_eq {shown : Cell} {habit : Habit} (labels : Labels)
    (hadd : habit.addFirebase = false) (hcounted : habit.counted = false)
    (htime : shown.time = (↑hour, ↑minute, ↑second))
    (horiginal : cell.originalTimerArray = shown.createdArray) :
    cell.configureLabels habit labels =
      some { labels with habitCountLabel := Decimal.clock hour minute second } := by
  rw [createdArray_eq htime] at horiginal
  simp only [configureLabels, hadd, hcounted, horiginal, Bool.false_eq_true, if_false, if_true]
  rw [Decimal.clock, Decimal.padded_eq, Decimal.padded_eq, Decimal.padded_eq]
  simp only [toString_natCast, String.append_assoc]
  rfl

/-- The labels of `setTimerLabels`, of a tick that ends at the same time and
of a finished habit with the array of this time show one text, and another
time has another text. -/
theorem labels_agree {shown ticked finished : Cell} {habit : Habit} (labels : Labels)
    (hshown : shown.time = (↑hour, ↑minute, ↑second)) (hrunning : ticked.atZero = false)
    (hticked : ticked.countDown.time = (↑hour, ↑minute, ↑second))
    (hadd : habit.addFirebase = false) (hcounted : habit.counted = false)
    (hfinished : finished.originalTimerArray = shown.createdArray) :
    ∃ text, shown.setTimerLabels = .both text ∧ ticked.actionLabels labels = .both text ∧
      finished.configureLabels habit labels = some { labels with habitCountLabel := text } ∧
      ∀ (other : Cell) (hour' minute' second' : Nat),
        other.time = (↑hour', ↑minute', ↑second') → other.setTimerLabels = .both text →
        (hour', minute', second') = (hour, minute, second) := by
  refine ⟨Decimal.clock hour minute second, setTimerLabels_eq hshown, ?_,
    configureLabels_eq labels hadd hcounted hshown hfinished, ?_⟩
  · rw [actionLabels_eq labels hrunning, setTimerLabels_eq hticked]
  · intro other hour' minute' second' hother htext
    rw [setTimerLabels_eq hother, Labels.both_inj, Decimal.clock_inj] at htext
    obtain ⟨rfl, rfl, rfl⟩ := htext
    rfl

/-- A cell that holds a time, for examples. -/
def holding (hour minute second : Int) : Cell where
  timeDisplayedHour := hour
  timeDisplayedMinute := minute
  timeDisplayedSecond := second

/-- A tick that takes an hour. -/
theorem labels_agree_borrow :
    ∃ text, (holding 100 59 59).setTimerLabels = .both text ∧
      (holding 101 0 0).actionLabels {} = .both text ∧
      ({ originalTimerArray := (holding 100 59 59).createdArray } : Cell).configureLabels
        { ({ Entry.sample 0 with counted := false }).toHabit 0 0 with addFirebase := false } {} =
          some { habitCountLabel := text } ∧
      ∀ (other : Cell) (hour' minute' second' : Nat),
        other.time = (↑hour', ↑minute', ↑second') → other.setTimerLabels = .both text →
        (hour', minute', second') = (100, 59, 59) :=
  labels_agree {} rfl (by decide) (by decide) rfl rfl rfl

example : (holding 101 0 0).actionLabels {} = .both "100:59:59" := by decide

example : (holding 0 7 30).setTimerLabels = .both "00:07:30" := by decide

end Cell

end HabitHive
