import HabitHive.Model.Cell

/-!
# The labels of a cell that show a time

`habitCountLabel` and `timerLabel` of `HabitCollectionViewCell`, and what
its methods write to them.  Both `Action` and `setTimerLabels` branch on
the size of hour, minute and second by hand, and `configure` prints the six
entries of the original time of a habit that is finished.

No other part of the program reads the labels, so they are kept apart from
the cell.
-/

namespace HabitHive

/-- The texts of `habitCountLabel` and `timerLabel`. -/
structure Labels where
  habitCountLabel : String := ""
  timerLabel : String := ""
  deriving DecidableEq, Repr

namespace Cell

/-- `setTimerLabels`. -/
def setTimerLabels (cell : Cell) : Labels :=
  let hour := cell.timeDisplayedHour
  let minute := cell.timeDisplayedMinute
  let second := cell.timeDisplayedSecond
  if hour < 10 then
    if minute < 10 then
      if second < 10 then
        { habitCountLabel := s!"0{hour}:0{minute}:0{second}"
          timerLabel := s!"0{hour}:0{minute}:0{second}" }
      else
        { habitCountLabel := s!"0{hour}:0{minute}:{second}"
          timerLabel := s!"0{hour}:0{minute}:{second}" }
    else
      if second < 10 then
        { habitCountLabel := s!"0{hour}:{minute}:0{second}"
          timerLabel := s!"0{hour}:{minute}:0{second}" }
      else
        { habitCountLabel := s!"0{hour}:{minute}:{second}"
          timerLabel := s!"0{hour}:{minute}:{second}" }
  else
    if minute < 10 then
      if second < 10 then
        { habitCountLabel := s!"{hour}:0{minute}:0{second}"
          timerLabel := s!"{hour}:0{minute}:0{second}" }
      else
        { habitCountLabel := s!"{hour}:0{minute}:{second}"
          timerLabel := s!"{hour}:0{minute}:{second}" }
    else
      if second < 10 then
        { habitCountLabel := s!"{hour}:{minute}:0{second}"
          timerLabel := s!"{hour}:{minute}:0{second}" }
      else
        { habitCountLabel := s!"{hour}:{minute}:{second}"
          timerLabel := s!"{hour}:{minute}:{second}" }

/-- What `Action` does to the labels.  It writes them once it has counted
down; with no time left it leaves them to `configure`, through
`showAlert`. -/
def actionLabels (cell : Cell) (labels : Labels) : Labels :=
  if cell.atZero then labels
  else
    let hour := cell.countDown.timeDisplayedHour
    let minute := cell.countDown.timeDisplayedMinute
    let second := cell.countDown.timeDisplayedSecond
    if hour < 10 then
      if minute < 10 then
        if second < 10 then
          { habitCountLabel := s!"0{hour}:0{minute}:0{second}"
            timerLabel := s!"0{hour}:0{minute}:0{second}" }
        else
          { habitCountLabel := s!"0{hour}:0{minute}:{second}"
            timerLabel := s!"0{hour}:0{minute}:{second}" }
      else
        if second < 10 then
          { habitCountLabel := s!"0{hour}:{minute}:0{second}"
            timerLabel := s!"0{hour}:{minute}:0{second}" }
        else
          { habitCountLabel := s!"0{hour}:{minute}:{second}"
            timerLabel := s!"0{hour}:{minute}:{second}" }
    else
      if minute < 10 then
        if second < 10 then
          { habitCountLabel := s!"{hour}:0{minute}:0{second}"
            timerLabel := s!"{hour}:0{minute}:0{second}" }
        else
          { habitCountLabel := s!"{hour}:0{minute}:{second}"
            timerLabel := s!"{hour}:0{minute}:{second}" }
      else
        if second < 10 then
          { habitCountLabel := s!"{hour}:{minute}:0{second}"
            timerLabel := s!"{hour}:{minute}:0{second}" }
        else
          { habitCountLabel := s!"{hour}:{minute}:{second}"
            timerLabel := s!"{hour}:{minute}:{second}" }

/-- What `configure` does to the labels before it reads a time.  It ends the
process where an entry of `originalTimerArray` does not exist. -/
def configureLabels (cell : Cell) (habit : Habit) (labels : Labels) : Option Labels :=
  let count := habit.currentCount
  let goal := habit.goal
  let labels := { labels with habitCountLabel := s!"{count}/{goal}" }
  if habit.addFirebase then
    if habit.counted then some { labels with habitCountLabel := s!"{count}/{goal}" }
    else some labels
  else if habit.counted = false then
    match cell.originalTimerArray with
    | h0 :: h1 :: m0 :: m1 :: s0 :: s1 :: _ =>
        some { labels with habitCountLabel := s!"{h0}{h1}:{m0}{m1}:{s0}{s1}" }
    | _ => none
  else some labels

end Cell

end HabitHive
