import HabitHive.Model.Step
import Mathlib.Data.Int.Notation

/-!
# `HabitCollectionViewCell`

A cell object and what its methods do to its own fields.  The labels and
the image are left out, since no decision depends on them; of the two
buttons the cell keeps whether they are hidden.  `timeArrayFirebase` is
left out as well: it is set right before its only use.

`timeIdent` is not in the source.  It says which habit the time that the
cell displays was last read for.
-/

namespace HabitHive

structure Cell where
  /-- the timer that was scheduled last; `none` is the initial `Timer()`,
  which is scheduled nowhere -/
  timer : Option Nat := none
  timeDisplayedHour : Int := 0
  timeDisplayedMinute : Int := 0
  timeDisplayedSecond : Int := 0
  startVar : Bool := false
  timeArray : List Int := []
  counted : Option Bool := none
  timerRunning : Option Bool := none
  originalTimerArray : List Int := []
  habitCell : Option Habit := none
  indexPathCell : Option Nat := none
  deleteButtonHidden : Bool := true
  editButtonHidden : Bool := true
  timeIdent : Option Nat := none
  deriving DecidableEq, Repr

namespace Cell

/-- `!(cell.timerRunning ?? false)` of `handleLongPress`. -/
def running (cell : Cell) : Bool := cell.timerRunning.getD false

/-- Hour, minute and second. -/
def time (cell : Cell) : Int × Int × Int :=
  (cell.timeDisplayedHour, cell.timeDisplayedMinute, cell.timeDisplayedSecond)

/-- The test of `Action`. -/
def atZero (cell : Cell) : Bool :=
  cell.timeDisplayedHour = 0 && cell.timeDisplayedMinute = 0 && cell.timeDisplayedSecond = 0

/-- The time of an array that was read.  There is none where one of its six
entries does not exist. -/
def readTime (result : List Int) (cell : Cell) : Option Cell :=
  match result with
  | a₀ :: a₁ :: a₂ :: a₃ :: a₄ :: a₅ :: _ => some { cell with
      timeDisplayedHour := a₀ * 10 + a₁
      timeDisplayedMinute := a₂ * 10 + a₃
      timeDisplayedSecond := a₄ * 10 + a₅ }
  | _ => none

/-- The array that `createTimeArray` builds. -/
def createdArray (cell : Cell) : List Int :=
  [cell.timeDisplayedHour.tdiv 10, cell.timeDisplayedHour.tmod 10,
    cell.timeDisplayedMinute.tdiv 10, cell.timeDisplayedMinute.tmod 10,
    cell.timeDisplayedSecond.tdiv 10, cell.timeDisplayedSecond.tmod 10]

/-- The first test of `Action` when no second is left, which takes a
minute. -/
def borrowMinute (cell : Cell) : Cell :=
  if cell.timeDisplayedMinute > 0 then
    { cell with
      timeDisplayedMinute := cell.timeDisplayedMinute - 1
      timeDisplayedSecond := 59 }
  else cell

/-- The second test, on what the first has left. -/
def borrowHour (cell : Cell) : Cell :=
  if cell.timeDisplayedMinute = 0 ∧ cell.timeDisplayedSecond = 0 then
    if cell.timeDisplayedHour > 0 then
      { cell with
        timeDisplayedHour := cell.timeDisplayedHour - 1
        timeDisplayedMinute := 59
        timeDisplayedSecond := 59 }
    else cell
  else { cell with timeDisplayedSecond := 59 }

/-- `Action` before the time is up. -/
def countDown (cell : Cell) : Cell :=
  if cell.timeDisplayedSecond = 0 then cell.borrowMinute.borrowHour
  else { cell with timeDisplayedSecond := cell.timeDisplayedSecond - 1 }

/-- Show or hide the two buttons of the menu. -/
def setMenu (hidden : Bool) (cell : Cell) : Cell :=
  { cell with deleteButtonHidden := hidden, editButtonHidden := hidden }

end Cell

end HabitHive
