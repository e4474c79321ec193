import HabitHive.Model.Screen

/-!
# `SetTimeViewController`

A time picker and the array that it hands to the form that presented it.
A create form presents it with an empty array and an edit form with the time
of its habit; `viewDidLoad` appends six entries to either.  Moving the
picker brings the hour and the minute of `HHmm`, whose digits replace the
array.  The duration that the picker of an edit shows first is left out,
since it changes no array.

`App` is the list screen with the pickers that were presented.  A picker is
named by its position, and keeps its place after it was dismissed.

`moved` and `unmoved` are not in the source.  They say whether a picker was
moved, and which edit forms hold a time that was confirmed last in a picker
that was not.
-/

namespace HabitHive

/-- The form that a picker reports to. -/
inductive SetTimeDelegate where
  | create (c : Nat)
  | edit (e : Nat)
  deriving DecidableEq, Repr

structure SetTime where
  timeArray : List Int := []
  timeDelegate : SetTimeDelegate
  moved : Bool := false
  deriving DecidableEq, Repr

namespace SetTime

def fillArray (p : SetTime) : SetTime :=
  { p with timeArray := p.timeArray ++ [0, 0, 0, 1, 0, 0] }

def viewDidLoad (p : SetTime) : SetTime := p.fillArray

/-- The digits of `HHmm`, and two zeros for the seconds. -/
def timePickerValue (hour : Fin 24) (minute : Fin 60) (p : SetTime) : SetTime :=
  { p with
    timeArray := [(hour.val / 10 : Nat), (hour.val % 10 : Nat), (minute.val / 10 : Nat),
      (minute.val % 10 : Nat), 0, 0]
    moved := true }

end SetTime

structure App where
  screen : Screen
  pickers : List SetTime := []
  unmoved : Nat → Bool := fun _ => false

/-- What can happen.  `screen` stands for the events of the screen, of which
`createTime` and `editTime` only happen when a picker is confirmed. -/
inductive AppEvent where
  | screen (e : ScreenEvent)
  | createTimedButtonTapped (c : Nat)
  | editTimedButtonTapped (e : Nat)
  | timePickerValue (i : Nat) (hour : Fin 24) (minute : Fin 60)
  | confirmButton (i : Nat)
  deriving DecidableEq, Repr

/-- The event hands a time to a form. -/
def Event.confirmsTime : Event → Bool
  | .createTime .. | .editTime .. => true
  | _ => false

namespace App

/-- The app on the given documents, with nothing loaded. -/
def launched (st : Store) : App := { screen := Screen.launched st }

/-- An event of the screen.  A launch starts without pickers. -/
def screenEvent (e : ScreenEvent) (a : App) : App :=
  match e with
  | .session e =>
    if e = .relaunch then { screen := a.screen.step (.session e) }
    else if e.confirmsTime then a
    else { a with screen := a.screen.step (.session e) }
  | e => { a with screen := a.screen.step e }

/-- `CreateHabitViewController.timedButtonTapped`. -/
def createTimedButtonTapped (c : Nat) (a : App) : App :=
  match a.screen.session.creating[c]? with
  | none => a
  | some _ =>
    { a with pickers := a.pickers ++ [SetTime.viewDidLoad { timeDelegate := .create c }] }

/-- `EditHabitViewController.timedButtonTapped`. -/
def editTimedButtonTapped (e : Nat) (a : App) : App :=
  match a.screen.session.editing[e]? with
  | none => a
  | some form =>
    { a with
      pickers := a.pickers ++
        [SetTime.viewDidLoad { timeArray := form.habit.time, timeDelegate := .edit e }] }

def timePickerValue (i : Nat) (hour : Fin 24) (minute : Fin 60) (a : App) : App :=
  { a with pickers := a.pickers.modify i (·.timePickerValue hour minute) }

/-- `confirmButton` calls `didTapConfirmTime` of the form, if it exists. -/
def confirmButton (i : Nat) (a : App) : App :=
  match a.pickers[i]? with
  | none => a
  | some p =>
    match p.timeDelegate with
    | .create c => { a with screen := a.screen.step (.session (.createTime c p.timeArray)) }
    | .edit e =>
      if e < a.screen.session.editing.length then
        { a with
          screen := a.screen.step (.session (.editTime e p.timeArray))
          unmoved := Function.update a.unmoved e (!p.moved) }
      else a

/-- One event of a process that has not ended. -/
def handle (a : App) : AppEvent → App
  | .screen e => a.screenEvent e
  | .createTimedButtonTapped c => a.createTimedButtonTapped c
  | .editTimedButtonTapped e => a.editTimedButtonTapped e
  | .timePickerValue i hour minute => a.timePickerValue i hour minute
  | .confirmButton i => a.confirmButton i

def step (a : App) (e : AppEvent) : App :=
  if a.screen.session.crashed = none then a.handle e
  else if e = .screen (.session .relaunch) then a.screenEvent (.session .relaunch)
  else a

abbrev run (a : App) (es : List AppEvent) : App := Runs.run step a es

end App

end HabitHive
