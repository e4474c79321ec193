import HabitHive.Model.SetTime

/-!
# `SetAmountViewController` and the color buttons

An amount picker is a stepper and a label.  The storyboard gives the stepper
the values 0 to 100, in steps of one, and 10 to start with.  A press changes
the value at once; `step` runs when the finger is lifted inside the stepper,
so that the label can lag behind.

An edit form presents the picker with the goal that its habit had when the
form was opened.  The value is a `Double` in the source, and a goal is a
whole number that is cut to the values of the stepper.

`Controls` is the app with the amount pickers that were presented, and with
the color buttons of the two forms.  It is what the user can do: amounts and
colors come from these controls only.
-/

namespace HabitHive

/-- The six color buttons of the forms. -/
inductive ColorButton where
  | blueButtonPressed
  | greenButtonPressed
  | yellowButtonPressed
  | orangeButtonPressed
  | purpleButtonPressed
  | grayButtonPressed
  deriving DecidableEq, Repr

/-- The value that the button saves in `UserDefaults`. -/
def ColorButton.sectionColor : ColorButton → Int
  | .blueButtonPressed => 1
  | .greenButtonPressed => 2
  | .yellowButtonPressed => 3
  | .orangeButtonPressed => 4
  | .purpleButtonPressed => 5
  | .grayButtonPressed => 6

/-- The form that an amount picker reports to. -/
inductive SetAmountDelegate where
  | create (c : Nat)
  | edit (e : Nat)
  deriving DecidableEq, Repr

structure SetAmount where
  stepperValue : Int := 10
  amountLabel : Int := 10
  amountDelegate : SetAmountDelegate
  deriving DecidableEq, Repr

namespace SetAmount

/-- The setter of `stepper.value`. -/
def setValue (value : Int) (p : SetAmount) : SetAmount :=
  { p with stepperValue := max 0 (min value 100) }

/-- `amountLabel.text = String(Int(stepper.value))`. -/
def step (p : SetAmount) : SetAmount := { p with amountLabel := p.stepperValue }

/-- A press on plus or minus. -/
def valueChanged (up : Bool) (p : SetAmount) : SetAmount :=
  p.setValue (if up then p.stepperValue + 1 else p.stepperValue - 1)

/-- `viewDidLoad`; `value` is given by an edit form, whose label shows it as
it is. -/
def viewDidLoad (value : Option Int) (p : SetAmount) : SetAmount :=
  match value with
  | none => p
  | some value => { p.setValue value with amountLabel := value }

end SetAmount

structure Controls where
  app : App
  amounts : List SetAmount := []

/-- What the user and the environment can do.  `app` stands for the events
of the app, of which those that enter an amount or a color only happen
through a control. -/
inductive ControlsEvent where
  | app (e : AppEvent)
  | colorButton (color : ColorButton)
  | createCountedButtonTapped (c : Nat)
  | editCountedButtonTapped (e : Nat)
  | valueChanged (i : Nat) (up : Bool)
  | step (i : Nat)
  | confirmButtonTapped (i : Nat)
  deriving DecidableEq, Repr

/-- The event enters an amount or a color. -/
def Event.isControl : Event → Bool
  | .createAmount .. | .editAmount .. | .sectionColor _ => true
  | _ => false

namespace Controls

/-- The app on the given documents, with nothing loaded. -/
def launched (st : Store) : Controls := { app := App.launched st }

/-- An event of the session that a control stands for. -/
def session (e : Event) (a : Controls) : Controls :=
  { a with app := a.app.step (.screen (.session e)) }

/-- An event of the app.  A launch starts without pickers. -/
def appEvent (e : AppEvent) (a : Controls) : Controls :=
  match e with
  | .screen (.session e) =>
    if e = .relaunch then { app := a.app.step (.screen (.session .relaunch)) }
    else if e.isControl then a
    else a.session e
  | e => { a with app := a.app.step e }

/-- `CreateHabitViewController.countedButtonTapped`. -/
def createCountedButtonTapped (c : Nat) (a : Controls) : Controls :=
  match a.app.screen.session.creating[c]? with
  | none => a
  | some _ =>
    { a with amounts := a.amounts ++ [SetAmount.viewDidLoad none { amountDelegate := .create c }] }

/-- `EditHabitViewController.countedButtonTapped`. -/
def editCountedButtonTapped (e : Nat) (a : Controls) : Controls :=
  match a.app.screen.session.editing[e]? with
  | none => a
  | some form =>
    { a with
      amounts := a.amounts ++
        [SetAmount.viewDidLoad (some form.habit.goal) { amountDelegate := .edit e }] }

/-- `confirmButtonTapped` hands the value of the stepper to the form. -/
def confirmButtonTapped (i : Nat) (a : Controls) : Controls :=
  match a.amounts[i]? with
  | none => a
  | some p =>
    match p.amountDelegate with
    | .create c => a.session (.createAmount c p.stepperValue)
    | .edit e => a.session (.editAmount e p.stepperValue)

/-- One event of a process that has not ended. -/
def handle (a : Controls) : ControlsEvent → Controls
  | .app e => a.appEvent e
  | .colorButton color => a.session (.sectionColor color.sectionColor)
  | .createCountedButtonTapped c => a.createCountedButtonTapped c
  | .editCountedButtonTapped e => a.editCountedButtonTapped e
  | .valueChanged i up => { a with amounts := a.amounts.modify i (·.valueChanged up) }
  | .step i => { a with amounts := a.amounts.modify i (·.step) }
  | .confirmButtonTapped i => a.confirmButtonTapped i

def step (a : Controls) (e : ControlsEvent) : Controls :=
  if a.app.screen.session.crashed = none then a.handle e
  else if e = .app (.screen (.session .relaunch)) then a.appEvent (.screen (.session .relaunch))
  else a

abbrev run (a : Controls) (es : List ControlsEvent) : Controls := Runs.run step a es

end Controls

end HabitHive
