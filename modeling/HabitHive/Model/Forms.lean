import HabitHive.Model.HabitCollection

/-!
# `CreateHabitViewController` and `EditHabitViewController`

The forms are kept in `State.creating` and `State.editing`, and a screen
is named by its position there: a screen that was popped can still have a
callback to run.
-/

namespace HabitHive

namespace CreateHabit

/-- Replace a create form. -/
def setForm (c : Nat) (form : CreateForm) (s : State) : State :=
  { s with creating := s.creating.set c form }

/-- `HabitCollectionViewController.addButtonTapped`. -/
def addButtonTapped (s : State) : State := { s with creating := s.creating ++ [{}] }

def habitNameChanged (c : Nat) (text : Text) (s : State) : State :=
  match s.creating[c]? with
  | none => s
  | some form => setForm c { form with habitName := text } s

def didTapConfirmAmount (c : Nat) (amount : Int) (s : State) : State :=
  match s.creating[c]? with
  | none => s
  | some form =>
    setForm c { form with
      valueCounter := amount
      typeOfHabitSelected := true
      isCounted := true } s

/-- The title of the button shows the first four digits. -/
def didTapConfirmTime (c : Nat) (time : List Int) (s : State) : State :=
  match s.creating[c]? with
  | none => s
  | some form =>
    if time.length < 4 then s.crash .indexOutOfRange
    else setForm c { form with
      timeArray := time
      typeOfHabitSelected := true
      isCounted := false } s

/-- The habit that `addHabitButtonTapped` builds before it reads the
counter. -/
def newHabit (form : CreateForm) (s : State) : Habit where
  name := form.habitName
  color := s.sectionColor.getD 6
  counted := form.isCounted
  goal := form.valueCounter
  currentCount := form.valueCounter
  time := form.timeArray
  timeOriginal := form.timeArray
  addFirebase := true
  streak := 0
  habitNumber := 0
  finishedFirstTime := true
  ident := s.nextIdent

def addHabitButtonTapped (c : Nat) (s : State) : State :=
  match s.creating[c]? with
  | none => s
  | some form =>
    if form.typeOfHabitSelected then
      if form.habitName ≠ [] then
        if form.habitName.length < 24 then
          { s with nextIdent := s.nextIdent + 1 }.issue (.addHabit c (newHabit form s))
        else
          setForm c { form with
            errorLabelType := false
            errorLabel := some "Your Habit name is too long!" } s
      else
        setForm c { form with
          errorLabelType := false
          errorLabel := some "Your Habit needs a name!" } s
    else setForm c { form with errorLabel := none, errorLabelType := true } s

/-- The document that the callback writes, with the time array the form
holds by then. -/
def newDocument (habit : Habit) (timeArray : List Int) : HabitDoc where
  fields :=
    { name := some habit.name, color := some habit.color, counted := some habit.counted,
      goal := some habit.goal, currentCount := some 0, addFirebase := some true,
      streak := some 0, timeArray := some timeArray, timeArrayOriginal := some timeArray }
  ident := habit.ident

/-- The form as the callback leaves it: the counter that was read, and six
zeros for a counted habit. -/
def formRead (habit : Habit) (document : Option Store) (form : CreateForm) : CreateForm :=
  { form with
    habitCounter := match document with
      | some doc => doc.user.habitCounter
      | none => form.habitCounter
    timeArray :=
      if habit.counted then form.timeArray ++ [0, 0, 0, 0, 0, 0] else form.timeArray
    errorLabel := none }

/-- The callback of `addHabitButtonTapped`.  A failed read goes on with the
counter that the form holds. -/
def addHabitRead (c : Nat) (habit : Habit) (document : Option Store) (s : State) : State :=
  match s.creating[c]? with
  | none => s
  | some form =>
    let form := formRead habit document form
    (((setForm c form s).write
        (.setHabit form.habitCounter (newDocument habit form.timeArray))).write
      (.updateUser { habitCounter := some (form.habitCounter + 1) })).issue .fetch

end CreateHabit

namespace EditHabit

/-- Replace an edit form. -/
def setForm (e : Nat) (form : EditForm) (s : State) : State :=
  { s with editing := s.editing.set e form }

def habitNameChanged (e : Nat) (text : Text) (s : State) : State :=
  match s.editing[e]? with
  | none => s
  | some form => setForm e { form with habitName := text } s

def didTapConfirmAmount (e : Nat) (amount : Int) (s : State) : State :=
  match s.editing[e]? with
  | none => s
  | some form =>
    setForm e { form with
      valueCounter := amount
      habit := { form.habit with counted := true }
      isCounted := true } s

def didTapConfirmTime (e : Nat) (time : List Int) (s : State) : State :=
  match s.editing[e]? with
  | none => s
  | some form =>
    if time.length < 4 then s.crash .indexOutOfRange
    else setForm e { form with
      timeArray := time
      habit := { form.habit with counted := false, time := time }
      isCounted := false } s

/-- The nine values that `editHabit` writes.  Both time arrays are the
`time` of the habit. -/
def editedEntry (form : EditForm) (color : Int) : Entry where
  name := form.habitName
  color := color
  counted := form.habit.counted
  goal := form.valueCounter
  currentCount := 0
  timeArray := form.habit.time
  timeArrayOriginal := form.habit.time
  addFirebase := true
  streak := form.habit.streak

/-- The write goes to the row that the form was opened for. -/
def editHabit (e : Nat) (s : State) : State :=
  match s.editing[e]? with
  | none => s
  | some form =>
    if form.habitName ≠ [] then
      if form.habitName.length < 24 then
        match s.sectionColor, form.indexPath with
        | none, _ => s.crash .defaultsCast
        | _, none => s.crash .nilUnwrap
        | some color, some row =>
          (setForm e { form with errorLabel := none }
            (s.write (.updateHabit row (editedEntry form color).fields
              form.habit.ident))).issue .fetch
      else setForm e { form with errorLabel := some "Your Habit name is too long!" } s
    else setForm e { form with errorLabel := some "Your Habit needs a name!" } s

end EditHabit

end HabitHive
