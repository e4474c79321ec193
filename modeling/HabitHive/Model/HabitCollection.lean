import HabitHive.Model.State

/-!
# `HabitCollectionViewController`

One definition for each function of the controller, and one for each
closure that a function hands to Firestore.  A closure takes the document
it is called with as `Option Store`: `none` is the `nil` document of a
failed read, and otherwise the store is the snapshot that the read was
served from.

The countdown of a timed habit lives in `HabitCollectionViewCell`.  What
the cell does to the list and the store is in `createTimeArray` and
`showAlert`; the `ident` argument of the first is the habit that the cell
shows.  Labels, animations and the activity indicator are left out.
-/

namespace HabitHive.HabitCollection

/-! ## The refresh -/

def fetchFirebaseHabits (s : State) : State :=
  { s with habitArray := [], viewStale := true }.issue .fetchCounter

/-- The callback on the user document: a failed read leaves
`localHabitCounter` as it was. -/
def fetchCounterRead (document : Option Store) (s : State) : State :=
  let s := match document with
    | some doc => { s with localHabitCounter := doc.user.habitCounter - 1 }
    | none => s
  if s.localHabitCounter = -1 then s
  else if s.localHabitCounter < 0 then s.crash .invalidRange
  else s.issueAll ((List.range (s.localHabitCounter + 1).toNat).map .fetchHabit)

/-- The callback on document `habit<n>`. -/
def fetchHabitRead (n : Nat) (document : Option Store) (s : State) : State :=
  match document with
  | some doc =>
    match doc.readHabit n with
    | some habit =>
      { s with habitArray := sortByNumber (s.habitArray ++ [habit]) }.reloadData
    | none => s.crash .forcedCast
  | none => { s with habitArray := sortByNumber s.habitArray }.reloadData

/-! ## Delete -/

/-- `deleteItems` takes one row out of the view. -/
def deleteHabitAction (s : State) : State :=
  match s.indexPathGlobal with
  | none => s.crash .nilUnwrap
  | some row =>
    if row < s.habitArray.length then
      ({ s with
          shownRows := s.shownRows - 1
          habitArray := s.habitArray.eraseIdx row }.write
        (.deleteHabit row)).issue .deleteDone
    else s.crash .indexOutOfRange

/-- The completion of `delete()`.  It reads `indexPathGlobal` when it runs,
not the row the delete was issued for. -/
def deleteDone (s : State) : State :=
  match s.indexPathGlobal with
  | none => s.crash .nilUnwrap
  | some row =>
    let s := if s.habitArray.length ≠ row then
        s.write (.deleteHabit s.habitArray.length) else s
    (s.write (.updateUser { habitCounter := some s.habitArray.length })).issue .counterDone

def updateFirebaseHabits (s : State) : State :=
  (s.writeAll (Store.setHabits 0 (s.habitArray.map Habit.toDocument))).write
    (.updateUser { habitCounter := some s.habitArray.length })

/-- The completion of the counter update.  Leaving the group queues the
block of `dispatchGroupDelete.notify`. -/
def counterDone (s : State) : State := (updateFirebaseHabits s).issue .fetch

def deleteHabit (s : State) : State := deleteHabitAction s

/-! ## Menu -/

/-- The part of a long press on the cell of `row` that the controller does
itself. -/
def handleLongPress (row : Nat) (s : State) : State :=
  if row < s.habitArray.length then { s with indexPathGlobal := some row }
  else s.crash .indexOutOfRange

/-- The edit screen as `EditHabitViewController.viewDidLoad` sets it up. -/
def editHabit (s : State) : State :=
  match s.indexPathGlobal with
  | none => s.crash .nilUnwrap
  | some row =>
    match s.habitArray[row]? with
    | none => s.crash .indexOutOfRange
    | some habit =>
      if ¬habit.counted ∧ habit.time.length < 4 then s.crash .indexOutOfRange
      else
        { s with
          sectionColor := some habit.color
          editing := s.editing ++
            [{ habit, indexPath := some row, habitName := habit.name,
               valueCounter := habit.goal }] }

/-! ## Daily reset -/

/-- The first loop of the reset, on one habit. -/
def resetHabit (h : Habit) : Habit :=
  { h with
    currentCount := 0
    streak := if h.addFirebase then 0 else h.streak + 1
    addFirebase := true }

/-- The achievement that the second loop appends for a habit. -/
def achievement (h : Habit) : Option Text :=
  if h.streak = 1 then some (h.name ++ Text.ofAscii " for 10 days")
  else if h.streak = 25 then some (h.name ++ Text.ofAscii " for 25 days")
  else if h.streak = 50 then some (h.name ++ Text.ofAscii " for 50 days")
  else none

/-- The dictionary of the `updateData` call of the second loop. -/
def resetFields (h : Habit) : HabitFields where
  currentCount := some 0
  goal := some h.goal
  name := some h.name
  timeArray := some h.timeOriginal
  addFirebase := some h.addFirebase
  streak := some h.streak

/-- The `updateData` call of the second loop for the habit at row `n`. -/
def resetUpdate (n : Nat) (h : Habit) : Write := .updateHabit n (resetFields h) h.ident

/-- The second loop from row `n`, with the achievements appended so far. -/
def resetWrites : Nat → List Text → List Habit → List Write
  | _, _, [] => []
  | n, achievementName, h :: hs =>
    match achievement h with
    | none => resetUpdate n h :: resetWrites (n + 1) achievementName hs
    | some text =>
      let achievementName := achievementName ++ [text]
      resetUpdate n h :: .updateUser { achievements := some achievementName } ::
        resetWrites (n + 1) achievementName hs

/-- The test of `viewWillAppear`.  The saved day is read from
`UserDefaults`; only a tap writes it. -/
def resets (s : State) : Bool := s.signedIn && some s.today != s.palmiIsCool

/-- With an empty list the group is never left, so no reload is queued. -/
def viewWillAppear (s : State) : State :=
  if resets s then
    let s := s.write (.updateUser { finishedHabits := some 0 })
    if s.habitArray ≠ [] then
      let s := { s with habitArray := s.habitArray.map resetHabit }
      (s.writeAll (resetWrites 0 [] s.habitArray)).issue .reload
    else s
  else s

/-! ## Taps -/

/-- The goal test of a tap on the counted habit at `row`, with the habit as
the increment left it. -/
def completeCounted (row : Nat) (habit : Habit) (s : State) : State :=
  if habit.currentCount = habit.goal then
    let habit := { habit with finishedFirstTime := false }
    if habit.addFirebase then
      (s.issue (.finished row habit.ident)).setRow row { habit with addFirebase := false }
    else s.setRow row habit
  else s

/-- The branch of `didSelectItemAt` for a counted habit. -/
def tapCounted (row : Nat) (habit : Habit) (s : State) : State :=
  if habit.currentCount < habit.goal then
    let habit := { habit with
      finishedFirstTime := false
      currentCount := habit.currentCount + 1 }
    completeCounted row habit
      ((s.setRow row habit).write
        (.updateHabit row { currentCount := some habit.currentCount } habit.ident))
  else completeCounted row habit s

/-- A tap on the cell of `row`; `menu` says that its delete button is
visible.  The branch for a timed habit starts or stops the countdown of
the cell. -/
def didSelectItemAt (row : Nat) (menu : Bool) (s : State) : State :=
  let s := { s with palmiIsCool := some s.today }
  match s.habitArray[row]? with
  | none => s.crash .indexOutOfRange
  | some habit =>
    if !habit.addFirebase then s
    else if menu then s
    else if habit.counted = false then s
    else tapCounted row habit s

/-- The callback of a completion. -/
def finishedRead (row ident : Nat) (document : Option Store) (s : State) : State :=
  let s := match document with
    | some doc =>
      s.write (.updateUser { finishedHabits := some (doc.user.finishedHabits + 1) })
    | none => s
  s.write (.updateHabit row { addFirebase := some false } ident)

/-! ## Countdown -/

def returnTimeArray (timeArray : List Int) (row : Nat) (s : State) : State :=
  match s.habitArray[row]? with
  | none => s.crash .indexOutOfRange
  | some habit => s.setRow row { habit with time := timeArray }

/-- The two effects of `HabitCollectionViewCell.createTimeArray`, with the
array that the cell built. -/
def createTimeArray (row ident : Nat) (timeArray : List Int) (s : State) : State :=
  returnTimeArray timeArray row
    (s.write (.updateHabit row { timeArray := some timeArray } ident))

/-- `showAlert` for a countdown whose cell is at `row`. -/
def showAlert (row : Nat) (s : State) : State :=
  match s.habitArray[row]? with
  | none => s.crash .indexOutOfRange
  | some habit =>
    (s.setRow row { habit with addFirebase := false }).write
      (.updateHabit row { addFirebase := some false } habit.ident)

/-! ## Launch -/

/-- `authenticateUser` presents the login screen when nobody is signed in.
`fetchFirebaseHabits` leaves its group before it returns, so the block of
`dispatchGroup.notify` is queued at once. -/
def viewDidLoad (s : State) : State :=
  if s.signedIn then (fetchFirebaseHabits s.reloadData).issue .reload else s

end HabitHive.HabitCollection
