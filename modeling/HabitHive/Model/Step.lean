import HabitHive.Model.Forms

/-!
# Runs of a session

`Event` is what can happen next: the app is relaunched, the screen
appears, the user acts, the clock moves on, or Firestore serves a read or
delivers a callback.  `step` is total.  An event that is not possible in a
state, such as a delivery when nothing is in flight, changes nothing, so
that every list of events is a run.

A crashed session waits for `relaunch`, which also models that the app is
killed.  The documents and `UserDefaults` survive it, memory and pending
callbacks do not.
-/

namespace HabitHive

inductive Event where
  -- the process and the clock
  | relaunch
  | nextDay
  -- `HabitCollectionViewController`
  | viewDidLoad
  | viewWillAppear
  | fetchFirebaseHabits
  | handleLongPress (row : Nat)
  | deleteHabit
  | editHabit
  | didSelectItemAt (row : Nat) (menu : Bool)
  | createTimeArray (row ident : Nat) (timeArray : List Int)
  | showAlert (row : Nat)
  -- the color buttons
  | sectionColor (color : Int)
  -- `CreateHabitViewController`
  | addButtonTapped
  | createName (c : Nat) (text : Text)
  | createAmount (c : Nat) (amount : Int)
  | createTime (c : Nat) (time : List Int)
  | addHabitButtonTapped (c : Nat)
  -- `EditHabitViewController`
  | editName (e : Nat) (text : Text)
  | editAmount (e : Nat) (amount : Int)
  | editTime (e : Nat) (time : List Int)
  | editConfirmed (e : Nat)
  -- Firestore and the main queue
  | serve (i : Nat)
  | deliver (i : Nat)
  | fail (i : Nat)
  deriving DecidableEq, Repr

/-- Run a callback with the document it is given. -/
def Callback.run (document : Option Store) : Callback → State → State
  | .fetchCounter => HabitCollection.fetchCounterRead document
  | .fetchHabit n => HabitCollection.fetchHabitRead n document
  | .deleteDone => HabitCollection.deleteDone
  | .counterDone => HabitCollection.counterDone
  | .fetch => HabitCollection.fetchFirebaseHabits
  | .reload => State.reloadData
  | .addHabit c habit => CreateHabit.addHabitRead c habit document
  | .finished row ident => HabitCollection.finishedRead row ident document

namespace State

/-- Take call `i` out of flight. -/
@[simps] def dropPending (s : State) (i : Nat) : State :=
  { s with pending := s.pending.eraseIdx i }

/-- Serve read `i` from the store as it is now. -/
def serve (s : State) (i : Nat) : State :=
  match s.pending[i]? with
  | none => s
  | some p =>
    if p.callback.isRead ∧ p.snapshot.isNone then
      { s with pending := s.pending.set i { p with snapshot := some s.store } }
    else s

/-- Deliver call `i`: a read once it is served, any other call at once. -/
def deliver (s : State) (i : Nat) : State :=
  match s.pending[i]? with
  | none => s
  | some p =>
    if p.callback.isRead ∧ p.snapshot.isNone then s
    else p.callback.run p.snapshot (s.dropPending i)

/-- Deliver read `i` without a document. -/
def fail (s : State) (i : Nat) : State :=
  match s.pending[i]? with
  | none => s
  | some p => if p.callback.isRead then p.callback.run none (s.dropPending i) else s

/-- A session that starts on the given documents, with nothing in memory. -/
def launched (st : Store) : State := { store := st }

/-- The process starts again: the documents, `UserDefaults` and the clock
stay. -/
def relaunch (s : State) : State :=
  { store := s.store
    journal := s.journal
    today := s.today
    palmiIsCool := s.palmiIsCool
    sectionColor := s.sectionColor
    signedIn := s.signedIn
    nextIdent := s.nextIdent }

/-- The process that starts on the documents and `UserDefaults` of `s`. -/
def started (s : State) : State := { s.relaunch with journal := [] }

end State

/-- One event of a session that has not crashed. -/
def handle (s : State) : Event → State
  | .relaunch => s.relaunch
  | .nextDay => { s with today := s.today + 1 }
  | .viewDidLoad => HabitCollection.viewDidLoad s
  | .viewWillAppear => HabitCollection.viewWillAppear s
  | .fetchFirebaseHabits => HabitCollection.fetchFirebaseHabits s
  | .handleLongPress row => HabitCollection.handleLongPress row s
  | .deleteHabit => HabitCollection.deleteHabit s
  | .editHabit => HabitCollection.editHabit s
  | .didSelectItemAt row menu => HabitCollection.didSelectItemAt row menu s
  | .createTimeArray row ident timeArray =>
      HabitCollection.createTimeArray row ident timeArray s
  | .showAlert row => HabitCollection.showAlert row s
  | .sectionColor color => { s with sectionColor := some color }
  | .addButtonTapped => CreateHabit.addButtonTapped s
  | .createName c text => CreateHabit.habitNameChanged c text s
  | .createAmount c amount => CreateHabit.didTapConfirmAmount c amount s
  | .createTime c time => CreateHabit.didTapConfirmTime c time s
  | .addHabitButtonTapped c => CreateHabit.addHabitButtonTapped c s
  | .editName e text => EditHabit.habitNameChanged e text s
  | .editAmount e amount => EditHabit.didTapConfirmAmount e amount s
  | .editTime e time => EditHabit.didTapConfirmTime e time s
  | .editConfirmed e => EditHabit.editHabit e s
  | .serve i => s.serve i
  | .deliver i => s.deliver i
  | .fail i => s.fail i

def step (s : State) (e : Event) : State :=
  if s.crashed = none then handle s e
  else if e = .relaunch then s.relaunch
  else s

abbrev run (s : State) (es : List Event) : State := Runs.run step s es

end HabitHive
