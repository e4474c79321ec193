import HabitHive.Lib.Keyed
import Mathlib.Tactic.Simps.Basic
import HabitHive.Model.Store

/-!
# The state of a session

`State` is one signed-in session of the app: the documents of the user,
what the device keeps in `UserDefaults`, the fields of
`HabitCollectionViewController`, the create and edit screens that are
open, and the calls whose callback has not run yet.

## Firestore calls

Firestore applies single-document writes in the order they are issued, so
`State.write` applies a write at once and appends it to `journal`.  The
journal is not in the source: it is the list of all writes issued so far,
and its prefixes are the points at which the app can be killed.
`viewStale` is not in the source either: it says that the list was emptied
since the view was last reloaded.

A call with a callback is a `Pending` item.  A `getDocument` call is first
served, which takes a snapshot of the store at some moment between its
issue and its callback, and later delivered.  The other items are
completion callbacks of writes and blocks queued on the main queue, and
are only delivered.  Each callback runs as one step.

A failed forced cast, an index out of range and a forced unwrap of `nil`
end the process.  `crashed` records this, and a crashed session takes no
step but a relaunch.
-/

namespace HabitHive

/-- What ends the process. -/
inductive Fault where
  /-- `habitArray[row]`, or an entry of a time array, that does not exist -/
  | indexOutOfRange
  /-- `as!` on a document field that is absent -/
  | forcedCast
  /-- `as!` on a `UserDefaults` value that is absent -/
  | defaultsCast
  /-- `!` on `nil`, or the `row` of an empty `IndexPath` -/
  | nilUnwrap
  /-- `0...n` with `n` negative -/
  | invalidRange
  deriving DecidableEq, Repr

/-- `CreateHabitViewController`: the form and the fields its callback uses.
`errorLabel` is the text of the error label when it is shown, and
`errorLabelType` whether the label that asks for a type is shown. -/
structure CreateForm where
  habitName : Text := []
  timeArray : List Int := []
  valueCounter : Int := 0
  isCounted : Bool := false
  habitCounter : Nat := 0
  typeOfHabitSelected : Bool := false
  errorLabel : Option String := none
  errorLabelType : Bool := false
  deriving DecidableEq, Repr

/-- `EditHabitViewController`: the habit it was opened with, as the pickers
change it, and the form. -/
structure EditForm where
  habit : Habit
  indexPath : Option Nat
  habitName : Text
  valueCounter : Int
  timeArray : List Int := []
  isCounted : Bool := false
  errorLabel : Option String := none
  deriving DecidableEq, Repr

/-- The closures that wait to be run. -/
inductive Callback where
  /-- the `getDocument` callback of `fetchFirebaseHabits` on the user document -/
  | fetchCounter
  /-- its `getDocument` callback on document `habit<n>` -/
  | fetchHabit (n : Nat)
  /-- the completion of `delete()` in `deleteHabitAction` -/
  | deleteDone
  /-- the completion of its `updateData` of `habitCounter` -/
  | counterDone
  /-- a block on the main queue that calls `fetchFirebaseHabits`: the `update`
  closures and `dispatchGroupDelete.notify` -/
  | fetch
  /-- a block on the main queue that calls `reloadData` -/
  | reload
  /-- the `getDocument` callback of `addHabitButtonTapped` on form `c` -/
  | addHabit (c : Nat) (newHabit : Habit)
  /-- the `getDocument` callback of a completion in `didSelectItemAt`; `ident`
  is the habit that was completed -/
  | finished (row : Nat) (ident : Nat)
  deriving DecidableEq, Repr

/-- The callbacks that take a document. -/
def Callback.isRead : Callback → Bool
  | .fetchCounter | .fetchHabit _ | .addHabit .. | .finished .. => true
  | .deleteDone | .counterDone | .fetch | .reload => false

/-- The reads of a refresh. -/
def Callback.isFetch : Callback → Bool
  | .fetchCounter | .fetchHabit _ => true
  | _ => false

/-- The callbacks of a delete. -/
def Callback.isChain : Callback → Bool
  | .deleteDone | .counterDone => true
  | _ => false

/-- The callback of a completion. -/
def Callback.isFinished : Callback → Bool
  | .finished .. => true
  | _ => false

/-- A call in flight.  The snapshot is the store at the moment a read was
served. -/
structure Pending where
  callback : Callback
  snapshot : Option Store := none

structure State where
  store : Store
  journal : List Write := []
  pending : List Pending := []
  crashed : Option Fault := none
  -- the device
  today : Nat := 0
  palmiIsCool : Option Nat := none
  sectionColor : Option Int := some 3
  signedIn : Bool := true
  -- `HabitCollectionViewController`
  habitArray : List Habit := []
  localHabitCounter : Int := 0
  indexPathGlobal : Option Nat := none
  shownRows : Nat := 0
  viewStale : Bool := false
  -- the other screens
  creating : List CreateForm := []
  editing : List EditForm := []
  nextIdent : Nat := 0

namespace State

/-- Issue a write without a callback. -/
@[simps] def write (s : State) (w : Write) : State :=
  { s with store := s.store.apply w, journal := s.journal ++ [w] }

/-- Issue writes in order. -/
@[simps] def writeAll (s : State) (ws : List Write) : State :=
  { s with store := s.store.applyAll ws, journal := s.journal ++ ws }

/-- Issue a call, or queue a block, whose callback is still to run. -/
@[simps] def issue (s : State) (cb : Callback) : State :=
  { s with pending := s.pending ++ [{ callback := cb }] }

/-- Issue calls in order. -/
@[simps] def issueAll (s : State) (cbs : List Callback) : State :=
  { s with pending := s.pending ++ cbs.map ({ callback := · }) }

@[simps] def crash (s : State) (f : Fault) : State := { s with crashed := some f }

/-- `collectionView.reloadData()`: the view shows the rows that
`numberOfItemsInSection` reports. -/
@[simps] def reloadData (s : State) : State :=
  { s with shownRows := s.habitArray.length, viewStale := false }

/-- Replace the element of `habitArray` at a row. -/
@[simps] def setRow (s : State) (row : Nat) (h : Habit) : State :=
  { s with habitArray := s.habitArray.set row h }

/-- No read of a refresh is in flight. -/
def noFetch (s : State) : Bool := s.pending.all fun p => !p.callback.isFetch

/-- No callback of a delete is to come. -/
def noChain (s : State) : Bool := s.pending.all fun p => !p.callback.isChain

/-- No callback of a completion is to come. -/
def noFinished (s : State) : Bool := s.pending.all fun p => !p.callback.isFinished

end State

/-- `sort(by: {$0.habitNumber < $1.habitNumber})`, a stable sort. -/
def sortByNumber (hs : List Habit) : List Habit :=
  Keyed.sortByKey Habit.habitNumber hs

end HabitHive
