import HabitHive.Model.Cell

/-!
# The list screen and its cells

`Screen` is a session with the cell objects of the collection view and
what belongs to them: which object shows which row, the timers that are
scheduled on the run loop, and the time reads of the cells.

A cell object is a number, and a row that is laid out dequeues an object
that shows no row, or the one that it had.  A time read is served and
delivered like the reads of `State`.  When the read of a start has come
back, or failed, `dispatchGroupCountdown` is left and its block is queued,
which schedules the timer.

A timer keeps the `repeats` it was scheduled with.  One that does not
repeat is invalid after its first tick.

`ident` in `TimeRead`, `StartBlock` and `CellTimer` is not in the source:
it is the habit that the cell showed when the read was issued or the
countdown was started.
-/

namespace HabitHive

/-- A `getDocument` call of `fetchTimeFromFirebase`.  `start` says that it
was issued by `startCountdown`. -/
structure TimeRead where
  cell : Nat
  row : Nat
  start : Bool
  ident : Option Nat
  snapshot : Option Store := none

/-- The block of `dispatchGroupCountdown.notify`. -/
structure StartBlock where
  cell : Nat
  ident : Option Nat
  deriving DecidableEq, Repr

/-- A timer that is scheduled. -/
structure CellTimer where
  id : Nat
  cell : Nat
  repeats : Bool
  ident : Option Nat
  deriving DecidableEq, Repr

structure Screen where
  session : State
  cells : Nat → Cell := fun _ => {}
  /-- the rows that are laid out, with their objects -/
  shown : List (Nat × Nat) := []
  cellsWhichAreLongPressed : List Nat := []
  timers : List CellTimer := []
  timerArray : List Nat := []
  nextTimer : Nat := 0
  reads : List TimeRead := []
  blocks : List StartBlock := []

/-- The habit whose time a read of document `n` yields. -/
def Store.timeIdent (st : Store) (n : Nat) : Option Nat :=
  (st.habits n).bind fun doc => doc.fields.timeArray.map fun _ => doc.ident

namespace Screen

/-- Change a cell object. -/
@[simps] def setCell (c : Nat) (cell : Cell) (x : Screen) : Screen :=
  { x with cells := Function.update x.cells c cell }

@[simps] def crash (f : Fault) (x : Screen) : Screen := { x with session := x.session.crash f }

/-- `cellForItem(at:)`, the object that shows a row. -/
def cellForItem (row : Nat) (x : Screen) : Option Nat := x.shown.lookup row

/-- The habit that a cell shows. -/
def shownIdent (c : Nat) (x : Screen) : Option Nat := (x.cells c).habitCell.map Habit.ident

/-- `timer.invalidate()`. -/
@[simps] def invalidate (ids : List Nat) (x : Screen) : Screen :=
  { x with timers := x.timers.filter fun t => t.id ∉ ids }

/-! ## The methods of a cell -/

/-- The call of `fetchTimeFromFirebase`. -/
@[simps] def fetchTimeFromFirebase (c row : Nat) (start : Bool) (x : Screen) : Screen :=
  { x with reads := x.reads ++ [{ cell := c, row, start, ident := x.shownIdent c }] }

/-- `configure`.  The time of a habit that is finished is not read; its
label shows the six entries of `originalTimerArray`. -/
def configure (c : Nat) (habit : Habit) (x : Screen) : Screen :=
  let x := x.setCell c ({ x.cells c with habitCell := some habit }.setMenu true)
  if habit.addFirebase then
    if habit.counted then x
    else
      match (x.cells c).indexPathCell with
      | none => x.crash .nilUnwrap
      | some row => x.fetchTimeFromFirebase c row false
  else if habit.counted = false ∧ (x.cells c).originalTimerArray.length < 6 then
    x.crash .indexOutOfRange
  else x

/-- `createTimeArray`. -/
def createTimeArray (c row : Nat) (x : Screen) : Screen :=
  let cell := x.cells c
  { x.setCell c { cell with timeArray := cell.createdArray } with
    session := HabitCollection.createTimeArray row ((x.shownIdent c).getD 0) cell.createdArray
      x.session }

/-- `startCountdown`. -/
def startCountdown (c row : Nat) (start : Bool) (x : Screen) : Screen :=
  let x := x.setCell c { x.cells c with startVar := start }
  if start then
    (x.setCell c { x.cells c with timerRunning := some true }).fetchTimeFromFirebase c row true
  else
    let x := (x.invalidate (x.cells c).timer.toList).createTimeArray c row
    x.setCell c { x.cells c with timerRunning := some false }

/-- The callback of `fetchTimeFromFirebase`, up to where the group is left.
A document without the field falls back on the habit of the cell. -/
def timeRead (r : TimeRead) (document : Option Store) (x : Screen) : Screen :=
  match document with
  | none => x
  | some doc =>
    if (x.cells r.cell).counted = some false then
      let field := (doc.habits r.row).bind (·.fields.timeArray)
      match field.orElse fun _ => (x.cells r.cell).habitCell.map Habit.time with
      | none => x.crash .nilUnwrap
      | some result =>
        match (x.cells r.cell).readTime result with
        | none => x.crash .indexOutOfRange
        | some cell =>
          x.setCell r.cell { cell with timeIdent := doc.timeIdent r.row }
    else x

/-- Leaving the group queues the block of a start. -/
def leaveGroup (r : TimeRead) (x : Screen) : Screen :=
  if r.start then { x with blocks := x.blocks ++ [{ cell := r.cell, ident := r.ident }] } else x

/-- The block of `dispatchGroupCountdown.notify`, with `returnTimer`. -/
def startTimer (b : StartBlock) (x : Screen) : Screen :=
  let cell := x.cells b.cell
  { x.setCell b.cell { cell with timer := some x.nextTimer } with
    timers := x.timers ++
      [{ id := x.nextTimer, cell := b.cell, repeats := cell.startVar, ident := b.ident }]
    timerArray := x.timerArray ++ [x.nextTimer]
    nextTimer := x.nextTimer + 1 }

/-! ## The controller -/

/-- `showAlert`.  The write comes last. -/
def showAlert (c row : Nat) (x : Screen) : Screen :=
  match x.session.habitArray[row]? with
  | none => x.crash .indexOutOfRange
  | some habit =>
    let cell := { x.cells c with originalTimerArray := habit.timeOriginal }
    match cell.habitCell with
    | none => x.crash .nilUnwrap
    | some shown =>
      let x := (x.setCell c cell).configure c { shown with addFirebase := false }
      if x.session.crashed = none then
        { x with session := HabitCollection.showAlert row x.session }
      else x

/-- `Action` of a cell. -/
def action (c : Nat) (x : Screen) : Screen :=
  let cell := x.cells c
  if cell.atZero then
    let x := x.invalidate cell.timer.toList
    match cell.indexPathCell with
    | none => x.crash .nilUnwrap
    | some row => x.showAlert c row
  else x.setCell c cell.countDown

/-- The cleanup of `cellForItemAt`. -/
def invalidateAll (x : Screen) : Screen :=
  if x.timerArray.length > 1 then { x.invalidate x.timerArray with timerArray := [] } else x

/-- `cellForItemAt`, with the object that is dequeued for the row. -/
def cellForItemAt (row c : Nat) (x : Screen) : Screen :=
  let x := { x.invalidateAll with shown := (row, c) :: x.shown.filter fun p => p.1 ≠ row }
  match x.session.habitArray[row]? with
  | none => x.crash .indexOutOfRange
  | some habit =>
    let x := x.setCell c { x.cells c with
      indexPathCell := some row
      originalTimerArray := habit.timeOriginal
      counted := some habit.counted }
    x.configure c habit

/-- An object that can be dequeued for a row. -/
def Free (row c : Nat) (x : Screen) : Prop := ∀ p ∈ x.shown, p.2 = c → p.1 = row

instance (row c : Nat) (x : Screen) : Decidable (x.Free row c) :=
  inferInstanceAs (Decidable (∀ p ∈ x.shown, p.2 = c → p.1 = row))

/-- The completion of a counted habit in `didSelectItemAt`. -/
def completeCounted (d row : Nat) (habit : Habit) (x : Screen) : Screen :=
  let y := { x with session := HabitCollection.completeCounted row habit x.session }
  if habit.currentCount = habit.goal ∧ habit.addFirebase then
    y.configure d { habit with finishedFirstTime := false, addFirebase := false }
  else y

/-- The branch of `didSelectItemAt` for a counted habit on the cell `d`.
The two reloads of the row dequeue `c₁` and `c₂`. -/
def tapCounted (d row c₁ c₂ : Nat) (habit : Habit) (x : Screen) : Screen :=
  if habit.currentCount < habit.goal then
    let habit := { habit with
      finishedFirstTime := false
      currentCount := habit.currentCount + 1 }
    let session := (x.session.setRow row habit).write
      (.updateHabit row { currentCount := some habit.currentCount } habit.ident)
    let x := { x with session }
    ((x.cellForItemAt row c₁).completeCounted d row habit).cellForItemAt row c₂
  else (x.completeCounted d row habit).cellForItemAt row c₂

/-- A tap on the cell of `row`. -/
def didSelectItemAt (row c₁ c₂ : Nat) (x : Screen) : Screen :=
  match x.cellForItem row with
  | none => x
  | some d =>
    let menu := !(x.cells d).deleteButtonHidden
    let x := { x with session := { x.session with palmiIsCool := some x.session.today } }
    match x.session.habitArray[row]? with
    | none => x.crash .indexOutOfRange
    | some habit =>
      if !habit.addFirebase then
        if menu then x.cellForItemAt row c₂ else x
      else if menu then x.cellForItemAt row c₂
      else if habit.counted = false then
        if (x.cells d).startVar then
          let x := x.startCountdown d row false
          x.setCell d { x.cells d with timerRunning := some false }
        else
          let x := x.startCountdown d row true
          x.setCell d { x.cells d with timerRunning := some true }
      else x.tapCounted d row c₁ c₂ habit

/-- `handleLongPress` on the cell of `row`. -/
def handleLongPress (row : Nat) (x : Screen) : Screen :=
  match x.cellForItem row with
  | none => x
  | some c =>
    if (x.cells c).running then x
    else
      let x := x.setCell c ((x.cells c).setMenu false)
      match x.session.habitArray[row]? with
      | none => x.crash .indexOutOfRange
      | some habit =>
        let x := if habit.counted then x else x.startCountdown c row false
        { x with
          session := HabitCollection.handleLongPress row x.session
          cellsWhichAreLongPressed := x.cellsWhichAreLongPressed ++ [c] }

/-- `resetCellsToStandard`. -/
def resetCellsToStandard (c : Nat) (x : Screen) : Screen := x.setCell c ((x.cells c).setMenu true)

def handlePressOnCollectionView (x : Screen) : Screen :=
  { x.cellsWhichAreLongPressed.foldl (fun x c => x.resetCellsToStandard c) x with
    cellsWhichAreLongPressed := [] }

/-- `deleteItems(at:)` takes a row out of the view, and the rows behind it
move up with their objects. -/
@[simps] def deleteItems (row : Nat) (x : Screen) : Screen :=
  { x with shown := (x.shown.filter fun p => p.1 ≠ row).map fun p =>
      (if p.1 < row then p.1 else p.1 - 1, p.2) }

/-- The delete button of a cell that is shown.  A row that does not exist
ends the process. -/
def deleteHabit (c : Nat) (x : Screen) : Screen :=
  if c ∈ x.shown.map Prod.snd ∧ (x.cells c).deleteButtonHidden = false then
    let y := { x with session := HabitCollection.deleteHabit x.session }
    match x.session.indexPathGlobal with
    | none => y
    | some row => if row < x.session.habitArray.length then y.deleteItems row else y
  else x

/-- The edit button of a cell that is shown. -/
def editHabit (c : Nat) (x : Screen) : Screen :=
  if c ∈ x.shown.map Prod.snd ∧ (x.cells c).editButtonHidden = false then
    { x with session := HabitCollection.editHabit x.session }
  else x

end Screen

/-! ## Runs -/

/-- What can happen on the screen.  The events of `session` are those in
which no cell takes part. -/
inductive ScreenEvent where
  | session (e : Event)
  | cellForItemAt (row c : Nat)
  | didEndDisplaying (row : Nat)
  | handleLongPress (row : Nat)
  | handlePressOnCollectionView
  | deleteHabit (c : Nat)
  | editHabit (c : Nat)
  | didSelectItemAt (row c₁ c₂ : Nat)
  | tick (id : Nat)
  | serveTime (i : Nat)
  | deliverTime (i : Nat)
  | failTime (i : Nat)
  | startTimer (i : Nat)
  deriving DecidableEq, Repr

/-- The events of a session that happen on a cell. -/
def Event.onCell : Event → Bool
  | .handleLongPress _ | .deleteHabit | .editHabit | .didSelectItemAt .. | .createTimeArray ..
  | .showAlert _ => true
  | _ => false

/-- The callbacks that reload the view. -/
def Callback.reloads : Callback → Bool
  | .fetchHabit _ | .reload => true
  | _ => false

/-- The event calls `reloadData`. -/
def reloadsData (s : State) : Event → Bool
  | .viewDidLoad => s.signedIn
  | .deliver i => s.pending[i]?.any fun p =>
      p.callback.reloads && (!p.callback.isRead || p.snapshot.isSome)
  | .fail i => s.pending[i]?.any fun p => p.callback.reloads && p.callback.isRead
  | _ => false

namespace Screen

/-- A screen on the given documents, with nothing loaded. -/
def launched (st : Store) : Screen := { session := State.launched st }

/-- An event of the session alone.  `reloadData` takes all rows out of the
view, to be laid out again, and a launch starts with new objects. -/
def sessionEvent (e : Event) (x : Screen) : Screen :=
  if e = .relaunch then { session := x.session.relaunch }
  else if e.onCell then x
  else
    { x with
      session := HabitHive.step x.session e
      shown := if reloadsData x.session e then [] else x.shown }

/-- A tick of a timer that is scheduled. -/
def tick (id : Nat) (x : Screen) : Screen :=
  match x.timers.find? fun t => t.id = id with
  | none => x
  | some t =>
    let x := x.action t.cell
    if t.repeats then x else x.invalidate [id]

/-- Serve time read `i` from the store as it is now. -/
def serveTime (i : Nat) (x : Screen) : Screen :=
  match x.reads[i]? with
  | none => x
  | some r =>
    if r.snapshot.isNone then
      { x with reads := x.reads.set i { r with snapshot := some x.session.store } }
    else x

/-- Take time read `i` out of flight. -/
@[simps] def dropRead (i : Nat) (x : Screen) : Screen := { x with reads := x.reads.eraseIdx i }

/-- Deliver time read `i`, once it is served. -/
def deliverTime (i : Nat) (x : Screen) : Screen :=
  match x.reads[i]? with
  | none => x
  | some r =>
    if r.snapshot.isNone then x
    else ((x.dropRead i).timeRead r r.snapshot).leaveGroup r

/-- Deliver time read `i` without a document. -/
def failTime (i : Nat) (x : Screen) : Screen :=
  match x.reads[i]? with
  | none => x
  | some r => (x.dropRead i).leaveGroup r

/-- Run the queued block `i`. -/
def runBlock (i : Nat) (x : Screen) : Screen :=
  match x.blocks[i]? with
  | none => x
  | some b => { x with blocks := x.blocks.eraseIdx i }.startTimer b

/-- One event of a screen whose process has not ended. -/
def handle (x : Screen) : ScreenEvent → Screen
  | .session e => x.sessionEvent e
  | .cellForItemAt row c => if x.Free row c then x.cellForItemAt row c else x
  | .didEndDisplaying row => { x with shown := x.shown.filter fun p => p.1 ≠ row }
  | .handleLongPress row => x.handleLongPress row
  | .handlePressOnCollectionView => x.handlePressOnCollectionView
  | .deleteHabit c => x.deleteHabit c
  | .editHabit c => x.editHabit c
  | .didSelectItemAt row c₁ c₂ =>
      if x.Free row c₁ ∧ x.Free row c₂ then x.didSelectItemAt row c₁ c₂ else x
  | .tick id => x.tick id
  | .serveTime i => x.serveTime i
  | .deliverTime i => x.deliverTime i
  | .failTime i => x.failTime i
  | .startTimer i => x.runBlock i

def step (x : Screen) (e : ScreenEvent) : Screen :=
  if x.session.crashed = none then x.handle e
  else if e = .session .relaunch then { session := x.session.relaunch }
  else x

abbrev run (x : Screen) (es : List ScreenEvent) : Screen := Runs.run step x es

end Screen

end HabitHive
