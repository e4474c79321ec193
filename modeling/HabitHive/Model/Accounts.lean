import HabitHive.Devices
import HabitHive.Model.Screen

/-!
# Several users on one device

`World` is a device on which users sign in and out, with the documents of
all accounts.  Each sign-in opens a new `HabitCollectionViewController`,
which is a `Client`.  A sign-out presents the login screen over it, and the
next sign-in replaces the root of the window, but neither ends what the
client has under way: its closures and timers hold it, and the delegate of
its cells does.

So the reads, blocks and timers of all clients go on.  The user acts on the
last client only, and only while signed in.

## Which account a call goes to

The source names the account by `Auth.auth().currentUser!.uid`, which is
evaluated where it stands.  A closure that uses a reference from outside
goes to the account of the user at the time the call was issued, and a
reference that the closure builds itself to the account of the user at the
time it runs.  `Client.refs` and `Client.timeRefs` say for each call in
flight who was signed in when it was issued.  Where nobody is signed in the
forced unwrap ends the process.

`Screen.step` says what a client does.  It is run on the client as `load`
sets it up, and what it has written is then issued to the accounts.

`Issued` and `log` are not in the source: they say on whose screen each
write was issued, and where it went.
-/

namespace HabitHive

/-! ## The references of a call -/

/-- The writes that a callback issues through a reference from outside:
`habitRef` of a delete, `habitCounterRef` of a create and `docRef` of a
completion. -/
def Callback.captures : Callback → Write → Bool
  | .deleteDone, .deleteHabit _ | .addHabit .., .updateUser _ | .finished .., .updateUser _ => true
  | _, _ => false

/-- The reads of the documents go through `docRef` of the read of the
counter. -/
def Callback.usesDocRef : Callback → Bool
  | .fetchHabit _ => true
  | _ => false

/-- Issuing the call evaluates `currentUser`. -/
def Callback.takesUser : Callback → Bool
  | .fetchCounter | .deleteDone | .addHabit .. | .finished .. => true
  | .fetchHabit _ | .counterDone | .fetch | .reload => false

/-- The call that an event takes out of flight. -/
def State.taken (s : State) : Event → Option (Nat × Callback)
  | .deliver i => s.pending[i]?.bind fun p =>
      if p.callback.isRead ∧ p.snapshot.isNone then none else some (i, p.callback)
  | .fail i => s.pending[i]?.bind fun p =>
      if p.callback.isRead then some (i, p.callback) else none
  | _ => none

namespace Screen

def taken (x : Screen) : ScreenEvent → Option (Nat × Callback)
  | .session e => x.session.taken e
  | _ => none

/-- The time read that an event takes out of flight. -/
def takenTime (x : Screen) : ScreenEvent → Option Nat
  | .deliverTime i => x.reads[i]?.bind fun r => if r.snapshot.isNone then none else some i
  | .failTime i => x.reads[i]?.map fun _ => i
  | _ => none

end Screen

/-! ## Clients -/

/-- The list screen of a sign-in. -/
structure Client where
  owner : Nat
  screen : Screen
  /-- who was signed in when the calls in `pending` were issued -/
  refs : List (Option Nat) := []
  /-- the same for the time reads -/
  timeRefs : List (Option Nat) := []

namespace Client

/-- The reference that the callback of an event has captured. -/
def ref (c : Client) (e : ScreenEvent) : Option Nat :=
  (c.screen.taken e).bind fun call => (c.refs[call.1]?).join

/-- The account that an event reads. -/
def reads (user : Option Nat) (c : Client) : ScreenEvent → Option Nat
  | .session (.serve i) => c.refs[i]?.getD user
  | .serveTime i => c.timeRefs[i]?.getD user
  | _ => user

/-- The account that an event writes to. -/
def writes (user : Option Nat) (c : Client) (e : ScreenEvent) (w : Write) : Option Nat :=
  if (c.screen.taken e).any fun call => call.2.captures w then c.ref e else user

/-- The references of the calls that an event leaves in flight. -/
def refsKept (c : Client) (e : ScreenEvent) : List (Option Nat) :=
  (c.screen.taken e).elim c.refs fun call => c.refs.eraseIdx call.1

def timeRefsKept (c : Client) (e : ScreenEvent) : List (Option Nat) :=
  (c.screen.takenTime e).elim c.timeRefs c.timeRefs.eraseIdx

/-- The calls that an event has issued. -/
def issued (c : Client) (e : ScreenEvent) (y : Screen) : List Callback :=
  (y.session.pending.drop (c.refsKept e).length).map Pending.callback

/-- One of the calls or time reads that an event has issued evaluates
`currentUser`. -/
def takesUser (c : Client) (e : ScreenEvent) (y : Screen) : Bool :=
  (c.issued e y).any Callback.takesUser || decide ((c.timeRefsKept e).length < y.reads.length)

/-- The client when an event has left the screen `y`. -/
def after (user : Option Nat) (c : Client) (e : ScreenEvent) (y : Screen) : Client where
  owner := c.owner
  screen := y
  refs := c.refsKept e ++ (c.issued e y).map fun cb => if cb.usesDocRef then c.ref e else user
  timeRefs := c.timeRefsKept e ++ List.replicate (y.reads.length - (c.timeRefsKept e).length) user

end Client

/-! ## The device -/

/-- A write as it was issued. -/
structure Issued where
  owner : Nat
  account : Nat
  write : Write
  deriving DecidableEq, Repr

structure World where
  accounts : Nat → Option Store
  device : Device
  user : Option Nat := none
  clients : List Client := []
  nextIdent : Nat := 0
  crashed : Option Fault := none
  log : List Issued := []

/-- What happens without the user: Firestore, the main queue, the timers and
the layout. -/
def ScreenEvent.isBackground : ScreenEvent → Bool
  | .session (.serve _) | .session (.deliver _) | .session (.fail _) => true
  | .cellForItemAt .. | .didEndDisplaying _ | .tick _ | .serveTime _ | .deliverTime _
  | .failTime _ | .startTimer _ => true
  | .session _ | .handleLongPress _ | .handlePressOnCollectionView | .deleteHabit _
  | .editHabit _ | .didSelectItemAt .. => false

/-- What happens to all clients at once. -/
def ScreenEvent.isShared : ScreenEvent → Bool
  | .session .relaunch | .session .nextDay => true
  | _ => false

/-- What can happen on the device. -/
inductive WorldEvent where
  | loginTapped (user : Nat)
  | signUpTapped (user : Nat)
  | signOutButtonTapped
  | relaunch
  | nextDay
  | client (k : Nat) (e : ScreenEvent)
  deriving DecidableEq, Repr

namespace World

/-- A device on which nobody has signed in yet. -/
def opened (accounts : Nat → Option Store) (device : Device) (nextIdent : Nat) : World :=
  { accounts, device, nextIdent }

/-- The documents behind a reference. -/
def documents (w : World) (ref : Option Nat) : Store := (ref.bind w.accounts).getD .signUp

/-- The screen that a sign-in or a launch opens. -/
def newClient (w : World) (user : Nat) : Client where
  owner := user
  screen := { session := w.device.signIn (w.documents (some user)) w.nextIdent }

/-- `transitionToHome`. -/
def transitionToHome (user : Nat) (w : World) : World :=
  { w with user := some user, clients := w.clients ++ [w.newClient user] }

/-- The sign-in succeeds for a user who has an account. -/
def loginTapped (user : Nat) (w : World) : World :=
  if w.user = none ∧ (w.accounts user).isSome then w.transitionToHome user else w

/-- The new account of `createUser`, with the documents that sign-up
writes. -/
def createUser (user : Nat) (w : World) : World :=
  { w with
    accounts := Function.update w.accounts user (some .signUp)
    device := { w.device with sectionColor := some 3 } }

/-- The sign-up succeeds for a user who has none. -/
def signUpTapped (user : Nat) (w : World) : World :=
  if w.user = none ∧ w.accounts user = none then (w.createUser user).transitionToHome user else w

/-- The app is launched again.  The user stays signed in. -/
def relaunch (w : World) : World :=
  { w with crashed := none, clients := w.user.toList.map w.newClient }

/-- A screen as its next event finds it, with the documents behind `ref`. -/
def load (w : World) (ref : Option Nat) (x : Screen) : Screen :=
  { x with session := { x.session with
      store := w.documents ref
      today := w.device.today
      palmiIsCool := w.device.palmiIsCool
      sectionColor := w.device.sectionColor
      signedIn := w.user.isSome
      nextIdent := w.nextIdent } }

/-- One write to an account. -/
@[simps] def issue (owner account : Nat) (write : Write) (w : World) : World :=
  { w with
    accounts := Function.update w.accounts account ((w.accounts account).map (·.apply write))
    log := w.log ++ [{ owner, account, write }] }

/-- Writes in order, up to the first that has no account. -/
def issueAll (owner : Nat) (writes : Write → Option Nat) : List Write → World → World
  | [], w => w
  | v :: vs, w =>
    match writes v with
    | none => { w with crashed := some .nilUnwrap }
    | some account => issueAll owner writes vs (w.issue owner account v)

/-- The screen that an event of a client leaves. -/
def stepped (w : World) (c : Client) (e : ScreenEvent) : Screen :=
  (w.load (c.reads w.user e) c.screen).step e

/-- Event `e` of client `k` has left the screen `y`. -/
def adopt (k : Nat) (c : Client) (e : ScreenEvent) (y : Screen) (w : World) : World :=
  { w with
    clients := w.clients.set k (c.after w.user e y)
    device :=
      { today := y.session.today
        palmiIsCool := y.session.palmiIsCool
        sectionColor := y.session.sectionColor }
    nextIdent := y.session.nextIdent
    crashed := y.session.crashed }

/-- Event `e` of client `k`.  Its writes are those that its journal has
gained. -/
def perform (k : Nat) (c : Client) (e : ScreenEvent) (w : World) : World :=
  let y := w.stepped c e
  let w' := issueAll c.owner (c.writes w.user e)
    (y.session.journal.drop c.screen.session.journal.length) (w.adopt k c e y)
  if w.user = none ∧ c.takesUser e y = true then { w' with crashed := some .nilUnwrap } else w'

/-- The event is possible for client `k`. -/
def Possible (w : World) (k : Nat) (e : ScreenEvent) : Prop :=
  e.isBackground = true ∨ w.user.isSome = true ∧ k + 1 = w.clients.length ∧ e.isShared = false

instance (w : World) (k : Nat) (e : ScreenEvent) : Decidable (w.Possible k e) :=
  inferInstanceAs (Decidable (_ ∨ _))

def client (k : Nat) (e : ScreenEvent) (w : World) : World :=
  match w.clients[k]? with
  | none => w
  | some c => if w.Possible k e then w.perform k c e else w

/-- One event on a device whose process has not ended. -/
def handle (w : World) : WorldEvent → World
  | .loginTapped user => w.loginTapped user
  | .signUpTapped user => w.signUpTapped user
  | .signOutButtonTapped => { w with user := none }
  | .relaunch => w.relaunch
  | .nextDay => { w with device := { w.device with today := w.device.today + 1 } }
  | .client k e => w.client k e

def step (w : World) (e : WorldEvent) : World :=
  if w.crashed = none then w.handle e
  else if e = .relaunch then w.relaunch
  else w

abbrev run (w : World) (es : List WorldEvent) : World := Runs.run step w es

end World

end HabitHive
