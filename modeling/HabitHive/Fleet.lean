import HabitHive.Lib.Pool
import HabitHive.Devices
import HabitHive.Launch
import HabitHive.Ranges

/-!
# Several devices of one user

A user can be signed in on several devices, which share the documents of
the account and nothing else.  `Fleet` is the list screens of any number of
devices on one store.  Their events come in any order, so between two events
of a device the others may have changed every document, and the reads that a
device has in flight may be older than any of these changes.

What holds of one device holds of all of them where it is kept whatever the
others do to the store: what is stored was entered on one of them
(`Fleet.stored_entered_on`), streaks stay below the number of appearances on
all of them (`Fleet.streak_le_appearances_of_all`), and once the users stop,
what is under way on all of them runs out (`Fleet.quiesces`).  Then every
launch shows the same habits (`launches_agree`).
-/

namespace HabitHive

/-! ## Fleets -/

/-- The session on the documents `st`. -/
def State.on (st : Store) (s : State) : State := { s with store := st }

/-- The screen on the documents `st`. -/
def Screen.on (st : Store) (x : Screen) : Screen := { x with session := x.session.on st }

/-- The list screens of devices that share the documents of an account. -/
abbrev Fleet := Runs.Pool Store Screen

namespace Fleet

/-- The user signs in on the devices. -/
def opened (st : Store) (devices : List Device) : Fleet where
  store := st
  members := devices.map fun d => { session := d.signIn st 0 }

/-- An event of one device. -/
abbrev step : Fleet → ℕ × ScreenEvent → Fleet :=
  Runs.Pool.next (fun x => x.session.store) Screen.on Screen.step

abbrev run (x : Fleet) (es : List (ℕ × ScreenEvent)) : Fleet := Runs.run step x es

end Fleet

/-! ## What is stored -/

theorem Holds.on {V : Values} {s : State} (h : Holds V s) {st : Store} (hst : st.Within V) :
    Holds V (s.on st) :=
  ⟨hst, h.list, h.reads, h.creates, h.creating, h.editing, h.color⟩

namespace Fleet

/-- All values on all devices are meant. -/
abbrev Holds (V : Values) : Fleet → Prop :=
  Runs.Pool.All (Store.Within V) fun x => HabitHive.Holds V x.session

theorem holds_opened {V : Values} {st : Store} {devices : List Device} (hst : st.Within V)
    (hcolor : ∀ d ∈ devices, V.color (d.sectionColor.getD 6)) : Holds V (opened st devices) where
  store := hst
  members x hx := by
    obtain ⟨d, hd, rfl⟩ := List.mem_map.mp hx
    exact .fresh hst rfl rfl rfl rfl (hcolor d hd)

/-- The values that are stored in `st` or entered on one of the devices in
the run.  A create takes the color that was chosen last on its device, which
is gray where none was, and a habit that is created with a time has the goal
0. -/
def entered (st : Store) (devices : List Device) (es : List (ℕ × ScreenEvent)) : Values where
  typed text := text = [] ∨ st.Contains HabitFields.name text ∨
    ∃ k e, (k, .session e) ∈ es ∧ e.types text
  name text := st.Contains HabitFields.name text ∨
    text.Accepted ∧ ∃ k e, (k, .session e) ∈ es ∧ e.types text
  color color := st.Contains HabitFields.color color ∨
    (∃ d ∈ devices, color = d.sectionColor.getD 6) ∨ ∃ k, (k, .session (.sectionColor color)) ∈ es
  goal goal := st.Contains HabitFields.goal goal ∨
    (goal = 0 ∧ ∃ k e, (k, .session e) ∈ es ∧ e.setsTime) ∨
      ∃ k e, (k, .session e) ∈ es ∧ e.picks goal
  count _ := True
  streak _ := True

theorem entered_closed (st : Store) (devices : List Device) (es : List (ℕ × ScreenEvent)) :
    (entered st devices es).Closed where
  empty := Or.inl rfl
  typed _ h := Or.inr (h.imp_right And.right)
  name _ h haccepted := (h.resolve_left haccepted.1).imp_right fun h => ⟨haccepted, h⟩
  noCount := trivial
  countUp _ _ _ _ _ := trivial
  noStreak := trivial

theorem enters_entered {st : Store} {devices : List Device} {es : List (ℕ × ScreenEvent)} {k : ℕ}
    {e : Event} (he : (k, .session e) ∈ es) : e.Enters (entered st devices es) := by
  cases e with
  | createName _ _ | editName _ _ => exact Or.inr (Or.inr ⟨k, _, he, rfl⟩)
  | createAmount _ _ | editAmount _ _ => exact Or.inr (Or.inr ⟨k, _, he, rfl⟩)
  | createTime _ _ => exact Or.inr (Or.inl ⟨rfl, k, _, he, trivial⟩)
  | sectionColor _ => exact Or.inr (Or.inr ⟨k, he⟩)
  | _ => trivial

/-- Whatever happens on all the devices and in whatever order, each name,
color and goal that is stored, or listed on one of them, was stored before or
is entered on one of them.  The exceptions are the color that one of the
devices has kept, or gray where it has none, and the goal 0 where a time is
confirmed for a habit that is created. -/
theorem stored_entered_on (st : Store) (devices : List Device) (es : List (ℕ × ScreenEvent)) :
    let x := (opened st devices).run es
    x.store.Within (entered st devices es) ∧ ∀ y ∈ x.members, ∀ habit ∈ y.session.habitArray,
      habit.Within (entered st devices es) := by
  have hstart : Holds (entered st devices es) (opened st devices) := by
    refine holds_opened (fun k doc hdoc => ?_) fun d hd => Or.inr (Or.inl ⟨d, hd, rfl⟩)
    constructor <;> intro v hv
    · exact Or.inl ⟨k, doc, hdoc, hv⟩
    · exact Or.inl ⟨k, doc, hdoc, hv⟩
    · exact Or.inl ⟨k, doc, hdoc, hv⟩
    · trivial
    · trivial
  have hes : Runs.Guarded step (fun _ e => True ∧ e ∈ es) (opened st devices) es :=
    (Runs.guarded_true _ es).and_forall fun _ => id
  have hrun := Runs.run_invariant (I := Holds (entered st devices es)) (fun x e h he => ?_) hes
    hstart
  · exact ⟨hrun.store, fun y hy => (hrun.members y hy).list⟩
  · refine h.next (fun y hy => hy.on h.store) (fun y hy => ?_) (fun y hy => hy.store) id fun _ => id
    have hrun : HabitHive.Holds (entered st devices es) (y.run [e.2]).session :=
      hy.screen (entered_closed st devices es) (fun _ _ => trivial) fun e' he' =>
        enters_entered (k := e.1) (by
          rw [List.mem_singleton.mp he']
          exact he.2)
    exact hrun

/-! ## Streaks -/

/-- Whatever happens on all the devices and in whatever order, a streak that
is stored, or listed on one of them, is at most the number of appearances of
the list on all of them, next to the longest one that was stored before. -/
theorem streak_le_appearances_of_all {st : Store} {k : Nat} (hst : st.Within (streakUpTo k))
    (devices : List Device) (es : List (ℕ × ScreenEvent)) :
    let x := (opened st devices).run es
    let V := streakUpTo (k + (es.map Prod.snd).count (.session .viewWillAppear))
    x.store.Within V ∧ ∀ y ∈ x.members, ∀ habit ∈ y.session.habitArray, habit.Within V := by
  have hrun : ∀ (es : List (ℕ × ScreenEvent)) (x : Fleet) (k : Nat), Holds (streakUpTo k) x →
      Holds (streakUpTo (k + (es.map Prod.snd).count (.session .viewWillAppear))) (x.run es) := by
    intro es
    induction es with
    | nil => exact fun _ _ h => h
    | cons e es ih =>
      intro x k h
      have hle : k ≤ k + [e.2].count (.session .viewWillAppear) := Nat.le_add_right _ _
      have hnext : Holds (streakUpTo (k + [e.2].count (.session .viewWillAppear))) (x.step e) :=
        h.next (fun y hy => hy.on h.store) (fun y hy => Screen.run_streaks hy [e.2])
          (fun y hy => hy.store)
          (fun h i doc hdoc => (h i doc hdoc).mono (streakUpTo_mono hle))
          fun y hy => hy.mono (streakUpTo_mono hle)
      have hcount : (List.map Prod.snd (e :: es)).count (.session .viewWillAppear) =
          [e.2].count (.session .viewWillAppear) +
            (es.map Prod.snd).count (.session .viewWillAppear) := by
        rw [List.map_cons, ← List.singleton_append, List.count_append]
      rw [hcount, ← Nat.add_assoc]
      exact ih _ _ hnext
  have h := hrun es (opened st devices) k (holds_opened hst fun _ _ => trivial)
  exact ⟨h.store, fun y hy => (h.members y hy).list⟩

/-- The habit is completed on a device. -/
def tapOne : List ScreenEvent :=
  [.cellForItemAt 0 0, .didSelectItemAt 0 0 0, .session (.deliver 0), .session (.serve 0),
    .session (.deliver 0)]

/-- The list appears on a device, the habit is completed there, and then the
list appears on the other one. -/
def bothAppear : List (ℕ × ScreenEvent) :=
  (ScreenEvent.appearOne ++ tapOne).map (fun e => (0, e)) ++
    ScreenEvent.appearOne.map fun e => (1, e)

/-- Both devices have raised the streak. -/
theorem streak_le_appearances_of_all_two :
    let x := (opened completedStore [{ today := 0 }, { today := 0 }]).run bothAppear
    let V := streakUpTo (2 + (bothAppear.map Prod.snd).count (.session .viewWillAppear))
    (x.store.habits 0).map (·.fields.streak) = some (some 4) ∧
      x.members.map (fun y => y.session.habitArray.map Habit.streak) = [[3], [4]] ∧
      x.store.Within V ∧ ∀ y ∈ x.members, ∀ habit ∈ y.session.habitArray, habit.Within V :=
  ⟨by decide, by decide, streak_le_appearances_of_all completedStore_within _ _⟩

/-! ## Rest -/

/-- Once nothing new is started on the devices, what is in flight on them
changes finitely often, whichever reads fail; and if devices of which one has
something in flight move sooner or later, all of them come to rest. -/
theorem quiesces (x : Fleet) (e : ℕ → ℕ × ScreenEvent) (he : ∀ n, (e n).2.calls = false) :
    (∃ n, ∀ m, n ≤ m → (Runs.trace step x e m).heldAll Screen.held =
      (Runs.trace step x e n).heldAll Screen.held) ∧
    ((∀ n, (∃ y ∈ (Runs.trace step x e n).members, ¬y.AtRest) → ∃ m, n ≤ m ∧
        (Runs.trace step x e (m + 1)).heldAll Screen.held ≠
          (Runs.trace step x e m).heldAll Screen.held) →
      ∃ n, ∀ m, n ≤ m → ∀ y ∈ (Runs.trace step x e m).members, y.AtRest) := by
  have hdrains : ∀ n (y : Screen), Draining.Drains Screen.step Screen.held Screen.work y (e n).2 :=
    fun n y => Screen.drains_step (he n) y
  have hheld : ∀ st (y : Screen), (y.on st).held = y.held := fun _ _ => rfl
  refine ⟨Runs.Pool.settles hheld (fun _ _ => Screen.work_eq_of_held) hdrains, fun hfair => ?_⟩
  obtain ⟨n, hrest⟩ := Runs.Pool.rests (x := x) hheld (fun _ _ => Screen.work_eq_of_held) hdrains
    Screen.Busy fun n ⟨y, hy, hbusy⟩ =>
      hfair n ⟨y, hy, fun hrest => (Screen.not_busy_iff y).mpr hrest hbusy⟩
  exact ⟨n, fun m hm y hy => (Screen.not_busy_iff y).mp (hrest m hm y hy)⟩

/-- A finite schedule to rest, after which the days pass, is one on which
the devices move sooner or later. -/
theorem moves_of_rest {x : Fleet} {es : List (ℕ × ScreenEvent)}
    (hrest : ∀ y ∈ (x.run es).members, y.AtRest) (n : ℕ)
    (hn : ∃ y ∈ (Runs.trace step x (fun n => es.getD n (0, .session .nextDay)) n).members,
      ¬y.AtRest) :
    ∃ m, n ≤ m ∧
      (Runs.trace step x (fun n => es.getD n (0, .session .nextDay)) (m + 1)).heldAll Screen.held ≠
        (Runs.trace step x (fun n => es.getD n (0, .session .nextDay)) m).heldAll Screen.held := by
  have hbusy : ∀ x : Fleet, (∃ h ∈ x.heldAll Screen.held, Screen.Busy h) ↔
      ∃ y ∈ x.members, ¬y.AtRest := by
    intro x
    simp [Runs.Pool.heldAll, ← Screen.not_busy_iff]
  have hidle : ∀ y : Screen, (y.step (.session .nextDay)).held = y.held := by
    intro y
    by_cases hrunning : y.session.crashed = none
    · simp [Screen.step, Screen.handle, Screen.sessionEvent, Event.onCell, Screen.held, State.held,
        hrunning, HabitHive.step, HabitHive.handle]
    · simp [Screen.step, hrunning]
  refine Draining.fair_of_rest (Runs.Pool.heldAll Screen.held)
    (fun hs => ∃ h ∈ hs, Screen.Busy h) (fun x _ => ?_) ?_ n ((hbusy _).mpr hn)
  · exact Runs.Pool.heldAll_next (e := ((0 : ℕ), ScreenEvent.session .nextDay))
      (fun st y => (rfl : (y.on st).held = y.held)) hidle x
  · rw [hbusy]
    push Not
    exact hrest

/-- Two devices load the list of the same account. -/
def bothLoad : List (ℕ × ScreenEvent) :=
  [Event.serve 0, .deliver 0, .deliver 0, .serve 0, .deliver 0].flatMap fun e =>
    [(0, .session e), (1, .session e)]

theorem quiesces_two :
    let x := (opened (.ofEntries [.sample 1]) [{ today := 0 }, { today := 0 }]).run
      [(0, .session .viewDidLoad), (1, .session .viewDidLoad)]
    let e : ℕ → ℕ × ScreenEvent := fun n => bothLoad.getD n (0, .session .nextDay)
    (∀ y ∈ x.members, y.session.pending ≠ []) ∧
      ∃ n, ∀ m, n ≤ m → ∀ y ∈ (Runs.trace step x e m).members, y.AtRest := by
  intro x e
  have hcalls : ∀ n, (e n).2.calls = false
    | 0 | 1 | 2 | 3 | 4 | 5 | 6 | 7 | 8 | 9 | _ + 10 => rfl
  exact ⟨by decide, (quiesces x e hcalls).2 (moves_of_rest (by decide))⟩

end Fleet

end HabitHive
