import HabitHive.Devices
import HabitHive.Origins
import HabitHive.Simulation

/-!
# Where stored values come from

The program stores what its user enters: names that were typed, amounts that
were picked, colors that were pressed, next to what it counts itself.
`Values` says which of each are meant, and `Values.Closed` that this covers
what the program makes of them.  `Holds` says that a session has no others,
in the documents, in the list, in the forms and in the calls in flight.

Every event keeps `Holds`, if what it enters is covered (`Holds.step`).  The
choice of `Values` is left to the consumer: with what the controls of the
app can enter it gives ranges, and with what is entered in a given run it
says that nothing else is ever stored (`stored_entered`).
-/

namespace HabitHive

open HabitCollection

/-- The values of habits that are meant.  `typed` is for the text of a form,
which need not be a name yet. -/
structure Values where
  typed : Text → Prop
  name : Text → Prop
  color : Int → Prop
  goal : Int → Prop
  count : Int → Prop
  streak : Int → Prop

/-- The test that both forms make before they save. -/
def Text.Accepted (text : Text) : Prop := text ≠ [] ∧ text.length < 24

/-- What the program makes of the values is meant too. -/
structure Values.Closed (V : Values) : Prop where
  empty : V.typed []
  typed : ∀ text, V.name text → V.typed text
  name : ∀ text, V.typed text → text.Accepted → V.name text
  noCount : V.count 0
  countUp : ∀ count goal, V.count count → V.goal goal → count < goal → V.count (count + 1)
  noStreak : V.streak 0

/-- `W` means more than `V`. -/
structure Values.Le (V W : Values) : Prop where
  typed : ∀ text, V.typed text → W.typed text
  name : ∀ text, V.name text → W.name text
  color : ∀ color, V.color color → W.color color
  goal : ∀ goal, V.goal goal → W.goal goal
  count : ∀ count, V.count count → W.count count
  streak : ∀ streak, V.streak streak → W.streak streak

/-- What an event enters is meant. -/
def Event.Enters (V : Values) : Event → Prop
  | .createName _ text | .editName _ text => V.typed text
  | .createAmount _ amount | .editAmount _ amount => V.goal amount
  -- the goal of a habit that is created with a time
  | .createTime .. => V.goal 0
  | .sectionColor color => V.color color
  | _ => True

/-! ## Documents -/

structure HabitFields.Within (V : Values) (f : HabitFields) : Prop where
  name : ∀ text ∈ f.name, V.name text
  color : ∀ color ∈ f.color, V.color color
  goal : ∀ goal ∈ f.goal, V.goal goal
  count : ∀ count ∈ f.currentCount, V.count count
  streak : ∀ streak ∈ f.streak, V.streak streak

def Store.Within (V : Values) (st : Store) : Prop :=
  ∀ k, ∀ doc ∈ st.habits k, doc.fields.Within V

structure Habit.Within (V : Values) (h : Habit) : Prop where
  name : V.name h.name
  color : V.color h.color
  goal : V.goal h.goal
  count : V.count h.currentCount
  streak : V.streak h.streak

def Write.Within (V : Values) : Write → Prop
  | .setHabit _ doc => doc.fields.Within V
  | .updateHabit _ fields _ => fields.Within V
  | .updateUser _ | .deleteHabit _ => True

variable {V : Values}

/-- Fields that enter none of the values. -/
theorem HabitFields.Within.of_none {f : HabitFields} (hname : f.name = none)
    (hcolor : f.color = none) (hgoal : f.goal = none) (hcount : f.currentCount = none)
    (hstreak : f.streak = none) : f.Within V := by
  constructor <;> simp_all

theorem HabitFields.Within.mono {W : Values} (hVW : V.Le W) {f : HabitFields} (h : f.Within V) :
    f.Within W :=
  ⟨fun x hx => hVW.name x (h.name x hx), fun x hx => hVW.color x (h.color x hx),
    fun x hx => hVW.goal x (h.goal x hx), fun x hx => hVW.count x (h.count x hx),
    fun x hx => hVW.streak x (h.streak x hx)⟩

theorem Habit.Within.mono {W : Values} (hVW : V.Le W) {h : Habit} (hh : h.Within V) : h.Within W :=
  ⟨hVW.name _ hh.name, hVW.color _ hh.color, hVW.goal _ hh.goal, hVW.count _ hh.count,
    hVW.streak _ hh.streak⟩

theorem HabitFields.Within.merge {f g : HabitFields} (hf : f.Within V) (hg : g.Within V) :
    (f.merge g).Within V := by
  have hor : ∀ {α : Type} {P : α → Prop} {a b : Option α}, (∀ x ∈ a, P x) → (∀ x ∈ b, P x) →
      ∀ x ∈ a <|> b, P x := by
    intro α P a b ha hb x hx
    cases a with
    | none => exact hb x (by simpa using hx)
    | some y => exact ha x (by simpa using hx)
  exact ⟨hor hg.name hf.name, hor hg.color hf.color, hor hg.goal hf.goal, hor hg.count hf.count,
    hor hg.streak hf.streak⟩

theorem Habit.Within.toDocument {h : Habit} (hh : h.Within V) : h.toDocument.fields.Within V := by
  constructor <;> intro x hx <;> rw [← Option.some.inj hx]
  · exact hh.name
  · exact hh.color
  · exact hh.goal
  · exact hh.count
  · exact hh.streak

namespace Store.Within

variable {st : Store}

theorem apply (h : st.Within V) {w : Write} (hw : w.Within V) : (st.apply w).Within V := by
  intro k doc hdoc
  cases w with
  | updateUser fields => exact h k doc hdoc
  | setHabit n new =>
    rw [Option.mem_def, Store.apply_setHabit_habits] at hdoc
    split at hdoc
    · rw [← Option.some.inj hdoc]
      exact hw
    · exact h k doc hdoc
  | updateHabit n fields ident =>
    rw [Option.mem_def, Store.apply_updateHabit_habits] at hdoc
    split at hdoc
    · obtain ⟨old, hold, rfl⟩ := Option.map_eq_some_iff.mp hdoc
      exact (h n old hold).merge hw
    · exact h k doc hdoc
  | deleteHabit n =>
    rw [Option.mem_def, Store.apply_deleteHabit_habits] at hdoc
    split at hdoc
    · contradiction
    · exact h k doc hdoc

theorem applyAll (h : st.Within V) {ws : List Write} (hws : ∀ w ∈ ws, w.Within V) :
    (st.applyAll ws).Within V := by
  induction ws generalizing st with
  | nil => exact h
  | cons w ws ih => exact ih (h.apply (hws w (by simp))) fun w' hw' => hws w' (by simp [hw'])

theorem readHabit (h : st.Within V) {n : Nat} {habit : Habit}
    (hread : st.readHabit n = some habit) :
    habit.Within V := by
  rw [Store.readHabit, Habit.ofDocument_eq] at hread
  obtain ⟨doc, hdoc, hhabit⟩ := Option.bind_eq_some_iff.mp hread
  obtain ⟨entry, hentry, rfl⟩ := Option.map_eq_some_iff.mp hhabit
  have hfields := h n doc hdoc
  rw [HabitFields.decode_eq_some.mp hentry] at hfields
  exact ⟨hfields.name _ rfl, hfields.color _ rfl, hfields.goal _ rfl, hfields.count _ rfl,
    hfields.streak _ rfl⟩

/-- An account with the given habits. -/
theorem ofEntries {entries : List Entry} (h : ∀ entry ∈ entries, entry.fields.Within V) :
    (Store.ofEntries entries).Within V := by
  intro k doc hdoc
  obtain ⟨fields, hfields, rfl⟩ := Option.map_eq_some_iff.mp hdoc
  obtain ⟨entry, hentry, rfl⟩ := List.mem_map.mp (List.mem_of_getElem? hfields)
  exact h entry hentry

end Store.Within

/-! ## Sessions -/

/-- All values of a session are meant. -/
structure Holds (V : Values) (s : State) : Prop where
  store : s.store.Within V
  list : ∀ h ∈ s.habitArray, h.Within V
  reads : ∀ p ∈ s.pending, ∀ st ∈ p.snapshot, st.Within V
  /-- of the habit of a create the count and the streak are not stored -/
  creates : ∀ p ∈ s.pending, ∀ c habit, p.callback = .addHabit c habit →
    V.name habit.name ∧ V.color habit.color ∧ V.goal habit.goal
  creating : ∀ form ∈ s.creating, V.typed form.habitName ∧
    (V.goal form.valueCounter ∨ form.valueCounter = 0 ∧ form.typeOfHabitSelected = false)
  editing : ∀ form ∈ s.editing,
    V.typed form.habitName ∧ V.goal form.valueCounter ∧ V.streak form.habit.streak
  /-- the color of the next create -/
  color : V.color (s.sectionColor.getD 6)

/-- The streaks that an appearance of the list counts up are meant. -/
def CountsUp (V : Values) (s : State) (e : Event) : Prop :=
  e = .viewWillAppear → ∀ habit ∈ s.habitArray, V.streak (habit.streak + 1)

namespace Holds

variable {s s' : State} {e : Event}

/-- A session with nothing in memory. -/
theorem fresh (hstore : s.store.Within V) (hlist : s.habitArray = []) (hpending : s.pending = [])
    (hcreating : s.creating = []) (hediting : s.editing = [])
    (hcolor : V.color (s.sectionColor.getD 6)) : Holds V s where
  store := hstore
  list := by simp [hlist]
  reads := by simp [hpending]
  creates := by simp [hpending]
  creating := by simp [hcreating]
  editing := by simp [hediting]
  color := hcolor

theorem crash (h : Holds V s) (f : Fault) : Holds V (s.crash f) :=
  ⟨h.store, h.list, h.reads, h.creates, h.creating, h.editing, h.color⟩

/-- With more values that are meant. -/
theorem mono {W : Values} (hVW : V.Le W) (h : Holds V s) : Holds W s where
  store k doc hdoc := (h.store k doc hdoc).mono hVW
  list habit hmem := (h.list habit hmem).mono hVW
  reads p hp st hst k doc hdoc := (h.reads p hp st hst k doc hdoc).mono hVW
  creates p hp c habit hcb := by
    obtain ⟨hname, hcolor, hgoal⟩ := h.creates p hp c habit hcb
    exact ⟨hVW.name _ hname, hVW.color _ hcolor, hVW.goal _ hgoal⟩
  creating form hmem := (h.creating form hmem).imp (hVW.typed _) (Or.imp_left (hVW.goal _))
  editing form hmem := by
    obtain ⟨htyped, hgoal, hstreak⟩ := h.editing form hmem
    exact ⟨hVW.typed _ htyped, hVW.goal _ hgoal, hVW.streak _ hstreak⟩
  color := hVW.color _ h.color

/-- The habits that an event leaves in the list. -/
theorem leaves (hV : V.Closed) (h : Holds V s) (hstreak : CountsUp V s e) {habit : Habit}
    (hleaves : Leaves s e habit) : habit.Within V := by
  cases hleaves with
  | same hmem => exact h.list habit hmem
  | @reset old he hmem =>
    obtain ⟨hname, hcolor, hgoal, _, _⟩ := h.list old hmem
    refine ⟨hname, hcolor, hgoal, hV.noCount, ?_⟩
    rw [resetHabit]
    dsimp only
    split
    · exact hV.noStreak
    · exact hstreak he old hmem
  | @tapped old hmem =>
    have hold := h.list old hmem
    have hincremented : old.incremented.Within V := by
      rw [Habit.incremented]
      split
      · next hlt => exact { hold with count := hV.countUp _ _ hold.count hold.goal hlt }
      · exact hold
    rw [Habit.tapped]
    split
    · exact { hincremented with }
    · exact hincremented
  | @time old time hmem => exact { h.list old hmem with }
  | @finish old hmem => exact { h.list old hmem with }
  | read hmem hst hread => exact (h.reads _ hmem _ hst).readHabit hread

/-- The writes of an event. -/
theorem issues (hV : V.Closed) (h : Holds V s) (hstreak : CountsUp V s e) {w : Write}
    (hissues : Issues s e w) : w.Within V := by
  cases hissues with
  | user fields => trivial
  | delete n => trivial
  | list n hmem => exact (h.list _ hmem).toDocument
  | create n time hmem hcb =>
    obtain ⟨hname, hcolor, hgoal⟩ := h.creates _ hmem _ _ hcb
    constructor <;> intro x hx <;> rw [← Option.some.inj hx]
    · exact hname
    · exact hcolor
    · exact hgoal
    · exact hV.noCount
    · exact hV.noStreak
  | reset n he hmem =>
    have hhabit := h.leaves hV hstreak (.reset he hmem)
    constructor <;> intro x hx
    · rw [← Option.some.inj hx]
      exact hhabit.name
    · contradiction
    · rw [← Option.some.inj hx]
      exact hhabit.goal
    · rw [← Option.some.inj hx]
      exact hV.noCount
    · rw [← Option.some.inj hx]
      exact hhabit.streak
  | tap he hrow haccepts hlt =>
    have hhabit := h.list _ (List.mem_of_getElem? hrow)
    have hcount := hV.countUp _ _ hhabit.count hhabit.goal hlt
    constructor <;> simp [hcount]
  | edit he hform hname hlength hcolor =>
    obtain ⟨htyped, hgoal, hkept⟩ := h.editing _ (List.mem_of_getElem? hform)
    constructor <;> intro x hx <;> rw [← Option.some.inj hx]
    · exact hV.name _ htyped ⟨hname, hlength⟩
    · have hchosen := h.color
      rwa [hcolor] at hchosen
    · exact hgoal
    · exact hV.noCount
    · exact hkept
  | time row ident time => exact .of_none rfl rfl rfl rfl rfl
  | finish row ident => exact .of_none rfl rfl rfl rfl rfl

/-- An event that enters what is meant. -/
theorem of_origins (hV : V.Closed) (h : Holds V s) (he : e.Enters V) (hstreak : CountsUp V s e)
    (ho : Origins s e s') : Holds V s' where
  store := by
    obtain ⟨ws, hstore, _, hws⟩ := ho.writes
    rw [hstore]
    exact h.store.applyAll fun w hw => h.issues hV hstreak (hws w hw)
  list habit hmem := h.leaves hV hstreak (ho.list habit hmem)
  reads p hp st hst := by
    rcases ho.reads p hp st hst with ⟨q, hq, hst⟩ | rfl
    · exact h.reads q hq st hst
    · exact h.store
  creates p hp c habit hcb := by
    rcases ho.creates p hp c habit hcb with
      ⟨q, hq, hold⟩ | ⟨form, hform, htype, hname, hlength, rfl⟩
    · exact h.creates q hq c habit hold
    · obtain ⟨htyped, hgoal⟩ := h.creating form (List.mem_of_getElem? hform)
      refine ⟨hV.name _ htyped ⟨hname, hlength⟩, h.color, hgoal.resolve_right fun hnone => ?_⟩
      rw [htype] at hnone
      exact absurd hnone.2 (by simp)
  creating form hmem := by
    obtain ⟨hname, hamount⟩ := ho.creating form hmem
    constructor
    · rcases hname with hname | ⟨old, hold, hname⟩ | ⟨c, rfl⟩
      · rw [hname]
        exact hV.empty
      · rw [← hname]
        exact (h.creating old hold).1
      · exact he
    · rcases hamount with hnone | ⟨old, hold, hamount, htype⟩ | ⟨c, rfl⟩
      · exact Or.inr hnone
      · rcases htype with htype | ⟨c, time, rfl⟩
        · rw [← hamount, ← htype]
          exact (h.creating old hold).2
        · -- the amount of the form, or none yet
          rw [← hamount]
          refine Or.inl ((h.creating old hold).2.elim id fun hnone => ?_)
          rw [hnone.1]
          exact he
      · exact Or.inl he
  editing form hmem := by
    obtain ⟨hname, hamount, hkept⟩ := ho.editing form hmem
    refine ⟨?_, ?_, ?_⟩
    · rcases hname with ⟨old, hold, hname⟩ | ⟨habit, hhabit, hname⟩ | ⟨i, rfl⟩
      · rw [← hname]
        exact (h.editing old hold).1
      · rw [← hname]
        exact hV.typed _ (h.list habit hhabit).name
      · exact he
    · rcases hamount with ⟨old, hold, hamount⟩ | ⟨habit, hhabit, hamount⟩ | ⟨i, rfl⟩
      · rw [← hamount]
        exact (h.editing old hold).2.1
      · rw [← hamount]
        exact (h.list habit hhabit).goal
      · exact he
    · rcases hkept with ⟨old, hold, hkept⟩ | ⟨habit, hhabit, hkept⟩
      · rw [← hkept]
        exact (h.editing old hold).2.2
      · rw [← hkept]
        exact (h.list habit hhabit).streak
  color := by
    rcases ho.color with hcolor | ⟨color, hcolor, rfl | ⟨habit, hhabit, rfl⟩⟩
    · rw [hcolor]
      exact h.color
    · rw [hcolor]
      exact he
    · rw [hcolor]
      exact (h.list habit hhabit).color

/-! ### Runs -/

theorem step (hV : V.Closed) (h : Holds V s) (he : e.Enters V) (hstreak : CountsUp V s e) :
    Holds V (step s e) :=
  h.of_origins hV he hstreak (origins_step s e)

/-- A run that enters what is meant stores nothing else. -/
theorem run (hV : V.Closed) (hstreak : ∀ streak, V.streak streak → V.streak (streak + 1))
    (h : Holds V s) {es : List Event} (hes : ∀ e ∈ es, e.Enters V) : Holds V (run s es) := by
  induction es generalizing s with
  | nil => exact h
  | cons e es ih =>
    refine ih (h.step hV (hes e (by simp)) fun _ habit hmem => ?_) fun e' he' =>
      hes e' (by simp [he'])
    exact hstreak _ (h.list habit hmem).streak

/-- The same for the screen. -/
theorem screen (hV : V.Closed) (hstreak : ∀ streak, V.streak streak → V.streak (streak + 1))
    {x : Screen} (h : Holds V x.session) {es : List ScreenEvent}
    (hes : ∀ e, .session e ∈ es → e.Enters V) : Holds V (x.run es).session := by
  refine (Screen.run_covered x es).invariant (fun s f h => h.crash f) (fun s e he h => ?_) h
  refine h.step hV ?_ fun _ habit hmem => hstreak _ (h.list habit hmem).streak
  rcases he with hcell | hmem
  · cases e with
    | handleLongPress _ | deleteHabit | editHabit | didSelectItemAt _ _ | createTimeArray _ _ _
    | showAlert _ => trivial
    | _ => contradiction
  · obtain ⟨e', he', hmem⟩ := List.mem_flatMap.mp hmem
    cases e' with
    | session e' =>
      rw [List.mem_singleton.mp hmem]
      exact hes e' he'
    | _ => contradiction

end Holds

/-! ## What a run enters -/

/-- A value of a stored habit. -/
def Store.Contains {α : Type} (st : Store) (field : HabitFields → Option α) (x : α) : Prop :=
  ∃ k, ∃ doc ∈ st.habits k, field doc.fields = some x

/-- The event types the text of a name. -/
def Event.types (text : Text) : Event → Prop
  | .createName _ text' | .editName _ text' => text' = text
  | _ => False

/-- The event confirms an amount. -/
def Event.picks (amount : Int) : Event → Prop
  | .createAmount _ amount' | .editAmount _ amount' => amount' = amount
  | _ => False

/-- The event confirms a time for a habit that is created. -/
def Event.setsTime : Event → Prop
  | .createTime .. => True
  | _ => False

/-- The values that are stored in `st` or entered in the run of `es` on the
device `d`.  A create takes the color that was chosen last, which is gray on
a device on which none was, and a habit that is created with a time has the
goal 0. -/
def entered (st : Store) (d : Device) (es : List ScreenEvent) : Values where
  typed text := text = [] ∨ st.Contains HabitFields.name text ∨ ∃ e, .session e ∈ es ∧ e.types text
  name text := st.Contains HabitFields.name text ∨
    text.Accepted ∧ ∃ e, .session e ∈ es ∧ e.types text
  color color := st.Contains HabitFields.color color ∨ color = d.sectionColor.getD 6 ∨
    .session (.sectionColor color) ∈ es
  goal goal := st.Contains HabitFields.goal goal ∨
    (goal = 0 ∧ ∃ e, .session e ∈ es ∧ e.setsTime) ∨ ∃ e, .session e ∈ es ∧ e.picks goal
  count _ := True
  streak _ := True

section Entered

variable (st : Store) (d : Device) (es : List ScreenEvent)

theorem entered_closed : (entered st d es).Closed where
  empty := Or.inl rfl
  typed _ h := Or.inr (h.imp_right And.right)
  name _ h haccepted := (h.resolve_left haccepted.1).imp_right fun h => ⟨haccepted, h⟩
  noCount := trivial
  countUp _ _ _ _ _ := trivial
  noStreak := trivial

theorem enters_entered {e : Event} (he : .session e ∈ es) : e.Enters (entered st d es) := by
  cases e with
  | createName _ _ | editName _ _ => exact Or.inr (Or.inr ⟨_, he, rfl⟩)
  | createAmount _ _ | editAmount _ _ => exact Or.inr (Or.inr ⟨_, he, rfl⟩)
  | createTime _ _ => exact Or.inr (Or.inl ⟨rfl, _, he, trivial⟩)
  | sectionColor _ => exact Or.inr (Or.inr he)
  | _ => trivial

/-- What is stored is meant. -/
theorem within_entered : st.Within (entered st d es) := by
  intro k doc hdoc
  constructor <;> intro x hx
  · exact Or.inl ⟨k, doc, hdoc, hx⟩
  · exact Or.inl ⟨k, doc, hdoc, hx⟩
  · exact Or.inl ⟨k, doc, hdoc, hx⟩
  · trivial
  · trivial

end Entered

/-- In every run of the screen, each name, color and goal that is stored or
listed was stored before the run or is entered in it, whatever the order of
events: a name that is typed and accepted, a color that is chosen, an amount
that is confirmed.  The exceptions are the color that the device has kept,
or gray where it has none, and the goal 0 where a time is confirmed for a
habit that is created. -/
theorem stored_entered (st : Store) (d : Device) (nextIdent : Nat) (es : List ScreenEvent) :
    let s := (Screen.run { session := d.signIn st nextIdent } es).session
    s.store.Within (entered st d es) ∧ ∀ habit ∈ s.habitArray, habit.Within (entered st d es) := by
  have hstart : Holds (entered st d es)
      ({ session := d.signIn st nextIdent } : Screen).session :=
    .fresh (within_entered st d es) rfl rfl rfl rfl (Or.inr (Or.inl rfl))
  have hrun := hstart.screen (entered_closed st d es) (fun _ _ => trivial) fun e he =>
    enters_entered st d es he
  exact ⟨hrun.store, hrun.list⟩

end HabitHive
