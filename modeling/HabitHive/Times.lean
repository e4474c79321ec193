import HabitHive.CellTime
import HabitHive.Durations
import HabitHive.Model.SetTime

/-!
# The shape of stored times

`Formed` says where a session may hold a time that is not well formed: in
an edit form whose time was confirmed in a picker that was not moved, and
nowhere else.  A create form for a timed habit holds a well-formed time, one
for a counted habit may hold none.  Such a form gets six zeros when its
callback runs, so a callback must find it empty (`FindsEmpty`).
-/

namespace HabitHive

open HabitCollection

/-! ## Arrays -/

/-- Six digits, with minute and second below 60. -/
def WellFormed (time : List Int) : Prop :=
  time.length = 6 ∧ (∀ a ∈ time, 0 ≤ a ∧ a ≤ 9) ∧
    ∀ t ∈ arrayTime time, t.2.1 < 60 ∧ t.2.2 < 60

instance : DecidablePred WellFormed := fun time =>
  inferInstanceAs (Decidable (time.length = 6 ∧ (∀ a ∈ time, 0 ≤ a ∧ a ≤ 9) ∧
    ∀ t ∈ arrayTime time, t.2.1 < 60 ∧ t.2.2 < 60))

/-- A time with two digits in each part, and minute and second below 60. -/
def InRange (time : Int × Int × Int) : Prop :=
  (0 ≤ time.1 ∧ time.1 ≤ 99) ∧ (0 ≤ time.2.1 ∧ time.2.1 < 60) ∧ 0 ≤ time.2.2 ∧ time.2.2 < 60

theorem WellFormed.arrayTime {time : List Int} (h : WellFormed time) :
    ∃ t, arrayTime time = some t ∧ InRange t := by
  obtain ⟨hlength, hdigits, hsixty⟩ := h
  match time, hlength with
  | [a₀, a₁, a₂, a₃, a₄, a₅], _ =>
    obtain ⟨hminute, hsecond⟩ := hsixty _ rfl
    simp only [List.forall_mem_cons] at hdigits
    obtain ⟨h₀, h₁, h₂, h₃, h₄, h₅, _⟩ := hdigits
    refine ⟨_, rfl, ⟨?_, ?_⟩, ⟨?_, hminute⟩, ?_, hsecond⟩ <;> simp only <;> omega

/-- A time in range is stored well. -/
theorem wellFormed_createdArray {cell : Cell} (h : InRange cell.time) :
    WellFormed cell.createdArray := by
  obtain ⟨⟨hhour, hhour'⟩, ⟨hminute, hminute'⟩, hsecond, hsecond'⟩ := h
  simp only [Cell.time] at hhour hhour' hminute hminute' hsecond hsecond'
  refine ⟨rfl, ?_, ?_⟩
  · have hhours := Digits.digits_lt hhour (k := 10) (by omega)
    have hminutes := Digits.digits_lt hminute (k := 10) (by omega)
    have hseconds := Digits.digits_lt hsecond (k := 10) (by omega)
    simp only [Cell.createdArray, List.forall_mem_cons]
    push_cast at hhours hminutes hseconds
    refine ⟨?_, ?_, ?_, ?_, ?_, ?_, by simp⟩ <;> omega
  · intro t ht
    rw [Cell.arrayTime_createdArray, Option.mem_some] at ht
    rw [← ht]
    exact ⟨hminute', hsecond'⟩

/-- A tick keeps the range. -/
theorem inRange_countDown {cell : Cell} (h : InRange cell.time) : InRange cell.countDown.time := by
  obtain ⟨⟨hhour, hhour'⟩, ⟨hminute, hminute'⟩, hsecond, hsecond'⟩ := h
  simp only [Cell.time] at hhour hhour' hminute hminute' hsecond hsecond'
  unfold Cell.countDown Cell.borrowHour Cell.borrowMinute
  split_ifs <;> simp only [InRange, Cell.time] at * <;> omega

theorem wellFormed_zero : WellFormed [0, 0, 0, 0, 0, 0] := by decide

/-- A picker that was moved holds a time of the day. -/
theorem wellFormed_timePickerValue (hour : Fin 24) (minute : Fin 60) (p : SetTime) :
    WellFormed (p.timePickerValue hour minute).timeArray := by
  obtain ⟨hour, hhour⟩ := hour
  obtain ⟨minute, hminute⟩ := minute
  refine ⟨rfl, ?_, ?_⟩
  · simp only [SetTime.timePickerValue, List.forall_mem_cons]
    refine ⟨?_, ?_, ?_, ?_, by decide, by decide, by simp⟩ <;> omega
  · intro t ht
    rw [← Option.mem_some.mp ht]
    constructor <;> simp only <;> omega

/-! ## Documents -/

/-- The time arrays among the fields are well formed. -/
def HabitFields.TimesFormed (f : HabitFields) : Prop :=
  (∀ t ∈ f.timeArray, WellFormed t) ∧ ∀ t ∈ f.timeArrayOriginal, WellFormed t

def Store.TimesFormed (st : Store) : Prop := ∀ k, ∀ doc ∈ st.habits k, doc.fields.TimesFormed

def Habit.TimesFormed (h : Habit) : Prop := WellFormed h.time ∧ WellFormed h.timeOriginal

def Write.TimesFormed : Write → Prop
  | .setHabit _ doc => doc.fields.TimesFormed
  | .updateHabit _ fields _ => fields.TimesFormed
  | .updateUser _ | .deleteHabit _ => True

theorem HabitFields.TimesFormed.merge {f g : HabitFields} (hf : f.TimesFormed)
    (hg : g.TimesFormed) : (f.merge g).TimesFormed := by
  have hor : ∀ {a b : Option (List Int)}, (∀ t ∈ a, WellFormed t) → (∀ t ∈ b, WellFormed t) →
      ∀ t ∈ a <|> b, WellFormed t := by
    intro a b ha hb t ht
    cases a with
    | none => exact hb t (by simpa using ht)
    | some t' => exact ha t (by simpa using ht)
  exact ⟨hor hg.1 hf.1, hor hg.2 hf.2⟩

theorem Habit.TimesFormed.toDocument {h : Habit} (hh : h.TimesFormed) :
    h.toDocument.fields.TimesFormed := by
  refine ⟨fun t ht => ?_, fun t ht => ?_⟩ <;> rw [← Option.some.inj ht]
  · exact hh.1
  · exact hh.2

namespace Store.TimesFormed

variable {st : Store}

theorem apply (h : st.TimesFormed) {w : Write} (hw : w.TimesFormed) : (st.apply w).TimesFormed := by
  intro k doc hdoc
  cases w with
  | updateUser fields => exact h k doc hdoc
  | setHabit n new =>
    rw [Option.mem_def, Store.apply_setHabit_habits] at hdoc
    split at hdoc
    · rw [← Option.some.inj hdoc]
      exact hw
    · exact h k doc hdoc
  | updateHabit n fields ident =>
    rw [Option.mem_def, Store.apply_updateHabit_habits] at hdoc
    split at hdoc
    · obtain ⟨old, hold, rfl⟩ := Option.map_eq_some_iff.mp hdoc
      exact (h n old hold).merge hw
    · exact h k doc hdoc
  | deleteHabit n =>
    rw [Option.mem_def, Store.apply_deleteHabit_habits] at hdoc
    split at hdoc
    · contradiction
    · exact h k doc hdoc

theorem applyAll (h : st.TimesFormed) {ws : List Write} (hws : ∀ w ∈ ws, w.TimesFormed) :
    (st.applyAll ws).TimesFormed := by
  induction ws generalizing st with
  | nil => exact h
  | cons w ws ih =>
    exact ih (h.apply (hws w (by simp))) fun w' hw' => hws w' (by simp [hw'])

theorem readHabit (h : st.TimesFormed) {n : Nat} {habit : Habit}
    (hread : st.readHabit n = some habit) : habit.TimesFormed := by
  rw [Store.readHabit, Habit.ofDocument_eq] at hread
  obtain ⟨doc, hdoc, hhabit⟩ := Option.bind_eq_some_iff.mp hread
  obtain ⟨entry, hentry, rfl⟩ := Option.map_eq_some_iff.mp hhabit
  have hfields := h n doc hdoc
  rw [HabitFields.decode_eq_some.mp hentry] at hfields
  exact ⟨hfields.1 _ rfl, hfields.2 _ rfl⟩

end Store.TimesFormed

/-- An update of a document that does not exist has no effect. -/
theorem Store.apply_updateHabit_of_none {st : Store} {n : Nat} (hdoc : st.habits n = none)
    (f : HabitFields) (i : Nat) : st.apply (.updateHabit n f i) = st := by
  rw [Store.apply, hdoc, Option.map_none, Function.update_eq_self_iff.mpr hdoc.symm]

theorem setHabits_timesFormed {hs : List Habit} (hlist : ∀ h ∈ hs, h.TimesFormed) :
    ∀ w ∈ Store.setHabits 0 (hs.map Habit.toDocument), w.TimesFormed := by
  intro w hw
  obtain ⟨k, doc, hdoc, rfl⟩ := Store.mem_setHabits hw
  obtain ⟨h, hmem, rfl⟩ := List.mem_map.mp hdoc
  exact (hlist h hmem).toDocument

/-- A reset writes the original times. -/
theorem resetWrites_timesFormed {hs : List Habit} (hlist : ∀ h ∈ hs, h.TimesFormed) (n : Nat)
    (names : List Text) : ∀ w ∈ resetWrites n names hs, w.TimesFormed := by
  induction hs generalizing n names with
  | nil => simp [resetWrites]
  | cons h hs ih =>
    have hupdate : (resetUpdate n h).TimesFormed := by
      refine ⟨fun t ht => ?_, by simp [resetFields]⟩
      rw [← Option.some.inj ht]
      exact (hlist h (by simp)).2
    have hrest := ih fun h' h'mem => hlist h' (by simp [h'mem])
    rw [resetWrites]
    cases achievement h with
    | none => exact List.forall_mem_cons.mpr ⟨hupdate, hrest _ _⟩
    | some text =>
      exact List.forall_mem_cons.mpr ⟨hupdate, List.forall_mem_cons.mpr ⟨trivial, hrest _ _⟩⟩

/-! ## Sessions -/

/-- Once the form asks for a timed habit it holds a time, and until then it
may hold none. -/
def CreateForm.TimeFormed (form : CreateForm) : Prop :=
  WellFormed form.timeArray ∨
    form.timeArray = [] ∧ (form.typeOfHabitSelected = true → form.isCounted = true)

/-- The time of an edit form, by whether it was confirmed in a picker that
was not moved. -/
def EditForm.TimeFormed (unmoved : Bool) (form : EditForm) : Prop :=
  if unmoved then 6 < form.habit.time.length else WellFormed form.habit.time

theorem EditForm.TimeFormed.length_ge {unmoved : Bool} {form : EditForm}
    (h : form.TimeFormed unmoved) : 6 ≤ form.habit.time.length := by
  cases unmoved with
  | true =>
    have hlong : 6 < form.habit.time.length := by simpa [EditForm.TimeFormed] using h
    exact hlong.le
  | false =>
    have hwell : WellFormed form.habit.time := by simpa [EditForm.TimeFormed] using h
    exact hwell.1.ge

/-- All times of a session are well formed, but for those that an edit form
got from a picker that was not moved. -/
structure Formed (unmoved : Nat → Bool) (s : State) : Prop where
  store : s.store.TimesFormed
  list : ∀ h ∈ s.habitArray, h.TimesFormed
  reads : ∀ p ∈ s.pending, ∀ st ∈ p.snapshot, st.TimesFormed
  creating : ∀ form ∈ s.creating, form.TimeFormed
  /-- the create of a timed habit is made on a form with a time -/
  timed : ∀ p ∈ s.pending, ∀ c habit, p.callback = .addHabit c habit → habit.counted = false →
    ∃ form, s.creating[c]? = some form ∧ WellFormed form.timeArray
  editing : ∀ e (form : EditForm), s.editing[e]? = some form → form.TimeFormed (unmoved e)
  unmoved : ∀ e, unmoved e = true → e < s.editing.length

namespace Formed

variable {unmoved : Nat → Bool} {s s' : State}

/-- A session with nothing in memory. -/
theorem fresh (hstore : s.store.TimesFormed) (hlist : s.habitArray = []) (hpending : s.pending = [])
    (hcreating : s.creating = []) (hediting : s.editing = []) : Formed (fun _ => false) s := by
  constructor <;> simp_all

/-- A step that leaves the forms, with writes and rows that are well formed
and calls that are no creates. -/
theorem plain (h : Formed unmoved s) (ws : List Write) (cbs : List Callback)
    (hws : ∀ w ∈ ws, w.TimesFormed) (hstore : s'.store = s.store.applyAll ws)
    (hlist : ∀ h ∈ s'.habitArray, h.TimesFormed)
    (hpending : s'.pending = s.pending ++ cbs.map ({ callback := · }))
    (hcbs : ∀ cb ∈ cbs, ∀ c habit, cb ≠ .addHabit c habit) (hcreating : s'.creating = s.creating)
    (hediting : s'.editing = s.editing) : Formed unmoved s' where
  store := by
    rw [hstore]
    exact h.store.applyAll hws
  list := hlist
  reads p hp := by
    rw [hpending] at hp
    rcases List.mem_append.mp hp with hp | hp
    · exact h.reads p hp
    · obtain ⟨cb, _, rfl⟩ := List.mem_map.mp hp
      simp
  creating := by
    rw [hcreating]
    exact h.creating
  timed p hp c habit hcb := by
    rw [hpending] at hp
    rcases List.mem_append.mp hp with hp | hp
    · rw [hcreating]
      exact h.timed p hp c habit hcb
    · obtain ⟨cb, hmem, rfl⟩ := List.mem_map.mp hp
      exact absurd hcb (hcbs cb hmem c habit)
  editing := by
    rw [hediting]
    exact h.editing
  unmoved := by
    rw [hediting]
    exact h.unmoved

/-- A step that changes neither documents, list and calls nor forms. -/
theorem same (h : Formed unmoved s) (hstore : s'.store = s.store)
    (hlist : ∀ h ∈ s'.habitArray, h ∈ s.habitArray) (hpending : s'.pending = s.pending)
    (hcreating : s'.creating = s.creating) (hediting : s'.editing = s.editing) :
    Formed unmoved s' :=
  h.plain [] [] (by simp) hstore (fun habit hmem => h.list habit (hlist habit hmem))
    (by simpa using hpending) (by simp) hcreating hediting

theorem row (h : Formed unmoved s) {row : Nat} {habit : Habit}
    (hrow : s.habitArray[row]? = some habit) : habit.TimesFormed :=
  h.list habit (List.mem_of_getElem? hrow)

theorem set_list (h : Formed unmoved s) (row : Nat) {habit : Habit} (hhabit : habit.TimesFormed) :
    ∀ h ∈ s.habitArray.set row habit, h.TimesFormed := by
  intro h' hmem
  rcases List.mem_or_eq_of_mem_set hmem with hmem | rfl
  · exact h.list h' hmem
  · exact hhabit

/-! ### The list screen -/

theorem viewWillAppear (h : Formed unmoved s) : Formed unmoved (viewWillAppear s) := by
  cases hres : resets s with
  | false => rwa [viewWillAppear_of_not_resets hres]
  | true =>
    obtain ⟨cbs, hpending, hcbs⟩ := viewWillAppear_issued s
    have hlist : ∀ h ∈ s.habitArray.map resetHabit, h.TimesFormed := by
      intro h' hmem
      obtain ⟨old, hold, rfl⟩ := List.mem_map.mp hmem
      exact h.list old hold
    have hediting : (HabitCollection.viewWillAppear s).editing = s.editing := by
      unfold HabitCollection.viewWillAppear
      dsimp only
      split_ifs <;> rfl
    refine h.plain (appearWrites s) cbs ?_ (viewWillAppear_writes hres).1 ?_ hpending
      (fun cb hcb c habit => by simp [hcbs cb hcb]) (viewWillAppear_device s).2.2.2.2.2.2.1 hediting
    · exact List.forall_mem_cons.mpr ⟨trivial, resetWrites_timesFormed hlist 0 []⟩
    · rw [viewWillAppear_habitArray hres]
      exact hlist

theorem deleteHabit (h : Formed unmoved s) : Formed unmoved (deleteHabit s) := by
  rcases deleteHabit_cases s with ⟨f, _, hs⟩ | ⟨row, hglobal, hrow⟩
  · rw [hs]
    exact h.same rfl (fun _ hmem => hmem) rfl rfl rfl
  · rw [deleteHabit_eq hglobal hrow]
    exact h.plain [.deleteHabit row] [.deleteDone] (by simp [Write.TimesFormed]) rfl
      (fun habit hmem => h.list habit (List.mem_of_mem_eraseIdx hmem)) rfl (by simp) rfl rfl

/-- A stop stores a time in range. -/
theorem createTimeArray (h : Formed unmoved s) (row ident : Nat) {time : List Int}
    (htime : WellFormed time) : Formed unmoved (createTimeArray row ident time s) := by
  have hws : ∀ w ∈ [Write.updateHabit row { timeArray := some time } ident], w.TimesFormed := by
    simpa [Write.TimesFormed, HabitFields.TimesFormed] using htime
  rw [HabitCollection.createTimeArray, returnTimeArray]
  split
  · exact h.plain _ [] hws rfl h.list (by simp) (by simp) rfl rfl
  · next habit hrow =>
    have hhabit : ({ habit with time := time } : Habit).TimesFormed := ⟨htime, (h.row hrow).2⟩
    exact h.plain _ [] hws rfl (h.set_list row hhabit) (by simp) (by simp) rfl rfl

theorem showAlert (h : Formed unmoved s) (row : Nat) : Formed unmoved (showAlert row s) := by
  rw [HabitCollection.showAlert]
  split
  · exact h.same rfl (fun _ hmem => hmem) rfl rfl rfl
  · next habit hrow =>
    have hold := h.row hrow
    have hhabit : ({ habit with addFirebase := false } : Habit).TimesFormed := hold
    exact h.plain [.updateHabit row { addFirebase := some false } habit.ident] []
      (by simp [Write.TimesFormed, HabitFields.TimesFormed]) rfl (h.set_list row hhabit)
      (by simp) (by simp) rfl rfl

theorem fetchFirebaseHabits (h : Formed unmoved s) : Formed unmoved (fetchFirebaseHabits s) :=
  h.plain [] [.fetchCounter] (by simp) rfl (by simp [HabitCollection.fetchFirebaseHabits]) rfl
    (by simp) rfl rfl

theorem viewDidLoad (h : Formed unmoved s) : Formed unmoved (viewDidLoad s) := by
  unfold HabitCollection.viewDidLoad
  split
  · have hreload : Formed unmoved s.reloadData := h.same rfl (fun _ hmem => hmem) rfl rfl rfl
    exact hreload.fetchFirebaseHabits.plain [] [.reload] (by simp) rfl
      hreload.fetchFirebaseHabits.list rfl (by simp) rfl rfl
  · exact h

/-! ### The forms -/

/-- A create form changes, and keeps the time that it had. -/
theorem setCreate (h : Formed unmoved s) {c : Nat} {old form : CreateForm}
    (hold : s.creating[c]? = some old) (hform : form.TimeFormed)
    (hkeeps : WellFormed old.timeArray → WellFormed form.timeArray) :
    Formed unmoved (CreateHabit.setForm c form s) where
  store := h.store
  list := h.list
  reads := h.reads
  creating form' hmem := by
    rcases List.mem_or_eq_of_mem_set hmem with hmem | rfl
    · exact h.creating form' hmem
    · exact hform
  timed p hp c' habit hcb hcounted := by
    obtain ⟨form', hform', htime⟩ := h.timed p hp c' habit hcb hcounted
    by_cases hc : c = c'
    · subst hc
      rw [Option.some.inj (hform'.symm.trans hold)] at htime
      exact ⟨form, List.getElem?_set_self (List.getElem?_eq_some_iff.mp hold).1, hkeeps htime⟩
    · exact ⟨form', (List.getElem?_set_ne hc).trans hform', htime⟩
  editing := h.editing
  unmoved := h.unmoved

theorem setEdit (h : Formed unmoved s) {e : Nat} {form : EditForm}
    (hform : form.TimeFormed (unmoved e)) : Formed unmoved (EditHabit.setForm e form s) where
  store := h.store
  list := h.list
  reads := h.reads
  creating := h.creating
  timed := h.timed
  editing e' form' hform' := by
    have hget : (s.editing.set e form)[e']? = some form' := hform'
    rw [List.getElem?_set] at hget
    split at hget
    · next he =>
      subst he
      split at hget
      · rwa [← Option.some.inj hget]
      · contradiction
    · exact h.editing e' form' hget
  unmoved e' he' := by
    rw [EditHabit.setForm, List.length_set]
    exact h.unmoved e' he'

theorem addButtonTapped (h : Formed unmoved s) :
    Formed unmoved (CreateHabit.addButtonTapped s) where
  store := h.store
  list := h.list
  reads := h.reads
  creating form hmem := by
    rcases List.mem_append.mp hmem with hmem | hmem
    · exact h.creating form hmem
    · rw [List.mem_singleton.mp hmem]
      exact Or.inr ⟨rfl, by simp⟩
  timed p hp c habit hcb hcounted := by
    obtain ⟨form, hform, htime⟩ := h.timed p hp c habit hcb hcounted
    exact ⟨form, (List.getElem?_append_left (List.getElem?_eq_some_iff.mp hform).1).trans
      hform, htime⟩
  editing := h.editing
  unmoved := h.unmoved

/-- The habit of a press of Add Habit is of the type that the form has. -/
theorem addHabitButtonTapped (h : Formed unmoved s) (c : Nat) :
    Formed unmoved (CreateHabit.addHabitButtonTapped c s) := by
  unfold CreateHabit.addHabitButtonTapped
  split
  · exact h
  · next form hform =>
    have hformed := h.creating form (List.mem_of_getElem? hform)
    split_ifs with hselected
    · refine ⟨h.store, h.list, ?_, h.creating, ?_, h.editing, h.unmoved⟩
      · intro p hp
        rcases List.mem_append.mp hp with hp | hp
        · exact h.reads p hp
        · rw [List.mem_singleton.mp hp]
          simp
      · intro p hp c' habit hcb hcounted
        rcases List.mem_append.mp hp with hp | hp
        · exact h.timed p hp c' habit hcb hcounted
        · rw [List.mem_singleton.mp hp, Callback.addHabit.injEq] at hcb
          obtain ⟨rfl, rfl⟩ := hcb
          refine ⟨form, hform, hformed.resolve_right fun hnone => ?_⟩
          exact absurd (hnone.2 hselected) (Bool.eq_false_iff.mp hcounted)
    · exact h.setCreate hform hformed id
    · exact h.setCreate hform hformed id
    · exact h.setCreate hform hformed id

/-- An edit form opens with a habit of the list. -/
theorem editHabit (h : Formed unmoved s) : Formed unmoved (editHabit s) := by
  unfold HabitCollection.editHabit
  split
  · exact h.same rfl (fun _ hmem => hmem) rfl rfl rfl
  · split
    · exact h.same rfl (fun _ hmem => hmem) rfl rfl rfl
    · next habit hrow =>
      split_ifs
      · exact h.same rfl (fun _ hmem => hmem) rfl rfl rfl
      · refine ⟨h.store, h.list, h.reads, h.creating, h.timed, fun e form hform => ?_,
          fun e he => ?_⟩
        · rcases Nat.lt_or_ge e s.editing.length with hlt | hge
          · exact h.editing e form ((List.getElem?_append_left hlt).symm.trans hform)
          · have hnew : unmoved e = false :=
              Bool.eq_false_of_not_eq_true fun he => absurd (h.unmoved e he) (Nat.not_lt.mpr hge)
            have hlast := (List.getElem?_append_right hge).symm.trans hform
            rw [EditForm.TimeFormed, hnew, List.mem_singleton.mp (List.mem_of_getElem? hlast)]
            exact (h.row hrow).1
        · have := h.unmoved e he
          simp only [List.length_append, List.length_singleton]
          omega

/-! ### Callbacks -/

theorem dropPending (h : Formed unmoved s) (i : Nat) : Formed unmoved (s.dropPending i) where
  store := h.store
  list := h.list
  reads p hp := h.reads p (List.mem_of_mem_eraseIdx hp)
  creating := h.creating
  timed p hp := h.timed p (List.mem_of_mem_eraseIdx hp)
  editing := h.editing
  unmoved := h.unmoved

theorem serve (h : Formed unmoved s) (i : Nat) : Formed unmoved (s.serve i) := by
  rcases serve_cases s i with hs | ⟨p, hp, _, _, hs⟩ <;> rw [hs]
  · exact h
  · refine ⟨h.store, h.list, fun q hq => ?_, h.creating, fun q hq c habit hcb => ?_, h.editing,
      h.unmoved⟩
    · rcases List.mem_or_eq_of_mem_set hq with hq | rfl
      · exact h.reads q hq
      · intro st hst
        rw [← Option.some.inj hst]
        exact h.store
    · rcases List.mem_or_eq_of_mem_set hq with hq | rfl
      · exact h.timed q hq c habit hcb
      · exact h.timed p (List.mem_of_getElem? hp) c habit hcb

/-- A callback that issues a refresh, or a read of one. -/
theorem refresh (h : Formed unmoved s) {cb : Callback} (hcb : cb.isRefresh = true)
    {document : Option Store} (hdoc : ∀ st ∈ document, st.TimesFormed) :
    Formed unmoved (cb.run document s) := by
  have hframe := listOnly_of_isRefresh hcb document s
  obtain ⟨cbs, hpending, hfetch⟩ := pending_of_isRefresh hcb document s
  refine h.plain [] cbs (by simp) hframe.store (fun habit hmem => ?_) hpending
    (fun cb' hcb' c habit heq => ?_) hframe.creating hframe.editing
  · cases cb with
    | fetchCounter => exact h.list habit (fetchCounterRead_habitArray document s ▸ hmem)
    | fetchHabit n =>
      rcases mem_fetchHabitRead hmem with hmem | ⟨st, hst, hread⟩
      · exact h.list habit hmem
      · exact (hdoc st hst).readHabit hread
    | fetch => simp [Callback.run, HabitCollection.fetchFirebaseHabits] at hmem
    | reload => exact h.list habit hmem
    | _ => contradiction
  · have := hfetch cb' hcb'
    rw [heq] at this
    contradiction

theorem deleteDone (h : Formed unmoved s) : Formed unmoved (deleteDone s) := by
  rcases deleteDone_cases s with hs | ⟨row, hglobal⟩
  · rw [hs]
    exact h.same rfl (fun _ hmem => hmem) rfl rfl rfl
  · rw [deleteDone_eq hglobal]
    refine h.plain ((if s.habitArray.length = row then [] else
      [.deleteHabit s.habitArray.length]) ++
      [.updateUser { habitCounter := some s.habitArray.length }]) [.counterDone] ?_ ?_ h.list rfl
      (by simp) rfl rfl
    · split <;> simp [Write.TimesFormed]
    · simp [Store.applyAll_append]

/-- The list is written back to the documents. -/
theorem counterDone (h : Formed unmoved s) : Formed unmoved (counterDone s) := by
  refine h.plain (Store.setHabits 0 (s.habitArray.map Habit.toDocument) ++
    [.updateUser { habitCounter := some s.habitArray.length }]) [.fetch] ?_ ?_ h.list rfl
    (by simp) rfl rfl
  · exact List.forall_mem_append.mpr ⟨setHabits_timesFormed h.list, by simp [Write.TimesFormed]⟩
  · simp [HabitCollection.counterDone, updateFirebaseHabits, Store.applyAll_append]

theorem finishedRead (h : Formed unmoved s) (row ident : Nat) (document : Option Store) :
    Formed unmoved (finishedRead row ident document s) := by
  rw [finishedRead_eq]
  refine h.plain (finishedWrites row ident document) [] ?_ rfl h.list (by simp) (by simp) rfl rfl
  cases document <;> simp [finishedWrites, Write.TimesFormed, HabitFields.TimesFormed]

/-- The time array that a create writes. -/
theorem formRead_wellFormed {habit : Habit} {form : CreateForm} (document : Option Store)
    (hcounted : habit.counted = true → form.timeArray = [])
    (htimed : habit.counted = false → WellFormed form.timeArray) :
    WellFormed (CreateHabit.formRead habit document form).timeArray := by
  cases hkind : habit.counted with
  | true => simp [CreateHabit.formRead, hkind, hcounted hkind, wellFormed_zero]
  | false => simpa [CreateHabit.formRead, hkind] using htimed hkind

/-- The callback of a create writes the time array of its form. -/
theorem addHabitRead (h : Formed unmoved s) {c : Nat} {habit : Habit} (document : Option Store)
    (hcounted : habit.counted = true → ∀ form ∈ s.creating[c]?, form.timeArray = [])
    (htimed : habit.counted = false → ∃ form, s.creating[c]? = some form ∧
      WellFormed form.timeArray) :
    Formed unmoved (CreateHabit.addHabitRead c habit document s) := by
  unfold CreateHabit.addHabitRead
  split
  · exact h
  · next form hform =>
    have htime : WellFormed (CreateHabit.formRead habit document form).timeArray := by
      refine formRead_wellFormed document (fun hkind => hcounted hkind form hform) fun hkind => ?_
      obtain ⟨form', hform', htime⟩ := htimed hkind
      rwa [Option.some.inj (hform.symm.trans hform')]
    have hset := h.setCreate hform (Or.inl htime) fun _ => htime
    refine hset.plain [.setHabit _ (CreateHabit.newDocument habit _), .updateUser _] [.fetch] ?_ rfl
      hset.list rfl (by simp) rfl rfl
    refine List.forall_mem_cons.mpr ⟨⟨fun t ht => ?_, fun t ht => ?_⟩, by simp [Write.TimesFormed]⟩
    all_goals
      rw [← Option.some.inj ht]
      exact htime

/-- An edit writes the time of its form, if the document exists. -/
theorem editConfirmed (h : Formed unmoved s) {e : Nat}
    (hok : ∀ form ∈ s.editing[e]?, form.saves s = true →
      (∃ row ∈ form.indexPath, (s.store.habits row).isSome = true) → unmoved e = false) :
    Formed unmoved (EditHabit.editHabit e s) := by
  unfold EditHabit.editHabit
  split
  · exact h
  · next form hform =>
    have hformed := h.editing e form hform
    split_ifs with hname hlen
    · split
      · exact h.same rfl (fun _ hmem => hmem) rfl rfl rfl
      · exact h.same rfl (fun _ hmem => hmem) rfl rfl rfl
      · next color row hcolor hpath =>
        have hsaves : form.saves s = true := by
          simp [EditForm.saves, EditForm.accepted, hname, hlen, hpath, hcolor]
        have hwritten : Formed unmoved (s.write (.updateHabit row
            (EditHabit.editedEntry form color).fields form.habit.ident)) := by
          cases hdoc : s.store.habits row with
          | none =>
            refine h.same ?_ (fun _ hmem => hmem) rfl rfl rfl
            rw [State.write_store, Store.apply_updateHabit_of_none hdoc]
          | some doc =>
            have hmoved := hok form hform hsaves ⟨row, hpath, by rw [hdoc]; rfl⟩
            rw [EditForm.TimeFormed, hmoved] at hformed
            refine h.plain [.updateHabit row (EditHabit.editedEntry form color).fields
              form.habit.ident]
              [] ?_ rfl h.list (by simp) (by simp) rfl rfl
            refine List.forall_mem_singleton.mpr ⟨fun t ht => ?_, fun t ht => ?_⟩
            all_goals
              rw [← Option.some.inj ht]
              exact hformed
        have hset : Formed unmoved (EditHabit.setForm e { form with errorLabel := none } _) :=
          hwritten.setEdit hformed
        exact hset.plain [] [.fetch] (by simp) rfl hset.list rfl (by simp) rfl rfl
    · exact h.setEdit hformed
    · exact h.setEdit hformed

end Formed

/-! ## Careful events -/

/-- The callback finds no time in a form that creates a counted habit. -/
def FindsEmpty (s : State) : Callback → Prop
  | .addHabit c habit => habit.counted = true → ∀ form ∈ s.creating[c]?, form.timeArray = []
  | _ => True

/-- The event writes no time that is not well formed. -/
def Careful (unmoved : Nat → Bool) (s : State) : Event → Prop
  | .deliver i => ∀ p ∈ s.pending[i]?, p.snapshot.isSome = true → FindsEmpty s p.callback
  | .fail i => ∀ p ∈ s.pending[i]?, FindsEmpty s p.callback
  | .editConfirmed e => ∀ form ∈ s.editing[e]?, form.saves s = true →
      (∃ row ∈ form.indexPath, (s.store.habits row).isSome = true) → unmoved e = false
  | _ => True

namespace Formed

variable {unmoved : Nat → Bool} {s : State}

theorem callback (h : Formed unmoved s) {i : Nat} {p : Pending} (hp : s.pending[i]? = some p)
    {document : Option Store} (hdoc : ∀ st ∈ document, st.TimesFormed)
    (hok : FindsEmpty s p.callback) :
    Formed unmoved (p.callback.run document (s.dropPending i)) := by
  have hdrop := h.dropPending i
  have hmem := List.mem_of_getElem? hp
  cases hcb : p.callback with
  | fetchCounter | fetchHabit _ | fetch | reload => exact hdrop.refresh rfl hdoc
  | deleteDone => exact hdrop.deleteDone
  | counterDone => exact hdrop.counterDone
  | addHabit c habit =>
    rw [hcb] at hok
    exact hdrop.addHabitRead document hok (h.timed p hmem c habit hcb)
  | finished row ident => exact hdrop.finishedRead row ident document

/-- A careful event that happens on no cell and in no picker. -/
theorem handle (h : Formed unmoved s) {e : Event} (hrelaunch : e ≠ .relaunch)
    (hcell : e.onCell = false) (htime : e.confirmsTime = false) (hok : Careful unmoved s e) :
    Formed unmoved (handle s e) := by
  cases e with
  | relaunch => contradiction
  | didSelectItemAt _ _ | createTimeArray _ _ _ | showAlert _ | handleLongPress _ | deleteHabit
  | editHabit => contradiction
  | createTime _ _ | editTime _ _ => contradiction
  | nextDay => exact h.same rfl (fun _ hmem => hmem) rfl rfl rfl
  | sectionColor color => exact h.same rfl (fun _ hmem => hmem) rfl rfl rfl
  | viewDidLoad => exact h.viewDidLoad
  | viewWillAppear => exact h.viewWillAppear
  | fetchFirebaseHabits => exact h.fetchFirebaseHabits
  | addButtonTapped => exact h.addButtonTapped
  | createName c text =>
    simp only [HabitHive.handle, CreateHabit.habitNameChanged]
    split
    · exact h
    · next form hform => exact h.setCreate hform (h.creating form (List.mem_of_getElem? hform)) id
  | createAmount c amount =>
    simp only [HabitHive.handle, CreateHabit.didTapConfirmAmount]
    split
    · exact h
    · next form hform =>
      refine h.setCreate hform ?_ id
      exact (h.creating form (List.mem_of_getElem? hform)).imp_right fun hnone =>
        ⟨hnone.1, fun _ => rfl⟩
  | addHabitButtonTapped c => exact h.addHabitButtonTapped c
  | editName e text =>
    simp only [HabitHive.handle, EditHabit.habitNameChanged]
    split
    · exact h
    · next form hform =>
      have hformed := h.editing e form hform
      exact h.setEdit hformed
  | editAmount e amount =>
    simp only [HabitHive.handle, EditHabit.didTapConfirmAmount]
    split
    · exact h
    · next form hform =>
      have hformed := h.editing e form hform
      exact h.setEdit hformed
  | editConfirmed e => exact h.editConfirmed hok
  | serve i => exact h.serve i
  | deliver i =>
    simp only [HabitHive.handle]
    rcases deliver_cases s i with ⟨hs, _⟩ | ⟨p, hp, hread, hs⟩ <;> rw [hs]
    · exact h
    · refine h.callback hp (h.reads p (List.mem_of_getElem? hp)) ?_
      cases hcb : p.callback with
      | addHabit c habit =>
        obtain ⟨st, hst⟩ := hread (by rw [hcb]; rfl)
        rw [← hcb]
        exact hok p hp (by rw [hst]; rfl)
      | _ => trivial
  | fail i =>
    simp only [HabitHive.handle]
    rcases fail_cases s i with hs | ⟨p, hp, _, hs⟩ <;> rw [hs]
    · exact h
    · exact h.callback hp (by simp) (hok p hp)

theorem relaunch (h : Formed unmoved s) : Formed (fun _ => false) s.relaunch :=
  .fresh h.store rfl rfl rfl rfl

theorem handleLongPress (h : Formed unmoved s) (row : Nat) :
    Formed unmoved (HabitCollection.handleLongPress row s) := by
  unfold HabitCollection.handleLongPress
  split <;> exact h.same rfl (fun _ hmem => hmem) rfl rfl rfl

/-- The completion of a counted habit. -/
theorem completeCounted (h : Formed unmoved s) (row : Nat) {habit : Habit}
    (hhabit : habit.TimesFormed) :
    Formed unmoved (HabitCollection.completeCounted row habit s) := by
  have hset : ∀ (habit' : Habit) (s' : State), habit'.time = habit.time →
      habit'.timeOriginal = habit.timeOriginal → Formed unmoved s' →
      Formed unmoved (s'.setRow row habit') := by
    intro habit' s' htime horiginal hs'
    refine hs'.plain [] [] (by simp) rfl (hs'.set_list row ?_) (by simp) (by simp) rfl rfl
    rwa [Habit.TimesFormed, htime, horiginal]
  have hissue : Formed unmoved (s.issue (.finished row habit.ident)) :=
    h.plain [] [_] (by simp) rfl h.list rfl (by simp) rfl rfl
  unfold HabitCollection.completeCounted
  dsimp only
  split_ifs
  · exact hset _ _ rfl rfl hissue
  · exact hset _ _ rfl rfl h
  · exact h

/-- A counted habit is counted up. -/
theorem countUp (h : Formed unmoved s) (row : Nat) {habit : Habit} (hhabit : habit.TimesFormed) :
    Formed unmoved ((s.setRow row habit).write
      (.updateHabit row { currentCount := some habit.currentCount } habit.ident)) :=
  h.plain [.updateHabit row { currentCount := some habit.currentCount } habit.ident] []
    (by simp [Write.TimesFormed, HabitFields.TimesFormed]) rfl (h.set_list row hhabit) (by simp)
    (by simp) rfl rfl

/-! ### Pickers that are confirmed -/

theorem createTime (h : Formed unmoved s) (c : Nat) {time : List Int} (htime : WellFormed time) :
    Formed unmoved (CreateHabit.didTapConfirmTime c time s) := by
  unfold CreateHabit.didTapConfirmTime
  split
  · exact h
  · next form hform =>
    split
    · exact h.same rfl (fun _ hmem => hmem) rfl rfl rfl
    · exact h.setCreate hform (Or.inl htime) fun _ => htime

/-- The form remembers whether the picker was moved. -/
theorem editTime (h : Formed unmoved s) {e : Nat} (he : e < s.editing.length) {time : List Int}
    {b : Bool} (htime : if b then 6 < time.length else WellFormed time) :
    Formed (Function.update unmoved e b) (EditHabit.didTapConfirmTime e time s) := by
  have hlength : ¬time.length < 4 := by
    cases b with
    | true =>
      have hlong : 6 < time.length := by simpa using htime
      omega
    | false =>
      have hwell : WellFormed time := by simpa using htime
      rw [hwell.1]
      omega
  simp only [EditHabit.didTapConfirmTime, List.getElem?_eq_getElem he, if_neg hlength]
  refine ⟨h.store, h.list, h.reads, h.creating, h.timed, fun e' form' hform' => ?_,
    fun e' he' => ?_⟩
  · by_cases hne : e' = e
    · subst hne
      have hget := (List.getElem?_set_self he).symm.trans hform'
      rw [Function.update_self, ← Option.some.inj hget]
      exact htime
    · rw [Function.update_of_ne hne]
      exact h.editing e' form' ((List.getElem?_set_ne (Ne.symm hne)).symm.trans hform')
  · rw [EditHabit.setForm, List.length_set]
    by_cases hne : e' = e
    · rwa [hne]
    · rw [Function.update_of_ne hne] at he'
      exact h.unmoved e' he'

/-! ### Exactness -/

/-- Where a create writes well-formed times, its counted habit found an
empty form. -/
theorem findsEmpty_of_addHabitRead {c : Nat} {habit : Habit} {document : Option Store}
    (htimes : (CreateHabit.addHabitRead c habit document s).store.TimesFormed) :
    FindsEmpty s (.addHabit c habit) := by
  intro hcounted form hform
  rw [Option.mem_def] at hform
  have hdoc := htimes (CreateHabit.formRead habit document form).habitCounter
    (CreateHabit.newDocument habit (CreateHabit.formRead habit document form).timeArray)
  have hstored : CreateHabit.newDocument habit
    (CreateHabit.formRead habit document form).timeArray ∈
      (CreateHabit.addHabitRead c habit document s).store.habits
        (CreateHabit.formRead habit document form).habitCounter := by
    simp [CreateHabit.addHabitRead, hform, Store.apply_setHabit_habits]
  have hlength := ((hdoc hstored).1 _ rfl).1
  simpa [CreateHabit.formRead, hcounted] using hlength

theorem moved_of_editHabit (h : Formed unmoved s) {e : Nat}
    (htimes : (EditHabit.editHabit e s).store.TimesFormed) :
    Careful unmoved s (.editConfirmed e) := by
  intro form hform hsaves hrow
  obtain ⟨row, hpath, hdoc⟩ := hrow
  obtain ⟨doc, hdoc⟩ := Option.isSome_iff_exists.mp hdoc
  obtain ⟨⟨haccepted, _⟩, hcolor⟩ := by simpa [EditForm.saves] using hsaves
  obtain ⟨color, hcolor⟩ := Option.isSome_iff_exists.mp hcolor
  have hformed := h.editing e form hform
  rw [editHabit_eq hform haccepted hpath hcolor] at htimes
  have hfields := htimes row
    { doc with fields := doc.fields.merge (EditHabit.editedEntry form color).fields }
  have hlength := ((hfields (by
    simp [EditHabit.setForm, Store.apply_updateHabit_habits, hdoc])).1 form.habit.time rfl).1
  cases hunmoved : unmoved e with
  | false => rfl
  | true =>
    rw [EditForm.TimeFormed, hunmoved, if_pos rfl] at hformed
    omega

/-- A step after which the documents are well formed is careful. -/
theorem careful (h : Formed unmoved s) {e : Event}
    (htimes : (HabitHive.handle s e).store.TimesFormed) : Careful unmoved s e := by
  cases e with
  | deliver i =>
    intro p hp hsnap
    obtain ⟨st, hst⟩ := Option.isSome_iff_exists.mp hsnap
    cases hcb : p.callback with
    | addHabit c habit =>
      have hs : s.deliver i = CreateHabit.addHabitRead c habit p.snapshot (s.dropPending i) := by
        rw [State.deliver, Option.mem_def.mp hp]
        simp [hst, hcb, Callback.run]
      rw [HabitHive.handle, hs] at htimes
      have hfinds := findsEmpty_of_addHabitRead htimes
      exact hfinds
    | _ => trivial
  | fail i =>
    intro p hp
    cases hcb : p.callback with
    | addHabit c habit =>
      have hs : s.fail i = CreateHabit.addHabitRead c habit none (s.dropPending i) := by
        rw [State.fail, Option.mem_def.mp hp]
        simp [hcb, Callback.isRead, Callback.run]
      rw [HabitHive.handle, hs] at htimes
      have hfinds := findsEmpty_of_addHabitRead htimes
      exact hfinds
    | _ => trivial
  | editConfirmed e => exact h.moved_of_editHabit htimes
  | _ => trivial

end Formed

end HabitHive
