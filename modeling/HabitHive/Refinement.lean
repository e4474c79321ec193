import HabitHive.Numbering

/-!
# The store as a list

When one operation follows the other, the counter and the numbered
documents are an ordinary list of habits.  `ListOp` are the operations on
that list, and `operation` says which of them an event of the user asks
for.

The relation between the two sides is `Phase`.  Between operations the
documents and the list in memory are the abstract list.  In the middle of
an operation the abstract list has already changed, and the phase says what
the callback that is still to come has to write.  Callbacks come one at a
time, except for the reads of a refresh, which `Loading` takes in any
order.
-/

namespace HabitHive

open HabitCollection

/-! ## The abstract list -/

/-- A habit after an accepted tap. -/
def Entry.tapped (e : Entry) : Entry :=
  let count := if e.currentCount < e.goal then e.currentCount + 1 else e.currentCount
  { e with
    currentCount := count
    addFirebase := if count = e.goal then false else e.addFirebase }

/-- The operations of the user on the list of habits. -/
inductive ListOp where
  | create (e : Entry)
  | edit (i : Nat) (e : Entry)
  | delete (i : Nat)
  | tap (i : Nat)
  deriving DecidableEq, Repr

def ListOp.apply (l : List Entry) : ListOp → List Entry
  | .create e => l ++ [e]
  | .edit i e => l.set i e
  | .delete i => l.eraseIdx i
  | .tap i => l.modify i Entry.tapped

/-- What a create asks for: the habit of the form on its first day. -/
def CreateForm.entry (form : CreateForm) (s : State) : Entry where
  name := form.habitName
  color := s.sectionColor.getD 6
  counted := form.isCounted
  goal := form.valueCounter
  currentCount := 0
  timeArray := if form.isCounted then form.timeArray ++ [0, 0, 0, 0, 0, 0] else form.timeArray
  timeArrayOriginal :=
    if form.isCounted then form.timeArray ++ [0, 0, 0, 0, 0, 0] else form.timeArray
  addFirebase := true
  streak := 0

/-- What an edit asks for: the name and the amount of the form in the chosen
color, with the type, the time and the streak that the form has of the habit,
and the day begun again. -/
def EditForm.entry (form : EditForm) (color : Int) : Entry where
  name := form.habitName
  color := color
  counted := form.habit.counted
  goal := form.valueCounter
  currentCount := 0
  timeArray := form.habit.time
  timeArrayOriginal := form.habit.time
  addFirebase := true
  streak := form.habit.streak

/-- The operation that an event of the user asks for. -/
def operation (s : State) : Event → List ListOp
  | .addHabitButtonTapped c =>
    match s.creating[c]? with
    | some form => if form.accepted then [.create (form.entry s)] else []
    | none => []
  | .editConfirmed e =>
    match s.editing[e]? with
    | some form =>
      match form.indexPath, s.sectionColor with
      | some row, some color =>
        if form.accepted then [.edit row (form.entry color)] else []
      | _, _ => []
    | none => []
  | .deleteHabit => s.indexPathGlobal.toList.map .delete
  | .didSelectItemAt row menu =>
    match s.habitArray[row]? with
    | some h => if accepts menu h then [.tap row] else []
    | none => []
  | _ => []

/-- The user acts when nothing is in flight, on rows of the list, and
confirms times of at least four digits. -/
def InTurn (s : State) : Event → Prop
  | .serve _ | .deliver _ => True
  | .handleLongPress row | .didSelectItemAt row _ => s.pending = [] ∧ row < s.habitArray.length
  | .deleteHabit | .editHabit =>
    s.pending = [] ∧ ∃ row ∈ s.indexPathGlobal, row < s.habitArray.length
  | .editConfirmed e =>
    s.pending = [] ∧ ∀ form ∈ s.editing[e]?, ∀ row ∈ form.indexPath, row < s.habitArray.length
  | .createTime _ time | .editTime _ time => s.pending = [] ∧ 4 ≤ time.length
  | .fetchFirebaseHabits | .sectionColor _ | .addButtonTapped | .createName .. | .createAmount ..
  | .addHabitButtonTapped _ | .editName .. | .editAmount .. => s.pending = []
  | .relaunch | .nextDay | .viewDidLoad | .viewWillAppear | .createTimeArray .. | .showAlert _
  | .fail _ => False

instance (s : State) (e : Event) : Decidable (InTurn s e) := by
  induction e using Event.casesOn <;> unfold InTurn <;> infer_instance

/-! ## The two sides -/

/-- The store holds exactly the documents, and the counter counts them. -/
structure Store.Holds (docs : List HabitDoc) (st : Store) : Prop where
  counter : st.user.habitCounter = docs.length
  habits : ∀ k, st.habits k = docs[k]?

/-- The list in memory has the habits of the documents. -/
def InMemory (docs : List HabitDoc) (s : State) : Prop := s.habitArray.map Habit.toDocument = docs

/-- What the store and the list in memory hold, and what is in flight. -/
inductive Phase (docs : List HabitDoc) (s : State) : Prop where
  /-- between two operations -/
  | rest (hidle : s.pending = []) (hstore : s.store.Holds docs) (hmemory : InMemory docs s)
      (hnumbers : s.habitArray.map Habit.habitNumber = List.range docs.length)
  /-- a refresh is queued -/
  | queued (p : Pending) (hpending : s.pending = [p]) (hcb : p.callback = .fetch)
      (hstore : s.store.Holds docs)
  /-- a refresh is under way -/
  | loading (hstore : s.store.Holds docs) (hrefresh : Refreshing s.store s)
      (hload : Loading (rowOf id) (s.store.view (rowOf id)) (s.store.view (rowOf id)).all s)
  /-- the counter of a create is being read -/
  | creating (p : Pending) (c : Nat) (habit : Habit) (form : CreateForm) (before : List HabitDoc)
      (hpending : s.pending = [p]) (hcb : p.callback = .addHabit c habit)
      (hsnapshot : ∀ st, p.snapshot = some st → st.user.habitCounter = s.store.user.habitCounter)
      (hform : s.creating[c]? = some form) (hstore : s.store.Holds before)
      (hdocs : docs =
        before ++ [CreateHabit.newDocument habit (CreateHabit.formRead habit none form).timeArray])
  /-- the document of a deleted row is gone, the last one may be left over -/
  | deleting (p : Pending) (row : Nat) (hpending : s.pending = [p]) (hcb : p.callback = .deleteDone)
      (hglobal : s.indexPathGlobal = some row) (hmemory : InMemory docs s)
      (hlast : ∀ k, docs.length ≤ k → (k = docs.length → row = docs.length) →
        s.store.habits k = none)
  /-- the documents behind the list are gone -/
  | renumbering (p : Pending) (hpending : s.pending = [p]) (hcb : p.callback = .counterDone)
      (hmemory : InMemory docs s) (hlast : ∀ k, docs.length ≤ k → s.store.habits k = none)
  /-- the flag of a completed habit is still to be written -/
  | completing (p : Pending) (row ident : Nat) (hpending : s.pending = [p])
      (hcb : p.callback = .finished row ident)
      (hstore : (s.store.apply (.updateHabit row { addFirebase := some false } ident)).Holds docs)
      (hmemory : InMemory docs s)
      (hnumbers : s.habitArray.map Habit.habitNumber = List.range docs.length)

/-- The forms that are open can be confirmed without a crash. -/
structure Screens (s : State) : Prop where
  created : ∀ form ∈ s.creating, form.typeOfHabitSelected = true → form.isCounted = false →
    4 ≤ form.timeArray.length
  edited : ∀ form ∈ s.editing, form.habit.counted = false → 4 ≤ form.habit.time.length
  opened : ∀ form ∈ s.editing, form.indexPath.isSome = true
  colored : s.editing ≠ [] → s.sectionColor.isSome = true

/-- A timed habit has at least four digits to show. -/
def Timed (l : List Entry) : Prop := ∀ e ∈ l, e.counted = false → 4 ≤ e.timeArray.length

/-- The session implements the abstract list. -/
structure Implements (l : List Entry) (s : State) : Prop where
  running : s.crashed = none
  screens : Screens s
  timed : Timed l
  phase : ∃ docs : List HabitDoc, docs.map HabitDoc.fields = l.map Entry.fields ∧ Phase docs s

theorem Entry.fields_injective : Function.Injective Entry.fields := by
  intro e e' h
  have hentry := congrArg HabitFields.decode h
  simpa using hentry

/-! ## Exact stores -/

namespace Store.Holds

variable {docs : List HabitDoc} {st : Store}

theorem lists (h : st.Holds docs) : st.Lists id docs where
  counter := h.counter
  docs k _ := by rw [Option.map_id_fun, id_eq, h.habits k]

theorem append (h : st.Holds docs) (doc : HabitDoc) :
    ((st.apply (.setHabit st.user.habitCounter doc)).apply
      (.updateUser { habitCounter := some (st.user.habitCounter + 1) })).Holds (docs ++ [doc]) where
  counter := by simp [h.counter]
  habits k := by
    rw [apply_updateUser_habits, apply_setHabit_habits, h.counter]
    rcases Nat.lt_trichotomy k docs.length with hlt | rfl | hgt
    · rw [if_neg (by omega), List.getElem?_append_left hlt, h.habits]
    · simp
    · rw [if_neg (by omega), h.habits, List.getElem?_eq_none (by omega),
        List.getElem?_eq_none (by simp; omega)]

/-- An update of an existing document. -/
theorem update (h : st.Holds docs) {row : Nat} {doc : HabitDoc} (hrow : docs[row]? = some doc)
    (fields : HabitFields) (ident : Nat) :
    (st.apply (.updateHabit row fields ident)).Holds
      (docs.set row { doc with fields := doc.fields.merge fields }) where
  counter := by
    rw [List.length_set]
    exact h.counter
  habits k := by
    rw [apply_updateHabit_habits, h.habits, h.habits, hrow]
    have hlt := (List.getElem?_eq_some_iff.mp hrow).1
    by_cases hk : k = row
    · rw [if_pos hk, hk, List.getElem?_set_self hlt]
      rfl
    · rw [if_neg hk, List.getElem?_set_ne (Ne.symm hk)]

/-- `updateFirebaseHabits`, where nothing is left behind the list. -/
theorem rewrite (st : Store) {hs : List Habit} (hlast : ∀ k, hs.length ≤ k → st.habits k = none) :
    ((st.applyAll (setHabits 0 (hs.map Habit.toDocument))).apply
      (.updateUser { habitCounter := some hs.length })).Holds (hs.map Habit.toDocument) where
  counter := by simp
  habits k := by
    rw [apply_updateUser_habits, applyAll_setHabits]
    by_cases hk : k < hs.length
    · simp [hk]
    · simp [hk, hlast k (by omega)]

end Store.Holds

/-- A refresh numbers the habits by their documents. -/
theorem Store.Lists.all_numbers {κ : Type} {f : HabitDoc → κ} {E : List κ} {st : Store}
    (h : st.Lists f E)
    (hread : ∀ n < st.user.habitCounter, ((st.view (rowOf f)).read n).isSome = true) :
    (st.view (rowOf f)).all.map Prod.fst = List.range E.length := by
  have hcount : (st.view (rowOf f)).count = E.length := h.counter
  rw [View.all, hcount, List.map_filterMap]
  refine Eq.trans (List.filterMap_congr fun n hn => ?_) List.filterMap_some
  obtain ⟨a, ha⟩ := Option.isSome_iff_exists.mp (hread n (h.counter ▸ List.mem_range.mp hn))
  obtain ⟨habit, hhabit, rfl⟩ := Option.map_eq_some_iff.mp ha
  rw [ha, Option.map_some, rowOf, Store.habitNumber_of_readHabit hhabit]

/-- With nothing in flight the phase is `rest`, also at the end of a
refresh. -/
theorem Phase.settled {docs : List HabitDoc} {s : State} (h : Phase docs s)
    (hidle : s.pending = []) :
    s.store.Holds docs ∧ InMemory docs s ∧
      s.habitArray.map Habit.habitNumber = List.range docs.length := by
  cases h with
  | rest _ hstore hmemory hnumbers => exact ⟨hstore, hmemory, hnumbers⟩
  | loading hstore _ hload =>
    have hfetch : s.noFetch = true := by rw [State.noFetch, hidle]; rfl
    have hread := fun n hn => hload.read_isSome hfetch (n := n) hn
    have hrows := hload.finished Prod.fst (fun _ => rfl) hfetch
    refine ⟨hstore, ?_, ?_⟩
    · rw [InMemory, ← hstore.lists.all hread, ← hrows, List.map_map]
      rfl
    · rw [← hstore.lists.all_numbers hread, ← hrows, List.map_map]
      rfl
  | queued _ hpending => rw [hidle] at hpending; contradiction
  | creating _ _ _ _ _ hpending => rw [hidle] at hpending; contradiction
  | deleting _ _ hpending => rw [hidle] at hpending; contradiction
  | renumbering _ hpending => rw [hidle] at hpending; contradiction
  | completing _ _ _ hpending => rw [hidle] at hpending; contradiction

/-- All documents of the abstract list can be read. -/
theorem Store.Holds.readHabit_isSome {docs : List HabitDoc} {l : List Entry} {st : Store}
    (h : st.Holds docs) (hfields : docs.map HabitDoc.fields = l.map Entry.fields) {n : Nat}
    (hn : n < st.user.habitCounter) : (st.readHabit n).isSome = true := by
  have hlt : n < docs.length := h.counter ▸ hn
  have hfield := congrArg (·[n]?) hfields
  simp only [List.getElem?_map, List.getElem?_eq_getElem hlt, Option.map_some] at hfield
  obtain ⟨entry, _, hentry⟩ := Option.map_eq_some_iff.mp hfield.symm
  rw [readHabit, Habit.ofDocument_eq, h.habits, List.getElem?_eq_getElem hlt, Option.bind_some,
    Option.isSome_map, ← hentry]
  rfl

/-- A refresh can start wherever nothing is in flight. -/
theorem Phase.fetch {docs : List HabitDoc} {s : State} (hrunning : s.crashed = none)
    (hidle : s.pending = []) (hstore : s.store.Holds docs) :
    Phase docs (fetchFirebaseHabits s) := by
  have hrefresh : Refreshing s.store s := ⟨hrunning, rfl, by simp [hidle], by simp [hidle]⟩
  exact .loading hstore hrefresh.call (Loading.start_alone rfl (by rw [State.noFetch, hidle]; rfl))

/-! ## Operations of the user -/

/-- A row of the list in memory, its document and its entry. -/
theorem row_of_memory {docs : List HabitDoc} {l : List Entry} {s : State}
    (hmemory : InMemory docs s)
    (hfields : docs.map HabitDoc.fields = l.map Entry.fields) {row : Nat} {h : Habit}
    (hrow : s.habitArray[row]? = some h) :
    docs[row]? = some h.toDocument ∧ l[row]? = some h.entry := by
  have hdoc : docs[row]? = some h.toDocument := by
    rw [← hmemory, List.getElem?_map, hrow]
    rfl
  refine ⟨hdoc, ?_⟩
  have hfield := congrArg (·[row]?) hfields
  simp only [List.getElem?_map, hdoc, Option.map_some] at hfield
  obtain ⟨entry, hentry, heq⟩ := Option.map_eq_some_iff.mp hfield.symm
  rw [hentry, Entry.fields_injective heq]

/-- The documents after the increment of a tap. -/
theorem holds_tapWrites {docs : List HabitDoc} {st : Store} (hstore : st.Holds docs) {row : Nat}
    {h : Habit} (hdoc : docs[row]? = some h.toDocument) :
    (st.applyAll (tapWrites row h)).Holds (docs.set row h.incremented.toDocument) := by
  unfold tapWrites Habit.incremented
  split
  · exact hstore.update hdoc { currentCount := some (h.currentCount + 1) } h.ident
  · obtain ⟨hlt, hget⟩ := List.getElem?_eq_some_iff.mp hdoc
    rw [← hget, List.set_getElem_self]
    exact hstore

/-- The documents after a tap, once the flag of a completion is written. -/
theorem holds_tapped {docs : List HabitDoc} {st : Store} (hstore : st.Holds docs) {row : Nat}
    {h : Habit} (hdoc : docs[row]? = some h.toDocument) :
    (h.completes = false → (st.applyAll (tapWrites row h)).Holds
      (docs.set row h.tapped.toDocument)) ∧
      (h.completes = true → ((st.applyAll (tapWrites row h)).apply
        (.updateHabit row { addFirebase := some false } h.ident)).Holds
          (docs.set row h.tapped.toDocument)) := by
  have hcount := holds_tapWrites hstore hdoc
  have hlt := (List.getElem?_eq_some_iff.mp hdoc).1
  constructor
  · intro hnot
    rw [Habit.tapped, if_neg (by simp [hnot])]
    exact hcount
  · intro hdone
    have hflag := hcount.update (List.getElem?_set_self hlt) { addFirebase := some false } h.ident
    rw [List.set_set] at hflag
    rw [Habit.tapped, if_pos hdone]
    exact hflag

theorem entry_tapped {h : Habit} (hadd : h.addFirebase = true) :
    h.tapped.entry = h.entry.tapped := by
  unfold Habit.tapped Habit.completes Habit.incremented Entry.tapped Habit.entry
  by_cases hlt : h.currentCount < h.goal
  · by_cases hgoal : h.currentCount + 1 = h.goal <;> simp [hlt, hgoal, hadd]
  · by_cases hgoal : h.currentCount = h.goal <;> simp [hlt, hgoal, hadd]

namespace Screens

variable {s s' : State}

/-- The screens are the same. -/
theorem same (h : Screens s) (hcreating : s'.creating = s.creating)
    (hediting : s'.editing = s.editing) (hcolor : s'.sectionColor = s.sectionColor) :
    Screens s' where
  created := hcreating ▸ h.created
  edited := hediting ▸ h.edited
  opened := hediting ▸ h.opened
  colored := by rw [hediting, hcolor]; exact h.colored

/-- A create form with another content. -/
theorem setCreate (h : Screens s) (c : Nat) {form : CreateForm}
    (hform : form.typeOfHabitSelected = true → form.isCounted = false → 4 ≤ form.timeArray.length) :
    Screens (CreateHabit.setForm c form s) where
  created form' hmem := by
    rcases List.mem_or_eq_of_mem_set hmem with hmem | rfl
    · exact h.created form' hmem
    · exact hform
  edited := h.edited
  opened := h.opened
  colored := h.colored

/-- An edit form with another content. -/
theorem setEdit (h : Screens s) {e : Nat} {old form : EditForm} (hold : s.editing[e]? = some old)
    (htime : form.habit.counted = false → 4 ≤ form.habit.time.length)
    (hpath : form.indexPath = old.indexPath) : Screens (EditHabit.setForm e form s) where
  created := h.created
  edited form' hmem := by
    rcases List.mem_or_eq_of_mem_set hmem with hmem | rfl
    · exact h.edited form' hmem
    · exact htime
  opened form' hmem := by
    rcases List.mem_or_eq_of_mem_set hmem with hmem | rfl
    · exact h.opened form' hmem
    · rw [hpath]
      exact h.opened old (List.mem_of_getElem? hold)
  colored _ := h.colored (List.ne_nil_of_mem (List.mem_of_getElem? hold))

end Screens

namespace Implements

variable {l : List Entry} {s s' : State}

/-- A step that leaves the store, the list and the calls. -/
theorem frame (h : Implements l s) (hidle : s.pending = []) (hrunning : s'.crashed = none)
    (hscreens : Screens s') (hstore : s'.store = s.store) (harray : s'.habitArray = s.habitArray)
    (hpending : s'.pending = s.pending) : Implements l s' := by
  obtain ⟨docs, hfields, hphase⟩ := h.phase
  obtain ⟨hholds, hmemory, hnumbers⟩ := hphase.settled hidle
  exact ⟨hrunning, hscreens, h.timed, docs, hfields,
    .rest (hpending.trans hidle) (hstore ▸ hholds) (by rw [InMemory, harray]; exact hmemory)
      (harray ▸ hnumbers)⟩

theorem setCreate (h : Implements l s) (hidle : s.pending = []) (c : Nat) {form : CreateForm}
    (hform : form.typeOfHabitSelected = true → form.isCounted = false → 4 ≤ form.timeArray.length) :
    Implements l (CreateHabit.setForm c form s) :=
  h.frame hidle h.running (h.screens.setCreate c hform) rfl rfl rfl

theorem setEdit (h : Implements l s) (hidle : s.pending = []) {e : Nat} {old form : EditForm}
    (hold : s.editing[e]? = some old)
    (htime : form.habit.counted = false → 4 ≤ form.habit.time.length)
    (hpath : form.indexPath = old.indexPath) : Implements l (EditHabit.setForm e form s) :=
  h.frame hidle h.running (h.screens.setEdit hold htime hpath) rfl rfl rfl

/-- Typing and choosing on the create screens. -/
theorem form {e : Event} (h : Implements l s) (he : FormEvent e) (hok : InTurn s e) :
    Implements l (handle s e) := by
  cases he with
  | addButtonTapped =>
    refine h.frame hok h.running ⟨?_, h.screens.edited, h.screens.opened, h.screens.colored⟩ rfl rfl
      rfl
    intro form hform
    rcases List.mem_append.mp hform with hform | hform
    · exact h.screens.created form hform
    · rw [List.mem_singleton.mp hform]
      simp
  | sectionColor color =>
    exact h.frame hok h.running ⟨h.screens.created, h.screens.edited,
      h.screens.opened, by simp [handle]⟩
      rfl rfl rfl
  | createName c text =>
    simp only [handle, CreateHabit.habitNameChanged]
    split
    · exact h
    · next form hform =>
      exact h.setCreate hok c (h.screens.created form (List.mem_of_getElem? hform))
  | createAmount c amount =>
    simp only [handle, CreateHabit.didTapConfirmAmount]
    split
    · exact h
    · exact h.setCreate hok c (by simp)
  | createTime c time =>
    simp only [handle, CreateHabit.didTapConfirmTime]
    split
    · exact h
    · rw [if_neg (by have := hok.2; omega)]
      exact h.setCreate hok.1 c fun _ _ => hok.2

/-- A press of Add Habit starts a create, or sets a label. -/
theorem create (h : Implements l s) (c : Nat) (hidle : s.pending = []) :
    Implements (Runs.run ListOp.apply l (operation s (.addHabitButtonTapped c)))
      (CreateHabit.addHabitButtonTapped c s) := by
  cases hform : s.creating[c]? with
  | none => simpa [operation, CreateHabit.addHabitButtonTapped, hform] using h
  | some form =>
    have hcreated := h.screens.created form (List.mem_of_getElem? hform)
    simp only [operation, CreateHabit.addHabitButtonTapped, hform, CreateForm.accepted]
    by_cases htype : form.typeOfHabitSelected = true
    · by_cases hname : form.habitName = []
      · simpa [htype, hname] using h.setCreate hidle c (by simpa [htype] using hcreated)
      · by_cases hlen : form.habitName.length < 24
        · obtain ⟨docs, hfields, hphase⟩ := h.phase
          obtain ⟨hholds, _, _⟩ := hphase.settled hidle
          simp only [htype, hname, hlen, if_true, not_false_eq_true, ne_eq, decide_true,
            Bool.and_self, Runs.run_cons, Runs.run_nil, ListOp.apply]
          refine ⟨h.running, h.screens.same rfl rfl rfl, ?_, docs ++ [_], ?_,
            .creating { callback := .addHabit c (CreateHabit.newHabit form s) } c _ form docs
              (by simp [State.issue, hidle]) rfl (by simp) hform hholds rfl⟩
          · intro e he
            rcases List.mem_append.mp he with he | he
            · exact h.timed e he
            · rw [List.mem_singleton.mp he]
              intro hcounted
              have hcounted : form.isCounted = false := hcounted
              simpa [CreateForm.entry, hcounted] using hcreated htype hcounted
          · rw [List.map_append, List.map_append, hfields]
            rfl
        · simpa [htype, hname, hlen] using h.setCreate hidle c (by simpa [htype] using hcreated)
    · simpa [htype] using h.setCreate hidle c (by simp)

/-- A press of the delete button. -/
theorem delete (h : Implements l s) (hidle : s.pending = []) {row : Nat}
    (hglobal : s.indexPathGlobal = some row) (hrow : row < s.habitArray.length) :
    Implements (l.eraseIdx row) (deleteHabit s) := by
  obtain ⟨docs, hfields, hphase⟩ := h.phase
  obtain ⟨hholds, hmemory, _⟩ := hphase.settled hidle
  have hlen : s.habitArray.length = docs.length := by rw [← hmemory, List.length_map]
  have hlen' : (docs.eraseIdx row).length = docs.length - 1 :=
    List.length_eraseIdx_of_lt (hlen ▸ hrow)
  rw [deleteHabit_eq hglobal hrow]
  refine ⟨h.running, h.screens.same rfl rfl rfl, fun e he =>
    h.timed e (List.mem_of_mem_eraseIdx he), docs.eraseIdx row, ?_,
    .deleting { callback := .deleteDone } row (by simp [State.issue, hidle]) rfl hglobal ?_ ?_⟩
  · rw [← List.eraseIdx_map, hfields, List.eraseIdx_map]
  · rw [InMemory, ← hmemory, List.eraseIdx_map]
    rfl
  · intro k hk hlast
    simp only [State.issue_store, State.write_store, Store.apply_deleteHabit_habits, hholds.habits]
    rw [hlen'] at hk hlast
    split
    · rfl
    · next hne =>
      rcases Nat.lt_or_ge k docs.length with hlt | hge
      · exact absurd ((hlast (by omega)).trans (by omega)) (Ne.symm hne)
      · exact List.getElem?_eq_none hge

/-- A tap. -/
theorem tap (h : Implements l s) (hidle : s.pending = []) {row : Nat} (menu : Bool)
    (hrow : row < s.habitArray.length) :
    Implements (Runs.run ListOp.apply l (operation s (.didSelectItemAt row menu)))
      (didSelectItemAt row menu s) := by
  rcases didSelectItemAt_cases row menu s with ⟨hnone, _⟩ | ⟨habit, hhabit, ⟨hacc, hs⟩ | ⟨hacc, hs⟩⟩
  · rw [List.getElem?_eq_none_iff] at hnone
    omega
  · rw [hs]
    simp only [operation, hhabit, hacc, Bool.false_eq_true, if_false, Runs.run_nil]
    exact h.frame hidle h.running (h.screens.same rfl rfl rfl) rfl rfl rfl
  · rw [hs]
    simp only [operation, hhabit, hacc, if_true, Runs.run_cons, Runs.run_nil, ListOp.apply]
    obtain ⟨docs, hfields, hphase⟩ := h.phase
    obtain ⟨hholds, hmemory, hnumbers⟩ := hphase.settled hidle
    obtain ⟨hdoc, hentry⟩ := row_of_memory hmemory hfields hhabit
    have hadd : habit.addFirebase = true := by
      simp only [accepts, Bool.and_eq_true] at hacc
      exact hacc.1.1
    have hmodify : l.modify row Entry.tapped = l.set row habit.tapped.entry := by
      rw [entry_tapped hadd, List.modify_eq_set_getElem?, hentry]
      rfl
    have htapped := holds_tapped hholds hdoc
    have hmemory' : (s.habitArray.set row habit.tapped).map Habit.toDocument =
        docs.set row habit.tapped.toDocument := by
      rw [List.map_set, hmemory]
    have hnumbers' : (s.habitArray.set row habit.tapped).map Habit.habitNumber =
        List.range (docs.set row habit.tapped.toDocument).length := by
      rw [List.map_set, List.length_set, ← hnumbers, habitNumber_tapped]
      have hlt : row < (s.habitArray.map Habit.habitNumber).length := by simpa using hrow
      have hget : habit.habitNumber = (s.habitArray.map Habit.habitNumber)[row] := by
        rw [List.getElem_map, (List.getElem?_eq_some_iff.mp hhabit).2]
      rw [hget, List.set_getElem_self]
    refine ⟨h.running, h.screens.same rfl rfl rfl, ?_, docs.set row habit.tapped.toDocument, ?_, ?_⟩
    · rw [hmodify]
      intro e he
      rcases List.mem_or_eq_of_mem_set he with he | rfl
      · exact h.timed e he
      · rw [entry_tapped hadd]
        exact h.timed habit.entry (List.mem_of_getElem? hentry)
    · rw [hmodify, List.map_set, List.map_set, hfields]
      rfl
    · cases hdone : habit.completes
      · exact .rest (by simp [tapCallbacks, hdone, hidle]) (htapped.1 hdone) hmemory' hnumbers'
      · exact .completing { callback := .finished row habit.ident } row habit.ident
          (by simp [tapCallbacks, hdone, hidle]) rfl (htapped.2 hdone) hmemory' hnumbers'

/-- A press of the edit button opens an edit screen. -/
theorem openEdit (h : Implements l s) (hidle : s.pending = []) {row : Nat}
    (hglobal : s.indexPathGlobal = some row) (hrow : row < s.habitArray.length) :
    Implements l (HabitCollection.editHabit s) := by
  obtain ⟨docs, hfields, hphase⟩ := h.phase
  obtain ⟨_, hmemory, _⟩ := hphase.settled hidle
  have hhabit : s.habitArray[row]? = some s.habitArray[row] := List.getElem?_eq_getElem hrow
  have hentry := (row_of_memory hmemory hfields hhabit).2
  have htime : s.habitArray[row].counted = false → 4 ≤ s.habitArray[row].time.length :=
    h.timed _ (List.mem_of_getElem? hentry)
  have hnocrash : ¬(¬s.habitArray[row].counted = true ∧ s.habitArray[row].time.length < 4) := by
    rintro ⟨hcounted, hlt⟩
    have := htime (by simpa using hcounted)
    omega
  simp only [HabitCollection.editHabit, hglobal, hhabit, if_neg hnocrash]
  refine h.frame hidle h.running ⟨h.screens.created, ?_, ?_, by simp⟩ rfl rfl rfl
  · intro form hform
    rcases List.mem_append.mp hform with hform | hform
    · exact h.screens.edited form hform
    · rw [List.mem_singleton.mp hform]
      exact htime
  · intro form hform
    rcases List.mem_append.mp hform with hform | hform
    · exact h.screens.opened form hform
    · rw [List.mem_singleton.mp hform]
      rfl

/-- A confirmed edit writes all nine fields. -/
theorem edit (h : Implements l s) (e : Nat) (hok : InTurn s (.editConfirmed e)) :
    Implements (Runs.run ListOp.apply l (operation s (.editConfirmed e)))
      (EditHabit.editHabit e s) := by
  obtain ⟨hidle, hrows⟩ := hok
  cases hform : s.editing[e]? with
  | none => simpa [operation, EditHabit.editHabit, hform] using h
  | some form =>
    have hmem := List.mem_of_getElem? hform
    obtain ⟨row, hpath⟩ := Option.isSome_iff_exists.mp (h.screens.opened form hmem)
    obtain ⟨color, hcolor⟩ := Option.isSome_iff_exists.mp
      (h.screens.colored (List.ne_nil_of_mem hmem))
    have htime := h.screens.edited form hmem
    have hrow : row < s.habitArray.length := hrows form hform row hpath
    simp only [operation, EditHabit.editHabit, hform, hpath, hcolor, EditForm.accepted]
    by_cases hname : form.habitName = []
    · simpa [hname] using h.setEdit hidle hform (by simpa using htime) (by simp [hpath])
    · by_cases hlen : form.habitName.length < 24
      · obtain ⟨docs, hfields, hphase⟩ := h.phase
        obtain ⟨hholds, hmemory, _⟩ := hphase.settled hidle
        obtain ⟨hdoc, hentry⟩ := row_of_memory hmemory hfields (List.getElem?_eq_getElem hrow)
        simp only [hname, hlen, if_true, not_false_eq_true, ne_eq, decide_true, Bool.and_self,
          Runs.run_cons, Runs.run_nil, ListOp.apply]
        refine ⟨h.running, ?_, ?_, _, ?_, .queued { callback := .fetch }
          (by simp [EditHabit.setForm, State.issue, hidle]) rfl
          (hholds.update hdoc (EditHabit.editedEntry form color).fields form.habit.ident)⟩
        · have hscreens : Screens (EditHabit.setForm e
              { form with indexPath := some row, errorLabel := none } s) :=
            h.screens.setEdit hform htime hpath.symm
          exact hscreens.same rfl rfl rfl
        · intro entry hmem'
          rcases List.mem_or_eq_of_mem_set hmem' with hmem' | rfl
          · exact h.timed entry hmem'
          · exact htime
        · rw [List.map_set, List.map_set, hfields]
          rfl
      · simpa [hname, hlen] using h.setEdit hidle hform (by simpa using htime) (by simp [hpath])

/-- Typing and choosing on the edit screens. -/
theorem editForm (h : Implements l s) {e : Event} (hok : InTurn s e)
    (he : (∃ i text, e = .editName i text) ∨ (∃ i amount, e = .editAmount i amount) ∨
      ∃ i time, e = .editTime i time) : Implements l (handle s e) := by
  rcases he with ⟨i, text, rfl⟩ | ⟨i, amount, rfl⟩ | ⟨i, time, rfl⟩
  · simp only [handle, EditHabit.habitNameChanged]
    split
    · exact h
    · next form hform =>
      exact h.setEdit hok hform (h.screens.edited form (List.mem_of_getElem? hform)) rfl
  · simp only [handle, EditHabit.didTapConfirmAmount]
    split
    · exact h
    · next form hform => exact h.setEdit hok hform (by simp) rfl
  · simp only [handle, EditHabit.didTapConfirmTime]
    split
    · exact h
    · next form hform =>
      rw [if_neg (by have := hok.2; omega)]
      exact h.setEdit hok.1 hform (fun _ => hok.2) rfl

/-! ## Callbacks -/

/-- Serving fills in the snapshot of the only call in flight, or of a read
of the refresh. -/
theorem serve (h : Implements l s) (i : Nat) : Implements l (s.serve i) := by
  obtain ⟨docs, hfields, hphase⟩ := h.phase
  rcases serve_cases s i with hs | ⟨q, hq, hread, _, hs⟩
  · rw [hs]
    exact h
  · refine ⟨by rw [serve_crashed]; exact h.running, ?_, h.timed, docs, hfields, ?_⟩
    · rw [hs]
      exact h.screens.same rfl rfl rfl
    · have hset : ∀ {p : Pending}, s.pending = [p] →
          s.pending.set i { q with snapshot := some s.store } =
            [{ p with snapshot := some s.store }] := by
        intro p hpending
        have hq' := (only_pending hpending hq).1
        rw [hpending] at hq ⊢
        cases i with
        | zero => simp [hq']
        | succ i => simp at hq
      cases hphase with
      | rest hidle => rw [hidle] at hq; simp at hq
      | queued p hpending hcb =>
        rw [(only_pending hpending hq).1, hcb] at hread
        contradiction
      | loading hstore hrefresh hload =>
        refine .loading (by rw [serve_store]; exact hstore) ?_ ?_
        · rw [serve_store]
          exact hrefresh.serve i
        · rw [serve_store]
          exact hload.serve i
      | creating p c habit form before hpending hcb hsnapshot hform hstore hdocs =>
        rw [hs]
        exact .creating { p with snapshot := some s.store } c habit form before (hset hpending) hcb
          (by simp) hform hstore hdocs
      | deleting p row hpending hcb =>
        rw [(only_pending hpending hq).1, hcb] at hread
        contradiction
      | renumbering p hpending hcb =>
        rw [(only_pending hpending hq).1, hcb] at hread
        contradiction
      | completing p row ident hpending hcb hstore hmemory hnumbers =>
        rw [hs]
        exact .completing { p with snapshot := some s.store } row ident (hset hpending) hcb hstore
          hmemory hnumbers

section Callbacks

variable {i : Nat} {docs : List HabitDoc} (hfields : docs.map HabitDoc.fields = l.map Entry.fields)
  (hnil : (s.dropPending i).pending = [])

include hnil

/-- The callback of a create appends its document. -/
theorem addHabitRead {c : Nat} {habit : Habit} {form : CreateForm} {st : Store}
    {before : List HabitDoc} (h : Implements l s)
    (hfields : (before ++ [CreateHabit.newDocument habit
      (CreateHabit.formRead habit none form).timeArray]).map HabitDoc.fields = l.map Entry.fields)
    (hcounter : st.user.habitCounter = s.store.user.habitCounter)
    (hform : s.creating[c]? = some form) (hstore : s.store.Holds before) :
    Implements l (CreateHabit.addHabitRead c habit (some st) (s.dropPending i)) := by
  have hcreated := h.screens.created form (List.mem_of_getElem? hform)
  have hrun : CreateHabit.addHabitRead c habit (some st) (s.dropPending i) =
      (((CreateHabit.setForm c (CreateHabit.formRead habit (some st) form)
        (s.dropPending i)).write (.setHabit s.store.user.habitCounter
          (CreateHabit.newDocument habit (CreateHabit.formRead habit none form).timeArray))).write
        (.updateUser { habitCounter := some (s.store.user.habitCounter + 1) })).issue .fetch := by
    rw [← hcounter]
    simp [CreateHabit.addHabitRead, hform, CreateHabit.formRead]
  rw [hrun]
  refine ⟨h.running, ?_, h.timed, _, hfields, .queued { callback := .fetch } ?_ rfl
    (hstore.append _)⟩
  · have hscreens : Screens
        (CreateHabit.setForm c (CreateHabit.formRead habit (some st) form) s) := by
      refine h.screens.setCreate c fun htype hcounted => ?_
      have hlen := hcreated htype hcounted
      simp only [CreateHabit.formRead]
      split
      · rw [List.length_append]
        omega
      · exact hlen
    exact hscreens.same rfl rfl rfl
  · simp [State.issue, CreateHabit.setForm, show s.pending.eraseIdx i = [] from hnil]

include hfields

/-- The completion of the first write of a delete. -/
theorem deleteDone (h : Implements l s) {row : Nat} (hglobal : s.indexPathGlobal = some row)
    (hmemory : InMemory docs s)
    (hlast : ∀ k, docs.length ≤ k → (k = docs.length → row = docs.length) →
      s.store.habits k = none) : Implements l (deleteDone (s.dropPending i)) := by
  have hlen : s.habitArray.length = docs.length := by rw [← hmemory, List.length_map]
  rw [deleteDone_eq (s := s.dropPending i) hglobal]
  refine ⟨h.running, h.screens.same rfl rfl rfl, h.timed, docs, hfields,
    .renumbering { callback := .counterDone } ?_ rfl hmemory fun k hk => ?_⟩
  · simp [State.issue, show s.pending.eraseIdx i = [] from hnil]
  · simp only [State.issue_store, State.write_store, State.writeAll_store,
      Store.apply_updateUser_habits, State.dropPending_habitArray, State.dropPending_store, hlen]
    split
    · next hrow => exact hlast k hk fun _ => hrow.symm
    · rw [Store.applyAll_cons, Store.applyAll_nil, Store.apply_deleteHabit_habits]
      split
      · rfl
      · next hne => exact hlast k hk fun heq => absurd heq hne

/-- The completion of the counter update rewrites all documents. -/
theorem counterDone (h : Implements l s) (hmemory : InMemory docs s)
    (hlast : ∀ k, docs.length ≤ k → s.store.habits k = none) :
    Implements l (counterDone (s.dropPending i)) := by
  have hlen : s.habitArray.length = docs.length := by rw [← hmemory, List.length_map]
  refine ⟨h.running, h.screens.same rfl rfl rfl, h.timed, docs, hfields,
    .queued { callback := .fetch } ?_ rfl ?_⟩
  · simp [HabitCollection.counterDone, updateFirebaseHabits, State.issue,
      show s.pending.eraseIdx i = [] from hnil]
  · rw [← hmemory]
    exact Store.Holds.rewrite s.store fun k hk => hlast k (hlen ▸ hk)

end Callbacks

/-- A delivery: the next step of the operation under way. -/
theorem deliver (h : Implements l s) (i : Nat) : Implements l (s.deliver i) := by
  obtain ⟨docs, hfields, hphase⟩ := h.phase
  rcases deliver_cases s i with ⟨hs, _⟩ | ⟨q, hq, hread, hs⟩
  · rw [hs]
    exact h
  · cases hphase with
    | rest hidle => rw [hidle] at hq; simp at hq
    | queued p hpending hcb hstore =>
      obtain ⟨rfl, hnil⟩ := only_pending hpending hq
      rw [hs, hcb]
      exact ⟨h.running, h.screens.same rfl rfl rfl, h.timed, docs, hfields,
        Phase.fetch (s := s.dropPending i) h.running hnil hstore⟩
    | loading hstore hrefresh hload =>
      have hnext := hrefresh.deliver (fun n hn => hstore.readHabit_isSome hfields hn) i
      have hfetch := hrefresh.isFetch (List.mem_of_getElem? hq)
      have hframe := listOnly_of_isRefresh (Callback.isRefresh_of_isFetch hfetch) q.snapshot
        (s.dropPending i)
      rw [hs] at hnext ⊢
      refine ⟨hnext.running, h.screens.same hframe.creating hframe.editing hframe.sectionColor,
        h.timed, docs, hfields, .loading ?_ ?_ ?_⟩
      · rw [hframe.store]
        exact hstore
      · rw [hframe.store]
        exact hnext
      · rw [hframe.store]
        exact hload.fetchRead hq hfetch hread hnext.running
    | creating p c habit form before hpending hcb hsnapshot hform hstore hdocs =>
      obtain ⟨rfl, hnil⟩ := only_pending hpending hq
      obtain ⟨st, hst⟩ := hread (by rw [hcb]; rfl)
      subst hdocs
      rw [hs, hcb, hst]
      exact h.addHabitRead hnil hfields (hsnapshot st hst) hform hstore
    | deleting p row hpending hcb hglobal hmemory hlast =>
      obtain ⟨rfl, hnil⟩ := only_pending hpending hq
      rw [hs, hcb]
      exact h.deleteDone hfields hnil hglobal hmemory hlast
    | renumbering p hpending hcb hmemory hlast =>
      obtain ⟨rfl, hnil⟩ := only_pending hpending hq
      rw [hs, hcb]
      exact h.counterDone hfields hnil hmemory hlast
    | completing p row ident hpending hcb hstore hmemory hnumbers =>
      obtain ⟨rfl, hnil⟩ := only_pending hpending hq
      rw [hs, hcb, Callback.run, finishedRead_eq]
      have hplain := finishedWrites_isPlain row ident q.snapshot
      refine ⟨h.running, h.screens.same rfl rfl rfl, h.timed, docs, hfields,
        .rest hnil ⟨?_, fun k => ?_⟩ hmemory hnumbers⟩
      · exact (Store.habitCounter_of_plain hplain).trans hstore.counter
      · exact (congrFun (habits_of_finishedWrites row ident q.snapshot s.store) k).trans
          (hstore.habits k)

/-- One event of the user or of Firestore. -/
theorem handle {e : Event} (h : Implements l s) (hok : InTurn s e) :
    Implements (Runs.run ListOp.apply l (operation s e)) (handle s e) := by
  cases e with
  | addButtonTapped => exact h.form .addButtonTapped hok
  | sectionColor color => exact h.form (.sectionColor color) hok
  | createName c text => exact h.form (.createName c text) hok
  | createAmount c amount => exact h.form (.createAmount c amount) hok
  | createTime c time => exact h.form (.createTime c time) hok
  | addHabitButtonTapped c => exact h.create c hok
  | editName e text => exact h.editForm hok (.inl ⟨e, text, rfl⟩)
  | editAmount e amount => exact h.editForm hok (.inr (.inl ⟨e, amount, rfl⟩))
  | editTime e time => exact h.editForm hok (.inr (.inr ⟨e, time, rfl⟩))
  | editConfirmed e => exact h.edit e hok
  | fetchFirebaseHabits =>
    obtain ⟨docs, hfields, hphase⟩ := h.phase
    exact ⟨h.running, h.screens.same rfl rfl rfl, h.timed, docs, hfields,
      Phase.fetch h.running hok (hphase.settled hok).1⟩
  | handleLongPress row =>
    simp only [HabitHive.handle, handleLongPress, if_pos hok.2]
    exact h.frame hok.1 h.running (h.screens.same rfl rfl rfl) rfl rfl rfl
  | deleteHabit =>
    obtain ⟨hidle, row, hglobal, hrow⟩ := hok
    have hop : operation s .deleteHabit = [.delete row] := by
      rw [operation, show s.indexPathGlobal = some row from hglobal]
      rfl
    rw [hop]
    exact h.delete hidle hglobal hrow
  | editHabit =>
    obtain ⟨hidle, row, hglobal, hrow⟩ := hok
    exact h.openEdit hidle hglobal hrow
  | didSelectItemAt row menu => exact h.tap hok.1 menu hok.2
  | serve i => exact h.serve i
  | deliver i => exact h.deliver i
  | _ => exact hok.elim

end Implements

/-- The session shows the abstract list: the counter, the documents, each
of them decoded as a refresh does it, and the list in memory. -/
structure Represents (l : List Entry) (s : State) : Prop where
  counter : s.store.user.habitCounter = l.length
  documents : ∀ k, (s.store.habits k).isSome = true ↔ k < l.length
  decoded : ∀ k, (s.store.readHabit k).map Habit.entry = l[k]?
  memory : s.habitArray.map Habit.entry = l
  numbers : s.habitArray.map Habit.habitNumber = List.range l.length

theorem Implements.represents {l : List Entry} {s : State} (h : Implements l s)
    (hidle : s.pending = []) : Represents l s := by
  obtain ⟨docs, hfields, hphase⟩ := h.phase
  obtain ⟨hholds, hmemory, hnumbers⟩ := hphase.settled hidle
  have hlen : docs.length = l.length := by simpa using congrArg List.length hfields
  refine ⟨hholds.counter.trans hlen, fun k => ?_, fun k => ?_, ?_, hlen ▸ hnumbers⟩
  · rw [hholds.habits, ← hlen]
    simp
  · have hfield := congrArg (·[k]?) hfields
    simp only [List.getElem?_map] at hfield
    rw [Store.readHabit, Habit.ofDocument_eq, hholds.habits]
    cases hdoc : docs[k]? with
    | none =>
      rw [hdoc] at hfield
      simpa using hfield
    | some doc =>
      rw [hdoc, Option.map_some] at hfield
      obtain ⟨entry, hentry, heq⟩ := Option.map_eq_some_iff.mp hfield.symm
      rw [Option.bind_some, ← heq, hentry]
      rfl
  · refine List.map_injective_iff.mpr Entry.fields_injective ?_
    rw [← hfields, ← hmemory, List.map_map, List.map_map]
    rfl

/-- From sign-up, any sequence of creates, edits, deletes, taps and
refreshes, each of them delivered before the next one starts, does not end
the process, and between two operations the store and the list in memory
are the abstract list of these operations. -/
theorem represents_of_inTurn {es : List Event}
    (hes : Runs.Guarded step InTurn (.launched .signUp) es) :
    (run (.launched .signUp) es).crashed = none ∧
      ((run (.launched .signUp) es).pending = [] →
        Represents
          (Runs.run ListOp.apply [] (Runs.observe step operation (.launched .signUp) es))
          (run (.launched .signUp) es)) := by
  have hstart : Implements [] (.launched .signUp) :=
    ⟨rfl, ⟨by simp [State.launched], by simp [State.launched], by simp [State.launched],
      by simp [State.launched]⟩, by simp [Timed], [], rfl,
      .rest rfl ⟨rfl, fun _ => rfl⟩ rfl rfl⟩
  have hrun := Runs.simulation step operation ListOp.apply InTurn Implements
    (fun l s e h hok => by
      rw [step_of_running h.running]
      exact h.handle hok) hes hstart
  exact ⟨hrun.running, hrun.represents⟩

/-- Two creates, a tap that completes the first habit, and its delete. -/
theorem represents_of_inTurn_create_tap_delete :
    let s := State.launched .signUp
    let create : List Event :=
      [.addButtonTapped, .createName 0 ["w"], .createAmount 0 1, .addHabitButtonTapped 0,
        .serve 0, .deliver 0, .deliver 0, .serve 0, .deliver 0, .serve 0, .deliver 0]
    let again : List Event :=
      [.addHabitButtonTapped 0, .serve 0, .deliver 0, .deliver 0, .serve 0, .deliver 0,
        .serve 1, .serve 0, .deliver 1, .deliver 0]
    let rest : List Event :=
      [.didSelectItemAt 0 false, .serve 0, .deliver 0, .handleLongPress 0, .deleteHabit,
        .deliver 0, .deliver 0, .deliver 0, .serve 0, .deliver 0, .serve 0, .deliver 0]
    let es := create ++ again ++ rest
    (run s es).crashed = none ∧
      ((run s es).pending = [] →
        Represents (Runs.run ListOp.apply [] (Runs.observe step operation s es)) (run s es)) := by
  refine represents_of_inTurn ?_
  decide

end HabitHive
