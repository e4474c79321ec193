import HabitHive.Effects

/-!
# What an event writes and lists

`Issues s e w` lists the writes that event `e` can issue in state `s`,
`Leaves s e h` the habits that it can leave in the list, and `Origins` says
the same of the forms and of the calls in flight.  `origins` says once for all
events that there is nothing else.  An invariant of these is then a case for
each kind of write and each kind of row, and need not look at the events.
-/

namespace HabitHive

open HabitCollection

/-- The writes of an event. -/
inductive Issues (s : State) (e : Event) : Write → Prop where
  | user (fields : UserFields) : Issues s e (.updateUser fields)
  | delete (n : Nat) : Issues s e (.deleteHabit n)
  /-- `updateFirebaseHabits` writes the list back -/
  | list {habit : Habit} (n : Nat) (hmem : habit ∈ s.habitArray) :
      Issues s e (.setHabit n habit.toDocument)
  | create {p : Pending} {c : Nat} {habit : Habit} (n : Nat) (time : List Int)
      (hmem : p ∈ s.pending) (hcb : p.callback = .addHabit c habit) :
      Issues s e (.setHabit n (CreateHabit.newDocument habit time))
  | reset {habit : Habit} (n : Nat) (he : e = .viewWillAppear) (hmem : habit ∈ s.habitArray) :
      Issues s e (resetUpdate n (resetHabit habit))
  | tap {row : Nat} {menu : Bool} {habit : Habit} (he : e = .didSelectItemAt row menu)
      (hrow : s.habitArray[row]? = some habit) (haccepts : accepts menu habit = true)
      (hlt : habit.currentCount < habit.goal) :
      Issues s e
        (.updateHabit row { currentCount := some (habit.currentCount + 1) } habit.ident)
  | edit {i row : Nat} {form : EditForm} {color : Int} (he : e = .editConfirmed i)
      (hform : s.editing[i]? = some form) (hname : form.habitName ≠ [])
      (hlength : form.habitName.length < 24) (hcolor : s.sectionColor = some color) :
      Issues s e
        (.updateHabit row (EditHabit.editedEntry form color).fields form.habit.ident)
  | time (row ident : Nat) (time : List Int) :
      Issues s e (.updateHabit row { timeArray := some time } ident)
  | finish (row ident : Nat) : Issues s e (.updateHabit row { addFirebase := some false } ident)

/-- The habits of the list after an event. -/
inductive Leaves (s : State) (e : Event) : Habit → Prop where
  | same {habit : Habit} (hmem : habit ∈ s.habitArray) : Leaves s e habit
  | reset {habit : Habit} (he : e = .viewWillAppear) (hmem : habit ∈ s.habitArray) :
      Leaves s e (resetHabit habit)
  | tapped {habit : Habit} (hmem : habit ∈ s.habitArray) : Leaves s e habit.tapped
  | time {habit : Habit} (time : List Int) (hmem : habit ∈ s.habitArray) :
      Leaves s e { habit with time }
  | finish {habit : Habit} (hmem : habit ∈ s.habitArray) :
      Leaves s e { habit with addFirebase := false }
  | read {p : Pending} {st : Store} {n : Nat} {habit : Habit} (hmem : p ∈ s.pending)
      (hst : p.snapshot = some st) (hread : st.readHabit n = some habit) : Leaves s e habit

/-- Where the name and the amount of a create form come from.  The form has
no type until an amount or a time is confirmed. -/
structure Fills (s : State) (e : Event) (form : CreateForm) : Prop where
  name : form.habitName = [] ∨ (∃ old ∈ s.creating, old.habitName = form.habitName) ∨
    ∃ c, e = .createName c form.habitName
  amount : form.valueCounter = 0 ∧ form.typeOfHabitSelected = false ∨
    (∃ old ∈ s.creating, old.valueCounter = form.valueCounter ∧
      (old.typeOfHabitSelected = form.typeOfHabitSelected ∨ ∃ c time, e = .createTime c time)) ∨
    ∃ c, e = .createAmount c form.valueCounter

/-- Where the values come from that an edit form saves. -/
structure Refills (s : State) (e : Event) (form : EditForm) : Prop where
  name : (∃ old ∈ s.editing, old.habitName = form.habitName) ∨
    (∃ habit ∈ s.habitArray, habit.name = form.habitName) ∨ ∃ i, e = .editName i form.habitName
  amount : (∃ old ∈ s.editing, old.valueCounter = form.valueCounter) ∨
    (∃ habit ∈ s.habitArray, habit.goal = form.valueCounter) ∨
    ∃ i, e = .editAmount i form.valueCounter
  streak : (∃ old ∈ s.editing, old.habit.streak = form.habit.streak) ∨
    ∃ habit ∈ s.habitArray, habit.streak = form.habit.streak

/-- The habit of a create, as a press of Add Habit builds it. -/
def Requests (s : State) (c : Nat) (habit : Habit) : Prop :=
  ∃ form, s.creating[c]? = some form ∧ form.typeOfHabitSelected = true ∧ form.habitName ≠ [] ∧
    form.habitName.length < 24 ∧ habit = CreateHabit.newHabit form s

/-- What event `e` makes of `s`. -/
structure Origins (s : State) (e : Event) (s' : State) : Prop where
  writes : ∃ ws, s'.store = s.store.applyAll ws ∧ s'.journal = s.journal ++ ws ∧
    ∀ w ∈ ws, Issues s e w
  list : ∀ habit ∈ s'.habitArray, Leaves s e habit
  reads : ∀ p ∈ s'.pending, ∀ st ∈ p.snapshot, (∃ q ∈ s.pending, q.snapshot = some st) ∨
    st = s.store
  creates : ∀ p ∈ s'.pending, ∀ c habit, p.callback = .addHabit c habit →
    (∃ q ∈ s.pending, q.callback = .addHabit c habit) ∨ Requests s c habit
  creating : ∀ form ∈ s'.creating, Fills s e form
  editing : ∀ form ∈ s'.editing, Refills s e form
  color : s'.sectionColor = s.sectionColor ∨ ∃ color, s'.sectionColor = some color ∧
    (e = .sectionColor color ∨ ∃ habit ∈ s.habitArray, habit.color = color)

variable {s s' : State} {e : Event}

theorem Fills.same {form : CreateForm} (hmem : form ∈ s.creating) : Fills s e form :=
  ⟨Or.inr (Or.inl ⟨form, hmem, rfl⟩), Or.inr (Or.inl ⟨form, hmem, rfl, Or.inl rfl⟩)⟩

theorem Refills.same {form : EditForm} (hmem : form ∈ s.editing) : Refills s e form :=
  ⟨Or.inl ⟨form, hmem, rfl⟩, Or.inl ⟨form, hmem, rfl⟩, Or.inl ⟨form, hmem, rfl⟩⟩

/-- The calls in flight are old, or start without a document and are no
creates. -/
def OldCalls (s s' : State) : Prop :=
  ∀ p ∈ s'.pending, p ∈ s.pending ∨ p.snapshot = none ∧ ∀ c habit, p.callback ≠ .addHabit c habit

theorem oldCalls_of_issued (cbs : List Callback)
    (hpending : s'.pending = s.pending ++ cbs.map ({ callback := · }))
    (hcbs : ∀ cb ∈ cbs, ∀ c habit, cb ≠ .addHabit c habit) : OldCalls s s' := by
  intro p hp
  rw [hpending] at hp
  rcases List.mem_append.mp hp with hp | hp
  · exact Or.inl hp
  · obtain ⟨cb, hmem, rfl⟩ := List.mem_map.mp hp
    exact Or.inr ⟨rfl, hcbs cb hmem⟩

theorem oldCalls_of_same (hpending : s'.pending = s.pending) : OldCalls s s' :=
  fun _ hp => Or.inl (hpending ▸ hp)

namespace Origins

/-- An event that issues the writes `ws`, and leaves the forms and the
color. -/
theorem of_issued (ws : List Write) (hstore : s'.store = s.store.applyAll ws)
    (hjournal : s'.journal = s.journal ++ ws) (hws : ∀ w ∈ ws, Issues s e w)
    (hlist : ∀ habit ∈ s'.habitArray, Leaves s e habit) (hcalls : OldCalls s s')
    (hcreating : s'.creating = s.creating) (hediting : s'.editing = s.editing)
    (hcolor : s'.sectionColor = s.sectionColor) : Origins s e s' where
  writes := ⟨ws, hstore, hjournal, hws⟩
  list := hlist
  reads p hp st hst := by
    rcases hcalls p hp with hp | ⟨hnone, _⟩
    · exact Or.inl ⟨p, hp, hst⟩
    · rw [hnone] at hst
      contradiction
  creates p hp c habit hcb := by
    rcases hcalls p hp with hp | ⟨_, hnew⟩
    · exact Or.inl ⟨p, hp, hcb⟩
    · exact absurd hcb (hnew c habit)
  creating form hmem := .same (hcreating ▸ hmem)
  editing form hmem := .same (hediting ▸ hmem)
  color := Or.inl hcolor

/-- An event that leaves the documents, the list, the calls, the forms and
the color. -/
theorem of_same (hstore : s'.store = s.store) (hjournal : s'.journal = s.journal)
    (hlist : s'.habitArray = s.habitArray) (hpending : s'.pending = s.pending)
    (hcreating : s'.creating = s.creating) (hediting : s'.editing = s.editing)
    (hcolor : s'.sectionColor = s.sectionColor) : Origins s e s' :=
  of_issued [] hstore (by simpa using hjournal) (by simp) (fun _ hmem => .same (hlist ▸ hmem))
    (oldCalls_of_same hpending) hcreating hediting hcolor

theorem refl (s : State) (e : Event) : Origins s e s := of_same rfl rfl rfl rfl rfl rfl rfl

theorem crash (s : State) (e : Event) (f : Fault) : Origins s e (s.crash f) :=
  of_same rfl rfl rfl rfl rfl rfl rfl

/-- A write of one row, and the row in the list. -/
theorem of_row {w : Write} {row : Nat} {habit : Habit} (hw : Issues s e w)
    (hhabit : Leaves s e habit) (hstore : s'.store = s.store.apply w)
    (hjournal : s'.journal = s.journal ++ [w]) (hlist : s'.habitArray = s.habitArray.set row habit)
    (hpending : s'.pending = s.pending) (hcreating : s'.creating = s.creating)
    (hediting : s'.editing = s.editing) (hcolor : s'.sectionColor = s.sectionColor) :
    Origins s e s' := by
  refine of_issued [w] hstore hjournal (by simpa) (fun habit' hmem => ?_)
    (oldCalls_of_same hpending)
    hcreating hediting hcolor
  rw [hlist] at hmem
  rcases List.mem_or_eq_of_mem_set hmem with hmem | rfl
  · exact .same hmem
  · exact hhabit

/-- A change of one create form. -/
theorem of_create {c : Nat} {form : CreateForm} (hform : Fills s e form) :
    Origins s e (CreateHabit.setForm c form s) where
  writes := ⟨[], rfl, by simp [CreateHabit.setForm], by simp⟩
  list _ hmem := .same hmem
  reads p hp st hst := Or.inl ⟨p, hp, hst⟩
  creates p hp c habit hcb := Or.inl ⟨p, hp, hcb⟩
  creating form' hmem := by
    rcases List.mem_or_eq_of_mem_set hmem with hmem | rfl
    · exact .same hmem
    · exact hform
  editing _ hmem := .same hmem
  color := Or.inl rfl

/-- A change of one edit form. -/
theorem of_edit {i : Nat} {form : EditForm} (hform : Refills s e form) :
    Origins s e (EditHabit.setForm i form s) where
  writes := ⟨[], rfl, by simp [EditHabit.setForm], by simp⟩
  list _ hmem := .same hmem
  reads p hp st hst := Or.inl ⟨p, hp, hst⟩
  creates p hp c habit hcb := Or.inl ⟨p, hp, hcb⟩
  creating _ hmem := .same hmem
  editing form' hmem := by
    rcases List.mem_or_eq_of_mem_set hmem with hmem | rfl
    · exact .same hmem
    · exact hform
  color := Or.inl rfl

end Origins

variable (s)

/-! ## The list screen -/

theorem origins_viewWillAppear : Origins s .viewWillAppear (viewWillAppear s) := by
  cases hres : resets s with
  | false =>
    rw [viewWillAppear_of_not_resets hres]
    exact .refl _ _
  | true =>
    obtain ⟨cbs, hpending, hcbs⟩ := viewWillAppear_issued s
    have hforms : (viewWillAppear s).editing = s.editing ∧
        (viewWillAppear s).sectionColor = s.sectionColor := by
      unfold viewWillAppear
      dsimp only
      split_ifs <;> exact ⟨rfl, rfl⟩
    refine .of_issued (appearWrites s) (viewWillAppear_writes hres).1
      (viewWillAppear_writes hres).2 (fun w hw => ?_) (fun habit hmem => ?_)
      (oldCalls_of_issued cbs hpending fun cb hcb c habit => by simp [hcbs cb hcb])
      (viewWillAppear_device s).2.2.2.2.2.2.1 hforms.1 hforms.2
    · rcases List.mem_cons.mp hw with rfl | hw
      · exact .user _
      · rcases mem_resetWrites hw with ⟨k, habit, hrow, rfl⟩ | ⟨fields, rfl⟩
        · obtain ⟨old, hold, rfl⟩ := List.mem_map.mp (List.mem_of_getElem? hrow)
          exact .reset _ rfl hold
        · exact .user fields
    · rw [viewWillAppear_habitArray hres] at hmem
      obtain ⟨old, hold, rfl⟩ := List.mem_map.mp hmem
      exact .reset rfl hold

theorem origins_viewDidLoad : Origins s .viewDidLoad (viewDidLoad s) := by
  unfold viewDidLoad
  split
  · exact .of_issued [] rfl (by simp [fetchFirebaseHabits]) (by simp)
      (by simp [fetchFirebaseHabits])
      (oldCalls_of_issued [.fetchCounter, .reload] (by simp [fetchFirebaseHabits])
        (by simp)) rfl rfl
      rfl
  · exact .refl _ _

theorem origins_deleteHabit : Origins s .deleteHabit (deleteHabit s) := by
  rcases deleteHabit_cases s with ⟨f, _, hs⟩ | ⟨row, hglobal, hrow⟩
  · rw [hs]
    exact .crash _ _ _
  · rw [deleteHabit_eq hglobal hrow]
    exact .of_issued [.deleteHabit row] rfl rfl (List.forall_mem_singleton.mpr (.delete row))
      (fun _ hmem => .same (List.mem_of_mem_eraseIdx hmem))
      (oldCalls_of_issued [.deleteDone] rfl (by simp)) rfl rfl rfl

/-- An edit form opens with a habit of the list, and chooses its color. -/
theorem origins_editHabit : Origins s .editHabit (editHabit s) := by
  unfold editHabit
  split
  · exact .crash _ _ _
  · split
    · exact .crash _ _ _
    · next habit hrow =>
      have hhabit := List.mem_of_getElem? hrow
      split_ifs
      · exact .crash _ _ _
      · refine ⟨⟨[], rfl, by simp, by simp⟩, fun _ hmem => .same hmem, fun p hp st hst =>
          Or.inl ⟨p, hp, hst⟩, fun p hp c habit hcb => Or.inl ⟨p, hp, hcb⟩,
            fun _ hmem => .same hmem,
          fun form hmem => ?_, Or.inr ⟨habit.color, rfl, Or.inr ⟨habit, hhabit, rfl⟩⟩⟩
        · rcases List.mem_append.mp hmem with hmem | hmem
          · exact .same hmem
          · rw [List.mem_singleton.mp hmem]
            exact ⟨Or.inr (Or.inl ⟨habit, hhabit, rfl⟩), Or.inr (Or.inl ⟨habit, hhabit, rfl⟩),
              Or.inr ⟨habit, hhabit, rfl⟩⟩

theorem origins_didSelectItemAt (row : Nat) (menu : Bool) :
    Origins s (.didSelectItemAt row menu) (didSelectItemAt row menu s) := by
  rcases didSelectItemAt_cases row menu s with ⟨_, hs⟩ | ⟨habit, hrow, ⟨_, hs⟩ | ⟨haccepts, hs⟩⟩ <;>
    rw [hs]
  · exact .of_same rfl rfl rfl rfl rfl rfl rfl
  · exact .of_same rfl rfl rfl rfl rfl rfl rfl
  · refine .of_issued (tapWrites row habit) rfl rfl (fun w hw => ?_) (fun habit' hmem => ?_)
      (oldCalls_of_issued (tapCallbacks row habit) rfl fun cb hcb c habit' => ?_) rfl rfl rfl
    · rw [tapWrites] at hw
      split at hw
      · next hlt =>
        rw [List.mem_singleton.mp hw]
        exact .tap rfl hrow haccepts hlt
      · contradiction
    · rcases List.mem_or_eq_of_mem_set hmem with hmem | rfl
      · exact .same hmem
      · exact .tapped (List.mem_of_getElem? hrow)
    · rw [tapCallbacks] at hcb
      split at hcb
      · rw [List.mem_singleton.mp hcb]
        simp
      · contradiction

theorem origins_createTimeArray (row ident : Nat) (time : List Int) :
    Origins s (.createTimeArray row ident time) (createTimeArray row ident time s) := by
  rw [createTimeArray, returnTimeArray]
  split
  · exact .of_issued [.updateHabit row { timeArray := some time } ident] rfl rfl
      (List.forall_mem_singleton.mpr (.time row ident time)) (fun _ hmem => .same hmem)
      (oldCalls_of_same rfl) rfl rfl rfl
  · next habit hrow =>
    exact .of_row (.time row ident time) (.time time (List.mem_of_getElem? hrow))
      rfl rfl rfl rfl rfl
      rfl rfl

theorem origins_showAlert (row : Nat) : Origins s (.showAlert row) (showAlert row s) := by
  rw [showAlert]
  split
  · exact .crash _ _ _
  · next habit hrow =>
    exact .of_row (.finish row habit.ident) (.finish (List.mem_of_getElem? hrow))
      rfl rfl rfl rfl rfl
      rfl rfl

/-! ## The forms -/

theorem origins_addHabitButtonTapped (c : Nat) :
    Origins s (.addHabitButtonTapped c) (CreateHabit.addHabitButtonTapped c s) := by
  unfold CreateHabit.addHabitButtonTapped
  split
  · exact .refl _ _
  · next form hform =>
    have hold := List.mem_of_getElem? hform
    have hkept : ∀ form' : CreateForm, form'.habitName = form.habitName →
        form'.valueCounter = form.valueCounter →
          form'.typeOfHabitSelected = form.typeOfHabitSelected →
            Fills s (.addHabitButtonTapped c) form' := fun form' hname hamount htype =>
      ⟨Or.inr (Or.inl ⟨form, hold, hname.symm⟩),
        Or.inr (Or.inl ⟨form, hold, hamount.symm, Or.inl htype.symm⟩)⟩
    split_ifs with htype hname hlength
    · refine ⟨⟨[], rfl, by simp, by simp⟩, fun _ hmem => .same hmem, fun p hp st hst => ?_,
        fun p hp c' habit hcb => ?_, fun _ hmem => .same hmem, fun _ hmem => .same hmem,
        Or.inl rfl⟩
      · rcases List.mem_append.mp hp with hp | hp
        · exact Or.inl ⟨p, hp, hst⟩
        · rw [List.mem_singleton.mp hp] at hst
          contradiction
      · rcases List.mem_append.mp hp with hp | hp
        · exact Or.inl ⟨p, hp, hcb⟩
        · rw [List.mem_singleton.mp hp, Callback.addHabit.injEq] at hcb
          obtain ⟨rfl, rfl⟩ := hcb
          exact Or.inr ⟨form, hform, htype, hname, hlength, rfl⟩
    all_goals exact .of_create (hkept _ rfl rfl rfl)

/-- An edit writes the nine values of its form. -/
theorem origins_editConfirmed (i : Nat) :
    Origins s (.editConfirmed i) (EditHabit.editHabit i s) := by
  unfold EditHabit.editHabit
  split
  · exact .refl _ _
  · next form hform =>
    have hold := List.mem_of_getElem? hform
    have hkept : ∀ error, Refills s (.editConfirmed i) { form with errorLabel := error } := by
      intro error
      exact ⟨Or.inl ⟨form, hold, rfl⟩, Or.inl ⟨form, hold, rfl⟩, Or.inl ⟨form, hold, rfl⟩⟩
    split_ifs with hname hlength
    · split
      · exact .crash _ _ _
      · exact .crash _ _ _
      · next color row hcolor _ =>
        have hset := Origins.of_edit (i := i) (hkept none)
        have hcalls : OldCalls s (s.issue .fetch) := oldCalls_of_issued [.fetch] rfl (by simp)
        refine ⟨⟨[.updateHabit row (EditHabit.editedEntry form color).fields form.habit.ident], rfl,
          rfl, List.forall_mem_singleton.mpr (.edit rfl hform hname hlength hcolor)⟩, hset.list,
          fun p hp st hst => ?_, fun p hp c habit hcb => ?_, hset.creating,
            hset.editing, hset.color⟩
        · rcases hcalls p hp with hp | ⟨hnone, _⟩
          · exact Or.inl ⟨p, hp, hst⟩
          · rw [hnone] at hst
            contradiction
        · rcases hcalls p hp with hp | ⟨_, hnew⟩
          · exact Or.inl ⟨p, hp, hcb⟩
          · exact absurd hcb (hnew c habit)
    all_goals exact .of_edit (hkept _)

/-! ## Callbacks -/

section Callbacks

variable {s} {e : Event} {i : Nat} {p : Pending}

theorem oldCalls_of_delivered (i : Nat) (cbs : List Callback)
    (hpending : s'.pending = (s.dropPending i).pending ++ cbs.map ({ callback := · }))
    (hcbs : ∀ cb ∈ cbs, ∀ c habit, cb ≠ .addHabit c habit) : OldCalls s s' := by
  intro q hq
  rcases oldCalls_of_issued (s := s.dropPending i) cbs hpending hcbs q hq with hq | hnew
  · exact Or.inl (List.mem_of_mem_eraseIdx hq)
  · exact Or.inr hnew

/-- A callback of a refresh. -/
theorem origins_refresh (hp : p ∈ s.pending) {cb : Callback} (hcb : cb.isRefresh = true)
    {document : Option Store} (hdocument : ∀ st ∈ document, p.snapshot = some st) :
    Origins s e (cb.run document (s.dropPending i)) := by
  have hframe := listOnly_of_isRefresh hcb document (s.dropPending i)
  obtain ⟨cbs, hpending, hfetch⟩ := pending_of_isRefresh hcb document (s.dropPending i)
  have hnew : ∀ cb' ∈ cbs, ∀ c habit, cb' ≠ .addHabit c habit := fun cb' hcb' c habit heq => by
    have := hfetch cb' hcb'
    rw [heq] at this
    contradiction
  refine .of_issued [] hframe.store (by simpa using hframe.journal) (by simp) (fun habit hmem => ?_)
    (oldCalls_of_delivered i cbs hpending hnew) hframe.creating hframe.editing hframe.sectionColor
  cases cb with
  | fetchCounter => exact .same (fetchCounterRead_habitArray document (s.dropPending i) ▸ hmem)
  | fetchHabit n =>
    rcases mem_fetchHabitRead hmem with hmem | ⟨st, hst, hread⟩
    · exact .same hmem
    · exact .read hp (hdocument st hst) hread
  | fetch => simp [Callback.run, fetchFirebaseHabits] at hmem
  | reload => exact .same hmem
  | _ => contradiction

/-- A callback that fails or does nothing. -/
theorem Origins.of_dropped (i : Nat) : Origins s e (s.dropPending i) :=
  .of_issued [] rfl (by simp) (by simp) (fun _ hmem => .same hmem)
    (oldCalls_of_delivered i [] (by simp) (by simp)) rfl rfl rfl

theorem origins_deleteDone : Origins s e (deleteDone (s.dropPending i)) := by
  rcases deleteDone_cases (s.dropPending i) with hs | ⟨row, hglobal⟩
  · rw [hs]
    obtain ⟨hwrites, hlist, hreads, hcreates, hcreating, hediting, hcolor⟩ :=
      Origins.of_dropped (s := s) (e := e) i
    exact ⟨hwrites, hlist, hreads, hcreates, hcreating, hediting, hcolor⟩
  · rw [deleteDone_eq hglobal]
    refine .of_issued ((if s.habitArray.length = row then []
      else [.deleteHabit s.habitArray.length]) ++
      [.updateUser { habitCounter := some s.habitArray.length }]) ?_ ?_ ?_
      (fun _ hmem => .same hmem) (oldCalls_of_delivered i [.counterDone] rfl (by simp)) rfl rfl rfl
    · simp [Store.applyAll_append]
    · simp
    · refine List.forall_mem_append.mpr ⟨fun w hw => ?_, List.forall_mem_singleton.mpr (.user _)⟩
      split at hw
      · contradiction
      · rw [List.mem_singleton.mp hw]
        exact .delete _

theorem origins_counterDone : Origins s e (counterDone (s.dropPending i)) := by
  refine .of_issued (Store.setHabits 0 (s.habitArray.map Habit.toDocument) ++
    [.updateUser { habitCounter := some s.habitArray.length }]) ?_ ?_ ?_
    (fun _ hmem => .same hmem) (oldCalls_of_delivered i [.fetch] rfl (by simp)) rfl rfl rfl
  · simp [counterDone, updateFirebaseHabits, Store.applyAll_append]
  · simp [counterDone, updateFirebaseHabits]
  · refine List.forall_mem_append.mpr ⟨fun w hw => ?_, List.forall_mem_singleton.mpr (.user _)⟩
    obtain ⟨k, doc, hdoc, rfl⟩ := Store.mem_setHabits hw
    obtain ⟨habit, hmem, rfl⟩ := List.mem_map.mp hdoc
    exact .list k hmem

/-- The form of a create keeps its name and its amount. -/
theorem origins_addHabitRead (hp : p ∈ s.pending) {c : Nat} {habit : Habit}
    (hcb : p.callback = .addHabit c habit) (document : Option Store) :
    Origins s e (CreateHabit.addHabitRead c habit document (s.dropPending i)) := by
  unfold CreateHabit.addHabitRead
  split
  · exact .of_dropped i
  · next form hform =>
    have hcalls : OldCalls s ((s.dropPending i).issue .fetch) :=
      oldCalls_of_delivered i [.fetch] rfl (by simp)
    have hset : Origins s e (CreateHabit.setForm c (CreateHabit.formRead habit document form) s) :=
      .of_create ⟨Or.inr (Or.inl ⟨form, List.mem_of_getElem? hform, rfl⟩),
        Or.inr (Or.inl ⟨form, List.mem_of_getElem? hform, rfl, Or.inl rfl⟩)⟩
    refine ⟨⟨[.setHabit _ (CreateHabit.newDocument habit _), .updateUser _], rfl,
      by simp [CreateHabit.setForm], List.forall_mem_cons.mpr ⟨.create _ _ hp hcb,
        List.forall_mem_singleton.mpr (.user _)⟩⟩, hset.list, fun q hq st hst => ?_,
      fun q hq c' habit' hcb' => ?_, hset.creating, hset.editing, hset.color⟩
    · rcases hcalls q hq with hq | ⟨hnone, _⟩
      · exact Or.inl ⟨q, hq, hst⟩
      · rw [hnone] at hst
        contradiction
    · rcases hcalls q hq with hq | ⟨_, hnew⟩
      · exact Or.inl ⟨q, hq, hcb'⟩
      · exact absurd hcb' (hnew c' habit')

theorem origins_finishedRead (row ident : Nat) (document : Option Store) :
    Origins s e (finishedRead row ident document (s.dropPending i)) := by
  rw [finishedRead_eq]
  refine .of_issued (finishedWrites row ident document) rfl rfl ?_ (fun _ hmem => .same hmem)
    (oldCalls_of_delivered i [] (by simp) (by simp)) rfl rfl rfl
  refine List.forall_mem_append.mpr
    ⟨fun w hw => ?_, List.forall_mem_singleton.mpr (.finish row ident)⟩
  obtain ⟨doc, _, rfl⟩ := List.mem_map.mp hw
  exact .user _

/-- A callback, with the document that its read returned. -/
theorem origins_callback (hp : s.pending[i]? = some p) {document : Option Store}
    (hdocument : ∀ st ∈ document, p.snapshot = some st) :
    Origins s e (p.callback.run document (s.dropPending i)) := by
  have hmem := List.mem_of_getElem? hp
  cases hcb : p.callback with
  | fetchCounter | fetchHabit _ | fetch | reload => exact origins_refresh hmem rfl hdocument
  | deleteDone => exact origins_deleteDone
  | counterDone => exact origins_counterDone
  | addHabit c habit => exact origins_addHabitRead hmem hcb document
  | finished row ident => exact origins_finishedRead row ident document

theorem origins_serve (j : Nat) : Origins s e (s.serve j) := by
  rcases serve_cases s j with hs | ⟨p, hp, _, _, hs⟩ <;> rw [hs]
  · exact .refl _ _
  · refine ⟨⟨[], rfl, by simp, by simp⟩, fun _ hmem => .same hmem, fun q hq st hst => ?_,
      fun q hq c habit hcb => Or.inl ?_, fun _ hmem => .same hmem, fun _ hmem => .same hmem,
      Or.inl rfl⟩
    · rcases List.mem_or_eq_of_mem_set hq with hq | rfl
      · exact Or.inl ⟨q, hq, hst⟩
      · exact Or.inr (Option.some.inj hst).symm
    · rcases List.mem_or_eq_of_mem_set hq with hq | rfl
      · exact ⟨q, hq, hcb⟩
      · exact ⟨p, List.mem_of_getElem? hp, hcb⟩

end Callbacks

/-! ## All events -/

theorem origins (e : Event) : Origins s e (handle s e) := by
  have hsame : ∀ {s' : State}, s'.store = s.store → s'.journal = s.journal →
      s'.habitArray = s.habitArray → s'.pending = s.pending → s'.creating = s.creating →
      s'.editing = s.editing → s'.sectionColor = s.sectionColor → Origins s e s' := .of_same
  cases e with
  | relaunch =>
    exact ⟨⟨[], rfl, by simp [handle, State.relaunch], by simp⟩, by simp [handle, State.relaunch],
      by simp [handle, State.relaunch], by simp [handle, State.relaunch],
      by simp [handle, State.relaunch], by simp [handle, State.relaunch], Or.inl rfl⟩
  | nextDay => exact hsame rfl rfl rfl rfl rfl rfl rfl
  | viewDidLoad => exact origins_viewDidLoad s
  | viewWillAppear => exact origins_viewWillAppear s
  | fetchFirebaseHabits =>
    exact .of_issued [] rfl (by simp [handle, fetchFirebaseHabits]) (by simp)
      (by simp [handle, fetchFirebaseHabits]) (oldCalls_of_issued [.fetchCounter] rfl (by simp)) rfl
      rfl rfl
  | handleLongPress row =>
    simp only [handle, handleLongPress]
    split <;> exact hsame rfl rfl rfl rfl rfl rfl rfl
  | deleteHabit => exact origins_deleteHabit s
  | editHabit => exact origins_editHabit s
  | didSelectItemAt row menu => exact origins_didSelectItemAt s row menu
  | createTimeArray row ident time => exact origins_createTimeArray s row ident time
  | showAlert row => exact origins_showAlert s row
  | sectionColor color =>
    refine ⟨⟨[], rfl, by simp [handle], by simp⟩, fun _ hmem => .same hmem, fun p hp st hst =>
      Or.inl ⟨p, hp, hst⟩, fun p hp c habit hcb => Or.inl ⟨p, hp, hcb⟩, fun _ hmem => .same hmem,
      fun _ hmem => .same hmem, Or.inr ⟨color, rfl, Or.inl rfl⟩⟩
  | addButtonTapped =>
    refine ⟨⟨[], rfl, by simp [handle, CreateHabit.addButtonTapped], by simp⟩,
      fun _ hmem => .same hmem, fun p hp st hst => Or.inl ⟨p, hp, hst⟩, fun p hp c habit hcb =>
      Or.inl ⟨p, hp, hcb⟩, fun form hmem => ?_, fun _ hmem => .same hmem, Or.inl rfl⟩
    rcases List.mem_append.mp hmem with hmem | hmem
    · exact .same hmem
    · rw [List.mem_singleton.mp hmem]
      exact ⟨Or.inl rfl, Or.inl ⟨rfl, rfl⟩⟩
  | createName c text =>
    simp only [handle, CreateHabit.habitNameChanged]
    split
    · exact .refl _ _
    · next form hform =>
      exact .of_create ⟨Or.inr (Or.inr ⟨c, rfl⟩),
        Or.inr (Or.inl ⟨form, List.mem_of_getElem? hform, rfl, Or.inl rfl⟩)⟩
  | createAmount c amount =>
    simp only [handle, CreateHabit.didTapConfirmAmount]
    split
    · exact .refl _ _
    · next form hform =>
      exact .of_create ⟨Or.inr (Or.inl ⟨form, List.mem_of_getElem? hform, rfl⟩),
        Or.inr (Or.inr ⟨c, rfl⟩)⟩
  | createTime c time =>
    simp only [handle, CreateHabit.didTapConfirmTime]
    split
    · exact .refl _ _
    · next form hform =>
      have hold := List.mem_of_getElem? hform
      split
      · exact .crash _ _ _
      · exact .of_create ⟨Or.inr (Or.inl ⟨form, hold, rfl⟩),
          Or.inr (Or.inl ⟨form, hold, rfl, Or.inr ⟨c, time, rfl⟩⟩)⟩
  | addHabitButtonTapped c => exact origins_addHabitButtonTapped s c
  | editName i text =>
    simp only [handle, EditHabit.habitNameChanged]
    split
    · exact .refl _ _
    · next form hform =>
      have hold := List.mem_of_getElem? hform
      exact .of_edit ⟨Or.inr (Or.inr ⟨i, rfl⟩), Or.inl ⟨form, hold, rfl⟩, Or.inl ⟨form, hold, rfl⟩⟩
  | editAmount i amount =>
    simp only [handle, EditHabit.didTapConfirmAmount]
    split
    · exact .refl _ _
    · next form hform =>
      have hold := List.mem_of_getElem? hform
      exact .of_edit ⟨Or.inl ⟨form, hold, rfl⟩, Or.inr (Or.inr ⟨i, rfl⟩), Or.inl ⟨form, hold, rfl⟩⟩
  | editTime i time =>
    simp only [handle, EditHabit.didTapConfirmTime]
    split
    · exact .refl _ _
    · next form hform =>
      have hold := List.mem_of_getElem? hform
      split
      · exact .crash _ _ _
      · exact .of_edit ⟨Or.inl ⟨form, hold, rfl⟩, Or.inl ⟨form, hold, rfl⟩,
          Or.inl ⟨form, hold, rfl⟩⟩
  | editConfirmed i => exact origins_editConfirmed s i
  | serve i => exact origins_serve i
  | deliver i =>
    rw [handle]
    rcases deliver_cases s i with ⟨hs, _⟩ | ⟨p, hp, _, hs⟩ <;> rw [hs]
    · exact .refl _ _
    · exact origins_callback hp fun _ hst => hst
  | fail i =>
    rw [handle]
    rcases fail_cases s i with hs | ⟨p, hp, _, hs⟩ <;> rw [hs]
    · exact .refl _ _
    · exact origins_callback hp (by simp)

theorem origins_step (e : Event) : Origins s e (step s e) := by
  rw [step]
  split_ifs with _ he
  · exact origins s e
  · exact he ▸ origins s .relaunch
  · exact .refl s e

end HabitHive
