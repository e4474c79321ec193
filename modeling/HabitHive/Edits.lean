import HabitHive.Writes

/-!
# What an edit leaves in the store

A confirmed edit writes all nine fields of a document, and the list in
memory learns of it through the refresh that the edit queues.  Until this
refresh empties the list, a reset writes the name and the goal of the old
habit back.

`Shows` says that a document carries the confirmed values.  Of all writes
that can follow, only those of a reset touch them (`shows_step_iff`), and
`edit_kept_iff` says which runs keep them.
-/

namespace HabitHive

open HabitCollection

/-- The three values of a document that an edit is about. -/
def HabitFields.face (f : HabitFields) : Option Text × Option Int × Option Int :=
  (f.name, f.color, f.goal)

/-- Document `row` is about the habit `ident`, and has the name, the color
and the goal of the form. -/
def Shows (row ident : Nat) (form : EditForm) (color : Int) (st : Store) : Prop :=
  (st.habits row).map (fun doc => (doc.ident, doc.fields.face)) =
    some (ident, some form.habitName, some color, some form.valueCounter)

instance (row ident : Nat) (form : EditForm) (color : Int) (st : Store) :
    Decidable (Shows row ident form color st) := by
  unfold Shows
  infer_instance

/-! ## Writes -/

/-- A write that leaves name, color and goal of all documents. -/
def Write.isFaceless : Write → Bool
  | .updateUser _ => true
  | .updateHabit _ fields _ => fields.face = (none, none, none)
  | .setHabit .. | .deleteHabit _ => false

theorem HabitFields.face_merge {old new : HabitFields} (h : new.face = (none, none, none)) :
    (old.merge new).face = old.face := by
  simp only [HabitFields.face, Prod.mk.injEq] at h
  simp [HabitFields.face, HabitFields.merge, h]

theorem face_of_isFaceless {st : Store} {ws : List Write} (h : ∀ w ∈ ws, w.isFaceless = true)
    (k : Nat) :
    ((st.applyAll ws).habits k).map (fun doc => (doc.ident, doc.fields.face)) =
      (st.habits k).map fun doc => (doc.ident, doc.fields.face) := by
  refine Store.map_habits_of_forall _ (fun w hw st k => ?_) k
  have hfaceless := h w hw
  cases w with
  | updateUser fields => rfl
  | updateHabit n fields i =>
    have hface : fields.face = (none, none, none) := by simpa [Write.isFaceless] using hfaceless
    exact Store.map_updateHabit _ (fun doc => by rw [HabitFields.face_merge hface]) n i k
  | _ => contradiction

/-! ## One step -/

/-- What can follow an edit: no other edit, no delete and no create. -/
def Event.isFollowUp : Event → Bool
  | .deleteHabit | .editConfirmed _ | .addHabitButtonTapped _ => false
  | _ => true

/-- No callback of a delete or of a create is to come. -/
def NoRewrite (s : State) : Prop :=
  ∀ p ∈ s.pending, p.callback.isRefresh = true ∨ p.callback.isFinished = true

instance (s : State) : Decidable (NoRewrite s) := by
  unfold NoRewrite
  infer_instance

theorem NoRewrite.step {s : State} {e : Event} (h : NoRewrite s) (he : e.isFollowUp = true) :
    NoRewrite (HabitHive.step s e) := by
  intro q hq
  rcases mem_pending_step hq with ⟨p, hp, hcb⟩ | hcall
  · rw [← hcb]
    exact h p hp
  · generalize q.callback = cb at hcall ⊢
    cases hcall with
    | refresh _ hcb => exact Or.inl hcb
    | tap => exact Or.inr rfl
    | counted hp hcb =>
      have hold := h _ hp.mem
      rw [hcb] at hold
      simp [Callback.isRefresh, Callback.isFinished] at hold
    | _ => contradiction

/-- A reset does not write other values over those of the form. -/
def KeepsEdit (row : Nat) (form : EditForm) (s : State) (e : Event) : Prop :=
  e = .viewWillAppear → s.crashed = none → resets s = true →
    ∀ habit ∈ s.habitArray[row]?, habit.name = form.habitName ∧ habit.goal = form.valueCounter

instance (row : Nat) (form : EditForm) (s : State) (e : Event) :
    Decidable (KeepsEdit row form s e) := by
  unfold KeepsEdit
  infer_instance

/-- The document after a reset has the name and the goal of the row. -/
theorem shows_viewWillAppear_iff {s : State} {row ident : Nat} {form : EditForm} {color : Int}
    (hres : resets s = true) (h : Shows row ident form color s.store) :
    Shows row ident form color (viewWillAppear s).store ↔
      ∀ habit ∈ s.habitArray[row]?,
        habit.name = form.habitName ∧ habit.goal = form.valueCounter := by
  rw [Shows, viewWillAppear_habits hres]
  cases hrow : s.habitArray[row]? with
  | none => exact iff_of_true h (by simp)
  | some habit =>
    obtain ⟨doc, hdoc, hface⟩ := Option.map_eq_some_iff.mp h
    simp only [HabitFields.face, Prod.mk.injEq] at hface
    simp [hdoc, HabitFields.face, HabitFields.merge, resetFields, resetHabit, hface]

/-- Of the writes that can follow an edit, only those of a reset touch the
three values. -/
theorem isFaceless_of_stepWrites {s : State} {e : Event} {ws : List Write}
    (hws : StepWrites s e ws) (hcalls : NoRewrite s) (he : e.isFollowUp = true)
    (hreset : ¬(e = .viewWillAppear ∧ s.crashed = none ∧ resets s = true)) :
    ∀ w ∈ ws, w.isFaceless = true := by
  intro w hw
  cases hws with
  | nothing => contradiction
  | reset hrunning hres => exact absurd ⟨rfl, hrunning, hres⟩ hreset
  | tap menu hrow =>
    unfold tapWrites at hw
    split at hw
    · rw [List.mem_singleton.mp hw]
      rfl
    · contradiction
  | stop row ident timeArray =>
    rw [List.mem_singleton.mp hw]
    rfl
  | finish hrow =>
    rw [List.mem_singleton.mp hw]
    rfl
  | edit hform hpath hcolor => contradiction
  | delete row => contradiction
  | completed document hp hcb =>
    cases document <;> simp only [finishedWrites, Option.toList, List.map, List.nil_append,
      List.cons_append, List.mem_cons, List.not_mem_nil, or_false] at hw
    · rw [hw]
      rfl
    · rcases hw with rfl | rfl <;> rfl
  -- the callbacks of creates and deletes are not in flight
  | created document hp hcb =>
    simpa [hcb, Callback.isRefresh, Callback.isFinished] using hcalls _ hp.mem
  | counted row hp hcb =>
    simpa [hcb, Callback.isRefresh, Callback.isFinished] using hcalls _ hp.mem
  | rewritten hp hcb =>
    simpa [hcb, Callback.isRefresh, Callback.isFinished] using hcalls _ hp.mem

theorem shows_step_iff {s : State} {e : Event} {row ident : Nat} {form : EditForm} {color : Int}
    (h : Shows row ident form color s.store) (hcalls : NoRewrite s) (he : e.isFollowUp = true) :
    Shows row ident form color (step s e).store ↔ KeepsEdit row form s e := by
  by_cases hreset : e = .viewWillAppear ∧ s.crashed = none ∧ resets s = true
  · obtain ⟨rfl, hrunning, hres⟩ := hreset
    rw [step_of_running hrunning, handle, shows_viewWillAppear_iff hres h]
    simp [KeepsEdit, hrunning, hres]
  · refine iff_of_true ?_ fun heq hrunning hres => absurd ⟨heq, hrunning, hres⟩ hreset
    obtain ⟨ws, hws, hstore, _⟩ := writesTo_step s e
    rw [Shows, hstore, face_of_isFaceless (isFaceless_of_stepWrites hws hcalls he hreset)]
    exact h

/-! ## Runs -/

/-- The edit writes the values of the form. -/
theorem shows_editConfirmed {s : State} {e row : Nat} {form : EditForm} {color : Int}
    {doc : HabitDoc} (hform : s.editing[e]? = some form) (haccepted : form.accepted = true)
    (hpath : form.indexPath = some row) (hcolor : s.sectionColor = some color)
    (hdoc : s.store.habits row = some doc) :
    Shows row doc.ident form color (EditHabit.editHabit e s).store := by
  rw [editHabit_eq hform haccepted hpath hcolor]
  simp [Shows, EditHabit.setForm, Store.apply_updateHabit_habits, hdoc, HabitFields.face,
    HabitFields.merge, EditHabit.editedEntry, Entry.fields]

/-- After an edit that is confirmed for a document, with no create or delete
under way, and whatever refreshes, appearances, taps and other events but
edits, deletes and creates follow, in any order: the document has the
confirmed name, color and goal at every moment, exactly when each reset
finds no habit at the row, or one that already has the confirmed name and
goal. -/
theorem edit_kept_iff {s : State} {e row : Nat} {form : EditForm} {color : Int} {doc : HabitDoc}
    {es : List Event} (hrunning : s.crashed = none) (hform : s.editing[e]? = some form)
    (haccepted : form.accepted = true) (hpath : form.indexPath = some row)
    (hcolor : s.sectionColor = some color) (hdoc : s.store.habits row = some doc)
    (hcalls : NoRewrite s) (hes : ∀ e ∈ es, e.isFollowUp = true) :
    Runs.Always step (fun s => Shows row doc.ident form color s.store)
        (step s (.editConfirmed e)) es ↔
      Runs.Guarded step (KeepsEdit row form) (step s (.editConfirmed e)) es := by
  have hstep : step s (.editConfirmed e) = EditHabit.editHabit e s := by
    rw [step_of_running hrunning]
    rfl
  have hshows := shows_editConfirmed hform haccepted hpath hcolor hdoc
  have hcalls' : NoRewrite (EditHabit.editHabit e s) := by
    rw [editHabit_eq hform haccepted hpath hcolor]
    intro p hp
    rcases List.mem_append.mp hp with hp | hp
    · exact hcalls p hp
    · rw [List.mem_singleton.mp hp]
      exact Or.inl rfl
  have hbase : Runs.Guarded step (fun _ e => True ∧ e.isFollowUp = true)
      (EditHabit.editHabit e s) es :=
    (Runs.guarded_true (EditHabit.editHabit e s) es).and_forall hes
  rw [hstep]
  refine Runs.always_iff_of_exact
    (I := fun s => Shows row doc.ident form color s.store ∧ NoRewrite s) (fun _ hs => hs.1)
    ?_ ?_ hbase ⟨hshows, hcalls'⟩
  · exact fun s e hs hbase hok =>
      ⟨(shows_step_iff hs.1 hs.2 hbase.2).mpr hok, hs.2.step hbase.2⟩
  · exact fun s e hs hbase => (shows_step_iff hs.1 hs.2 hbase.2).mp

/-- The name of a habit is edited.  On the way back to the list the reset of
the day runs before the queued refresh, and the document has its old name
again. -/
theorem reset_undoes_edit :
    let s := run (State.launched (.ofEntries [.sample 1]))
      [.fetchFirebaseHabits, .serve 0, .deliver 0, .serve 0, .deliver 0, .handleLongPress 0,
        .editHabit, .editName 0 ["v"], .editConfirmed 0]
    let after := run s [.viewWillAppear, .deliver 0, .deliver 0, .serve 0, .deliver 0, .serve 0,
      .deliver 0]
    s.crashed = none ∧ after.crashed = none ∧ after.pending.length = 0 ∧
      (s.store.habits 0).map (·.fields.name) = some (some ["v"]) ∧
      (after.store.habits 0).map (·.fields.name) = some (some ["w"]) := by
  decide

/-- With the refresh first, the edit is kept through the reset. -/
theorem edit_kept_iff_refreshed :
    let s := run (State.launched (.ofEntries [.sample 1]))
      [.fetchFirebaseHabits, .serve 0, .deliver 0, .serve 0, .deliver 0, .handleLongPress 0,
        .editHabit, .editName 0 ["v"]]
    let form : EditForm :=
      { habit := (Entry.sample 1).toHabit 0 0, indexPath := some 0, habitName := ["v"],
        valueCounter := 1 }
    let es : List Event := [.deliver 0, .viewWillAppear, .serve 0, .deliver 0, .serve 0, .deliver 0,
      .viewWillAppear]
    Runs.Always step (fun s => Shows 0 0 form 1 s.store) (step s (.editConfirmed 0)) es ↔
      Runs.Guarded step (KeepsEdit 0 form) (step s (.editConfirmed 0)) es := by
  intro s form es
  have hdoc : s.store.habits 0 = some ((Entry.sample 1).toHabit 0 0).toDocument := by decide
  exact edit_kept_iff (by decide) (by decide) (by decide) rfl rfl hdoc (by decide) (by decide)

end HabitHive
