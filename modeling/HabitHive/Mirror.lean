import HabitHive.Delete
import HabitHive.Writes

/-!
# The list in memory as a mirror of the documents

`Agrees s` says that the counted documents are those that
`updateFirebaseHabits` would write for the list in memory, field by field.
A delete ends with just this write, so it carries each difference into the
documents.

A stopped or finished countdown changes the row and the document in the
same way.  A reset does not: it writes `timeOriginal` to the field
`timeArray`, and leaves `time` in memory.  `agrees_iff_full` says that this
is the only way to lose the agreement.
-/

namespace HabitHive

open HabitCollection

/-- All nine fields of each habit agree with its document, and the counter
with the length of the list. -/
def Agrees (s : State) : Prop := s.store.Lists id (s.habitArray.map Habit.toDocument)

/-! ## Updates of one row -/

/-- An update of a document, as a change of the list of documents. -/
theorem Store.Lists.updateHabit {docs : List HabitDoc} {st : Store} (h : st.Lists id docs)
    (row : Nat) (fields : HabitFields) (ident : Nat) :
    (st.apply (.updateHabit row fields ident)).Lists id
      (docs.modify row fun doc => { doc with fields := doc.fields.merge fields }) where
  counter := by
    rw [List.length_modify]
    exact h.counter
  docs k hk := by
    rw [List.length_modify] at hk
    rw [apply_updateHabit_habits, List.getElem?_modify, ← h.docs k hk]
    by_cases hrow : k = row
    · simp [hrow]
    · simp [hrow, Ne.symm hrow]

/-- A row and its document that are changed in the same way. -/
theorem Agrees.update {s s' : State} (h : Agrees s) {row : Nat} (ident : Nat)
    {fields : HabitFields} {habit habit' : Habit} (hrow : s.habitArray[row]? = some habit)
    (hstore : s'.store = s.store.apply (.updateHabit row fields ident))
    (hlist : s'.habitArray = s.habitArray.set row habit')
    (hsame : { habit.toDocument with fields := habit.toDocument.fields.merge fields } =
      habit'.toDocument) : Agrees s' := by
  have hdocs : (s.habitArray.map Habit.toDocument)[row]? = some habit.toDocument := by
    rw [List.getElem?_map, hrow]
    rfl
  have hupdate := Store.Lists.updateHabit h row fields ident
  rw [List.modify_eq_set_getElem?, hdocs] at hupdate
  rw [Agrees, hstore, hlist, List.map_set, ← hsame]
  exact hupdate

theorem agrees_createTimeArray {s : State} (h : Agrees s) (row ident : Nat)
    (timeArray : List Int) : Agrees (createTimeArray row ident timeArray s) := by
  rw [createTimeArray, returnTimeArray]
  split
  · next hnone =>
    have hlen : (s.habitArray.map Habit.toDocument).length ≤ row := by
      simpa using hnone
    have hupdate := Store.Lists.updateHabit h row { timeArray := some timeArray } ident
    rwa [List.modify_eq_self hlen] at hupdate
  · next habit hrow =>
    exact h.update ident hrow rfl rfl rfl

theorem agrees_showAlert {s : State} (h : Agrees s) (row : Nat) : Agrees (showAlert row s) := by
  rw [showAlert]
  split
  · exact h
  · next habit hrow => exact h.update habit.ident hrow rfl rfl rfl

/-! ## The reset -/

/-- The document that a reset leaves is that of the row after the reset,
but for the time. -/
theorem resetFields_toDocument_iff (habit : Habit) :
    { habit.toDocument with
      fields := habit.toDocument.fields.merge (resetFields (resetHabit habit)) } =
      (resetHabit habit).toDocument ↔ habit.time = habit.timeOriginal := by
  constructor
  · intro hsame
    have htime := congrArg (fun doc => doc.fields.timeArray) hsame
    exact (Option.some.inj htime).symm
  · intro htime
    simp [Habit.toDocument, Habit.entry, resetHabit, resetFields, Entry.fields, HabitFields.merge,
      htime]

theorem agrees_viewWillAppear_iff {s : State} (h : Agrees s) (hres : resets s = true) :
    Agrees (viewWillAppear s) ↔ ∀ habit ∈ s.habitArray, habit.time = habit.timeOriginal := by
  have hcounter : (viewWillAppear s).store.user.habitCounter = s.store.user.habitCounter := by
    rw [(viewWillAppear_writes hres).1]
    exact Store.habitCounter_of_plain (appearWrites_isPlain s)
  have hlen : (s.habitArray.map Habit.toDocument).length = s.habitArray.length := by simp
  -- row by row
  have hrow : ∀ k habit, s.habitArray[k]? = some habit →
      ((viewWillAppear s).store.habits k = some (resetHabit habit).toDocument ↔
        habit.time = habit.timeOriginal) := by
    intro k habit hk
    have hdoc := h.docs k (hlen ▸ (List.getElem?_eq_some_iff.mp hk).1)
    rw [Option.map_id_fun, id_eq, List.getElem?_map, hk] at hdoc
    rw [viewWillAppear_habits hres, hk, hdoc, ← resetFields_toDocument_iff habit]
    exact Option.some_inj
  constructor
  · intro hafter habit hmem
    obtain ⟨k, hk⟩ := List.mem_iff_getElem?.mp hmem
    refine (hrow k habit hk).mp ?_
    have hdoc := hafter.docs k (by
      simpa [viewWillAppear_habitArray hres] using (List.getElem?_eq_some_iff.mp hk).1)
    rw [Option.map_id_fun, id_eq, viewWillAppear_habitArray hres, List.getElem?_map,
      List.getElem?_map, hk] at hdoc
    exact hdoc
  · intro htimes
    refine ⟨?_, fun k hk => ?_⟩
    · rw [hcounter, viewWillAppear_habitArray hres, h.counter]
      simp
    · rw [viewWillAppear_habitArray hres, List.length_map, List.length_map] at hk
      have hget := List.getElem?_eq_getElem hk
      rw [Option.map_id_fun, id_eq, viewWillAppear_habitArray hres, List.getElem?_map,
        List.getElem?_map, hget]
      exact (hrow k _ hget).mpr (htimes _ (List.getElem_mem hk))

/-! ## A delete afterwards -/

/-- A long press on a row and its delete, with both of its callbacks. -/
def deleteEvents (s : State) (row : Nat) : List Event :=
  [.handleLongPress row, .deleteHabit, .deliver s.pending.length, .deliver s.pending.length]

/-- The call issued last is delivered next. -/
theorem deliver_issued {s : State} {cb : Callback} (hcb : cb.isRead = false) :
    (s.issue cb).deliver s.pending.length = cb.run none s := by
  have hdrop : (s.issue cb).dropPending s.pending.length = s := by
    simp [State.dropPending, State.issue, List.eraseIdx_append_of_length_le]
  simp [State.deliver, hdrop, hcb]

/-- A delete leaves the documents of the list in memory, without the row. -/
theorem reachable_deleteEvents {s : State} (hrunning : s.crashed = none) {row : Nat}
    (hrow : row < s.habitArray.length) :
    (run s (deleteEvents s row)).crashed = none ∧
      (run s (deleteEvents s row)).store.reachable =
        (s.habitArray.eraseIdx row).map fun h => some h.toDocument := by
  -- the four steps, one after the other
  let pressed : State := { s with indexPathGlobal := some row }
  let erased : State := { pressed with
    shownRows := s.shownRows - 1
    habitArray := s.habitArray.eraseIdx row }.write (.deleteHabit row)
  let counted : State :=
    (erased.writeAll (if erased.habitArray.length = row then [] else
      [.deleteHabit erased.habitArray.length])).write
        (.updateUser { habitCounter := some erased.habitArray.length })
  have hpress : step s (.handleLongPress row) = pressed := by
    rw [step_of_running hrunning, handle, handleLongPress, if_pos hrow]
  have hdelete : step pressed .deleteHabit = erased.issue .deleteDone := by
    rw [step_of_running (s := pressed) hrunning, handle, deleteHabit_eq (s := pressed) rfl hrow]
  have hdone : step (erased.issue .deleteDone) (.deliver s.pending.length) =
      counted.issue .counterDone := by
    rw [step_of_running (s := erased.issue .deleteDone) hrunning]
    exact (deliver_issued (s := erased) rfl).trans (deleteDone_eq (s := erased) rfl)
  have hrewrite : step (counted.issue .counterDone) (.deliver s.pending.length) =
      counterDone counted := by
    rw [step_of_running (s := counted.issue .counterDone) hrunning]
    exact deliver_issued (s := counted) rfl
  rw [deleteEvents, run_cons, hpress, run_cons, hdelete, run_cons, hdone, run_cons, hrewrite,
    run_nil]
  refine ⟨hrunning, ?_⟩
  have hlists := Store.lists_of_rewrite (f := id) counted.store (s.habitArray.eraseIdx row)
  exact hlists.reachable.trans (by rw [List.map_map]; rfl)

/-- A delete of any row changes no document but that of the row. -/
def DeleteSpares (s : State) : Prop :=
  s.crashed = none → ∀ row < s.habitArray.length,
    (run s (deleteEvents s row)).store.reachable = s.store.reachable.eraseIdx row

theorem Agrees.deleteSpares {s : State} (h : Agrees s) : DeleteSpares s := by
  intro hrunning row hrow
  rw [(reachable_deleteEvents hrunning hrow).2, Store.Lists.reachable h, List.map_map,
    ← List.eraseIdx_map]
  rfl

/-! ## Runs -/

/-- The reset, the stop and the end of a countdown, and the clock. -/
inductive MirrorEvent : Event → Prop where
  | nextDay : MirrorEvent .nextDay
  | viewWillAppear : MirrorEvent .viewWillAppear
  | createTimeArray (row ident : Nat) (timeArray : List Int) :
      MirrorEvent (.createTimeArray row ident timeArray)
  | showAlert (row : Nat) : MirrorEvent (.showAlert row)

/-- No reset meets a countdown that has run. -/
def ResetsFull (s : State) (e : Event) : Prop :=
  e = .viewWillAppear → s.crashed = none → resets s = true →
    ∀ habit ∈ s.habitArray, habit.time = habit.timeOriginal

instance (s : State) (e : Event) : Decidable (ResetsFull s e) := by
  unfold ResetsFull
  infer_instance

theorem agrees_step_iff {s : State} {e : Event} (h : Agrees s) (he : MirrorEvent e) :
    Agrees (step s e) ↔ ResetsFull s e := by
  by_cases hrunning : s.crashed = none
  · rw [step_of_running hrunning]
    cases he with
    | nextDay => exact iff_of_true h (by simp [ResetsFull])
    | viewWillAppear =>
      cases hres : resets s
      · rw [handle, viewWillAppear_of_not_resets hres]
        exact iff_of_true h (by simp [ResetsFull, hres])
      · rw [handle, agrees_viewWillAppear_iff h hres]
        simp [ResetsFull, hrunning, hres]
    | createTimeArray row ident timeArray =>
      exact iff_of_true (agrees_createTimeArray h row ident timeArray) (by simp [ResetsFull])
    | showAlert row => exact iff_of_true (agrees_showAlert h row) (by simp [ResetsFull])
  · have hstuck : step s e = s := by
      cases he <;> simp [step, hrunning]
    rw [hstuck]
    exact iff_of_true h fun _ hrun => absurd hrun hrunning

/-- From a list that agrees with its documents, in a run of resets, stopped
and finished countdowns: after each step all nine fields of every habit
agree, and a delete would change no other habit, exactly when no reset of
the run meets a habit with another time than its original one. -/
theorem agrees_iff_full {s : State} {es : List Event} (h : Agrees s)
    (hes : ∀ e ∈ es, MirrorEvent e) :
    Runs.Guarded step (fun s e => Agrees (step s e) ∧ DeleteSpares (step s e)) s es ↔
      Runs.Guarded step ResetsFull s es := by
  have hbase : Runs.Guarded step (fun _ e => True ∧ MirrorEvent e) s es :=
    (Runs.guarded_true s es).and_forall hes
  refine Runs.guarded_congr (I := Agrees) (fun s e _ _ hok => hok.1)
    (fun s e hs hbase => ?_) hbase h
  rw [← agrees_step_iff hs hbase.2]
  exact ⟨fun hok => hok.1, fun hok => ⟨hok, hok.deleteSpares⟩⟩

/-- A timed habit with ten minutes, of which five are left. -/
def Entry.halfRun : Entry :=
  { Entry.sample 0 with
    counted := false
    timeArray := [0, 0, 0, 5, 0, 0]
    timeArrayOriginal := [0, 0, 1, 0, 0, 0] }

/-- A counted and a timed habit, loaded. -/
def State.halfRun : State :=
  run (State.launched (.ofEntries [.sample 1, .halfRun]))
    [.fetchFirebaseHabits, .serve 0, .deliver 0, .serve 0, .deliver 0, .serve 0, .deliver 0]

/-- The reset gives the document its ten minutes back, and the delete of the
other habit takes them away again. -/
theorem reset_then_delete_restores_remaining :
    let s := step State.halfRun .viewWillAppear
    Agrees State.halfRun ∧ ¬Agrees s ∧
      (s.store.habits 1).map (·.fields.timeArray) = some (some [0, 0, 1, 0, 0, 0]) ∧
      ((run s (deleteEvents s 0)).store.habits 0).map (·.fields.timeArray) =
        some (some [0, 0, 0, 5, 0, 0]) ∧
      ¬DeleteSpares s := by
  intro s
  refine ⟨⟨by decide, by decide⟩, ?_, by decide, by decide, ?_⟩
  · intro h
    have hdoc := h.docs 1 (by decide)
    revert hdoc
    decide
  · intro h
    have hdocs := h (by decide) 0 (by decide)
    revert hdocs
    decide

/-- A countdown that is stopped keeps the agreement, and the reset that
follows does not. -/
theorem agrees_iff_full_stopped :
    let es : List Event := [.createTimeArray 1 1 [0, 0, 0, 4, 0, 0], .viewWillAppear]
    Runs.Guarded step (fun s e => Agrees (step s e) ∧ DeleteSpares (step s e)) State.halfRun es ↔
      Runs.Guarded step ResetsFull State.halfRun es :=
  agrees_iff_full ⟨by decide, by decide⟩
    (by simpa using ⟨.createTimeArray 1 1 _, .viewWillAppear⟩)

end HabitHive
