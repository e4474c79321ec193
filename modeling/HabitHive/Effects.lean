import HabitHive.Create
import HabitHive.DailyReset

/-!
# What events write

An event of the session is `Mild` when it only updates fields of existing
documents, and starts no document read and no step of a delete.  All
events of the user are mild but the press of the delete button; so are the
blocks of the main queue and the callback of a completion
(`mild_of_event`, `mild_finishedRead`).  What is left are the callbacks of
the counter and document reads, of a create and of a delete.

The events of the other screens change nothing that a proof about habits
looks at (`ScreensOnly`), and a `Quiet` event leaves the numbers, flags and
streaks of the habits as well.

What taps, edits, deletes and completions do is said once, in
`didSelectItemAt_cases`, `editConfirmed_cases`, `deleteHabit_cases`,
`deleteDone_cases` and the equations beside them.
-/

namespace HabitHive

open HabitCollection

/-! ## Plain writes -/

/-- A write that changes fields of existing documents other than the
counter. -/
def Write.isPlain : Write → Bool
  | .updateUser fields => fields.habitCounter.isNone
  | .updateHabit .. => true
  | .setHabit .. | .deleteHabit _ => false

namespace Store

/-- Every document has all nine fields. -/
def Complete (st : Store) : Prop :=
  ∀ k doc, st.habits k = some doc → doc.fields.decode.isSome = true

variable {st : Store} {w : Write} {ws : List Write}

theorem habitCounter_of_isPlain (h : w.isPlain = true) :
    (st.apply w).user.habitCounter = st.user.habitCounter := by
  cases w with
  | updateUser fields => simp [Option.isNone_iff_eq_none.mp h]
  | updateHabit n fields i => rfl
  | _ => contradiction

theorem ident_of_isPlain (h : w.isPlain = true) (k : Nat) :
    ((st.apply w).habits k).map HabitDoc.ident = (st.habits k).map HabitDoc.ident := by
  cases w with
  | updateUser fields => rfl
  | updateHabit n fields i => exact st.apply_updateHabit_ident n fields i k
  | _ => contradiction

theorem Complete.of_isPlain (hst : st.Complete) (h : w.isPlain = true) :
    (st.apply w).Complete := by
  cases w with
  | updateUser fields => exact hst
  | updateHabit n fields i =>
    intro k doc hdoc
    rw [apply_updateHabit_habits] at hdoc
    split at hdoc
    · obtain ⟨old, hold, rfl⟩ := Option.map_eq_some_iff.mp hdoc
      obtain ⟨entry, hentry⟩ := Option.isSome_iff_exists.mp (hst n old hold)
      simp [HabitFields.decode_merge fields hentry]
    · exact hst k doc hdoc
  | _ => contradiction

theorem habitCounter_of_plain (h : ∀ w ∈ ws, w.isPlain = true) :
    (st.applyAll ws).user.habitCounter = st.user.habitCounter :=
  Runs.run_view (fun st : Store => st.user.habitCounter)
    fun w hw _ => habitCounter_of_isPlain (h w hw)

/-- Writes that leave a view of the user document. -/
theorem user_of_forall {β : Type} (g : UserDoc → β)
    (h : ∀ w ∈ ws, ∀ fields, w = .updateUser fields → ∀ u : UserDoc, g (u.merge fields) = g u) :
    g (st.applyAll ws).user = g st.user := by
  refine Runs.run_view (fun st : Store => g st.user) fun w hw st => ?_
  cases w with
  | updateUser fields => exact h _ hw fields rfl st.user
  | _ => rfl

/-- An update of fields that a view of the documents does not show. -/
theorem map_updateHabit {β : Type} (g : HabitDoc → β) {fields : HabitFields}
    (h : ∀ doc : HabitDoc, g { doc with fields := doc.fields.merge fields } = g doc) (n i k : Nat) :
    ((st.apply (.updateHabit n fields i)).habits k).map g = (st.habits k).map g := by
  rw [apply_updateHabit_habits]
  split
  · next hk =>
    rw [hk, Option.map_map]
    exact congrArg (Option.map · _) (funext h)
  · rfl

/-- Writes that leave a view of every document. -/
theorem map_habits_of_forall {β : Type} (g : HabitDoc → β)
    (h : ∀ w ∈ ws, ∀ (st : Store) (k : Nat), ((st.apply w).habits k).map g = (st.habits k).map g)
    (k : Nat) : ((st.applyAll ws).habits k).map g = (st.habits k).map g :=
  Runs.run_view (fun st : Store => (st.habits k).map g) fun w hw st => h w hw st k

theorem ident_of_plain (h : ∀ w ∈ ws, w.isPlain = true) (k : Nat) :
    ((st.applyAll ws).habits k).map HabitDoc.ident = (st.habits k).map HabitDoc.ident :=
  map_habits_of_forall HabitDoc.ident (fun w hw _ k => ident_of_isPlain (h w hw) k) k

theorem isSome_of_ident {st st' : Store} {k : Nat}
    (h : (st'.habits k).map HabitDoc.ident = (st.habits k).map HabitDoc.ident) :
    (st'.habits k).isSome = (st.habits k).isSome := by
  rw [← Option.isSome_map (f := HabitDoc.ident), h, Option.isSome_map]

end Store

/-! ## Taps -/

/-- The habit after the increment of a tap. -/
def Habit.incremented (h : Habit) : Habit :=
  if h.currentCount < h.goal then
    { h with finishedFirstTime := false, currentCount := h.currentCount + 1 }
  else h

/-- A tap reaches the goal. -/
def Habit.completes (h : Habit) : Bool := h.incremented.currentCount = h.incremented.goal

/-- The habit after a tap that is accepted. -/
def Habit.tapped (h : Habit) : Habit :=
  if h.completes then { h.incremented with finishedFirstTime := false, addFirebase := false }
  else h.incremented

theorem habitNumber_tapped (h : Habit) : h.tapped.habitNumber = h.habitNumber := by
  unfold Habit.tapped Habit.incremented
  split_ifs <;> rfl

theorem ident_tapped (h : Habit) : h.tapped.ident = h.ident := by
  unfold Habit.tapped Habit.incremented
  split_ifs <;> rfl

/-- A row of a list that changes in nothing that a view shows. -/
theorem map_set_of_eq {α β : Type} (g : α → β) {hs : List α} {row : Nat} {h h' : α}
    (hrow : hs[row]? = some h) (hsame : g h' = g h) : (hs.set row h').map g = hs.map g := by
  obtain ⟨hlt, rfl⟩ := List.getElem?_eq_some_iff.mp hrow
  have hlt' : row < (hs.map g).length := by simpa using hlt
  have hget : g hs[row] = (hs.map g)[row] := by simp
  rw [List.map_set, hsame, hget, List.set_getElem_self]

/-- What a tap on the habit at `row` writes. -/
def tapWrites (row : Nat) (h : Habit) : List Write :=
  if h.currentCount < h.goal then
    [.updateHabit row { currentCount := some (h.currentCount + 1) } h.ident]
  else []

/-- The callback that a completing tap leaves. -/
def tapCallbacks (row : Nat) (h : Habit) : List Callback :=
  if h.completes then [.finished row h.ident] else []

/-- A tap on a counted habit that is not completed yet. -/
theorem tapCounted_eq {row : Nat} {h : Habit} {s : State} (hrow : s.habitArray[row]? = some h)
    (hadd : h.addFirebase = true) :
    tapCounted row h s =
      ((s.writeAll (tapWrites row h)).issueAll (tapCallbacks row h)).setRow row h.tapped := by
  obtain ⟨hlt, rfl⟩ := List.getElem?_eq_some_iff.mp hrow
  by_cases hcount : s.habitArray[row].currentCount < s.habitArray[row].goal
  · by_cases hgoal : s.habitArray[row].currentCount + 1 = s.habitArray[row].goal
    · simp [tapCounted, completeCounted, Habit.tapped, Habit.completes, Habit.incremented,
        tapWrites, tapCallbacks, hcount, hgoal, hadd, State.setRow, State.write, State.writeAll,
        State.issue, State.issueAll]
    · simp [tapCounted, completeCounted, Habit.tapped, Habit.completes, Habit.incremented,
        tapWrites, tapCallbacks, hcount, hgoal, State.setRow, State.write, State.writeAll,
        State.issueAll]
  · by_cases hgoal : s.habitArray[row].currentCount = s.habitArray[row].goal
    · simp [tapCounted, completeCounted, Habit.tapped, Habit.completes, Habit.incremented,
        tapWrites, tapCallbacks, hgoal, hadd, State.setRow, State.writeAll, State.issue,
        State.issueAll]
    · simp [tapCounted, completeCounted, Habit.tapped, Habit.completes, Habit.incremented,
        tapWrites, tapCallbacks, hcount, hgoal, State.setRow, State.writeAll, State.issueAll]

/-- The tap is one that `didSelectItemAt` counts. -/
def accepts (menu : Bool) (h : Habit) : Bool := h.addFirebase && !menu && h.counted

/-- A tap saves the day.  Then the row is out of range, or the tap is not
accepted, or it counts. -/
theorem didSelectItemAt_cases (row : Nat) (menu : Bool) (s : State) :
    (s.habitArray[row]? = none ∧
        didSelectItemAt row menu s =
          { s with palmiIsCool := some s.today }.crash .indexOutOfRange) ∨
      ∃ h, s.habitArray[row]? = some h ∧
        (accepts menu h = false ∧
            didSelectItemAt row menu s = { s with palmiIsCool := some s.today } ∨
          accepts menu h = true ∧
            didSelectItemAt row menu s =
              (({ s with palmiIsCool := some s.today }.writeAll (tapWrites row h)).issueAll
                (tapCallbacks row h)).setRow row h.tapped) := by
  cases hrow : s.habitArray[row]? with
  | none => exact Or.inl ⟨rfl, by simp [didSelectItemAt, hrow]⟩
  | some h =>
    refine Or.inr ⟨h, rfl, ?_⟩
    cases hadd : h.addFirebase
    · exact Or.inl ⟨by simp [accepts, hadd], by simp [didSelectItemAt, hrow, hadd]⟩
    · cases menu
      · cases hcounted : h.counted
        · exact Or.inl ⟨by simp [accepts, hcounted],
            by simp [didSelectItemAt, hrow, hadd, hcounted]⟩
        · refine Or.inr ⟨by simp [accepts, hadd, hcounted], ?_⟩
          have htap := tapCounted_eq (s := { s with palmiIsCool := some s.today }) hrow hadd
          simpa [didSelectItemAt, hrow, hadd, hcounted] using htap
      · exact Or.inl ⟨by simp [accepts], by simp [didSelectItemAt, hrow, hadd]⟩

/-! ## Completions -/

/-- What the callback of a completion writes: the count of finished habits
first, when the read returned a document. -/
def finishedWrites (row ident : Nat) (document : Option Store) : List Write :=
  let counted := document.toList.map fun doc =>
    Write.updateUser { finishedHabits := some (doc.user.finishedHabits + 1) }
  counted ++ [.updateHabit row { addFirebase := some false } ident]

theorem finishedRead_eq (row ident : Nat) (document : Option Store) (s : State) :
    finishedRead row ident document s = s.writeAll (finishedWrites row ident document) := by
  cases document <;> simp [finishedRead, finishedWrites, State.write, State.writeAll]

theorem finishedWrites_isPlain (row ident : Nat) (document : Option Store) :
    ∀ w ∈ finishedWrites row ident document, w.isPlain = true := by
  cases document <;> simp [finishedWrites, Write.isPlain]

/-- The documents get the flag, and the count of finished habits is none of
their fields. -/
theorem habits_of_finishedWrites (row ident : Nat) (document : Option Store) (st : Store) :
    (st.applyAll (finishedWrites row ident document)).habits =
      (st.apply (.updateHabit row { addFirebase := some false } ident)).habits := by
  cases document <;> rfl

/-! ## Deletes -/

/-- The press of the delete button on a row of the list. -/
theorem deleteHabit_eq {s : State} {row : Nat} (hglobal : s.indexPathGlobal = some row)
    (hrow : row < s.habitArray.length) :
    deleteHabit s =
      ({ s with
          shownRows := s.shownRows - 1
          habitArray := s.habitArray.eraseIdx row }.write
        (.deleteHabit row)).issue .deleteDone := by
  simp [deleteHabit, deleteHabitAction, hglobal, hrow]

/-- The press ends the process when no row of the list was long-pressed. -/
theorem deleteHabit_cases (s : State) :
    (∃ f, f ≠ .forcedCast ∧ deleteHabit s = s.crash f) ∨
      ∃ row, s.indexPathGlobal = some row ∧ row < s.habitArray.length := by
  cases hglobal : s.indexPathGlobal with
  | none => exact Or.inl ⟨.nilUnwrap, by simp, by simp [deleteHabit, deleteHabitAction, hglobal]⟩
  | some row =>
    by_cases hrow : row < s.habitArray.length
    · exact Or.inr ⟨row, rfl, hrow⟩
    · exact Or.inl ⟨.indexOutOfRange, by simp,
        by simp [deleteHabit, deleteHabitAction, hglobal, hrow]⟩

/-- The last document is deleted as well, unless it was the one that the
long press remembered. -/
theorem deleteDone_eq {s : State} {row : Nat} (hglobal : s.indexPathGlobal = some row) :
    deleteDone s =
      ((s.writeAll (if s.habitArray.length = row then [] else
          [.deleteHabit s.habitArray.length])).write
        (.updateUser { habitCounter := some s.habitArray.length })).issue .counterDone := by
  simp only [HabitCollection.deleteDone, hglobal, ne_eq, ite_not]
  split
  · rw [State.writeAll, Store.applyAll_nil, List.append_nil]
  · rfl

theorem deleteDone_cases (s : State) :
    deleteDone s = s.crash .nilUnwrap ∨ ∃ row, s.indexPathGlobal = some row := by
  cases hglobal : s.indexPathGlobal with
  | none => exact Or.inl (by simp [deleteDone, hglobal])
  | some row => exact Or.inr ⟨row, rfl⟩

/-! ## The other screens -/

/-- `s'` is `s` but for what the other screens hold: the forms, the color,
the row of the last long press, and a crash that is no failed cast of a
document. -/
structure ScreensOnly (s s' : State) : Prop where
  store : s'.store = s.store
  journal : s'.journal = s.journal
  pending : s'.pending = s.pending
  today : s'.today = s.today
  habitArray : s'.habitArray = s.habitArray
  shownRows : s'.shownRows = s.shownRows
  viewStale : s'.viewStale = s.viewStale
  nextIdent : s'.nextIdent = s.nextIdent
  forms : ∀ form ∈ s'.creating, form.habitCounter = 0 ∨
    ∃ old ∈ s.creating, old.habitCounter = form.habitCounter
  cast : s'.crashed = some .forcedCast → s.crashed = some .forcedCast

/-- The forms of the create screens are the same. -/
theorem forms_of_eq {s s' : State} (h : s'.creating = s.creating) :
    ∀ form ∈ s'.creating, form.habitCounter = 0 ∨
      ∃ old ∈ s.creating, old.habitCounter = form.habitCounter :=
  fun form hform => Or.inr ⟨form, h ▸ hform, rfl⟩

theorem ScreensOnly.refl (s : State) : ScreensOnly s s :=
  ⟨rfl, rfl, rfl, rfl, rfl, rfl, rfl, rfl, forms_of_eq rfl, id⟩

theorem screensOnly_crash (s : State) {f : Fault} (hf : f ≠ .forcedCast) :
    ScreensOnly s (s.crash f) :=
  ⟨rfl, rfl, rfl, rfl, rfl, rfl, rfl, rfl, forms_of_eq rfl, by simp [hf]⟩

theorem screensOnly_setForm {c : Nat} {s : State} {form old : CreateForm}
    (hold : s.creating[c]? = some old) (hcounter : form.habitCounter = old.habitCounter) :
    ScreensOnly s (CreateHabit.setForm c form s) := by
  refine ⟨rfl, rfl, rfl, rfl, rfl, rfl, rfl, rfl, fun form' hform' => ?_, id⟩
  rcases List.mem_or_eq_of_mem_set hform' with hmem | rfl
  · exact Or.inr ⟨form', hmem, rfl⟩
  · exact Or.inr ⟨old, List.mem_of_getElem? hold, hcounter.symm⟩

theorem screensOnly_setEditForm (e : Nat) (form : EditForm) (s : State) :
    ScreensOnly s (EditHabit.setForm e form s) :=
  ⟨rfl, rfl, rfl, rfl, rfl, rfl, rfl, rfl, forms_of_eq rfl, id⟩

/-- The events of the other screens, before a form is confirmed. -/
def Event.isScreen : Event → Bool
  | .handleLongPress _ | .editHabit | .sectionColor _ | .addButtonTapped | .createName ..
  | .createAmount .. | .createTime .. | .editName .. | .editAmount .. | .editTime .. => true
  | _ => false

theorem screensOnly_of_event {e : Event} (he : e.isScreen = true) (s : State) :
    ScreensOnly s (handle s e) := by
  cases e with
  | handleLongPress row =>
    simp only [handle, handleLongPress]
    split
    · exact ⟨rfl, rfl, rfl, rfl, rfl, rfl, rfl, rfl, forms_of_eq rfl, id⟩
    · exact ⟨rfl, rfl, rfl, rfl, rfl, rfl, rfl, rfl, forms_of_eq rfl, by simp⟩
  | editHabit =>
    simp only [handle, HabitCollection.editHabit]
    split
    · exact screensOnly_crash s (by simp)
    · split
      · exact screensOnly_crash s (by simp)
      · split
        · exact screensOnly_crash s (by simp)
        · exact ⟨rfl, rfl, rfl, rfl, rfl, rfl, rfl, rfl, forms_of_eq rfl, id⟩
  | sectionColor color => exact ⟨rfl, rfl, rfl, rfl, rfl, rfl, rfl, rfl, forms_of_eq rfl, id⟩
  | addButtonTapped =>
    refine ⟨rfl, rfl, rfl, rfl, rfl, rfl, rfl, rfl, fun form hform => ?_, id⟩
    rcases List.mem_append.mp hform with hmem | hnew
    · exact Or.inr ⟨form, hmem, rfl⟩
    · rw [List.mem_singleton.mp hnew]
      exact Or.inl rfl
  | createName c text =>
    simp only [handle, CreateHabit.habitNameChanged]
    split
    · exact .refl s
    · next form hform => exact screensOnly_setForm hform rfl
  | createAmount c amount =>
    simp only [handle, CreateHabit.didTapConfirmAmount]
    split
    · exact .refl s
    · next form hform => exact screensOnly_setForm hform rfl
  | createTime c time =>
    simp only [handle, CreateHabit.didTapConfirmTime]
    split
    · exact .refl s
    · next form hform =>
      split
      · exact screensOnly_crash s (by simp)
      · exact screensOnly_setForm hform rfl
  | editName e text =>
    simp only [handle, EditHabit.habitNameChanged]
    split
    · exact .refl s
    · exact screensOnly_setEditForm e _ s
  | editAmount e amount =>
    simp only [handle, EditHabit.didTapConfirmAmount]
    split
    · exact .refl s
    · exact screensOnly_setEditForm e _ s
  | editTime e time =>
    simp only [handle, EditHabit.didTapConfirmTime]
    split
    · exact .refl s
    · split
      · exact screensOnly_crash s (by simp)
      · exact screensOnly_setEditForm e _ s
  | _ => contradiction

/-- The checks of `EditHabitViewController.editHabit` on a form. -/
def EditForm.accepted (form : EditForm) : Bool :=
  form.habitName ≠ [] && form.habitName.length < 24

/-- A form that passes the checks is written to its row. -/
theorem editHabit_eq {e row : Nat} {form : EditForm} {color : Int} {s : State}
    (hform : s.editing[e]? = some form) (haccepted : form.accepted = true)
    (hpath : form.indexPath = some row) (hcolor : s.sectionColor = some color) :
    EditHabit.editHabit e s =
      (EditHabit.setForm e { form with errorLabel := none }
        (s.write (.updateHabit row (EditHabit.editedEntry form color).fields
          form.habit.ident))).issue .fetch := by
  simp only [EditForm.accepted, Bool.and_eq_true, decide_eq_true_eq] at haccepted
  simp only [EditHabit.editHabit, hform, haccepted, ne_eq, not_false_eq_true, if_true,
    hcolor, hpath]

/-- A confirmed edit writes the values of the form and queues a refresh, or
there is no edit. -/
theorem editConfirmed_cases (e : Nat) (s : State) :
    ScreensOnly s (EditHabit.editHabit e s) ∨
      ∃ form color row, EditHabit.editHabit e s =
        (EditHabit.setForm e { form with errorLabel := none }
          (s.write (.updateHabit row (EditHabit.editedEntry form color).fields
            form.habit.ident))).issue .fetch := by
  unfold EditHabit.editHabit
  split
  · exact Or.inl (.refl s)
  · next form _ =>
    split_ifs
    · split
      · exact Or.inl (screensOnly_crash s (by simp))
      · exact Or.inl (screensOnly_crash s (by simp))
      · next color row _ _ => exact Or.inr ⟨form, color, row, rfl⟩
    · exact Or.inl (screensOnly_setEditForm e _ s)
    · exact Or.inl (screensOnly_setEditForm e _ s)

/-! ## Mild steps -/

/-- `s'` comes from `s` by plain writes, and what it starts reads no habit
document and deletes none. -/
structure Mild (s s' : State) : Prop where
  writes : ∃ ws : List Write, (∀ w ∈ ws, w.isPlain = true) ∧
    s'.store = s.store.applyAll ws ∧ s'.journal = s.journal ++ ws
  issued : ∃ cbs : List Callback, s'.pending = s.pending ++ cbs.map ({ callback := · }) ∧
    ∀ cb ∈ cbs, (∀ n, cb ≠ .fetchHabit n) ∧ cb ≠ .deleteDone ∧ cb ≠ .counterDone
  forms : ∀ form ∈ s'.creating, form.habitCounter = 0 ∨
    ∃ old ∈ s.creating, old.habitCounter = form.habitCounter
  cast : s'.crashed = some .forcedCast → s.crashed = some .forcedCast

namespace Mild

variable {s s' : State}

/-- A step that writes nothing and leaves the create screens. -/
theorem of_issued (cbs : List Callback)
    (hcbs : ∀ cb ∈ cbs, (∀ n, cb ≠ .fetchHabit n) ∧ cb ≠ .deleteDone ∧ cb ≠ .counterDone)
    (hpending : s'.pending = s.pending ++ cbs.map ({ callback := · }))
    (hstore : s'.store = s.store) (hjournal : s'.journal = s.journal)
    (hcreating : s'.creating = s.creating)
    (hcast : s'.crashed = some .forcedCast → s.crashed = some .forcedCast) : Mild s s' where
  writes := ⟨[], by simp, by simpa using hstore, by simpa using hjournal⟩
  issued := ⟨cbs, hpending, hcbs⟩
  forms := forms_of_eq hcreating
  cast := hcast

theorem of_quiet (hpending : s'.pending = s.pending) (hstore : s'.store = s.store)
    (hjournal : s'.journal = s.journal) (hcreating : s'.creating = s.creating)
    (hcast : s'.crashed = some .forcedCast → s.crashed = some .forcedCast) : Mild s s' :=
  of_issued [] (by simp) (by simpa using hpending) hstore hjournal hcreating hcast

theorem refl (s : State) : Mild s s := of_quiet rfl rfl rfl rfl id

end Mild

/-- The events that are mild. -/
def Event.isMild : Event → Bool
  | .relaunch | .deleteHabit | .serve _ | .deliver _ | .fail _ => false
  | _ => true

theorem mild_didSelectItemAt (row : Nat) (menu : Bool) (s : State) :
    Mild s (didSelectItemAt row menu s) := by
  rcases didSelectItemAt_cases row menu s with ⟨_, hs⟩ | ⟨h, _, ⟨_, hs⟩ | ⟨_, hs⟩⟩ <;> rw [hs]
  · exact .of_quiet rfl rfl rfl rfl (by simp)
  · exact .of_quiet rfl rfl rfl rfl id
  · refine ⟨⟨tapWrites row h, ?_, by simp, by simp⟩, ⟨tapCallbacks row h, by simp, ?_⟩,
      forms_of_eq (by simp), by simp⟩
    · unfold tapWrites
      split <;> simp [Write.isPlain]
    · unfold tapCallbacks
      split <;> simp

/-- A reset updates each habit at its row, and the achievements. -/
theorem mem_resetWrites {hs : List Habit} {n : Nat} {names : List Text} {w : Write}
    (h : w ∈ resetWrites n names hs) :
    (∃ k habit, hs[k]? = some habit ∧ w = resetUpdate (n + k) habit) ∨
      ∃ fields, w = .updateUser fields := by
  induction hs generalizing n names with
  | nil => simp [resetWrites] at h
  | cons habit hs ih =>
    have hrest : ∀ {names}, w ∈ resetWrites (n + 1) names hs →
        (∃ k habit', (habit :: hs)[k]? = some habit' ∧ w = resetUpdate (n + k) habit') ∨
          ∃ fields, w = .updateUser fields := by
      intro names h
      refine (ih h).imp_left ?_
      rintro ⟨k, habit', hrow, hw⟩
      exact ⟨k + 1, habit', hrow, by rw [hw, Nat.add_right_comm, Nat.add_assoc]⟩
    rw [resetWrites] at h
    cases hachievement : achievement habit with
    | none =>
      rw [hachievement] at h
      rcases List.mem_cons.mp h with rfl | h
      · exact Or.inl ⟨0, habit, rfl, rfl⟩
      · exact hrest h
    | some text =>
      rw [hachievement] at h
      rcases List.mem_cons.mp h with rfl | h
      · exact Or.inl ⟨0, habit, rfl, rfl⟩
      · rcases List.mem_cons.mp h with rfl | h
        · exact Or.inr ⟨_, rfl⟩
        · exact hrest h

theorem resetWrites_isPlain (n : Nat) (names : List Text) (hs : List Habit) :
    ∀ w ∈ resetWrites n names hs, w.isPlain = true := by
  induction hs generalizing n names with
  | nil => simp [resetWrites]
  | cons h hs ih =>
    rw [resetWrites]
    cases achievement h with
    | none => simpa [resetUpdate, Write.isPlain] using ih (n + 1) names
    | some text => simpa [resetUpdate, Write.isPlain] using ih (n + 1) (names ++ [text])

theorem appearWrites_isPlain (s : State) : ∀ w ∈ appearWrites s, w.isPlain = true :=
  List.forall_mem_cons.mpr ⟨rfl, resetWrites_isPlain _ _ _⟩

theorem mild_viewWillAppear (s : State) : Mild s (viewWillAppear s) := by
  obtain ⟨_, _, _, hcrashed, _, _, hcreating, _⟩ := viewWillAppear_device s
  cases hres : resets s
  · rw [viewWillAppear_of_not_resets hres]
    exact .refl s
  · obtain ⟨cbs, hpending, hcbs⟩ := viewWillAppear_issued s
    exact ⟨⟨appearWrites s, appearWrites_isPlain s, viewWillAppear_writes hres⟩,
      ⟨cbs, hpending, fun cb hcb => by simp [hcbs cb hcb]⟩, forms_of_eq hcreating,
      by rw [hcrashed]; exact id⟩

/-- A plain write, then a step that writes nothing. -/
theorem mild_write {s s' : State} {w : Write} (hw : w.isPlain = true) (cbs : List Callback)
    (hcbs : ∀ cb ∈ cbs, (∀ n, cb ≠ .fetchHabit n) ∧ cb ≠ .deleteDone ∧ cb ≠ .counterDone)
    (hstore : s'.store = s.store.apply w) (hjournal : s'.journal = s.journal ++ [w])
    (hpending : s'.pending = s.pending ++ cbs.map ({ callback := · }))
    (hcreating : s'.creating = s.creating)
    (hcast : s'.crashed = some .forcedCast → s.crashed = some .forcedCast) : Mild s s' :=
  ⟨⟨[w], by simpa using hw, hstore, hjournal⟩, ⟨cbs, hpending, hcbs⟩, forms_of_eq hcreating, hcast⟩

theorem ScreensOnly.mild {s s' : State} (h : ScreensOnly s s') : Mild s s' :=
  ⟨⟨[], by simp, h.store, by simpa using h.journal⟩, ⟨[], by simpa using h.pending, by simp⟩,
    h.forms, h.cast⟩

/-- All events of the user are mild but the press of the delete button. -/
theorem mild_of_event {e : Event} (he : e.isMild = true) (s : State) : Mild s (handle s e) := by
  cases e with
  | relaunch => contradiction
  | deleteHabit => contradiction
  | serve i => contradiction
  | deliver i => contradiction
  | fail i => contradiction
  | nextDay => exact .of_quiet rfl rfl rfl rfl id
  | viewDidLoad =>
    simp only [handle, viewDidLoad]
    split
    · exact .of_issued [.fetchCounter, .reload] (by simp)
        (by simp [fetchFirebaseHabits]) rfl rfl rfl
        id
    · exact .refl s
  | viewWillAppear => exact mild_viewWillAppear s
  | fetchFirebaseHabits => exact .of_issued [.fetchCounter] (by simp) rfl rfl rfl rfl id
  | didSelectItemAt row menu => exact mild_didSelectItemAt row menu s
  | createTimeArray row ident time =>
    simp only [handle, createTimeArray, returnTimeArray]
    split <;> exact mild_write (w := .updateHabit row { timeArray := some time } ident) rfl []
      (by simp) rfl rfl (by simp) rfl (by simp)
  | showAlert row =>
    simp only [handle, showAlert]
    split
    · exact .of_quiet rfl rfl rfl rfl (by simp)
    · next habit _ =>
      exact mild_write (w := .updateHabit row { addFirebase := some false } habit.ident) rfl []
        (by simp) rfl rfl (by simp) rfl (by simp)
  | addHabitButtonTapped c =>
    simp only [handle, CreateHabit.addHabitButtonTapped]
    split
    · exact .refl s
    · next form hform =>
      split_ifs
      · exact .of_issued [.addHabit c (CreateHabit.newHabit form s)] (by simp) rfl rfl rfl rfl id
      all_goals exact ScreensOnly.mild (screensOnly_setForm hform rfl)
  | editConfirmed e =>
    rcases editConfirmed_cases e s with hscreens | ⟨form, color, row, hs⟩
    · exact hscreens.mild
    · rw [handle, hs]
      exact mild_write (w := .updateHabit row (EditHabit.editedEntry form color).fields
        form.habit.ident) rfl [.fetch] (by simp) rfl rfl rfl rfl id
  | _ => exact (screensOnly_of_event rfl s).mild

/-- The callback of a completion, with or without a document. -/
theorem mild_finishedRead (row ident : Nat) (document : Option Store) (s : State) :
    Mild s (finishedRead row ident document s) := by
  rw [finishedRead_eq]
  exact ⟨⟨finishedWrites row ident document, finishedWrites_isPlain row ident document, rfl, rfl⟩,
    ⟨[], by simp, by simp⟩, forms_of_eq rfl, id⟩

/-! ## Quiet steps -/

/-- A write that leaves the counter, the flags and the streaks. -/
def Write.isQuiet : Write → Bool
  | .updateUser fields => fields.habitCounter.isNone
  | .updateHabit _ fields _ => fields.addFirebase.isNone && fields.streak.isNone
  | .setHabit .. | .deleteHabit _ => false

theorem Write.isPlain_of_isQuiet {w : Write} (h : w.isQuiet = true) : w.isPlain = true := by
  cases w <;> first | exact h | rfl

/-- The habit, its number, its flag and its streak. -/
def Habit.mark (h : Habit) : Nat × Nat × Bool × Int :=
  (h.ident, h.habitNumber, h.addFirebase, h.streak)

/-- `s'` comes from `s` by quiet writes and calls of a refresh, and each
row of its list is a row of `s` with the same mark. -/
structure Quiet (s s' : State) : Prop where
  writes : ∃ ws : List Write, (∀ w ∈ ws, w.isQuiet = true) ∧ s'.store = s.store.applyAll ws
  rows : ∀ h ∈ s'.habitArray, ∃ old ∈ s.habitArray, h.mark = old.mark
  issued : ∃ cbs : List Callback, s'.pending = s.pending ++ cbs.map ({ callback := · }) ∧
    ∀ cb ∈ cbs, cb.isRefresh = true
  today : s.today ≤ s'.today
  nextIdent : s'.nextIdent = s.nextIdent

namespace Quiet

variable {s s' : State}

/-- A step that leaves the store and the list. -/
theorem of_issued (cbs : List Callback) (hcbs : ∀ cb ∈ cbs, cb.isRefresh = true)
    (hpending : s'.pending = s.pending ++ cbs.map ({ callback := · }))
    (hstore : s'.store = s.store) (hlist : ∀ h ∈ s'.habitArray, h ∈ s.habitArray)
    (htoday : s.today ≤ s'.today) (hnext : s'.nextIdent = s.nextIdent) : Quiet s s' where
  writes := ⟨[], by simp, hstore⟩
  rows h hmem := ⟨h, hlist h hmem, rfl⟩
  issued := ⟨cbs, hpending, hcbs⟩
  today := htoday
  nextIdent := hnext

theorem same (hpending : s'.pending = s.pending) (hstore : s'.store = s.store)
    (hlist : s'.habitArray = s.habitArray) (htoday : s.today ≤ s'.today)
    (hnext : s'.nextIdent = s.nextIdent) : Quiet s s' :=
  of_issued [] (by simp) (by simpa using hpending) hstore (fun _ hmem => hlist ▸ hmem) htoday hnext

theorem refl (s : State) : Quiet s s := same rfl rfl rfl (Nat.le_refl _) rfl

/-- An update of a document and of the row of the same habit. -/
theorem of_row {n row ident : Nat} {fields : HabitFields} {habit : Habit} (habit' : Habit)
    (hwrite : (Write.updateHabit n fields ident).isQuiet = true)
    (hrow : s.habitArray[row]? = some habit) (hmark : habit'.mark = habit.mark)
    (hstore : s'.store = s.store.apply (.updateHabit n fields ident))
    (hlist : s'.habitArray = s.habitArray.set row habit') (hpending : s'.pending = s.pending)
    (htoday : s.today ≤ s'.today) (hnext : s'.nextIdent = s.nextIdent) : Quiet s s' where
  writes := ⟨[.updateHabit n fields ident], by simpa using hwrite, hstore⟩
  rows h hmem := by
    rw [hlist] at hmem
    rcases List.mem_or_eq_of_mem_set hmem with hmem | rfl
    · exact ⟨h, hmem, rfl⟩
    · exact ⟨habit, List.mem_of_getElem? hrow, hmark⟩
  issued := ⟨[], by simpa using hpending, by simp⟩
  today := htoday
  nextIdent := hnext

end Quiet

/-- The events that are quiet. -/
def Event.isQuiet : Event → Bool
  | .nextDay | .viewDidLoad | .fetchFirebaseHabits | .handleLongPress _ | .editHabit
  | .createTimeArray .. | .sectionColor _ | .addButtonTapped | .createName .. | .createAmount ..
  | .createTime .. | .editName .. | .editAmount .. | .editTime .. => true
  | _ => false

theorem FormsOnly.quiet {s s' : State} (h : FormsOnly s s') : Quiet s s' :=
  .same h.pending h.store h.habitArray h.today.ge h.nextIdent

theorem ScreensOnly.quiet {s s' : State} (h : ScreensOnly s s') : Quiet s s' :=
  .same h.pending h.store h.habitArray h.today.ge h.nextIdent

theorem quiet_createTimeArray (row ident : Nat) (time : List Int) (s : State) :
    Quiet s (createTimeArray row ident time s) := by
  rw [createTimeArray, returnTimeArray]
  split
  · exact ⟨⟨[.updateHabit row { timeArray := some time } ident], by simp [Write.isQuiet], rfl⟩,
      fun h hmem => ⟨h, hmem, rfl⟩, ⟨[], by simp, by simp⟩, Nat.le_refl _, rfl⟩
  · next habit hrow =>
    have hwrite : (Write.updateHabit row { timeArray := some time } ident).isQuiet = true := rfl
    exact .of_row { habit with time := time } hwrite hrow rfl rfl rfl rfl (Nat.le_refl _) rfl

theorem quiet_of_event {e : Event} (he : e.isQuiet = true) (s : State) : Quiet s (handle s e) := by
  cases e with
  | nextDay => exact .same rfl rfl rfl (Nat.le_succ _) rfl
  | viewDidLoad =>
    simp only [handle, viewDidLoad]
    split
    · exact .of_issued [.fetchCounter, .reload] (by simp [Callback.isRefresh])
        (by simp [fetchFirebaseHabits]) rfl (by simp [fetchFirebaseHabits]) (Nat.le_refl _) rfl
    · exact .refl s
  | fetchFirebaseHabits =>
    exact .of_issued [.fetchCounter] (by simp [Callback.isRefresh]) rfl rfl
      (by simp [handle, fetchFirebaseHabits]) (Nat.le_refl _) rfl
  | createTimeArray row ident time => exact quiet_createTimeArray row ident time s
  | _ =>
    refine ScreensOnly.quiet (screensOnly_of_event ?_ s)
    exact he

/-- A tap that is accepted but does not complete the habit. -/
theorem quiet_tap {row : Nat} {habit : Habit} {s : State} (hrow : s.habitArray[row]? = some habit)
    (hdone : habit.completes = false) :
    Quiet s ((({ s with palmiIsCool := some s.today }.writeAll (tapWrites row habit)).issueAll
      (tapCallbacks row habit)).setRow row habit.tapped) := by
  refine ⟨⟨tapWrites row habit, ?_, by simp⟩, ?_, ⟨[], by simp [tapCallbacks, hdone], by simp⟩,
    Nat.le_refl _, rfl⟩
  · unfold tapWrites
    split <;> simp [Write.isQuiet]
  · intro h hmem
    rcases List.mem_or_eq_of_mem_set hmem with hmem | rfl
    · exact ⟨h, hmem, rfl⟩
    · refine ⟨habit, List.mem_of_getElem? hrow, ?_⟩
      rw [Habit.tapped, if_neg (by simp [hdone]), Habit.incremented]
      split <;> rfl

end HabitHive
