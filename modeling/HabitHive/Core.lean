import HabitHive.Writes

/-!
# A session without the saved day, colors and idents

`State.core` erases from a session what it takes from `UserDefaults`: the
saved day and the chosen color, and with it the colors of all habits.  It
also erases every `ident`, which is not in the source.
Only an appearance looks at the saved day, and colors and idents decide
nothing, so the core of a session goes its way without them: `core_handle`
for most events, and one lemma for each event that shows or keeps a day or
a color.
-/

namespace HabitHive

open HabitCollection

@[simps] def Habit.core (h : Habit) : Habit := { h with color := 0, ident := 0 }

@[simps] def HabitFields.core (f : HabitFields) : HabitFields :=
  { f with color := f.color.map fun _ => 0 }

@[simps] def HabitDoc.core (doc : HabitDoc) : HabitDoc where
  fields := doc.fields.core
  ident := 0

@[simps] def Store.core (st : Store) : Store :=
  { st with habits := fun k => (st.habits k).map HabitDoc.core }

def Write.core : Write → Write
  | .updateUser fields => .updateUser fields
  | .setHabit n doc => .setHabit n doc.core
  | .updateHabit n fields _ => .updateHabit n fields.core 0
  | .deleteHabit n => .deleteHabit n

def Callback.core : Callback → Callback
  | .addHabit c habit => .addHabit c habit.core
  | .finished row _ => .finished row 0
  | cb => cb

@[simps] def Pending.core (p : Pending) : Pending where
  callback := p.callback.core
  snapshot := p.snapshot.map Store.core

@[simps] def EditForm.core (form : EditForm) : EditForm := { form with habit := form.habit.core }

/-- The session without the saved day, colors and idents. -/
@[simps] def State.core (s : State) : State :=
  { s with
    store := s.store.core
    journal := s.journal.map Write.core
    pending := s.pending.map Pending.core
    palmiIsCool := none
    sectionColor := none
    habitArray := s.habitArray.map Habit.core
    editing := s.editing.map EditForm.core
    nextIdent := 0 }

def Event.core : Event → Event
  | .createTimeArray row _ time => .createTimeArray row 0 time
  | e => e

/-! ## Documents and writes -/

theorem HabitFields.core_merge (old new : HabitFields) :
    (old.merge new).core = old.core.merge new.core := by
  obtain ⟨_, color, _⟩ := new
  cases color <;> rfl

theorem Store.core_apply (st : Store) (w : Write) : (st.apply w).core = st.core.apply w.core := by
  cases w with
  | updateUser fields => rfl
  | setHabit n doc =>
    refine congrArg (Store.mk _) (funext fun k => ?_)
    simp only [Store.apply, Function.update_apply, Store.core_habits]
    split <;> rfl
  | updateHabit n fields ident =>
    refine congrArg (Store.mk _) (funext fun k => ?_)
    simp only [Store.apply, Function.update_apply, Store.core_habits]
    split
    · cases st.habits n <;> simp [HabitDoc.core, HabitFields.core_merge]
    · rfl
  | deleteHabit n =>
    refine congrArg (Store.mk _) (funext fun k => ?_)
    simp only [Store.apply, Function.update_apply, Store.core_habits]
    split <;> rfl

theorem Store.core_applyAll (st : Store) (ws : List Write) :
    (st.applyAll ws).core = st.core.applyAll (ws.map Write.core) := by
  induction ws generalizing st with
  | nil => rfl
  | cons w ws ih =>
    rw [List.map_cons, Store.applyAll_cons, Store.applyAll_cons, ih, Store.core_apply]

/-- A read fails on a document exactly when it fails without the color. -/
theorem Store.core_readHabit (st : Store) (n : Nat) :
    st.core.readHabit n = (st.readHabit n).map Habit.core := by
  rw [Store.readHabit, Store.readHabit, Store.core_habits]
  cases st.habits n with
  | none => rfl
  | some doc =>
    obtain ⟨⟨name, color, counted, goal, count, time, original, add, streak⟩, ident⟩ := doc
    cases name <;> cases color <;> cases counted <;> cases goal <;> cases count <;>
      cases time <;> cases original <;> cases add <;> cases streak <;> rfl

theorem core_sortByNumber (hs : List Habit) :
    sortByNumber (hs.map Habit.core) = (sortByNumber hs).map Habit.core :=
  Keyed.sortByKey_map (f := Habit.core) Habit.habitNumber (fun _ => rfl) hs

theorem core_setHabits (n : Nat) (docs : List HabitDoc) :
    (Store.setHabits n docs).map Write.core = Store.setHabits n (docs.map HabitDoc.core) := by
  induction docs generalizing n with
  | nil => rfl
  | cons doc docs ih => simp [Store.setHabits, ih, Write.core]

theorem core_resetWrites (n : Nat) (names : List Text) (hs : List Habit) :
    (resetWrites n names hs).map Write.core = resetWrites n names (hs.map Habit.core) := by
  induction hs generalizing n names with
  | nil => rfl
  | cons h hs ih =>
    have haward : achievement h.core = achievement h := rfl
    have hupdate : (resetUpdate n h).core = resetUpdate n h.core := rfl
    rw [List.map_cons, resetWrites, resetWrites, haward]
    cases achievement h with
    | none => rw [List.map_cons, hupdate, ih]
    | some text =>
      rw [List.map_cons, List.map_cons, hupdate, ih]
      rfl

/-! ## Building blocks -/

section Blocks

variable (s : State)

theorem core_write (w : Write) : (s.write w).core = s.core.write w.core := by
  simp [State.core, State.write, Store.core_apply]

theorem core_writeAll (ws : List Write) :
    (s.writeAll ws).core = s.core.writeAll (ws.map Write.core) := by
  simp [State.core, State.writeAll, Store.core_applyAll]

theorem core_issue (cb : Callback) : (s.issue cb).core = s.core.issue cb.core := by
  simp [State.core, State.issue, Pending.core]

theorem core_issueAll (cbs : List Callback) :
    (s.issueAll cbs).core = s.core.issueAll (cbs.map Callback.core) := by
  simp [State.core, State.issueAll, Pending.core, Function.comp_def]

theorem core_crash (f : Fault) : (s.crash f).core = s.core.crash f := rfl

theorem core_reloadData : s.reloadData.core = s.core.reloadData := by
  simp [State.core, State.reloadData]

theorem core_setRow (row : Nat) (h : Habit) :
    (s.setRow row h).core = s.core.setRow row h.core := by
  simp [State.core, State.setRow, List.map_set]

theorem core_getElem? (row : Nat) :
    s.core.habitArray[row]? = s.habitArray[row]?.map Habit.core := by simp

end Blocks

/-! ## Callbacks -/

theorem core_fetchFirebaseHabits (s : State) :
    (fetchFirebaseHabits s).core = fetchFirebaseHabits s.core := by
  rw [fetchFirebaseHabits, core_issue]
  rfl

theorem core_fetchCounterRead (document : Option Store) (s : State) :
    (fetchCounterRead document s).core = fetchCounterRead (document.map Store.core) s.core := by
  have hreads : ∀ s : State,
      (if s.localHabitCounter = -1 then s
        else if s.localHabitCounter < 0 then s.crash .invalidRange
        else s.issueAll ((List.range (s.localHabitCounter + 1).toNat).map .fetchHabit)).core =
      if s.localHabitCounter = -1 then s.core
      else if s.localHabitCounter < 0 then s.core.crash .invalidRange
      else s.core.issueAll ((List.range (s.localHabitCounter + 1).toNat).map .fetchHabit) := by
    intro s
    split_ifs
    · rfl
    · rfl
    · rw [core_issueAll, List.map_map]
      rfl
  cases document with
  | none => exact hreads s
  | some doc => exact hreads { s with localHabitCounter := doc.user.habitCounter - 1 }

theorem core_fetchHabitRead (n : Nat) (document : Option Store) (s : State) :
    (fetchHabitRead n document s).core = fetchHabitRead n (document.map Store.core) s.core := by
  cases document with
  | none =>
    rw [fetchHabitRead, core_reloadData, Option.map_none, fetchHabitRead]
    simp [State.core, core_sortByNumber]
  | some doc =>
    simp only [fetchHabitRead, Option.map_some, Store.core_readHabit]
    cases doc.readHabit n with
    | none => rfl
    | some habit =>
      have happend : sortByNumber (s.habitArray.map Habit.core ++ [habit.core]) =
          (sortByNumber (s.habitArray ++ [habit])).map Habit.core := by
        rw [← core_sortByNumber, List.map_append]
        rfl
      rw [core_reloadData, Option.map_some]
      simp only [State.core_habitArray, happend]
      rfl

theorem core_deleteDone (s : State) : (deleteDone s).core = deleteDone s.core := by
  cases hglobal : s.indexPathGlobal with
  | none => simp [deleteDone, hglobal, core_crash]
  | some row =>
    have hglobal' : s.core.indexPathGlobal = some row := by simpa using hglobal
    rw [deleteDone_eq hglobal, deleteDone_eq hglobal', core_issue, core_write, core_writeAll]
    simp only [State.core_habitArray, List.length_map]
    split <;> rfl

theorem core_counterDone (s : State) : (counterDone s).core = counterDone s.core := by
  rw [counterDone, counterDone, core_issue, updateFirebaseHabits, updateFirebaseHabits, core_write,
    core_writeAll, core_setHabits]
  simp only [State.core_habitArray, List.length_map, List.map_map]
  rfl

theorem core_addHabitRead (c : Nat) (habit : Habit) (document : Option Store) (s : State) :
    (CreateHabit.addHabitRead c habit document s).core =
      CreateHabit.addHabitRead c habit.core (document.map Store.core) s.core := by
  have hread : ∀ form : CreateForm, CreateHabit.formRead habit document form =
      CreateHabit.formRead habit.core (document.map Store.core) form := by
    intro form
    cases document <;> rfl
  simp only [CreateHabit.addHabitRead, State.core_creating]
  cases s.creating[c]? with
  | none => rfl
  | some form =>
    dsimp only
    rw [core_issue, core_write, core_write, ← hread]
    rfl

theorem core_finishedRead (row ident : Nat) (document : Option Store) (s : State) :
    (finishedRead row ident document s).core =
      finishedRead row 0 (document.map Store.core) s.core := by
  rw [finishedRead_eq, finishedRead_eq, core_writeAll]
  cases document <;> rfl

theorem core_run (cb : Callback) (document : Option Store) (s : State) :
    (cb.run document s).core = cb.core.run (document.map Store.core) s.core := by
  cases cb with
  | fetchCounter => exact core_fetchCounterRead document s
  | fetchHabit n => exact core_fetchHabitRead n document s
  | deleteDone => exact core_deleteDone s
  | counterDone => exact core_counterDone s
  | fetch => exact core_fetchFirebaseHabits s
  | reload => exact core_reloadData s
  | addHabit c habit => exact core_addHabitRead c habit document s
  | finished row ident => exact core_finishedRead row ident document s

/-! ## Events -/

section Calls

variable (s : State) (i : Nat)

theorem Callback.isRead_core (cb : Callback) : cb.core.isRead = cb.isRead := by
  cases cb <;> rfl

theorem core_pending? : s.core.pending[i]? = s.pending[i]?.map Pending.core := by simp

theorem core_dropPending : (s.dropPending i).core = s.core.dropPending i := by
  simp [State.core, State.dropPending, List.eraseIdx_map]

theorem core_serve : (s.serve i).core = s.core.serve i := by
  simp only [State.serve, core_pending?]
  cases s.pending[i]? with
  | none => rfl
  | some p =>
    simp only [Option.map_some, Pending.core_callback, Pending.core_snapshot, Option.isNone_map,
      Callback.isRead_core]
    split
    · simp [State.core, Pending.core, List.map_set]
    · rfl

theorem core_deliver : (s.deliver i).core = s.core.deliver i := by
  simp only [State.deliver, core_pending?]
  cases s.pending[i]? with
  | none => rfl
  | some p =>
    simp only [Option.map_some, Pending.core_callback, Pending.core_snapshot, Option.isNone_map,
      Callback.isRead_core]
    split
    · rfl
    · rw [core_run, core_dropPending]

theorem core_fail : (s.fail i).core = s.core.fail i := by
  simp only [State.fail, core_pending?]
  cases s.pending[i]? with
  | none => rfl
  | some p =>
    simp only [Option.map_some, Pending.core_callback, Callback.isRead_core]
    split
    · rw [core_run, core_dropPending]
      rfl
    · rfl

end Calls

/-- The events that look neither at the saved day nor at a color, but for
those that show or keep one. -/
def Event.isColorless : Event → Bool
  | .viewWillAppear | .didSelectItemAt .. | .sectionColor _ | .editHabit
  | .addHabitButtonTapped _ | .editConfirmed _ => false
  | _ => true

theorem core_setForm (c : Nat) (form : CreateForm) (s : State) :
    (CreateHabit.setForm c form s).core = CreateHabit.setForm c form s.core := rfl

theorem core_setEditForm (e : Nat) (form : EditForm) (s : State) :
    (EditHabit.setForm e form s).core = EditHabit.setForm e form.core s.core := by
  simp [State.core, EditHabit.setForm, List.map_set]

theorem core_editing? (s : State) (e : Nat) :
    s.core.editing[e]? = s.editing[e]?.map EditForm.core := by simp

theorem core_handle {e : Event} (he : e.isColorless = true) (s : State) :
    (handle s e).core = handle s.core e.core := by
  cases e with
  | relaunch => rfl
  | nextDay => rfl
  | viewDidLoad =>
    simp only [handle, Event.core, viewDidLoad, State.core_signedIn]
    split
    · rw [core_issue, core_fetchFirebaseHabits, core_reloadData]
      rfl
    · rfl
  | fetchFirebaseHabits => exact core_fetchFirebaseHabits s
  | handleLongPress row =>
    simp only [handle, Event.core, handleLongPress, State.core_habitArray, List.length_map]
    split <;> rfl
  | deleteHabit =>
    simp only [handle, Event.core, deleteHabit, deleteHabitAction, State.core_habitArray,
      List.length_map, State.core_indexPathGlobal]
    split
    · rfl
    · split
      · rw [core_issue, core_write]
        simp [State.core, List.eraseIdx_map]
        rfl
      · rfl
  | createTimeArray row ident time =>
    simp only [handle, Event.core, createTimeArray, returnTimeArray, State.write_habitArray,
      core_getElem?]
    cases s.habitArray[row]? with
    | none => rw [Option.map_none, core_crash, core_write]; rfl
    | some habit => rw [Option.map_some, core_setRow, core_write]; rfl
  | showAlert row =>
    simp only [handle, Event.core, showAlert, core_getElem?]
    cases s.habitArray[row]? with
    | none => rfl
    | some habit => rw [Option.map_some, core_write, core_setRow]; rfl
  | addButtonTapped => rfl
  | createName c text =>
    simp only [handle, Event.core, CreateHabit.habitNameChanged, State.core_creating]
    split <;> rfl
  | createAmount c amount =>
    simp only [handle, Event.core, CreateHabit.didTapConfirmAmount, State.core_creating]
    split <;> rfl
  | createTime c time =>
    simp only [handle, Event.core, CreateHabit.didTapConfirmTime, State.core_creating]
    split
    · rfl
    · split <;> rfl
  | editName e text =>
    simp only [handle, Event.core, EditHabit.habitNameChanged, core_editing?]
    cases s.editing[e]? with
    | none => rfl
    | some form => exact core_setEditForm e _ s
  | editAmount e amount =>
    simp only [handle, Event.core, EditHabit.didTapConfirmAmount, core_editing?]
    cases s.editing[e]? with
    | none => rfl
    | some form => exact core_setEditForm e _ s
  | editTime e time =>
    simp only [handle, Event.core, EditHabit.didTapConfirmTime, core_editing?]
    cases s.editing[e]? with
    | none => rfl
    | some form =>
      dsimp only [Option.map_some]
      split
      · rfl
      · exact core_setEditForm e _ s
  | serve i => exact core_serve s i
  | deliver i => exact core_deliver s i
  | fail i => exact core_fail s i
  | _ => contradiction

/-! ## The other events -/

@[simp] theorem core_core (s : State) : s.core.core = s.core := by
  have hhabit : ∀ h : Habit, h.core.core = h.core := fun _ => rfl
  have hfields : ∀ f : HabitFields, f.core.core = f.core := by
    intro f
    simp [HabitFields.core, Function.comp_def]
  have hdoc : ∀ doc : HabitDoc, doc.core.core = doc.core := by
    intro doc
    simp [HabitDoc.core, hfields]
  have hstore : ∀ st : Store, st.core.core = st.core := by
    intro st
    simp [Store.core, Function.comp_def, hdoc]
  have hwrite : ∀ w : Write, w.core.core = w.core := by
    intro w
    cases w <;> simp [Write.core, hdoc, hfields]
  have hpending : ∀ p : Pending, p.core.core = p.core := by
    rintro ⟨cb, snapshot⟩
    cases cb <;> simp [Pending.core, Callback.core, Function.comp_def, hstore, hhabit]
  have hform : ∀ form : EditForm, form.core.core = form.core := fun _ => rfl
  simp [State.core, Function.comp_def, hstore, hwrite, hpending, hhabit, hform]

theorem core_tapWrites (row : Nat) (h : Habit) :
    (tapWrites row h).map Write.core = tapWrites row h.core := by
  simp only [tapWrites, Habit.core_currentCount, Habit.core_goal]
  split <;> rfl

theorem Habit.completes_core (h : Habit) : h.core.completes = h.completes := by
  simp only [Habit.completes, Habit.incremented, Habit.core_currentCount, Habit.core_goal]
  split <;> rfl

theorem core_tapCallbacks (row : Nat) (h : Habit) :
    (tapCallbacks row h).map Callback.core = tapCallbacks row h.core := by
  simp only [tapCallbacks, Habit.completes_core]
  split <;> rfl

theorem core_tapped (h : Habit) : h.core.tapped = h.tapped.core := by
  simp only [Habit.tapped, Habit.completes_core, Habit.incremented, Habit.core_currentCount,
    Habit.core_goal]
  split_ifs <;> rfl

theorem core_tapCounted {row : Nat} {h : Habit} {s : State} (hrow : s.habitArray[row]? = some h)
    (hadd : h.addFirebase = true) :
    (tapCounted row h s).core = tapCounted row h.core s.core := by
  have hrow' : s.core.habitArray[row]? = some h.core := by rw [core_getElem?, hrow]; rfl
  rw [tapCounted_eq hrow hadd, tapCounted_eq hrow' hadd, core_setRow, core_issueAll, core_writeAll,
    core_tapWrites, core_tapCallbacks, core_tapped]

theorem core_didSelectItemAt (row : Nat) (menu : Bool) (s : State) :
    (didSelectItemAt row menu s).core = (didSelectItemAt row menu s.core).core := by
  have hsaved : ({ s.core with palmiIsCool := some s.core.today } : State).core = s.core :=
    core_core s
  cases hrow : s.habitArray[row]? with
  | none =>
    have hrow' : s.core.habitArray[row]? = none := by rw [core_getElem?, hrow]; rfl
    simp only [didSelectItemAt, hrow, hrow', core_crash, hsaved]
    rfl
  | some h =>
    have hrow' : s.core.habitArray[row]? = some h.core := by rw [core_getElem?, hrow]; rfl
    simp only [didSelectItemAt, hrow, hrow', Habit.core_addFirebase, Habit.core_counted]
    split_ifs with hadd
    · exact hsaved.symm
    · exact hsaved.symm
    · exact hsaved.symm
    · have hadd : h.addFirebase = true := by simpa using hadd
      rw [core_tapCounted (s := { s with palmiIsCool := some s.today }) hrow hadd,
        core_tapCounted (s := { s.core with palmiIsCool := some s.core.today }) hrow' hadd, hsaved]
      rfl

theorem core_openEdit (s : State) :
    (HabitCollection.editHabit s).core = (HabitCollection.editHabit s.core).core := by
  have hopen : ∀ (s : State) (color : Option Int) (row : Option Nat) (form : EditForm),
      ({ s with
          sectionColor := color
          indexPathGlobal := row
          editing := s.editing ++ [form] } : State).core =
        { s.core with indexPathGlobal := row, editing := s.core.editing ++ [form.core] } := by
    intro s color row form
    simp [State.core]
  simp only [HabitCollection.editHabit, State.core_indexPathGlobal]
  cases s.indexPathGlobal with
  | none => simp only [core_crash, core_core]
  | some row =>
    simp only [core_getElem?]
    cases s.habitArray[row]? with
    | none => simp only [Option.map_none, core_crash, core_core]
    | some habit =>
      simp only [Option.map_some, Habit.core_counted, Habit.core_time]
      split
      · simp only [core_crash, core_core]
      · rw [hopen, hopen, core_core]
        rfl

theorem core_addHabitButtonTapped (c : Nat) (s : State) :
    (CreateHabit.addHabitButtonTapped c s).core =
      (CreateHabit.addHabitButtonTapped c s.core).core := by
  simp only [CreateHabit.addHabitButtonTapped, State.core_creating]
  cases s.creating[c]? with
  | none => exact (core_core s).symm
  | some form =>
    dsimp only
    split_ifs
    · rw [core_issue, core_issue]
      exact congrArg (State.issue · _) (core_core { s with nextIdent := s.nextIdent + 1 }).symm
    all_goals rw [core_setForm, core_setForm, core_core]

theorem core_viewWillAppear {s : State} (hres : resets s = true) :
    (viewWillAppear s).core = viewWillAppear s.core := by
  have hcore : resets s.core = true := by
    simp only [resets, Bool.and_eq_true] at hres
    simp [resets, hres.1]
  have hlist : ({ s.write (.updateUser { finishedHabits := some 0 }) with
        habitArray := s.habitArray.map resetHabit } : State).core =
      { s.core.write (.updateUser { finishedHabits := some 0 }) with
        habitArray := s.core.habitArray.map resetHabit } := by
    have hrows : (s.habitArray.map resetHabit).map Habit.core =
        s.core.habitArray.map resetHabit := by
      rw [State.core_habitArray, List.map_map, List.map_map]
      rfl
    rw [← hrows]
    simp [State.core, State.write, Store.core_apply, Write.core]
  simp only [viewWillAppear, hres, hcore, if_true, State.write_habitArray, ne_eq]
  have hempty : s.core.habitArray = [] ↔ s.habitArray = [] := by simp
  simp only [hempty]
  split
  · have hrows := congrArg State.habitArray hlist
    rw [core_issue, core_writeAll, hlist, core_resetWrites]
    exact congrArg (fun hs => ((State.writeAll _ (resetWrites 0 [] hs)).issue _)) hrows
  · rw [core_write]
    rfl

/-- The form goes to its row with the color that is chosen, whichever it
is. -/
theorem core_editConfirmed {s : State} (e : Nat)
    (hcolor : s.editing ≠ [] → s.sectionColor.isSome = true) :
    (EditHabit.editHabit e s).core =
      (EditHabit.editHabit e { s.core with sectionColor := some 0 }).core := by
  have hcore : ({ s.core with sectionColor := some 0 } : State).core = s.core := core_core s
  simp only [EditHabit.editHabit, core_editing?]
  cases hform : s.editing[e]? with
  | none => exact hcore.symm
  | some form =>
    obtain ⟨color, hcolor⟩ :=
      Option.isSome_iff_exists.mp (hcolor (List.ne_nil_of_mem (List.mem_of_getElem? hform)))
    simp only [Option.map_some, hcolor, EditForm.core_habitName, EditForm.core_indexPath]
    split_ifs
    · cases form.indexPath with
      | none => rw [core_crash, core_crash, hcore]
      | some row =>
        dsimp only
        rw [core_issue, core_issue, core_setEditForm, core_setEditForm, core_write,
          core_write, hcore]
        rfl
    · rw [core_setEditForm, core_setEditForm, hcore]
      rfl
    · rw [core_setEditForm, core_setEditForm, hcore]
      rfl

end HabitHive
