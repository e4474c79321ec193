import HabitHive.Effects

/-!
# What each event writes and issues

`StepWrites s e ws` lists, event by event and callback by callback, the
writes that an event can issue.  `writesTo_step` says that a step issues
such writes, and that they are its whole effect on the documents.  A proof
about one field of the documents is a case analysis over this list.
`StepCalls` and `mem_pending_step` say the same of the calls in flight, and
`keepsDevice_handle` which events leave the clock, the defaults and the edit
screens alone.
-/

namespace HabitHive

open HabitCollection

/-- The event runs the callback of the call `p`, with a document or
without. -/
def Delivers (s : State) (e : Event) (p : Pending) : Prop :=
  ∃ i, s.pending[i]? = some p ∧ (e = .deliver i ∨ e = .fail i)

theorem Delivers.mem {s : State} {e : Event} {p : Pending} (h : Delivers s e p) :
    p ∈ s.pending := by
  obtain ⟨i, hp, _⟩ := h
  exact List.mem_of_getElem? hp

/-- The writes that an event can issue. -/
inductive StepWrites (s : State) : Event → List Write → Prop where
  | nothing (e : Event) : StepWrites s e []
  | reset (hrunning : s.crashed = none) (hres : resets s = true) :
      StepWrites s .viewWillAppear (appearWrites s)
  | tap {row : Nat} {habit : Habit} (menu : Bool) (hrow : s.habitArray[row]? = some habit) :
      StepWrites s (.didSelectItemAt row menu) (tapWrites row habit)
  | stop (row ident : Nat) (timeArray : List Int) :
      StepWrites s (.createTimeArray row ident timeArray)
        [.updateHabit row { timeArray := some timeArray } ident]
  | finish {row : Nat} {habit : Habit} (hrow : s.habitArray[row]? = some habit) :
      StepWrites s (.showAlert row) [.updateHabit row { addFirebase := some false } habit.ident]
  | edit {e row : Nat} {form : EditForm} {color : Int} (hform : s.editing[e]? = some form)
      (hpath : form.indexPath = some row) (hcolor : s.sectionColor = some color) :
      StepWrites s (.editConfirmed e)
        [.updateHabit row (EditHabit.editedEntry form color).fields form.habit.ident]
  | delete (row : Nat) : StepWrites s .deleteHabit [.deleteHabit row]
  | completed {e : Event} {p : Pending} {row ident : Nat} (document : Option Store)
      (hp : Delivers s e p) (hcb : p.callback = .finished row ident) :
      StepWrites s e (finishedWrites row ident document)
  | created {e : Event} {p : Pending} {c : Nat} {habit : Habit} {form : CreateForm}
      (document : Option Store) (hp : Delivers s e p) (hcb : p.callback = .addHabit c habit)
      (hform : s.creating[c]? = some form) :
      StepWrites s e
        [.setHabit (CreateHabit.formRead habit document form).habitCounter
            (CreateHabit.newDocument habit (CreateHabit.formRead habit document form).timeArray),
          .updateUser
            { habitCounter := some ((CreateHabit.formRead habit document form).habitCounter + 1) }]
  | counted {e : Event} {p : Pending} (row : Nat) (hp : Delivers s e p)
      (hcb : p.callback = .deleteDone) :
      StepWrites s e ((if s.habitArray.length = row then [] else
          [.deleteHabit s.habitArray.length]) ++
        [.updateUser { habitCounter := some s.habitArray.length }])
  | rewritten {e : Event} {p : Pending} (hp : Delivers s e p) (hcb : p.callback = .counterDone) :
      StepWrites s e (Store.setHabits 0 (s.habitArray.map Habit.toDocument) ++
        [.updateUser { habitCounter := some s.habitArray.length }])

/-- The documents of `s'` are those of `s` after some of the writes that the
event can issue. -/
def WritesTo (s : State) (e : Event) (s' : State) : Prop :=
  ∃ ws, StepWrites s e ws ∧ s'.store = s.store.applyAll ws ∧ s'.journal = s.journal ++ ws

theorem WritesTo.same {s s' : State} (e : Event) (hstore : s'.store = s.store)
    (hjournal : s'.journal = s.journal) : WritesTo s e s' :=
  ⟨[], .nothing e, by simpa using hstore, by simpa using hjournal⟩

theorem ScreensOnly.writesTo {s s' : State} (h : ScreensOnly s s') (e : Event) :
    WritesTo s e s' := .same e h.store h.journal

/-- The callback of a call in flight. -/
theorem writesTo_callback {s : State} {e : Event} {p : Pending} {i : Nat} (hp : Delivers s e p)
    (document : Option Store) : WritesTo s e (p.callback.run document (s.dropPending i)) := by
  cases hcb : p.callback with
  | fetchCounter =>
    have hframe := fetchCounterRead_listOnly document (s.dropPending i)
    exact .same e hframe.store hframe.journal
  | fetchHabit n =>
    have hframe := fetchHabitRead_listOnly n document (s.dropPending i)
    exact .same e hframe.store hframe.journal
  | deleteDone =>
    rcases deleteDone_cases (s.dropPending i) with hs | ⟨row, hglobal⟩
    · exact .same e (by rw [Callback.run, hs]; rfl) (by rw [Callback.run, hs]; rfl)
    · refine ⟨_, .counted row hp hcb, ?_, ?_⟩ <;>
        simp [Callback.run, deleteDone_eq hglobal, Store.applyAll_append, State.write,
          State.writeAll, State.issue]
  | counterDone =>
    exact ⟨_, .rewritten hp hcb, by simp [Callback.run, counterDone, updateFirebaseHabits,
      Store.applyAll_append], by simp [Callback.run, counterDone, updateFirebaseHabits]⟩
  | fetch => exact .same e rfl rfl
  | reload => exact .same e rfl rfl
  | addHabit c habit =>
    simp only [Callback.run, CreateHabit.addHabitRead, State.dropPending_creating]
    split
    · exact .same e rfl rfl
    · next form hform =>
      exact ⟨_, .created document hp hcb hform, rfl, by simp [CreateHabit.setForm]⟩
  | finished row ident =>
    exact ⟨_, .completed document hp hcb, by rw [Callback.run, finishedRead_eq]; rfl,
      by rw [Callback.run, finishedRead_eq]; rfl⟩

theorem writesTo_editConfirmed (e : Nat) (s : State) :
    WritesTo s (.editConfirmed e) (EditHabit.editHabit e s) := by
  unfold EditHabit.editHabit
  split
  · exact .same _ rfl rfl
  · next form hform =>
    split_ifs
    · split
      · exact .same _ rfl rfl
      · exact .same _ rfl rfl
      · next color row hcolor hpath => exact ⟨_, .edit hform hpath hcolor, rfl, rfl⟩
    · exact .same _ rfl rfl
    · exact .same _ rfl rfl

theorem writesTo_handle {s : State} (hrunning : s.crashed = none) (e : Event) :
    WritesTo s e (handle s e) := by
  cases e with
  | viewDidLoad =>
    refine .same _ ?_ ?_ <;> simp only [handle, viewDidLoad] <;> split <;> rfl
  | viewWillAppear =>
    cases hres : resets s
    · rw [handle, viewWillAppear_of_not_resets hres]
      exact .same _ rfl rfl
    · exact ⟨_, .reset hrunning hres, viewWillAppear_writes hres⟩
  | didSelectItemAt row menu =>
    rcases didSelectItemAt_cases row menu s with ⟨_, hs⟩ | ⟨h, hrow, ⟨_, hs⟩ | ⟨_, hs⟩⟩ <;>
      rw [handle, hs]
    · exact .same _ rfl rfl
    · exact .same _ rfl rfl
    · exact ⟨_, .tap menu hrow, by simp, by simp⟩
  | createTimeArray row ident timeArray =>
    refine ⟨_, .stop row ident timeArray, ?_, ?_⟩ <;>
      simp only [handle, createTimeArray, returnTimeArray] <;> split <;> rfl
  | showAlert row =>
    simp only [handle, showAlert]
    split
    · exact .same _ rfl rfl
    · next habit hrow => exact ⟨_, .finish hrow, rfl, rfl⟩
  | deleteHabit =>
    rcases deleteHabit_cases s with ⟨f, _, hs⟩ | ⟨row, hglobal, hrow⟩
    · exact .same _ (by rw [handle, hs]; rfl) (by rw [handle, hs]; rfl)
    · exact ⟨_, .delete row, by rw [handle, deleteHabit_eq hglobal hrow]; rfl,
        by rw [handle, deleteHabit_eq hglobal hrow]; rfl⟩
  | addHabitButtonTapped c =>
    refine .same _ ?_ ?_ <;> simp only [handle, CreateHabit.addHabitButtonTapped] <;> split <;>
      first | rfl | (split_ifs <;> rfl)
  | editConfirmed e => exact writesTo_editConfirmed e s
  | serve i => exact .same _ (serve_store s i) (serve_journal s i)
  | deliver i =>
    rcases deliver_cases s i with ⟨hs, _⟩ | ⟨p, hp, _, hs⟩ <;> rw [handle, hs]
    · exact .same _ rfl rfl
    · exact writesTo_callback ⟨i, hp, .inl rfl⟩ p.snapshot
  | fail i =>
    rcases fail_cases s i with hs | ⟨p, hp, _, hs⟩ <;> rw [handle, hs]
    · exact .same _ rfl rfl
    · exact writesTo_callback ⟨i, hp, .inr rfl⟩ none
  | relaunch => exact .same _ rfl rfl
  | nextDay => exact .same _ rfl rfl
  | fetchFirebaseHabits => exact .same _ rfl rfl
  | _ => exact (screensOnly_of_event rfl s).writesTo _

theorem writesTo_step (s : State) (e : Event) : WritesTo s e (step s e) := by
  unfold step
  split_ifs with hrunning
  · exact writesTo_handle hrunning e
  · exact .same e rfl rfl
  · exact .same e rfl rfl

/-- The achievements are written by a reset, and the count of finished
habits by a reset and by the callback of a completion. -/
theorem userFields_of_stepWrites {s : State} {e : Event} {ws : List Write} {fields : UserFields}
    (hws : StepWrites s e ws) (h : .updateUser fields ∈ ws) :
    (e = .viewWillAppear ∧ s.crashed = none ∧ resets s = true) ∨
      fields.achievements = none ∧
        (fields.finishedHabits = none ∨
          ∃ p, Delivers s e p ∧ p.callback.isFinished = true) := by
  cases hws with
  | reset hrunning hres => exact Or.inl ⟨rfl, hrunning, hres⟩
  | tap menu hrow =>
    unfold tapWrites at h
    split at h <;> simp at h
  | completed document hp hcb =>
    have hfields : fields.achievements = none := by
      cases document <;> simp [finishedWrites] at h
      rw [h]
    exact Or.inr ⟨hfields, Or.inr ⟨_, hp, by rw [hcb]; rfl⟩⟩
  | created document hp hcb hform =>
    simp only [List.mem_cons, reduceCtorEq, false_or, Write.updateUser.injEq, List.not_mem_nil,
      or_false] at h
    exact Or.inr (by rw [h]; exact ⟨rfl, Or.inl rfl⟩)
  | counted row hp hcb =>
    rcases List.mem_append.mp h with h | h
    · split at h <;> simp at h
    · rw [List.mem_singleton, Write.updateUser.injEq] at h
      exact Or.inr (by rw [h]; exact ⟨rfl, Or.inl rfl⟩)
  | rewritten hp hcb =>
    rcases List.mem_append.mp h with h | h
    · obtain ⟨k, doc, _, hset⟩ := Store.mem_setHabits h
      contradiction
    · rw [List.mem_singleton, Write.updateUser.injEq] at h
      exact Or.inr (by rw [h]; exact ⟨rfl, Or.inl rfl⟩)
  | _ => simp at h

/-! ## The calls in flight -/

/-- The calls that an event can issue. -/
inductive StepCalls (s : State) : Event → Callback → Prop where
  | refresh (e : Event) {cb : Callback} (hcb : cb.isRefresh = true) : StepCalls s e cb
  | tap {row : Nat} {menu : Bool} {habit : Habit} (hrow : s.habitArray[row]? = some habit)
      (haccepts : accepts menu habit = true) (hdone : habit.completes = true) :
      StepCalls s (.didSelectItemAt row menu) (.finished row habit.ident)
  | create {c : Nat} {habit : Habit} (hnew : requested s (.addHabitButtonTapped c) = [habit]) :
      StepCalls s (.addHabitButtonTapped c) (.addHabit c habit)
  | delete : StepCalls s .deleteHabit .deleteDone
  | counted {e : Event} {p : Pending} (hp : Delivers s e p) (hcb : p.callback = .deleteDone) :
      StepCalls s e .counterDone

/-- A callback issues calls of a refresh, or the next call of a delete. -/
theorem issued_of_callback (cb : Callback) (document : Option Store) (s : State) :
    ∃ cbs : List Callback, (cb.run document s).pending = s.pending ++ cbs.map ({ callback := · }) ∧
      ∀ c ∈ cbs, c.isRefresh = true ∨ cb = .deleteDone ∧ c = .counterDone := by
  by_cases hrefresh : cb.isRefresh = true
  · obtain ⟨cbs, hpending, hcbs⟩ := pending_of_isRefresh hrefresh document s
    exact ⟨cbs, hpending, fun c hc => Or.inl (Callback.isRefresh_of_isFetch (hcbs c hc))⟩
  cases cb with
  | deleteDone =>
    rcases deleteDone_cases s with hs | ⟨row, hglobal⟩
    · exact ⟨[], by rw [Callback.run, hs]; simp, by simp⟩
    · exact ⟨[.counterDone], by rw [Callback.run, deleteDone_eq hglobal]; rfl, by simp⟩
  | counterDone => exact ⟨[.fetch], rfl, by simp [Callback.isRefresh]⟩
  | addHabit c habit =>
    simp only [Callback.run, CreateHabit.addHabitRead]
    split
    · exact ⟨[], by simp, by simp⟩
    · exact ⟨[.fetch], rfl, by simp [Callback.isRefresh]⟩
  | finished row ident => exact ⟨[], by rw [Callback.run, finishedRead_eq]; simp, by simp⟩
  | _ => exact absurd rfl hrefresh

/-- The events that take no call out of flight and serve none. -/
def Event.isAction : Event → Bool
  | .relaunch | .serve _ | .deliver _ | .fail _ => false
  | _ => true

theorem issued_of_event {e : Event} (he : e.isAction = true) (s : State) :
    ∃ cbs : List Callback, (handle s e).pending = s.pending ++ cbs.map ({ callback := · }) ∧
      ∀ cb ∈ cbs, StepCalls s e cb := by
  have hnone : (handle s e).pending = s.pending →
      ∃ cbs : List Callback, (handle s e).pending = s.pending ++ cbs.map ({ callback := · }) ∧
        ∀ cb ∈ cbs, StepCalls s e cb := fun h => ⟨[], by simpa using h, by simp⟩
  cases e with
  | viewDidLoad =>
    by_cases hsigned : s.signedIn = true
    · exact ⟨[.fetchCounter, .reload], by simp [handle, viewDidLoad, fetchFirebaseHabits, hsigned],
        by simpa using ⟨.refresh _ rfl, .refresh _ rfl⟩⟩
    · exact hnone (by simp [handle, viewDidLoad, hsigned])
  | viewWillAppear =>
    obtain ⟨cbs, hpending, hcbs⟩ := viewWillAppear_issued s
    exact ⟨cbs, hpending, fun cb hcb => hcbs cb hcb ▸ .refresh _ rfl⟩
  | fetchFirebaseHabits => exact ⟨[.fetchCounter], rfl, by simpa using .refresh _ rfl⟩
  | didSelectItemAt row menu =>
    rcases didSelectItemAt_cases row menu s with ⟨_, hs⟩ | ⟨h, hrow, ⟨_, hs⟩ | ⟨hacc, hs⟩⟩
    · exact hnone (by rw [handle, hs]; rfl)
    · exact hnone (by rw [handle, hs])
    · refine ⟨tapCallbacks row h, by rw [handle, hs]; simp, fun cb hcb => ?_⟩
      unfold tapCallbacks at hcb
      split at hcb
      · next hdone =>
        rw [List.mem_singleton.mp hcb]
        exact .tap hrow hacc hdone
      · contradiction
  | createTimeArray row ident timeArray =>
    refine hnone ?_
    simp only [handle, createTimeArray, returnTimeArray]
    split <;> rfl
  | showAlert row =>
    refine hnone ?_
    simp only [handle, showAlert]
    split <;> rfl
  | deleteHabit =>
    rcases deleteHabit_cases s with ⟨f, _, hs⟩ | ⟨row, hglobal, hrow⟩
    · exact hnone (by rw [handle, hs]; rfl)
    · exact ⟨[.deleteDone], by rw [handle, deleteHabit_eq hglobal hrow]; rfl,
        by simpa using .delete⟩
  | addHabitButtonTapped c =>
    rcases addHabitButtonTapped_cases c s with ⟨form, _, hnew, hs⟩ | ⟨_, hframe⟩
    · exact ⟨[.addHabit c (CreateHabit.newHabit form s)], by rw [handle, hs]; rfl,
        by simpa using .create hnew⟩
    · exact hnone hframe.pending
  | editConfirmed e =>
    rcases editConfirmed_cases e s with hscreens | ⟨form, color, row, hs⟩
    · exact hnone hscreens.pending
    · exact ⟨[.fetch], by rw [handle, hs]; rfl, by simpa using .refresh _ rfl⟩
  | nextDay => exact hnone rfl
  | relaunch => contradiction
  | serve i => contradiction
  | deliver i => contradiction
  | fail i => contradiction
  | _ => exact hnone (screensOnly_of_event rfl s).pending

/-- Each call in flight after a step was in flight before, or is one that
the event issues. -/
theorem mem_pending_step {s : State} {e : Event} {q : Pending} (h : q ∈ (step s e).pending) :
    (∃ p ∈ s.pending, p.callback = q.callback) ∨ StepCalls s e q.callback := by
  have hran : ∀ {i : Nat} {p : Pending} (document : Option Store), Delivers s e p →
      q ∈ (p.callback.run document (s.dropPending i)).pending →
        (∃ p ∈ s.pending, p.callback = q.callback) ∨ StepCalls s e q.callback := by
    intro i p document hp hq
    obtain ⟨cbs, hpending, hcbs⟩ := issued_of_callback p.callback document (s.dropPending i)
    rw [hpending] at hq
    rcases List.mem_append.mp hq with hq | hq
    · exact Or.inl ⟨q, List.mem_of_mem_eraseIdx hq, rfl⟩
    · obtain ⟨cb, hcb, rfl⟩ := List.mem_map.mp hq
      rcases hcbs cb hcb with hrefresh | ⟨hdone, rfl⟩
      · exact Or.inr (.refresh e hrefresh)
      · exact Or.inr (.counted hp hdone)
  by_cases hrunning : s.crashed = none
  · rw [step_of_running hrunning] at h
    by_cases haction : e.isAction = true
    · obtain ⟨cbs, hpending, hcbs⟩ := issued_of_event haction s
      rw [hpending] at h
      rcases List.mem_append.mp h with h | h
      · exact Or.inl ⟨q, h, rfl⟩
      · obtain ⟨cb, hcb, rfl⟩ := List.mem_map.mp h
        exact Or.inr (hcbs cb hcb)
    cases e with
    | relaunch => contradiction
    | serve i =>
      have hmem : q.callback ∈ (s.serve i).pending.map Pending.callback := List.mem_map_of_mem h
      rw [serve_callbacks] at hmem
      obtain ⟨p, hp, hcb⟩ := List.mem_map.mp hmem
      exact Or.inl ⟨p, hp, hcb⟩
    | deliver i =>
      rcases deliver_cases s i with ⟨hs, _⟩ | ⟨p, hp, _, hs⟩ <;> rw [handle, hs] at h
      · exact Or.inl ⟨q, h, rfl⟩
      · exact hran p.snapshot ⟨i, hp, .inl rfl⟩ h
    | fail i =>
      rcases fail_cases s i with hs | ⟨p, hp, _, hs⟩ <;> rw [handle, hs] at h
      · exact Or.inl ⟨q, h, rfl⟩
      · exact hran none ⟨i, hp, .inr rfl⟩ h
    | _ => exact absurd rfl haction
  · rw [step, if_neg hrunning] at h
    split_ifs at h
    · contradiction
    · exact Or.inl ⟨q, h, rfl⟩

/-! ## What a step leaves alone -/

/-- `s'` has the clock, what `UserDefaults` holds, and the edit screens of
`s`. -/
structure KeepsDevice (s s' : State) : Prop where
  today : s'.today = s.today
  palmiIsCool : s'.palmiIsCool = s.palmiIsCool
  sectionColor : s'.sectionColor = s.sectionColor
  editing : s'.editing = s.editing

theorem KeepsDevice.refl (s : State) : KeepsDevice s s := ⟨rfl, rfl, rfl, rfl⟩

theorem ListOnly.keepsDevice {s s' : State} (h : ListOnly s s') : KeepsDevice s s' :=
  ⟨h.today, h.palmiIsCool, h.sectionColor, h.editing⟩

theorem keepsDevice_run (cb : Callback) (document : Option Store) (s : State) :
    KeepsDevice s (cb.run document s) := by
  have hrefresh : cb.isRefresh = true → KeepsDevice s (cb.run document s) :=
    fun h => (listOnly_of_isRefresh h document s).keepsDevice
  cases cb with
  | deleteDone =>
    simp only [Callback.run]
    rcases deleteDone_cases s with hs | ⟨row, hglobal⟩
    · rw [hs]
      exact ⟨rfl, rfl, rfl, rfl⟩
    · rw [deleteDone_eq hglobal]
      exact ⟨rfl, rfl, rfl, rfl⟩
  | counterDone => exact ⟨rfl, rfl, rfl, rfl⟩
  | addHabit c habit =>
    simp only [Callback.run, CreateHabit.addHabitRead]
    split
    · exact .refl s
    · exact ⟨rfl, rfl, rfl, rfl⟩
  | finished row ident =>
    rw [Callback.run, finishedRead_eq]
    exact ⟨rfl, rfl, rfl, rfl⟩
  | _ => exact hrefresh rfl

/-- The events that change the clock, `UserDefaults` or an edit screen. -/
def Event.isDevice : Event → Bool
  | .relaunch | .nextDay | .didSelectItemAt .. | .sectionColor _ | .editHabit | .editName ..
  | .editAmount .. | .editTime .. | .editConfirmed _ => true
  | _ => false

theorem keepsDevice_handle {e : Event} (he : e.isDevice = false) (s : State) :
    KeepsDevice s (handle s e) := by
  have hrun : ∀ (i : Nat) (p : Pending) (document : Option Store),
      KeepsDevice s (p.callback.run document (s.dropPending i)) := by
    intro i p document
    obtain ⟨htoday, hsaved, hcolor, hediting⟩ :=
      keepsDevice_run p.callback document (s.dropPending i)
    exact ⟨htoday, hsaved, hcolor, hediting⟩
  cases e with
  | viewDidLoad =>
    simp only [handle, viewDidLoad]
    split <;> exact ⟨rfl, rfl, rfl, rfl⟩
  | viewWillAppear =>
    simp only [handle, viewWillAppear]
    split_ifs <;> exact ⟨rfl, rfl, rfl, rfl⟩
  | fetchFirebaseHabits => exact ⟨rfl, rfl, rfl, rfl⟩
  | handleLongPress row =>
    simp only [handle, handleLongPress]
    split <;> exact ⟨rfl, rfl, rfl, rfl⟩
  | deleteHabit =>
    rcases deleteHabit_cases s with ⟨f, _, hs⟩ | ⟨row, hglobal, hrow⟩
    · rw [handle, hs]
      exact ⟨rfl, rfl, rfl, rfl⟩
    · rw [handle, deleteHabit_eq hglobal hrow]
      exact ⟨rfl, rfl, rfl, rfl⟩
  | createTimeArray row ident time =>
    simp only [handle, createTimeArray, returnTimeArray]
    split <;> exact ⟨rfl, rfl, rfl, rfl⟩
  | showAlert row =>
    simp only [handle, showAlert]
    split <;> exact ⟨rfl, rfl, rfl, rfl⟩
  | addButtonTapped => exact ⟨rfl, rfl, rfl, rfl⟩
  | createName c text =>
    simp only [handle, CreateHabit.habitNameChanged]
    split <;> exact ⟨rfl, rfl, rfl, rfl⟩
  | createAmount c amount =>
    simp only [handle, CreateHabit.didTapConfirmAmount]
    split <;> exact ⟨rfl, rfl, rfl, rfl⟩
  | createTime c time =>
    simp only [handle, CreateHabit.didTapConfirmTime]
    split
    · exact .refl s
    · split <;> exact ⟨rfl, rfl, rfl, rfl⟩
  | addHabitButtonTapped c =>
    simp only [handle, CreateHabit.addHabitButtonTapped]
    split
    · exact .refl s
    · split_ifs <;> exact ⟨rfl, rfl, rfl, rfl⟩
  | serve i =>
    rcases serve_cases s i with hs | ⟨_, _, _, _, hs⟩ <;> rw [handle, hs] <;>
      exact ⟨rfl, rfl, rfl, rfl⟩
  | deliver i =>
    rcases deliver_cases s i with ⟨hs, _⟩ | ⟨p, _, _, hs⟩ <;> rw [handle, hs]
    · exact .refl s
    · exact hrun i p p.snapshot
  | fail i =>
    rcases fail_cases s i with hs | ⟨p, _, _, hs⟩ <;> rw [handle, hs]
    · exact .refl s
    · exact hrun i p none
  | _ => contradiction

/-- A tap saves the day. -/
theorem saved_didSelectItemAt (row : Nat) (menu : Bool) (s : State) :
    (didSelectItemAt row menu s).today = s.today ∧
      (didSelectItemAt row menu s).palmiIsCool = some s.today ∧
      (didSelectItemAt row menu s).sectionColor = s.sectionColor ∧
      (didSelectItemAt row menu s).editing = s.editing := by
  rcases didSelectItemAt_cases row menu s with ⟨_, hs⟩ | ⟨h, _, ⟨_, hs⟩ | ⟨_, hs⟩⟩ <;> rw [hs] <;>
    exact ⟨rfl, rfl, rfl, rfl⟩

/-- The events that change the day or the saved day. -/
def Event.isDay : Event → Bool
  | .nextDay | .didSelectItemAt .. => true
  | _ => false

/-- Whatever else happens, the day, the saved day and the chosen color
stay; an edit screen that opens chooses one. -/
theorem device_handle {e : Event} (he : e.isDay = false) (s : State) :
    (handle s e).today = s.today ∧ (handle s e).palmiIsCool = s.palmiIsCool ∧
      ((handle s e).sectionColor.isSome = true ∨ (handle s e).sectionColor = s.sectionColor ∧
        ((handle s e).editing ≠ [] → s.editing ≠ [])) := by
  have hset : ∀ (e : Nat) (form : EditForm), (EditHabit.setForm e form s).editing ≠ [] →
      s.editing ≠ [] := by simp [EditHabit.setForm]
  by_cases hdevice : e.isDevice = false
  · obtain ⟨htoday, hsaved, hcolor, hediting⟩ := keepsDevice_handle hdevice s
    exact ⟨htoday, hsaved, Or.inr ⟨hcolor, fun hne => hediting ▸ hne⟩⟩
  · cases e with
    | relaunch => exact ⟨rfl, rfl, Or.inr ⟨rfl, by simp [handle, State.relaunch]⟩⟩
    | sectionColor color => exact ⟨rfl, rfl, Or.inl rfl⟩
    | editHabit =>
      simp only [handle, HabitCollection.editHabit]
      split
      · exact ⟨rfl, rfl, Or.inr ⟨rfl, id⟩⟩
      · split
        · exact ⟨rfl, rfl, Or.inr ⟨rfl, id⟩⟩
        · split
          · exact ⟨rfl, rfl, Or.inr ⟨rfl, id⟩⟩
          · exact ⟨rfl, rfl, Or.inl rfl⟩
    | editName e text =>
      simp only [handle, EditHabit.habitNameChanged]
      split
      · exact ⟨rfl, rfl, Or.inr ⟨rfl, id⟩⟩
      · exact ⟨rfl, rfl, Or.inr ⟨rfl, hset e _⟩⟩
    | editAmount e amount =>
      simp only [handle, EditHabit.didTapConfirmAmount]
      split
      · exact ⟨rfl, rfl, Or.inr ⟨rfl, id⟩⟩
      · exact ⟨rfl, rfl, Or.inr ⟨rfl, hset e _⟩⟩
    | editTime e time =>
      simp only [handle, EditHabit.didTapConfirmTime]
      split
      · exact ⟨rfl, rfl, Or.inr ⟨rfl, id⟩⟩
      · split
        · exact ⟨rfl, rfl, Or.inr ⟨rfl, id⟩⟩
        · exact ⟨rfl, rfl, Or.inr ⟨rfl, hset e _⟩⟩
    | editConfirmed e =>
      simp only [handle]
      unfold EditHabit.editHabit
      split
      · exact ⟨rfl, rfl, Or.inr ⟨rfl, id⟩⟩
      · split_ifs
        · split
          · exact ⟨rfl, rfl, Or.inr ⟨rfl, id⟩⟩
          · exact ⟨rfl, rfl, Or.inr ⟨rfl, id⟩⟩
          · exact ⟨rfl, rfl, Or.inr ⟨rfl, hset e _⟩⟩
        · exact ⟨rfl, rfl, Or.inr ⟨rfl, hset e _⟩⟩
        · exact ⟨rfl, rfl, Or.inr ⟨rfl, hset e _⟩⟩
    | _ => contradiction

theorem signedIn_callback (cb : Callback) (document : Option Store) (s : State) :
    (cb.run document s).signedIn = s.signedIn := by
  cases hrefresh : cb.isRefresh with
  | true => exact (listOnly_of_isRefresh hrefresh document s).signedIn
  | false =>
    cases cb with
    | deleteDone =>
      rcases deleteDone_cases s with h | ⟨row, hglobal⟩
      · rw [Callback.run, h]
        rfl
      · rw [Callback.run, deleteDone_eq hglobal]
        rfl
    | counterDone => rfl
    | addHabit c habit =>
      simp only [Callback.run, CreateHabit.addHabitRead]
      split <;> rfl
    | finished row ident =>
      rw [Callback.run, finishedRead_eq]
      rfl
    | _ => contradiction

/-- Nobody signs in or out in a session. -/
theorem signedIn_handle (s : State) (e : Event) : (handle s e).signedIn = s.signedIn := by
  cases e with
  | serve i => rcases serve_cases s i with h | ⟨p, _, _, _, h⟩ <;> rw [handle, h]
  | deliver i =>
    rcases deliver_cases s i with ⟨h, _⟩ | ⟨p, _, _, h⟩ <;> rw [handle, h]
    exact signedIn_callback p.callback p.snapshot (s.dropPending i)
  | fail i =>
    rcases fail_cases s i with h | ⟨p, _, _, h⟩ <;> rw [handle, h]
    exact signedIn_callback p.callback none (s.dropPending i)
  | viewWillAppear => exact (viewWillAppear_device s).2.2.1
  | deleteHabit =>
    rcases deleteHabit_cases s with ⟨f, _, h⟩ | ⟨row, hglobal, hrow⟩
    · rw [handle, h]
      rfl
    · rw [handle, deleteHabit_eq hglobal hrow]
      rfl
  | didSelectItemAt row menu =>
    rcases didSelectItemAt_cases row menu s with ⟨_, h⟩ | ⟨_, _, ⟨_, h⟩ | ⟨_, h⟩⟩ <;>
      rw [handle, h] <;> rfl
  | editConfirmed i =>
    simp only [handle]
    unfold EditHabit.editHabit
    repeat' split
    all_goals rfl
  | _ =>
    -- the other events set fields or crash, case by case
    simp only [handle, viewDidLoad, handleLongPress, HabitCollection.editHabit, createTimeArray,
      returnTimeArray, showAlert, CreateHabit.habitNameChanged, CreateHabit.didTapConfirmAmount,
      CreateHabit.didTapConfirmTime, CreateHabit.addHabitButtonTapped,
      CreateHabit.addButtonTapped, EditHabit.habitNameChanged, EditHabit.didTapConfirmAmount,
      EditHabit.didTapConfirmTime]
    repeat' split
    all_goals rfl

end HabitHive
