import HabitHive.Effects
import HabitHive.Refresh

/-!
# How a session ends

The source unwraps optionals, casts fields and indexes lists without a
test, so in principle each of the five faults is possible at many places.
`State.fault` reads off a session which event ends the process, and with
which fault: an index out of range, or the cast of a missing document.

`State.Sound` is what the session takes for granted instead of testing it:
the counter is at least -1, the row of a delete is chosen, and an edit form
has its row and its color.  Every event keeps it, and under it `fault` is
right (`Sound.handle`).
-/

namespace HabitHive

open HabitCollection

/-! ## Sessions -/

/-- The first `n` entries of a list of digits are read. -/
def digitsFault (n : Nat) (digits : List Int) : Option Fault :=
  if digits.length < n then some .indexOutOfRange else none

/-- `habitArray[row]` is read. -/
def State.rowFault (s : State) (row : Nat) : Option Fault :=
  if row < s.habitArray.length then none else some .indexOutOfRange

/-- The fault of a callback that takes `document`: the document of a counted
habit is missing, or one of its fields. -/
def Callback.fault (document : Option Store) : Callback → Option Fault
  | .fetchHabit n => document.bind fun doc =>
      if (doc.readHabit n).isSome then none else some .forcedCast
  | _ => none

/-- A read that fails ends no process. -/
theorem Callback.fault_none (cb : Callback) : cb.fault none = none := by cases cb <;> rfl

/-- The fault in which an event ends the process. -/
def State.fault (s : State) : Event → Option Fault
  | .handleLongPress row | .didSelectItemAt row _ | .createTimeArray row _ _ | .showAlert row =>
      s.rowFault row
  | .deleteHabit => s.indexPathGlobal.bind s.rowFault
  | .editHabit => s.indexPathGlobal.bind fun row =>
      match s.habitArray[row]? with
      | none => some .indexOutOfRange
      | some habit => if habit.counted then none else digitsFault 4 habit.time
  | .createTime c time => s.creating[c]?.bind fun _ => digitsFault 4 time
  | .editTime e time => s.editing[e]?.bind fun _ => digitsFault 4 time
  | .deliver i => s.pending[i]?.bind fun p => p.callback.fault p.snapshot
  | _ => none

namespace State

/-- What the session takes for granted. -/
structure Sound (s : State) : Prop where
  counter : -1 ≤ s.localHabitCounter
  chosen : ∀ p ∈ s.pending, p.callback = .deleteDone → s.indexPathGlobal ≠ none
  opened : ∀ form ∈ s.editing, form.indexPath ≠ none ∧ s.sectionColor ≠ none

namespace Sound

variable {s s' : State}

theorem relaunch (s : State) : s.relaunch.Sound :=
  ⟨by simp [State.relaunch], by simp [State.relaunch], by simp [State.relaunch]⟩

/-- A step that leaves the row, the forms and the color, and issues no
completion of a delete. -/
theorem of_issued (h : s.Sound) (hcounter : s'.localHabitCounter = s.localHabitCounter)
    (hglobal : s'.indexPathGlobal = s.indexPathGlobal) (hediting : s'.editing = s.editing)
    (hcolor : s'.sectionColor = s.sectionColor) (cbs : List Callback)
    (hpending : s'.pending = s.pending ++ cbs.map ({ callback := · }))
    (hcbs : .deleteDone ∉ cbs) : s'.Sound where
  counter := hcounter ▸ h.counter
  chosen p hp hcb := by
    rw [hpending] at hp
    rcases List.mem_append.mp hp with hp | hp
    · exact hglobal ▸ h.chosen p hp hcb
    · obtain ⟨cb, hmem, rfl⟩ := List.mem_map.mp hp
      exact absurd (hcb ▸ hmem) hcbs
  opened := by
    rw [hediting, hcolor]
    exact h.opened

/-- A step that leaves the calls in flight as well. -/
theorem same (h : s.Sound) (hcounter : s'.localHabitCounter = s.localHabitCounter)
    (hglobal : s'.indexPathGlobal = s.indexPathGlobal) (hediting : s'.editing = s.editing)
    (hcolor : s'.sectionColor = s.sectionColor) (hpending : s'.pending = s.pending) : s'.Sound :=
  h.of_issued hcounter hglobal hediting hcolor [] (by simpa using hpending) (by simp)

theorem dropPending (h : s.Sound) (i : Nat) : (s.dropPending i).Sound :=
  ⟨h.counter, fun p hp => h.chosen p (List.mem_of_mem_eraseIdx hp), h.opened⟩

theorem serve (h : s.Sound) (i : Nat) : (s.serve i).Sound := by
  rcases serve_cases s i with hs | ⟨p, hp, _, _, hs⟩ <;> rw [hs]
  · exact h
  · refine ⟨h.counter, fun q hq hcb => ?_, h.opened⟩
    rcases List.mem_or_eq_of_mem_set hq with hq | rfl
    · exact h.chosen q hq hcb
    · exact h.chosen p (List.mem_of_getElem? hp) hcb

/-- A form of an edit screen is changed, but for its row. -/
theorem setForm (h : s.Sound) {e : Nat} {f old : EditForm} (hold : s.editing[e]? = some old)
    (hrow : f.indexPath = old.indexPath) : (EditHabit.setForm e f s).Sound := by
  refine ⟨h.counter, h.chosen, fun form' hform' => ?_⟩
  rcases List.mem_or_eq_of_mem_set hform' with hmem | rfl
  · exact h.opened form' hmem
  · rw [hrow]
    exact h.opened old (List.mem_of_getElem? hold)

/-- A callback leaves the session sound, and ends the process when its
document is missing. -/
theorem callback (h : s.Sound) (hrunning : s.crashed = none) (cb : Callback)
    (document : Option Store) (hcb : cb = .deleteDone → s.indexPathGlobal ≠ none) :
    (cb.run document s).Sound ∧ (cb.run document s).crashed = cb.fault document := by
  cases cb with
  | fetchCounter =>
    have hlist := fetchCounterRead_listOnly document s
    obtain ⟨n, hpending⟩ := fetchCounterRead_pending document s
    have hnot : Callback.deleteDone ∉ (List.range n).map .fetchHabit := by simp
    cases document with
    | none =>
      have hcounter : ¬s.localHabitCounter < -1 := Int.not_lt.mpr h.counter
      refine ⟨?_, ?_⟩
      · refine h.of_issued ?_ hlist.indexPathGlobal hlist.editing hlist.sectionColor _ hpending hnot
        simp only [Callback.run, fetchCounterRead]
        split_ifs <;> rfl
      · simp only [Callback.run, fetchCounterRead, Callback.fault]
        split_ifs with hempty hnegative
        · exact hrunning
        · omega
        · exact hrunning
    | some doc =>
      have hsome := fetchCounterRead_some doc s
      have hset : Sound { s with localHabitCounter := doc.user.habitCounter - 1 } :=
        ⟨by dsimp only; omega, h.chosen, h.opened⟩
      rw [Callback.run, hsome]
      exact ⟨hset.of_issued rfl rfl rfl rfl _ rfl (by simp), hrunning⟩
  | fetchHabit n =>
    cases document with
    | none => exact ⟨h.same rfl rfl rfl rfl rfl, hrunning⟩
    | some doc =>
      simp only [Callback.run, Callback.fault, fetchHabitRead]
      cases hread : doc.readHabit n with
      | none => exact ⟨h.same rfl rfl rfl rfl rfl, by simp [hread]⟩
      | some habit => exact ⟨h.same rfl rfl rfl rfl rfl, by simp [hread, hrunning]⟩
  | deleteDone =>
    obtain ⟨row, hglobal⟩ := Option.ne_none_iff_exists'.mp (hcb rfl)
    rw [Callback.run, deleteDone_eq hglobal]
    exact ⟨h.of_issued rfl rfl rfl rfl [.counterDone] rfl (by simp), hrunning⟩
  | counterDone => exact ⟨h.of_issued rfl rfl rfl rfl [.fetch] rfl (by simp), hrunning⟩
  | fetch => exact ⟨h.of_issued rfl rfl rfl rfl [.fetchCounter] rfl (by simp), hrunning⟩
  | reload => exact ⟨h.same rfl rfl rfl rfl rfl, hrunning⟩
  | addHabit c habit =>
    rw [Callback.run, CreateHabit.addHabitRead]
    split
    · exact ⟨h, hrunning⟩
    · exact ⟨h.of_issued rfl rfl rfl rfl [.fetch] rfl (by simp), hrunning⟩
  | finished row ident =>
    rw [Callback.run, finishedRead_eq]
    exact ⟨h.same rfl rfl rfl rfl rfl, hrunning⟩

theorem crash (h : s.Sound) (f : Fault) : (s.crash f).Sound := h.same rfl rfl rfl rfl rfl

/-- A press of the delete button. -/
theorem deleteHabit (h : s.Sound) (hrunning : s.crashed = none) :
    (HabitCollection.deleteHabit s).Sound ∧ (s.indexPathGlobal ≠ none →
      (HabitCollection.deleteHabit s).crashed = s.fault .deleteHabit) := by
  cases hglobal : s.indexPathGlobal with
  | none =>
    simp only [HabitCollection.deleteHabit, deleteHabitAction, hglobal]
    exact ⟨h.crash _, by simp⟩
  | some row =>
    by_cases hrow : row < s.habitArray.length
    · rw [deleteHabit_eq hglobal hrow]
      refine ⟨⟨h.counter, fun _ _ _ => by simp [hglobal], h.opened⟩, fun _ => ?_⟩
      simpa [State.fault, rowFault, hglobal, hrow] using hrunning
    · simp only [HabitCollection.deleteHabit, deleteHabitAction, hglobal, if_neg hrow]
      exact ⟨h.crash _, by simp [State.fault, rowFault, hglobal, hrow]⟩

/-- A press of the edit button. -/
theorem editHabit (h : s.Sound) (hrunning : s.crashed = none) :
    (HabitCollection.editHabit s).Sound ∧ (s.indexPathGlobal ≠ none →
      (HabitCollection.editHabit s).crashed = s.fault .editHabit) := by
  cases hglobal : s.indexPathGlobal with
  | none =>
    simp only [HabitCollection.editHabit, hglobal]
    exact ⟨h.crash _, by simp⟩
  | some row =>
    cases hrow : s.habitArray[row]? with
    | none =>
      simp only [HabitCollection.editHabit, State.fault, Option.bind_some, hglobal, hrow]
      exact ⟨h.crash _, fun _ => rfl⟩
    | some habit =>
      have hfault : s.fault .editHabit =
          if habit.counted then none else digitsFault 4 habit.time := by
        simp [State.fault, hglobal, hrow]
      rw [hfault]
      simp only [HabitCollection.editHabit, hglobal, hrow]
      by_cases hshort : ¬habit.counted ∧ habit.time.length < 4
      · rw [if_pos hshort, if_neg hshort.1, digitsFault, if_pos hshort.2]
        exact ⟨h.crash _, fun _ => rfl⟩
      · rw [if_neg hshort]
        refine ⟨⟨h.counter, fun _ _ _ => by simp, fun form hform => ?_⟩, fun _ => ?_⟩
        · rcases List.mem_append.mp hform with hform | hform
          · exact ⟨(h.opened form hform).1, by simp⟩
          · rw [List.mem_singleton.mp hform]
            exact ⟨by simp, by simp⟩
        · rw [not_and] at hshort
          by_cases hcounted : habit.counted
          · rw [if_pos hcounted]
            exact hrunning
          · rw [if_neg hcounted, digitsFault, if_neg (hshort hcounted)]
            exact hrunning

/-- The confirmation of an edit. -/
theorem editConfirmed (h : s.Sound) (hrunning : s.crashed = none) (i : Nat) :
    (EditHabit.editHabit i s).Sound ∧ (EditHabit.editHabit i s).crashed = none := by
  unfold EditHabit.editHabit
  split
  · exact ⟨h, hrunning⟩
  · next form hform =>
    have hopened := h.opened form (List.mem_of_getElem? hform)
    split_ifs
    · split
      · next hcolor => exact absurd hcolor hopened.2
      · next hpath _ => exact absurd hpath hopened.1
      · next color row _ _ =>
        refine ⟨?_, hrunning⟩
        have hwrite : (s.write (.updateHabit row (EditHabit.editedEntry form color).fields
            form.habit.ident)).Sound := h.same rfl rfl rfl rfl rfl
        exact (hwrite.setForm (f := { form with errorLabel := none }) hform rfl).of_issued
          rfl rfl rfl rfl [.fetch] rfl (by simp)
    · exact ⟨h.setForm hform rfl, hrunning⟩
    · exact ⟨h.setForm hform rfl, hrunning⟩

/-- An event leaves the session sound.  It ends the process as `fault` says,
provided that a menu is only used when a row is chosen. -/
theorem handle (h : s.Sound) (hrunning : s.crashed = none) (e : Event) :
    (handle s e).Sound ∧ ((e = .deleteHabit ∨ e = .editHabit → s.indexPathGlobal ≠ none) →
      (handle s e).crashed = s.fault e) := by
  cases e with
  | relaunch => exact ⟨relaunch s, fun _ => rfl⟩
  | nextDay => exact ⟨h.same rfl rfl rfl rfl rfl, fun _ => hrunning⟩
  | viewDidLoad =>
    simp only [HabitHive.handle, viewDidLoad]
    split
    · exact ⟨h.of_issued rfl rfl rfl rfl [.fetchCounter, .reload]
        (List.append_assoc _ _ _) (by simp), fun _ => hrunning⟩
    · exact ⟨h, fun _ => hrunning⟩
  | viewWillAppear =>
    simp only [HabitHive.handle, viewWillAppear]
    split_ifs
    · exact ⟨h.of_issued rfl rfl rfl rfl [.reload] rfl (by simp), fun _ => hrunning⟩
    · exact ⟨h.same rfl rfl rfl rfl rfl, fun _ => hrunning⟩
    · exact ⟨h, fun _ => hrunning⟩
  | fetchFirebaseHabits =>
    exact ⟨h.of_issued rfl rfl rfl rfl [.fetchCounter] rfl (by simp), fun _ => hrunning⟩
  | handleLongPress row =>
    simp only [HabitHive.handle, handleLongPress, State.fault, rowFault]
    split
    · exact ⟨⟨h.counter, fun _ _ _ => by simp, h.opened⟩, fun _ => hrunning⟩
    · exact ⟨h.crash _, fun _ => rfl⟩
  | deleteHabit => exact (h.deleteHabit hrunning).imp_right fun hs hmenu => hs (hmenu (Or.inl rfl))
  | editHabit => exact (h.editHabit hrunning).imp_right fun hs hmenu => hs (hmenu (Or.inr rfl))
  | didSelectItemAt row menu =>
    have hlt : ∀ {habit}, s.habitArray[row]? = some habit → row < s.habitArray.length :=
      fun hrow => (List.getElem?_eq_some_iff.mp hrow).1
    simp only [HabitHive.handle, State.fault, rowFault]
    rcases didSelectItemAt_cases row menu s with ⟨hrow, hs⟩ | ⟨habit, hrow, ⟨_, hs⟩ | ⟨_, hs⟩⟩ <;>
      rw [hs]
    · exact ⟨h.same rfl rfl rfl rfl rfl,
        fun _ => by simp [Nat.not_lt.mpr (List.getElem?_eq_none_iff.mp hrow)]⟩
    · exact ⟨h.same rfl rfl rfl rfl rfl, fun _ => by simp [hlt hrow, hrunning]⟩
    · refine ⟨h.of_issued rfl rfl rfl rfl (tapCallbacks row habit) rfl ?_,
        fun _ => by simp [hlt hrow, hrunning]⟩
      unfold tapCallbacks
      split <;> simp
  | createTimeArray row ident time =>
    simp only [HabitHive.handle, HabitCollection.createTimeArray, returnTimeArray, State.fault,
      rowFault, State.write_habitArray]
    split
    · next hrow =>
      exact ⟨h.same rfl rfl rfl rfl rfl,
        fun _ => by simp [Nat.not_lt.mpr (List.getElem?_eq_none_iff.mp hrow)]⟩
    · next hrow =>
      exact ⟨h.same rfl rfl rfl rfl rfl,
        fun _ => by simp [(List.getElem?_eq_some_iff.mp hrow).1, hrunning]⟩
  | showAlert row =>
    simp only [HabitHive.handle, HabitCollection.showAlert, State.fault, rowFault]
    split
    · next hrow =>
      exact ⟨h.same rfl rfl rfl rfl rfl,
        fun _ => by simp [Nat.not_lt.mpr (List.getElem?_eq_none_iff.mp hrow)]⟩
    · next hrow =>
      exact ⟨h.same rfl rfl rfl rfl rfl,
        fun _ => by simp [(List.getElem?_eq_some_iff.mp hrow).1, hrunning]⟩
  | sectionColor color =>
    refine ⟨⟨h.counter, h.chosen, fun form hform => ⟨(h.opened form hform).1, ?_⟩⟩,
      fun _ => hrunning⟩
    simp [HabitHive.handle]
  | addButtonTapped => exact ⟨h.same rfl rfl rfl rfl rfl, fun _ => hrunning⟩
  | createName c text =>
    simp only [HabitHive.handle, CreateHabit.habitNameChanged]
    split
    · exact ⟨h, fun _ => hrunning⟩
    · exact ⟨h.same rfl rfl rfl rfl rfl, fun _ => hrunning⟩
  | createAmount c amount =>
    simp only [HabitHive.handle, CreateHabit.didTapConfirmAmount]
    split
    · exact ⟨h, fun _ => hrunning⟩
    · exact ⟨h.same rfl rfl rfl rfl rfl, fun _ => hrunning⟩
  | createTime c time =>
    simp only [HabitHive.handle, CreateHabit.didTapConfirmTime, State.fault, digitsFault]
    split
    · next hform => exact ⟨h, fun _ => by simp [hform, hrunning]⟩
    · next hform =>
      split
      · exact ⟨h.crash _, fun _ => by simp [hform]⟩
      · exact ⟨h.same rfl rfl rfl rfl rfl,
          fun _ => by simp [hform, hrunning, CreateHabit.setForm]⟩
  | addHabitButtonTapped c =>
    simp only [HabitHive.handle]
    unfold CreateHabit.addHabitButtonTapped
    split
    · exact ⟨h, fun _ => hrunning⟩
    · split_ifs
      · exact ⟨h.of_issued rfl rfl rfl rfl [.addHabit c _] rfl (by simp), fun _ => hrunning⟩
      all_goals exact ⟨h.same rfl rfl rfl rfl rfl, fun _ => hrunning⟩
  | editName i text =>
    simp only [HabitHive.handle, EditHabit.habitNameChanged]
    split
    · exact ⟨h, fun _ => hrunning⟩
    · next hform => exact ⟨h.setForm hform rfl, fun _ => hrunning⟩
  | editAmount i amount =>
    simp only [HabitHive.handle, EditHabit.didTapConfirmAmount]
    split
    · exact ⟨h, fun _ => hrunning⟩
    · next hform => exact ⟨h.setForm hform rfl, fun _ => hrunning⟩
  | editTime i time =>
    simp only [HabitHive.handle, EditHabit.didTapConfirmTime, State.fault, digitsFault]
    split
    · next hform => exact ⟨h, fun _ => by simp [hform, hrunning]⟩
    · next hform =>
      split
      · exact ⟨h.crash _, fun _ => by simp [hform]⟩
      · exact ⟨h.setForm hform rfl, fun _ => by simp [hform, hrunning, EditHabit.setForm]⟩
  | editConfirmed i => exact (h.editConfirmed hrunning i).imp_right fun hs _ => hs
  | serve i => exact ⟨h.serve i, fun _ => by simpa [HabitHive.handle, State.fault] using hrunning⟩
  | deliver i =>
    simp only [HabitHive.handle, State.fault]
    rcases deliver_cases s i with ⟨hs, hnone⟩ | ⟨p, hp, _, hs⟩ <;> rw [hs]
    · refine ⟨h, fun _ => ?_⟩
      cases hp : s.pending[i]? with
      | none => exact hrunning
      | some p =>
        rw [Option.bind_some, hnone p hp]
        exact hrunning.trans (Callback.fault_none p.callback).symm
    · rw [hp]
      have hrun := (h.dropPending i).callback hrunning p.callback p.snapshot
        (h.chosen p (List.mem_of_getElem? hp))
      exact ⟨hrun.1, fun _ => hrun.2⟩
  | fail i =>
    simp only [HabitHive.handle, State.fault]
    rcases fail_cases s i with hs | ⟨p, hp, hread, hs⟩ <;> rw [hs]
    · exact ⟨h, fun _ => hrunning⟩
    · have hrun := (h.dropPending i).callback hrunning p.callback none
        (h.chosen p (List.mem_of_getElem? hp))
      exact ⟨hrun.1, fun _ => hrun.2.trans (Callback.fault_none p.callback)⟩

theorem step (h : s.Sound) (e : Event) : (step s e).Sound := by
  by_cases hrunning : s.crashed = none
  · rw [step_of_running hrunning]
    exact (h.handle hrunning e).1
  · rw [HabitHive.step, if_neg hrunning]
    split
    · exact relaunch s
    · exact h

end Sound

theorem chosen_callback {s : State} (h : s.indexPathGlobal ≠ none) (cb : Callback)
    (document : Option Store) : (cb.run document s).indexPathGlobal ≠ none := by
  cases cb with
  | deleteDone =>
    obtain ⟨row, hglobal⟩ := Option.ne_none_iff_exists'.mp h
    rw [Callback.run, deleteDone_eq hglobal]
    exact h
  | counterDone => exact h
  | addHabit c habit =>
    simp only [Callback.run, CreateHabit.addHabitRead]
    split <;> exact h
  | finished row ident =>
    rw [Callback.run, finishedRead_eq]
    exact h
  | fetchCounter | fetchHabit _ | fetch | reload =>
    rw [(listOnly_of_isRefresh rfl document s).indexPathGlobal]
    exact h

/-- A row that is chosen stays so until the process ends. -/
theorem chosen_step {s : State} (h : s.indexPathGlobal ≠ none) {e : Event} (he : e ≠ .relaunch) :
    (step s e).indexPathGlobal ≠ none := by
  by_cases hrunning : s.crashed = none
  · rw [step_of_running hrunning]
    cases e with
    | relaunch => contradiction
    | deliver i =>
      rcases deliver_cases s i with ⟨hs, _⟩ | ⟨p, _, _, hs⟩ <;> rw [HabitHive.handle, hs]
      · exact h
      · exact chosen_callback (s := s.dropPending i) h _ _
    | fail i =>
      rcases fail_cases s i with hs | ⟨p, _, _, hs⟩ <;> rw [HabitHive.handle, hs]
      · exact h
      · exact chosen_callback (s := s.dropPending i) h _ _
    | serve i =>
      rcases serve_cases s i with hs | ⟨p, _, _, _, hs⟩ <;> rw [HabitHive.handle, hs] <;> exact h
    | viewWillAppear =>
      rw [HabitHive.handle, (viewWillAppear_device s).2.2.2.2.2.1]
      exact h
    | didSelectItemAt row menu =>
      rw [HabitHive.handle]
      rcases didSelectItemAt_cases row menu s with ⟨_, hs⟩ | ⟨_, _, ⟨_, hs⟩ | ⟨_, hs⟩⟩
      all_goals
        rw [hs]
        exact h
    | deleteHabit =>
      rcases deleteHabit_cases s with ⟨f, _, hs⟩ | ⟨row, hglobal, hrow⟩
      · rw [HabitHive.handle, hs]
        exact h
      · rw [HabitHive.handle, deleteHabit_eq hglobal hrow]
        exact h
    | handleLongPress row =>
      simp only [HabitHive.handle, handleLongPress]
      split
      · exact Option.some_ne_none row
      · exact h
    | editHabit =>
      simp only [HabitHive.handle, HabitCollection.editHabit]
      split
      · exact h
      · split
        · exact h
        · split <;> exact h
    | createTimeArray row ident time =>
      simp only [HabitHive.handle, HabitCollection.createTimeArray, returnTimeArray]
      split <;> exact h
    | showAlert row =>
      simp only [HabitHive.handle, HabitCollection.showAlert]
      split <;> exact h
    | viewDidLoad =>
      simp only [HabitHive.handle, viewDidLoad]
      split <;> exact h
    | nextDay | fetchFirebaseHabits | sectionColor _ | addButtonTapped => exact h
    | createName c text =>
      simp only [HabitHive.handle, CreateHabit.habitNameChanged]
      split <;> exact h
    | createAmount c amount =>
      simp only [HabitHive.handle, CreateHabit.didTapConfirmAmount]
      split <;> exact h
    | createTime c time =>
      simp only [HabitHive.handle, CreateHabit.didTapConfirmTime]
      split
      · exact h
      · split <;> exact h
    | addHabitButtonTapped c =>
      simp only [HabitHive.handle, CreateHabit.addHabitButtonTapped]
      split
      · exact h
      · split_ifs <;> exact h
    | editName i text =>
      simp only [HabitHive.handle, EditHabit.habitNameChanged]
      split <;> exact h
    | editAmount i amount =>
      simp only [HabitHive.handle, EditHabit.didTapConfirmAmount]
      split <;> exact h
    | editTime i time =>
      simp only [HabitHive.handle, EditHabit.didTapConfirmTime]
      split
      · exact h
      · split <;> exact h
    | editConfirmed i =>
      simp only [HabitHive.handle, EditHabit.editHabit]
      split
      · exact h
      · split_ifs
        · split <;> exact h
        · exact h
        · exact h
  · rw [step, if_neg hrunning, if_neg he]
    exact h

end State

end HabitHive
