import HabitHive.Create

/-!
# A create that could not read the counter

The callback of `addHabitButtonTapped` writes at the counter that the form
holds, whether it was read or not.  A form that has read nothing holds `0`,
so the first document is overwritten and every other one is out of reach.

Nothing is lost only where the writes change nothing that is there:
`failed_create_keeps_iff`.
-/

namespace HabitHive

open HabitCollection CreateHabit

/-- Every document of `st` still has its fields, and the counter its
value. -/
structure Store.Untouched (st st' : Store) : Prop where
  habits : ∀ k doc, st.habits k = some doc → (st'.habits k).map HabitDoc.fields = some doc.fields
  habitCounter : st'.user.habitCounter = st.user.habitCounter

/-- What the callback stores when the read has failed. -/
theorem store_of_failed {s : State} {i c : Nat} {p : Pending} {habit : Habit} {form : CreateForm}
    (hrunning : s.crashed = none) (hp : s.pending[i]? = some p)
    (hcb : p.callback = .addHabit c habit) (hform : s.creating[c]? = some form) :
    (step s (.fail i)).store = s.store.applyAll
      [.setHabit form.habitCounter (newDocument habit (formRead habit none form).timeArray),
        .updateUser { habitCounter := some (form.habitCounter + 1) }] := by
  rw [step_of_running hrunning]
  simp [handle, State.fail, hp, hcb, Callback.isRead, Callback.run, addHabitRead, hform, setForm,
    formRead]

/-- A create whose read of the counter fails leaves the store as it was
exactly when the counter is the one the form holds, plus one, and its
document does not exist or has all the values of a new habit with the name,
the color, the kind, the goal and the time of the form already. -/
theorem failed_create_keeps_iff {s : State} {i c : Nat} {p : Pending} {habit : Habit}
    {form : CreateForm} (hrunning : s.crashed = none) (hp : s.pending[i]? = some p)
    (hcb : p.callback = .addHabit c habit) (hform : s.creating[c]? = some form) :
    s.store.Untouched (step s (.fail i)).store ↔
      s.store.user.habitCounter = form.habitCounter + 1 ∧
        ∀ doc ∈ s.store.habits form.habitCounter, doc.IsNew habit
          (form.timeArray ++ if habit.counted then [0, 0, 0, 0, 0, 0] else []) := by
  simp only [← formRead_timeArray habit none form, isNew_iff]
  have hstore := store_of_failed hrunning hp hcb hform
  have hcounter : (step s (.fail i)).store.user.habitCounter = form.habitCounter + 1 := by
    rw [hstore]
    rfl
  have hhabits : (step s (.fail i)).store.habits =
      Function.update s.store.habits form.habitCounter
        (some (newDocument habit (formRead habit none form).timeArray)) := by
    rw [hstore]
    rfl
  constructor
  · intro h
    refine ⟨by rw [← h.habitCounter, hcounter], fun doc hdoc => ?_⟩
    have hkept := h.habits form.habitCounter doc hdoc
    rw [hhabits, Function.update_self, Option.map_some, Option.some.injEq] at hkept
    exact hkept.symm
  · rintro ⟨hcount, hsame⟩
    refine ⟨fun k doc hdoc => ?_, by rw [hcounter, hcount]⟩
    rw [hhabits]
    by_cases hk : k = form.habitCounter
    · subst hk
      rw [Function.update_self, Option.map_some, hsame doc hdoc]
    · rw [Function.update_of_ne hk, hdoc, Option.map_some]

/-- A new form on an account with two habits.  The read fails, the first
habit is overwritten and the second one is no longer counted. -/
theorem failed_create_overwrites :
    let s := run (State.launched (.ofEntries [.sample 2, .sample 3]))
      [.addButtonTapped, .createName 0 ["n"], .createAmount 0 5, .addHabitButtonTapped 0]
    s.crashed = none ∧ (∃ habit, s.pending.map Pending.callback = [.addHabit 0 habit]) ∧
      s.store.user.habitCounter = 2 ∧ (step s (.fail 0)).store.user.habitCounter = 1 ∧
      (((step s (.fail 0)).store.habits 0).bind (·.fields.goal)) = some 5 ∧
      ¬s.store.Untouched (step s (.fail 0)).store := by
  refine ⟨by decide, ⟨_, rfl⟩, by decide, by decide, by decide, fun h => ?_⟩
  exact absurd h.habitCounter (by decide)

/-- Add Habit is pressed twice on a timed form, and the read of the second
press fails. -/
theorem failed_create_keeps_iff_second :
    let s := run (State.launched .signUp)
      [.addButtonTapped, .createName 0 ["n"], .createTime 0 [0, 0, 1, 0, 0, 0],
        .addHabitButtonTapped 0, .serve 0, .deliver 0, .addHabitButtonTapped 0]
    let form : CreateForm :=
      { habitName := ["n"], timeArray := [0, 0, 1, 0, 0, 0], typeOfHabitSelected := true }
    let habit := newHabit form { s with nextIdent := 1 }
    s.store.Untouched (step s (.fail 1)).store ↔
      s.store.user.habitCounter = form.habitCounter + 1 ∧
        ∀ doc ∈ s.store.habits form.habitCounter, doc.IsNew habit
          (form.timeArray ++ if habit.counted then [0, 0, 0, 0, 0, 0] else []) :=
  failed_create_keeps_iff (p := { callback := .addHabit 0 _ }) (by decide) rfl rfl (by decide)

end HabitHive
