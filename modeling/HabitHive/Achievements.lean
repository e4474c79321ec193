import HabitHive.Writes

/-!
# The stored achievements

A reset collects the awards of the day in a local list that starts empty,
and writes this list to the field `achievements` each time it grows.  So a
reset with an award replaces what earlier resets stored, and a reset
without one leaves it (`viewWillAppear_achievements`).  No other event
writes the field.

`achievements_grow_iff` says which runs never lose an entry.
-/

namespace HabitHive

open HabitCollection

/-- The award that the next reset writes for a habit: the habit was
completed, and the streak it is raised to is `1`, `25` or `50`. -/
def Habit.nextAward (h : Habit) : Option Text :=
  if h.addFirebase then none
  else if h.streak = 0 then some (h.name ++ Text.ofAscii " for 10 days")
  else if h.streak = 24 then some (h.name ++ Text.ofAscii " for 25 days")
  else if h.streak = 49 then some (h.name ++ Text.ofAscii " for 50 days")
  else none

theorem achievement_resetHabit (h : Habit) : achievement (resetHabit h) = h.nextAward := by
  unfold achievement resetHabit Habit.nextAward
  cases h.addFirebase
  · have h1 : h.streak + 1 = 1 ↔ h.streak = 0 := by omega
    have h25 : h.streak + 1 = 25 ↔ h.streak = 24 := by omega
    have h50 : h.streak + 1 = 50 ↔ h.streak = 49 := by omega
    simp [h1, h25, h50]
  · simp

/-! ## One reset -/

/-- The second loop stores what it has collected, once it has collected
something. -/
theorem applyAll_resetWrites_achievements (st : Store) (n : Nat) (names : List Text)
    (hs : List Habit) :
    (st.applyAll (resetWrites n names hs)).user.achievements =
      if hs.filterMap achievement = [] then st.user.achievements
      else names ++ hs.filterMap achievement := by
  induction hs generalizing st n names with
  | nil => rfl
  | cons h hs ih =>
    rw [resetWrites]
    cases haward : achievement h with
    | none =>
      simp only [Store.applyAll_cons, ih, resetUpdate, List.filterMap_cons, haward]
      rfl
    | some text =>
      simp only [Store.applyAll_cons, ih, List.filterMap_cons, haward, reduceCtorEq, if_false]
      split_ifs with hnone
      · simp [hnone, UserDoc.merge]
      · rw [List.append_assoc]
        rfl

/-- The field after a reset. -/
theorem viewWillAppear_achievements {s : State} (h : resets s = true) :
    (viewWillAppear s).store.user.achievements =
      if s.habitArray.filterMap Habit.nextAward = [] then s.store.user.achievements
      else s.habitArray.filterMap Habit.nextAward := by
  have hawards : (s.habitArray.map resetHabit).filterMap achievement =
      s.habitArray.filterMap Habit.nextAward := by
    rw [List.filterMap_map]
    exact List.filterMap_congr fun h _ => achievement_resetHabit h
  rw [(viewWillAppear_writes h).1, appearWrites, Store.applyAll_cons,
    applyAll_resetWrites_achievements, hawards, List.nil_append]
  rfl

/-! ## Runs -/

/-- Writes that do not touch the field. -/
theorem achievements_of_writes {st : Store} {ws : List Write}
    (h : ∀ w ∈ ws, ∀ fields, w = .updateUser fields → fields.achievements = none) :
    (st.applyAll ws).user.achievements = st.user.achievements :=
  Store.user_of_forall UserDoc.achievements fun w hw fields hfields _ => by
    simp [UserDoc.merge, h w hw fields hfields]

/-- Only a reset writes the field. -/
theorem achievements_step {s : State} {e : Event}
    (he : ¬(e = .viewWillAppear ∧ s.crashed = none ∧ resets s = true)) :
    (step s e).store.user.achievements = s.store.user.achievements := by
  obtain ⟨ws, hws, hstore, _⟩ := writesTo_step s e
  rw [hstore]
  refine achievements_of_writes fun w hw fields hfields => ?_
  rcases userFields_of_stepWrites hws (hfields ▸ hw) with hreset | ⟨hnone, _⟩
  · exact absurd hreset he
  · exact hnone

/-- A reset keeps the stored entries: it writes no award, or it writes them
again. -/
def KeepsAwards (s : State) (e : Event) : Prop :=
  e = .viewWillAppear → s.crashed = none → resets s = true →
    (∀ h ∈ s.habitArray, h.nextAward = none) ∨
      ∀ text ∈ s.store.user.achievements, ∃ h ∈ s.habitArray, h.nextAward = some text

instance (s : State) (e : Event) : Decidable (KeepsAwards s e) := by
  unfold KeepsAwards
  infer_instance

theorem achievements_subset_iff (s : State) (e : Event) :
    s.store.user.achievements ⊆ (step s e).store.user.achievements ↔ KeepsAwards s e := by
  by_cases hreset : e = .viewWillAppear ∧ s.crashed = none ∧ resets s = true
  · obtain ⟨rfl, hrunning, hres⟩ := hreset
    have hnone : s.habitArray.filterMap Habit.nextAward = [] ↔
        ∀ h ∈ s.habitArray, h.nextAward = none := List.filterMap_eq_nil_iff
    rw [step_of_running hrunning, handle, viewWillAppear_achievements hres, KeepsAwards]
    simp only [hrunning, hres, forall_true_left]
    split_ifs with hempty
    · exact iff_of_true (List.Subset.refl _) (Or.inl (hnone.mp hempty))
    · rw [hnone] at hempty
      simp [hempty, List.subset_def, List.mem_filterMap]
  · rw [achievements_step hreset]
    exact iff_of_true (List.Subset.refl _) fun he hrunning hres =>
      absurd ⟨he, hrunning, hres⟩ hreset

/-- In a run of any events, every entry that is stored at one moment is
still stored at each later one, exactly when each reset of the run writes
no award or writes all stored entries again. -/
theorem achievements_grow_iff (s : State) (es : List Event) :
    (∀ fs gs, fs ++ gs <+: es →
        (run s fs).store.user.achievements ⊆ (run s (fs ++ gs)).store.user.achievements) ↔
      Runs.Guarded step KeepsAwards s es := by
  have hsteps : Runs.Guarded step
        (fun s e => s.store.user.achievements ⊆ (step s e).store.user.achievements) s es ↔
      ∀ fs gs, fs ++ gs <+: es →
        (run s fs).store.user.achievements ⊆ (run s (fs ++ gs)).store.user.achievements :=
    Runs.guarded_iff_between (R := fun s s' =>
      s.store.user.achievements ⊆ s'.store.user.achievements)
      (fun _ => List.Subset.refl _) (fun _ _ _ => List.Subset.trans) s es
  rw [← hsteps]
  simp only [achievements_subset_iff]

/-- Two habits are completed on two days in a row.  The award of the second
day takes the place of the first one. -/
theorem second_award_replaces_first :
    let entries := [Entry.sample 1, { Entry.sample 1 with name := ["v"] }]
    let firstDay : List Event :=
      [.fetchFirebaseHabits, .serve 0, .deliver 0, .serve 0, .deliver 0, .serve 0, .deliver 0,
        .didSelectItemAt 0 false, .serve 0, .deliver 0, .nextDay, .viewWillAppear, .deliver 0]
    let secondDay : List Event :=
      [.didSelectItemAt 1 false, .serve 0, .deliver 0, .nextDay, .viewWillAppear]
    let s := run (State.launched (.ofEntries entries)) firstDay
    s.crashed = none ∧ s.store.user.achievements = [["w"] ++ Text.ofAscii " for 10 days"] ∧
      (run s secondDay).store.user.achievements = [["v"] ++ Text.ofAscii " for 10 days"] ∧
      ¬s.store.user.achievements ⊆ (run s secondDay).store.user.achievements := by
  intro entries firstDay secondDay s
  have hfirst : s.store.user.achievements = [["w"] ++ Text.ofAscii " for 10 days"] := by
    decide +kernel
  have hsecond : (run s secondDay).store.user.achievements =
      [["v"] ++ Text.ofAscii " for 10 days"] := by decide +kernel
  refine ⟨by decide, hfirst, hsecond, ?_⟩
  rw [hfirst, hsecond]
  simp

end HabitHive
