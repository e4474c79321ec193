import HabitHive.Session

/-!
# The daily reset

`viewWillAppear` runs the reset whenever the saved day is not today.  This
module says what one reset does to the list and to the documents, with an
empty list as a case of its own.
-/

namespace HabitHive

open HabitCollection

section Reset

variable {s : State}

/-- The saved day is today. -/
def SavedToday (s : State) : Prop := s.palmiIsCool = some s.today

instance (s : State) : Decidable (SavedToday s) := inferInstanceAs (Decidable (_ = _))

theorem resets_eq_false_iff (s : State) : resets s = false ↔ s.signedIn = false ∨ SavedToday s := by
  rw [resets, Bool.and_eq_false_iff, bne_eq_false_iff_eq, SavedToday]
  exact or_congr_right eq_comm

theorem viewWillAppear_of_not_resets (h : resets s = false) : viewWillAppear s = s := by
  simp [viewWillAppear, h]

/-- The list after a reset, also when it is empty. -/
theorem viewWillAppear_habitArray (h : resets s = true) :
    (viewWillAppear s).habitArray = s.habitArray.map resetHabit := by
  rw [viewWillAppear, if_pos h]
  dsimp only
  split_ifs with hempty
  · rfl
  · rw [not_not] at hempty
    simp only [State.write_habitArray] at hempty ⊢
    rw [hempty]
    rfl

/-- What a reset writes, also when the list is empty. -/
def appearWrites (s : State) : List Write :=
  .updateUser { finishedHabits := some 0 } :: resetWrites 0 [] (s.habitArray.map resetHabit)

theorem viewWillAppear_writes (h : resets s = true) :
    (viewWillAppear s).store = s.store.applyAll (appearWrites s) ∧
      (viewWillAppear s).journal = s.journal ++ appearWrites s := by
  rw [viewWillAppear, if_pos h, appearWrites]
  dsimp only
  split_ifs with hempty
  · simp
  · rw [not_not] at hempty
    simp only [State.write_habitArray] at hempty
    simp [hempty, resetWrites]

/-- An appearance issues no call to Firestore but its writes. -/
theorem viewWillAppear_issued (s : State) : ∃ cbs : List Callback,
    (viewWillAppear s).pending = s.pending ++ cbs.map ({ callback := · }) ∧
      ∀ cb ∈ cbs, cb = .reload := by
  unfold viewWillAppear
  dsimp only
  split_ifs
  · exact ⟨[.reload], rfl, by simp⟩
  all_goals exact ⟨[], by simp, by simp⟩

/-- What an appearance leaves alone. -/
theorem viewWillAppear_device (s : State) :
    (viewWillAppear s).today = s.today ∧ (viewWillAppear s).palmiIsCool = s.palmiIsCool ∧
      (viewWillAppear s).signedIn = s.signedIn ∧ (viewWillAppear s).crashed = s.crashed ∧
      (viewWillAppear s).shownRows = s.shownRows ∧
      (viewWillAppear s).indexPathGlobal = s.indexPathGlobal ∧
      (viewWillAppear s).creating = s.creating ∧ (viewWillAppear s).nextIdent = s.nextIdent := by
  unfold viewWillAppear
  dsimp only
  split_ifs <;> exact ⟨rfl, rfl, rfl, rfl, rfl, rfl, rfl, rfl⟩

end Reset

/-- The second loop updates the document of each row, if it exists, and no
other. -/
theorem applyAll_resetWrites_habits (st : Store) (n : Nat) (names : List Text)
    (hs : List Habit) (k : Nat) :
    (st.applyAll (resetWrites n names hs)).habits k =
      if n ≤ k then
        match hs[k - n]? with
        | some h => (st.habits k).map fun doc =>
            { doc with fields := doc.fields.merge (resetFields h) }
        | none => st.habits k
      else st.habits k := by
  induction hs generalizing st n names with
  | nil => simp [resetWrites]
  | cons h hs ih =>
    -- the write of row `n`, whatever the achievement branch does
    have hstep : ∀ (st' : Store) (names' : List Text),
        st'.habits = (st.apply (resetUpdate n h)).habits →
        (st'.applyAll (resetWrites (n + 1) names' hs)).habits k =
          if n ≤ k then
            match (h :: hs)[k - n]? with
            | some h =>
                (st.habits k).map fun doc => { doc with fields := doc.fields.merge (resetFields h) }
            | none => st.habits k
          else st.habits k := by
      intro st' names' hst
      rw [ih, hst, resetUpdate, Store.apply_updateHabit_habits]
      rcases Nat.lt_trichotomy k n with hlt | rfl | hgt
      · rw [if_neg (by omega), if_neg (by omega), if_neg (by omega)]
      · rw [if_neg (by omega), if_pos rfl, if_pos (Nat.le_refl k), Nat.sub_self]
        rfl
      · have hsub : k - n = (k - (n + 1)) + 1 := by omega
        rw [if_pos (by omega), if_neg (by omega), if_pos (by omega), hsub,
          List.getElem?_cons_succ]
    rw [resetWrites]
    cases achievement h with
    | none => exact hstep _ names rfl
    | some text => exact hstep _ (names ++ [text]) rfl

/-- The documents after a reset. -/
theorem viewWillAppear_habits {s : State} (h : resets s = true) (k : Nat) :
    (viewWillAppear s).store.habits k =
      match s.habitArray[k]? with
      | some habit => (s.store.habits k).map fun doc =>
          { doc with fields := doc.fields.merge (resetFields (resetHabit habit)) }
      | none => s.store.habits k := by
  rw [(viewWillAppear_writes h).1, appearWrites, Store.applyAll_cons, applyAll_resetWrites_habits,
    if_pos (Nat.zero_le k), Nat.sub_zero, List.getElem?_map, Store.apply_updateUser_habits]
  cases s.habitArray[k]? <;> rfl

end HabitHive
