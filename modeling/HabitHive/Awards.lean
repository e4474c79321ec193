import HabitHive.Achievements

/-!
# The awards of one reset

The texts name streaks of 10, 25 and 50 days, and the second loop tests the
streak for `1`, `25` and `50`.  So the first award is written nine days
early, and on its day there is none.

`awards` reads back from the writes of a reset which text was appended for
which row, and `AwardsMatch` compares this with the streaks.
`awards_match_iff` says which resets pass.
-/

namespace HabitHive

open HabitCollection

/-! ## What should be awarded -/

/-- The text of an award. -/
def awardText (name : Text) (days : Nat) : Text := name ++ Text.ofAscii s!" for {days} days"

/-- The award of a habit with this streak. -/
def dueAward (h : Habit) : Option Text :=
  if h.streak = 10 then some (awardText h.name 10)
  else if h.streak = 25 then some (awardText h.name 25)
  else if h.streak = 50 then some (awardText h.name 50)
  else none

theorem dueAward_eq_some {h : Habit} {text : Text} :
    dueAward h = some text ↔
      ∃ days ∈ [10, 25, 50], h.streak = (days : Nat) ∧ text = awardText h.name days := by
  simp only [List.mem_cons, List.not_mem_nil, or_false, exists_eq_or_imp, exists_eq_left]
  unfold dueAward
  split_ifs with h10 h25 h50 <;> simp_all [eq_comm]

/-- The text is the one that the streak asks for. -/
theorem achievement_eq_dueAward_iff (h : Habit) :
    achievement h = dueAward h ↔ h.streak ≠ 1 ∧ h.streak ≠ 10 := by
  have h25 : Text.ofAscii " for 25 days" = Text.ofAscii s!" for {25} days" := rfl
  have h50 : Text.ofAscii " for 50 days" = Text.ofAscii s!" for {50} days" := rfl
  unfold achievement dueAward
  by_cases h1 : h.streak = 1
  · simp [h1]
  · by_cases h10 : h.streak = 10
    · simp [h10]
    · simp [h1, h10, awardText, h25, h50]

/-! ## Awards by row -/

/-- The awards of a list, with their rows, from row `n`. -/
def rowAwards (award : Habit → Option Text) : Nat → List Habit → List (Nat × Text)
  | _, [] => []
  | n, h :: hs => ((award h).map (n, ·)).toList ++ rowAwards award (n + 1) hs

theorem le_of_mem_rowAwards {award : Habit → Option Text} {n : Nat} {hs : List Habit}
    {p : Nat × Text} (h : p ∈ rowAwards award n hs) : n ≤ p.1 := by
  induction hs generalizing n with
  | nil => contradiction
  | cons habit hs ih =>
    rcases List.mem_append.mp h with h | h
    · obtain ⟨text, _, rfl⟩ := Option.map_eq_some_iff.mp (Option.mem_toList.mp h)
      exact Nat.le_refl n
    · have := ih h
      omega

/-- The award of the first row. -/
theorem mem_rowAwards_head {award : Habit → Option Text} {n : Nat} {h : Habit} {hs : List Habit}
    {text : Text} : (n, text) ∈ rowAwards award n (h :: hs) ↔ award h = some text := by
  rw [rowAwards, List.mem_append, Option.mem_toList, Option.map_eq_some_iff]
  constructor
  · rintro (⟨text', htext, heq⟩ | h)
    · rwa [← (Prod.mk.inj heq).2]
    · exact absurd (le_of_mem_rowAwards h) (Nat.not_succ_le_self n)
  · exact fun h => Or.inl ⟨text, h, rfl⟩

/-- Two rules give the same awards exactly when they agree on every habit. -/
theorem rowAwards_inj {award award' : Habit → Option Text} {n : Nat} {hs : List Habit} :
    rowAwards award n hs = rowAwards award' n hs ↔ ∀ h ∈ hs, award h = award' h := by
  induction hs generalizing n with
  | nil => simp [rowAwards]
  | cons h hs ih =>
    rw [List.forall_mem_cons, ← ih (n := n + 1)]
    constructor
    · intro heq
      have hhead : award h = award' h := Option.ext fun text => by
        have hsame : (n, text) ∈ rowAwards award n (h :: hs) ↔
            (n, text) ∈ rowAwards award' n (h :: hs) := by rw [heq]
        rwa [mem_rowAwards_head, mem_rowAwards_head] at hsame
      refine ⟨hhead, ?_⟩
      rw [rowAwards, rowAwards, hhead] at heq
      exact List.append_cancel_left heq
    · rintro ⟨hhead, htail⟩
      rw [rowAwards, rowAwards, hhead, htail]

/-! ## What a reset writes -/

/-- The award that a write of `achievements` appends, for the row that was
updated last. -/
def awardOf (row : Option Nat) (fields : UserFields) : Option (Nat × Text) := do
  let n ← row
  let names ← fields.achievements
  let text ← names.getLast?
  return (n, text)

/-- The awards of a list of writes, with their rows. -/
def awards : Option Nat → List Write → List (Nat × Text)
  | _, [] => []
  | _, .updateHabit n _ _ :: ws => awards (some n) ws
  | row, .updateUser fields :: ws => (awardOf row fields).toList ++ awards row ws
  | row, _ :: ws => awards row ws

/-- All names that are written to `achievements`. -/
def achievementNames (ws : List Write) : List Text :=
  ws.flatMap fun
    | .updateUser fields => fields.achievements.getD []
    | _ => []

theorem awards_resetWrites (row : Option Nat) (n : Nat) (names : List Text) (hs : List Habit) :
    awards row (resetWrites n names hs) = rowAwards achievement n hs := by
  induction hs generalizing row n names with
  | nil => rfl
  | cons h hs ih =>
    rw [resetWrites, rowAwards]
    cases achievement h with
    | none => exact ih (some n) (n + 1) names
    | some text =>
      have hlast : awardOf (some n) { achievements := some (names ++ [text]) } =
          some (n, text) := by
        simp [awardOf]
      dsimp only
      rw [resetUpdate, awards, awards, hlast, ih]
      rfl

/-- A name that was collected before is written as soon as there is an
award. -/
theorem mem_achievementNames (n : Nat) (names : List Text) (hs : List Habit) (text : Text) :
    text ∈ achievementNames (resetWrites n names hs) ↔
      text ∈ hs.filterMap achievement ∨ text ∈ names ∧ hs.filterMap achievement ≠ [] := by
  induction hs generalizing n names with
  | nil => simp [achievementNames, resetWrites]
  | cons h hs ih =>
    rw [resetWrites, List.filterMap_cons]
    cases achievement h with
    | none => exact ih (n + 1) names
    | some award =>
      have hwrites : achievementNames (resetUpdate n h ::
          .updateUser { achievements := some (names ++ [award]) } ::
          resetWrites (n + 1) (names ++ [award]) hs) =
          (names ++ [award]) ++ achievementNames (resetWrites (n + 1) (names ++ [award]) hs) := rfl
      dsimp only
      rw [hwrites, List.mem_append, ih]
      simp only [List.mem_append, List.mem_cons]
      tauto

/-! ## The claim of the texts -/

/-- The writes of a step. -/
def written (s : State) (e : Event) : List Write := (step s e).journal.drop s.journal.length

/-- The names that are written to `achievements` are those of the streaks of
10, 25 and 50 days, and each award was written for the row of its habit, in
the order of the list. -/
structure AwardsMatch (hs : List Habit) (ws : List Write) : Prop where
  names : ∀ text, text ∈ achievementNames ws ↔
    ∃ h ∈ hs, ∃ days ∈ [10, 25, 50], h.streak = (days : Nat) ∧ text = awardText h.name days
  rows : awards none ws = rowAwards dueAward 0 hs

theorem written_reset {s : State} (hrunning : s.crashed = none) (h : resets s = true) :
    written s .viewWillAppear =
      .updateUser { finishedHabits := some 0 } ::
        resetWrites 0 [] (step s .viewWillAppear).habitArray := by
  rw [written, step_of_running hrunning, handle, (viewWillAppear_writes h).2,
    List.drop_left, viewWillAppear_habitArray h]
  rfl

/-- The awards of a reset match the streaks after it exactly when no habit
is raised to a streak of `1` or `10`. -/
theorem awards_match_iff {s : State} (hrunning : s.crashed = none) (h : resets s = true) :
    AwardsMatch (step s .viewWillAppear).habitArray (written s .viewWillAppear) ↔
      ∀ habit ∈ s.habitArray, habit.addFirebase = false →
        habit.streak + 1 ≠ 1 ∧ habit.streak + 1 ≠ 10 := by
  have hlist : (step s .viewWillAppear).habitArray = s.habitArray.map resetHabit := by
    rw [step_of_running hrunning, handle, viewWillAppear_habitArray h]
  have hrows : awards none (written s .viewWillAppear) =
      rowAwards achievement 0 (step s .viewWillAppear).habitArray := by
    rw [written_reset hrunning h, awards, awards_resetWrites]
    rfl
  have hnames : ∀ text, text ∈ achievementNames (written s .viewWillAppear) ↔
      text ∈ (step s .viewWillAppear).habitArray.filterMap achievement := by
    intro text
    have hmem := mem_achievementNames 0 [] (step s .viewWillAppear).habitArray text
    rw [written_reset hrunning h]
    simpa [achievementNames] using hmem
  have hagree : (∀ habit ∈ (step s .viewWillAppear).habitArray,
      achievement habit = dueAward habit) ↔
      ∀ habit ∈ s.habitArray, habit.addFirebase = false →
        habit.streak + 1 ≠ 1 ∧ habit.streak + 1 ≠ 10 := by
    rw [hlist, List.forall_mem_map]
    refine forall₂_congr fun habit _ => ?_
    rw [achievement_eq_dueAward_iff, resetHabit]
    cases habit.addFirebase <;> simp
  rw [← hagree, ← rowAwards_inj (n := 0), ← hrows]
  refine ⟨AwardsMatch.rows, fun hmatch => ⟨fun text => ?_, hmatch⟩⟩
  rw [hrows, rowAwards_inj] at hmatch
  rw [hnames, List.filterMap_congr hmatch, List.mem_filterMap]
  exact exists_congr fun habit => and_congr_right fun _ => dueAward_eq_some

/-- A habit that is completed for the first time, on the next day. -/
theorem first_day_awarded :
    let s := run (State.launched (.ofEntries [Entry.sample 1]))
      [.fetchFirebaseHabits, .serve 0, .deliver 0, .serve 0, .deliver 0, .didSelectItemAt 0 false,
        .serve 0, .deliver 0, .nextDay]
    s.crashed = none ∧ resets s = true ∧
      (step s .viewWillAppear).habitArray.map Habit.streak = [1] ∧
      awards none (written s .viewWillAppear) = [(0, awardText ["w"] 10)] ∧
      ¬AwardsMatch (step s .viewWillAppear).habitArray (written s .viewWillAppear) := by
  refine ⟨by decide, by decide, by decide, by decide +kernel, fun h => ?_⟩
  exact absurd h.rows (by decide +kernel)

/-- Two habits reach a threshold, and a third one is missed. -/
theorem awards_match_iff_two :
    let habit : Habit := (Entry.sample 1).toHabit 0 0
    let s : State := { State.launched .signUp with
      habitArray := [{ habit with addFirebase := false, streak := 24 }, { habit with streak := 9 },
        { habit with addFirebase := false, streak := 49 }] }
    AwardsMatch (step s .viewWillAppear).habitArray (written s .viewWillAppear) ↔
      ∀ habit ∈ s.habitArray, habit.addFirebase = false →
        habit.streak + 1 ≠ 1 ∧ habit.streak + 1 ≠ 10 :=
  awards_match_iff (by decide) (by decide)

end HabitHive
