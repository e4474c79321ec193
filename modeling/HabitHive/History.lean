import HabitHive.Effects

/-!
# The history of a run

The history of a run is the list of its resets and completions.  The streak
that a habit should have counts the days in it (`streakOn`), and `Right`
says that a flag and a streak are those of the history.

Only a reset on the day after the last one makes a right streak of a right
flag and streak, or one of a habit that is not completed
(`Right.reset_iff`): the flag does not say on which day it was set.
-/

namespace HabitHive

open HabitCollection

/-! ## Consecutive days -/

/-- The number of consecutive days up to `d - 1` on which `p` holds. -/
def consecutive (p : Nat → Bool) : Nat → Nat
  | 0 => 0
  | d + 1 => if p d then consecutive p d + 1 else 0

theorem consecutive_congr {p q : Nat → Bool} {d : Nat} (h : ∀ k < d, p k = q k) :
    consecutive p d = consecutive q d := by
  induction d with
  | zero => rfl
  | succ d ih =>
    rw [consecutive, consecutive, h d (Nat.lt_succ_self d), ih fun k hk => h k (by omega)]

theorem consecutive_eq_zero {p : Nat → Bool} {d : Nat} (h : ∀ k, k + 1 = d → p k = false) :
    consecutive p d = 0 := by
  cases d with
  | zero => rfl
  | succ d => rw [consecutive, h d rfl, if_neg (by simp)]

/-! ## The history -/

/-- A reset on a day, or a completion of a habit on a day. -/
inductive DayEntry where
  | reset (day : Nat)
  | completed (n day : Nat)
  deriving DecidableEq, Repr

def DayEntry.resetDay : DayEntry → Option Nat
  | .reset day => some day
  | .completed .. => none

/-- The resets and completions of a step: `addFirebase` is set to `false`
by a tap that completes the habit and at the end of a countdown. -/
def dayEntries (s : State) : Event → List DayEntry
  | .viewWillAppear => if s.crashed = none ∧ resets s = true then [.reset s.today] else []
  | .didSelectItemAt row menu =>
    match s.habitArray[row]? with
    | some h =>
      if s.crashed = none ∧ accepts menu h = true ∧ h.completes = true then
        [.completed h.habitNumber s.today] else []
    | none => []
  | .showAlert row =>
    match s.habitArray[row]? with
    | some h => if s.crashed = none then [.completed h.habitNumber s.today] else []
    | none => []
  | _ => []

/-- The day of the last reset. -/
def lastReset (log : List DayEntry) : Option Nat := (log.filterMap DayEntry.resetDay).getLast?

/-- Habit `n` was completed on day `d`. -/
def completedOn (log : List DayEntry) (n d : Nat) : Bool := log.contains (.completed n d)

/-- The number of consecutive days up to `d - 1` on which habit `n` was
completed. -/
def streakOn (log : List DayEntry) (n d : Nat) : Nat := consecutive (completedOn log n) d

section History

variable (log : List DayEntry) (n d : Nat)

@[simp] theorem lastReset_reset : lastReset (log ++ [.reset d]) = some d := by
  simp [lastReset, DayEntry.resetDay]

@[simp] theorem lastReset_completed : lastReset (log ++ [.completed n d]) = lastReset log := by
  simp [lastReset, DayEntry.resetDay]

@[simp] theorem completedOn_reset (d' : Nat) :
    completedOn (log ++ [.reset d']) n d = completedOn log n d := by
  simp [completedOn, List.contains_eq_mem]

theorem completedOn_completed (n' d' : Nat) :
    completedOn (log ++ [.completed n' d']) n d =
      (completedOn log n d || (n = n' && d = d')) := by
  simp [completedOn, List.contains_eq_mem]

@[simp] theorem streakOn_reset (d' : Nat) : streakOn (log ++ [.reset d']) n d = streakOn log n d :=
  consecutive_congr fun _ _ => completedOn_reset log n _ d'

/-- A completion counts for the days after it. -/
theorem streakOn_completed (n' : Nat) :
    streakOn (log ++ [.completed n' d]) n d = streakOn log n d :=
  consecutive_congr fun k hk => by
    rw [completedOn_completed]
    simp [Nat.ne_of_lt hk]

end History

/-! ## Flags and streaks -/

/-- The flag says whether habit `n` was completed on the day of the last
reset, and the streak counts the days before that. -/
structure Right (log : List DayEntry) (n : Nat) (flag : Bool) (streak : Int) : Prop where
  streak : streak = streakOn log n ((lastReset log).getD 0)
  flag : flag = false ↔ completedOn log n ((lastReset log).getD 0) = true

namespace Right

variable {log : List DayEntry} {n : Nat} {flag : Bool} {streak : Int}

/-- What a reset on day `d` makes of a right flag and streak is the number
of consecutive days up to `d - 1`, unless a completed habit was skipped. -/
theorem reset_iff {d : Nat} (h : Right log n flag streak)
    (hpast : ∀ k, completedOn log n k = true → ∃ day, lastReset log = some day ∧ k ≤ day)
    (hlast : ∀ day, lastReset log = some day → day < d) :
    (if flag then 0 else streak + 1) = (streakOn log n d : Int) ↔
      (∃ day ∈ lastReset log, day + 1 = d) ∨ flag = true := by
  -- only the day of the last reset can be a completed yesterday
  have hyesterday : ∀ k, k + 1 = d → completedOn log n k = true → lastReset log = some k := by
    intro k hk hdone
    obtain ⟨day, hday, hle⟩ := hpast k hdone
    have := hlast day hday
    rw [hday, show day = k by omega]
  cases hflag : flag
  · obtain ⟨day, hday, _⟩ := hpast _ (h.flag.mp hflag)
    have hdone := h.flag.mp hflag
    have hstreak := h.streak
    simp only [hday, Option.getD_some] at hdone hstreak
    simp only [Bool.false_eq_true, if_false, or_false, hday, Option.mem_def, Option.some.injEq,
      exists_eq_left']
    constructor
    · intro heq
      by_contra hne
      have hzero : streakOn log n d = 0 := by
        refine consecutive_eq_zero fun k hk => ?_
        by_contra hdone'
        have hk' := hyesterday k hk (by simpa using hdone')
        rw [hday, Option.some.injEq] at hk'
        omega
      omega
    · rintro rfl
      rw [streakOn, consecutive, hdone, if_pos rfl, hstreak]
      rfl
  · simp only [if_true, or_true, iff_true]
    have hzero : streakOn log n d = 0 := by
      refine consecutive_eq_zero fun k hk => ?_
      by_contra hdone
      have hday := hyesterday k hk (by simpa using hdone)
      have hfalse := h.flag.mpr (by simpa [hday] using hdone)
      rw [hflag] at hfalse
      contradiction
    omega

/-- A habit after the reset of day `d`. -/
theorem reset {d : Nat} (hstreak : streak = streakOn log n d) (hnew : completedOn log n d = false) :
    Right (log ++ [.reset d]) n true streak := by
  constructor
  · simpa using hstreak
  · simp [hnew]

/-- A completion on the day of the last reset. -/
theorem completed {d m : Nat} (hday : lastReset log = some d) (h : Right log n flag streak) :
    Right (log ++ [.completed m d]) n (flag && n ≠ m) streak := by
  constructor
  · rw [lastReset_completed, hday, Option.getD_some, streakOn_completed]
    simpa [hday] using h.streak
  · have hflag := h.flag
    simp only [hday, Option.getD_some] at hflag
    rw [lastReset_completed, hday, Option.getD_some, completedOn_completed,
      Bool.or_eq_true, ← hflag]
    by_cases hn : n = m <;> simp [hn]

theorem completed_ne {d m : Nat} (hday : lastReset log = some d) (hn : n ≠ m)
    (h : Right log n flag streak) : Right (log ++ [.completed m d]) n flag streak := by
  simpa [hn] using h.completed (m := m) hday

/-- The habit that is completed. -/
theorem completed_self {d : Nat} (hday : lastReset log = some d) (h : Right log n flag streak) :
    Right (log ++ [.completed n d]) n false streak := by
  simpa using h.completed (m := n) hday

/-- A habit that is in no completion. -/
theorem fresh (hnew : ∀ d, completedOn log n d = false) : Right log n true 0 where
  streak := by
    rw [streakOn, consecutive_eq_zero fun k _ => hnew k]
    rfl
  flag := by simp [hnew]

end Right

end HabitHive
