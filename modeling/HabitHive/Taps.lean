import HabitHive.Effects

/-!
# Taps on counted habits

A tap on a counted habit counts up, tests the goal on what it has counted,
and completes the habit when the goal is met and the flag is not taken down
yet.  A goal of `0` is met at once, with nothing counted, so a habit with
the goal `g` is completed by tap number `max 1 g`.

`Counts g t h` is what a habit with the goal `g` is after `t` taps.  A
completion issues one read, `inFlight r s` counts those at row `r` whose
callback is still to come, and `returns r s es` those whose callback runs.
`Effects` is what a step of such a run may write: a callback writes the
flag, after the count of finished habits when its read returned a document,
and nothing else writes either of them.
-/

namespace HabitHive

open HabitCollection

/-! ## One habit -/

/-- A habit that was tapped `t` times since the day began. -/
structure Counts (g : Int) (t : Nat) (h : Habit) : Prop where
  counted : h.counted = true
  goal : h.goal = g
  count : h.currentCount = min (t : Int) g
  add : h.addFirebase = true ↔ (t : Int) < max 1 g

/-- A counted habit after a tap with its menu closed. -/
def Habit.tap (h : Habit) : Habit := if h.addFirebase then h.tapped else h

/-- The callbacks of such a tap. -/
def Habit.tapCalls (row : Nat) (h : Habit) : List Callback :=
  if h.addFirebase then tapCallbacks row h else []

namespace Counts

variable {g : Int} {t : Nat} {h : Habit}

theorem start (hcounted : h.counted = true) (hgoal : 0 ≤ h.goal) (hcount : h.currentCount = 0)
    (hadd : h.addFirebase = true) : Counts h.goal 0 h :=
  ⟨hcounted, rfl, by omega, by simp [hadd]⟩

/-- The test of the goal succeeds at the last of the taps that count. -/
theorem completes_iff (h' : Counts g t h) (hlt : (t : Int) < max 1 g) (hgoal : 0 ≤ g) :
    h.completes = true ↔ (t : Int) + 1 = max 1 g := by
  have hcount := h'.count
  have hg := h'.goal
  by_cases hless : h.currentCount < h.goal
  · simp only [Habit.completes, Habit.incremented, if_pos hless, decide_eq_true_eq]
    omega
  · simp only [Habit.completes, Habit.incremented, if_neg hless, decide_eq_true_eq]
    omega

theorem tap (h' : Counts g t h) (hgoal : 0 ≤ g) : Counts g (t + 1) h.tap := by
  have hcount := h'.count
  have hg := h'.goal
  by_cases hlt : (t : Int) < max 1 g
  · have hinc : h.incremented.currentCount = min ((t + 1 : Nat) : Int) g := by
      unfold Habit.incremented
      split <;> push_cast <;> omega
    have hcompletes := h'.completes_iff hlt hgoal
    have hkeep : h.incremented.counted = true ∧ h.incremented.goal = g ∧
        h.incremented.addFirebase = true := by
      unfold Habit.incremented
      split <;> exact ⟨h'.counted, hg, h'.add.mpr hlt⟩
    rw [Habit.tap, if_pos (h'.add.mpr hlt), Habit.tapped]
    split
    · next hdone =>
      refine ⟨hkeep.1, hkeep.2.1, hinc, ?_⟩
      have := hcompletes.mp hdone
      simp only [Bool.false_eq_true, false_iff, not_lt]
      omega
    · next hdone =>
      refine ⟨hkeep.1, hkeep.2.1, hinc, ?_⟩
      rw [hcompletes] at hdone
      simp only [hkeep.2.2, true_iff]
      omega
  · have hadd : h.addFirebase = false := Bool.eq_false_iff.mpr fun hadd => hlt (h'.add.mp hadd)
    rw [Habit.tap, if_neg (by simp [hadd])]
    refine ⟨h'.counted, hg, by omega, ?_⟩
    simp only [hadd, Bool.false_eq_true, false_iff]
    omega

/-- The tap that takes the flag down is the one that issues the callback. -/
theorem length_tapCalls (h' : Counts g t h) (hgoal : 0 ≤ g) (row : Nat) :
    (h.tapCalls row).length = if (t : Int) + 1 = max 1 g then 1 else 0 := by
  by_cases hlt : (t : Int) < max 1 g
  · rw [Habit.tapCalls, if_pos (h'.add.mpr hlt), tapCallbacks,
      if_congr (h'.completes_iff hlt hgoal) rfl rfl]
    split <;> rfl
  · rw [Habit.tapCalls, if_neg fun hadd => hlt (h'.add.mp hadd), if_neg (by omega)]
    rfl

end Counts

/-! ## The effects of a completion -/

/-- The callback of a completion, with the document it is given. -/
structure Return where
  row : Nat
  ident : Nat
  document : Option Store

def Callback.returns (document : Option Store) : Callback → Option Return
  | .finished row ident => some ⟨row, ident, document⟩
  | _ => none

/-- The callback of a completion that a step runs. -/
def State.returned (s : State) : Event → Option Return
  | .deliver i =>
      (s.pending[i]?.filter (·.snapshot.isSome)).bind fun p => p.callback.returns p.snapshot
  | .fail i => s.pending[i]?.bind fun p => p.callback.returns none
  | _ => none

/-- The callback of a completion at a row. -/
def Callback.finishes (r : Nat) : Callback → Bool
  | .finished row _ => row = r
  | _ => false

/-- The reads of completions at row `r` whose callback has not run. -/
def inFlight (r : Nat) (s : State) : Nat :=
  (s.pending.map Pending.callback).countP (·.finishes r)

/-- The callbacks of completions at row `r` that run. -/
def returns (r : Nat) (s : State) (es : List Event) : Nat :=
  (Runs.observe step (fun s e => (s.returned e).toList) s es).countP (·.row = r)

/-- What a step writes.  A callback whose read returned a document counts
one more than the document has and takes the flag down, one whose read
failed only takes the flag down, and every other write is the count of a
tap.  Only a failure leaves a callback without its document. -/
def Effects (s : State) (e : Event) : Prop :=
  ∃ ws, (step s e).journal = s.journal ++ ws ∧
    match s.returned e with
    | some ⟨row, ident, some document⟩ =>
      ws = [.updateUser { finishedHabits := some (document.user.finishedHabits + 1) },
        .updateHabit row { addFirebase := some false } ident]
    | some ⟨row, ident, none⟩ =>
      (∃ i, e = .fail i) ∧ ws = [.updateHabit row { addFirebase := some false } ident]
    | none => ∀ w ∈ ws, ∃ row menu count ident, e = .didSelectItemAt row menu ∧
        w = .updateHabit row { currentCount := some count } ident

/-- The row that a tap or the callback of a completion is about. -/
def State.rowOf (s : State) : Event → Option Nat
  | .didSelectItemAt row _ => some row
  | e => (s.returned e).map Return.row

/-- A step changes neither the habit nor the document of a row that it is
not about. -/
def LeavesOthers (s : State) (e : Event) : Prop :=
  ∀ k, s.rowOf e ≠ some k →
    (step s e).habitArray[k]? = s.habitArray[k]? ∧
      (step s e).store.habits k = s.store.habits k

/-- A tap on a counted habit with its menu closed, or what Firestore does
with the callback of a completion. -/
def Tapping (s : State) : Event → Prop
  | .didSelectItemAt row menu => menu = false ∧ ∃ h ∈ s.habitArray[row]?, h.counted = true
  | .serve _ => True
  | .deliver i | .fail i => ∀ p ∈ s.pending[i]?, p.callback.isFinished = true
  | _ => False

instance (s : State) (e : Event) : Decidable (Tapping s e) := by
  induction e using Event.casesOn <;> unfold Tapping <;> infer_instance

def Event.tapsOn (r : Nat) : Event → Bool
  | .didSelectItemAt row _ => row = r
  | _ => false

/-- The taps on row `r`. -/
def taps (r : Nat) (es : List Event) : Nat := es.countP (·.tapsOn r)

section Step

variable {s : State} {r row : Nat} {h : Habit}

theorem inFlight_issued (cbs : List Callback) {s' : State}
    (hpending : s'.pending = s.pending ++ cbs.map ({ callback := · })) :
    inFlight r s' = inFlight r s + cbs.countP (·.finishes r) := by
  have hmap : (s.pending ++ cbs.map fun cb => ({ callback := cb } : Pending)).map
      Pending.callback = s.pending.map Pending.callback ++ cbs := by
    rw [List.map_append, List.map_map]
    exact congrArg (_ ++ ·) (List.map_id cbs)
  rw [inFlight, inFlight, hpending, hmap, List.countP_append]

/-- A tap on a counted habit, whether it still counts or not. -/
theorem tap_eq (hrow : s.habitArray[row]? = some h) (hcounted : h.counted = true) :
    didSelectItemAt row false s =
      (({ s with palmiIsCool := some s.today }.writeAll
          (if h.addFirebase then tapWrites row h else [])).issueAll (h.tapCalls row)).setRow row
        h.tap := by
  obtain ⟨hlt, hget⟩ := List.getElem?_eq_some_iff.mp hrow
  rcases didSelectItemAt_cases row false s with ⟨hnone, _⟩ | ⟨h', hrow', ⟨hacc, hs⟩ | ⟨hacc, hs⟩⟩
  · rw [hrow] at hnone
    contradiction
  · obtain rfl : h' = h := Option.some.inj (hrow'.symm.trans hrow)
    have hadd : h'.addFirebase = false := by simpa [accepts, hcounted] using hacc
    have hset : s.habitArray.set row h' = s.habitArray := by rw [← hget, List.set_getElem_self]
    rw [hs]
    simp [hadd, Habit.tap, Habit.tapCalls, State.setRow, hset]
  · obtain rfl : h' = h := Option.some.inj (hrow'.symm.trans hrow)
    have hadd : h'.addFirebase = true := by simpa [accepts, hcounted] using hacc
    rw [hs]
    simp [hadd, Habit.tap, Habit.tapCalls]

theorem finishes_tapCalls (h : Habit) :
    (h.tapCalls row).countP (·.finishes r) = if row = r then (h.tapCalls row).length else 0 := by
  unfold Habit.tapCalls tapCallbacks
  split_ifs <;> simp_all [Callback.finishes]

/-- A tap writes the count of its row only. -/
theorem mem_tapWrites {w : Write} (hw : w ∈ tapWrites row h) :
    ∃ count ident, w = .updateHabit row { currentCount := some count } ident := by
  unfold tapWrites at hw
  split at hw
  · exact ⟨_, _, List.mem_singleton.mp hw⟩
  · contradiction

theorem habits_tapWrites (h : Habit) (st : Store) {k : Nat} (hk : k ≠ row) :
    (st.applyAll (tapWrites row h)).habits k = st.habits k := by
  unfold tapWrites
  split
  · exact Function.update_of_ne hk _ _
  · rfl

/-- What a step of the run does to the habit at row `r`, to its completions,
to the journal and to the other rows. -/
structure TapStep (r : Nat) (s : State) (e : Event) : Prop where
  running : (step s e).crashed = none
  row : ∀ h, s.habitArray[r]? = some h → h.counted = true →
    (step s e).habitArray[r]? = some (if e.tapsOn r then h.tap else h) ∧
      inFlight r (step s e) + (s.returned e).toList.countP (·.row = r) =
        inFlight r s + if e.tapsOn r then (h.tapCalls r).length else 0
  effects : Effects s e
  others : LeavesOthers s e

theorem tapStep_tap (hrunning : s.crashed = none) (hrow : s.habitArray[row]? = some h)
    (hcounted : h.counted = true) : TapStep r s (.didSelectItemAt row false) := by
  have hs := (step_of_running (e := .didSelectItemAt row false) hrunning).trans
    (tap_eq hrow hcounted)
  obtain ⟨hlt, _⟩ := List.getElem?_eq_some_iff.mp hrow
  have hcalls := inFlight_issued (s := s) (r := r) (h.tapCalls row) (congrArg State.pending hs)
  rw [finishes_tapCalls] at hcalls
  refine ⟨by rw [hs]; exact hrunning, fun h' hrow' _ => ?_, ?_, fun k hk => ?_⟩
  · change _ ∧ inFlight r _ + 0 = _
    rw [Nat.add_zero, hcalls, hs]
    simp only [Event.tapsOn, decide_eq_true_eq]
    by_cases hr : row = r
    · subst hr
      obtain rfl : h' = h := Option.some.inj (hrow'.symm.trans hrow)
      simp [hlt]
    · rw [if_neg hr, if_neg hr, if_neg hr]
      exact ⟨(List.getElem?_set_ne hr).trans hrow', rfl⟩
  · refine ⟨if h.addFirebase then tapWrites row h else [], congrArg State.journal hs, ?_⟩
    change ∀ w ∈ _, _
    intro w hw
    split at hw
    · obtain ⟨count, ident, rfl⟩ := mem_tapWrites hw
      exact ⟨row, false, count, ident, rfl, rfl⟩
    · contradiction
  · have hk : k ≠ row := fun heq => hk (congrArg some heq.symm)
    rw [hs]
    refine ⟨List.getElem?_set_ne hk.symm, ?_⟩
    change (s.store.applyAll (if h.addFirebase then tapWrites row h else [])).habits k = _
    split
    · exact habits_tapWrites h s.store hk
    · rfl

/-- A step that runs no callback and is no tap changes nothing that the
run is about. -/
theorem tapStep_of_same {e : Event} (hrunning : s.crashed = none)
    (htap : ∀ row menu, e ≠ .didSelectItemAt row menu) (hnone : s.returned e = none)
    (hcrashed : (step s e).crashed = s.crashed) (hlist : (step s e).habitArray = s.habitArray)
    (hcalls : (step s e).pending.map Pending.callback = s.pending.map Pending.callback)
    (hstore : (step s e).store = s.store) (hjournal : (step s e).journal = s.journal) :
    TapStep r s e where
  running := hcrashed.trans hrunning
  row h hrow _ := by
    have hother : e.tapsOn r = false := by
      cases e with
      | didSelectItemAt row menu => exact absurd rfl (htap row menu)
      | _ => rfl
    rw [hlist, inFlight, hcalls, hnone, hother]
    exact ⟨hrow, rfl⟩
  effects := ⟨[], by rw [hjournal, List.append_nil], by rw [hnone]; simp⟩
  others k _ := by rw [hlist, hstore]; exact ⟨rfl, rfl⟩

/-- The callback of a completion. -/
theorem tapStep_return {e : Event} {i ident : Nat} {p : Pending} (document : Option Store)
    (hrunning : s.crashed = none) (htap : ∀ row menu, e ≠ .didSelectItemAt row menu)
    (hreturned : s.returned e = some ⟨row, ident, document⟩) (hp : s.pending[i]? = some p)
    (hcb : p.callback = .finished row ident) (hfail : document = none → ∃ i, e = .fail i)
    (hs : step s e = finishedRead row ident document (s.dropPending i)) : TapStep r s e := by
  rw [finishedRead_eq] at hs
  have hcalls : (s.pending.map Pending.callback).countP (·.finishes r) =
      ((s.dropPending i).pending.map Pending.callback).countP (·.finishes r) +
        if row = r then 1 else 0 := by
    rw [((pending_perm hp).map Pending.callback).countP_eq, List.map_cons, List.countP_cons, hcb]
    simp [Callback.finishes]
  refine ⟨by rw [hs]; exact hrunning, fun h' hrow' _ => ?_, ?_, fun k hk => ?_⟩
  · have hother : e.tapsOn r = false := by
      cases e with
      | didSelectItemAt row menu => exact absurd rfl (htap row menu)
      | _ => rfl
    rw [hs, hreturned, hother]
    refine ⟨hrow', ?_⟩
    change List.countP _ _ + _ = List.countP _ _ + 0
    rw [hcalls]
    simp [List.countP_cons]
  · refine ⟨finishedWrites row ident document, congrArg State.journal hs, ?_⟩
    rw [hreturned]
    cases document with
    | none => exact ⟨hfail rfl, rfl⟩
    | some doc => rfl
  · have hk : k ≠ row := by
      rintro rfl
      refine hk ?_
      cases e with
      | didSelectItemAt row menu => exact absurd rfl (htap row menu)
      | _ => exact congrArg (Option.map Return.row) hreturned
    rw [hs]
    refine ⟨rfl, ?_⟩
    change (s.store.applyAll (finishedWrites row ident document)).habits k = _
    rw [habits_of_finishedWrites]
    exact Function.update_of_ne hk _ _

theorem tapStep {e : Event} (hrunning : s.crashed = none) (he : Tapping s e) : TapStep r s e := by
  have hfinished : ∀ {p : Pending}, p.callback.isFinished = true →
      ∃ row ident, p.callback = .finished row ident := by
    intro p hp
    cases hcb : p.callback <;> simp_all [Callback.isFinished]
  have hstep := step_of_running (e := e) hrunning
  cases e with
  | didSelectItemAt row menu =>
    obtain ⟨rfl, h, hrow, hcounted⟩ := he
    exact tapStep_tap hrunning hrow hcounted
  | serve i =>
    change step s (.serve i) = s.serve i at hstep
    refine tapStep_of_same hrunning (by simp) rfl ?_ ?_ ?_ ?_ ?_ <;> rw [hstep]
    · exact serve_crashed s i
    · exact serve_habitArray s i
    · exact serve_callbacks s i
    · exact serve_store s i
    · exact serve_journal s i
  | deliver i =>
    rcases deliver_cases s i with ⟨hsame, hunserved⟩ | ⟨p, hp, hread, hs⟩
    · -- nothing is in flight under this number, or its read is not served
      have hnone : s.returned (.deliver i) = none := by
        cases hp : s.pending[i]? with
        | none => simp [State.returned, hp]
        | some p => simp [State.returned, hp, hunserved p hp]
      have hsame := hstep.trans hsame
      refine tapStep_of_same hrunning (by simp) hnone ?_ ?_ ?_ ?_ ?_ <;> rw [hsame]
    · obtain ⟨row, ident, hcb⟩ := hfinished (he p hp)
      obtain ⟨st, hst⟩ := hread (by rw [hcb]; rfl)
      refine tapStep_return (some st) hrunning (by simp) ?_ hp hcb (by simp) ?_
      · simp [State.returned, hp, Option.filter, hst, hcb, Callback.returns]
      · rw [hst, hcb] at hs
        exact hstep.trans hs
  | fail i =>
    cases hp : s.pending[i]? with
    | none =>
      have hsame : step s (.fail i) = s := hstep.trans (by simp [handle, State.fail, hp])
      have hnone : s.returned (.fail i) = none := by simp [State.returned, hp]
      refine tapStep_of_same hrunning (by simp) hnone ?_ ?_ ?_ ?_ ?_ <;> rw [hsame]
    | some p =>
      obtain ⟨row, ident, hcb⟩ := hfinished (he p hp)
      refine tapStep_return none hrunning (by simp) ?_ hp hcb (fun _ => ⟨i, rfl⟩) (hstep.trans ?_)
      · simp [State.returned, hp, hcb, Callback.returns]
      · simp [handle, State.fail, hp, hcb, Callback.isRead, Callback.run]
  | _ => exact absurd he id

end Step

/-! ## Runs -/

/-- A run of taps, from a habit that was tapped `t` times before. -/
theorem counts_run {s : State} {es : List Event} {r t : Nat} {g : Int} {h : Habit}
    (hrunning : s.crashed = none) (hgoal : 0 ≤ g) (hrow : s.habitArray[r]? = some h)
    (hcounts : Counts g t h) (htaps : Runs.Guarded step Tapping s es) :
    ∃ h', (run s es).habitArray[r]? = some h' ∧ Counts g (t + taps r es) h' ∧
      inFlight r (run s es) + returns r s es + (if max 1 g ≤ t then 1 else 0) =
        inFlight r s + if max 1 g ≤ (t + taps r es : Nat) then 1 else 0 := by
  induction es generalizing s t h with
  | nil => exact ⟨h, hrow, hcounts, rfl⟩
  | cons e es ih =>
    obtain ⟨he, hes⟩ := htaps
    have hstep := tapStep (r := r) hrunning he
    obtain ⟨hrow', hcalls⟩ := hstep.row h hrow hcounts.counted
    have hlength := hcounts.length_tapCalls hgoal r
    have hreturns : returns r s (e :: es) =
        (s.returned e).toList.countP (·.row = r) + returns r (step s e) es :=
      List.countP_append
    rw [hreturns]
    cases htap : e.tapsOn r
    · rw [htap, if_neg (by simp)] at hrow' hcalls
      obtain ⟨h', hlast, hcounts', hbalance⟩ := ih hstep.running hrow' hcounts hes
      have htaps : taps r (e :: es) = taps r es := by simp [taps, htap]
      rw [htaps]
      refine ⟨h', hlast, hcounts', ?_⟩
      change inFlight r (run (step s e) es) + _ + _ = _
      omega
    · rw [htap, if_pos rfl] at hrow' hcalls
      obtain ⟨h', hlast, hcounts', hbalance⟩ := ih hstep.running hrow' (hcounts.tap hgoal) hes
      have htaps : t + taps r (e :: es) = t + 1 + taps r es := by
        simp only [taps, List.countP_cons, htap, if_true]
        omega
      rw [htaps]
      refine ⟨h', hlast, hcounts', ?_⟩
      rw [hlength] at hcalls
      change inFlight r (run (step s e) es) + _ + _ = _
      split_ifs at hbalance hcalls ⊢ <;> omega

theorem effects_run {s : State} {es : List Event} (hrunning : s.crashed = none)
    (htaps : Runs.Guarded step Tapping s es) :
    Runs.Guarded step (fun s e => Effects s e ∧ LeavesOthers s e) s es := by
  induction es generalizing s with
  | nil => trivial
  | cons e es ih =>
    have hstep := tapStep (r := 0) hrunning htaps.1
    exact ⟨⟨hstep.effects, hstep.others⟩, ih hstep.running htaps.2⟩

/-- A counted habit starts the day with nothing counted and is tapped, with
taps on other counted habits in between.  It counts up to its goal and no
further, and its flag is down from tap `max 1 goal` on.  The read of its
completion was issued once by then and not before: it is in flight or its
callback has run.  A callback writes the count of finished habits and the
flag, once each, and nothing else writes them.  No step touches a row that
it is not about. -/
theorem taps_complete {s : State} {es : List Event} {r : Nat} {h : Habit}
    (hrunning : s.crashed = none) (hrow : s.habitArray[r]? = some h) (hcounted : h.counted = true)
    (hgoal : 0 ≤ h.goal) (hcount : h.currentCount = 0) (hadd : h.addFirebase = true)
    (htaps : Runs.Guarded step Tapping s es) :
    (∃ h', (run s es).habitArray[r]? = some h' ∧
        h'.currentCount = min (taps r es : Int) h.goal ∧
        0 ≤ h'.currentCount ∧ h'.currentCount ≤ h.goal ∧
        (h'.addFirebase = false ↔ max 1 h.goal ≤ taps r es)) ∧
      inFlight r (run s es) + returns r s es =
        inFlight r s + (if max 1 h.goal ≤ taps r es then 1 else 0) ∧
      Runs.Guarded step (fun s e => Effects s e ∧ LeavesOthers s e) s es := by
  obtain ⟨h', hlast, hcounts, hbalance⟩ :=
    counts_run hrunning hgoal hrow (.start hcounted hgoal hcount hadd) htaps
  rw [Nat.zero_add] at hcounts hbalance
  have hmin := hcounts.count
  refine ⟨⟨h', hlast, hmin, by omega, by omega, ?_⟩, ?_, effects_run hrunning htaps⟩
  · rw [← Bool.not_eq_true, hcounts.add, not_lt]
  · rwa [if_neg (by omega), Nat.add_zero] at hbalance

/-- Three taps on a habit with the goal `2`, one on a habit with the goal
`0`, and the callback of the completion comes back. -/
theorem taps_complete_two :
    let s := run (State.launched (.ofEntries [.sample 2, .sample 0]))
      [.fetchFirebaseHabits, .serve 0, .deliver 0, .serve 0, .deliver 0, .serve 0, .deliver 0]
    let es : List Event := [.didSelectItemAt 0 false, .didSelectItemAt 1 false,
      .didSelectItemAt 0 false, .serve 1, .deliver 1, .didSelectItemAt 0 false]
    returns 0 s es = 1 ∧ (∃ h', (run s es).habitArray[0]? = some h' ∧
        h'.currentCount = min (taps 0 es : Int) 2 ∧
        0 ≤ h'.currentCount ∧ h'.currentCount ≤ 2 ∧
        (h'.addFirebase = false ↔ max 1 2 ≤ (taps 0 es : Int))) ∧
      inFlight 0 (run s es) + returns 0 s es =
        inFlight 0 s + (if max 1 2 ≤ (taps 0 es : Int) then 1 else 0) ∧
      Runs.Guarded step (fun s e => Effects s e ∧ LeavesOthers s e) s es :=
  ⟨by decide, taps_complete (h := (Entry.sample 2).toHabit 0 0) (by decide) (by decide)
    (by decide) (by decide) (by decide) (by decide) (by decide)⟩

end HabitHive
