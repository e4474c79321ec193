import HabitHive.Lib.Rmw
import HabitHive.Writes
import Mathlib.Data.List.Dedup

/-!
# The count of finished habits

A tap that completes a habit issues a read of the user document, and the
callback writes the count it read plus one.  A countdown that ends
completes its habit as well, and does not touch the count.

`Counting log s` says that the count, together with the callbacks that are
still to come, accounts for the completions in `log`: the count is a
register of `Rmw`, and each callback in flight is a request on it.
`finished_counts` is the result.
-/

namespace HabitHive

open HabitCollection

/-! ## Completions -/

/-- The habits that an event completes. -/
def completed (s : State) (e : Event) : List Nat :=
  if s.crashed = none then
    match e with
    | .didSelectItemAt row menu =>
      ((s.habitArray[row]?.filter fun h => accepts menu h && h.completes).map Habit.ident).toList
    | .showAlert row => (s.habitArray[row]?.map Habit.ident).toList
    | _ => []
  else []

/-- What a call in flight is to the count: the callback of a completion,
with the count that it has read. -/
def Pending.finishing (p : Pending) : Option (Option Int) :=
  if p.callback.isFinished then some (p.snapshot.map (·.user.finishedHabits)) else none

/-- The callbacks of completions in flight. -/
def finishing (ps : List Pending) : List (Option Int) := ps.filterMap Pending.finishing

/-- The count and the callbacks in flight account for the completions of
`log`, and no habit is in it twice. -/
structure Counting (log : List Nat) (s : State) : Prop where
  clean : Rmw.Clean 0 log.length s.store.user.finishedHabits (finishing s.pending)
  nodup : log.Nodup

/-- The events since the count was set to `0`: no further reset, and no
launch, which would drop the callbacks in flight. -/
def SinceReset (s : State) : Event → Prop
  | .relaunch => False
  | .viewWillAppear => resets s = false
  | _ => True

instance (s : State) (e : Event) : Decidable (SinceReset s e) := by
  induction e using Event.casesOn <;> unfold SinceReset <;> infer_instance

/-- No countdown ends, no tap completes a habit that was completed before,
no read of a completion fails, and each of them returns the count as it
still is when its callback runs. -/
def CountsOnce (x : State × List Nat) : Event → Prop
  | .showAlert row => completed x.1 (.showAlert row) = []
  | .didSelectItemAt row menu => ∀ i ∈ completed x.1 (.didSelectItemAt row menu), i ∉ x.2
  | .fail i => ∀ p ∈ x.1.pending[i]?, p.callback.isFinished = false
  | .deliver i => ∀ p ∈ x.1.pending[i]?, p.callback.isFinished = true →
      ∀ st ∈ p.snapshot, st.user.finishedHabits = x.1.store.user.finishedHabits
  | _ => True

instance (x : State × List Nat) (e : Event) : Decidable (CountsOnce x e) := by
  induction e using Event.casesOn <;> unfold CountsOnce <;> infer_instance

/-! ## Calls in flight -/

theorem finishing_perm {ps qs : List Pending} (h : ps.Perm qs) :
    (finishing ps).Perm (finishing qs) := h.filterMap _

theorem finishing_cons_of_not {p : Pending} (h : p.callback.isFinished = false)
    (ps : List Pending) : finishing (p :: ps) = finishing ps := by
  simp [finishing, Pending.finishing, h]

theorem finishing_cons {p : Pending} (h : p.callback.isFinished = true) (ps : List Pending) :
    finishing (p :: ps) = p.snapshot.map (·.user.finishedHabits) :: finishing ps := by
  simp [finishing, Pending.finishing, h]

/-- Calls that are no completions. -/
theorem finishing_issued {ps : List Pending} {cbs : List Callback}
    (h : ∀ cb ∈ cbs, cb.isFinished = false) :
    finishing (ps ++ cbs.map ({ callback := · })) = finishing ps := by
  have hnone : finishing (cbs.map ({ callback := · })) = [] := by
    rw [finishing, List.filterMap_map, List.filterMap_eq_nil_iff]
    intro cb hcb
    simp [Pending.finishing, h cb hcb]
  rw [finishing, List.filterMap_append]
  exact (congrArg _ hnone).trans (List.append_nil _)

theorem finishing_eq_nil {s : State} (h : s.noFinished = true) : finishing s.pending = [] := by
  rw [finishing, List.filterMap_eq_nil_iff]
  intro p hp
  have hnot := List.all_eq_true.mp h p hp
  simp only [Bool.not_eq_eq_eq_not, Bool.not_true] at hnot
  simp [Pending.finishing, hnot]

/-! ## Steps -/

/-- Writes that do not touch the count. -/
theorem finishedHabits_of_writes {st : Store} {ws : List Write}
    (h : ∀ w ∈ ws, ∀ fields, w = .updateUser fields → fields.finishedHabits = none) :
    (st.applyAll ws).user.finishedHabits = st.user.finishedHabits :=
  Store.user_of_forall UserDoc.finishedHabits fun w hw fields hfields _ => by
    simp [UserDoc.merge, h w hw fields hfields]

/-- Only a reset and the callback of a completion write the count. -/
theorem finishedHabits_step {s : State} {e : Event}
    (hreset : ¬(e = .viewWillAppear ∧ s.crashed = none ∧ resets s = true))
    (hfinished : ∀ p, Delivers s e p → p.callback.isFinished = false) :
    (step s e).store.user.finishedHabits = s.store.user.finishedHabits := by
  obtain ⟨ws, hws, hstore, _⟩ := writesTo_step s e
  rw [hstore]
  refine finishedHabits_of_writes fun w hw fields hfields => ?_
  rcases userFields_of_stepWrites hws (hfields ▸ hw) with h | ⟨_, hnone | ⟨p, hp, hcb⟩⟩
  · exact absurd h hreset
  · exact hnone
  · rw [hfinished p hp] at hcb
    contradiction

namespace Counting

variable {log : List Nat} {s : State}

/-- A step that completes nothing and leaves the count and the callbacks. -/
theorem same {s' : State} (h : Counting log s)
    (hcount : s'.store.user.finishedHabits = s.store.user.finishedHabits)
    (hcalls : (finishing s.pending).Perm (finishing s'.pending)) : Counting log s' where
  clean := hcount ▸ h.clean.perm hcalls
  nodup := h.nodup

theorem serve (h : Counting log s) (i : Nat) : Counting log (s.serve i) := by
  rcases serve_cases s i with hs | ⟨p, hp, _, hsnap, hs⟩
  · rw [hs]
    exact h
  · have hold := finishing_perm (pending_perm hp)
    have hnew := finishing_perm (set_pending_perm hp { p with snapshot := some s.store })
    refine ⟨?_, h.nodup⟩
    rw [serve_store, hs]
    cases hfin : p.callback.isFinished
    · rw [finishing_cons_of_not hfin] at hold
      rw [finishing_cons_of_not (p := { p with snapshot := some s.store }) hfin] at hnew
      exact h.clean.perm (hold.trans hnew.symm)
    · rw [finishing_cons hfin, hsnap] at hold
      rw [finishing_cons (p := { p with snapshot := some s.store }) hfin] at hnew
      exact ((h.clean.perm hold).sample).perm hnew.symm

/-- A callback that is no completion. -/
theorem callback {i : Nat} {p : Pending} (h : Counting log s) (hp : s.pending[i]? = some p)
    (hnot : p.callback.isFinished = false) (document : Option Store)
    (hcount : (p.callback.run document (s.dropPending i)).store.user.finishedHabits =
      s.store.user.finishedHabits) :
    Counting log (p.callback.run document (s.dropPending i)) := by
  obtain ⟨cbs, hpending, hcbs⟩ := issued_of_callback p.callback document (s.dropPending i)
  have hissued : ∀ cb ∈ cbs, cb.isFinished = false := by
    intro cb hcb
    rcases hcbs cb hcb with hrefresh | ⟨_, rfl⟩
    · cases cb <;> first | rfl | contradiction
    · rfl
  refine h.same hcount ?_
  have hcalls := finishing_perm (pending_perm hp)
  rw [finishing_cons_of_not hnot] at hcalls
  rw [hpending, finishing_issued hissued]
  exact hcalls

/-- The callback of a completion that still finds the count it has read. -/
theorem commit {i : Nat} {p : Pending} {st : Store} (h : Counting log s)
    (hp : s.pending[i]? = some p) {row ident : Nat} (hcb : p.callback = .finished row ident)
    (hsnap : p.snapshot = some st)
    (hcurrent : st.user.finishedHabits = s.store.user.finishedHabits) :
    Counting log (finishedRead row ident (some st) (s.dropPending i)) where
  clean := by
    have hcalls := finishing_perm (pending_perm hp)
    rw [finishing_cons (by rw [hcb]; rfl), hsnap, Option.map_some, hcurrent] at hcalls
    have hcommit := (h.clean.perm hcalls).commit
    rw [← hcurrent] at hcommit
    exact hcommit
  nodup := h.nodup

theorem deliver (h : Counting log s) {i : Nat} (hrunning : s.crashed = none)
    (hok : CountsOnce (s, log) (.deliver i)) : Counting log (s.deliver i) := by
  rcases deliver_cases s i with ⟨hs, _⟩ | ⟨p, hp, hread, hs⟩
  · rw [hs]
    exact h
  · cases hfin : p.callback.isFinished
    · have hcount := finishedHabits_step (s := s) (e := .deliver i) (by simp) fun q hq => by
        obtain ⟨j, hj, hij⟩ := hq
        simp only [Event.deliver.injEq, reduceCtorEq, or_false] at hij
        rw [← hij, hp, Option.some.injEq] at hj
        rw [← hj, hfin]
      rw [step_of_running hrunning, HabitHive.handle, hs] at hcount
      rw [hs]
      exact h.callback hp hfin p.snapshot hcount
    · cases hcb : p.callback with
      | finished row ident =>
        obtain ⟨st, hsnap⟩ := hread (by rw [hcb]; rfl)
        rw [hs, hcb, hsnap]
        exact h.commit hp hcb hsnap (hok p hp hfin st hsnap)
      | _ =>
        rw [hcb] at hfin
        contradiction

theorem fail (h : Counting log s) {i : Nat} (hrunning : s.crashed = none)
    (hok : CountsOnce (s, log) (.fail i)) : Counting log (s.fail i) := by
  rcases fail_cases s i with hs | ⟨p, hp, _, hs⟩
  · rw [hs]
    exact h
  · have hfin := hok p hp
    have hcount := finishedHabits_step (s := s) (e := .fail i) (by simp) fun q hq => by
      obtain ⟨j, hj, hij⟩ := hq
      simp only [reduceCtorEq, Event.fail.injEq, false_or] at hij
      rw [← hij, hp, Option.some.injEq] at hj
      rw [← hj, hfin]
    rw [step_of_running hrunning, HabitHive.handle, hs] at hcount
    rw [hs]
    exact h.callback hp hfin none hcount

/-- A tap is a request when it completes the habit. -/
theorem tap (h : Counting log s) {row : Nat} {menu : Bool} (hrunning : s.crashed = none)
    (hok : CountsOnce (s, log) (.didSelectItemAt row menu)) :
    Counting (log ++ completed s (.didSelectItemAt row menu)) (didSelectItemAt row menu s) := by
  have hcount := finishedHabits_step (s := s) (e := .didSelectItemAt row menu) (by simp)
    fun p hp => by obtain ⟨_, _, hev⟩ := hp; simp at hev
  rw [step_of_running hrunning, HabitHive.handle] at hcount
  have hnone : completed s (.didSelectItemAt row menu) = [] →
      (didSelectItemAt row menu s).pending = s.pending →
      Counting (log ++ completed s (.didSelectItemAt row menu)) (didSelectItemAt row menu s) := by
    intro hlog hpending
    rw [hlog, List.append_nil]
    exact h.same hcount (by rw [hpending])
  rcases didSelectItemAt_cases row menu s with ⟨hrow, hs⟩ | ⟨habit, hrow, ⟨hacc, hs⟩ | ⟨hacc, hs⟩⟩
  · exact hnone (by simp [completed, hrunning, hrow]) (by rw [hs]; rfl)
  · exact hnone (by simp [completed, hrunning, hrow, hacc]) (by rw [hs])
  · cases hdone : habit.completes
    · exact hnone (by simp [completed, hrunning, hrow, hacc, hdone])
        (by rw [hs]; simp [tapCallbacks, hdone])
    · have hlog : completed s (.didSelectItemAt row menu) = [habit.ident] := by
        simp [completed, hrunning, hrow, hacc, hdone]
      have hfresh : habit.ident ∉ log := hok habit.ident (by simp [hlog])
      have hpending : (didSelectItemAt row menu s).pending =
          s.pending ++ [{ callback := .finished row habit.ident }] := by
        rw [hs]
        simp [tapCallbacks, hdone]
      have hcalls : (none :: finishing s.pending).Perm
          (finishing (didSelectItemAt row menu s).pending) := by
        have happend : finishing (s.pending ++ [{ callback := .finished row habit.ident }]) =
            finishing s.pending ++ [none] := List.filterMap_append
        rw [hpending, happend]
        exact (List.perm_append_singleton none _).symm
      refine ⟨?_, ?_⟩
      · rw [hcount, hlog, List.length_append]
        exact h.clean.request.perm hcalls
      · rw [hlog]
        rw [List.nodup_append]
        refine ⟨h.nodup, by simp, fun i hi j hj heq => hfresh ?_⟩
        rwa [← List.mem_singleton.mp hj, ← heq]

/-- The other events of the user complete nothing. -/
theorem other {e : Event} (h : Counting log s) (haction : e.isAction = true)
    (htap : ∀ row menu, e ≠ .didSelectItemAt row menu) (hbase : SinceReset s e)
    (hcompleted : completed s e = []) (hrunning : s.crashed = none) :
    Counting (log ++ completed s e) (handle s e) := by
  have hcount := finishedHabits_step (s := s) (e := e)
    (by rintro ⟨rfl, _, hres⟩; simp [SinceReset, hres] at hbase)
    fun p hp => by obtain ⟨_, _, rfl | rfl⟩ := hp <;> contradiction
  rw [step_of_running hrunning] at hcount
  obtain ⟨cbs, hpending, hcbs⟩ := issued_of_event haction s
  have hissued : ∀ cb ∈ cbs, cb.isFinished = false := by
    intro cb hcb
    cases hcbs cb hcb with
    | refresh _ hrefresh => cases cb <;> first | rfl | contradiction
    | tap => exact absurd rfl (htap _ _)
    | _ => rfl
  rw [hcompleted, List.append_nil]
  exact h.same hcount (by rw [hpending, finishing_issued hissued])

theorem step {e : Event} (h : Counting log s) (hbase : SinceReset s e)
    (hok : CountsOnce (s, log) e) : Counting (log ++ completed s e) (HabitHive.step s e) := by
  by_cases hrunning : s.crashed = none
  · rw [step_of_running hrunning]
    cases e with
    | relaunch => contradiction
    | serve i => simpa [completed, hrunning, handle] using h.serve i
    | deliver i => simpa [completed, hrunning, handle] using h.deliver hrunning hok
    | fail i => simpa [completed, hrunning, handle] using h.fail hrunning hok
    | didSelectItemAt row menu => exact h.tap hrunning hok
    | showAlert row => exact h.other rfl (by simp) hbase hok hrunning
    | _ => exact h.other rfl (by simp) hbase (by simp [completed]) hrunning
  · have hstuck : HabitHive.step s e = s := by
      rw [HabitHive.step, if_neg hrunning, if_neg]
      rintro rfl
      exact hbase
    simpa [completed, hrunning, hstuck] using h

end Counting

/-! ## Runs -/

/-- The count was set to `0` with no callback of a completion in flight, and
the run since then meets no further reset and no launch.  If no countdown
ends, no habit is completed a second time, no read of a completion fails
and each returns the count as its callback still finds it, then the count
is the number of distinct habits completed, once all callbacks are
delivered. -/
theorem finished_counts {s : State} {es : List Event} (hzero : s.store.user.finishedHabits = 0)
    (hidle : s.noFinished = true) (hbase : Runs.Guarded step SinceReset s es)
    (hok : Runs.Guarded (Runs.record step completed) CountsOnce (s, []) es)
    (hdone : (run s es).noFinished = true) :
    (run s es).store.user.finishedHabits =
      (Runs.observe step completed s es).dedup.length := by
  have hstart : Counting [] s := by
    refine ⟨⟨?_, ?_⟩, List.nodup_nil⟩ <;> rw [finishing_eq_nil hidle]
    · simp [hzero]
    · simp
  have hboth : Runs.Guarded (Runs.record step completed)
      (fun x e => SinceReset x.1 e ∧ CountsOnce x e) (s, []) es :=
    Runs.Guarded.and ((Runs.guarded_record step completed (s, []) es).mpr hbase) hok
  have hcounting := Runs.run_invariant (I := fun x => Counting x.2 x.1)
    (fun x e hx hok => hx.step hok.1 hok.2) hboth hstart
  rw [Runs.run_record, List.nil_append] at hcounting
  have hcount := hcounting.clean.count
  rw [finishing_eq_nil hdone] at hcount
  rw [hcounting.nodup.dedup]
  simpa using hcount

/-- The countdown of the only habit ends, and the count stays at zero. -/
theorem ended_countdown_not_counted :
    let timed := { Entry.sample 0 with counted := false }
    let s := run (State.launched (.ofEntries [timed]))
      [.fetchFirebaseHabits, .serve 0, .deliver 0, .serve 0, .deliver 0]
    let es : List Event := [.didSelectItemAt 0 false, .showAlert 0]
    s.store.user.finishedHabits = 0 ∧ s.noFinished = true ∧
      Runs.Guarded step SinceReset s es ∧ (run s es).pending.length = 0 ∧
      (run s es).crashed = none ∧ (Runs.observe step completed s es).dedup = [0] ∧
      (run s es).store.user.finishedHabits = 0 := by
  decide

/-- A habit is completed, the list is refreshed before the callback of the
completion has written the flag, and the next tap completes the habit
again. -/
theorem completed_twice_counted_twice :
    let s := run (State.launched (.ofEntries [.sample 1]))
      [.fetchFirebaseHabits, .serve 0, .deliver 0, .serve 0, .deliver 0]
    let es : List Event :=
      [.didSelectItemAt 0 false, .fetchFirebaseHabits, .serve 1, .deliver 1, .serve 1, .deliver 1,
        .serve 0, .deliver 0, .didSelectItemAt 0 false, .serve 0, .deliver 0]
    Runs.Guarded step SinceReset s es ∧ (run s es).pending.length = 0 ∧
      (Runs.observe step completed s es).dedup = [0] ∧
      (run s es).store.user.finishedHabits = 2 := by
  decide

/-- Two habits are completed one after the other. -/
theorem finished_counts_two :
    let s := run (State.launched (.ofEntries [.sample 1, .sample 1]))
      [.fetchFirebaseHabits, .serve 0, .deliver 0, .serve 0, .deliver 0, .serve 0, .deliver 0]
    let es : List Event :=
      [.didSelectItemAt 0 false, .serve 0, .deliver 0, .didSelectItemAt 1 false, .serve 0,
        .deliver 0]
    (run s es).store.user.finishedHabits =
      (Runs.observe step completed s es).dedup.length :=
  finished_counts (by decide) (by decide) (by decide) (by decide) (by decide)

end HabitHive
