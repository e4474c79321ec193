import HabitHive.Model.Accounts
import HabitHive.Origins
import HabitHive.ScreenFaults
import HabitHive.Settle

/-!
# What goes on without the user

After a sign-out the reads, blocks and timers of a screen go on, and this
module says what they can still do.

* `turnover_step` and `reads_step`: which calls an event takes out of
  flight, and which it issues.  The calls that capture a reference are
  issued by the user only.
* `journal_background`: what is written through `currentUser`, and when.
  `Screen.writesNow` reads this off the screen.
* `Passive`: a screen on which only refreshes are under way.  It stays so, and
  writes nothing.
-/

namespace HabitHive

open HabitCollection

theorem Callback.captures_of_isRefresh {cb : Callback} (h : cb.isRefresh = true) (w : Write) :
    cb.captures w = false := by
  cases cb <;> first | rfl | contradiction

/-! ## Calls in flight -/

/-- The calls in flight, in order. -/
def State.callbacks (s : State) : List Callback := s.pending.map Pending.callback

/-- The calls of `s'` are those of `s` without the one that was taken out,
and then new ones.  Only a callback reads documents through `docRef`.  In
the background no call is issued that captures a reference, and `currentUser`
is evaluated to issue one when `fetchFirebaseHabits` is called. -/
def Turnover (background : Bool) (taken : Option (Nat × Callback)) (s s' : State) : Prop :=
  ∃ cbs : List Callback,
    s'.callbacks = (taken.elim s.callbacks fun call => s.callbacks.eraseIdx call.1) ++ cbs ∧
      (taken = none → ∀ cb ∈ cbs, cb.usesDocRef = false) ∧
      (background = true → (∀ cb ∈ cbs, ∀ w, cb.captures w = false) ∧
        cbs.any Callback.takesUser = taken.any fun call => call.2 = .fetch)

namespace Turnover

variable {background : Bool} {s s' : State}

/-- The calls stay. -/
theorem same (h : s'.callbacks = s.callbacks) : Turnover background none s s' :=
  ⟨[], by simpa using h, by simp, by simp⟩

/-- The user starts calls. -/
theorem of_issued (cbs : List Callback)
    (hpending : s'.pending = s.pending ++ cbs.map ({ callback := · }))
    (hcbs : ∀ cb ∈ cbs, cb.usesDocRef = false) : Turnover false none s s' :=
  ⟨cbs, by simp [State.callbacks, hpending, Function.comp_def], fun _ => hcbs, by simp⟩

theorem of_mild (h : Mild s s') : Turnover false none s s' := by
  obtain ⟨cbs, hpending, hcbs⟩ := h.issued
  refine .of_issued cbs hpending fun cb hcb => ?_
  cases cb with
  | fetchHabit n => exact absurd rfl ((hcbs _ hcb).1 n)
  | _ => rfl

theorem crash (s : State) (f : Fault) : Turnover background none s (s.crash f) := .same rfl

theorem trans {t : State} (h : Turnover false none s t) (h' : Turnover false none t s') :
    Turnover false none s s' := by
  obtain ⟨cbs, hcalls, hread, _⟩ := h
  obtain ⟨cbs', hcalls', hread', _⟩ := h'
  refine ⟨cbs ++ cbs', by simp [hcalls', hcalls], fun _ cb hcb => ?_, by simp⟩
  exact (List.mem_append.mp hcb).elim (hread rfl cb) (hread' rfl cb)

end Turnover

/-- Taking a call out of flight runs its callback. -/
theorem taken_cases (s : State) {e : Event} {i : Nat} {cb : Callback}
    (h : s.taken e = some (i, cb)) :
    ∃ p document, s.pending[i]? = some p ∧ p.callback = cb ∧
      handle s e = cb.run document (s.dropPending i) := by
  cases e with
  | deliver j =>
    rw [State.taken, Option.bind_eq_some_iff] at h
    obtain ⟨p, hp, h⟩ := h
    split at h
    · contradiction
    · next hread =>
      obtain ⟨rfl, rfl⟩ := Prod.mk.inj (Option.some.inj h)
      refine ⟨p, p.snapshot, hp, rfl, ?_⟩
      simp only [handle, State.deliver, hp, if_neg hread]
  | fail j =>
    rw [State.taken, Option.bind_eq_some_iff] at h
    obtain ⟨p, hp, h⟩ := h
    split at h
    · next hread =>
      obtain ⟨rfl, rfl⟩ := Prod.mk.inj (Option.some.inj h)
      exact ⟨p, none, hp, rfl, by simp [handle, State.fail, hp, hread]⟩
    · contradiction
  | _ => contradiction

/-- A call that cannot be taken out stays. -/
theorem deliver_of_not_taken {s : State} {i : Nat} (h : s.taken (.deliver i) = none) :
    s.deliver i = s := by
  rcases deliver_cases s i with ⟨hs, _⟩ | ⟨p, hp, hread, hs⟩
  · exact hs
  · rw [State.taken, hp, Option.bind_some] at h
    split at h
    · next hnone =>
      obtain ⟨st, hst⟩ := hread hnone.1
      rw [hst] at hnone
      simp at hnone
    · contradiction

theorem fail_of_not_taken {s : State} {i : Nat} (h : s.taken (.fail i) = none) :
    s.fail i = s := by
  rcases fail_cases s i with hs | ⟨p, hp, hread, hs⟩
  · exact hs
  · simp [State.taken, hp, hread] at h

/-- The events of a session that go on without the user. -/
theorem turnover_handle {e : Event} (he : e ≠ .relaunch) (s : State) :
    Turnover (ScreenEvent.session e).isBackground (s.taken e) s (handle s e) := by
  cases htaken : s.taken e with
  | some call =>
    obtain ⟨i, cb⟩ := call
    obtain ⟨p, document, hp, rfl, hs⟩ := taken_cases s htaken
    obtain ⟨cbs, hpending, hfetch, hcbs⟩ :=
      pending_of_callback p.callback document (s.dropPending i)
    refine ⟨cbs, ?_, by simp, fun _ => ⟨fun cb hcb w => ?_, ?_⟩⟩
    · simp [State.callbacks, hs, hpending, Function.comp_def, List.eraseIdx_map]
    · rcases (hcbs cb hcb).2 with hrefresh | rfl
      · exact Callback.captures_of_isRefresh hrefresh w
      · rfl
    · rw [Bool.eq_iff_iff, List.any_eq_true, Option.any_some, decide_eq_true_iff, ← hfetch]
      refine ⟨fun ⟨cb, hcb, htakes⟩ => ?_, fun hmem => ⟨_, hmem, rfl⟩⟩
      rcases (hcbs cb hcb).2 with hrefresh | rfl
      · cases cb <;> first | exact hcb | contradiction
      · contradiction
  | none =>
    cases e with
    | relaunch => contradiction
    | serve i => exact .same (serve_callbacks s i)
    | deliver i => exact .same (by rw [handle, deliver_of_not_taken htaken])
    | fail i => exact .same (by rw [handle, fail_of_not_taken htaken])
    | deleteHabit =>
      rcases deleteHabit_cases s with ⟨f, _, hs⟩ | ⟨row, hglobal, hrow⟩
      · rw [handle, hs]
        exact .same rfl
      · rw [handle, deleteHabit_eq hglobal hrow]
        exact .of_issued [.deleteDone] rfl (by simp [Callback.usesDocRef])
    | _ => exact .of_mild (mild_of_event rfl s)

namespace Screen

/-- What the user does on a cell starts calls. -/
theorem turnover_cell {s t : State} (h : Covered [] s t) : Turnover false none s t := by
  refine h.invariant (I := Turnover false none s) (fun t f h => h.trans (.crash t f))
    (fun t e he h => h.trans ?_) (.same rfl)
  have hcell : e.onCell = true := he.resolve_right List.not_mem_nil
  by_cases hrunning : t.crashed = none
  · rw [step_of_running hrunning]
    have hturn := turnover_handle (e := e) (by rintro rfl; contradiction) t
    cases e <;> first | exact hturn | contradiction
  · rw [HabitHive.step, if_neg hrunning, if_neg (by rintro rfl; contradiction)]
    exact .same rfl

/-- The calls of a screen over one event. -/
theorem turnover_step {x : Screen} (hrunning : x.session.crashed = none) {e : ScreenEvent}
    (he : e ≠ .session .relaunch) :
    Turnover e.isBackground (x.taken e) x.session (x.step e).session := by
  have hsame : ∀ {t : State} {background}, t = x.session ∨ (∃ f, t = x.session.crash f) →
      Turnover background none x.session t := by
    rintro _ _ (rfl | ⟨f, rfl⟩)
    · exact .same rfl
    · exact .crash _ f
  have hcell := step_covered x e
  rw [Screen.step, if_pos hrunning] at hcell ⊢
  cases e with
  | session e =>
    rw [Screen.handle, sessionEvent, if_neg (by simpa using he)]
    split
    · next hcell =>
      cases e <;> first | exact .same rfl | contradiction
    · rw [step_of_running hrunning]
      exact turnover_handle (by simpa using he) x.session
  | cellForItemAt row c =>
    rw [Screen.handle]
    split
    · exact hsame (cellForItemAt_session_cases x c row)
    · exact .same rfl
  | didEndDisplaying row => exact .same rfl
  | tick id =>
    exact .same (congrArg (List.map Pending.callback) (sameCalls_tick x id).pending)
  | serveTime i =>
    rw [Screen.handle, serveTime]
    split
    · exact .same rfl
    · split <;> exact .same rfl
  | deliverTime i =>
    rw [Screen.handle, deliverTime]
    split
    · exact .same rfl
    · split
      · exact .same rfl
      · rw [leaveGroup_session]
        exact hsame (timeRead_session_cases (x.dropRead i) _ _)
  | failTime i =>
    rw [Screen.handle, failTime]
    split
    · exact .same rfl
    · rw [leaveGroup_session]
      exact .same rfl
  | startTimer i =>
    rw [Screen.handle, runBlock]
    split <;> exact .same rfl
  | handleLongPress row => exact turnover_cell hcell
  | handlePressOnCollectionView => exact turnover_cell hcell
  | deleteHabit c => exact turnover_cell hcell
  | editHabit c => exact turnover_cell hcell
  | didSelectItemAt row c₁ c₂ => exact turnover_cell hcell

/-! ## Time reads -/

/-- The time reads of `x` are still in flight in `y`. -/
def MoreReads (x y : Screen) : Prop := x.reads <+: y.reads

namespace MoreReads

variable {x y z : Screen}

theorem of_eq (h : y.reads = x.reads) : MoreReads x y := ⟨[], by rw [List.append_nil, h]⟩

theorem trans (h : MoreReads x y) (h' : MoreReads y z) : MoreReads x z := List.IsPrefix.trans h h'

theorem configure (x : Screen) (c : Nat) (habit : Habit) : MoreReads x (x.configure c habit) := by
  rcases configure_cases x c habit with ⟨_, h⟩ | ⟨_, _, _, _, h⟩ | ⟨f, h⟩ <;> rw [h]
  · exact .of_eq rfl
  · exact List.prefix_append _ _
  · exact .of_eq rfl

theorem cellForItemAt (x : Screen) (row c : Nat) : MoreReads x (x.cellForItemAt row c) := by
  cases hrow : x.session.habitArray[row]? with
  | none =>
    rw [cellForItemAt_of_none x c row hrow]
    exact .of_eq (by simp [place])
  | some habit =>
    rw [cellForItemAt_of_row x c row hrow]
    exact .trans (.of_eq (by simp [place])) (.configure _ c habit)

theorem completeCounted (x : Screen) (c row : Nat) (habit : Habit) :
    MoreReads x (x.completeCounted c row habit) := by
  unfold Screen.completeCounted
  dsimp only
  split
  · exact .trans (y := { x with session := HabitCollection.completeCounted row habit x.session })
      (.of_eq rfl) (.configure _ c _)
  · exact .of_eq rfl

theorem tapCounted (x : Screen) (d row c₁ c₂ : Nat) (habit : Habit) :
    MoreReads x (x.tapCounted d row c₁ c₂ habit) := by
  have hcomplete : ∀ (y : Screen) (h : Habit),
      MoreReads y ((y.completeCounted d row h).cellForItemAt row c₂) := fun y h =>
    (MoreReads.completeCounted y d row h).trans (.cellForItemAt _ row c₂)
  by_cases hlow : habit.currentCount < habit.goal
  · rw [tapCounted_of_lt x row hlow]
    have hcount : MoreReads x (x.countUp row habit.incremented) := .of_eq rfl
    exact (hcount.trans (.cellForItemAt _ row c₁)).trans (hcomplete _ _)
  · rw [tapCounted_of_not_lt x row hlow]
    exact hcomplete x habit

theorem didSelectItemAt (x : Screen) (row c₁ c₂ : Nat) :
    MoreReads x (x.didSelectItemAt row c₁ c₂) := by
  have hsave : MoreReads x x.saveDay := .of_eq rfl
  rcases didSelectItemAt_cases x row c₁ c₂ with h | h | ⟨d, habit, _, _, h⟩
  · rw [h]
    exact .of_eq rfl
  · rw [h]
    exact .of_eq rfl
  · generalize x.didSelectItemAt row c₁ c₂ = y at h
    cases h with
    | finished => exact hsave
    | menu => exact hsave.trans (.cellForItemAt _ row c₂)
    | start =>
      rw [startCountdown_true]
      exact hsave.trans (List.prefix_append _ _)
    | stop =>
      rw [startCountdown_false]
      exact hsave
    | counted => exact hsave.trans (.tapCounted _ d row c₁ c₂ habit)

end MoreReads

/-- In the background a time is read where `cellForItemAt` lays out a timed
habit that is not finished. -/
def readsTime (x : Screen) : ScreenEvent → Bool
  | .cellForItemAt row c => decide (x.Free row c) &&
      x.session.habitArray[row]?.any fun habit => habit.addFirebase && !habit.counted
  | _ => false

theorem length_configure (x : Screen) (c : Nat) (habit : Habit)
    (hpath : (x.cells c).indexPathCell ≠ none) :
    (x.configure c habit).reads.length =
      x.reads.length + (habit.addFirebase && !habit.counted).toNat := by
  obtain ⟨row, hrow⟩ := Option.ne_none_iff_exists'.mp hpath
  cases hadd : habit.addFirebase <;> cases hcounted : habit.counted
  · simp only [configure, hadd, hcounted, Bool.false_eq_true, if_false]
    split <;> simp
  · simp [configure, hadd, hcounted]
  · simp [configure, Cell.setMenu, hadd, hcounted, hrow]
  · simp [configure, hadd, hcounted]

/-- The time reads over an event in the background. -/
theorem reads_background {x : Screen} (hrunning : x.session.crashed = none) {e : ScreenEvent}
    (he : e.isBackground = true) :
    (x.step e).reads.length =
      ((x.takenTime e).elim x.reads x.reads.eraseIdx).length + (x.readsTime e).toNat := by
  rw [Screen.step, if_pos hrunning]
  cases e with
  | session e =>
    have hreads : (x.handle (.session e)).reads = x.reads := by
      cases e <;> first | rfl | contradiction
    exact congrArg List.length hreads
  | cellForItemAt row c =>
    rw [Screen.handle, readsTime]
    by_cases hfree : x.Free row c
    · rw [if_pos hfree, decide_eq_true hfree, Bool.true_and]
      cases hrow : x.session.habitArray[row]? with
      | none =>
        rw [cellForItemAt_of_none x c row hrow]
        simp [place, takenTime]
      | some habit =>
        rw [cellForItemAt_of_row x c row hrow, length_configure _ _ _ (by simp [laidOut])]
        simp [place, takenTime]
    · rw [if_neg hfree, decide_eq_false hfree]
      rfl
  | didEndDisplaying row => rfl
  | tick id => exact congrArg List.length (sameCalls_tick x id).reads
  | serveTime i =>
    have hnone : x.takenTime (.serveTime i) = none := rfl
    rw [hnone, Option.elim_none, Screen.handle, serveTime]
    split
    · rfl
    · split
      · exact List.length_set ..
      · rfl
  | deliverTime i =>
    rw [Screen.handle, deliverTime, takenTime]
    cases hr : x.reads[i]? with
    | none => rfl
    | some r =>
      cases hsnap : r.snapshot with
      | none => simp [hsnap, readsTime]
      | some st =>
        rcases timeRead_cases (x.dropRead i) r (some st) with ⟨_, h⟩ | ⟨f, h⟩ |
          ⟨_, _, _, _, _, _, h⟩ <;> simp [hsnap, h, readsTime]
  | failTime i =>
    rw [Screen.handle, failTime, takenTime]
    cases hr : x.reads[i]? with
    | none => rfl
    | some r => simp [readsTime]
  | startTimer i =>
    rw [Screen.handle, runBlock]
    split <;> rfl
  | _ => contradiction

/-- The time reads over one event: one is taken out, and new ones come
last. -/
theorem reads_step {x : Screen} (hrunning : x.session.crashed = none) {e : ScreenEvent}
    (he : e ≠ .session .relaunch) :
    ((x.takenTime e).elim x.reads x.reads.eraseIdx).length ≤ (x.step e).reads.length := by
  cases hback : e.isBackground with
  | true =>
    rw [reads_background hrunning hback]
    exact Nat.le_add_right _ _
  | false =>
    have hnone : x.takenTime e = none := by cases e <;> first | rfl | contradiction
    rw [hnone, Option.elim_none, Screen.step, if_pos hrunning]
    refine List.IsPrefix.length_le (?_ : MoreReads x (x.handle e))
    cases e with
    | session e =>
      rw [Screen.handle, sessionEvent, if_neg (by simpa using he)]
      split <;> exact .of_eq rfl
    | handleLongPress row => exact .of_eq (sameCalls_handleLongPress x row).reads
    | handlePressOnCollectionView =>
      exact rel_handlePressOnCollectionView x (fun _ => .of_eq rfl) .trans
        (fun _ _ => .of_eq rfl) fun _ => .of_eq rfl
    | deleteHabit c =>
      rw [Screen.handle, Screen.deleteHabit]
      split
      · dsimp only
        split
        · exact .of_eq rfl
        · split <;> exact .of_eq rfl
      · exact .of_eq rfl
    | editHabit c =>
      rw [Screen.handle, Screen.editHabit]
      split <;> exact .of_eq rfl
    | didSelectItemAt row c₁ c₂ =>
      rw [Screen.handle]
      split
      · exact .didSelectItemAt x row c₁ c₂
      · exact .of_eq rfl
    | _ => contradiction

end Screen

/-! ## Writes -/

/-- The callback issues a write through `currentUser` when it runs. -/
def State.reaches (s : State) : Callback → Bool
  | .deleteDone => s.indexPathGlobal.isSome
  | .addHabit c _ => s.creating[c]?.isSome
  | .counterDone | .finished .. => true
  | .fetchCounter | .fetchHabit _ | .fetch | .reload => false

/-- The write does not go through a reference that the callback has
captured. -/
def Fresh (taken : Option (Nat × Callback)) (w : Write) : Prop :=
  (taken.any fun call => call.2.captures w) = false

/-- `s'` comes from `s` by writes, and one of them is fresh if and only if
`now` holds. -/
def Writes (taken : Option (Nat × Callback)) (now : Bool) (s s' : State) : Prop :=
  ∃ ws, s'.journal = s.journal ++ ws ∧ ((∃ w ∈ ws, Fresh taken w) ↔ now = true)

namespace Writes

variable {taken : Option (Nat × Callback)} {s s' : State}

theorem same (h : s'.journal = s.journal) : Writes taken false s s' :=
  ⟨[], by simpa using h, by simp⟩

theorem of_mem (ws : List Write) (w : Write) (hjournal : s'.journal = s.journal ++ ws)
    (hw : w ∈ ws) (hfresh : Fresh taken w) : Writes taken true s s' :=
  ⟨ws, hjournal, iff_of_true ⟨w, hw, hfresh⟩ rfl⟩

/-- The writes of a callback. -/
theorem callback (i : Nat) (cb : Callback) (document : Option Store) (s : State) :
    Writes (some (i, cb)) (s.reaches cb) s (cb.run document s) := by
  cases hrefresh : cb.isRefresh with
  | true =>
    have hreaches : s.reaches cb = false := by cases cb <;> first | rfl | contradiction
    rw [hreaches]
    exact same (listOnly_of_isRefresh hrefresh document s).journal
  | false =>
    cases cb with
    | deleteDone =>
      cases hglobal : s.indexPathGlobal with
      | none =>
        rw [State.reaches, hglobal]
        exact same (by simp [Callback.run, HabitCollection.deleteDone, hglobal])
      | some row =>
        rw [State.reaches, hglobal]
        let last : List Write :=
          if s.habitArray.length = row then [] else [.deleteHabit s.habitArray.length]
        let counter : Write := .updateUser { habitCounter := some s.habitArray.length }
        refine of_mem (last ++ [counter]) counter ?_ (by simp) rfl
        simp [Callback.run, deleteDone_eq hglobal, last, counter]
    | counterDone =>
      let list := Store.setHabits 0 (s.habitArray.map Habit.toDocument)
      let counter : Write := .updateUser { habitCounter := some s.habitArray.length }
      refine of_mem (list ++ [counter]) counter ?_ (by simp) rfl
      simp [Callback.run, HabitCollection.counterDone, updateFirebaseHabits, list, counter]
    | addHabit c habit =>
      rw [State.reaches]
      cases hform : s.creating[c]? with
      | none => exact same (by simp [Callback.run, CreateHabit.addHabitRead, hform])
      | some form =>
        have hrun : (Callback.addHabit c habit).run document s =
            CreateHabit.addHabitRead c habit document s := rfl
        rw [hrun, CreateHabit.addHabitRead, hform]
        exact of_mem [_, _] _ (List.append_assoc ..) (List.mem_cons_self ..) rfl
    | finished row ident =>
      refine of_mem (finishedWrites row ident document)
        (.updateHabit row { addFirebase := some false } ident) ?_ (by simp [finishedWrites]) rfl
      simp [Callback.run, finishedRead_eq]
    | _ => contradiction

end Writes

namespace Screen

/-- An event issues writes, and its journal says which. -/
theorem journal_step (x : Screen) (e : ScreenEvent) : ∃ ws,
    (x.step e).session.store = x.session.store.applyAll ws ∧
      (x.step e).session.journal = x.session.journal ++ ws := by
  refine (step_covered x e).invariant (I := fun t => ∃ ws,
    t.store = x.session.store.applyAll ws ∧ t.journal = x.session.journal ++ ws)
    (fun t f h => h) (fun t e _ => ?_) ⟨[], by simp, by simp⟩
  rintro ⟨ws, hstore, hjournal⟩
  obtain ⟨vs, hstore', hjournal', _⟩ := (origins_step e (s := t)).writes
  exact ⟨ws ++ vs, by rw [hstore', hstore, Store.applyAll_append],
    by rw [hjournal', hjournal, List.append_assoc]⟩

/-- The countdown of a cell is over, and its alert ends no process. -/
def alerts (x : Screen) (c : Nat) : Bool :=
  (x.cells c).atZero && (x.cells c).habitCell.isSome &&
    (x.cells c).indexPathCell.any fun row => (x.alertFault c row).isNone

/-- In the background the event issues a write through `currentUser`. -/
def writesNow (x : Screen) : ScreenEvent → Bool
  | .session e => (x.session.taken e).any fun call => x.session.reaches call.2
  | .tick id => (x.timers.find? fun t => t.id = id).any fun t => x.alerts t.cell
  | _ => false

theorem writes_showAlert {x : Screen} (hrunning : x.session.crashed = none) {c row : Nat}
    (hpath : (x.cells c).indexPathCell = some row) :
    Writes none ((x.cells c).habitCell.isSome && (x.alertFault c row).isNone) x.session
      (x.showAlert c row).session := by
  cases hrow : x.session.habitArray[row]? with
  | none =>
    have halert : x.alertFault c row = some .indexOutOfRange := by rw [alertFault, hrow]
    rw [halert, Option.isNone_some, Bool.and_false, showAlert, hrow]
    exact .same rfl
  | some habit =>
    cases hcell : (x.cells c).habitCell with
    | none =>
      refine .same ?_
      simp [showAlert, hrow, hcell]
    | some shown =>
      have hlabel := alert_crashed hrunning hrow hcell (by simp [hpath])
      have hsession := configure_session_cases (x.setCell c (alerted habit (x.cells c))) c
        (finished shown)
      rw [showAlert_of_row x c row hrow hcell, ← hlabel]
      rcases hsession with h | ⟨f, h⟩
      · rw [if_pos (by rw [h]; exact hrunning), h]
        have hnone : ((x.setCell c (alerted habit (x.cells c))).session.crashed).isNone = true := by
          rw [setCell_session, hrunning, Option.isNone_none]
        rw [hnone]
        refine .of_mem [.updateHabit row { addFirebase := some false } habit.ident]
          (.updateHabit row { addFirebase := some false } habit.ident) ?_ (by simp) rfl
        simp [HabitCollection.showAlert, hrow]
      · rw [if_neg (by simp [h]), h]
        exact .same rfl

theorem writes_action {x : Screen} (hrunning : x.session.crashed = none) (c : Nat) :
    Writes none (x.alerts c) x.session (x.action c).session := by
  cases hzero : (x.cells c).atZero with
  | false =>
    rw [action_of_pos x c hzero, alerts, hzero]
    exact .same rfl
  | true =>
    cases hpath : (x.cells c).indexPathCell with
    | none =>
      have hnone : x.alerts c = false := by simp [alerts, hpath]
      have haction : x.action c = (x.invalidate (x.cells c).timer.toList).crash .nilUnwrap := by
        simp [action, hzero, hpath]
      rw [hnone, haction]
      exact .same rfl
    | some row =>
      have hsome : x.alerts c =
          ((x.cells c).habitCell.isSome && (x.alertFault c row).isNone) := by
        simp [alerts, hzero, hpath]
      have haction : x.action c = (x.invalidate (x.cells c).timer.toList).showAlert c row := by
        simp [action, hzero, hpath]
      rw [hsome, haction]
      exact writes_showAlert (x := x.invalidate (x.cells c).timer.toList) hrunning hpath

theorem journal_background {x : Screen} (hrunning : x.session.crashed = none) {e : ScreenEvent}
    (he : e.isBackground = true) :
    Writes (x.taken e) (x.writesNow e) x.session (x.step e).session := by
  have hsame : ∀ {t : State} {taken}, t = x.session ∨ (∃ f, t = x.session.crash f) →
      Writes taken false x.session t := by
    rintro _ _ (rfl | ⟨f, rfl⟩) <;> exact .same rfl
  rw [Screen.step, if_pos hrunning]
  cases e with
  | session e =>
    have hhandle : (x.handle (.session e)).session = HabitHive.handle x.session e := by
      cases e with
      | serve i => exact step_of_running hrunning
      | deliver i => exact step_of_running hrunning
      | fail i => exact step_of_running hrunning
      | _ => contradiction
    rw [hhandle, writesNow, taken]
    cases htaken : x.session.taken e with
    | some call =>
      obtain ⟨i, cb⟩ := call
      obtain ⟨p, document, _, rfl, hs⟩ := taken_cases x.session htaken
      rw [hs]
      exact .callback i p.callback document (x.session.dropPending i)
    | none =>
      refine .same ?_
      cases e with
      | serve i => exact serve_journal x.session i
      | deliver i => rw [HabitHive.handle, deliver_of_not_taken htaken]
      | fail i => rw [HabitHive.handle, fail_of_not_taken htaken]
      | _ => contradiction
  | tick id =>
    have htaken : x.taken (.tick id) = none := rfl
    rw [Screen.handle, tick, writesNow, htaken]
    cases x.timers.find? fun t => t.id = id with
    | none => exact .same rfl
    | some t =>
      have haction := writes_action hrunning t.cell
      dsimp only [Option.any_some]
      split <;> exact haction
  | cellForItemAt row c =>
    rw [Screen.handle]
    split
    · exact hsame (cellForItemAt_session_cases x c row)
    · exact .same rfl
  | didEndDisplaying row => exact .same rfl
  | serveTime i =>
    rw [Screen.handle, serveTime]
    split
    · exact .same rfl
    · split <;> exact .same rfl
  | deliverTime i =>
    rw [Screen.handle, deliverTime]
    split
    · exact .same rfl
    · split
      · exact .same rfl
      · rw [leaveGroup_session]
        exact hsame (timeRead_session_cases (x.dropRead i) _ _)
  | failTime i =>
    rw [Screen.handle, failTime]
    split
    · exact .same rfl
    · rw [leaveGroup_session]
      exact .same rfl
  | startTimer i =>
    rw [Screen.handle, runBlock]
    split <;> exact .same rfl
  | _ => contradiction

end Screen

/-! ## Who is signed in -/

namespace Screen

theorem signedIn_step (x : Screen) (e : ScreenEvent) :
    (x.step e).session.signedIn = x.session.signedIn := by
  refine (step_covered x e).invariant (I := fun t => t.signedIn = x.session.signedIn)
    (fun _ _ h => h) (fun t e _ h => ?_) rfl
  rw [← h, HabitHive.step]
  split
  · exact signedIn_handle t e
  · split <;> rfl

/-! ## Refreshes only -/

/-- No delete, create or completion is under way on the screen, and no
countdown. -/
structure Passive (x : Screen) : Prop where
  calls : ∀ p ∈ x.session.pending, p.callback.isRefresh = true
  timers : x.timers = []
  blocks : x.blocks = []
  reads : ∀ r ∈ x.reads, r.start = false

instance (x : Screen) : Decidable x.Passive :=
  decidable_of_iff ((∀ p ∈ x.session.pending, p.callback.isRefresh = true) ∧ x.timers = [] ∧
      x.blocks = [] ∧ ∀ r ∈ x.reads, r.start = false)
    ⟨fun h => ⟨h.1, h.2.1, h.2.2.1, h.2.2.2⟩, fun h => ⟨h.calls, h.timers, h.blocks, h.reads⟩⟩

/-- The time read of a layout is not for a start. -/
theorem start_cellForItemAt (x : Screen) (c row : Nat) :
    ∀ r ∈ (x.cellForItemAt row c).reads, r ∈ x.reads ∨ r.start = false := by
  intro r hr
  cases hrow : x.session.habitArray[row]? with
  | none =>
    rw [cellForItemAt_of_none x c row hrow] at hr
    exact Or.inl (by simpa [place] using hr)
  | some habit =>
    rw [cellForItemAt_of_row x c row hrow] at hr
    rcases configure_cases ((x.place c row).setCell c (laidOut row habit (x.cells c))) c habit with
      ⟨_, h⟩ | ⟨_, _, _, _, h⟩ | ⟨f, h⟩ <;> rw [h] at hr
    · exact Or.inl (by simpa [place] using hr)
    · rcases List.mem_append.mp hr with hr | hr
      · exact Or.inl (by simpa [place] using hr)
      · rw [List.mem_singleton.mp hr]
        exact Or.inr rfl
    · exact Or.inl (by simpa [place] using hr)

namespace Passive

variable {x y : Screen}

/-- The session stays, or the process ends. -/
theorem of_reads (h : x.Passive)
    (hsession : y.session = x.session ∨ ∃ f, y.session = x.session.crash f)
    (htimers : y.timers = x.timers) (hblocks : y.blocks = x.blocks)
    (hreads : ∀ r ∈ y.reads, r ∈ x.reads ∨ r.start = false) :
    y.Passive ∧ ListOnly x.session y.session := by
  refine ⟨⟨?_, htimers.trans h.timers, hblocks.trans h.blocks, fun r hr =>
    (hreads r hr).elim (h.reads r) id⟩, ?_⟩
  · rcases hsession with hs | ⟨f, hs⟩ <;> rw [hs] <;> exact h.calls
  · rcases hsession with hs | ⟨f, hs⟩ <;> rw [hs] <;> constructor <;> rfl

theorem refl (h : x.Passive) : x.Passive ∧ ListOnly x.session x.session :=
  h.of_reads (Or.inl rfl) rfl rfl fun _ => Or.inl

/-- A callback of a refresh. -/
theorem callback (h : x.Passive) {s : State} {i : Nat} {p : Pending}
    (hp : x.session.pending[i]? = some p) (document : Option Store)
    (hs : s = p.callback.run document (x.session.dropPending i)) :
    (∀ q ∈ s.pending, q.callback.isRefresh = true) ∧ ListOnly x.session s := by
  have hrefresh := h.calls p (List.mem_of_getElem? hp)
  obtain ⟨cbs, hpending, hcbs⟩ := pending_of_isRefresh hrefresh document (x.session.dropPending i)
  have hlist := listOnly_of_isRefresh hrefresh document (x.session.dropPending i)
  rw [hs]
  refine ⟨fun q hq => ?_, hlist.store, hlist.journal, hlist.today, hlist.palmiIsCool,
    hlist.sectionColor, hlist.signedIn, hlist.indexPathGlobal, hlist.creating, hlist.editing,
    hlist.nextIdent⟩
  rw [hpending] at hq
  rcases List.mem_append.mp hq with hq | hq
  · exact h.calls q (List.mem_of_mem_eraseIdx hq)
  · obtain ⟨cb, hcb, rfl⟩ := List.mem_map.mp hq
    exact Callback.isRefresh_of_isFetch (hcbs cb hcb)

theorem dropRead (h : x.Passive) (i : Nat) : (x.dropRead i).Passive :=
  ⟨h.calls, h.timers, h.blocks, fun r hr => h.reads r (List.mem_of_mem_eraseIdx hr)⟩

/-- A read that is not for a start comes back, or fails. -/
theorem returned (h : x.Passive) {r : TimeRead} (hstart : r.start = false)
    (document : Option Store) :
    ((x.timeRead r document).leaveGroup r).Passive ∧
      ListOnly x.session ((x.timeRead r document).leaveGroup r).session := by
  have hleave : ∀ y : Screen, y.leaveGroup r = y := fun y => by simp [leaveGroup, hstart]
  rw [hleave]
  rcases timeRead_cases x r document with ⟨_, hy⟩ | ⟨f, hy⟩ | ⟨_, _, _, _, _, _, hy⟩ <;> rw [hy]
  · exact h.refl
  · exact h.of_reads (Or.inr ⟨f, rfl⟩) rfl rfl fun _ => Or.inl
  · exact h.of_reads (Or.inl rfl) rfl rfl fun _ => Or.inl

/-- A passive screen stays passive, and changes nothing but its list. -/
theorem step (h : x.Passive) (hrunning : x.session.crashed = none) {e : ScreenEvent}
    (he : e.isBackground = true) :
    (x.step e).Passive ∧ ListOnly x.session (x.step e).session := by
  rw [Screen.step, if_pos hrunning]
  cases e with
  | session e =>
    have hcalls : (∀ q ∈ (HabitHive.handle x.session e).pending, q.callback.isRefresh = true) ∧
        ListOnly x.session (HabitHive.handle x.session e) := by
      cases htaken : x.session.taken e with
      | some call =>
        obtain ⟨i, cb⟩ := call
        obtain ⟨p, document, hp, _, hs⟩ := taken_cases x.session htaken
        subst cb
        exact h.callback hp document hs
      | none =>
        cases e with
        | serve i =>
          refine ⟨fun q hq => ?_, ?_⟩
          · rcases mem_serve x.session i hq with hq | ⟨_, hq⟩
            · exact h.calls q hq
            · exact h.calls { q with snapshot := none } hq
          · rw [HabitHive.handle]
            rcases serve_cases x.session i with hs | ⟨p, _, _, _, hs⟩ <;> rw [hs] <;>
              constructor <;> rfl
        | deliver i =>
          rw [HabitHive.handle, deliver_of_not_taken htaken]
          exact ⟨h.calls, by constructor <;> rfl⟩
        | fail i =>
          rw [HabitHive.handle, fail_of_not_taken htaken]
          exact ⟨h.calls, by constructor <;> rfl⟩
        | _ => contradiction
    rw [← step_of_running hrunning] at hcalls
    have hsession : x.handle (.session e) = { x with
        session := HabitHive.step x.session e
        shown := if reloadsData x.session e then [] else x.shown } := by
      cases e <;> first | rfl | contradiction
    rw [hsession]
    exact ⟨⟨hcalls.1, h.timers, h.blocks, h.reads⟩, hcalls.2⟩
  | cellForItemAt row c =>
    rw [Screen.handle]
    split
    · refine h.of_reads (cellForItemAt_session_cases x c row) ?_ (cellForItemAt_blocks x c row)
        (start_cellForItemAt x c row)
      rw [cellForItemAt_timers, invalidateAll_timers, h.timers]
      split <;> rfl
    · exact h.refl
  | didEndDisplaying row => exact h.of_reads (Or.inl rfl) rfl rfl fun _ => Or.inl
  | tick id =>
    rw [Screen.handle, tick, h.timers]
    exact h.refl
  | serveTime i =>
    rw [Screen.handle, serveTime]
    split
    · exact h.refl
    · next r hr =>
      split
      · refine h.of_reads (Or.inl rfl) rfl rfl fun r' hr' => ?_
        rcases List.mem_or_eq_of_mem_set hr' with hr' | rfl
        · exact Or.inl hr'
        · exact Or.inr (h.reads r (List.mem_of_getElem? hr))
      · exact h.refl
  | deliverTime i =>
    rw [Screen.handle, deliverTime]
    split
    · exact h.refl
    · next r hr =>
      split
      · exact h.refl
      · exact (h.dropRead i).returned (h.reads r (List.mem_of_getElem? hr)) r.snapshot
  | failTime i =>
    rw [Screen.handle, failTime]
    split
    · exact h.refl
    · next r hr => exact (h.dropRead i).returned (h.reads r (List.mem_of_getElem? hr)) none
  | startTimer i =>
    rw [Screen.handle, runBlock, h.blocks]
    exact h.refl
  | _ => contradiction

end Passive

end Screen

end HabitHive
