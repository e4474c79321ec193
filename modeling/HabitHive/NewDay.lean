import HabitHive.Effects

/-!
# Habits on a new day

A reset reaches the habits that are in the list when the screen appears,
and the first tap marks the day as handled.  So a habit whose document
arrives later keeps the count and the flag of the day before.

A habit can only appear in the list if it was in a document, in the list
or in a call in flight before (`State.Has`), or if it was created in the
meantime; this holds of every event (`later_step`).  Hence an appearance
that finds all older habits in place resets whatever is tapped later that
day, in any run, with deletes, creates, failed reads and relaunches
(`taps_reset`).
-/

namespace HabitHive

open HabitCollection

/-! ## The habits of a state -/

/-- A document of habit `i`, under any number. -/
def Store.Has (i : Nat) (st : Store) : Prop := ∃ k, (st.habits k).map HabitDoc.ident = some i

/-- A call in flight that can bring habit `i` back: a read that was served
from documents with it, or a create that still has to write it. -/
def Pending.Has (i : Nat) (p : Pending) : Prop :=
  (∃ st, p.snapshot = some st ∧ st.Has i) ∨
    ∃ c habit, p.callback = .addHabit c habit ∧ habit.ident = i

/-- Habit `i` is in a document, in the list, or in a call in flight. -/
def State.Has (i : Nat) (s : State) : Prop :=
  s.store.Has i ∨ (∃ h ∈ s.habitArray, h.ident = i) ∨ ∃ p ∈ s.pending, p.Has i

/-- What any run leaves: the clock and the next ident only grow, and a
habit that was not there is one that was created since. -/
structure Later (s s' : State) : Prop where
  today : s.today ≤ s'.today
  nextIdent : s.nextIdent ≤ s'.nextIdent
  has : ∀ i, s'.Has i → s.Has i ∨ s.nextIdent ≤ i ∧ i < s'.nextIdent

section Has

variable {st : Store} {i : Nat}

theorem Store.Has.of_updateUser {fields : UserFields}
    (h : (st.apply (.updateUser fields)).Has i) : st.Has i := h

theorem Store.Has.of_deleteHabit {n : Nat} (h : (st.apply (.deleteHabit n)).Has i) : st.Has i := by
  obtain ⟨k, hk⟩ := h
  rw [apply_deleteHabit_habits] at hk
  split at hk
  · contradiction
  · exact ⟨k, hk⟩

theorem Store.Has.of_setHabit {n : Nat} {doc : HabitDoc}
    (h : (st.apply (.setHabit n doc)).Has i) : doc.ident = i ∨ st.Has i := by
  obtain ⟨k, hk⟩ := h
  rw [apply_setHabit_habits] at hk
  split at hk
  · exact Or.inl (Option.some.inj hk)
  · exact Or.inr ⟨k, hk⟩

theorem Store.Has.of_plain {ws : List Write} (hws : ∀ w ∈ ws, w.isPlain = true)
    (h : (st.applyAll ws).Has i) : st.Has i := by
  obtain ⟨k, hk⟩ := h
  exact ⟨k, by rwa [ident_of_plain hws] at hk⟩

/-- The rewrite of a delete writes the habits of the list. -/
theorem Store.Has.of_setHabits {hs : List Habit}
    (h : (st.applyAll (setHabits 0 (hs.map Habit.toDocument))).Has i) :
    (∃ habit ∈ hs, habit.ident = i) ∨ st.Has i := by
  obtain ⟨k, hk⟩ := h
  rw [applyAll_setHabits] at hk
  dsimp only at hk
  split at hk
  · obtain ⟨doc, hdoc, hident⟩ := Option.map_eq_some_iff.mp hk
    obtain ⟨habit, hmem, rfl⟩ := List.mem_map.mp (List.mem_of_getElem? hdoc)
    exact Or.inl ⟨habit, hmem, hident⟩
  · exact Or.inr ⟨k, hk⟩

/-- A habit that a refresh reads is one of the documents. -/
theorem Store.has_of_readHabit {n : Nat} {habit : Habit} (h : st.readHabit n = some habit) :
    st.Has habit.ident := by
  rw [readHabit, Habit.ofDocument_eq, Option.bind_eq_some_iff] at h
  obtain ⟨doc, hdoc, hentry⟩ := h
  obtain ⟨entry, _, rfl⟩ := Option.map_eq_some_iff.mp hentry
  exact ⟨n, by rw [hdoc]; rfl⟩

theorem State.Has.of_pending {s : State} {p : Pending} (hp : p ∈ s.pending) (h : p.Has i) :
    s.Has i := Or.inr (Or.inr ⟨p, hp, h⟩)

theorem State.Has.of_list {s : State} {h : Habit} (hmem : h ∈ s.habitArray) : s.Has h.ident :=
  Or.inr (Or.inl ⟨h, hmem, rfl⟩)

/-- A new call has no snapshot. -/
theorem Pending.not_has_issued {cb : Callback} (hcb : ∀ c habit, cb ≠ .addHabit c habit) :
    ¬({ callback := cb } : Pending).Has i := by
  rintro (⟨st, hst, _⟩ | ⟨c, habit, hcb', _⟩)
  · simp at hst
  · exact hcb c habit hcb'

end Has

namespace Later

variable {s s' s'' : State}

theorem refl (s : State) : Later s s := ⟨Nat.le_refl _, Nat.le_refl _, fun _ => Or.inl⟩

theorem trans (h : Later s s') (h' : Later s' s'') : Later s s'' where
  today := h.today.trans h'.today
  nextIdent := h.nextIdent.trans h'.nextIdent
  has i hi := by
    have hle := h.nextIdent
    have hle' := h'.nextIdent
    rcases h'.has i hi with hmid | hnew
    · exact (h.has i hmid).imp_right fun hnew => ⟨hnew.1, by omega⟩
    · exact Or.inr ⟨by omega, hnew.2⟩

/-- A step that creates no habit. -/
theorem of_has (htoday : s.today ≤ s'.today) (hnext : s'.nextIdent = s.nextIdent)
    (hstore : ∀ i, s'.store.Has i → s.Has i) (hlist : ∀ h ∈ s'.habitArray, s.Has h.ident)
    (hcalls : ∀ p ∈ s'.pending, ∀ i, p.Has i → s.Has i) : Later s s' where
  today := htoday
  nextIdent := hnext.ge
  has i hi := by
    rcases hi with hi | ⟨h, hmem, rfl⟩ | ⟨p, hp, hi⟩
    · exact Or.inl (hstore i hi)
    · exact Or.inl (hlist h hmem)
    · exact Or.inl (hcalls p hp i hi)

/-- The calls that were in flight, and new ones that are no creates. -/
theorem calls (cbs : List Callback)
    (hpending : s'.pending = s.pending ++ cbs.map ({ callback := · }))
    (hcbs : ∀ cb ∈ cbs, ∀ c habit, cb ≠ .addHabit c habit) :
    ∀ p ∈ s'.pending, ∀ i, p.Has i → s.Has i := by
  intro p hp i hi
  rw [hpending, List.mem_append] at hp
  rcases hp with hp | hp
  · exact .of_pending hp hi
  · obtain ⟨cb, hcb, rfl⟩ := List.mem_map.mp hp
    exact absurd hi (Pending.not_has_issued (hcbs cb hcb))

/-- Plain writes, and values of rows. -/
theorem plain (ws : List Write) (cbs : List Callback) (hws : ∀ w ∈ ws, w.isPlain = true)
    (hstore : s'.store = s.store.applyAll ws)
    (hlist : ∀ h ∈ s'.habitArray, ∃ old ∈ s.habitArray, old.ident = h.ident)
    (hpending : s'.pending = s.pending ++ cbs.map ({ callback := · }))
    (hcbs : ∀ cb ∈ cbs, ∀ c habit, cb ≠ .addHabit c habit)
    (htoday : s.today ≤ s'.today) (hnext : s'.nextIdent = s.nextIdent) : Later s s' := by
  refine of_has htoday hnext (fun i hi => Or.inl ?_) (fun h hmem => ?_) (calls cbs hpending hcbs)
  · rw [hstore] at hi
    exact hi.of_plain hws
  · obtain ⟨old, hold, hident⟩ := hlist h hmem
    exact hident ▸ .of_list hold

/-- A step that leaves the store, the list and the calls. -/
theorem same (hstore : s'.store = s.store) (hlist : s'.habitArray = s.habitArray)
    (hpending : s'.pending = s.pending) (htoday : s.today ≤ s'.today)
    (hnext : s'.nextIdent = s.nextIdent) : Later s s' :=
  plain [] [] (by simp) hstore (fun h hmem => ⟨h, hlist ▸ hmem, rfl⟩) (by simpa using hpending)
    (by simp) htoday hnext

/-- A new value at a row. -/
theorem set_list {hs : List Habit} {row : Nat} {habit habit' : Habit} (hrow : hs[row]? = some habit)
    (hident : habit'.ident = habit.ident) :
    ∀ h ∈ hs.set row habit', ∃ old ∈ hs, old.ident = h.ident := by
  intro h hmem
  rcases List.mem_or_eq_of_mem_set hmem with hmem | rfl
  · exact ⟨h, hmem, rfl⟩
  · exact ⟨habit, List.mem_of_getElem? hrow, hident.symm⟩

end Later

/-! ## Every step -/

theorem Quiet.later {s s' : State} (h : Quiet s s') : Later s s' := by
  obtain ⟨ws, hws, hstore⟩ := h.writes
  obtain ⟨cbs, hpending, hcbs⟩ := h.issued
  refine .plain ws cbs (fun w hw => Write.isPlain_of_isQuiet (hws w hw)) hstore
    (fun habit hmem => ?_)
    hpending (fun cb hcb c habit heq => ?_) h.today h.nextIdent
  · obtain ⟨old, hold, hmark⟩ := h.rows habit hmem
    exact ⟨old, hold, (congrArg Prod.fst hmark).symm⟩
  · have href := hcbs cb hcb
    rw [heq] at href
    contradiction

theorem later_viewWillAppear (s : State) : Later s (viewWillAppear s) := by
  obtain ⟨htoday, _, _, _, _, _, _, hnext⟩ := viewWillAppear_device s
  obtain ⟨⟨ws, hws, hstore, _⟩, _⟩ := mild_viewWillAppear s
  have hlist : ∀ h ∈ (viewWillAppear s).habitArray, ∃ old ∈ s.habitArray, old.ident = h.ident := by
    intro h hmem
    cases hres : resets s
    · rw [viewWillAppear_of_not_resets hres] at hmem
      exact ⟨h, hmem, rfl⟩
    · rw [viewWillAppear_habitArray hres] at hmem
      obtain ⟨old, hold, rfl⟩ := List.mem_map.mp hmem
      exact ⟨old, hold, rfl⟩
  obtain ⟨cbs, hpending, hcbs⟩ := viewWillAppear_issued s
  exact .plain ws cbs hws hstore hlist hpending
    (fun cb hcb => by simp [hcbs cb hcb]) htoday.ge hnext

theorem later_didSelectItemAt (row : Nat) (menu : Bool) (s : State) :
    Later s (didSelectItemAt row menu s) := by
  rcases didSelectItemAt_cases row menu s with ⟨_, hs⟩ | ⟨habit, hrow, ⟨_, hs⟩ | ⟨_, hs⟩⟩ <;>
    rw [hs]
  · exact .same rfl rfl rfl (Nat.le_refl _) rfl
  · exact .same rfl rfl rfl (Nat.le_refl _) rfl
  · refine .plain (tapWrites row habit) (tapCallbacks row habit) ?_ (by simp)
      (Later.set_list hrow (ident_tapped habit)) (by simp) ?_ (Nat.le_refl _) rfl
    · unfold tapWrites
      split <;> simp [Write.isPlain]
    · unfold tapCallbacks
      split <;> simp

theorem later_showAlert (row : Nat) (s : State) : Later s (showAlert row s) := by
  rw [showAlert]
  split
  · exact .same rfl rfl rfl (Nat.le_refl _) rfl
  · next habit hrow =>
    exact .plain [.updateHabit row { addFirebase := some false } habit.ident] []
      (by simp [Write.isPlain]) rfl (Later.set_list hrow rfl) (by simp) (by simp)
        (Nat.le_refl _) rfl

/-- A press of Add Habit creates a habit with the next ident. -/
theorem later_addHabitButtonTapped (c : Nat) (s : State) :
    Later s (CreateHabit.addHabitButtonTapped c s) := by
  rcases addHabitButtonTapped_cases c s with ⟨form, _, _, hs⟩ | ⟨_, hforms⟩
  · rw [hs]
    refine ⟨Nat.le_refl _, Nat.le_succ _, fun i hi => ?_⟩
    rcases hi with hi | hi | ⟨p, hp, hi⟩
    · exact Or.inl (Or.inl hi)
    · exact Or.inl (Or.inr (Or.inl hi))
    · rcases List.mem_append.mp hp with hp | hp
      · exact Or.inl (.of_pending hp hi)
      · rw [List.mem_singleton.mp hp] at hi
        rcases hi with ⟨st, hst, _⟩ | ⟨c', habit, hcb, rfl⟩
        · simp at hst
        · simp only [Callback.addHabit.injEq] at hcb
          rw [← hcb.2]
          exact Or.inr ⟨Nat.le_refl _, Nat.lt_succ_self _⟩
  · exact .same hforms.store hforms.habitArray hforms.pending hforms.today.ge hforms.nextIdent

theorem later_editConfirmed (e : Nat) (s : State) : Later s (EditHabit.editHabit e s) := by
  rcases editConfirmed_cases e s with hscreens | ⟨form, color, row, hs⟩
  · exact hscreens.quiet.later
  · rw [hs]
    exact .plain [.updateHabit row (EditHabit.editedEntry form color).fields form.habit.ident]
      [.fetch] (by simp [Write.isPlain]) rfl (fun h hmem => ⟨h, hmem, rfl⟩) rfl (by simp)
      (Nat.le_refl _) rfl

/-- A press of the delete button. -/
theorem later_deleteHabit (s : State) : Later s (deleteHabit s) := by
  rcases deleteHabit_cases s with ⟨f, _, hs⟩ | ⟨row, hglobal, hrow⟩
  · rw [hs]
    exact .same rfl rfl rfl (Nat.le_refl _) rfl
  · rw [deleteHabit_eq hglobal hrow]
    refine .of_has (Nat.le_refl _) rfl (fun i hi => Or.inl hi.of_deleteHabit) (fun h hmem => ?_)
      (Later.calls [.deleteDone] rfl (by simp))
    exact .of_list (List.mem_of_mem_eraseIdx hmem)

/-- Serving a read takes a snapshot of the documents. -/
theorem later_serve (s : State) (i : Nat) : Later s (s.serve i) := by
  rcases serve_cases s i with hs | ⟨p, hp, _, _, hs⟩ <;> rw [hs]
  · exact .refl s
  · refine .of_has (Nat.le_refl _) rfl (fun _ => Or.inl) (fun h hmem => .of_list hmem) ?_
    intro q hq j hj
    rcases List.mem_or_eq_of_mem_set hq with hq | rfl
    · exact .of_pending hq hj
    · rcases hj with ⟨st, hst, hj⟩ | hj
      · rw [← Option.some.inj hst] at hj
        exact Or.inl hj
      · exact .of_pending (List.mem_of_getElem? hp) (Or.inr hj)

/-- A call that is taken out of flight. -/
theorem later_dropPending (s : State) (i : Nat) : Later s (s.dropPending i) :=
  .of_has (Nat.le_refl _) rfl (fun _ => Or.inl) (fun _ hmem => .of_list hmem)
    fun _ hp _ hi => .of_pending (List.mem_of_mem_eraseIdx hp) hi

theorem later_deleteDone (s : State) : Later s (deleteDone s) := by
  rcases deleteDone_cases s with hs | ⟨row, hglobal⟩
  · rw [hs]
    exact .same rfl rfl rfl (Nat.le_refl _) rfl
  · rw [deleteDone_eq hglobal]
    refine .of_has (Nat.le_refl _) rfl (fun j hj => Or.inl ?_) (fun h hmem => .of_list hmem)
      (Later.calls [.counterDone] rfl (by simp))
    have hj' : (s.store.applyAll _).Has j := hj.of_updateUser
    split at hj'
    · exact hj'
    · exact hj'.of_deleteHabit

theorem later_counterDone (s : State) : Later s (counterDone s) := by
  refine .of_has (Nat.le_refl _) rfl (fun j hj => ?_) (fun h hmem => .of_list hmem)
    (Later.calls [.fetch] rfl (by simp))
  rcases Store.Has.of_setHabits hj.of_updateUser with hlist | hstore
  · exact Or.inr (Or.inl hlist)
  · exact Or.inl hstore

/-- Any callback, with the snapshot its read was served from or without a
document. -/
theorem later_callback {s : State} {i : Nat} {p : Pending} (hp : s.pending[i]? = some p)
    (document : Option Store) (hdoc : ∀ st, document = some st → p.snapshot = some st) :
    Later s (p.callback.run document (s.dropPending i)) := by
  have hmem := List.mem_of_getElem? hp
  have hdrop := later_dropPending s i
  have hlist : ∀ h ∈ (s.dropPending i).habitArray, s.Has h.ident := fun _ hmem => .of_list hmem
  have hcalls : ∀ q ∈ (s.dropPending i).pending, ∀ j, q.Has j → s.Has j := fun _ hq _ hj =>
    .of_pending (List.mem_of_mem_eraseIdx hq) hj
  -- the list takes a habit only from the document that was read
  have href : p.callback.isRefresh = true →
      (∀ h ∈ (p.callback.run document (s.dropPending i)).habitArray, s.Has h.ident) →
      Later s (p.callback.run document (s.dropPending i)) := by
    intro href hlist'
    have hframe := listOnly_of_isRefresh href document (s.dropPending i)
    obtain ⟨cbs, hpending, hfetch⟩ := pending_of_isRefresh href document (s.dropPending i)
    refine .of_has hframe.today.ge hframe.nextIdent
      (fun j hj => Or.inl (hframe.store ▸ hj)) hlist' ?_
    intro q hq j hj
    rw [hpending, List.mem_append] at hq
    rcases hq with hq | hq
    · exact hcalls q hq j hj
    · obtain ⟨cb, hcb, rfl⟩ := List.mem_map.mp hq
      refine absurd hj (Pending.not_has_issued fun c habit heq => ?_)
      rw [heq] at hcb
      exact absurd (hfetch _ hcb) (by simp [Callback.isFetch])
  cases hcb : p.callback with
  | fetchCounter =>
    rw [hcb] at href
    refine href rfl fun h hmem => hlist h ?_
    rwa [Callback.run, fetchCounterRead_habitArray] at hmem
  | fetchHabit n =>
    rw [hcb] at href
    refine href rfl fun h hmem' => ?_
    rcases mem_fetchHabitRead hmem' with hmem' | ⟨st, hst, hread⟩
    · exact hlist h hmem'
    · exact .of_pending hmem (Or.inl ⟨st, hdoc st hst, Store.has_of_readHabit hread⟩)
  | fetch =>
    rw [hcb] at href
    exact href rfl (by simp [Callback.run, fetchFirebaseHabits])
  | reload =>
    rw [hcb] at href
    exact href rfl hlist
  | deleteDone => exact hdrop.trans (later_deleteDone _)
  | counterDone => exact hdrop.trans (later_counterDone _)
  | addHabit c habit =>
    rw [Callback.run, CreateHabit.addHabitRead]
    split
    · exact hdrop
    · next form _ =>
      refine .of_has (Nat.le_refl _) rfl (fun j hj => ?_) hlist ?_
      · rcases hj.of_updateUser.of_setHabit with rfl | hj
        · exact .of_pending hmem (Or.inr ⟨c, habit, hcb, rfl⟩)
        · exact Or.inl hj
      · intro q hq j hj
        rcases List.mem_append.mp hq with hq | hq
        · exact hcalls q hq j hj
        · rw [List.mem_singleton.mp hq] at hj
          exact absurd hj (Pending.not_has_issued (by simp))
  | finished row ident =>
    rw [Callback.run, finishedRead_eq]
    exact hdrop.trans (.plain (finishedWrites row ident document) []
      (finishedWrites_isPlain row ident document) rfl (fun h hmem => ⟨h, hmem, rfl⟩) (by simp)
      (by simp) (Nat.le_refl _) rfl)

/-- Every event. -/
theorem later_step (s : State) (e : Event) : Later s (step s e) := by
  have hrelaunch : Later s s.relaunch :=
    .of_has (Nat.le_refl _) rfl (fun _ => Or.inl) (by simp [State.relaunch])
      (by simp [State.relaunch])
  rw [step]
  split_ifs with hrunning hlaunch
  · cases e with
    | relaunch => exact hrelaunch
    | viewWillAppear => exact later_viewWillAppear s
    | deleteHabit => exact later_deleteHabit s
    | didSelectItemAt row menu => exact later_didSelectItemAt row menu s
    | showAlert row => exact later_showAlert row s
    | addHabitButtonTapped c => exact later_addHabitButtonTapped c s
    | editConfirmed e => exact later_editConfirmed e s
    | serve i => exact later_serve s i
    | deliver i =>
      simp only [handle]
      rcases deliver_cases s i with ⟨hs, _⟩ | ⟨p, hp, _, hs⟩ <;> rw [hs]
      · exact .refl s
      · exact later_callback hp p.snapshot fun _ => id
    | fail i =>
      simp only [handle]
      rcases fail_cases s i with hs | ⟨p, hp, _, hs⟩ <;> rw [hs]
      · exact .refl s
      · exact later_callback hp none (by simp)
    | _ => exact (quiet_of_event rfl s).later
  · exact hrelaunch
  · exact .refl s

/-! ## Days -/

/-- The habits of the documents that the counter reaches. -/
def Store.idents (st : Store) : List Nat := st.reachable.filterMap (Option.map HabitDoc.ident)

/-- The habits that existed before day `d`. -/
def existedBefore (log : List (State × Event)) (d : Nat) : List Nat :=
  (log.filter fun x => x.1.today < d).flatMap fun x => x.1.store.idents

/-- An appearance that runs the reset. -/
def Resets (x : State × Event) : Prop :=
  x.1.crashed = none ∧ x.2 = .viewWillAppear ∧ resets x.1 = true

instance (x : State × Event) : Decidable (Resets x) := by
  unfold Resets
  infer_instance

/-- Habit `i` is in the list, at the number of its document. -/
def State.InPlace (i : Nat) (s : State) : Prop :=
  ∃ n ∈ List.range s.habitArray.length,
    s.habitArray[n]?.map Habit.ident = some i ∧ (s.store.habits n).map HabitDoc.ident = some i

instance (i : Nat) (s : State) : Decidable (s.InPlace i) := by
  unfold State.InPlace
  infer_instance

/-- Count and flag of habit `i` are those of a new day, in the list and in
its document. -/
def State.StartsNew (i : Nat) (s : State) : Prop :=
  ∃ n ∈ List.range s.habitArray.length,
    s.habitArray[n]?.map (fun h => (h.ident, h.currentCount, h.addFirebase)) = some (i, 0, true) ∧
      (s.store.habits n).map (fun doc =>
        (doc.ident, doc.fields.currentCount, doc.fields.addFirebase)) = some (i, some 0, some true)

instance (i : Nat) (s : State) : Decidable (s.StartsNew i) := by
  unfold State.StartsNew
  infer_instance

/-- The reset of day `d` was applied to habit `i`, in its document and at the
row of that.  This is about the habit: a row of it that a read from before the
reset brings afterwards still has the count of the day before. -/
def ResetOn (log : List (State × Event)) (d i : Nat) : Prop :=
  ∃ x ∈ log, x.1.today = d ∧ Resets x ∧ (step x.1 x.2).StartsNew i

instance (log : List (State × Event)) (d i : Nat) : Decidable (ResetOn log d i) := by
  unfold ResetOn
  infer_instance

/-- Some reset of day `d` found all older habits in place, but for those
that no document, list or call has any more. -/
def LoadedOn (log : List (State × Event)) (d : Nat) : Prop :=
  ∃ x ∈ log, x.1.today = d ∧ Resets x ∧
    ∀ i ∈ existedBefore log d, x.1.Has i → x.1.InPlace i

/-- A tap on a habit that existed before today comes after what `Q` says
of the habit and the day. -/
def OldTaps (Q : List (State × Event) → Nat → Nat → Prop) (x : State × List (State × Event)) :
    Event → Prop
  | .didSelectItemAt row _ => x.1.crashed = none → ∀ h ∈ x.1.habitArray[row]?,
      h.ident ∈ existedBefore x.2 x.1.today → Q x.2 x.1.today h.ident
  | _ => True

instance (Q : List (State × Event) → Nat → Nat → Prop) [∀ log d i, Decidable (Q log d i)]
    (x : State × List (State × Event)) (e : Event) : Decidable (OldTaps Q x e) := by
  induction e using Event.casesOn <;> unfold OldTaps <;> infer_instance

/-- The app on an account with the given documents, before it is launched
on some day. -/
def State.account (entries : List Entry) (day : Nat) (saved : Option Nat) : State where
  store := .ofEntries entries
  today := day
  palmiIsCool := saved
  nextIdent := entries.length

/-- A reset reaches the habits that are in place. -/
theorem startsNew_of_inPlace {i : Nat} {s : State} (hres : resets s = true) (h : s.InPlace i) :
    (viewWillAppear s).StartsNew i := by
  obtain ⟨n, hn, hrow, hdoc⟩ := h
  obtain ⟨habit, hhabit, hident⟩ := Option.map_eq_some_iff.mp hrow
  obtain ⟨doc, hstored, hident'⟩ := Option.map_eq_some_iff.mp hdoc
  refine ⟨n, ?_, ?_, ?_⟩
  · rw [viewWillAppear_habitArray hres, List.length_map]
    exact hn
  · rw [viewWillAppear_habitArray hres, List.getElem?_map, hhabit, ← hident]
    rfl
  · rw [viewWillAppear_habits hres, hhabit, hstored]
    simp [resetFields, resetHabit, HabitFields.merge, hident']

/-- The habits of a state have idents that were given out. -/
def State.Fresh (s : State) : Prop := ∀ i, s.Has i → i < s.nextIdent

theorem State.Fresh.later {s s' : State} (h : s.Fresh) (hlater : Later s s') : s'.Fresh := by
  intro i hi
  rcases hlater.has i hi with hold | hnew
  · exact (h i hold).trans_le hlater.nextIdent
  · exact hnew.2

theorem has_of_mem_idents {st : Store} {i : Nat} (h : i ∈ st.idents) : st.Has i := by
  obtain ⟨doc, hdoc, hident⟩ := List.mem_filterMap.mp h
  obtain ⟨k, _, rfl⟩ := List.mem_map.mp hdoc
  exact ⟨k, hident⟩

theorem fresh_account (entries : List Entry) (day : Nat) (saved : Option Nat) :
    (State.account entries day saved).Fresh := by
  rintro i (⟨k, hk⟩ | hi | hi)
  · simp only [State.account, Store.ofEntries, Store.ofFields, Option.map_map] at hk ⊢
    obtain ⟨fields, hfields, hident⟩ := Option.map_eq_some_iff.mp hk
    have hlt := (List.getElem?_eq_some_iff.mp hfields).1
    rw [List.length_map] at hlt
    exact hident ▸ hlt
  · simp [State.account] at hi
  · simp [State.account] at hi

/-- In every run from an account, with any order of callbacks, appearances,
taps and other events: if each tap on an older habit comes after a reset of
that day that found all older habits in place, then the reset of that day
was applied to every older habit before it is tapped. -/
theorem taps_reset (entries : List Entry) (day : Nat) (saved : Option Nat) {es : List Event}
    (h : Runs.Guarded (Runs.record step Runs.steps) (OldTaps fun log d _ => LoadedOn log d)
      (.account entries day saved, []) es) :
    Runs.Guarded (Runs.record step Runs.steps) (OldTaps ResetOn)
      (.account entries day saved, []) es := by
  let I (x : State × List (State × Event)) : Prop :=
    x.1.Fresh ∧ Runs.InOrder (fun s s' => s.Fresh ∧ Later s s') x
  have hI : ∀ x e, I x → I (Runs.record step Runs.steps x e) := by
    rintro x e ⟨hfresh, horder⟩
    have hlater := later_step x.1 e
    exact ⟨hfresh.later hlater, horder.record
      (fun _ _ _ hab hbc => ⟨hab.1, hab.2.trans hbc.2⟩) ⟨hfresh, hlater⟩⟩
  refine h.mono hI (fun x e hx hok => ?_) ⟨fresh_account entries day saved, .nil _⟩
  cases e with
  | didSelectItemAt row menu =>
    intro hrunning habit hhabit hold
    obtain ⟨y, hy, htoday, hres, hloaded⟩ := hok hrunning habit hhabit hold
    refine ⟨y, hy, htoday, hres, ?_⟩
    obtain ⟨hrunning', happear, hresets⟩ := hres
    rw [step_of_running hrunning', happear]
    refine startsNew_of_inPlace hresets (hloaded _ hold ?_)
    -- the habit existed before the day of the reset, so it is no later create
    obtain ⟨z, hz, hident⟩ := List.mem_flatMap.mp hold
    obtain ⟨hz, hbefore⟩ := List.mem_filter.mp hz
    have hbefore : z.1.today < y.1.today := by simpa [htoday] using hbefore
    have hgiven : habit.ident < y.1.nextIdent := by
      rcases hx.2.compare hz hy with rfl | hzy | hyz
      · omega
      · exact (hzy.1 _ (Or.inl (has_of_mem_idents hident))).trans_le hzy.2.nextIdent
      · have := hyz.2.today
        omega
    rcases (hx.2.reached y hy).2.has habit.ident (.of_list (List.mem_of_getElem? hhabit)) with
      hhas | hnew
    · exact hhas
    · omega
  | _ => trivial

/-- The habit is read twice, and the second read comes back after the reset.
The tap on its row goes on with the old count; the habit itself was reset, and
its document does not change. -/
example :
    let s := State.account [{ Entry.sample 3 with currentCount := 2 }] 0 (some 0)
    let es : List Event :=
      [.nextDay, .fetchFirebaseHabits, .fetchFirebaseHabits, .serve 0, .serve 1, .deliver 0,
        .deliver 0, .serve 0, .serve 1, .deliver 0, .viewWillAppear, .deliver 0,
        .didSelectItemAt 1 false]
    Runs.Guarded (Runs.record step Runs.steps) (OldTaps ResetOn) (s, []) es ∧
      (run s es).habitArray.map (fun h => (h.ident, h.currentCount)) = [(0, 0), (0, 3)] ∧
      ((run s es).store.habits 0).map (·.fields.currentCount) = some (some 0) := by
  decide

/-- A cold launch: the screen appears before the document has arrived, so
nothing is reset.  The tap goes on with the count of the day before,
completes the habit and marks the day as handled. -/
theorem tap_after_cold_launch :
    let s := State.account [{ Entry.sample 3 with currentCount := 2 }] 0 (some 0)
    let es : List Event :=
      [.nextDay, .viewDidLoad, .viewWillAppear, .serve 0, .deliver 0, .serve 1, .deliver 1,
        .didSelectItemAt 0 false]
    (run s es).crashed = none ∧
      (run s es).habitArray.map (fun h => (h.currentCount, h.addFirebase)) = [(3, false)] ∧
      resets (run s es) = false ∧
      ¬Runs.Guarded (Runs.record step Runs.steps) (OldTaps ResetOn) (s, []) es := by
  decide

/-- The same account, where the documents arrive before the screen
appears. -/
theorem taps_reset_loaded :
    let s := State.account [{ Entry.sample 3 with currentCount := 2 }] 0 (some 0)
    let es : List Event :=
      [.nextDay, .viewDidLoad, .serve 0, .deliver 0, .serve 1, .deliver 1, .viewWillAppear,
        .didSelectItemAt 0 false]
    Runs.Guarded (Runs.record step Runs.steps) (OldTaps ResetOn) (s, []) es := by
  have hloaded : Runs.Guarded (Runs.record step Runs.steps)
      (OldTaps fun log d _ => ∃ x ∈ log, x.1.today = d ∧ Resets x ∧
        ∀ i ∈ existedBefore log d, x.1.InPlace i)
      (.account [{ Entry.sample 3 with currentCount := 2 }] 0 (some 0), [])
      [.nextDay, .viewDidLoad, .serve 0, .deliver 0, .serve 1, .deliver 1, .viewWillAppear,
        .didSelectItemAt 0 false] := by
    decide
  refine taps_reset _ _ _ (hloaded.mono (I := fun _ => True) (by simp)
    (fun x e _ hok => ?_) trivial)
  cases e with
  | didSelectItemAt row menu =>
    intro hrunning habit hhabit hold
    obtain ⟨y, hy, htoday, hres, hall⟩ := hok hrunning habit hhabit hold
    exact ⟨y, hy, htoday, hres, fun i hi _ => hall i hi⟩
  | _ => trivial

end HabitHive
