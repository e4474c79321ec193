import HabitHive.Writes

/-!
# Repeated appearances

The reset sets a streak from the flag `addFirebase`, which it then sets to
`true`, and does not save the day.  So a second appearance before the first
tap of the day takes each habit for one that was missed, and its streak is
`0`.  Habits that the first appearance has not found in the list, because
their read was still under way, are reset by a later one.

`reset_idempotent_iff` says when that makes no difference: when the first
appearance leaves every habit, in the list, in the documents and in the
reads under way, as a reset leaves a habit that was missed.
-/

namespace HabitHive

open HabitCollection

/-! ## The values of a reset -/

/-- The three values that a reset is about. -/
def Habit.resetValues (h : Habit) : Int × Int × Bool := (h.streak, h.currentCount, h.addFirebase)

def HabitDoc.resetValues (doc : HabitDoc) : Option Int × Option Int × Option Bool :=
  (doc.fields.streak, doc.fields.currentCount, doc.fields.addFirebase)

/-- The three values of every document. -/
def Store.resetValues (st : Store) (k : Nat) : Option (Option Int × Option Int × Option Bool) :=
  (st.habits k).map HabitDoc.resetValues

/-- The three values of every habit, in the list and in its document. -/
def State.resetValues (s : State) :
    List (Int × Int × Bool) × (Nat → Option (Option Int × Option Int × Option Bool)) :=
  (s.habitArray.map Habit.resetValues, s.store.resetValues)

@[simp] theorem resetHabit_resetValues (h : Habit) :
    (resetHabit h).resetValues = (if h.addFirebase then 0 else h.streak + 1, 0, true) := rfl

/-- The documents after a reset carry the values of the rows. -/
theorem resetValues_viewWillAppear {s : State} (h : resets s = true) :
    (viewWillAppear s).resetValues =
      ((s.habitArray.map resetHabit).map Habit.resetValues, fun k =>
        match s.habitArray[k]? with
        | some habit =>
            (s.store.habits k).map fun _ => (some (resetHabit habit).streak, some 0, some true)
        | none => s.store.resetValues k) := by
  rw [State.resetValues, viewWillAppear_habitArray h]
  congr 1
  funext k
  rw [Store.resetValues, viewWillAppear_habits h]
  cases s.habitArray[k]? with
  | none => rfl
  | some habit =>
    rw [Option.map_map]
    rfl

/-- A habit that a reset leaves as it is. -/
def Habit.Missed (h : Habit) : Prop := h.resetValues = (0, 0, true)

def HabitDoc.Missed (doc : HabitDoc) : Prop := doc.resetValues = (some 0, some 0, some true)

theorem missed_resetHabit_iff (h : Habit) :
    (resetHabit h).Missed ↔ h.addFirebase = true ∨ h.streak = -1 := by
  cases hflag : h.addFirebase
  · simp only [Habit.Missed, resetHabit_resetValues, hflag, Prod.mk.injEq, and_true]
    simp only [Bool.false_eq_true, if_false, false_or]
    omega
  · simp [Habit.Missed, hflag]

/-- Only what a reset leaves of a habit that was missed stays as it is. -/
theorem resetHabit_resetValues_iff (h : Habit) :
    (resetHabit h).resetValues = h.resetValues ↔ h.Missed := by
  cases hflag : h.addFirebase
  · simp [Habit.Missed, Habit.resetValues, resetHabit, hflag]
  · simp [Habit.Missed, Habit.resetValues, resetHabit, hflag, eq_comm]

/-- A habit that is read has the values of its document. -/
theorem missed_of_readHabit {st : Store} {n : Nat} {habit : Habit}
    (hdocs : ∀ k doc, st.habits k = some doc → doc.Missed) (hread : st.readHabit n = some habit) :
    habit.Missed := by
  rw [Store.readHabit, Habit.ofDocument_eq] at hread
  obtain ⟨doc, hdoc, hentry⟩ := Option.bind_eq_some_iff.mp hread
  obtain ⟨entry, hdecode, rfl⟩ := Option.map_eq_some_iff.mp hentry
  have hmissed := hdocs n doc hdoc
  rw [HabitDoc.Missed, HabitDoc.resetValues, HabitFields.decode_eq_some.mp hdecode] at hmissed
  simpa [Habit.Missed, Habit.resetValues, Entry.toHabit, Entry.fields] using hmissed

/-! ## Between two appearances -/

/-- What can come between two appearances: anything but taps, edits, creates
and deletes and what these have started, which are their callbacks and the
end of a countdown.  Refreshes are called, served, delivered and failed, and
the app is launched again. -/
def AppearStep (s : State) : Event → Prop
  | .didSelectItemAt .. | .editConfirmed _ | .addHabitButtonTapped _ | .deleteHabit
  | .showAlert _ | .nextDay => False
  | .deliver i | .fail i => ∀ p ∈ s.pending[i]?, p.callback.isRefresh = true
  | _ => True

/-- The habits that an event leaves in the list without an appearance. -/
def Foreseen (s : State) (h : Habit) : Prop :=
  (∃ old ∈ s.habitArray, h.resetValues = old.resetValues) ∨
    ∃ p ∈ s.pending, ∃ n st, p.callback = .fetchHabit n ∧ p.snapshot = some st ∧
      st.readHabit n = some h

/-- `s'` comes from `s` without a reset: the values of the documents stay,
the list shows what it showed or what was read, and what is read is read from
the documents. -/
structure Between (s s' : State) : Prop where
  docs : s'.store.resetValues = s.store.resetValues
  rows : ∀ h ∈ s'.habitArray, Foreseen s h
  reads : ∀ p ∈ s'.pending, ∀ st, p.snapshot = some st →
    (∃ q ∈ s.pending, q.callback = p.callback ∧ q.snapshot = some st) ∨ st = s.store
  resets : resets s' = resets s

theorem resets_eq {s s' : State} (htoday : s'.today = s.today)
    (hsaved : s'.palmiIsCool = s.palmiIsCool) (hsigned : s'.signedIn = s.signedIn) :
    resets s' = resets s := by
  rw [resets, resets, htoday, hsaved, hsigned]

namespace Between

variable {s s' : State}

/-- The documents and the list stay. -/
theorem of_issued (cbs : List Callback) (hstore : s'.store.resetValues = s.store.resetValues)
    (hlist : ∀ h ∈ s'.habitArray, ∃ old ∈ s.habitArray, h.resetValues = old.resetValues)
    (hpending : s'.pending = s.pending ++ cbs.map ({ callback := · }))
    (hresets : HabitCollection.resets s' = HabitCollection.resets s) : Between s s' where
  docs := hstore
  rows h hmem := Or.inl (hlist h hmem)
  reads p hp st hst := by
    rw [hpending] at hp
    rcases List.mem_append.mp hp with hp | hp
    · exact Or.inl ⟨p, hp, rfl, hst⟩
    · obtain ⟨cb, _, rfl⟩ := List.mem_map.mp hp
      contradiction
  resets := hresets

theorem same (hstore : s'.store = s.store) (hlist : s'.habitArray = s.habitArray)
    (hpending : s'.pending = s.pending)
    (hresets : HabitCollection.resets s' = HabitCollection.resets s) : Between s s' :=
  of_issued [] (by rw [hstore]) (fun h hmem => ⟨h, hlist ▸ hmem, rfl⟩) (by simpa using hpending)
    hresets

theorem refl (s : State) : Between s s := same rfl rfl rfl rfl

end Between

/-- The callback of a refresh. -/
theorem between_callback {s : State} {i : Nat} {p : Pending} {document : Option Store}
    (hp : s.pending[i]? = some p) (hcb : p.callback.isRefresh = true)
    (hdocument : ∀ st, document = some st → p.snapshot = some st) :
    Between s (p.callback.run document (s.dropPending i)) := by
  have hlist := listOnly_of_isRefresh hcb document (s.dropPending i)
  obtain ⟨cbs, hpending, _⟩ := pending_of_isRefresh hcb document (s.dropPending i)
  refine ⟨by rw [hlist.store]; rfl, fun h hmem => ?_, fun q hq st hst => ?_,
    resets_eq hlist.today hlist.palmiIsCool hlist.signedIn⟩
  · cases hrun : p.callback with
    | fetchCounter =>
      rw [hrun, Callback.run, fetchCounterRead_habitArray] at hmem
      exact Or.inl ⟨h, hmem, rfl⟩
    | fetchHabit n =>
      rw [hrun] at hmem
      rcases mem_fetchHabitRead hmem with hmem | ⟨st, hst, hread⟩
      · exact Or.inl ⟨h, hmem, rfl⟩
      · exact Or.inr ⟨p, List.mem_of_getElem? hp, n, st, hrun, hdocument st hst, hread⟩
    | fetch =>
      rw [hrun] at hmem
      contradiction
    | reload =>
      rw [hrun] at hmem
      exact Or.inl ⟨h, hmem, rfl⟩
    | _ =>
      rw [hrun] at hcb
      contradiction
  · rw [hpending] at hq
    rcases List.mem_append.mp hq with hq | hq
    · exact Or.inl ⟨q, List.mem_of_mem_eraseIdx hq, rfl, hst⟩
    · obtain ⟨cb, _, rfl⟩ := List.mem_map.mp hq
      contradiction

/-- The time of a row and of its document is none of the values. -/
theorem between_createTimeArray (row ident : Nat) (time : List Int) (s : State) :
    Between s (createTimeArray row ident time s) := by
  have hstore : (s.store.apply (.updateHabit row { timeArray := some time } ident)).resetValues =
      s.store.resetValues := by
    funext k
    rw [Store.resetValues, Store.apply_updateHabit_habits, Store.resetValues]
    split
    · next hk =>
      rw [hk, Option.map_map]
      rfl
    · rfl
  rw [createTimeArray, returnTimeArray]
  split
  · exact .of_issued [] hstore (fun h hmem => ⟨h, hmem, rfl⟩) (by simp) rfl
  · next habit hrow =>
    refine .of_issued [] hstore (fun h hmem => ?_) (by simp) rfl
    rcases List.mem_or_eq_of_mem_set hmem with hmem | rfl
    · exact ⟨h, hmem, rfl⟩
    · exact ⟨habit, List.mem_of_getElem? hrow, rfl⟩

theorem between_step {s : State} {e : Event} (he : AppearStep s e) (hne : e ≠ .viewWillAppear) :
    Between s (step s e) := by
  have hlaunch : Between s s.relaunch :=
    ⟨rfl, by simp [State.relaunch], by simp [State.relaunch], rfl⟩
  have hscreen : e.isScreen = true → e.isDay = false → Between s (handle s e) := by
    intro hscreen hday
    have hscreens := screensOnly_of_event hscreen s
    obtain ⟨htoday, hsaved, _⟩ := device_handle hday s
    exact .same hscreens.store hscreens.habitArray hscreens.pending
      (resets_eq htoday hsaved (signedIn_handle s e))
  by_cases hrunning : s.crashed = none
  · rw [step_of_running hrunning]
    cases e with
    | relaunch => exact hlaunch
    | viewDidLoad =>
      simp only [handle, viewDidLoad]
      split
      · exact .of_issued [.fetchCounter, .reload] rfl (by simp [fetchFirebaseHabits])
          (by simp [fetchFirebaseHabits]) rfl
      · exact .refl s
    | viewWillAppear => contradiction
    | fetchFirebaseHabits =>
      exact .of_issued [.fetchCounter] rfl (by simp [handle, fetchFirebaseHabits]) rfl rfl
    | createTimeArray row ident time => exact between_createTimeArray row ident time s
    | serve i =>
      refine ⟨by rw [handle, serve_store], fun h hmem => ?_, fun p hp st hst => ?_, ?_⟩
      · exact Or.inl ⟨h, serve_habitArray s i ▸ hmem, rfl⟩
      · rcases serve_cases s i with hs | ⟨q, _, _, _, hs⟩ <;> rw [handle, hs] at hp
        · exact Or.inl ⟨p, hp, rfl, hst⟩
        · rcases List.mem_or_eq_of_mem_set hp with hp | rfl
          · exact Or.inl ⟨p, hp, rfl, hst⟩
          · exact Or.inr (Option.some.inj hst).symm
      · rcases serve_cases s i with hs | ⟨q, _, _, _, hs⟩ <;> rw [handle, hs]
        rfl
    | deliver i =>
      rcases deliver_cases s i with ⟨hs, _⟩ | ⟨p, hp, _, hs⟩ <;> rw [handle, hs]
      · exact .refl s
      · exact between_callback hp (he p hp) fun st hst => hst
    | fail i =>
      rcases fail_cases s i with hs | ⟨p, hp, _, hs⟩ <;> rw [handle, hs]
      · exact .refl s
      · exact between_callback hp (he p hp) (by simp)
    | didSelectItemAt | editConfirmed | addHabitButtonTapped | deleteHabit | showAlert | nextDay =>
      exact he.elim
    | _ => exact hscreen rfl rfl
  · rw [HabitHive.step, if_neg hrunning]
    split
    · exact hlaunch
    · exact .refl s

/-! ## What nothing is left of to reset -/

/-- Another reset changes nothing, and nothing is read that it would
change. -/
structure Settled (s : State) : Prop where
  rows : ∀ h ∈ s.habitArray, h.Missed
  docs : ∀ k doc, s.store.habits k = some doc → doc.Missed
  reads : ∀ p ∈ s.pending, ∀ n st h, p.callback = .fetchHabit n → p.snapshot = some st →
    st.readHabit n = some h → h.Missed

namespace Settled

variable {s s' : State}

theorem between (h : Settled s) (hbetween : Between s s') : Settled s' where
  rows habit hmem := by
    rcases hbetween.rows habit hmem with ⟨old, hold, hvalues⟩ | ⟨p, hp, n, st, hcb, hst, hread⟩
    · exact hvalues.trans (h.rows old hold)
    · exact h.reads p hp n st habit hcb hst hread
  docs k doc hdoc := by
    have hvalues := congrFun hbetween.docs k
    rw [Store.resetValues, hdoc, Option.map_some, Store.resetValues] at hvalues
    obtain ⟨old, hold, heq⟩ := Option.map_eq_some_iff.mp hvalues.symm
    exact heq.symm.trans (h.docs k old hold)
  reads p hp n st habit hcb hst hread := by
    rcases hbetween.reads p hp st hst with ⟨q, hq, hcallback, hsnapshot⟩ | rfl
    · exact h.reads q hq n st habit (hcallback.trans hcb) hsnapshot hread
    · exact missed_of_readHabit h.docs hread

/-- A reset that finds nothing to do. -/
theorem resetValues_viewWillAppear (h : Settled s) :
    (viewWillAppear s).resetValues = s.resetValues := by
  by_cases hres : resets s = true
  · have hrow : ∀ habit ∈ s.habitArray, (resetHabit habit).resetValues = (0, 0, true) :=
      fun habit hmem =>
        ((resetHabit_resetValues_iff habit).mpr (h.rows habit hmem)).trans (h.rows habit hmem)
    rw [HabitHive.resetValues_viewWillAppear hres, State.resetValues]
    congr 1
    · rw [List.map_map]
      exact List.map_congr_left fun habit hmem => (hrow habit hmem).trans (h.rows habit hmem).symm
    · funext k
      cases hk : s.habitArray[k]? with
      | none => rfl
      | some habit =>
        have hstreak : (resetHabit habit).streak = 0 :=
          congrArg Prod.fst (hrow habit (List.mem_of_getElem? hk))
        dsimp only
        rw [Store.resetValues]
        cases hdoc : s.store.habits k with
        | none => rfl
        | some doc => rw [Option.map_some, Option.map_some, h.docs k doc hdoc, hstreak]
  · rw [viewWillAppear_of_not_resets (by simpa using hres)]

end Settled

/-- The condition: every habit of the list was missed or has the streak `-1`,
and every document without a row in the list, and every habit that a read
under way brings, is as a reset leaves a habit that was missed. -/
structure Settles (s : State) : Prop where
  rows : ∀ h ∈ s.habitArray, h.addFirebase = true ∨ h.streak = -1
  docs : ∀ k doc, s.habitArray.length ≤ k → s.store.habits k = some doc → doc.Missed
  reads : ∀ p ∈ s.pending, ∀ n st h, p.callback = .fetchHabit n → p.snapshot = some st →
    st.readHabit n = some h → h.Missed

/-- The first appearance then leaves nothing to reset. -/
theorem Settles.settled {s : State} (h : Settles s) (hres : resets s = true) :
    Settled (viewWillAppear s) where
  rows habit hmem := by
    rw [viewWillAppear_habitArray hres] at hmem
    obtain ⟨old, hold, rfl⟩ := List.mem_map.mp hmem
    exact (missed_resetHabit_iff old).mpr (h.rows old hold)
  docs k doc hdoc := by
    rw [viewWillAppear_habits hres] at hdoc
    cases hk : s.habitArray[k]? with
    | none =>
      rw [hk] at hdoc
      exact h.docs k doc (List.getElem?_eq_none_iff.mp hk) hdoc
    | some habit =>
      rw [hk] at hdoc
      obtain ⟨old, _, rfl⟩ := Option.map_eq_some_iff.mp hdoc
      have hstreak : (resetHabit habit).streak = 0 := congrArg Prod.fst
        ((missed_resetHabit_iff habit).mpr (h.rows habit (List.mem_of_getElem? hk)))
      show (some (resetHabit habit).streak, some 0, some true) = _
      rw [hstreak]
  reads p hp n st habit hcb hst hread := by
    obtain ⟨cbs, hpending, _⟩ := viewWillAppear_issued s
    rw [hpending] at hp
    rcases List.mem_append.mp hp with hp | hp
    · exact h.reads p hp n st habit hcb hst hread
    · obtain ⟨cb, _, rfl⟩ := List.mem_map.mp hp
      contradiction

/-- A settled state settles. -/
theorem Settled.settles {s : State} (h : Settled s) : Settles s where
  rows habit hmem := Or.inl (congrArg (fun v => v.2.2) (h.rows habit hmem))
  docs k doc _ hdoc := h.docs k doc hdoc
  reads := h.reads

/-! ## Runs -/

/-- A later appearance changes none of the values. -/
def LeavesValues (s : State) (e : Event) : Prop :=
  e = .viewWillAppear → (step s e).resetValues = s.resetValues

/-- However often the list appears again, on whatever comes in between, no
later appearance changes a value in the list or in a document, and every
document has the values that the first appearance has left. -/
def ResetsOnce (s : State) : Prop :=
  ∀ es, Runs.Guarded step AppearStep (step s .viewWillAppear) es →
    Runs.Guarded step LeavesValues (step s .viewWillAppear) es ∧
      (run s (.viewWillAppear :: es)).store.resetValues =
        (run s [.viewWillAppear]).store.resetValues

/-- There is no reset, or nothing left to reset. -/
def Over (s : State) : Prop := resets s = false ∨ Settled s

theorem over_step {s : State} {e : Event} (h : Over s) (he : AppearStep s e) :
    Over (step s e) ∧ LeavesValues s e ∧ (step s e).store.resetValues = s.store.resetValues := by
  by_cases hne : e = .viewWillAppear
  · subst hne
    have hvalues : Over (step s .viewWillAppear) ∧
        (step s .viewWillAppear).resetValues = s.resetValues := by
      rw [HabitHive.step]
      split_ifs with hrunning
      · rcases h with hres | hsettled
        · rw [handle, viewWillAppear_of_not_resets hres]
          exact ⟨Or.inl hres, rfl⟩
        · refine ⟨?_, hsettled.resetValues_viewWillAppear⟩
          by_cases hres : resets s = true
          · exact Or.inr (hsettled.settles.settled hres)
          · rw [handle, viewWillAppear_of_not_resets (by simpa using hres)]
            exact Or.inr hsettled
      · contradiction
      · exact ⟨h, rfl⟩
    exact ⟨hvalues.1, fun _ => hvalues.2, congrArg Prod.snd hvalues.2⟩
  · have hbetween := between_step he hne
    exact ⟨h.imp (hbetween.resets.trans ·) (·.between hbetween), fun h => absurd h hne,
      hbetween.docs⟩

theorem over_run {s : State} {es : List Event} (h : Over s)
    (hes : Runs.Guarded step AppearStep s es) :
    Runs.Guarded step LeavesValues s es ∧ (run s es).store.resetValues = s.store.resetValues := by
  induction es generalizing s with
  | nil => exact ⟨trivial, rfl⟩
  | cons e es ih =>
    obtain ⟨hover, hleaves, hvalues⟩ := over_step h hes.1
    obtain ⟨hguarded, hrun⟩ := ih hover hes.2
    exact ⟨⟨hleaves, hguarded⟩, hrun.trans hvalues⟩

/-! ## Lists of any length -/

/-- A run between two appearances that starts and ends well, and leaves the
documents and the device. -/
structure Reaches (s : State) (es : List Event) (s' : State) : Prop where
  allowed : Runs.Guarded step AppearStep s es
  final : run s es = s'
  running : s'.crashed = none
  store : s'.store = s.store
  resets : resets s' = resets s

theorem Reaches.trans {s t u : State} {es fs : List Event} (h : Reaches s es t)
    (h' : Reaches t fs u) : Reaches s (es ++ fs) u where
  allowed := by
    rw [Runs.guarded_append, show Runs.run step s es = t from h.final]
    exact ⟨h.allowed, h'.allowed⟩
  final := by rw [run_append, h.final, h'.final]
  running := h'.running
  store := h'.store.trans h.store
  resets := h'.resets.trans h.resets

/-- A refresh is called. -/
theorem reaches_fetch {s : State} (hrunning : s.crashed = none) :
    Reaches s [.fetchFirebaseHabits] (fetchFirebaseHabits s) :=
  ⟨⟨trivial, trivial⟩, by rw [run_cons, step_of_running hrunning]; rfl, hrunning, rfl, rfl⟩

/-- A read that was served brings its habit. -/
theorem reaches_served {s : State} {i n : Nat} {p : Pending} {st : Store} {habit : Habit}
    (hrunning : s.crashed = none) (hp : s.pending[i]? = some p) (hcb : p.callback = .fetchHabit n)
    (hst : p.snapshot = some st) (hread : st.readHabit n = some habit) :
    Reaches s [.deliver i] ({ s.dropPending i with
      habitArray := sortByNumber (s.habitArray ++ [habit]) } : State).reloadData := by
  refine ⟨⟨fun q hq => ?_, trivial⟩, ?_, hrunning, rfl, rfl⟩
  · rw [hp] at hq
    rw [← Option.some.inj hq, hcb]
    rfl
  · rw [run_cons, run_nil, step_of_running hrunning, handle, State.deliver, hp]
    simp [hcb, hst, Callback.run, fetchHabitRead, hread]

/-- A read is served and delivered. -/
theorem reaches_read {s t : State} {i : Nat} {cb : Callback} (hrunning : s.crashed = none)
    (hcall : s.pending[i]? = some { callback := cb }) (hread : cb.isRead = true)
    (hrefresh : cb.isRefresh = true)
    (ht : t = cb.run (some s.store) (s.dropPending i)) (hcrashed : t.crashed = none) :
    Reaches s [.serve i, .deliver i] t := by
  have hserve : step s (.serve i) =
      { s with pending := s.pending.set i { callback := cb, snapshot := some s.store } } := by
    rw [step_of_running hrunning]
    simp [handle, State.serve, hcall, hread]
  have hserved : (step s (.serve i)).pending[i]? =
      some { callback := cb, snapshot := some s.store } := by
    rw [hserve]
    exact List.getElem?_set_self (List.getElem?_eq_some_iff.mp hcall).1
  have hdeliver : step (step s (.serve i)) (.deliver i) = t := by
    rw [step_of_running (by rw [hserve]; exact hrunning), handle, State.deliver, hserved]
    have hdrop : (step s (.serve i)).dropPending i = s.dropPending i := by
      rw [hserve]
      simp [State.dropPending, List.eraseIdx_set_eq]
    simp [hdrop, ht]
  have hlist := listOnly_of_isRefresh hrefresh (some s.store) (s.dropPending i)
  refine ⟨⟨trivial, fun p hp => ?_, trivial⟩, hdeliver, hcrashed, ?_, ?_⟩
  · rw [hserved] at hp
    rw [← Option.some.inj hp]
    exact hrefresh
  · rw [ht, hlist.store, State.dropPending_store]
  · rw [ht, resets_eq hlist.today hlist.palmiIsCool hlist.signedIn]
    rfl

/-- Refreshes that are under way together show a document as often as one
likes. -/
theorem reaches_copies {n : Nat} {habit : Habit} (m : Nat) {s : State} (hrunning : s.crashed = none)
    (hempty : s.habitArray = []) (hcount : n < s.store.user.habitCounter)
    (hread : s.store.readHabit n = some habit) :
    ∃ es t, Reaches s es t ∧ t.habitArray.length = m ∧ s.pending <+: t.pending := by
  induction m generalizing s with
  | zero => exact ⟨[], s, ⟨trivial, rfl, hrunning, rfl, rfl⟩, by rw [hempty]; rfl, List.prefix_rfl⟩
  | succ m ih =>
    -- one more refresh is called and reads the counter
    let s₁ := fetchFirebaseHabits s
    let s₂ := fetchCounterRead (some s.store) (s₁.dropPending s.pending.length)
    have hcall : Reaches s [.fetchFirebaseHabits] s₁ := reaches_fetch hrunning
    have hcounter : Reaches s₁ [.serve s.pending.length, .deliver s.pending.length] s₂ :=
      reaches_read hrunning (show s₁.pending[s.pending.length]? =
        some { callback := .fetchCounter } by simp [s₁, fetchFirebaseHabits]) rfl rfl rfl
        (by simp only [s₂, fetchCounterRead_some]; exact hrunning)
    have hpending : s₂.pending = s.pending ++
        ((List.range s.store.user.habitCounter).map Callback.fetchHabit).map
          ({ callback := · }) := by
      simp [s₂, s₁, fetchCounterRead_some, fetchFirebaseHabits, List.eraseIdx_append_of_length_le]
    have hlist : s₂.habitArray = [] := fetchCounterRead_habitArray _ _
    -- the others are called and deliver the document
    obtain ⟨es, t, hes, hlength, rest, hrest⟩ := ih hcounter.running hlist
      (by rw [hcounter.store]; exact hcount) (by rw [hcounter.store]; exact hread)
    -- and so does this one
    have hstore : t.store = s.store := hes.store.trans hcounter.store
    have hbefore : t.pending[s.pending.length + n]? = some { callback := .fetchHabit n } := by
      rw [← hrest, hpending, List.append_assoc, List.getElem?_append_right (Nat.le_add_right _ _),
        Nat.add_sub_cancel_left, List.getElem?_append_left (by simpa using hcount)]
      simp [hcount]
    have hdocument : fetchHabitRead n (some t.store) (t.dropPending (s.pending.length + n)) =
        ({ t.dropPending (s.pending.length + n) with
          habitArray := sortByNumber (t.habitArray ++ [habit]) } : State).reloadData :=
      fetchHabitRead_some (by rw [hstore]; exact hread) _
    refine ⟨_, _, ((hcall.trans hcounter).trans hes).trans
      (reaches_read hes.running hbefore rfl rfl rfl ?_), ?_, ?_⟩
    · rw [Callback.run, hdocument]
      exact hes.running
    · rw [Callback.run, hdocument]
      show (sortByNumber (t.habitArray ++ [habit])).length = m + 1
      rw [sortByNumber, (Keyed.sortByKey_perm _ _).length_eq, List.length_append, hlength]
      rfl
    · rw [Callback.run, hdocument]
      show s.pending <+: t.pending.eraseIdx (s.pending.length + n)
      rw [← hrest, hpending, List.append_assoc,
        List.eraseIdx_append_of_length_le (Nat.le_add_right _ _)]
      exact List.prefix_append _ _

/-! ## Exactness -/

/-- An appearance that resets and changes nothing finds habits and documents
that were missed. -/
theorem missed_of_leavesValues {s : State} (hrunning : s.crashed = none) (hres : resets s = true)
    (h : LeavesValues s .viewWillAppear) :
    (∀ habit ∈ s.habitArray, habit.Missed) ∧
      ∀ k doc, k < s.habitArray.length → s.store.habits k = some doc → doc.Missed := by
  have hvalues := h rfl
  rw [step_of_running hrunning, handle, resetValues_viewWillAppear hres, State.resetValues,
    Prod.mk.injEq, List.map_map, List.map_inj_left] at hvalues
  obtain ⟨hrows, hdocs⟩ := hvalues
  have hmissed : ∀ habit ∈ s.habitArray, habit.Missed := fun habit hmem =>
    (resetHabit_resetValues_iff habit).mp (hrows habit hmem)
  refine ⟨hmissed, fun k doc hk hdoc => ?_⟩
  have hrow := hmissed _ (List.getElem_mem hk)
  have hstreak : (resetHabit s.habitArray[k]).streak = 0 :=
    congrArg Prod.fst ((resetHabit_resetValues_iff _).mpr hrow |>.trans hrow)
  have hvalues := congrFun hdocs k
  simp only [List.getElem?_eq_getElem hk, Store.resetValues, hdoc, Option.map_some, hstreak,
    Option.some.injEq] at hvalues
  exact hvalues.symm

/-- The documents that can be read before a reset can be read after it. -/
theorem isSome_readHabit_viewWillAppear {s : State} (hres : resets s = true) {n : Nat}
    (h : (s.store.readHabit n).isSome = true) :
    ((viewWillAppear s).store.readHabit n).isSome = true := by
  simp only [Store.readHabit, Habit.ofDocument_eq] at h ⊢
  rw [viewWillAppear_habits hres]
  cases s.habitArray[n]? with
  | none => exact h
  | some habit =>
    cases hdoc : s.store.habits n with
    | none => simp [hdoc] at h
    | some doc =>
      cases hentry : doc.fields.decode with
      | none => simp [hdoc, hentry] at h
      | some entry => simp [HabitFields.decode_merge _ hentry]

/-- What an appearance finds that changes nothing, after any run. -/
theorem missed_of_resetsOnce {s t : State} {es : List Event} (hrunning : s.crashed = none)
    (hres : resets s = true) (h : ResetsOnce s) (hes : Reaches (viewWillAppear s) es t) :
    (∀ habit ∈ t.habitArray, habit.Missed) ∧
      ∀ k doc, k < t.habitArray.length → t.store.habits k = some doc → doc.Missed := by
  have hfirst : step s .viewWillAppear = viewWillAppear s := by
    rw [step_of_running hrunning]
    rfl
  obtain ⟨htoday, hsaved, hsigned, _⟩ := viewWillAppear_device s
  have hguard : Runs.Guarded step AppearStep (step s .viewWillAppear)
      (es ++ [.viewWillAppear]) := by
    rw [hfirst, Runs.guarded_append]
    exact ⟨hes.allowed, trivial, trivial⟩
  have hleaves := (h _ hguard).1
  rw [hfirst, Runs.guarded_append, show Runs.run step (viewWillAppear s) es = t from hes.final]
    at hleaves
  exact missed_of_leavesValues hes.running
    (hes.resets.trans ((resets_eq htoday hsaved hsigned).trans hres)) hleaves.2.1

theorem settles_of_resetsOnce {s : State} (hrunning : s.crashed = none) (hres : resets s = true)
    (h : ResetsOnce s) {n : Nat} (hn : n < s.store.user.habitCounter)
    (hread : (s.store.readHabit n).isSome = true) : Settles s := by
  obtain ⟨_, _, _, hcrashed, _⟩ := viewWillAppear_device s
  have hrunning' : (viewWillAppear s).crashed = none := hcrashed.trans hrunning
  refine ⟨fun habit hmem => ?_, fun k doc hk hdoc => ?_, fun p hp m st habit hcb hst hread => ?_⟩
  · have hnow : Reaches (viewWillAppear s) [] (viewWillAppear s) :=
      ⟨trivial, rfl, hrunning', rfl, rfl⟩
    refine (missed_resetHabit_iff habit).mp ((missed_of_resetsOnce hrunning hres h hnow).1 _ ?_)
    rw [viewWillAppear_habitArray hres]
    exact List.mem_map_of_mem hmem
  · -- enough copies of document `n` for a row `k`
    obtain ⟨habit, hhabit⟩ :=
      Option.isSome_iff_exists.mp (isSome_readHabit_viewWillAppear hres hread)
    have hcount : n < (viewWillAppear s).store.user.habitCounter := by
      rw [(viewWillAppear_writes hres).1, Store.habitCounter_of_plain (appearWrites_isPlain s)]
      exact hn
    have hcall := reaches_fetch hrunning'
    obtain ⟨es, t, hes, hlength, _⟩ := reaches_copies (k + 1) hcall.running rfl hcount hhabit
    refine (missed_of_resetsOnce hrunning hres h (hcall.trans hes)).2 k doc (by omega) ?_
    rw [hes.store, hcall.store, viewWillAppear_habits hres, List.getElem?_eq_none hk]
    exact hdoc
  · -- the read comes back
    obtain ⟨i, hi⟩ := List.mem_iff_getElem?.mp hp
    obtain ⟨cbs, hpending, _⟩ := viewWillAppear_issued s
    have hi' : (viewWillAppear s).pending[i]? = some p := by
      rw [hpending, List.getElem?_append_left (List.getElem?_eq_some_iff.mp hi).1, hi]
    have hreach := reaches_served hrunning' hi' hcb hst hread
    refine (missed_of_resetsOnce hrunning hres h hreach).1 habit ?_
    exact (Keyed.sortByKey_perm _ _).mem_iff.mpr (by simp)

/-- The same habit is still on its way when the list of a launch appears
first. -/
example :
    let done := { Entry.sample 1 with addFirebase := false, streak := 3 }
    let s := run (State.launched (Store.ofFields [done.fields])) [.viewDidLoad]
    let es : List Event := [.serve 0, .deliver 0, .serve 1, .deliver 1, .viewWillAppear]
    (run s (.viewWillAppear :: es)).store.resetValues 0 = some (some 4, some 0, some true) := by
  decide

end HabitHive
