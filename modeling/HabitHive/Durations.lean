import HabitHive.Numbering
import HabitHive.Writes

/-!
# The original duration of a timed habit

`timeArrayOriginal` is the duration that the user chose, and `timeArray`
what is left of it.  A create writes the chosen duration to both.  An edit
writes the time that is left to both, unless a new duration is chosen.

With one operation after the other, the documents are a list `E` of habits
with their original durations (`Held`).  Creates, edits and deletes change
this list, and all other operations leave it: taps, resets, stops and ends
of countdowns.  `durations_kept_iff` says which edits keep the durations
what the user has chosen.
-/

namespace HabitHive

open HabitCollection

/-! ## Chosen durations -/

/-- The form is saved when its button is pressed. -/
def EditForm.saves (form : EditForm) (s : State) : Bool :=
  form.accepted && form.indexPath.isSome && s.sectionColor.isSome

/-- The durations of timed habits that an event saves as they were confirmed
in the time picker, with the habit. -/
def confirmed (s : State) (e : Event) : List (Nat × List Int) :=
  if s.crashed = none then
    match e with
    | .addHabitButtonTapped c =>
      ((requested s (.addHabitButtonTapped c)).filter fun h => !h.counted).map
        fun h => (h.ident, h.time)
    | .editConfirmed e =>
      match s.editing[e]? with
      | some form =>
        if form.saves s ∧ form.habit.counted = false ∧ form.timeArray ≠ [] then
          [(form.habit.ident, form.timeArray)]
        else []
      | none => []
    | _ => []
  else []

/-- The duration that was confirmed last for a habit. -/
def lastConfirmed (log : List (Nat × List Int)) (ident : Nat) : Option (List Int) :=
  ((log.filter fun entry => entry.1 = ident).getLast?).map Prod.snd

theorem lastConfirmed_append_ne {log new : List (Nat × List Int)} {ident : Nat}
    (h : ∀ entry ∈ new, entry.1 ≠ ident) :
    lastConfirmed (log ++ new) ident = lastConfirmed log ident := by
  have hnil : new.filter (fun entry => entry.1 = ident) = [] := by simpa using h
  rw [lastConfirmed, List.filter_append, hnil, List.append_nil, lastConfirmed]

theorem lastConfirmed_append_self (log : List (Nat × List Int)) (ident : Nat) (time : List Int) :
    lastConfirmed (log ++ [(ident, time)]) ident = some time := by
  simp [lastConfirmed]

/-- A habit, whether it is counted, and its original duration. -/
structure Timing where
  ident : Nat
  counted : Option Bool
  timeArrayOriginal : Option (List Int)
  deriving DecidableEq, Repr

def HabitDoc.timing (doc : HabitDoc) : Timing where
  ident := doc.ident
  counted := doc.fields.counted
  timeArrayOriginal := doc.fields.timeArrayOriginal

/-- The duration of a timed habit is the one confirmed last. -/
def RightTiming (log : List (Nat × List Int)) (t : Timing) : Prop :=
  t.counted = some false → t.timeArrayOriginal = lastConfirmed log t.ident

instance (log : List (Nat × List Int)) (t : Timing) : Decidable (RightTiming log t) := by
  unfold RightTiming
  infer_instance

theorem RightTiming.append {log new : List (Nat × List Int)} {t : Timing} (h : RightTiming log t)
    (hne : ∀ entry ∈ new, entry.1 ≠ t.ident) : RightTiming (log ++ new) t := fun hcounted => by
  rw [lastConfirmed_append_ne hne]
  exact h hcounted

/-- So is that of every habit that the counter reaches. -/
def KeepsDurations (log : List (Nat × List Int)) (st : Store) : Prop :=
  ∀ k < st.user.habitCounter, ∀ doc ∈ st.habits k, RightTiming log doc.timing

instance (log : List (Nat × List Int)) (st : Store) : Decidable (KeepsDurations log st) := by
  unfold KeepsDurations
  infer_instance

/-! ## The documents -/

/-- A write that leaves the counter and the timing of all documents. -/
def Write.isTimeless : Write → Bool
  | .updateUser fields => fields.habitCounter.isNone
  | .updateHabit _ fields _ => fields.counted.isNone && fields.timeArrayOriginal.isNone
  | .setHabit .. | .deleteHabit _ => false

theorem Write.isPlain_of_isTimeless {w : Write} (h : w.isTimeless = true) : w.isPlain = true := by
  cases w <;> first | exact h | rfl

section Timeless

variable {st : Store} {ws : List Write}

theorem timing_of_isTimeless (h : ∀ w ∈ ws, w.isTimeless = true) (k : Nat) :
    ((st.applyAll ws).habits k).map HabitDoc.timing = (st.habits k).map HabitDoc.timing := by
  refine Store.map_habits_of_forall _ (fun w hw st k => ?_) k
  have htimeless := h w hw
  cases w with
  | updateUser fields => rfl
  | updateHabit n fields i =>
    simp only [Write.isTimeless, Bool.and_eq_true, Option.isNone_iff_eq_none] at htimeless
    exact Store.map_updateHabit _
      (fun doc => by simp [HabitDoc.timing, HabitFields.merge, htimeless]) n i k
  | _ => contradiction

theorem habitCounter_of_isTimeless (h : ∀ w ∈ ws, w.isTimeless = true) :
    (st.applyAll ws).user.habitCounter = st.user.habitCounter :=
  Store.habitCounter_of_plain fun w hw => Write.isPlain_of_isTimeless (h w hw)

theorem Store.Lists.timeless {E : List Timing}
    (hst : st.Lists HabitDoc.timing E) (h : ∀ w ∈ ws, w.isTimeless = true) :
    (st.applyAll ws).Lists HabitDoc.timing E where
  counter := (habitCounter_of_isTimeless h).trans hst.counter
  docs k hk := (timing_of_isTimeless h k).trans (hst.docs k hk)

theorem keepsDurations_iff {log : List (Nat × List Int)} :
    KeepsDurations log st ↔ ∀ k < st.user.habitCounter,
      ∀ t ∈ (st.habits k).map HabitDoc.timing, RightTiming log t := by
  simp only [KeepsDurations, Option.mem_map, forall_exists_index, and_imp, forall_apply_eq_imp_iff₂]

theorem KeepsDurations.timeless {log : List (Nat × List Int)} (hst : KeepsDurations log st)
    (h : ∀ w ∈ ws, w.isTimeless = true) : KeepsDurations log (st.applyAll ws) := by
  rw [keepsDurations_iff] at hst ⊢
  intro k hk t ht
  rw [habitCounter_of_isTimeless h] at hk
  exact hst k hk t (timing_of_isTimeless h k ▸ ht)

/-- The documents of a list with the right durations. -/
theorem Store.Lists.keepsDurations {E : List Timing}
    (hst : st.Lists HabitDoc.timing E) {log : List (Nat × List Int)}
    (h : ∀ t ∈ E, RightTiming log t) : KeepsDurations log st := by
  rw [keepsDurations_iff]
  intro k hk t ht
  rw [hst.docs k (hst.counter ▸ hk)] at ht
  exact h t (List.mem_of_getElem? ht)

end Timeless

/-! ## Within and between operations -/

/-- Where a session holds the list `E`. -/
inductive Stage (log : List (Nat × List Int)) (E : List Timing) (s : State) : Prop where
  /-- in the documents and in memory, with the calls of a refresh or reset, or
  with one of a delete or of a completion -/
  | listed (hlisted : Listed HabitDoc.timing E s)
      (hcalls : (∀ p ∈ s.pending, p.callback.isFetch = true ∨ p.callback = .reload) ∨
        ∃ p, s.pending = [p] ∧ (p.callback.isChain = true ∨ p.callback.isFinished = true))
  /-- in the documents, with a refresh queued -/
  | queued {p : Pending} (hpending : s.pending = [p]) (hcb : p.callback = .fetch)
      (hstore : s.store.Lists HabitDoc.timing E)
  /-- in the documents, with a create under way -/
  | creating {p : Pending} {c : Nat} {habit : Habit} {form : CreateForm}
      (hpending : s.pending = [p]) (hcb : p.callback = .addHabit c habit)
      (hsnapshot : ∀ st, p.snapshot = some st → st.user.habitCounter = s.store.user.habitCounter)
      (hform : s.creating[c]? = some form) (hstore : s.store.Lists HabitDoc.timing E)
      (hright : RightTiming log (CreateHabit.newDocument habit
        (CreateHabit.formRead habit none form).timeArray).timing)
      (hnew : ∀ t ∈ E, t.ident ≠ habit.ident) (hnext : habit.ident < s.nextIdent)

/-- The session holds the list `E`, with the durations confirmed last. -/
structure Held (log : List (Nat × List Int)) (E : List Timing) (s : State) : Prop where
  stage : Stage log E s
  right : ∀ t ∈ E, RightTiming log t
  nodup : (E.map Timing.ident).Nodup
  fresh : ∀ t ∈ E, t.ident < s.nextIdent

/-- The documents have the durations confirmed last, and a session that runs
holds a list of them. -/
def OnTrack (log : List (Nat × List Int)) (s : State) : Prop :=
  KeepsDurations log s.store ∧ (s.crashed = none → ∃ E, Held log E s)

/-- The list in memory shows `E`, or is not loaded. -/
def Shown (E : List Timing) (s : State) : Prop :=
  s.habitArray.map (fun h => h.toDocument.timing) = E ∨ s.habitArray = []

namespace Held

variable {log : List (Nat × List Int)} {E : List Timing} {s s' : State}

theorem listed (h : Held log E s) (hidle : s.pending = []) : Listed HabitDoc.timing E s := by
  cases h.stage with
  | listed hlisted _ => exact hlisted
  | queued hpending => rw [hidle] at hpending; contradiction
  | creating hpending => rw [hidle] at hpending; contradiction

/-- With nothing in flight the list is in the documents and in memory. -/
theorem rest (h : Held log E s) (hidle : s.pending = []) :
    s.store.Lists HabitDoc.timing E ∧ Shown E s := by
  have hlisted := h.listed hidle
  refine ⟨hlisted.settled (by rw [State.noChain, hidle]; rfl), ?_⟩
  exact (hlisted.rows (by rw [State.noFetch, hidle]; rfl)).imp_right And.left

theorem row {row : Nat} {habit : Habit} (hshown : Shown E s)
    (hrow : s.habitArray[row]? = some habit) : E[row]? = some habit.toDocument.timing := by
  rcases hshown with hrows | hnil
  · rw [← hrows, List.getElem?_map, hrow]
    rfl
  · rw [hnil] at hrow
    contradiction

/-- A step that starts no refresh and no delete. -/
theorem settle (h : Held log E s) (hstore : s'.store.Lists HabitDoc.timing E) (hshown : Shown E s')
    (hcalls : (∀ p ∈ s'.pending, p.callback = .reload) ∨ ∃ p, s'.pending = [p] ∧
      p.callback.isFinished = true)
    (hnext : s'.nextIdent = s.nextIdent) : Held log E s' := by
  have hquiet : ∀ p ∈ s'.pending, p.callback.isFetch = false ∧ p.callback.isChain = false := by
    intro p hp
    rcases hcalls with hreload | ⟨q, hq, hcb⟩
    · simp [hreload p hp, Callback.isFetch, Callback.isChain]
    · rw [hq, List.mem_singleton] at hp
      subst hp
      cases hcase : p.callback <;> rw [hcase] at hcb <;> first | contradiction | exact ⟨rfl, rfl⟩
  have hfetch : s'.noFetch = true := noFetch_iff.mpr fun p hp => (hquiet p hp).1
  have hchain : s'.noChain = true := noChain_iff.mpr fun p hp => (hquiet p hp).2
  refine ⟨.listed ⟨hstore.holed, fun _ => hstore, Or.inr ⟨hfetch, ?_⟩⟩ ?_, h.right, h.nodup, ?_⟩
  · exact hshown.imp_right fun hnil => ⟨hnil, hchain⟩
  · rcases hcalls with hreload | ⟨p, hp, hcb⟩
    · exact Or.inl fun p hp => Or.inr (hreload p hp)
    · exact Or.inr ⟨p, hp, Or.inr hcb⟩
  · rw [hnext]
    exact h.fresh

/-- A step that leaves the documents, the list and the calls. -/
theorem same (h : Held log E s) (hstore : s'.store = s.store)
    (harray : s'.habitArray = s.habitArray)
    (hpending : s'.pending = s.pending) (hcreating : s'.creating = s.creating)
    (hnext : s'.nextIdent = s.nextIdent) : Held log E s' := by
  refine ⟨?_, h.right, h.nodup, by rw [hnext]; exact h.fresh⟩
  cases h.stage with
  | listed hlisted hcalls =>
    exact .listed (hlisted.same hstore harray hpending) (by rw [hpending]; exact hcalls)
  | queued hp hcb hlists => exact .queued (hpending ▸ hp) hcb (hstore ▸ hlists)
  | creating hp hcb hsnapshot hform hlists hright hnew hlt =>
    exact .creating (hpending ▸ hp) hcb (hstore ▸ hsnapshot) (hcreating ▸ hform) (hstore ▸ hlists)
      hright hnew (hnext ▸ hlt)

/-- Timeless writes between two operations. -/
theorem mild (h : Held log E s) (hidle : s.pending = []) (ws : List Write) (cbs : List Callback)
    (hws : ∀ w ∈ ws, w.isTimeless = true) (hstore : s'.store = s.store.applyAll ws)
    (hrows : s'.habitArray.map (fun h => h.toDocument.timing) =
      s.habitArray.map fun h => h.toDocument.timing)
    (hpending : s'.pending = s.pending ++ cbs.map ({ callback := · }))
    (hcbs : (∀ cb ∈ cbs, cb = .reload) ∨ ∃ cb, cbs = [cb] ∧ cb.isFinished = true)
    (hnext : s'.nextIdent = s.nextIdent) : Held log E s' := by
  obtain ⟨hlists, hshown⟩ := h.rest hidle
  rw [hidle, List.nil_append] at hpending
  refine h.settle (hstore ▸ hlists.timeless hws) ?_ ?_ hnext
  · rcases hshown with hshown | hnil
    · exact Or.inl (hrows.trans hshown)
    · rw [hnil] at hrows
      exact Or.inr (List.map_eq_nil_iff.mp hrows)
  · rcases hcbs with hreload | ⟨cb, rfl, hcb⟩
    · refine Or.inl fun p hp => ?_
      rw [hpending] at hp
      obtain ⟨cb, hcb, rfl⟩ := List.mem_map.mp hp
      exact hreload cb hcb
    · exact Or.inr ⟨_, hpending, hcb⟩

end Held

/-! ## Operations of the user -/

theorem timing_tapped (h : Habit) : h.tapped.toDocument.timing = h.toDocument.timing := by
  unfold Habit.tapped Habit.incremented
  split_ifs <;> rfl

theorem resetWrites_isTimeless (n : Nat) (names : List Text) (hs : List Habit) :
    ∀ w ∈ resetWrites n names hs, w.isTimeless = true := by
  induction hs generalizing n names with
  | nil => simp [resetWrites]
  | cons h hs ih =>
    rw [resetWrites]
    cases achievement h with
    | none => simpa [resetUpdate, resetFields, Write.isTimeless] using ih (n + 1) names
    | some text =>
      simpa [resetUpdate, resetFields, Write.isTimeless] using ih (n + 1) (names ++ [text])

namespace OnTrack

variable {log : List (Nat × List Int)} {E : List Timing} {s s' : State}

/-- A step that only concerns the other screens. -/
theorem screens (h : Held log E s) (hkeeps : KeepsDurations log s.store)
    (hstore : s'.store = s.store)
    (harray : s'.habitArray = s.habitArray) (hpending : s'.pending = s.pending)
    (hidle : s.pending = []) (hnext : s'.nextIdent = s.nextIdent) : OnTrack log s' := by
  refine ⟨hstore ▸ hkeeps, fun _ => ⟨E, ?_⟩⟩
  exact h.mild hidle [] [] (by simp) (by simpa using hstore) (by rw [harray])
    (by simpa using hpending) (Or.inl (by simp)) hnext

theorem mild (h : Held log E s) (hkeeps : KeepsDurations log s.store) (hidle : s.pending = [])
    (ws : List Write) (cbs : List Callback)
    (hws : ∀ w ∈ ws, w.isTimeless = true) (hstore : s'.store = s.store.applyAll ws)
    (hrows : s'.habitArray.map (fun h => h.toDocument.timing) =
      s.habitArray.map fun h => h.toDocument.timing)
    (hpending : s'.pending = s.pending ++ cbs.map ({ callback := · }))
    (hcbs : (∀ cb ∈ cbs, cb = .reload) ∨ ∃ cb, cbs = [cb] ∧ cb.isFinished = true)
    (hnext : s'.nextIdent = s.nextIdent) : OnTrack log s' :=
  ⟨hstore ▸ hkeeps.timeless hws, fun _ => ⟨E,
    h.mild hidle ws cbs hws hstore hrows hpending hcbs hnext⟩⟩

theorem tap (h : Held log E s) (hkeeps : KeepsDurations log s.store) (hidle : s.pending = [])
    (row : Nat) (menu : Bool) : OnTrack log (didSelectItemAt row menu s) := by
  rcases didSelectItemAt_cases row menu s with ⟨_, hs⟩ | ⟨habit, hrow, ⟨_, hs⟩ | ⟨_, hs⟩⟩ <;>
    rw [hs]
  · exact ⟨hkeeps, by simp⟩
  · exact screens h hkeeps rfl rfl rfl hidle rfl
  · refine mild h hkeeps hidle (tapWrites row habit) (tapCallbacks row habit) ?_
      (by simp) ?_ (by simp) ?_ rfl
    · unfold tapWrites
      split <;> simp [Write.isTimeless]
    · exact map_set_of_eq _ hrow (timing_tapped habit)
    · unfold tapCallbacks
      split
      · exact Or.inr ⟨_, rfl, rfl⟩
      · exact Or.inl (by simp)

theorem appear (h : Held log E s) (hkeeps : KeepsDurations log s.store) (hidle : s.pending = []) :
    OnTrack log (viewWillAppear s) := by
  cases hres : resets s with
  | false =>
    rw [viewWillAppear_of_not_resets hres]
    exact ⟨hkeeps, fun _ => ⟨E, h⟩⟩
  | true =>
    obtain ⟨cbs, hpending, hcbs⟩ := viewWillAppear_issued s
    obtain ⟨_, _, _, _, _, _, _, hnext⟩ := viewWillAppear_device s
    refine mild h hkeeps hidle (appearWrites s) cbs ?_ (viewWillAppear_writes hres).1 ?_
      hpending (Or.inl hcbs) hnext
    · exact List.forall_mem_cons.mpr ⟨rfl, resetWrites_isTimeless _ _ _⟩
    · rw [viewWillAppear_habitArray hres, List.map_map]
      rfl

theorem stop (h : Held log E s) (hkeeps : KeepsDurations log s.store) (hidle : s.pending = [])
    (row ident : Nat) (time : List Int) : OnTrack log (createTimeArray row ident time s) := by
  have hws : ∀ w ∈ [Write.updateHabit row { timeArray := some time } ident],
      w.isTimeless = true := by
    simp [Write.isTimeless]
  rw [createTimeArray, returnTimeArray]
  split
  · exact ⟨hkeeps.timeless hws, by simp⟩
  · next habit hrow =>
    exact mild h hkeeps hidle _ [] hws rfl (map_set_of_eq _ hrow rfl) (by simp)
      (Or.inl (by simp)) rfl

theorem finish (h : Held log E s) (hkeeps : KeepsDurations log s.store) (hidle : s.pending = [])
    (row : Nat) : OnTrack log (showAlert row s) := by
  rw [showAlert]
  split
  · exact ⟨hkeeps, by simp⟩
  · next habit hrow =>
    have hws : ∀ w ∈ [Write.updateHabit row { addFirebase := some false } habit.ident],
        w.isTimeless = true := by
      simp [Write.isTimeless]
    exact mild h hkeeps hidle _ [] hws rfl (map_set_of_eq _ hrow rfl) (by simp)
      (Or.inl (by simp)) rfl

theorem refresh (h : Held log E s) (hkeeps : KeepsDurations log s.store) (hidle : s.pending = []) :
    OnTrack log (fetchFirebaseHabits s) := by
  refine ⟨hkeeps, fun _ => ⟨E, .listed ((h.listed hidle).fetch (by rw [State.noFetch, hidle]; rfl))
    (Or.inl ?_), h.right, h.nodup, h.fresh⟩⟩
  intro p hp
  rw [fetchFirebaseHabits, State.issue_pending, hidle, List.nil_append, List.mem_singleton] at hp
  rw [hp]
  exact Or.inl rfl

theorem delete (h : Held log E s) (hkeeps : KeepsDurations log s.store) (hidle : s.pending = []) :
    OnTrack log (deleteHabit s) := by
  rcases deleteHabit_cases s with ⟨f, _, hs⟩ | ⟨row, hglobal, hrow⟩
  · rw [hs]
    exact ⟨hkeeps, by simp⟩
  · have hlisted := (h.listed hidle).delete (by rw [State.noFetch, hidle]; rfl) hglobal hrow
    rw [deleteHabit_eq hglobal hrow] at hlisted ⊢
    refine ⟨fun k hk doc hdoc => ?_, fun _ =>
      ⟨E.eraseIdx row, .listed hlisted (Or.inr ?_), ?_, ?_, ?_⟩⟩
    · rw [State.issue_store, State.write_store, Option.mem_def,
        Store.apply_deleteHabit_habits] at hdoc
      split at hdoc
      · contradiction
      · exact hkeeps k hk doc hdoc
    · exact ⟨{ callback := .deleteDone }, by simp [State.issue, State.write, hidle], Or.inl rfl⟩
    · exact fun t ht => h.right t (List.mem_of_mem_eraseIdx ht)
    · exact h.nodup.sublist ((List.eraseIdx_sublist E row).map _)
    · exact fun t ht => h.fresh t (List.mem_of_mem_eraseIdx ht)

/-- A press of Add Habit: the habit is new, so no other duration changes. -/
theorem create (h : Held log E s) (hkeeps : KeepsDurations log s.store) (hidle : s.pending = [])
    (hrunning : s.crashed = none) (c : Nat) :
    OnTrack (log ++ confirmed s (.addHabitButtonTapped c))
      (CreateHabit.addHabitButtonTapped c s) := by
  rcases addHabitButtonTapped_cases c s with ⟨form, hform, hreq, hs⟩ | ⟨hreq, hframe⟩
  · have hlog : ∀ entry ∈ confirmed s (.addHabitButtonTapped c), entry.1 = s.nextIdent := by
      intro entry hentry
      simp only [confirmed, hrunning, if_true, hreq] at hentry
      obtain ⟨habit, hmem, rfl⟩ := List.mem_map.mp hentry
      rw [List.mem_singleton.mp (List.mem_of_mem_filter hmem)]
      rfl
    have hright : ∀ t ∈ E, RightTiming (log ++ confirmed s (.addHabitButtonTapped c)) t := by
      intro t ht
      refine (h.right t ht).append fun entry hentry => ?_
      rw [hlog entry hentry]
      exact (h.fresh t ht).ne'
    obtain ⟨hlists, _⟩ := h.rest hidle
    rw [hs]
    refine ⟨hlists.keepsDurations hright, fun _ => ⟨E,
      .creating (p := { callback := .addHabit c (CreateHabit.newHabit form s) })
        (by simp [State.issue, hidle]) rfl (by simp) hform hlists ?_ ?_ (Nat.lt_succ_self _),
      hright, h.nodup, fun t ht => Nat.lt_succ_of_lt (h.fresh t ht)⟩⟩
    · intro hcounted
      have hcounted : form.isCounted = false := Option.some.inj hcounted
      have hlog : confirmed s (.addHabitButtonTapped c) = [(s.nextIdent, form.timeArray)] := by
        simp [confirmed, hrunning, hreq, CreateHabit.newHabit, hcounted]
      rw [hlog]
      have htime : (CreateHabit.formRead (CreateHabit.newHabit form s) none form).timeArray =
          form.timeArray := by
        simp [CreateHabit.formRead, CreateHabit.newHabit, hcounted]
      exact (congrArg some htime).trans (lastConfirmed_append_self log s.nextIdent
        form.timeArray).symm
    · exact fun t ht => (h.fresh t ht).ne
  · have hlog : confirmed s (.addHabitButtonTapped c) = [] := by simp [confirmed, hreq]
    rw [hlog, List.append_nil]
    exact screens h hkeeps hframe.store hframe.habitArray hframe.pending hidle hframe.nextIdent

end OnTrack

/-! ## Edits -/

/-- The habit that the row shows is the one the form was opened for, and it
is timed unless the form has a new type. -/
def EditForm.IsFor (form : EditForm) (habit : Habit) : Prop :=
  habit.ident = form.habit.ident ∧ habit.timeOriginal = form.habit.timeOriginal ∧
    (form.timeArray = [] → form.habit.counted = false → habit.counted = false)

instance (form : EditForm) (habit : Habit) : Decidable (form.IsFor habit) := by
  unfold EditForm.IsFor
  infer_instance

/-- The screen that opens is for the habit of its row. -/
theorem isFor_editHabit {s : State} {row : Nat} {habit : Habit}
    (hglobal : s.indexPathGlobal = some row) (hrow : s.habitArray[row]? = some habit)
    (hok : (HabitCollection.editHabit s).crashed ≠ some .indexOutOfRange) :
    ∃ form, (HabitCollection.editHabit s).editing = s.editing ++ [form] ∧
      form.indexPath = some row ∧ form.IsFor habit := by
  by_cases htime : ¬habit.counted ∧ habit.time.length < 4
  · simp [HabitCollection.editHabit, hglobal, hrow, htime] at hok
  · refine ⟨{ habit, indexPath := some row, habitName := habit.name, valueCounter := habit.goal },
      ?_, rfl, rfl, rfl, fun _ => id⟩
    simp only [HabitCollection.editHabit, hglobal, hrow, if_neg htime]

/-- It stays so, whatever is typed and picked. -/
theorem EditForm.IsFor.changed {form : EditForm} {habit : Habit} (h : form.IsFor habit)
    (text : Text) (amount : Int) {time : List Int} (htime : time ≠ []) :
    EditForm.IsFor { form with habitName := text } habit ∧
      EditForm.IsFor { form with
        valueCounter := amount
        habit := { form.habit with counted := true }
        isCounted := true } habit ∧
      EditForm.IsFor { form with
        timeArray := time
        habit := { form.habit with counted := false, time := time }
        isCounted := false } habit :=
  ⟨h, ⟨h.1, h.2.1, by simp⟩, ⟨h.1, h.2.1, fun hnil => absurd hnil htime⟩⟩

/-- A timed habit that is saved without a new time has its whole time
left. -/
def KeepsOriginal (s : State) (e : Event) : Prop :=
  match e with
  | .editConfirmed e => s.crashed = none → ∀ form ∈ s.editing[e]?, form.saves s = true →
      form.habit.counted = false → form.timeArray = [] → form.habit.time = form.habit.timeOriginal
  | _ => True

instance (s : State) (e : Event) : Decidable (KeepsOriginal s e) := by
  induction e using Event.casesOn <;> unfold KeepsOriginal <;> infer_instance

/-- A form with a new time has it in its habit as well. -/
def PickedForms (s : State) : Prop :=
  ∀ form ∈ s.editing, form.timeArray ≠ [] → form.habit.time = form.timeArray

/-- The timing that an edit saves. -/
def EditForm.timing (form : EditForm) : Timing where
  ident := form.habit.ident
  counted := some form.habit.counted
  timeArrayOriginal := some form.habit.time

/-- The log after a form was saved. -/
theorem confirmed_edit {e : Nat} {form : EditForm} {s : State} (hrunning : s.crashed = none)
    (hform : s.editing[e]? = some form) (hsaves : form.saves s = true) :
    confirmed s (.editConfirmed e) =
      if form.habit.counted = false ∧ form.timeArray ≠ [] then [(form.habit.ident, form.timeArray)]
      else [] := by
  simp [confirmed, hrunning, hform, hsaves]

section Edit

variable {log : List (Nat × List Int)} {E : List Timing} {s : State} {e row : Nat} {form : EditForm}
  {habit : Habit}

/-- An edit saves the duration confirmed last, if it has a new one or the
whole time is left. -/
theorem rightTiming_edit_iff (hrunning : s.crashed = none) (hform : s.editing[e]? = some form)
    (hsaves : form.saves s = true) (hpicked : PickedForms s) (hfor : form.IsFor habit)
    (hright : RightTiming log habit.toDocument.timing) :
    RightTiming (log ++ confirmed s (.editConfirmed e)) form.timing ↔
      KeepsOriginal s (.editConfirmed e) := by
  obtain ⟨hident, horiginal, htimed⟩ := hfor
  have hkeeps : KeepsOriginal s (.editConfirmed e) ↔ (form.habit.counted = false →
      form.timeArray = [] → form.habit.time = form.habit.timeOriginal) := by
    simp [KeepsOriginal, hrunning, hform, hsaves]
  rw [hkeeps, confirmed_edit hrunning hform hsaves]
  cases hcounted : form.habit.counted with
  | true => exact iff_of_true (by simp [RightTiming, EditForm.timing, hcounted]) (by simp)
  | false =>
    by_cases hnone : form.timeArray = []
    · have hlast := hright (congrArg some (htimed hnone hcounted))
      rw [show habit.toDocument.timing.timeArrayOriginal = some habit.timeOriginal from rfl,
        show habit.toDocument.timing.ident = habit.ident from rfl, hident, horiginal] at hlast
      simp [RightTiming, EditForm.timing, hcounted, hnone, ← hlast]
    · have htime := hpicked form (List.mem_of_getElem? hform) hnone
      simp [RightTiming, EditForm.timing, hcounted, hnone, htime, lastConfirmed_append_self]

/-- The documents after an edit. -/
theorem Store.Lists.edit {st : Store} (hst : st.Lists HabitDoc.timing E) {t : Timing}
    (hrow : E[row]? = some t) (hident : t.ident = form.habit.ident) (color : Int) (i : Nat) :
    (st.apply (.updateHabit row (EditHabit.editedEntry form color).fields i)).Lists HabitDoc.timing
      (E.set row form.timing) where
  counter := by
    rw [List.length_set]
    exact hst.counter
  docs k hk := by
    rw [List.length_set] at hk
    rw [apply_updateHabit_habits, List.getElem?_set]
    by_cases hkr : k = row
    · subst hkr
      have hdoc := hst.docs k hk
      rw [hrow] at hdoc
      obtain ⟨doc, hget, rfl⟩ := Option.map_eq_some_iff.mp hdoc
      rw [if_pos rfl, if_pos rfl, if_pos hk, hget]
      exact congrArg some (congrArg (Timing.mk · _ _) hident)
    · rw [if_neg hkr, if_neg (Ne.symm hkr)]
      exact hst.docs k hk

/-- An edit changes the timing of one habit. -/
theorem Held.forall_edit (h : Held log E s) {t : Timing} (hrow : E[row]? = some t)
    (hident : t.ident = form.habit.ident) {new : List (Nat × List Int)}
    (hnew : ∀ entry ∈ new, entry.1 = form.habit.ident) :
    (∀ t ∈ E.set row form.timing, RightTiming (log ++ new) t) ↔
      RightTiming (log ++ new) form.timing := by
  obtain ⟨hlt, hget⟩ := List.getElem?_eq_some_iff.mp hrow
  constructor
  · exact fun hall => hall _ (List.mem_set hlt form.timing)
  · intro hform t' ht'
    obtain ⟨k, hk⟩ := List.mem_iff_getElem?.mp ht'
    by_cases hkr : row = k
    · subst hkr
      rw [List.getElem?_set_self hlt, Option.some.injEq] at hk
      exact hk ▸ hform
    · rw [List.getElem?_set_ne hkr] at hk
      refine (h.right t' (List.mem_of_getElem? hk)).append fun entry hentry heq => hkr ?_
      have hlt' : row < (E.map Timing.ident).length := by simpa using hlt
      refine (List.getElem?_inj hlt' h.nodup).mp ?_
      rw [List.getElem?_map, List.getElem?_map, hrow, hk, Option.map_some, Option.map_some, hident,
        ← heq, hnew entry hentry]

/-- After an edit the documents have the right durations exactly when it
keeps the original one, and then the list is held again. -/
theorem onTrack_edit_iff (h : Held log E s) (hidle : s.pending = []) (hrunning : s.crashed = none)
    (hform : s.editing[e]? = some form) (hsaves : form.saves s = true)
    (hpath : form.indexPath = some row) (hpicked : PickedForms s)
    (hrow : s.habitArray[row]? = some habit) (hfor : form.IsFor habit) :
    (KeepsDurations (log ++ confirmed s (.editConfirmed e)) (EditHabit.editHabit e s).store ↔
        KeepsOriginal s (.editConfirmed e)) ∧
      (KeepsOriginal s (.editConfirmed e) →
        ∃ E', Held (log ++ confirmed s (.editConfirmed e)) E' (EditHabit.editHabit e s)) := by
  obtain ⟨hlists, hshown⟩ := h.rest hidle
  have hrow := Held.row hshown hrow
  have hident : habit.toDocument.timing.ident = form.habit.ident := hfor.1
  have hlt := (List.getElem?_eq_some_iff.mp hrow).1
  have hiff := rightTiming_edit_iff hrunning hform hsaves hpicked hfor
    (h.right _ (List.mem_of_getElem? hrow))
  have hnew : ∀ entry ∈ confirmed s (.editConfirmed e), entry.1 = form.habit.ident := by
    rw [confirmed_edit hrunning hform hsaves]
    split <;> simp
  have hall := h.forall_edit hrow hident hnew
  have haccepted : form.accepted = true := by
    simp only [EditForm.saves, Bool.and_eq_true] at hsaves
    exact hsaves.1.1
  obtain ⟨color, hcolor⟩ : ∃ color, s.sectionColor = some color := by
    simp only [EditForm.saves, Bool.and_eq_true] at hsaves
    exact Option.isSome_iff_exists.mp hsaves.2
  rw [editHabit_eq hform haccepted hpath hcolor]
  have hlists' := hlists.edit hrow hident color form.habit.ident
  have hdoc := hlists'.docs row (by rwa [List.length_set])
  rw [List.getElem?_set_self hlt] at hdoc
  rw [← hiff]
  refine ⟨⟨fun hkeeps => ?_, fun hright => hlists'.keepsDurations (hall.mpr hright)⟩, fun hright =>
    ⟨_, .queued (p := { callback := .fetch }) ?_ rfl hlists', hall.mpr hright, ?_, ?_⟩⟩
  · rw [keepsDurations_iff] at hkeeps
    refine hkeeps row ?_ _ hdoc
    exact hlists'.counter ▸ (by rwa [List.length_set])
  · simp [State.issue, EditHabit.setForm, State.write, hidle]
  · rw [map_set_of_eq Timing.ident hrow hident.symm]
    exact h.nodup
  · intro t ht
    rcases List.mem_or_eq_of_mem_set ht with ht | rfl
    · exact h.fresh t ht
    · have hlt := h.fresh _ (List.mem_of_getElem? hrow)
      rwa [hident] at hlt

end Edit

/-! ## Callbacks -/

namespace OnTrack

variable {log : List (Nat × List Int)} {E : List Timing} {s : State} {i : Nat} {p : Pending}

/-- A callback of a refresh. -/
theorem fetchRead (h : Held log E s) (hkeeps : KeepsDurations log s.store)
    (hlisted : Listed HabitDoc.timing E s)
    (hcalls : ∀ p ∈ s.pending, p.callback.isFetch = true ∨ p.callback = .reload)
    (hp : s.pending[i]? = some p) (hcb : p.callback.isFetch = true)
    (hread : p.callback.isRead = true → ∃ st, p.snapshot = some st) :
    OnTrack log (p.callback.run p.snapshot (s.dropPending i)) := by
  have hframe := listOnly_of_isRefresh (Callback.isRefresh_of_isFetch hcb) p.snapshot
    (s.dropPending i)
  obtain ⟨cbs, hpending, hcbs⟩ :=
    pending_of_isRefresh (Callback.isRefresh_of_isFetch hcb) p.snapshot (s.dropPending i)
  refine ⟨?_, fun hcrash => ⟨E, .listed (hlisted.fetchRead hp hcb hread hcrash) (Or.inl ?_),
    h.right, h.nodup, ?_⟩⟩
  · rw [hframe.store]
    exact hkeeps
  · intro q hq
    rw [hpending] at hq
    rcases List.mem_append.mp hq with hq | hq
    · exact hcalls q (List.mem_of_mem_eraseIdx hq)
    · obtain ⟨cb, hcb, rfl⟩ := List.mem_map.mp hq
      exact Or.inl (hcbs cb hcb)
  · rw [hframe.nextIdent]
    exact h.fresh

/-- The completion of the first write of a delete.  The counter gets lower. -/
theorem deleteDone (h : Held log E s) (hkeeps : KeepsDurations log s.store)
    (hlisted : Listed HabitDoc.timing E s) (hpending : s.pending = [p])
    (hp : s.pending[i]? = some p) (hcb : p.callback = .deleteDone) :
    OnTrack log (deleteDone (s.dropPending i)) := by
  have hfetch : s.noFetch = true := by
    simp [State.noFetch, hpending, hcb, Callback.isFetch]
  have hnil := (only_pending hpending hp).2
  rcases deleteDone_cases (s.dropPending i) with hs | ⟨row, hglobal⟩
  · rw [hs]
    exact ⟨hkeeps, by simp⟩
  · have hrows := hlisted.rows_of_chain hfetch (noChain_eq_false hp (by rw [hcb]; rfl))
    have hlen : s.habitArray.length ≤ s.store.user.habitCounter := by
      rw [← List.length_map (f := fun h : Habit => h.toDocument.timing), hrows]
      exact hlisted.store.counter
    have hnext := hlisted.deleteDone hfetch hp hcb
    rw [deleteDone_eq hglobal] at hnext ⊢
    refine ⟨fun k hk doc hdoc => ?_, fun hcrash => ⟨E, .listed (hnext hcrash) (Or.inr ?_), h.right,
      h.nodup, h.fresh⟩⟩
    · have hold : s.store.habits k = some doc := by
        simp only [State.issue_store, State.write_store, State.writeAll_store,
          Store.apply_updateUser_habits, State.dropPending_store, Option.mem_def] at hdoc
        split at hdoc
        · exact hdoc
        · rw [Store.applyAll_cons, Store.applyAll_nil, Store.apply_deleteHabit_habits] at hdoc
          split at hdoc
          · contradiction
          · exact hdoc
      exact hkeeps k (Nat.lt_of_lt_of_le hk hlen) doc hold
    · exact ⟨{ callback := .counterDone }, by
        rw [State.issue_pending, State.write_pending, State.writeAll_pending, hnil]
        rfl, Or.inl rfl⟩

/-- The completion of the counter update rewrites all documents. -/
theorem counterDone (h : Held log E s) (hlisted : Listed HabitDoc.timing E s)
    (hpending : s.pending = [p]) (hp : s.pending[i]? = some p) (hcb : p.callback = .counterDone) :
    OnTrack log (counterDone (s.dropPending i)) := by
  have hfetch : s.noFetch = true := by
    simp [State.noFetch, hpending, hcb, Callback.isFetch]
  have hnil : s.pending.eraseIdx i = [] := (only_pending hpending hp).2
  have hnext := hlisted.counterDone hfetch hp hcb
  have hlists := hnext.settled (by
    simp [HabitCollection.counterDone, updateFirebaseHabits, State.noChain, hnil, Callback.isChain])
  refine ⟨hlists.keepsDurations h.right, fun _ => ⟨E, .queued (p := { callback := .fetch }) ?_ rfl
    hlists, h.right, h.nodup, h.fresh⟩⟩
  simp [HabitCollection.counterDone, updateFirebaseHabits, hnil]

/-- The callback of a completion. -/
theorem finishedRead (h : Held log E s) (hkeeps : KeepsDurations log s.store)
    (hlisted : Listed HabitDoc.timing E s) (hpending : s.pending = [p])
    (hp : s.pending[i]? = some p) {row ident : Nat} (hcb : p.callback = .finished row ident) :
    OnTrack log (finishedRead row ident p.snapshot (s.dropPending i)) := by
  have hnil : s.pending.eraseIdx i = [] := (only_pending hpending hp).2
  have hdrop : Held log E (s.dropPending i) :=
    ⟨.listed (hlisted.drop hp (by rw [hcb]; rfl) (by rw [hcb]; rfl)) (Or.inl (by simp [hnil])),
      h.right, h.nodup, h.fresh⟩
  have hws : ∀ w ∈ finishedWrites row ident p.snapshot, w.isTimeless = true := by
    cases p.snapshot <;> simp [finishedWrites, Write.isTimeless]
  rw [finishedRead_eq]
  exact mild hdrop hkeeps hnil _ [] hws rfl rfl (by simp) (Or.inl (by simp)) rfl

/-- The callback of a create appends its document. -/
theorem addHabitRead (h : Held log E s) {c : Nat} {habit : Habit} {form : CreateForm} {st : Store}
    (hpending : s.pending = [p]) (hp : s.pending[i]? = some p)
    (hcounter : st.user.habitCounter = s.store.user.habitCounter)
    (hform : s.creating[c]? = some form) (hlists : s.store.Lists HabitDoc.timing E)
    (hright : RightTiming log (CreateHabit.newDocument habit
      (CreateHabit.formRead habit none form).timeArray).timing)
    (hnew : ∀ t ∈ E, t.ident ≠ habit.ident) (hnext : habit.ident < s.nextIdent) :
    OnTrack log (CreateHabit.addHabitRead c habit (some st) (s.dropPending i)) := by
  have hnil : s.pending.eraseIdx i = [] := (only_pending hpending hp).2
  let doc := CreateHabit.newDocument habit (CreateHabit.formRead habit none form).timeArray
  have hrun : CreateHabit.addHabitRead c habit (some st) (s.dropPending i) =
      (((CreateHabit.setForm c (CreateHabit.formRead habit (some st) form)
        (s.dropPending i)).write (.setHabit s.store.user.habitCounter doc)).write
        (.updateUser { habitCounter := some (s.store.user.habitCounter + 1) })).issue .fetch := by
    rw [← hcounter]
    simp [CreateHabit.addHabitRead, hform, CreateHabit.formRead, doc]
  have hlists' : ((s.store.apply (.setHabit s.store.user.habitCounter doc)).apply
      (.updateUser { habitCounter := some (s.store.user.habitCounter + 1) })).Lists HabitDoc.timing
        (E ++ [doc.timing]) := by
    refine ⟨by simp [hlists.counter], fun k hk => ?_⟩
    rw [List.length_append, List.length_singleton] at hk
    rw [Store.apply_updateUser_habits, Store.apply_setHabit_habits, hlists.counter]
    split
    · next heq => rw [heq]; simp
    · next hne =>
      rw [List.getElem?_append_left (by omega)]
      exact hlists.docs k (by omega)
  have hall : ∀ t ∈ E ++ [doc.timing], RightTiming log t := by
    intro t ht
    rcases List.mem_append.mp ht with ht | ht
    · exact h.right t ht
    · rw [List.mem_singleton.mp ht]
      exact hright
  rw [hrun]
  refine ⟨hlists'.keepsDurations hall, fun _ => ⟨_, .queued (p := { callback := .fetch }) ?_ rfl
    hlists', hall, ?_, ?_⟩⟩
  · simp [State.issue, CreateHabit.setForm, State.write, hnil]
  · rw [List.map_append, List.nodup_append]
    refine ⟨h.nodup, by simp, fun a ha b hb heq => ?_⟩
    obtain ⟨t, ht, rfl⟩ := List.mem_map.mp ha
    simp only [List.map_cons, List.map_nil, List.mem_singleton] at hb
    exact hnew t ht (heq.trans hb)
  · intro t ht
    rcases List.mem_append.mp ht with ht | ht
    · exact h.fresh t ht
    · rw [List.mem_singleton.mp ht]
      exact hnext

theorem deliver (h : Held log E s) (hkeeps : KeepsDurations log s.store) (i : Nat) :
    OnTrack log (s.deliver i) := by
  rcases deliver_cases s i with ⟨hs, _⟩ | ⟨p, hp, hread, hs⟩
  · rw [hs]
    exact ⟨hkeeps, fun _ => ⟨E, h⟩⟩
  · rw [hs]
    cases h.stage with
    | listed hlisted hcalls =>
      rcases hcalls with hcalls | ⟨q, hq, hcb⟩
      · rcases hcalls p (List.mem_of_getElem? hp) with hfetch | hreload
        · exact fetchRead h hkeeps hlisted hcalls hp hfetch hread
        · rw [hreload]
          have hdrop := hlisted.drop hp (by rw [hreload]; rfl) (by rw [hreload]; rfl)
          exact ⟨hkeeps, fun _ => ⟨E, .listed (hdrop.same rfl rfl rfl)
            (Or.inl fun q hq => hcalls q (List.mem_of_mem_eraseIdx hq)), h.right, h.nodup, h.fresh⟩⟩
      · obtain ⟨rfl, _⟩ := only_pending hq hp
        cases hcase : p.callback with
        | deleteDone => exact deleteDone h hkeeps hlisted hq hp hcase
        | counterDone => exact counterDone h hlisted hq hp hcase
        | finished row ident => exact finishedRead h hkeeps hlisted hq hp hcase
        | _ => rw [hcase] at hcb; rcases hcb with hcb | hcb <;> contradiction
    | queued hpending hcb hlists =>
      obtain ⟨rfl, hnil⟩ := only_pending hpending hp
      rw [hcb]
      have hfetch : (s.dropPending i).noFetch = true := by rw [State.noFetch, hnil]; rfl
      refine ⟨hkeeps, fun _ => ⟨E, .listed ⟨hlists.holed, fun _ => hlists,
        Or.inl (Loading.start_alone rfl hfetch)⟩ (Or.inl fun q hq => ?_), h.right,
          h.nodup, h.fresh⟩⟩
      rw [Callback.run, fetchFirebaseHabits, State.issue_pending] at hq
      simp only [hnil, List.nil_append, List.mem_singleton] at hq
      rw [hq]
      exact Or.inl rfl
    | creating hpending hcb hsnapshot hform hlists hright hnew hnext =>
      obtain ⟨rfl, _⟩ := only_pending hpending hp
      obtain ⟨st, hst⟩ := hread (by rw [hcb]; rfl)
      rw [hcb, hst]
      exact addHabitRead h hpending hp (hsnapshot st hst) hform hlists hright hnew hnext

theorem serve (h : Held log E s) (hkeeps : KeepsDurations log s.store) (i : Nat) :
    OnTrack log (s.serve i) := by
  refine ⟨by rw [serve_store]; exact hkeeps, fun _ => ⟨E, ?_⟩⟩
  rcases serve_cases s i with hs | ⟨q, hq, hread, _, hs⟩
  · rw [hs]
    exact h
  · have hnextIdent : (s.serve i).nextIdent = s.nextIdent := by rw [hs]
    refine ⟨?_, h.right, h.nodup, by rw [hnextIdent]; exact h.fresh⟩
    have hset : ∀ {p : Pending}, s.pending = [p] →
        (s.serve i).pending = [{ q with snapshot := some s.store }] ∧ q = p := by
      intro p hpending
      obtain ⟨rfl, _⟩ := only_pending hpending hq
      rw [hs]
      refine ⟨?_, rfl⟩
      rw [hpending] at hq ⊢
      cases i with
      | zero => rfl
      | succ i => simp at hq
    cases h.stage with
    | listed hlisted hcalls =>
      refine .listed (hlisted.serve i) ?_
      rcases hcalls with hcalls | ⟨p, hpending, hcb⟩
      · refine Or.inl fun p hp => ?_
        rcases mem_serve s i hp with hp | ⟨_, hp⟩
        · exact hcalls p hp
        · exact hcalls { callback := p.callback } hp
      · obtain ⟨hset, rfl⟩ := hset hpending
        exact Or.inr ⟨_, hset, hcb⟩
    | queued hpending hcb =>
      obtain ⟨_, rfl⟩ := hset hpending
      rw [hcb] at hread
      contradiction
    | creating hpending hcb hsnapshot hform hlists hright hnew hnext =>
      obtain ⟨hset, rfl⟩ := hset hpending
      have hlists' : (s.serve i).store.Lists HabitDoc.timing E := by
        rw [serve_store]
        exact hlists
      exact .creating hset hcb (by simp) (by rw [hs]; exact hform) hlists' hright hnew
        (hnextIdent ▸ hnext)

end OnTrack

/-! ## Runs -/

theorem PickedForms.set {s : State} (h : PickedForms s) (e : Nat) {form : EditForm}
    (hform : form.timeArray ≠ [] → form.habit.time = form.timeArray) :
    PickedForms (EditHabit.setForm e form s) := by
  intro form' hform'
  rcases List.mem_or_eq_of_mem_set hform' with hmem | rfl
  · exact h form' hmem
  · exact hform

theorem PickedForms.handle {s : State} (h : PickedForms s) (e : Event) :
    PickedForms (handle s e) := by
  by_cases hdevice : e.isDevice = false
  · rw [PickedForms, (keepsDevice_handle hdevice s).editing]
    exact h
  · cases e with
    | relaunch => simp [PickedForms, HabitHive.handle, State.relaunch]
    | nextDay => exact h
    | didSelectItemAt row menu =>
      rw [PickedForms, HabitHive.handle, (saved_didSelectItemAt row menu s).2.2.2]
      exact h
    | sectionColor color => exact h
    | editHabit =>
      simp only [HabitHive.handle, HabitCollection.editHabit]
      split
      · exact h
      · split
        · exact h
        · split
          · exact h
          · intro form hform
            rcases List.mem_append.mp hform with hmem | hnew
            · exact h form hmem
            · rw [List.mem_singleton.mp hnew]
              exact absurd rfl
    | editName e text =>
      simp only [HabitHive.handle, EditHabit.habitNameChanged]
      split
      · exact h
      · next form hform => exact h.set e (h form (List.mem_of_getElem? hform))
    | editAmount e amount =>
      simp only [HabitHive.handle, EditHabit.didTapConfirmAmount]
      split
      · exact h
      · next form hform => exact h.set e (h form (List.mem_of_getElem? hform))
    | editTime e time =>
      simp only [HabitHive.handle, EditHabit.didTapConfirmTime]
      split
      · exact h
      · split
        · exact h
        · exact h.set e fun _ => rfl
    | editConfirmed e =>
      simp only [HabitHive.handle]
      unfold EditHabit.editHabit
      split
      · exact h
      · next form hform =>
        have hpicked := h form (List.mem_of_getElem? hform)
        split_ifs
        · split
          · exact h
          · exact h
          · exact h.set e hpicked
        · exact h.set e hpicked
        · exact h.set e hpicked
    | _ => contradiction

/-- Each operation comes to its end before the next one starts, and no read
fails.  An edit screen is used while the list shows, at its row, the habit
it was opened for. -/
def TurnByTurn (s : State) : Event → Prop
  | .serve _ | .deliver _ | .nextDay => True
  | .editConfirmed e => s.pending = [] ∧ ∀ form ∈ s.editing[e]?, ∀ row ∈ form.indexPath,
      ∃ habit ∈ s.habitArray[row]?, form.IsFor habit
  | .relaunch | .viewDidLoad | .fail _ => False
  | _ => s.pending = []

instance (s : State) (e : Event) : Decidable (TurnByTurn s e) := by
  induction e using Event.casesOn <;> unfold TurnByTurn <;> infer_instance

/-- A form that is not saved leaves the documents. -/
theorem screensOnly_of_not_saves {e : Nat} {form : EditForm} {s : State}
    (hform : s.editing[e]? = some form) (hsaves : form.saves s = false) :
    ScreensOnly s (EditHabit.editHabit e s) := by
  simp only [EditHabit.editHabit, hform]
  split_ifs with hname hlen
  · split
    · exact screensOnly_crash s (by simp)
    · exact screensOnly_crash s (by simp)
    · next color row hcolor hpath =>
      simp [EditForm.saves, EditForm.accepted, hname, hlen, hcolor, hpath] at hsaves
  · exact screensOnly_setEditForm e _ s
  · exact screensOnly_setEditForm e _ s

theorem confirmed_of_not_edit {s : State} {e : Event} (hcreate : ∀ c, e ≠ .addHabitButtonTapped c)
    (hedit : ∀ i, e ≠ .editConfirmed i) : confirmed s e = [] := by
  unfold confirmed
  split
  · cases e with
    | addHabitButtonTapped c => exact absurd rfl (hcreate c)
    | editConfirmed i => exact absurd rfl (hedit i)
    | _ => rfl
  · rfl

section Step

variable {log : List (Nat × List Int)} {s : State} {e : Event}

/-- An event other than an edit. -/
theorem OnTrack.handle (h : OnTrack log s) (hrunning : s.crashed = none) (hbase : TurnByTurn s e)
    (hedit : ∀ i, e ≠ .editConfirmed i) : OnTrack (log ++ confirmed s e) (handle s e) := by
  obtain ⟨hkeeps, hheld⟩ := h
  obtain ⟨E, hheld⟩ := hheld hrunning
  by_cases hcreate : ∃ c, e = .addHabitButtonTapped c
  · obtain ⟨c, rfl⟩ := hcreate
    exact OnTrack.create hheld hkeeps hbase hrunning c
  · rw [confirmed_of_not_edit (fun c hc => hcreate ⟨c, hc⟩) hedit, List.append_nil]
    have hscreen : e.isScreen = true → s.pending = [] → OnTrack log (HabitHive.handle s e) := by
      intro hscreen hidle
      have hframe := screensOnly_of_event hscreen s
      exact OnTrack.screens hheld hkeeps hframe.store hframe.habitArray hframe.pending hidle
        hframe.nextIdent
    cases e with
    | serve i => exact OnTrack.serve hheld hkeeps i
    | deliver i => exact OnTrack.deliver hheld hkeeps i
    | nextDay => exact ⟨hkeeps, fun _ => ⟨E, hheld.same rfl rfl rfl rfl rfl⟩⟩
    | viewWillAppear => exact OnTrack.appear hheld hkeeps hbase
    | fetchFirebaseHabits => exact OnTrack.refresh hheld hkeeps hbase
    | deleteHabit => exact OnTrack.delete hheld hkeeps hbase
    | didSelectItemAt row menu => exact OnTrack.tap hheld hkeeps hbase row menu
    | createTimeArray row ident time => exact OnTrack.stop hheld hkeeps hbase row ident time
    | showAlert row => exact OnTrack.finish hheld hkeeps hbase row
    | addHabitButtonTapped c => exact absurd ⟨c, rfl⟩ hcreate
    | editConfirmed i => exact absurd rfl (hedit i)
    | relaunch => exact hbase.elim
    | viewDidLoad => exact hbase.elim
    | fail i => exact hbase.elim
    | _ => exact hscreen rfl hbase

/-- What an edit does to the durations. -/
theorem OnTrack.edit_iff (h : OnTrack log s) (hpicked : PickedForms s) (hrunning : s.crashed = none)
    {i : Nat} (hbase : TurnByTurn s (.editConfirmed i)) :
    (KeepsDurations (log ++ confirmed s (.editConfirmed i)) (EditHabit.editHabit i s).store ↔
        KeepsOriginal s (.editConfirmed i)) ∧
      (KeepsOriginal s (.editConfirmed i) →
        OnTrack (log ++ confirmed s (.editConfirmed i)) (EditHabit.editHabit i s)) := by
  obtain ⟨hkeeps, hheld⟩ := h
  obtain ⟨E, hheld⟩ := hheld hrunning
  -- nothing is saved
  have hnothing : confirmed s (.editConfirmed i) = [] → ScreensOnly s (EditHabit.editHabit i s) →
      KeepsOriginal s (.editConfirmed i) →
      (KeepsDurations (log ++ confirmed s (.editConfirmed i)) (EditHabit.editHabit i s).store ↔
          KeepsOriginal s (.editConfirmed i)) ∧
        (KeepsOriginal s (.editConfirmed i) →
          OnTrack (log ++ confirmed s (.editConfirmed i)) (EditHabit.editHabit i s)) := by
    intro hlog hframe hok
    have htrack := OnTrack.screens hheld hkeeps hframe.store hframe.habitArray
      hframe.pending hbase.1
      hframe.nextIdent
    rw [hlog, List.append_nil]
    exact ⟨iff_of_true htrack.1 hok, fun _ => htrack⟩
  cases hform : s.editing[i]? with
  | none =>
    refine hnothing (by simp [confirmed, hform]) ?_ (by simp [KeepsOriginal, hform])
    simp only [EditHabit.editHabit, hform]
    exact .refl s
  | some form =>
    cases hsaves : form.saves s with
    | false =>
      exact hnothing (by simp [confirmed, hform, hsaves]) (screensOnly_of_not_saves hform hsaves)
        (by simp [KeepsOriginal, hform, hsaves])
    | true =>
      obtain ⟨row, hpath⟩ : ∃ row, form.indexPath = some row := by
        simp only [EditForm.saves, Bool.and_eq_true] at hsaves
        exact Option.isSome_iff_exists.mp hsaves.1.2
      obtain ⟨habit, hrow, hfor⟩ := hbase.2 form hform row hpath
      obtain ⟨hiff, hnext⟩ := onTrack_edit_iff hheld hbase.1 hrunning hform hsaves hpath
        hpicked hrow hfor
      exact ⟨hiff, fun hok => ⟨hiff.mpr hok, fun _ => hnext hok⟩⟩

theorem OnTrack.step_iff (h : OnTrack log s) (hpicked : PickedForms s) (hbase : TurnByTurn s e) :
    (KeepsDurations (log ++ confirmed s e) (step s e).store ↔ KeepsOriginal s e) ∧
      (KeepsOriginal s e → OnTrack (log ++ confirmed s e) (step s e)) := by
  by_cases hrunning : s.crashed = none
  · rw [step_of_running hrunning]
    by_cases hedit : ∃ i, e = .editConfirmed i
    · obtain ⟨i, rfl⟩ := hedit
      exact h.edit_iff hpicked hrunning hbase
    · have hedit : ∀ i, e ≠ .editConfirmed i := fun i hi => hedit ⟨i, hi⟩
      have htrack := h.handle hrunning hbase hedit
      have hok : KeepsOriginal s e := by
        cases e with
        | editConfirmed i => exact absurd rfl (hedit i)
        | _ => trivial
      exact ⟨iff_of_true htrack.1 hok, fun _ => htrack⟩
  · have hlaunch : e ≠ .relaunch := by
      rintro rfl
      exact hbase
    have hlog : confirmed s e = [] := by simp [confirmed, hrunning]
    have hok : KeepsOriginal s e := by
      cases e <;> first | trivial | exact fun hrun => absurd hrun hrunning
    rw [step, if_neg hrunning, if_neg hlaunch, hlog, List.append_nil]
    exact ⟨iff_of_true h.1 hok, fun _ => h⟩

end Step

/-- From sign-up, in a run of creates, edits, deletes, taps, refreshes,
resets, stops and ends of countdowns, one after the other: at every moment
the stored original duration of each timed habit is the one last confirmed
for it, exactly when every edit that saves a timed habit without a new time
finds its whole time left. -/
theorem durations_kept_iff {es : List Event}
    (hbase : Runs.Guarded step TurnByTurn (.launched .signUp) es) :
    Runs.Always (Runs.record step confirmed) (fun x => KeepsDurations x.2 x.1.store)
        (.launched .signUp, []) es ↔
      Runs.Guarded step KeepsOriginal (.launched .signUp) es := by
  have hstart : OnTrack [] (.launched .signUp) := by
    have hlists : Store.signUp.Lists HabitDoc.timing [] := ⟨rfl, by simp⟩
    have hheld : Held [] [] (.launched .signUp) :=
      ⟨.listed ⟨hlists.holed, fun _ => hlists, Or.inr ⟨rfl, Or.inr ⟨rfl, rfl⟩⟩⟩ (Or.inl (by
        simp [State.launched])), by simp, by simp, by simp⟩
    exact ⟨hlists.keepsDurations (by simp), fun _ => ⟨[], hheld⟩⟩
  have hturns : Runs.Guarded (Runs.record step confirmed) (fun x e => TurnByTurn x.1 e)
      (.launched .signUp, []) es := (Runs.guarded_record step confirmed _ es).mpr hbase
  have hedits : Runs.Guarded (Runs.record step confirmed) (fun x e => KeepsOriginal x.1 e)
        (.launched .signUp, []) es ↔ Runs.Guarded step KeepsOriginal (.launched .signUp) es :=
    Runs.guarded_record step confirmed _ es
  rw [← hedits]
  refine Runs.always_iff_of_exact (I := fun x => OnTrack x.2 x.1 ∧ PickedForms x.1)
    (fun _ hx => hx.1.1) ?_ ?_ hturns ⟨hstart, by simp [PickedForms, State.launched]⟩
  · intro x e hx hbase hok
    refine ⟨(hx.1.step_iff hx.2 hbase).2 hok, ?_⟩
    rw [Runs.record_fst, step]
    split_ifs
    · exact hx.2.handle e
    · simp [PickedForms, State.relaunch]
    · exact hx.2
  · exact fun x e hx hbase => (hx.1.step_iff hx.2 hbase).1.mp

/-- A timed habit of ten minutes is created and loaded. -/
def Event.createTimed : List Event :=
  [.addButtonTapped, .createName 0 ["w"], .createTime 0 [0, 0, 1, 0, 0, 0],
    .addHabitButtonTapped 0, .serve 0, .deliver 0, .deliver 0, .serve 0, .deliver 0, .serve 0,
    .deliver 0]

/-- The countdown is stopped at five minutes, and then the name is edited.
The ten minutes are lost. -/
theorem edit_of_name_loses_duration :
    let es := Event.createTimed ++ [.createTimeArray 0 0 [0, 0, 0, 5, 0, 0], .handleLongPress 0,
      .editHabit, .editName 0 ["v"], .editConfirmed 0]
    let s := run (.launched .signUp) es
    let log := Runs.observe step confirmed (.launched .signUp) es
    Runs.Guarded step TurnByTurn (.launched .signUp) es ∧ s.crashed = none ∧
      lastConfirmed log 0 = some [0, 0, 1, 0, 0, 0] ∧
      (s.store.habits 0).map (·.fields.timeArrayOriginal) = some (some [0, 0, 0, 5, 0, 0]) ∧
      ¬KeepsDurations log s.store := by
  decide

/-- The same with a new time. -/
theorem durations_kept_iff_new_time :
    let es := Event.createTimed ++ [.createTimeArray 0 0 [0, 0, 0, 5, 0, 0], .handleLongPress 0,
      .editHabit, .editTime 0 [0, 0, 2, 0, 0, 0], .editConfirmed 0]
    Runs.Always (Runs.record step confirmed) (fun x => KeepsDurations x.2 x.1.store)
        (.launched .signUp, []) es ↔
      Runs.Guarded step KeepsOriginal (.launched .signUp) es :=
  durations_kept_iff (by decide)

end HabitHive
