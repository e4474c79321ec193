import HabitHive.Launch
import HabitHive.Refinement

/-!
# A delete that is cut off

A delete of row `row` in a list of `n` habits writes the documents in four
stages: it deletes document `row`, then document `n - 1` unless the row was
the last, sets the counter to `n - 1`, and rewrites the documents 0, 1, …
of the list that is left.  The app can be killed between any two of these
writes, and the next launch finds what is there.

`Store.found` is what a launch shows of a store, and `survivors` what it
finds after a given number of the writes.

* Before the counter is set, document `row` is missing and is still
  counted, so the launch ends the process.  The same holds after it until
  the rewriting has passed the row, unless the row was the last.
* After `j` documents are rewritten, the first `j` come from the new list
  and the others from the old one.  The old ones still have their old
  numbers, so habit `j` is there twice, and the last habit is lost.

A create is written document first and counter last, so that it is cut off
into the list before it or the list after it.
-/

namespace HabitHive

open HabitCollection

/-! ## What a launch finds -/

namespace Store

/-- The habit document that a launch reads for number `i`. -/
def entryAt (st : Store) (i : Nat) : Option Entry := (st.habits i).bind (·.fields.decode)

theorem map_readHabit (st : Store) (i : Nat) : (st.readHabit i).map Habit.entry = st.entryAt i := by
  rw [readHabit, Habit.ofDocument_eq, entryAt]
  cases st.habits i with
  | none => rfl
  | some doc => cases hentry : doc.fields.decode <;> simp [hentry, Entry.toHabit, Habit.entry]

/-- What a launch shows, unless it ends the process. -/
def found (st : Store) : Option (List Entry) :=
  if st.Loadable then some (st.loaded.map Habit.entry) else none

variable {st : Store} {l : List Entry}

theorem found_eq_some (hcount : st.user.habitCounter = l.length)
    (hentry : ∀ i < l.length, st.entryAt i = l[i]?) : st.found = some l := by
  have hload : st.Loadable := fun i hi => by
    rw [← Option.isSome_map (f := Habit.entry), map_readHabit, hentry i (hcount ▸ hi),
      List.getElem?_eq_getElem (hcount ▸ hi)]
    rfl
  rw [found, if_pos hload, loaded, numbers, List.map_filterMap, hcount,
    List.filterMap_congr (g := (l[·]?)), Keyed.filterMap_range_getElem?]
  intro i hi
  rw [map_readHabit, hentry i (List.mem_range.mp hi)]

theorem found_eq_none {i : Nat} (hi : i < st.user.habitCounter) (hentry : st.entryAt i = none) :
    st.found = none := by
  refine if_neg fun hload => ?_
  have hsome := hload i hi
  rw [← Option.isSome_map (f := Habit.entry), map_readHabit, hentry] at hsome
  contradiction

/-! ## What the writes leave -/

variable (st : Store)

theorem entryAt_deleteHabit (n i : Nat) :
    (st.apply (.deleteHabit n)).entryAt i = if i = n then none else st.entryAt i := by
  rw [entryAt, apply_deleteHabit_habits, entryAt]
  split <;> rfl

@[simp] theorem entryAt_updateUser (fields : UserFields) (i : Nat) :
    (st.apply (.updateUser fields)).entryAt i = st.entryAt i := rfl

/-- The documents after the rewriting of the first ones. -/
theorem entryAt_setHabits (hs : List Habit) (i : Nat) :
    (st.applyAll (setHabits 0 (hs.map Habit.toDocument))).entryAt i =
      if i < hs.length then (hs.map Habit.entry)[i]? else st.entryAt i := by
  rw [entryAt, applyAll_setHabits]
  simp only [Nat.zero_le, true_and, Nat.zero_add, List.length_map, Nat.sub_zero]
  split
  · next hi => simp [Habit.toDocument, hi]
  · rfl

theorem take_setHabits (n j : Nat) (docs : List HabitDoc) :
    (setHabits n docs).take j = setHabits n (docs.take j) := by
  induction docs generalizing n j with
  | nil => simp [setHabits]
  | cons doc docs ih =>
    cases j with
    | zero => rfl
    | succ j => simp [setHabits, ih]

@[simp] theorem length_setHabits (n : Nat) (docs : List HabitDoc) :
    (setHabits n docs).length = docs.length := by
  induction docs generalizing n with
  | nil => rfl
  | cons doc docs ih => simp [setHabits, ih]

end Store

/-! ## The writes of a delete -/

/-- The writes of a delete up to the counter, when `n` habits are left. -/
def clearWrites (row n : Nat) : List Write :=
  .deleteHabit row :: (if n = row then [] else [.deleteHabit n]) ++
    [.updateUser { habitCounter := some n }]

/-- The writes of `updateFirebaseHabits` for the list `hs`. -/
def rewriteWrites (hs : List Habit) : List Write :=
  Store.setHabits 0 (hs.map Habit.toDocument) ++ [.updateUser { habitCounter := some hs.length }]

/-- The writes of a delete that leaves the list `hs`. -/
def deleteWrites (row : Nat) (hs : List Habit) : List Write :=
  clearWrites row hs.length ++ rewriteWrites hs

/-- A callback that waits alone is delivered. -/
theorem step_deliver {s : State} {c : Callback} (hrunning : s.crashed = none)
    (hpending : s.pending = [{ callback := c }]) (hread : c.isRead = false) :
    step s (.deliver 0) = c.run none (s.dropPending 0) := by
  rw [step_of_running hrunning, handle, State.deliver, hpending]
  simp [hread]

/-- A delete whose callbacks come back issues these writes. -/
theorem journal_delete {s : State} {row : Nat} (hrunning : s.crashed = none)
    (hidle : s.pending = []) (hglobal : s.indexPathGlobal = some row)
    (hrow : row < s.habitArray.length) :
    (run s [.deleteHabit, .deliver 0, .deliver 0]).journal =
      s.journal ++ deleteWrites row (s.habitArray.eraseIdx row) := by
  have hpress := deleteHabit_eq hglobal hrow
  have hfirst : run s [.deleteHabit, .deliver 0] =
      deleteDone ((deleteHabit s).dropPending 0) := by
    rw [run_cons, run_cons, run_nil, step_of_running hrunning, handle, hpress]
    exact step_deliver (c := .deleteDone) hrunning (by simp [hidle]) rfl
  have hglobal' : ((deleteHabit s).dropPending 0).indexPathGlobal = some row := by
    rw [hpress]
    exact hglobal
  have hcounter := deleteDone_eq hglobal'
  have hsecond : run s [.deleteHabit, .deliver 0, .deliver 0] =
      counterDone ((deleteDone ((deleteHabit s).dropPending 0)).dropPending 0) := by
    rw [show [Event.deleteHabit, .deliver 0, .deliver 0] =
      [.deleteHabit, .deliver 0] ++ [.deliver 0] from rfl, run_append, hfirst, run_cons, run_nil]
    refine step_deliver (c := .counterDone) ?_ ?_ rfl
    · rw [hcounter, hpress]
      exact hrunning
    · rw [hcounter, hpress]
      simp [hidle]
  rw [hsecond, counterDone, updateFirebaseHabits, hcounter, hpress]
  simp [deleteWrites, clearWrites, rewriteWrites]

/-- What is left after `k` writes of a delete of row `row` of `l`. -/
def survivors (l : List Entry) (row k : Nat) : Option (List Entry) :=
  let last := row + 1 = l.length
  let c := if last then 2 else 3
  if k = 0 then some l
  else if k < c then none
  else if last ∨ row < k - c then some ((l.eraseIdx row).take (k - c) ++ l.dropLast.drop (k - c))
  else none

section Survivors

variable {l : List Entry} {st : Store} {row n : Nat}

/-- Until the counter is set, the deleted document is missing. -/
theorem found_before (hrow : row < st.user.habitCounter) {k : Nat} (hpos : 0 < k)
    (hk : k < (clearWrites row n).length) :
    (st.applyAll ((clearWrites row n).take k)).found = none := by
  have hcases : (clearWrites row n).take k = [.deleteHabit row] ∨
      (clearWrites row n).take k = [.deleteHabit row, .deleteHabit n] := by
    unfold clearWrites at hk ⊢
    by_cases hlast : n = row
    · obtain rfl : k = 1 := by
        simp [hlast] at hk
        omega
      simp [hlast]
    · have hk : k = 1 ∨ k = 2 := by
        simp [hlast] at hk
        omega
      rcases hk with rfl | rfl <;> simp [hlast]
  refine Store.found_eq_none (i := row) ?_ ?_ <;> rcases hcases with h | h <;> rw [h]
  · exact hrow
  · exact hrow
  · simp [Store.entryAt_deleteHabit]
  · simp [Store.entryAt_deleteHabit]

/-- The documents when the counter is set. -/
theorem cleared (hentry : ∀ i, st.entryAt i = l[i]?) (row n : ℕ) :
    (st.applyAll (clearWrites row n)).user.habitCounter = n ∧ ∀ i < n,
      (st.applyAll (clearWrites row n)).entryAt i = if i = row then none else l[i]? := by
  by_cases hlast : n = row
  · simp [clearWrites, hlast, Store.entryAt_deleteHabit, hentry]
  · refine ⟨by simp [clearWrites, hlast], fun i hi => ?_⟩
    simp [clearWrites, hlast, hi.ne, Store.entryAt_deleteHabit, hentry]

/-- The rewriting keeps the counter, and the first documents are new. -/
theorem rewritten {hs : List Habit} (hcount : st.user.habitCounter = hs.length) (j : Nat) :
    (st.applyAll ((rewriteWrites hs).take j)).user.habitCounter = hs.length ∧
      ∀ i < hs.length, (st.applyAll ((rewriteWrites hs).take j)).entryAt i =
        if i < j then (hs.map Habit.entry)[i]? else st.entryAt i := by
  have hset : ∀ k, (st.applyAll (Store.setHabits 0 ((hs.take k).map Habit.toDocument))).user =
      st.user := fun k => by rw [Store.applyAll_setHabits]
  rw [rewriteWrites, List.take_append, Store.take_setHabits, ← List.map_take,
    Store.length_setHabits, List.length_map, Store.applyAll_append]
  rcases Nat.lt_or_ge hs.length j with hlt | hle
  · rw [List.take_of_length_le hlt.le, List.take_of_length_le (by simp; omega)]
    refine ⟨by simp, fun i hi => ?_⟩
    rw [Store.applyAll_cons, Store.applyAll_nil, Store.entryAt_updateUser, Store.entryAt_setHabits,
      if_pos hi, if_pos (hi.trans hlt)]
  · rw [Nat.sub_eq_zero_of_le hle, List.take_zero, Store.applyAll_nil, hset]
    refine ⟨hcount, fun i hi => ?_⟩
    rw [Store.entryAt_setHabits, List.length_take, Nat.min_eq_left hle]
    split
    · next hlt => rw [List.map_take, List.getElem?_take_of_lt hlt]
    · rfl

/-- From the counter on, the first documents come from the new list. -/
theorem found_after (hentry : ∀ i, st.entryAt i = l[i]?) (hrow : row < l.length) {hs : List Habit}
    (hhs : hs.map Habit.entry = l.eraseIdx row) (j : Nat) :
    ((st.applyAll (clearWrites row hs.length)).applyAll ((rewriteWrites hs).take j)).found =
      if row + 1 = l.length ∨ row < j then some ((l.eraseIdx row).take j ++ l.dropLast.drop j)
      else none := by
  obtain ⟨hcount, hcleared⟩ := cleared hentry row hs.length
  obtain ⟨hcount, hwritten⟩ := rewritten hcount j
  have hlen : hs.length = l.length - 1 := by
    rw [← List.length_eraseIdx_of_lt hrow, ← hhs, List.length_map]
  split
  · next h =>
    have hlength : ((l.eraseIdx row).take j ++ l.dropLast.drop j).length = hs.length := by
      rw [List.length_append, List.length_take, List.length_drop, List.length_dropLast,
        List.length_eraseIdx_of_lt hrow]
      omega
    refine Store.found_eq_some (hcount.trans hlength.symm) fun i hi => ?_
    rw [hlength] at hi
    rw [hwritten i hi, hhs]
    split
    · next hlt =>
      rw [List.getElem?_append_left, List.getElem?_take_of_lt hlt]
      rw [List.length_take, List.length_eraseIdx_of_lt hrow]
      omega
    · next hge =>
      have htake : ((l.eraseIdx row).take j).length = j := by
        rw [List.length_take, List.length_eraseIdx_of_lt hrow]
        omega
      rw [hcleared i hi, if_neg (by omega), List.getElem?_append_right (by omega), htake,
        List.getElem?_drop, Nat.add_sub_of_le (by omega), List.getElem?_dropLast,
        if_pos (by omega)]
  · next h =>
    push Not at h
    refine Store.found_eq_none (i := row) (by omega) ?_
    rw [hwritten row (by omega), if_neg (by omega), hcleared row (by omega), if_pos rfl]

end Survivors

/-- What a launch finds after any number of the writes of a delete. -/
theorem found_deleteWrites {l : List Entry} {s : State} (h : Represents l s) {row : Nat}
    (hrow : row < l.length) (k : Nat) :
    (s.store.applyAll ((deleteWrites row (s.habitArray.eraseIdx row)).take k)).found =
      survivors l row k := by
  have hentry : ∀ i, s.store.entryAt i = l[i]? := fun i => by
    rw [← Store.map_readHabit, h.decoded]
  have hhs : (s.habitArray.eraseIdx row).map Habit.entry = l.eraseIdx row := by
    rw [← List.eraseIdx_map, h.memory]
  have hlen : (s.habitArray.eraseIdx row).length + 1 = l.length := by
    have := congrArg List.length hhs
    rw [List.length_map, List.length_eraseIdx_of_lt hrow] at this
    omega
  have hc : (clearWrites row (s.habitArray.eraseIdx row).length).length =
      if row + 1 = l.length then 2 else 3 := by
    unfold clearWrites
    by_cases hlast : row + 1 = l.length
    · rw [if_pos hlast, if_pos (by omega)]
      rfl
    · rw [if_neg hlast, if_neg (by omega)]
      rfl
  rw [survivors, ← hc, deleteWrites]
  split_ifs with hzero hlt hnew
  · rw [hzero]
    exact Store.found_eq_some h.counter fun i _ => hentry i
  · rw [List.take_append_of_le_length hlt.le]
    exact found_before (h.counter ▸ hrow) (Nat.pos_of_ne_zero hzero) hlt
  · rw [List.take_append, List.take_of_length_le (by omega), Store.applyAll_append,
      found_after hentry hrow hhs, if_pos hnew]
  · rw [List.take_append, List.take_of_length_le (by omega), Store.applyAll_append,
      found_after hentry hrow hhs, if_neg hnew]

/-- A create writes its document before the counter counts it. -/
theorem found_createWrites {l : List Entry} {s : State} (h : Represents l s) {doc : HabitDoc}
    {e : Entry} (hdoc : doc.fields = e.fields) (k : Nat) :
    (s.store.applyAll ([.setHabit l.length doc,
      .updateUser { habitCounter := some (l.length + 1) }].take k)).found =
      some (if k < 2 then l else l ++ [e]) := by
  have hentry : ∀ i, s.store.entryAt i = l[i]? := fun i => by
    rw [← Store.map_readHabit, h.decoded]
  have hset : ∀ i, (s.store.apply (.setHabit l.length doc)).entryAt i = (l ++ [e])[i]? := by
    intro i
    rw [Store.entryAt, Store.apply_setHabit_habits]
    rcases Nat.lt_trichotomy i l.length with hlt | rfl | hgt
    · rw [if_neg hlt.ne, List.getElem?_append_left hlt, ← hentry]
      rfl
    · simp [hdoc]
    · rw [if_neg hgt.ne', List.getElem?_eq_none (by simp; omega)]
      exact (hentry i).trans (List.getElem?_eq_none hgt.le)
  rcases k with _ | _ | k
  · exact Store.found_eq_some h.counter fun i _ => hentry i
  · refine Store.found_eq_some h.counter fun i hi => ?_
    exact (hset i).trans (List.getElem?_append_left hi)
  · rw [if_neg (by omega)]
    refine Store.found_eq_some (by simp) fun i _ => ?_
    simpa using hset i

/-! ## The next launch -/

/-- The app is killed when the writes `ws` have been issued. -/
def State.killed (s : State) (ws : List Write) : State :=
  { s with store := s.store.applyAll ws, journal := s.journal ++ ws }

/-- A launch shows what it finds, in whatever order its reads come back. -/
theorem launch_found {s : State} (hsigned : s.signedIn = true) {e : ℕ → Event}
    (he : ∀ n, (e n).waits = true) (hfail : ∀ n i, e n ≠ .fail i) (hfair : Fair s e) :
    ∃ n, ∀ m, n ≤ m →
      let t := Runs.trace step (launch s) e m
      match s.store.found with
      | some l => t.crashed = none ∧ t.pending = [] ∧ t.habitArray.map Habit.entry = l ∧
          t.shownRows = l.length
      | none => t.crashed = some .forcedCast := by
  by_cases hload : s.store.Loadable
  · rw [Store.found, if_pos hload]
    obtain ⟨n, hn⟩ := launch_shows hsigned hload he (Or.inr hfail) hfair
    refine ⟨n, fun m hm => ?_⟩
    obtain ⟨hcrashed, hpending, _, hshown, _, hall⟩ := hn m hm
    refine ⟨hcrashed, hpending, by rw [hall hfail], ?_⟩
    rw [hshown, hall hfail, List.length_map]
  · rw [Store.found, if_neg hload]
    exact launch_crashes hsigned hload he hfail hfair

/-- A delete between two operations is killed after any number of its
writes.  The next launch then shows `survivors`, or ends when there is a
document missing, in whatever order its reads come back, if none of them
fails. -/
theorem killed_delete {l : List Entry} {s : State} (h : Represents l s)
    (hrunning : s.crashed = none)
    (hidle : s.pending = []) (hsigned : s.signedIn = true) {row : Nat}
    (hglobal : s.indexPathGlobal = some row) (hrow : row < l.length) {ws : List Write}
    (hws : s.journal ++ ws <+: (run s [.deleteHabit, .deliver 0, .deliver 0]).journal)
    {e : ℕ → Event} (he : ∀ n, (e n).waits = true) (hfail : ∀ n i, e n ≠ .fail i)
    (hfair : Fair (s.killed ws) e) :
    ∃ n, ∀ m, n ≤ m →
      let t := Runs.trace step (launch (s.killed ws)) e m
      match survivors l row ws.length with
      | some l' => t.crashed = none ∧ t.pending = [] ∧ t.habitArray.map Habit.entry = l' ∧
          t.shownRows = l'.length
      | none => t.crashed = some .forcedCast := by
  have hlen : row < s.habitArray.length := by
    rwa [← List.length_map (f := Habit.entry), h.memory]
  rw [journal_delete hrunning hidle hglobal hlen, List.prefix_append_right_inj,
    List.prefix_iff_eq_take] at hws
  have hfound : (s.killed ws).store.found = survivors l row ws.length := by
    rw [← found_deleteWrites h hrow, ← hws]
    rfl
  rw [← hfound]
  exact launch_found (s := s.killed ws) hsigned he hfail hfair

/-- Three stored habits, for examples. -/
def three : List Entry := [.sample 1, .sample 2, .sample 3]

/-- The first of three habits is deleted, and the app is killed after the
first document is rewritten: the second habit is there twice, and the third
is lost. -/
theorem killed_delete_doubles :
    let load : List Event := [.fetchFirebaseHabits, .serve 0, .deliver 0, .serve 0, .deliver 0,
      .serve 0, .deliver 0, .serve 0, .deliver 0, .handleLongPress 0]
    let s := run (.launched (.ofEntries three)) load
    let ws := (run s [.deleteHabit, .deliver 0, .deliver 0]).journal.take 4
    survivors three 0 ws.length = some [.sample 2, .sample 2] ∧
      ∃ n, ∀ m, n ≤ m →
        let t := Runs.trace step (launch (s.killed ws)) (fun n => arrival.getD n .nextDay) m
        match survivors three 0 ws.length with
        | some l' => t.crashed = none ∧ t.pending = [] ∧ t.habitArray.map Habit.entry = l' ∧
            t.shownRows = l'.length
        | none => t.crashed = some .forcedCast := by
  intro load s ws
  have hrepresents : Represents three s := by
    have hstore : s.store = .ofEntries three := rfl
    refine ⟨by decide, fun k => ?_, fun k => ?_, by decide, by decide⟩ <;> rw [hstore]
    · rcases k with _ | _ | _ | k <;> simp [Store.ofEntries, Store.ofFields, three]
    · rcases k with _ | _ | _ | k <;> rfl
  have hfair : Fair (s.killed ws) fun n => arrival.getD n .nextDay := .of_run (by decide)
  exact ⟨by decide, killed_delete hrepresents rfl rfl rfl rfl (by decide)
    (List.take_prefix 4 _) (fun n => (arrival_waits n).1) (fun n => (arrival_waits n).2) hfair⟩

/-- A create whose read comes back issues two writes, the document first. -/
theorem journal_create {s : State} {c : Nat} {form : CreateForm} (hrunning : s.crashed = none)
    (hidle : s.pending = []) (hform : s.creating[c]? = some form)
    (haccepted : form.accepted = true) :
    ∃ doc : HabitDoc, doc.fields = (form.entry s).fields ∧
      (run s [.addHabitButtonTapped c, .serve 0, .deliver 0]).journal = s.journal ++
        [.setHabit s.store.user.habitCounter doc,
          .updateUser { habitCounter := some (s.store.user.habitCounter + 1) }] := by
  simp only [CreateForm.accepted, Bool.and_eq_true, decide_eq_true_eq] at haccepted
  obtain ⟨⟨htype, hname⟩, hlength⟩ := haccepted
  have hpress : run s [.addHabitButtonTapped c] = { s with nextIdent := s.nextIdent + 1 }.issue
      (.addHabit c (CreateHabit.newHabit form s)) := by
    rw [run_cons, run_nil, step_of_running hrunning]
    simp [handle, CreateHabit.addHabitButtonTapped, hform, htype, hname, hlength]
  refine ⟨CreateHabit.newDocument (CreateHabit.newHabit form s)
    (CreateHabit.formRead (CreateHabit.newHabit form s) (some s.store) form).timeArray, rfl, ?_⟩
  rw [show [Event.addHabitButtonTapped c, .serve 0, .deliver 0] =
    [.addHabitButtonTapped c] ++ [.serve 0, .deliver 0] from rfl, run_append, hpress]
  simp [step, handle, State.serve, State.deliver, Callback.run, Callback.isRead, hrunning, hidle,
    CreateHabit.addHabitRead, CreateHabit.setForm, CreateHabit.formRead, hform]

/-- A create between two operations is killed after any number of its
writes.  The next launch, if none of its reads fails, then shows the list
before the create or the list after it, and nothing in between. -/
theorem killed_create {l : List Entry} {s : State} (h : Represents l s)
    (hrunning : s.crashed = none)
    (hidle : s.pending = []) (hsigned : s.signedIn = true) {c : Nat} {f : CreateForm}
    (hform : s.creating[c]? = some f) (haccepted : f.accepted = true) {ws : List Write}
    (hws : s.journal ++ ws <+: (run s [.addHabitButtonTapped c, .serve 0, .deliver 0]).journal)
    {e : ℕ → Event} (he : ∀ n, (e n).waits = true) (hfail : ∀ n i, e n ≠ .fail i)
    (hfair : Fair (s.killed ws) e) :
    ∃ n, ∀ m, n ≤ m →
      let t := Runs.trace step (launch (s.killed ws)) e m
      let l' := if ws.length < 2 then l else l ++ [f.entry s]
      t.crashed = none ∧ t.pending = [] ∧ t.habitArray.map Habit.entry = l' ∧
        t.shownRows = l'.length := by
  obtain ⟨doc, hdoc, hjournal⟩ := journal_create hrunning hidle hform haccepted
  rw [hjournal, List.prefix_append_right_inj, List.prefix_iff_eq_take, h.counter] at hws
  have hfound : (s.killed ws).store.found =
      some (if ws.length < 2 then l else l ++ [f.entry s]) := by
    rw [← found_createWrites h hdoc, ← hws]
    rfl
  have hlaunch := launch_found (s := s.killed ws) hsigned he hfail hfair
  rw [hfound] at hlaunch
  exact hlaunch

/-- Two stored habits are loaded, and the form of a third one is filled in. -/
def fillThird : List Event :=
  [.fetchFirebaseHabits, .serve 0, .deliver 0, .serve 0, .deliver 0, .serve 0, .deliver 0,
    .addButtonTapped, .createName 0 ["w"], .createAmount 0 3]

/-- The form of the third habit. -/
def thirdForm : CreateForm where
  habitName := ["w"]
  valueCounter := 3
  isCounted := true
  typeOfHabitSelected := true

/-- A third habit is created, and the app is killed after its document is
written: the next launch shows the two old ones. -/
theorem killed_create_between :
    let s := run (.launched (.ofEntries [.sample 1, .sample 2])) fillThird
    let ws := (run s [.addHabitButtonTapped 0, .serve 0, .deliver 0]).journal.take 1
    ws.length = 1 ∧ ∃ n, ∀ m, n ≤ m →
      let t := Runs.trace step (launch (s.killed ws)) (fun n => arrival.getD n .nextDay) m
      let l' := if ws.length < 2 then [.sample 1, .sample 2]
        else [.sample 1, .sample 2] ++ [thirdForm.entry s]
      t.crashed = none ∧ t.pending = [] ∧ t.habitArray.map Habit.entry = l' ∧
        t.shownRows = l'.length := by
  intro s ws
  have hrepresents : Represents [.sample 1, .sample 2] s := by
    have hstore : s.store = .ofEntries [.sample 1, .sample 2] := rfl
    refine ⟨rfl, fun k => ?_, fun k => ?_, by decide +kernel, by decide +kernel⟩ <;> rw [hstore]
    · rcases k with _ | _ | k <;> simp [Store.ofEntries, Store.ofFields]
    · rcases k with _ | _ | k <;> rfl
  have hfair : Fair (s.killed ws) fun n => arrival.getD n .nextDay := .of_run (by decide +kernel)
  exact ⟨by decide +kernel, killed_create hrepresents rfl rfl rfl (c := 0) (f := thirdForm) rfl rfl
    (List.take_prefix 1 _) (fun n => (arrival_waits n).1) (fun n => (arrival_waits n).2) hfair⟩

end HabitHive
