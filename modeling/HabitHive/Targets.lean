import HabitHive.Numbering
import HabitHive.Writes

/-!
# The document that an update reaches

A tap and a reset use the row of a habit as its document number, and the
callback of a completion uses a row from an earlier moment.  The number is
right when the list in memory is the list in the store, habit by habit:
`Listed HabitDoc.ident E`.

Every update is tagged with the habit whose values it carries
(`carries_step`).  The updates themselves keep the list (`Listed.plain`), so
the invariant `Targeted` only has to say which habit a callback in flight is
about.
`updates_hit` is the result for runs in which no tap, reset or delete meets
a refresh, a delete or a completion that has not come to its end.
-/

namespace HabitHive

open HabitCollection

/-- An update reaches the document of the habit that it is tagged with. -/
def Write.hits (st : Store) : Write → Prop
  | .updateHabit n _ ident => (st.habits n).map HabitDoc.ident = some ident
  | _ => True

instance (st : Store) (w : Write) : Decidable (w.hits st) := by
  induction w using Write.casesOn <;> unfold Write.hits <;> infer_instance

/-- Every update among the writes does, in the store it is applied to. -/
def UpdatesHit (st : Store) (ws : List Write) : Prop :=
  Runs.Guarded Store.apply (fun st w => w.hits st) st ws

instance (st : Store) (ws : List Write) : Decidable (UpdatesHit st ws) :=
  inferInstanceAs (Decidable (Runs.Guarded _ _ _ _))

/-- The values that an update of `row` carries are those of the habit it is
tagged with: what a reset makes of the habit at the row, the raised count of
the habit that is tapped there, or the flag of a completion of it. -/
inductive Carries (s : State) (e : Event) (row ident : Nat) : HabitFields → Prop where
  | reset {habit : Habit} (hrow : s.habitArray[row]? = some habit) (hident : habit.ident = ident) :
      Carries s e row ident (resetFields (resetHabit habit))
  | count {habit : Habit} (hrow : s.habitArray[row]? = some habit) (hident : habit.ident = ident) :
      Carries s e row ident { currentCount := some (habit.currentCount + 1) }
  | finished {p : Pending} (hp : Delivers s e p) (hcb : p.callback = .finished row ident) :
      Carries s e row ident { addFirebase := some false }

/-! ## Updates and the list -/

namespace Store

variable {st : Store} {E : List Nat} {ws : List Write}

theorem none_iff_of_plain (h : ∀ w ∈ ws, w.isPlain = true) (k : Nat) :
    (st.applyAll ws).habits k = none ↔ st.habits k = none := by
  have hsome : ((st.applyAll ws).habits k).isSome = (st.habits k).isSome :=
    isSome_of_ident (ident_of_plain h k)
  rw [← Option.not_isSome_iff_eq_none, hsome, Option.not_isSome_iff_eq_none]

theorem Holed.plain (h : st.Holed HabitDoc.ident E) (hws : ∀ w ∈ ws, w.isPlain = true) :
    (st.applyAll ws).Holed HabitDoc.ident E where
  counter := by
    rw [habitCounter_of_plain hws]
    exact h.counter
  hole hlt := by
    rw [habitCounter_of_plain hws] at hlt ⊢
    obtain ⟨j, hj, hnone⟩ := h.hole hlt
    exact ⟨j, hj, (none_iff_of_plain hws j).mpr hnone⟩
  front k hk hfull := by
    rw [ident_of_plain hws]
    exact h.front k hk fun j hj hnone => hfull j hj ((none_iff_of_plain hws j).mpr hnone)

theorem Lists.plain (h : st.Lists HabitDoc.ident E) (hws : ∀ w ∈ ws, w.isPlain = true) :
    (st.applyAll ws).Lists HabitDoc.ident E where
  counter := by
    rw [habitCounter_of_plain hws]
    exact h.counter
  docs k hk := by
    rw [ident_of_plain hws]
    exact h.docs k hk

theorem Complete.plain (h : st.Complete) (hws : ∀ w ∈ ws, w.isPlain = true) :
    (st.applyAll ws).Complete := by
  induction ws generalizing st with
  | nil => exact h
  | cons w ws ih =>
    exact ih (h.of_isPlain (hws w (by simp))) fun v hv => hws v (List.mem_cons_of_mem w hv)

/-- What a refresh sees of complete documents: which habit has which number. -/
theorem Complete.view_ident (h : st.Complete) :
    st.view (rowOf HabitDoc.ident) =
      { count := st.user.habitCounter
        read := fun n => (st.habits n).map fun doc => (n, doc.ident) } := by
  simp only [view, View.mk.injEq, true_and]
  funext n
  cases hdoc : st.habits n with
  | none => simp [readHabit, Habit.ofDocument_eq, hdoc]
  | some doc =>
    obtain ⟨entry, hentry⟩ := Option.isSome_iff_exists.mp (h n doc hdoc)
    simp [readHabit, Habit.ofDocument_eq, hdoc, hentry, rowOf, Habit.toDocument]

theorem Complete.view_plain (h : st.Complete) (hws : ∀ w ∈ ws, w.isPlain = true) :
    (st.applyAll ws).view (rowOf HabitDoc.ident) = st.view (rowOf HabitDoc.ident) := by
  rw [(h.plain hws).view_ident, h.view_ident, habitCounter_of_plain hws]
  congr 1
  funext n
  have hplain : ((st.applyAll ws).habits n).map HabitDoc.ident = (st.habits n).map HabitDoc.ident :=
    ident_of_plain hws n
  have hident := congrArg (Option.map fun i => (n, i)) hplain
  simpa [Option.map_map, Function.comp_def] using hident

theorem Complete.deleteHabit (h : st.Complete) (n : Nat) :
    (st.apply (.deleteHabit n)).Complete := by
  intro k doc hdoc
  rw [apply_deleteHabit_habits] at hdoc
  split at hdoc
  · contradiction
  · exact h k doc hdoc

theorem Complete.rewrite (h : st.Complete) (hs : List Habit) :
    (st.applyAll (setHabits 0 (hs.map Habit.toDocument))).Complete := by
  intro k doc hdoc
  rw [applyAll_setHabits] at hdoc
  dsimp only at hdoc
  split at hdoc
  · obtain ⟨habit, _, rfl⟩ := List.mem_map.mp (List.mem_of_getElem? hdoc)
    rfl
  · exact h k doc hdoc

end Store

/-- Updates, and calls that are no reads, in the middle of a refresh. -/
theorem Loading.plain {s s' : State} {v : View (Nat × Nat)} {xs : List (Nat × Nat)}
    (h : Loading (rowOf HabitDoc.ident) v xs s)
    (hstore : s'.store.view (rowOf HabitDoc.ident) = v)
    (hrows : s'.habitArray.map (rowOf HabitDoc.ident) = s.habitArray.map (rowOf HabitDoc.ident))
    {cbs : List Callback} (hpending : s'.pending = s.pending ++ cbs.map ({ callback := · }))
    (hcbs : ∀ cb ∈ cbs, cb.isFetch = false) : Loading (rowOf HabitDoc.ident) v xs s' where
  store := hstore
  served p hp hfetch st hst := h.served p (mem_of_served hpending hp hst) hfetch st hst
  rows := by
    have hnone : outstanding v (cbs.map ({ callback := · })) = [] :=
      outstanding_of_noFetch v (by simpa using hcbs)
    rw [hrows, hpending, outstanding_append, hnone, List.append_nil]
    exact h.rows
  sorted := by
    have hnumbers := congrArg (List.map Prod.fst) hrows
    have hsorted := h.sorted
    rw [← List.pairwise_map (f := Habit.habitNumber) (R := (· ≤ ·))] at hsorted ⊢
    simp only [List.map_map, Function.comp_def, rowOf] at hnumbers
    exact hnumbers ▸ hsorted
  missing n hn hnone := by
    obtain ⟨p, hp, hcb⟩ := h.missing n hn hnone
    exact ⟨p, hpending ▸ List.mem_append_left _ hp, hcb⟩

/-- Updates of documents and of the rows of the list leave it with the same
habits. -/
theorem Listed.plain {E : List Nat} {s s' : State} {ws : List Write}
    (h : Listed HabitDoc.ident E s) (hcomplete : s.store.Complete)
    (hws : ∀ w ∈ ws, w.isPlain = true) (hstore : s'.store = s.store.applyAll ws)
    (hrows : s'.habitArray.map (rowOf HabitDoc.ident) = s.habitArray.map (rowOf HabitDoc.ident))
    {cbs : List Callback} (hpending : s'.pending = s.pending ++ cbs.map ({ callback := · }))
    (hcbs : ∀ cb ∈ cbs, cb.isFetch = false ∧ cb.isChain = false) :
    Listed HabitDoc.ident E s' := by
  have hchain := noChain_of_issued hpending fun cb hcb => (hcbs cb hcb).2
  have hfetch := noFetch_of_issued hpending fun cb hcb => (hcbs cb hcb).1
  have hview : s'.store.view (rowOf HabitDoc.ident) = s.store.view (rowOf HabitDoc.ident) := by
    rw [hstore]
    exact hcomplete.view_plain hws
  have hidents : s'.habitArray.map (fun h => h.toDocument.ident) =
      s.habitArray.map fun h => h.toDocument.ident := by
    simpa [List.map_map, Function.comp_def, rowOf] using congrArg (List.map Prod.snd) hrows
  refine ⟨hstore ▸ h.store.plain hws, fun hno => ?_, ?_⟩
  · rw [hstore]
    exact (h.settled (hchain ▸ hno)).plain hws
  · rw [hview, hfetch, hchain, hidents]
    rcases h.list with hload | ⟨hno, hlist | ⟨hnil, hrest⟩⟩
    · exact Or.inl (hload.plain hview hrows hpending fun cb hcb => (hcbs cb hcb).1)
    · exact Or.inr ⟨hno, Or.inl hlist⟩
    · rw [hnil] at hrows
      exact Or.inr ⟨hno, Or.inr ⟨List.map_eq_nil_iff.mp hrows, hrest⟩⟩

/-! ## Which updates reach their document -/

theorem updatesHit_append {st : Store} {ws vs : List Write} :
    UpdatesHit st (ws ++ vs) ↔ UpdatesHit st ws ∧ UpdatesHit (st.applyAll ws) vs :=
  Runs.guarded_append

/-- Writes that are no updates of habits. -/
theorem updatesHit_of_other {ws : List Write} (h : ∀ w ∈ ws, ∀ st, w.hits st) (st : Store) :
    UpdatesHit st ws := by
  induction ws generalizing st with
  | nil => trivial
  | cons w ws ih => exact ⟨h w (by simp) st, ih (fun v hv => h v (List.mem_cons_of_mem w hv)) _⟩

theorem updatesHit_tapWrites {st : Store} {row : Nat} {h : Habit}
    (hdoc : (st.habits row).map HabitDoc.ident = some h.ident) :
    UpdatesHit st (tapWrites row h) := by
  unfold tapWrites
  split
  · exact ⟨hdoc, trivial⟩
  · trivial

/-- The updates of a reset, one for each row. -/
theorem updatesHit_resetWrites {st : Store} {n : Nat} {hs : List Habit} (names : List Text)
    (hdocs : ∀ j h, hs[j]? = some h → (st.habits (n + j)).map HabitDoc.ident = some h.ident) :
    UpdatesHit st (resetWrites n names hs) := by
  induction hs generalizing st n names with
  | nil => trivial
  | cons h hs ih =>
    have hfirst : (resetUpdate n h).hits st := hdocs 0 h rfl
    have hrest : ∀ st' : Store,
        (∀ k, (st'.habits k).map HabitDoc.ident = (st.habits k).map HabitDoc.ident) →
        ∀ names', UpdatesHit st' (resetWrites (n + 1) names' hs) := by
      intro st' hst names'
      refine ih names' fun j h' hj => ?_
      rw [hst, Nat.add_right_comm, Nat.add_assoc]
      exact hdocs (j + 1) h' hj
    have hsame : ∀ k, ((st.apply (resetUpdate n h)).habits k).map HabitDoc.ident =
        (st.habits k).map HabitDoc.ident := st.apply_updateHabit_ident n (resetFields h) h.ident
    rw [resetWrites]
    cases achievement h with
    | none => exact ⟨hfirst, hrest _ hsame names⟩
    | some text =>
      refine ⟨hfirst, trivial, hrest (Store.apply _ (.updateUser _)) hsame (names ++ [text])⟩

/-! ## Runs -/

/-- Refreshes, taps, resets and deletes. -/
inductive TargetEvent : Event → Prop where
  | nextDay : TargetEvent .nextDay
  | viewWillAppear : TargetEvent .viewWillAppear
  | fetchFirebaseHabits : TargetEvent .fetchFirebaseHabits
  | handleLongPress (row : Nat) : TargetEvent (.handleLongPress row)
  | deleteHabit : TargetEvent .deleteHabit
  | didSelectItemAt (row : Nat) (menu : Bool) : TargetEvent (.didSelectItemAt row menu)
  | serve (i : Nat) : TargetEvent (.serve i)
  | deliver (i : Nat) : TargetEvent (.deliver i)

theorem carries_of_stepWrites {s : State} {e : Event} {ws : List Write} {row ident : Nat}
    {fields : HabitFields} (he : TargetEvent e) (hws : StepWrites s e ws)
    (hmem : .updateHabit row fields ident ∈ ws) : Carries s e row ident fields := by
  cases hws with
  | reset =>
    rcases List.mem_cons.mp hmem with hmem | hmem
    · contradiction
    · rcases mem_resetWrites hmem with ⟨k, habit, hrow, hw⟩ | ⟨_, hw⟩
      · rw [List.getElem?_map] at hrow
        obtain ⟨old, hold, rfl⟩ := Option.map_eq_some_iff.mp hrow
        obtain ⟨rfl, rfl, rfl⟩ := Write.updateHabit.inj hw
        exact .reset (by rwa [Nat.zero_add]) rfl
      · contradiction
  | tap menu hrow =>
    unfold tapWrites at hmem
    split at hmem
    · obtain ⟨rfl, rfl, rfl⟩ := Write.updateHabit.inj (List.mem_singleton.mp hmem)
      exact .count hrow rfl
    · contradiction
  | completed document hp hcb =>
    rcases List.mem_append.mp hmem with hmem | hmem
    · obtain ⟨_, _, hw⟩ := List.mem_map.mp hmem
      contradiction
    · obtain ⟨rfl, rfl, rfl⟩ := Write.updateHabit.inj (List.mem_singleton.mp hmem)
      exact .finished hp hcb
  | counted _ _ _ =>
    rcases List.mem_append.mp hmem with hmem | hmem
    · split at hmem <;> simp at hmem
    · simp at hmem
  | rewritten _ _ =>
    rcases List.mem_append.mp hmem with hmem | hmem
    · obtain ⟨_, _, _, hw⟩ := Store.mem_setHabits hmem
      contradiction
    · simp at hmem
  | created document hp hcb hform => simp at hmem
  | nothing => contradiction
  | delete row => simp at hmem
  | stop | finish | edit => cases he

/-- An update that an event of the run issues carries values of the habit
that it is tagged with. -/
theorem carries_step {s : State} {e : Event} (he : TargetEvent e) {row ident : Nat}
    {fields : HabitFields} (hmem : .updateHabit row fields ident ∈ (step s e).journal) :
    .updateHabit row fields ident ∈ s.journal ∨ Carries s e row ident fields := by
  obtain ⟨ws, hws, _, hjournal⟩ := writesTo_step s e
  rw [hjournal] at hmem
  exact (List.mem_append.mp hmem).imp_right (carries_of_stepWrites he hws)

/-- Refreshes and deletes exclude each other.  No accepted tap, and no
reset of a list that is not empty, comes while reads of a refresh or
callbacks of a delete are in flight, and no delete is pressed while the
callback of a completion is. -/
def Aligned (s : State) (e : Event) : Prop :=
  Exclusive s e ∧
    match e with
    | .didSelectItemAt row menu => ∀ h ∈ s.habitArray[row]?, accepts menu h = true →
        s.noFetch = true ∧ s.noChain = true
    | .viewWillAppear => resets s = true → s.habitArray ≠ [] →
        s.noFetch = true ∧ s.noChain = true
    | .deleteHabit => s.noFinished = true
    | _ => True

instance (s : State) (e : Event) : Decidable (Aligned s e) := by
  induction e using Event.casesOn <;> unfold Aligned <;> infer_instance

/-- The store is what the journal wrote, and every update in it reached its
document. -/
structure Faithful (st₀ : Store) (s : State) : Prop where
  store : s.store = st₀.applyAll s.journal
  hits : UpdatesHit st₀ s.journal

/-- The list in memory, the list in the store and the completions in flight
agree about the habits. -/
structure Targeted (E : List Nat) (s : State) : Prop where
  listed : Listed HabitDoc.ident E s
  complete : s.store.Complete
  calls : ∀ p ∈ s.pending, p.callback.isRefresh = true ∨ p.callback.isChain = true ∨
    ∃ row ident, p.callback = .finished row ident ∧ E[row]? = some ident ∧ s.noChain = true

namespace Faithful

variable {st₀ : Store} {s s' : State}

theorem append (h : Faithful st₀ s) (ws : List Write) (hstore : s'.store = s.store.applyAll ws)
    (hjournal : s'.journal = s.journal ++ ws) (hhits : UpdatesHit s.store ws) :
    Faithful st₀ s' where
  store := by rw [hstore, hjournal, Store.applyAll_append, ← h.store]
  hits := by
    rw [hjournal, updatesHit_append, ← h.store]
    exact ⟨h.hits, hhits⟩

theorem same (h : Faithful st₀ s) (hstore : s'.store = s.store)
    (hjournal : s'.journal = s.journal) : Faithful st₀ s' :=
  h.append [] hstore (by simpa using hjournal) trivial

end Faithful

theorem rowOf_tapped (h : Habit) : rowOf HabitDoc.ident h.tapped = rowOf HabitDoc.ident h :=
  Prod.ext (habitNumber_tapped h) (ident_tapped h)

namespace Targeted

variable {E : List Nat} {s s' : State}

/-- With nothing of a refresh or delete in flight, a row is a document
number. -/
theorem ident_of_row (h : Targeted E s) (hfetch : s.noFetch = true) (hchain : s.noChain = true)
    {row : Nat} {habit : Habit} (hrow : s.habitArray[row]? = some habit) :
    E[row]? = some habit.ident ∧ (s.store.habits row).map HabitDoc.ident = some habit.ident := by
  have hlt := (List.getElem?_eq_some_iff.mp hrow).1
  have hident : E[row]? = some habit.ident := by
    rw [← h.listed.rows_of_lt hfetch hlt, List.getElem?_map, hrow]
    rfl
  have hlen := (List.getElem?_eq_some_iff.mp hident).1
  exact ⟨hident, by rw [(h.listed.settled hchain).docs row hlen, hident]⟩

/-- A call in flight is the same after a step that starts no delete. -/
theorem call (h : Targeted E s) (hchain : s'.noChain = s.noChain) {p : Pending}
    (hp : p ∈ s.pending) : p.callback.isRefresh = true ∨ p.callback.isChain = true ∨
      ∃ row ident, p.callback = .finished row ident ∧ E[row]? = some ident ∧ s'.noChain = true := by
  rw [hchain]
  exact h.calls p hp

/-- Updates of existing documents and rows. -/
theorem plain (h : Targeted E s) (ws : List Write) (cbs : List Callback)
    (hws : ∀ w ∈ ws, w.isPlain = true) (hstore : s'.store = s.store.applyAll ws)
    (hrows : s'.habitArray.map (rowOf HabitDoc.ident) = s.habitArray.map (rowOf HabitDoc.ident))
    (hpending : s'.pending = s.pending ++ cbs.map ({ callback := · }))
    (hcbs : ∀ cb ∈ cbs, cb.isFetch = false ∧ cb.isChain = false)
    (hnew : ∀ cb ∈ cbs, cb.isRefresh = true ∨
      ∃ row ident, cb = .finished row ident ∧ E[row]? = some ident ∧ s.noChain = true) :
    Targeted E s' where
  listed := h.listed.plain h.complete hws hstore hrows hpending hcbs
  complete := hstore ▸ h.complete.plain hws
  calls p hp := by
    have hchain := noChain_of_issued hpending fun cb hcb => (hcbs cb hcb).2
    rw [hpending, List.mem_append] at hp
    rcases hp with hp | hp
    · exact h.call hchain hp
    · obtain ⟨cb, hcb, rfl⟩ := List.mem_map.mp hp
      rw [hchain]
      exact (hnew cb hcb).imp_right Or.inr

/-- A step that leaves the list, the store and the calls. -/
theorem same (h : Targeted E s) (hstore : s'.store = s.store)
    (harray : s'.habitArray = s.habitArray) (hpending : s'.pending = s.pending) :
    Targeted E s' :=
  h.plain [] [] (by simp) hstore (by rw [harray]) (by simpa using hpending) (by simp) (by simp)

theorem drop (h : Targeted E s) {i : Nat} {p : Pending} (hp : s.pending[i]? = some p)
    (hfetch : p.callback.isFetch = false) (hchain : p.callback.isChain = false) :
    Targeted E (s.dropPending i) where
  listed := h.listed.drop hp hfetch hchain
  complete := h.complete
  calls q hq := by
    rw [noChain_drop hp hchain]
    exact h.calls q ((mem_pending hp).mpr (Or.inr hq))

/-- A step of a delete: no completion is in flight. -/
theorem of_chain {E' : List Nat} (hlisted : Listed HabitDoc.ident E' s')
    (hcomplete : s'.store.Complete)
    (hcalls : ∀ p ∈ s'.pending, p.callback.isRefresh = true ∨ p.callback.isChain = true) :
    Targeted E' s' :=
  ⟨hlisted, hcomplete, fun p hp => (hcalls p hp).imp_right Or.inl⟩

end Targeted

/-- The run so far is faithful, and what comes next starts from lists that
agree. -/
def Aiming (st₀ : Store) (s : State) : Prop :=
  Faithful st₀ s ∧ (s.crashed = none → ∃ E, Targeted E s)

namespace Targeted

variable {E : List Nat} {s : State} {st₀ : Store}

theorem tap (h : Targeted E s) (hf : Faithful st₀ s) {row : Nat} {menu : Bool}
    (hok : Aligned s (.didSelectItemAt row menu)) :
    Aiming st₀ (didSelectItemAt row menu s) := by
  rcases didSelectItemAt_cases row menu s with ⟨_, hs⟩ | ⟨habit, hrow, ⟨_, hs⟩ | ⟨hacc, hs⟩⟩ <;>
    rw [hs]
  · exact ⟨hf.same rfl rfl, by simp⟩
  · exact ⟨hf.same rfl rfl, fun _ => ⟨E, h.same rfl rfl rfl⟩⟩
  · obtain ⟨hfetch, hchain⟩ := hok.2 habit hrow hacc
    obtain ⟨hident, hdoc⟩ := h.ident_of_row hfetch hchain hrow
    have hplain : ∀ w ∈ tapWrites row habit, w.isPlain = true := by
      unfold tapWrites
      split <;> simp [Write.isPlain]
    refine ⟨hf.append (tapWrites row habit) (by simp) (by simp) (updatesHit_tapWrites hdoc),
      fun _ => ⟨E, h.plain (tapWrites row habit) (tapCallbacks row habit) hplain
        (by simp) ?_ (by simp)
        ?_ ?_⟩⟩
    · exact map_set_of_eq _ hrow (rowOf_tapped habit)
    · unfold tapCallbacks
      split <;> simp [Callback.isFetch, Callback.isChain]
    · unfold tapCallbacks
      split <;> simp [hident, hchain]

theorem appear (h : Targeted E s) (hf : Faithful st₀ s) (hok : Aligned s .viewWillAppear) :
    Faithful st₀ (viewWillAppear s) ∧ Targeted E (viewWillAppear s) := by
  cases hres : resets s
  · rw [viewWillAppear_of_not_resets hres]
    exact ⟨hf, h⟩
  · obtain ⟨hstore, hjournal⟩ := viewWillAppear_writes hres
    have hdocs : ∀ j habit, (s.habitArray.map resetHabit)[j]? = some habit →
        (s.store.habits j).map HabitDoc.ident = some habit.ident := by
      intro j habit hj
      rw [List.getElem?_map, Option.map_eq_some_iff] at hj
      obtain ⟨old, hold, rfl⟩ := hj
      obtain ⟨hfetch, hchain⟩ := hok.2 hres (List.ne_nil_of_mem (List.mem_of_getElem? hold))
      exact (h.ident_of_row hfetch hchain hold).2
    refine ⟨hf.append (appearWrites s) hstore hjournal ⟨trivial, updatesHit_resetWrites [] ?_⟩, ?_⟩
    · intro j habit hj
      rw [Nat.zero_add, Store.apply_updateUser_habits]
      exact hdocs j habit hj
    · have hrows : (viewWillAppear s).habitArray.map (rowOf HabitDoc.ident) =
          s.habitArray.map (rowOf HabitDoc.ident) := by
        rw [viewWillAppear_habitArray hres, List.map_map]
        rfl
      obtain ⟨cbs, hpending, hcbs⟩ := viewWillAppear_issued s
      exact h.plain (appearWrites s) cbs (appearWrites_isPlain s) hstore hrows hpending
        (fun cb hcb => by simp [hcbs cb hcb, Callback.isFetch, Callback.isChain])
        (fun cb hcb => by simp [hcbs cb hcb, Callback.isRefresh])

theorem delete (h : Targeted E s) (hf : Faithful st₀ s) (hok : Aligned s .deleteHabit) :
    Aiming st₀ (deleteHabit s) := by
  have hcalls : ∀ p ∈ s.pending, p.callback.isRefresh = true ∨ p.callback.isChain = true := by
    intro p hp
    have hnot : p.callback.isFinished = false := by
      simpa using List.all_eq_true.mp hok.2 p hp
    rcases h.calls p hp with hcall | hcall | ⟨row, ident, hcb, _⟩
    · exact Or.inl hcall
    · exact Or.inr hcall
    · rw [hcb] at hnot
      contradiction
  rcases deleteHabit_cases s with ⟨f, _, hs⟩ | ⟨row, hglobal, hrow⟩
  · rw [hs]
    exact ⟨hf.same rfl rfl, by simp⟩
  · have hlisted := h.listed.delete hok.1 hglobal hrow
    rw [deleteHabit_eq hglobal hrow] at hlisted ⊢
    refine ⟨hf.append [.deleteHabit row] rfl rfl ⟨trivial, trivial⟩, fun _ =>
      ⟨_, of_chain hlisted (h.complete.deleteHabit row) ?_⟩⟩
    intro p hp
    rcases List.mem_append.mp hp with hp | hp
    · exact hcalls p hp
    · rw [List.mem_singleton.mp hp]
      exact Or.inr rfl

/-- The other callbacks of a delete under way are its own and those of
refreshes. -/
theorem calls_of_chain (h : Targeted E s) (hchain : s.noChain = false) :
    ∀ p ∈ s.pending, p.callback.isRefresh = true ∨ p.callback.isChain = true := by
  intro p hp
  rcases h.calls p hp with hcall | hcall | ⟨_, _, _, _, hno⟩
  · exact Or.inl hcall
  · exact Or.inr hcall
  · rw [hchain] at hno
    contradiction

/-- The callbacks of a refresh leave the store and issue its own reads. -/
theorem refreshRead (h : Targeted E s) (hf : Faithful st₀ s) {i : Nat} {p : Pending}
    (hp : s.pending[i]? = some p) (href : p.callback.isRefresh = true)
    (hlisted : (p.callback.run p.snapshot (s.dropPending i)).crashed = none →
      Listed HabitDoc.ident E (p.callback.run p.snapshot (s.dropPending i))) :
    Aiming st₀ (p.callback.run p.snapshot (s.dropPending i)) := by
  have hframe := listOnly_of_isRefresh href p.snapshot (s.dropPending i)
  obtain ⟨cbs, hpending, hfetch⟩ := pending_of_isRefresh href p.snapshot (s.dropPending i)
  refine ⟨hf.same hframe.store hframe.journal, fun hcrash => ⟨E, hlisted hcrash, ?_, ?_⟩⟩
  · rw [hframe.store]
    exact h.complete
  · intro q hq
    have hnew : ∀ cb ∈ cbs, cb.isRefresh = true := fun cb hcb =>
      Callback.isRefresh_of_isFetch (hfetch cb hcb)
    have hchain : (p.callback.run p.snapshot (s.dropPending i)).noChain = s.noChain :=
      (noChain_of_issued hpending fun cb hcb => Callback.isChain_of_isRefresh (hnew cb hcb)).trans
        (noChain_drop hp (Callback.isChain_of_isRefresh href))
    rw [hpending, List.mem_append] at hq
    rcases hq with hq | hq
    · exact h.call hchain ((mem_pending hp).mpr (Or.inr hq))
    · obtain ⟨cb, hcb, rfl⟩ := List.mem_map.mp hq
      exact Or.inl (hnew cb hcb)

/-- The calls left by a callback of a delete that issues one of its own. -/
theorem calls_of_drop (h : Targeted E s) {i : Nat} {p : Pending} (hp : s.pending[i]? = some p)
    (hchain : p.callback.isChain = true) {cb : Callback}
    (hcb : cb.isRefresh = true ∨ cb.isChain = true) :
    ∀ q ∈ (s.dropPending i).pending ++ [{ callback := cb }],
      q.callback.isRefresh = true ∨ q.callback.isChain = true := by
  intro q hq
  rcases List.mem_append.mp hq with hq | hq
  · exact h.calls_of_chain (noChain_eq_false hp hchain) q ((mem_pending hp).mpr (Or.inr hq))
  · rw [List.mem_singleton.mp hq]
    exact hcb

theorem deleteDone (h : Targeted E s) (hf : Faithful st₀ s) {i : Nat} {p : Pending}
    (hp : s.pending[i]? = some p) (hcb : p.callback = .deleteDone)
    (hlisted : (deleteDone (s.dropPending i)).crashed = none →
      Listed HabitDoc.ident E (deleteDone (s.dropPending i))) :
    Aiming st₀ (deleteDone (s.dropPending i)) := by
  rcases deleteDone_cases (s.dropPending i) with hs | ⟨row, hglobal⟩
  · rw [hs]
    exact ⟨hf.same rfl rfl, by simp⟩
  · rw [deleteDone_eq hglobal] at hlisted ⊢
    refine ⟨hf.append ((if s.habitArray.length = row then [] else
          [.deleteHabit s.habitArray.length]) ++
            [.updateUser { habitCounter := some s.habitArray.length }]) ?_ ?_ ?_,
      fun hcrash => ⟨E, of_chain (hlisted hcrash) ?_
        (h.calls_of_drop hp (by rw [hcb]; rfl) (Or.inr rfl))⟩⟩
    · simp [Store.applyAll_append]
    · simp
    · refine updatesHit_of_other (fun w hw st => ?_) _
      rcases List.mem_append.mp hw with hw | hw
      · split at hw
        · contradiction
        · rw [List.mem_singleton.mp hw]
          trivial
      · rw [List.mem_singleton.mp hw]
        trivial
    · simp only [State.issue_store, State.write_store, State.writeAll_store]
      split
      · exact h.complete
      · exact h.complete.deleteHabit _

theorem counterDone (h : Targeted E s) (hf : Faithful st₀ s) {i : Nat} {p : Pending}
    (hp : s.pending[i]? = some p) (hcb : p.callback = .counterDone)
    (hlisted : (counterDone (s.dropPending i)).crashed = none →
      Listed HabitDoc.ident E (counterDone (s.dropPending i))) :
    Aiming st₀ (counterDone (s.dropPending i)) := by
  refine ⟨hf.append (Store.setHabits 0 (s.habitArray.map Habit.toDocument) ++
      [.updateUser { habitCounter := some s.habitArray.length }]) ?_ ?_ ?_,
    fun hcrash => ⟨E, of_chain (hlisted hcrash) (h.complete.rewrite s.habitArray)
      (h.calls_of_drop hp (by rw [hcb]; rfl) (Or.inl rfl))⟩⟩
  · simp [HabitCollection.counterDone, updateFirebaseHabits, Store.applyAll_append]
  · simp [HabitCollection.counterDone, updateFirebaseHabits]
  · refine updatesHit_of_other (fun w hw st => ?_) _
    rcases List.mem_append.mp hw with hw | hw
    · obtain ⟨k, doc, _, rfl⟩ := Store.mem_setHabits hw
      trivial
    · rw [List.mem_singleton.mp hw]
      trivial

/-- The callback of a completion still finds the habit at its row. -/
theorem finishedRead (h : Targeted E s) (hf : Faithful st₀ s) {i : Nat} {p : Pending}
    (hp : s.pending[i]? = some p) {row ident : Nat} (hcb : p.callback = .finished row ident)
    (hident : E[row]? = some ident) (hchain : s.noChain = true) (document : Option Store) :
    Aiming st₀ (finishedRead row ident document (s.dropPending i)) := by
  have hdrop := h.drop hp (by rw [hcb]; rfl) (by rw [hcb]; rfl)
  have hdoc : (s.store.habits row).map HabitDoc.ident = some ident := by
    rw [(h.listed.settled hchain).docs row (List.getElem?_eq_some_iff.mp hident).1, hident]
  have hhits : UpdatesHit s.store (finishedWrites row ident document) := by
    cases document with
    | none => exact ⟨hdoc, trivial⟩
    | some doc => exact ⟨trivial, hdoc, trivial⟩
  rw [finishedRead_eq]
  exact ⟨hf.append (finishedWrites row ident document) rfl rfl hhits, fun _ =>
    ⟨E, hdrop.plain (finishedWrites row ident document) []
      (finishedWrites_isPlain row ident document) rfl rfl (by simp) (by simp) (by simp)⟩⟩

theorem deliver (h : Targeted E s) (hf : Faithful st₀ s) {i : Nat}
    (hok : Aligned s (.deliver i)) : Aiming st₀ (s.deliver i) := by
  have hlisted : (∀ p ∈ s.pending[i]?, p.callback.isRefresh = true ∨ p.callback.isChain = true) →
      (s.deliver i).crashed = none → Listed HabitDoc.ident E (s.deliver i) :=
    fun hcalls hcrash => h.listed.deliver hok.1 hcalls hcrash
  rcases deliver_cases s i with ⟨hs, _⟩ | ⟨p, hp, _, hs⟩
  · rw [hs]
    exact ⟨hf, fun _ => ⟨E, h⟩⟩
  · have hcall : (p.callback.isRefresh = true ∨ p.callback.isChain = true) →
        ∀ q ∈ s.pending[i]?, q.callback.isRefresh = true ∨ q.callback.isChain = true := by
      intro hcall q hq
      rw [Option.mem_def, hp, Option.some.injEq] at hq
      exact hq ▸ hcall
    rw [hs] at hlisted ⊢
    rcases h.calls p (List.mem_of_getElem? hp) with href | hchain | ⟨row, ident, hcb, hident, hno⟩
    · exact h.refreshRead hf hp href (hlisted (hcall (Or.inl href)))
    · have hlisted := hlisted (hcall (Or.inr hchain))
      cases hcb : p.callback with
      | deleteDone =>
        rw [hcb] at hlisted
        exact h.deleteDone hf hp hcb hlisted
      | counterDone =>
        rw [hcb] at hlisted
        exact h.counterDone hf hp hcb hlisted
      | _ => rw [hcb] at hchain; contradiction
    · rw [hcb]
      exact h.finishedRead hf hp hcb hident hno p.snapshot

end Targeted

theorem complete_ofEntries (entries : List Entry) : (Store.ofEntries entries).Complete := by
  intro k doc hdoc
  simp only [Store.ofEntries, Store.ofFields, List.getElem?_map, Option.map_map,
    Option.map_eq_some_iff] at hdoc
  obtain ⟨entry, _, rfl⟩ := hdoc
  rfl

theorem lists_ofEntries (entries : List Entry) :
    (Store.ofEntries entries).Lists HabitDoc.ident (List.range entries.length) where
  counter := by simp [Store.ofEntries, Store.ofFields]
  docs k hk := by
    rw [List.length_range] at hk
    simp [Store.ofEntries, Store.ofFields, hk]

theorem targeted_launched (entries : List Entry) :
    Targeted (List.range entries.length) (.launched (.ofEntries entries)) where
  listed := ⟨(lists_ofEntries entries).holed, fun _ => lists_ofEntries entries,
    Or.inr ⟨rfl, Or.inr ⟨rfl, rfl⟩⟩⟩
  complete := complete_ofEntries entries
  calls := by simp [State.launched]

/-- One event of a session that is running. -/
theorem Targeted.handle {E : List Nat} {s : State} {st₀ : Store} {e : Event}
    (h : Targeted E s) (hf : Faithful st₀ s) (he : TargetEvent e) (hok : Aligned s e) :
    Aiming st₀ (handle s e) := by
  cases he with
  | nextDay => exact ⟨hf.same rfl rfl, fun _ => ⟨E, h.same rfl rfl rfl⟩⟩
  | viewWillAppear =>
    obtain ⟨hf', h'⟩ := h.appear hf hok
    exact ⟨hf', fun _ => ⟨E, h'⟩⟩
  | fetchFirebaseHabits =>
    refine ⟨hf.same rfl rfl, fun _ => ⟨E, h.listed.fetch hok.1, h.complete, fun p hp => ?_⟩⟩
    have hpending : (fetchFirebaseHabits s).pending =
        s.pending ++ [Callback.fetchCounter].map ({ callback := · }) := rfl
    have hchain := noChain_of_issued hpending (by simp [Callback.isChain])
    rcases List.mem_append.mp hp with hp | hp
    · exact h.call hchain hp
    · rw [List.mem_singleton.mp hp]
      exact Or.inl rfl
  | handleLongPress row =>
    simp only [HabitHive.handle, handleLongPress]
    split
    · exact ⟨hf.same rfl rfl, fun _ => ⟨E, h.same rfl rfl rfl⟩⟩
    · exact ⟨hf.same rfl rfl, by simp⟩
  | deleteHabit => exact h.delete hf hok
  | didSelectItemAt row menu => exact h.tap hf hok
  | serve i =>
    refine ⟨hf.same (serve_store s i) (serve_journal s i), fun _ => ⟨E, h.listed.serve i, ?_, ?_⟩⟩
    · simp only [HabitHive.handle, serve_store]
      exact h.complete
    · intro p hp
      simp only [HabitHive.handle, noChain_serve] at hp ⊢
      rcases mem_serve s i hp with hp | ⟨_, hp⟩
      · exact h.calls p hp
      · exact h.calls { callback := p.callback } hp
  | deliver i => exact h.deliver hf hok

end HabitHive
