import HabitHive.Effects
import Mathlib.Data.List.InsertIdx

/-!
# Numbered documents as a list

Documents `habit0`, `habit1`, … stand for a list `E`, seen through a
projection `f` of documents.  `Store.Lists f E st` says so of a store at
rest.

A delete leaves a hole until its last callback has rewritten all documents
from the list in memory.  `Store.Holed f E st` is what holds meanwhile,
with any number of deletes under way: the documents before the first hole
are right, and a counter that is too high counts a hole, so that a refresh
of such a store cannot end well.

`Listed f E s` is the invariant of a session: the store, and the list in
memory with the reads in flight.  Each operation of a refresh and of a
delete keeps it, with `E` cut by the delete, as long as the two exclude
each other (`Exclusive`).
-/

namespace HabitHive

open HabitCollection

variable {κ : Type} {f : HabitDoc → κ} {E : List κ}

/-! ## The store -/

namespace Store

variable {st : Store}

/-- The counter counts exactly the documents of `E`. -/
structure Lists (f : HabitDoc → κ) (E : List κ) (st : Store) : Prop where
  counter : st.user.habitCounter = E.length
  docs : ∀ k < E.length, (st.habits k).map f = E[k]?

/-- Up to the first hole the documents are those of `E`. -/
structure Holed (f : HabitDoc → κ) (E : List κ) (st : Store) : Prop where
  counter : E.length ≤ st.user.habitCounter
  hole : E.length < st.user.habitCounter → ∃ j < st.user.habitCounter, st.habits j = none
  front : ∀ k < E.length, (∀ j ≤ k, st.habits j ≠ none) → (st.habits k).map f = E[k]?

theorem Lists.holed (h : Lists f E st) : Holed f E st where
  counter := h.counter.ge
  hole hlt := absurd h.counter hlt.ne'
  front k hk _ := h.docs k hk

theorem Holed.lists (h : Holed f E st)
    (hfull : ∀ j < st.user.habitCounter, st.habits j ≠ none) : Lists f E st := by
  have hcounter : st.user.habitCounter = E.length := by
    by_contra hne
    obtain ⟨j, hj, hnone⟩ := h.hole (lt_of_le_of_ne h.counter (Ne.symm hne))
    exact hfull j hj hnone
  exact ⟨hcounter, fun k hk => h.front k hk fun j hj => hfull j (by omega)⟩

/-- The delete of one document. -/
theorem Holed.erase (h : Holed f E st) {row : Nat} (hrow : row < E.length) :
    Holed f (E.eraseIdx row) (st.apply (.deleteHabit row)) where
  counter := by
    have := h.counter
    rw [List.length_eraseIdx_of_lt hrow]
    simp only [apply_deleteHabit_user]
    omega
  hole _ := ⟨row, hrow.trans_le h.counter, by simp [apply_deleteHabit_habits]⟩
  front k hk hfull := by
    rw [List.length_eraseIdx_of_lt hrow] at hk
    -- a document from the row on has the new hole below it
    have hlt : k < row := by
      by_contra hge
      exact hfull row (by omega) (by simp [apply_deleteHabit_habits])
    rw [apply_deleteHabit_habits, if_neg (by omega), List.getElem?_eraseIdx_of_lt hlt]
    refine h.front k (by omega) fun j hj hnone => hfull j hj ?_
    rw [apply_deleteHabit_habits]
    split
    · rfl
    · exact hnone

/-- The delete of the document behind the list. -/
theorem Holed.drop (h : Holed f E st) :
    Holed f E (st.apply (.deleteHabit E.length)) where
  counter := h.counter
  hole hlt := ⟨E.length, hlt, by simp [apply_deleteHabit_habits]⟩
  front k hk hfull := by
    rw [apply_deleteHabit_habits, if_neg (by omega)]
    refine h.front k hk fun j hj hnone => hfull j hj ?_
    rw [apply_deleteHabit_habits, if_neg (by omega)]
    exact hnone

theorem Holed.setCounter (h : Holed f E st) :
    Holed f E (st.apply (.updateUser { habitCounter := some E.length })) where
  counter := Nat.le_refl _
  hole hlt := absurd hlt (Nat.lt_irrefl _)
  front := h.front

/-- `updateFirebaseHabits` writes the list that is in memory. -/
theorem lists_of_rewrite (st : Store) (hs : List Habit) :
    Lists f (hs.map fun h => f h.toDocument)
      ((st.applyAll (setHabits 0 (hs.map Habit.toDocument))).apply
        (.updateUser { habitCounter := some hs.length })) where
  counter := by simp
  docs k hk := by
    rw [List.length_map] at hk
    rw [applyAll_setHabits, apply_updateUser_habits]
    simp [hk]

end Store

/-- A habit as the refresh orders it. -/
def rowOf (f : HabitDoc → κ) (h : Habit) : Nat × κ := (h.habitNumber, f h.toDocument)

/-- What a refresh loads from a store at rest. -/
theorem Store.Lists.all {st : Store} (h : st.Lists f E)
    (hread : ∀ n < st.user.habitCounter, ((st.view (rowOf f)).read n).isSome = true) :
    (st.view (rowOf f)).all.map Prod.snd = E := by
  have hcount : (st.view (rowOf f)).count = E.length := h.counter
  rw [View.all, hcount, List.map_filterMap]
  refine Eq.trans (List.filterMap_congr fun n hn => ?_) (Keyed.filterMap_range_getElem? E)
  have hn' : n < E.length := List.mem_range.mp hn
  obtain ⟨a, ha⟩ := Option.isSome_iff_exists.mp (hread n (h.counter ▸ hn'))
  obtain ⟨habit, hhabit, rfl⟩ := Option.map_eq_some_iff.mp ha
  rw [ha, ← h.docs n hn', Store.habits_of_readHabit hhabit]
  rfl

/-! ## The session -/

/-- The session holds the list `E`: in the store up to the holes of the
deletes under way, and in memory, or in memory and in the reads in flight.
A process that has not loaded the list has no delete under way. -/
structure Listed (f : HabitDoc → κ) (E : List κ) (s : State) : Prop where
  store : s.store.Holed f E
  settled : s.noChain = true → s.store.Lists f E
  list : Loading (rowOf f) (s.store.view (rowOf f)) (s.store.view (rowOf f)).all s ∨
    s.noFetch = true ∧ (s.habitArray.map (fun h => f h.toDocument) = E ∨
      s.habitArray = [] ∧ s.noChain = true)

/-- No step of a delete and no further refresh runs while reads of a
refresh are in flight. -/
def Exclusive (s : State) : Event → Prop
  | .deleteHabit | .fetchFirebaseHabits => s.noFetch = true
  | .deliver i => ∀ p ∈ s.pending[i]?,
      p.callback.isChain = true ∨ p.callback = .fetch → s.noFetch = true
  | _ => True

instance (s : State) (e : Event) : Decidable (Exclusive s e) := by
  induction e using Event.casesOn <;> unfold Exclusive <;> infer_instance

/-- A call that is no read of a refresh does not matter to the list. -/
theorem Loading.drop {g : Habit → κ} {v : View κ} {xs : List κ} {s : State} {i : Nat}
    {p : Pending} (h : Loading g v xs s) (hp : s.pending[i]? = some p)
    (hcb : p.callback.isFetch = false) : Loading g v xs (s.dropPending i) where
  store := h.store
  served q hq := h.served q ((mem_pending hp).mpr (Or.inr hq))
  rows := by
    have hout := outstanding_perm v (pending_perm hp)
    rw [outstanding_cons, v.yields_of_not_isFetch hcb, List.nil_append] at hout
    exact (hout.symm.append_left _).trans h.rows
  sorted := h.sorted
  missing n hn hnone := by
    obtain ⟨q, hq, hqcb⟩ := h.missing n hn hnone
    rcases (mem_pending hp).mp hq with rfl | hq
    · rcases hqcb with hqcb | hqcb <;> rw [hqcb] at hcb <;> contradiction
    · exact ⟨q, hq, hqcb⟩

namespace Listed

variable {s s' : State} {i : Nat} {p : Pending}

/-- With no read in flight the list in memory is `E`, or has not been
loaded. -/
theorem rows (h : Listed f E s) (hfetch : s.noFetch = true) :
    s.habitArray.map (fun h => f h.toDocument) = E ∨ s.habitArray = [] ∧ s.noChain = true := by
  rcases h.list with hload | ⟨_, hrows⟩
  · left
    have hread := fun n hn => hload.read_isSome hfetch (n := n) hn
    have hlists := h.store.lists fun j hj hnone => by
      have hsome := hread j hj
      simp [Store.view, Store.readHabit, Habit.ofDocument_eq, hnone] at hsome
    rw [← hlists.all hread, ← hload.finished Prod.fst (fun _ => rfl) hfetch,
      List.map_map]
    rfl
  · exact hrows

/-- A delete under way has a list in memory. -/
theorem rows_of_chain (h : Listed f E s) (hfetch : s.noFetch = true)
    (hchain : s.noChain = false) : s.habitArray.map (fun h => f h.toDocument) = E := by
  rcases h.rows hfetch with hrows | ⟨_, hno⟩
  · exact hrows
  · rw [hchain] at hno
    contradiction

theorem rows_of_lt (h : Listed f E s) (hfetch : s.noFetch = true) {row : Nat}
    (hrow : row < s.habitArray.length) : s.habitArray.map (fun h => f h.toDocument) = E := by
  rcases h.rows hfetch with hrows | ⟨hnil, _⟩
  · exact hrows
  · rw [hnil] at hrow
    contradiction

/-- A call that is neither a read of a refresh nor a step of a delete. -/
theorem drop (h : Listed f E s) (hp : s.pending[i]? = some p)
    (hfetch : p.callback.isFetch = false) (hchain : p.callback.isChain = false) :
    Listed f E (s.dropPending i) where
  store := h.store
  settled hno := h.settled (by rwa [noChain_drop hp hchain] at hno)
  list := by
    rcases h.list with hload | ⟨hno, hrows⟩
    · exact Or.inl (hload.drop hp hfetch)
    · refine Or.inr ⟨noFetch_drop hno, ?_⟩
      rwa [noChain_drop hp hchain]

/-- The press of the delete button. -/
theorem delete (h : Listed f E s) (hfetch : s.noFetch = true) {row : Nat}
    (hglobal : s.indexPathGlobal = some row) (hrow : row < s.habitArray.length) :
    Listed f (E.eraseIdx row) (deleteHabit s) := by
  have hrows := h.rows_of_lt hfetch hrow
  have hlen : row < E.length := by rwa [← hrows, List.length_map]
  rw [deleteHabit_eq hglobal hrow]
  refine ⟨h.store.erase hlen, fun hno => ?_, Or.inr ⟨noFetch_issue hfetch rfl, Or.inl ?_⟩⟩
  · rw [noChain_issue _ rfl] at hno
    contradiction
  · rw [← hrows, List.eraseIdx_map]
    rfl

/-- The completion of the first write of a delete. -/
theorem deleteDone (h : Listed f E s) (hfetch : s.noFetch = true)
    (hp : s.pending[i]? = some p) (hcb : p.callback = .deleteDone)
    (hok : (deleteDone (s.dropPending i)).crashed = none) :
    Listed f E (deleteDone (s.dropPending i)) := by
  have hrows := h.rows_of_chain hfetch (noChain_eq_false hp (by rw [hcb]; rfl))
  have hlen : s.habitArray.length = E.length := by rw [← hrows, List.length_map]
  cases hglobal : s.indexPathGlobal with
  | none => simp [HabitCollection.deleteDone, hglobal] at hok
  | some row =>
    have hstore : (HabitCollection.deleteDone (s.dropPending i)).store.Holed f E := by
      by_cases hrow : E.length = row
      · simpa [HabitCollection.deleteDone, hglobal, hlen, hrow] using hrow ▸ h.store.setCounter
      · simpa [HabitCollection.deleteDone, hglobal, hlen, hrow] using h.store.drop.setCounter
    rw [deleteDone_eq (s := s.dropPending i) hglobal] at hstore ⊢
    refine ⟨hstore, fun hno => ?_,
      Or.inr ⟨noFetch_issue (noFetch_drop hfetch) rfl, Or.inl hrows⟩⟩
    rw [noChain_issue _ rfl] at hno
    contradiction

/-- The completion of the counter update rewrites all documents. -/
theorem counterDone (h : Listed f E s) (hfetch : s.noFetch = true)
    (hp : s.pending[i]? = some p) (hcb : p.callback = .counterDone) :
    Listed f E (counterDone (s.dropPending i)) := by
  have hrows := h.rows_of_chain hfetch (noChain_eq_false hp (by rw [hcb]; rfl))
  have hlists : (HabitCollection.counterDone (s.dropPending i)).store.Lists f E := by
    rw [← hrows]
    exact Store.lists_of_rewrite s.store s.habitArray
  exact ⟨hlists.holed, fun _ => hlists,
    Or.inr ⟨noFetch_issue (noFetch_drop hfetch) rfl, Or.inl hrows⟩⟩

/-- A refresh that starts alone. -/
theorem fetch (h : Listed f E s) (hfetch : s.noFetch = true) :
    Listed f E (fetchFirebaseHabits s) where
  store := h.store
  settled hno := h.settled (noChain_iff.mpr fun q hq =>
    noChain_iff.mp hno q (List.mem_append_left _ hq))
  list := Or.inl (Loading.start_alone rfl hfetch)

theorem serve (h : Listed f E s) (j : Nat) : Listed f E (s.serve j) := by
  refine ⟨by rw [serve_store]; exact h.store, ?_, ?_⟩
  · rw [noChain_serve, serve_store]
    exact h.settled
  · rw [noChain_serve, noFetch_serve, serve_store, serve_habitArray]
    exact h.list.imp_left fun hload => hload.serve j

/-- A callback of a refresh. -/
theorem fetchRead (h : Listed f E s) (hp : s.pending[i]? = some p)
    (hcb : p.callback.isFetch = true)
    (hread : p.callback.isRead = true → ∃ st, p.snapshot = some st)
    (hok : (p.callback.run p.snapshot (s.dropPending i)).crashed = none) :
    Listed f E (p.callback.run p.snapshot (s.dropPending i)) := by
  have href := Callback.isRefresh_of_isFetch hcb
  have hstore := (listOnly_of_isRefresh href p.snapshot (s.dropPending i)).store
  have hnot := Callback.isChain_of_isRefresh href
  refine ⟨by rw [hstore]; exact h.store, fun hno => ?_, ?_⟩
  · rw [hstore]
    obtain ⟨cbs, hpending, hcbs⟩ := pending_of_isRefresh href p.snapshot (s.dropPending i)
    rw [noChain_of_issued hpending fun cb hcb => Callback.isChain_of_isFetch (hcbs cb hcb),
      noChain_drop hp hnot] at hno
    exact h.settled hno
  · rw [hstore]
    rcases h.list with hload | ⟨hno, _⟩
    · exact Or.inl (hload.fetchRead hp hcb hread hok)
    · rw [noFetch_iff.mp hno p (List.mem_of_getElem? hp)] at hcb
      contradiction

/-- A step that changes neither the list nor the store nor the calls. -/
theorem same (h : Listed f E s) (hstore : s'.store = s.store)
    (harray : s'.habitArray = s.habitArray) (hpending : s'.pending = s.pending) :
    Listed f E s' := by
  have hchain : s'.noChain = s.noChain := by rw [State.noChain, hpending, State.noChain]
  have hfetch : s'.noFetch = s.noFetch := by rw [State.noFetch, hpending, State.noFetch]
  refine ⟨hstore ▸ h.store, by rw [hchain, hstore]; exact h.settled, ?_⟩
  rw [hchain, hfetch, hstore, harray]
  refine h.list.imp_left fun hload => ⟨by rw [hstore], ?_, ?_, ?_, ?_⟩
  · rw [hpending]
    exact hload.served
  · rw [harray, hpending]
    exact hload.rows
  · rw [harray]
    exact hload.sorted
  · rw [hpending]
    exact hload.missing

/-- Any delivery of a call of a refresh or of a delete, where the two
exclude each other. -/
theorem deliver (h : Listed f E s) (hexcl : Exclusive s (.deliver i))
    (hcalls : ∀ p ∈ s.pending[i]?, p.callback.isRefresh = true ∨ p.callback.isChain = true)
    (hok : (s.deliver i).crashed = none) : Listed f E (s.deliver i) := by
  rcases deliver_cases s i with ⟨hs, _⟩ | ⟨p, hp, hread, hs⟩
  · rw [hs]
    exact h
  · rw [hs] at hok ⊢
    cases hcb : p.callback with
    | fetchCounter => exact hcb ▸ h.fetchRead hp (by rw [hcb]; rfl) hread hok
    | fetchHabit n => exact hcb ▸ h.fetchRead hp (by rw [hcb]; rfl) hread hok
    | deleteDone =>
      rw [hcb] at hok
      exact h.deleteDone (hexcl p hp (by simp [hcb, Callback.isChain])) hp hcb hok
    | counterDone => exact h.counterDone (hexcl p hp (by simp [hcb, Callback.isChain])) hp hcb
    | fetch =>
      have hfetch := hexcl p hp (Or.inr hcb)
      exact (h.drop hp (by rw [hcb]; rfl) (by rw [hcb]; rfl)).fetch (noFetch_drop hfetch)
    | reload => exact (h.drop hp (by rw [hcb]; rfl) (by rw [hcb]; rfl)).same rfl rfl rfl
    | _ =>
      rcases hcalls p hp with hcall | hcall <;> rw [hcb] at hcall <;> contradiction

end Listed

end HabitHive
