import HabitHive.Faults
import HabitHive.Numbering

/-!
# Deletes

A delete takes a habit out of `habitArray`, and when its first write has
completed, the rest of the chain writes the list back as it is then in
memory.  With a refresh in flight that list is empty or partly loaded, and
the habits that are missing from it are lost.

`reachable_of_exclusive` is the positive result: any number of deletes,
which may overlap each other, lose no other habit as long as no refresh is
in flight at a step of a delete.  The list of habits is `Listed`, and what
the deletes took out is observed by `shownAtDelete`.  A process that ends
with nothing in flight leaves the documents in order (`settled_of_crash`).
-/

namespace HabitHive

open HabitCollection

/-- Deletes, refreshes, and what Firestore and the main queue do with their
calls. -/
inductive DeleteEvent : Event → Prop where
  | handleLongPress (row : Nat) : DeleteEvent (.handleLongPress row)
  | deleteHabit : DeleteEvent .deleteHabit
  | fetchFirebaseHabits : DeleteEvent .fetchFirebaseHabits
  | serve (i : Nat) : DeleteEvent (.serve i)
  | deliver (i : Nat) : DeleteEvent (.deliver i)

/-- The habit that the list shows at the row of a delete. -/
def shownAtDelete (s : State) : Event → List Nat
  | .deleteHabit =>
    match s.crashed, s.indexPathGlobal with
    | none, some row => (s.habitArray[row]?.map Habit.ident).toList
    | _, _ => []
  | _ => []

theorem shownAtDelete_of_crashed {s : State} (h : s.crashed ≠ none) (e : Event) :
    shownAtDelete s e = [] := by
  obtain ⟨f, hf⟩ := Option.ne_none_iff_exists'.mp h
  cases e <;> simp [shownAtDelete, hf]

/-- The documents of `Store.ofFields`. -/
def numberedDocs (fs : List HabitFields) : List HabitDoc :=
  fs.mapIdx fun n fields => { fields, ident := n }

theorem nodup_numberedDocs (fs : List HabitFields) :
    ((numberedDocs fs).map HabitDoc.ident).Nodup := by
  have hmap : (numberedDocs fs).map HabitDoc.ident = List.range fs.length := by
    refine List.ext_getElem? fun k => ?_
    by_cases hk : k < fs.length <;> simp [numberedDocs, hk]
  rw [hmap]
  exact List.nodup_range

theorem lists_ofFields (fs : List HabitFields) :
    (Store.ofFields fs).Lists id (numberedDocs fs) where
  counter := by simp [Store.ofFields, numberedDocs]
  docs k hk := by simp [Store.ofFields, numberedDocs]

/-- A store at rest reaches exactly its list. -/
theorem Store.Lists.reachable {docs : List HabitDoc} {st : Store} (h : st.Lists id docs) :
    st.reachable = docs.map some := by
  refine List.ext_getElem? fun k => ?_
  rw [Store.reachable, Store.numbers, h.counter]
  by_cases hk : k < docs.length
  · have hdoc := h.docs k hk
    rw [Option.map_id_fun, id_eq] at hdoc
    rw [List.getElem?_map, List.getElem?_range hk, Option.map_some, hdoc, List.getElem?_map,
      List.getElem?_eq_getElem hk]
    rfl
  · rw [List.getElem?_eq_none (by simpa using hk), List.getElem?_eq_none (by simpa using hk)]

/-- A delete from a list without `gone` is a list without one more. -/
theorem eraseIdx_filter {docs : List HabitDoc} (hnodup : (docs.map HabitDoc.ident).Nodup)
    {gone : List Nat} {row : Nat} {doc : HabitDoc}
    (hrow : (docs.filter fun d => d.ident ∉ gone)[row]? = some doc) :
    (docs.filter fun d => d.ident ∉ gone).eraseIdx row =
      docs.filter fun d => d.ident ∉ gone ++ [doc.ident] := by
  have hsub : ((docs.filter fun d => d.ident ∉ gone).map HabitDoc.ident).Nodup :=
    hnodup.sublist (List.filter_sublist.map _)
  rw [Keyed.eraseIdx_eq_filter_key hsub hrow, List.filter_filter]
  refine List.filter_congr fun d _ => ?_
  simp [and_comm, not_or]

/-- The calls of deletes and refreshes. -/
def DeleteCalls (s : State) : Prop :=
  ∀ p ∈ s.pending, p.callback.isRefresh = true ∨ p.callback.isChain = true

namespace DeleteCalls

variable {s s' : State}

theorem of_issued (h : DeleteCalls s) (cbs : List Callback)
    (hpending : s'.pending = s.pending ++ cbs.map ({ callback := · }))
    (hcbs : ∀ cb ∈ cbs, cb.isRefresh = true ∨ cb.isChain = true) : DeleteCalls s' := by
  intro p hp
  rw [hpending, List.mem_append] at hp
  rcases hp with hp | hp
  · exact h p hp
  · obtain ⟨cb, hcb, rfl⟩ := List.mem_map.mp hp
    exact hcbs cb hcb

theorem drop (h : DeleteCalls s) (i : Nat) : DeleteCalls (s.dropPending i) :=
  fun p hp => h p (List.mem_of_mem_eraseIdx hp)

theorem deliver (h : DeleteCalls s) (i : Nat) : DeleteCalls (s.deliver i) := by
  rcases deliver_cases s i with ⟨hs, _⟩ | ⟨p, hp, _, hs⟩ <;> rw [hs]
  · exact h
  · rcases h p (List.mem_of_getElem? hp) with href | hchain
    · obtain ⟨cbs, hpending, hfetch⟩ := pending_of_isRefresh href p.snapshot (s.dropPending i)
      exact (h.drop i).of_issued cbs hpending fun cb hcb =>
        Or.inl (Callback.isRefresh_of_isFetch (hfetch cb hcb))
    · cases hcb : p.callback <;> rw [hcb] at hchain <;> try contradiction
      · rw [Callback.run]
        rcases deleteDone_cases (s.dropPending i) with hs | ⟨row, hglobal⟩
        · rw [hs]
          exact h.drop i
        · rw [deleteDone_eq hglobal]
          exact (h.drop i).of_issued [.counterDone] rfl (by simp [Callback.isChain])
      · exact (h.drop i).of_issued [.fetch] rfl (by simp [Callback.isRefresh])

theorem handle {e : Event} (h : DeleteCalls s) (he : DeleteEvent e) :
    DeleteCalls (handle s e) := by
  cases he with
  | handleLongPress row =>
    simp only [HabitHive.handle, handleLongPress]
    split <;> exact h
  | deleteHabit =>
    rcases deleteHabit_cases s with ⟨f, _, hs⟩ | ⟨row, hglobal, hrow⟩
    · rw [HabitHive.handle, hs]
      exact h
    · rw [HabitHive.handle, deleteHabit_eq hglobal hrow]
      exact h.of_issued [.deleteDone] rfl (by simp [Callback.isChain])
  | fetchFirebaseHabits => exact h.of_issued [.fetchCounter] rfl (by simp [Callback.isRefresh])
  | serve i =>
    intro p hp
    rcases mem_serve s i hp with hp | ⟨_, hp⟩
    · exact h p hp
    · exact h { callback := p.callback } hp
  | deliver i => exact h.deliver i

end DeleteCalls

/-- One event of deletes and refreshes that exclude each other. -/
theorem Listed.deleteStep {docs : List HabitDoc} (hnodup : (docs.map HabitDoc.ident).Nodup)
    {gone : List Nat} {s : State} {e : Event}
    (h : Listed id (docs.filter fun d => d.ident ∉ gone) s) (hcalls : DeleteCalls s)
    (hrunning : s.crashed = none) (he : DeleteEvent e) (hexcl : Exclusive s e)
    (hok : (handle s e).crashed = none) :
    Listed id (docs.filter fun d => d.ident ∉ gone ++ shownAtDelete s e) (handle s e) := by
  cases he with
  | handleLongPress row =>
    simp only [shownAtDelete, List.append_nil, HabitHive.handle, handleLongPress]
    split <;> exact h.same rfl rfl rfl
  | deleteHabit =>
    rcases deleteHabit_cases s with ⟨f, _, hs⟩ | ⟨row, hglobal, hrow⟩
    · simp [HabitHive.handle, hs] at hok
    · have hrows := h.rows_of_lt hexcl hrow
      have hdoc : (docs.filter fun d => d.ident ∉ gone)[row]? =
          some s.habitArray[row].toDocument := by
        rw [← hrows]
        simp [hrow]
      have hshown : shownAtDelete s .deleteHabit = [s.habitArray[row].toDocument.ident] := by
        simp [shownAtDelete, hrunning, hglobal, hrow, Habit.toDocument]
      rw [hshown, ← eraseIdx_filter hnodup hdoc]
      exact h.delete hexcl hglobal hrow
  | fetchFirebaseHabits =>
    rw [show shownAtDelete s .fetchFirebaseHabits = [] from rfl, List.append_nil]
    exact h.fetch hexcl
  | serve i =>
    rw [show shownAtDelete s (.serve i) = [] from rfl, List.append_nil]
    exact h.serve i
  | deliver i =>
    rw [show shownAtDelete s (.deliver i) = [] from rfl, List.append_nil]
    exact h.deliver hexcl (fun p hp => hcalls p (List.mem_of_getElem? hp)) hok

/-! ## Processes that end -/

/-- A delivery that leaves nothing in flight took the last call. -/
theorem noChain_of_last {s s' : State} {i : Nat} {p : Pending} {cbs : List Callback}
    (hp : s.pending[i]? = some p) (hchain : p.callback.isChain = false)
    (hpending : s'.pending = (s.dropPending i).pending ++ cbs.map ({ callback := · }))
    (hdone : s'.pending = []) : s.noChain = true := by
  rw [hpending, List.append_eq_nil_iff] at hdone
  rw [← noChain_drop hp hchain, State.noChain, hdone.1]
  rfl

/-- An event that ends the process with nothing in flight left the documents
alone, and no delete was under way. -/
theorem settled_of_crash {s : State} {e : Event} (hcalls : DeleteCalls s) (hsound : s.Sound)
    (hrunning : s.crashed = none) (he : DeleteEvent e) (hcrash : (handle s e).crashed ≠ none)
    (hdone : (handle s e).pending = []) :
    (handle s e).store = s.store ∧ s.noChain = true ∧ shownAtDelete s e = [] := by
  have hidle : s.pending = [] → s.noChain = true := fun h => by rw [State.noChain, h]; rfl
  cases he with
  | handleLongPress row =>
    simp only [HabitHive.handle, handleLongPress] at hcrash hdone ⊢
    split at hdone
    · next hrow =>
      rw [if_pos hrow] at hcrash
      exact absurd hrunning hcrash
    · next hrow =>
      rw [if_neg hrow]
      exact ⟨rfl, hidle hdone, rfl⟩
  | deleteHabit =>
    simp only [HabitHive.handle] at hcrash hdone ⊢
    by_cases hrow : ∃ row, s.indexPathGlobal = some row ∧ row < s.habitArray.length
    · obtain ⟨row, hglobal, hrow⟩ := hrow
      rw [deleteHabit_eq hglobal hrow] at hcrash
      exact absurd hrunning hcrash
    · obtain ⟨f, _, hs⟩ := (deleteHabit_cases s).resolve_right hrow
      rw [hs] at hdone ⊢
      refine ⟨rfl, hidle hdone, ?_⟩
      cases hglobal : s.indexPathGlobal with
      | none => simp [shownAtDelete, hrunning, hglobal]
      | some row =>
        have hout : s.habitArray.length ≤ row :=
          Nat.not_lt.mp fun hlt => hrow ⟨row, hglobal, hlt⟩
        simp [shownAtDelete, hrunning, hglobal, hout]
  | fetchFirebaseHabits => exact absurd hrunning hcrash
  | serve i =>
    rw [HabitHive.handle, serve_crashed] at hcrash
    exact absurd hrunning hcrash
  | deliver i =>
    simp only [HabitHive.handle] at hcrash hdone ⊢
    rcases deliver_cases s i with ⟨hs, _⟩ | ⟨p, hp, _, hs⟩ <;> rw [hs] at hcrash hdone ⊢
    · exact absurd hrunning hcrash
    · have hmem := List.mem_of_getElem? hp
      rcases hcalls p hmem with href | hchain
      · obtain ⟨cbs, hpending, _⟩ := pending_of_isRefresh href p.snapshot (s.dropPending i)
        exact ⟨(listOnly_of_isRefresh href p.snapshot (s.dropPending i)).store,
          noChain_of_last hp (Callback.isChain_of_isRefresh href) hpending hdone, rfl⟩
      · -- a callback of the chain finds its row, so it does not end the process
        have hfault := ((hsound.dropPending i).callback hrunning p.callback p.snapshot
          (hsound.chosen p hmem)).2
        have hnone : p.callback.fault p.snapshot = none := by
          cases hcb : p.callback <;> rw [hcb] at hchain <;> first | contradiction | rfl
        rw [hfault, hnone] at hcrash
        exact absurd rfl hcrash

/-- Between two events of deletes and refreshes that exclude each other, with
`gone` deleted. -/
structure Deleting (docs : List HabitDoc) (gone : List Nat) (s : State) : Prop where
  sound : s.Sound
  calls : DeleteCalls s
  listed : s.crashed = none → Listed id (docs.filter fun d => d.ident ∉ gone) s
  ended : s.crashed ≠ none → s.pending = [] →
    s.store.Lists id (docs.filter fun d => d.ident ∉ gone)

theorem Deleting.step {docs : List HabitDoc} (hnodup : (docs.map HabitDoc.ident).Nodup)
    {gone : List Nat} {s : State} {e : Event} (h : Deleting docs gone s) (he : DeleteEvent e)
    (hexcl : Exclusive s e) : Deleting docs (gone ++ shownAtDelete s e) (step s e) := by
  by_cases hrunning : s.crashed = none
  · have hlisted := h.listed hrunning
    rw [step_of_running hrunning]
    refine ⟨step_of_running hrunning ▸ h.sound.step e, h.calls.handle he,
      hlisted.deleteStep hnodup h.calls hrunning he hexcl, fun hcrash hdone => ?_⟩
    obtain ⟨hstore, hchain, hshown⟩ :=
      settled_of_crash h.calls h.sound hrunning he hcrash hdone
    rw [hstore, hshown, List.append_nil]
    exact hlisted.settled hchain
  · have hstuck : HabitHive.step s e = s := by
      cases he <;> simp [HabitHive.step, hrunning]
    rw [hstuck, shownAtDelete_of_crashed hrunning, List.append_nil]
    exact h

/-- What the counter reaches at the end of a run. -/
theorem Deleting.run {docs : List HabitDoc} (hnodup : (docs.map HabitDoc.ident).Nodup)
    {s : State} {es : List Event} (h : Deleting docs [] s) (hes : ∀ e ∈ es, DeleteEvent e)
    (hexcl : Runs.Guarded HabitHive.step Exclusive s es) (hdone : (run s es).pending = []) :
    (run s es).store.reachable =
      (docs.filter fun d =>
        d.ident ∉ Runs.observe HabitHive.step shownAtDelete s es).map some := by
  have hguard :=
    (Runs.guarded_record HabitHive.step shownAtDelete (s, []) es).mpr (hexcl.and_forall hes)
  have hrun := Runs.run_invariant (I := fun x => Deleting docs x.2 x.1)
    (fun x e hx hok => hx.step hnodup hok.2 hok.1) hguard h
  rw [Runs.run_record, List.nil_append] at hrun
  by_cases hrunning : (HabitHive.run s es).crashed = none
  · exact ((hrun.listed hrunning).settled (by rw [State.noChain, hdone]; rfl)).reachable
  · exact (hrun.ended hrunning hdone).reachable

/-- After all callbacks of any interleaving of deletes and refreshes, the
documents that the counter reaches are the stored ones that were not shown
at the row of a delete, once each and in order, if no read of a refresh is
in flight when a delete is pressed, when one of its callbacks runs and when
another refresh starts. -/
theorem reachable_of_exclusive (fs : List HabitFields) {es : List Event}
    (hes : ∀ e ∈ es, DeleteEvent e)
    (hexcl : Runs.Guarded step Exclusive (.launched (.ofFields fs)) es)
    (hdone : (run (.launched (.ofFields fs)) es).pending = []) :
    (run (.launched (.ofFields fs)) es).store.reachable =
      ((numberedDocs fs).filter fun d =>
        d.ident ∉ Runs.observe step shownAtDelete (.launched (.ofFields fs)) es).map some := by
  have hlists := lists_ofFields fs
  have hstart : Listed id (numberedDocs fs) (.launched (.ofFields fs)) :=
    ⟨hlists.holed, fun _ => hlists, Or.inr ⟨rfl, Or.inr ⟨rfl, rfl⟩⟩⟩
  have hdeleting : Deleting (numberedDocs fs) [] (.launched (.ofFields fs)) := by
    refine ⟨⟨by simp [State.launched], by simp [State.launched], by simp [State.launched]⟩,
      by simp [DeleteCalls, State.launched], fun _ => ?_, fun h => absurd rfl h⟩
    rwa [List.filter_eq_self.mpr (by simp)]
  exact hdeleting.run (nodup_numberedDocs fs) hes hexcl hdone

/-- Two habits; the first is deleted while the document of the second is
still being read.  The chain of the delete finds an empty list and sets the
counter to zero. -/
theorem delete_during_refresh_loses :
    let fs := [(Entry.sample 1).fields, (Entry.sample 2).fields]
    let s := State.launched (Store.ofFields fs)
    let es : List Event :=
      [.fetchFirebaseHabits, .serve 0, .deliver 0, .serve 0, .serve 1, .deliver 0,
        .handleLongPress 0, .deleteHabit, .deliver 1, .deliver 1, .deliver 0, .deliver 0,
        .serve 0, .deliver 0]
    (∀ e ∈ es, DeleteEvent e) ∧ (run s es).pending = [] ∧ (run s es).crashed = none ∧
      Runs.observe step shownAtDelete s es = [0] ∧
      (run s es).store.reachable = [] ∧
      (run s es).store.reachable ≠
        ((numberedDocs fs).filter fun d =>
          d.ident ∉ Runs.observe step shownAtDelete s es).map some := by
  refine ⟨?_, by decide, by decide, by decide, by decide, by decide⟩
  intro e he
  fin_cases he <;> constructor

/-- Two deletes of three habits, the second pressed before the first has
completed. -/
theorem reachable_of_exclusive_overlapping :
    let fs := [(Entry.sample 1).fields, (Entry.sample 2).fields, (Entry.sample 3).fields]
    let s := State.launched (Store.ofFields fs)
    let es : List Event :=
      [.fetchFirebaseHabits, .serve 0, .deliver 0, .serve 0, .serve 1, .serve 2, .deliver 0,
        .deliver 0, .deliver 0, .handleLongPress 0, .deleteHabit, .handleLongPress 1, .deleteHabit,
        .deliver 0, .deliver 0, .deliver 0, .deliver 0, .deliver 0, .serve 1, .deliver 1, .serve 1,
        .deliver 1, .deliver 0, .serve 0, .deliver 0, .serve 0, .deliver 0]
    (run s es).store.reachable =
      ((numberedDocs fs).filter fun d =>
        d.ident ∉ Runs.observe step shownAtDelete s es).map some := by
  refine reachable_of_exclusive _ ?_ (by decide) (by decide)
  intro e he
  fin_cases he <;> constructor

end HabitHive
