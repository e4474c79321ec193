import HabitHive.Effects

/-!
# A store that can be loaded

The app can be killed between any two writes, so what matters is the store
after each prefix of the journal.  `Reached ok st` says that `st` is such a
store: of a process whose events are all `ok`, started on a store that was
left behind in the same way, back to sign-up.

As long as no habit is deleted every such store is `Sound`: all documents
that the counter counts exist, and all documents have their nine fields.  A
create writes its document before it raises the counter, and the other
operations only change fields (`Effects`).  `loadable_of_noDelete` is the
result.

A delete takes the steps the other way round.  `unloadable_of_delete` says
that each one leaves a store that cannot be loaded.
-/

namespace HabitHive

open HabitCollection

namespace Store

/-- The document of every number below the counter exists with all nine
fields that `fetchFirebaseHabits` casts. -/
def Loadable (st : Store) : Prop := ∀ k < st.user.habitCounter, (st.readHabit k).isSome = true

/-- The documents that the counter counts exist, and all are complete. -/
structure Sound (st : Store) : Prop where
  complete : st.Complete
  filled : ∀ k < st.user.habitCounter, (st.habits k).isSome = true

variable {st : Store}

/-- Any other document can be read. -/
theorem Complete.readHabit_isSome (h : st.Complete) {k : Nat}
    (hk : (st.habits k).isSome = true) : (st.readHabit k).isSome = true := by
  obtain ⟨doc, hdoc⟩ := Option.isSome_iff_exists.mp hk
  rw [readHabit, Habit.ofDocument_eq, hdoc, Option.bind_some, Option.isSome_map]
  exact h k doc hdoc

theorem Sound.loadable (h : st.Sound) : st.Loadable :=
  fun k hk => h.complete.readHabit_isSome (h.filled k hk)

theorem isSome_of_isPlain {w : Write} (hw : w.isPlain = true) (k : Nat) :
    ((st.apply w).habits k).isSome = (st.habits k).isSome :=
  isSome_of_ident (ident_of_isPlain hw k)

theorem Sound.of_isPlain (h : st.Sound) {w : Write} (hw : w.isPlain = true) :
    (st.apply w).Sound where
  complete := h.complete.of_isPlain hw
  filled k hk := by
    rw [habitCounter_of_isPlain hw] at hk
    rw [isSome_of_isPlain hw]
    exact h.filled k hk

/-- A complete document can be set anywhere. -/
theorem Sound.setHabit (h : st.Sound) (n : Nat) {doc : HabitDoc}
    (hdoc : doc.fields.decode.isSome = true) : (st.apply (.setHabit n doc)).Sound where
  complete k doc' hdoc' := by
    rw [apply_setHabit_habits] at hdoc'
    split at hdoc'
    · rw [← Option.some.inj hdoc']
      exact hdoc
    · exact h.complete k doc' hdoc'
  filled k hk := by
    rw [apply_setHabit_habits]
    split
    · rfl
    · exact h.filled k hk

/-- The counter can be set to what is filled. -/
theorem Sound.setCounter (h : st.Sound) (n : Nat)
    (hn : ∀ k < n, (st.habits k).isSome = true) :
    (st.apply (.updateUser { habitCounter := some n })).Sound where
  complete := h.complete
  filled := hn

end Store

/-! ## One process -/

/-- A process that has not deleted anything, started on `st₀`.  The last
two fields hold for runs without a failed read. -/
structure Keeping (fails : Bool) (st₀ : Store) (s : State) : Prop where
  store : s.store = st₀.applyAll s.journal
  points : ∀ ws, ws <+: s.journal → (st₀.applyAll ws).Sound
  known : ∀ p ∈ s.pending, ∀ st, p.snapshot = some st →
    ∀ k < st.user.habitCounter, (s.store.habits k).isSome = true
  forms : ∀ form ∈ s.creating, ∀ k < form.habitCounter, (s.store.habits k).isSome = true
  chain : ∀ p ∈ s.pending, p.callback ≠ .deleteDone ∧ p.callback ≠ .counterDone
  reads : fails = false → ∀ p ∈ s.pending, ∀ n, p.callback = .fetchHabit n →
    (s.store.habits n).isSome = true ∧ ∀ st, p.snapshot = some st → (st.readHabit n).isSome = true
  cast : fails = false → s.crashed ≠ some .forcedCast

/-- The prefixes of a longer journal. -/
theorem prefix_append_cases {ws js vs : List Write} (h : ws <+: js ++ vs) :
    ws <+: js ∨ ∃ us, us <+: vs ∧ ws = js ++ us := by
  rcases List.prefix_or_prefix_of_prefix h (List.prefix_append js vs) with hle | ⟨us, rfl⟩
  · exact Or.inl hle
  · exact Or.inr ⟨us, (List.prefix_append_right_inj js).mp h, rfl⟩

theorem sound_of_plain {st : Store} {ws : List Write} (h : st.Sound)
    (hws : ∀ w ∈ ws, w.isPlain = true) : (st.applyAll ws).Sound := by
  induction ws generalizing st with
  | nil => exact h
  | cons w ws ih =>
    exact ih (h.of_isPlain (hws w (by simp))) fun v hv => hws v (List.mem_cons_of_mem w hv)

namespace Keeping

variable {fails : Bool} {st₀ : Store} {s s' : State}

theorem sound (h : Keeping fails st₀ s) : s.store.Sound := by
  rw [h.store]
  exact h.points _ (List.prefix_refl _)

theorem start (fails : Bool) (h : st₀.Sound) (hs : s.store = st₀) :
    Keeping fails st₀ s.started where
  store := hs
  points ws hws := by
    rw [show s.started.journal = [] from rfl, List.prefix_nil] at hws
    rw [hws]
    exact h
  known := by simp [State.started, State.relaunch]
  forms := by simp [State.started, State.relaunch]
  chain := by simp [State.started, State.relaunch]
  reads := by simp [State.started, State.relaunch]
  cast := by simp [State.started, State.relaunch]

theorem mild (h : Keeping fails st₀ s) (hs : Mild s s') : Keeping fails st₀ s' := by
  obtain ⟨⟨ws, hplain, hstore, hjournal⟩, ⟨cbs, hpending, hcbs⟩, hforms, hcast⟩ := hs
  have hsame : ∀ k, (s'.store.habits k).isSome = (s.store.habits k).isSome := by
    intro k
    rw [hstore]
    exact Store.isSome_of_ident (Store.ident_of_plain hplain k)
  -- what is in flight was in flight before, or is a call that was just issued
  have hmem : ∀ p ∈ s'.pending, p ∈ s.pending ∨ ∃ cb ∈ cbs, p = { callback := cb } := by
    intro p hp
    rw [hpending, List.mem_append] at hp
    refine hp.imp_right fun hp => ?_
    obtain ⟨cb, hcb, rfl⟩ := List.mem_map.mp hp
    exact ⟨cb, hcb, rfl⟩
  refine ⟨?_, ?_, ?_, ?_, ?_, ?_, fun hf hc => h.cast hf (hcast hc)⟩
  · rw [hstore, hjournal, Store.applyAll_append, ← h.store]
  · intro vs hvs
    rw [hjournal] at hvs
    rcases prefix_append_cases hvs with hle | ⟨us, hus, rfl⟩
    · exact h.points vs hle
    · rw [Store.applyAll_append, ← h.store]
      exact sound_of_plain h.sound fun w hw => hplain w (hus.subset hw)
  · intro p hp st hst k hk
    rw [hsame]
    rcases hmem p hp with hp | ⟨cb, _, rfl⟩
    · exact h.known p hp st hst k hk
    · simp at hst
  · intro form hform k hk
    rw [hsame]
    rcases hforms form hform with hzero | ⟨old, hold, heq⟩
    · omega
    · exact h.forms old hold k (heq ▸ hk)
  · intro p hp
    rcases hmem p hp with hp | ⟨cb, hcb, rfl⟩
    · exact h.chain p hp
    · exact (hcbs cb hcb).2
  · intro hf p hp n hcb
    rw [hsame]
    rcases hmem p hp with hp | ⟨cb, hmem, rfl⟩
    · exact h.reads hf p hp n hcb
    · exact absurd hcb ((hcbs cb hmem).1 n)

theorem drop (h : Keeping fails st₀ s) {i : Nat} {p : Pending} (hp : s.pending[i]? = some p) :
    Keeping fails st₀ (s.dropPending i) where
  store := h.store
  points := h.points
  known q hq := h.known q ((mem_pending hp).mpr (Or.inr hq))
  forms := h.forms
  chain q hq := h.chain q ((mem_pending hp).mpr (Or.inr hq))
  reads hf q hq := h.reads hf q ((mem_pending hp).mpr (Or.inr hq))
  cast := h.cast

theorem serve (h : Keeping fails st₀ s) (i : Nat) : Keeping fails st₀ (s.serve i) := by
  have hcreating : (s.serve i).creating = s.creating := by
    rcases serve_cases s i with hs | ⟨_, _, _, _, hs⟩ <;> rw [hs]
  refine ⟨?_, ?_, ?_, ?_, ?_, ?_, ?_⟩
  · rw [serve_store, serve_journal]
    exact h.store
  · rw [serve_journal]
    exact h.points
  · intro p hp st hst k hk
    rw [serve_store]
    rcases mem_serve s i hp with hp | ⟨hsnap, _⟩
    · exact h.known p hp st hst k hk
    · rw [hsnap, Option.some.injEq] at hst
      exact h.sound.filled k (hst ▸ hk)
  · rw [hcreating, serve_store]
    exact h.forms
  · intro p hp
    rcases mem_serve s i hp with hp | ⟨_, hp⟩
    · exact h.chain p hp
    · exact h.chain { callback := p.callback } hp
  · intro hf p hp n hcb
    rw [serve_store]
    rcases mem_serve s i hp with hp | ⟨hsnap, hp⟩
    · exact h.reads hf p hp n hcb
    · have hsome := (h.reads hf _ hp n hcb).1
      refine ⟨hsome, fun st hst => ?_⟩
      rw [hsnap, Option.some.injEq] at hst
      exact hst ▸ h.sound.complete.readHabit_isSome hsome
  · rw [serve_crashed]
    exact h.cast

/-- The counter callback reads documents that exist, unless it was given no
document. -/
theorem fetchCounterRead (h : Keeping fails st₀ s) (document : Option Store)
    (hdoc : fails = false → ∃ st, document = some st ∧
      ∀ k < st.user.habitCounter, (s.store.habits k).isSome = true) :
    Keeping fails st₀ (fetchCounterRead document s) := by
  have hframe := fetchCounterRead_listOnly document s
  obtain ⟨n, hpending⟩ := fetchCounterRead_pending document s
  have hmem : ∀ p ∈ (HabitCollection.fetchCounterRead document s).pending,
      p ∈ s.pending ∨ ∃ k, p = { callback := .fetchHabit k } := by
    intro p hp
    rw [hpending, List.mem_append] at hp
    refine hp.imp_right fun hp => ?_
    simp only [List.map_map, List.mem_map] at hp
    obtain ⟨k, _, rfl⟩ := hp
    exact ⟨k, rfl⟩
  refine ⟨?_, ?_, ?_, ?_, ?_, ?_, ?_⟩
  · rw [hframe.store, hframe.journal]
    exact h.store
  · rw [hframe.journal]
    exact h.points
  · intro p hp st hst
    rw [hframe.store]
    rcases hmem p hp with hp | ⟨k, rfl⟩
    · exact h.known p hp st hst
    · simp at hst
  · rw [hframe.creating, hframe.store]
    exact h.forms
  · intro p hp
    rcases hmem p hp with hp | ⟨k, rfl⟩
    · exact h.chain p hp
    · simp
  · intro hf p hp k hcb
    obtain ⟨st, rfl, hst⟩ := hdoc hf
    rw [hframe.store]
    rw [fetchCounterRead_some, State.issueAll_pending, List.mem_append] at hp
    rcases hp with hp | hp
    · exact h.reads hf p hp k hcb
    · simp only [List.map_map, List.mem_map, List.mem_range] at hp
      obtain ⟨j, hj, rfl⟩ := hp
      obtain rfl := Callback.fetchHabit.inj hcb
      exact ⟨hst j hj, by simp⟩
  · intro hf
    obtain ⟨st, rfl, _⟩ := hdoc hf
    rw [fetchCounterRead_some]
    exact h.cast hf

theorem fetchHabitRead (h : Keeping fails st₀ s) (n : Nat) (document : Option Store)
    (hdoc : fails = false → ∃ st, document = some st ∧ (st.readHabit n).isSome = true) :
    Keeping fails st₀ (fetchHabitRead n document s) := by
  have hframe := fetchHabitRead_listOnly n document s
  have hpending : (HabitCollection.fetchHabitRead n document s).pending = s.pending := by
    unfold HabitCollection.fetchHabitRead
    cases document with
    | none => rfl
    | some st => cases hread : st.readHabit n <;> simp [hread]
  refine ⟨?_, ?_, ?_, ?_, ?_, ?_, ?_⟩
  · rw [hframe.store, hframe.journal]
    exact h.store
  · rw [hframe.journal]
    exact h.points
  · rw [hpending, hframe.store]
    exact h.known
  · rw [hframe.creating, hframe.store]
    exact h.forms
  · rw [hpending]
    exact h.chain
  · rw [hpending, hframe.store]
    exact h.reads
  · intro hf
    obtain ⟨st, rfl, hsome⟩ := hdoc hf
    obtain ⟨habit, hread⟩ := Option.isSome_iff_exists.mp hsome
    rw [fetchHabitRead_some hread]
    exact h.cast hf

/-- A document set where every lower number is filled, then the counter. -/
theorem create (h : Keeping fails st₀ s) {n : Nat} {doc : HabitDoc}
    (hn : ∀ k < n, (s.store.habits k).isSome = true) (hdoc : doc.fields.decode.isSome = true)
    {forms : List CreateForm}
    (hforms : ∀ form ∈ forms, form.habitCounter = n ∨ form ∈ s.creating) :
    Keeping fails st₀
      ((({ s with creating := forms }.write (.setHabit n doc)).write
        (.updateUser { habitCounter := some (n + 1) })).issue .fetch) := by
  have hset := h.sound.setHabit n hdoc
  have hgrow : ∀ k, (s.store.habits k).isSome = true →
      ((s.store.apply (.setHabit n doc)).habits k).isSome = true := by
    intro k hk
    rw [Store.apply_setHabit_habits]
    split
    · rfl
    · exact hk
  have hbelow : ∀ k < n + 1, ((s.store.apply (.setHabit n doc)).habits k).isSome = true := by
    intro k hk
    rcases Nat.lt_succ_iff_lt_or_eq.mp hk with hlt | rfl
    · exact hgrow k (hn k hlt)
    · simp [Store.apply_setHabit_habits]
  refine ⟨?_, ?_, ?_, ?_, ?_, ?_, h.cast⟩
  · simp [State.issue, State.write, Store.applyAll_append, h.store]
  · intro ws hws
    have hws : ws <+: s.journal ++
        [.setHabit n doc, .updateUser { habitCounter := some (n + 1) }] := by
      simpa using hws
    rcases prefix_append_cases hws with hle | ⟨us, hus, rfl⟩
    · exact h.points ws hle
    · rw [Store.applyAll_append, ← h.store]
      -- killed before the document, between the two writes, or after the counter
      rcases us with _ | ⟨u, _ | ⟨v, us⟩⟩
      · exact h.sound
      · obtain ⟨rfl, _⟩ := List.cons_prefix_cons.mp hus
        exact hset
      · obtain ⟨rfl, hrest⟩ := List.cons_prefix_cons.mp hus
        obtain ⟨rfl, hnil⟩ := List.cons_prefix_cons.mp hrest
        rw [List.prefix_nil.mp hnil]
        exact hset.setCounter (n + 1) hbelow
  · intro p hp st hst k hk
    rcases List.mem_append.mp hp with hp | hp
    · exact hgrow k (h.known p hp st hst k hk)
    · rw [List.mem_singleton.mp hp] at hst
      simp at hst
  · intro form hform k hk
    rcases hforms form hform with heq | hmem
    · exact hgrow k (hn k (heq ▸ hk))
    · exact hgrow k (h.forms form hmem k hk)
  · intro p hp
    rcases List.mem_append.mp hp with hp | hp
    · exact h.chain p hp
    · rw [List.mem_singleton.mp hp]
      simp
  · intro hf p hp k hcb
    rcases List.mem_append.mp hp with hp | hp
    · exact ⟨hgrow k (h.reads hf p hp k hcb).1, (h.reads hf p hp k hcb).2⟩
    · rw [List.mem_singleton.mp hp] at hcb
      simp at hcb

theorem addHabitRead (h : Keeping fails st₀ s) (c : Nat) (habit : Habit)
    (document : Option Store)
    (hdoc : ∀ st, document = some st →
      ∀ k < st.user.habitCounter, (s.store.habits k).isSome = true) :
    Keeping fails st₀ (CreateHabit.addHabitRead c habit document s) := by
  cases hform : s.creating[c]? with
  | none => simpa [CreateHabit.addHabitRead, hform] using h
  | some form =>
    simp only [CreateHabit.addHabitRead, hform]
    refine h.create ?_ rfl ?_
    · intro k hk
      cases document with
      | none => exact h.forms form (List.mem_of_getElem? hform) k hk
      | some st => exact hdoc st rfl k hk
    · intro form' hform'
      rcases List.mem_or_eq_of_mem_set hform' with hmem | rfl
      · exact Or.inr hmem
      · exact Or.inl rfl

/-- A callback, delivered with the snapshot of its read or failed. -/
theorem callback (h : Keeping fails st₀ s) {i : Nat} {p : Pending}
    (hp : s.pending[i]? = some p) {document : Option Store}
    (hdoc : document = p.snapshot ∨ document = none)
    (hread : fails = false → p.callback.isRead = true → ∃ st, document = some st) :
    Keeping fails st₀ (p.callback.run document (s.dropPending i)) := by
  have hmem := List.mem_of_getElem? hp
  have hdrop := h.drop hp
  have hknown : ∀ st, document = some st →
      p.snapshot = some st ∧ ∀ k < st.user.habitCounter, (s.store.habits k).isSome = true := by
    intro st hst
    rcases hdoc with hdoc | hdoc
    · rw [hdoc] at hst
      exact ⟨hst, h.known p hmem st hst⟩
    · rw [hst] at hdoc
      contradiction
  obtain ⟨hdelete, hcounter⟩ := h.chain p hmem
  cases hcb : p.callback with
  | fetchCounter =>
    refine hdrop.fetchCounterRead document fun hf => ?_
    obtain ⟨st, hst⟩ := hread hf (by rw [hcb]; rfl)
    exact ⟨st, hst, (hknown st hst).2⟩
  | fetchHabit n =>
    refine hdrop.fetchHabitRead n document fun hf => ?_
    obtain ⟨st, hst⟩ := hread hf (by rw [hcb]; rfl)
    exact ⟨st, hst, (h.reads hf p hmem n hcb).2 st (hknown st hst).1⟩
  | deleteDone => exact absurd hcb hdelete
  | counterDone => exact absurd hcb hcounter
  | fetch => exact hdrop.mild (.of_issued [.fetchCounter] (by simp) rfl rfl rfl rfl id)
  | reload => exact hdrop.mild (.of_quiet rfl rfl rfl rfl id)
  | addHabit c habit =>
    exact hdrop.addHabitRead c habit document fun st hst => (hknown st hst).2
  | finished row ident => exact hdrop.mild (mild_finishedRead row ident document _)

end Keeping

/-! ## Runs without a delete -/

/-- No press of the delete button takes a habit out of the list. -/
def NoDelete (s : State) (e : Event) : Prop :=
  e = .deleteHabit → ∀ row ∈ s.indexPathGlobal, s.habitArray.length ≤ row

instance (s : State) (e : Event) : Decidable (NoDelete s e) := by
  unfold NoDelete
  infer_instance

namespace Keeping

variable {fails : Bool} {st₀ : Store} {s : State} {e : Event}

theorem step (h : Keeping fails st₀ s) (he : NoDelete s e)
    (hfail : fails = false → ∀ i, e ≠ .fail i) : Keeping fails st₀ (HabitHive.step s e) := by
  have hrelaunch : Keeping fails st₀ s.relaunch :=
    ⟨h.store, h.points, by simp [State.relaunch], by simp [State.relaunch],
      by simp [State.relaunch], by simp [State.relaunch], by simp [State.relaunch]⟩
  rw [HabitHive.step]
  split_ifs with hrunning hlaunch
  · by_cases hmild : e.isMild = true
    · exact h.mild (mild_of_event hmild s)
    · cases e with
      | relaunch => exact hrelaunch
      | deleteHabit =>
        rcases deleteHabit_cases s with ⟨f, hf, hs⟩ | ⟨row, hglobal, hrow⟩
        · rw [handle, hs]
          exact h.mild (screensOnly_crash s hf).mild
        · exact absurd hrow (Nat.not_lt.mpr (he rfl row hglobal))
      | serve i => exact h.serve i
      | deliver i =>
        simp only [handle]
        rcases deliver_cases s i with ⟨hs, _⟩ | ⟨p, hp, hread, hs⟩ <;> rw [hs]
        · exact h
        · exact h.callback hp (Or.inl rfl) fun _ => hread
      | fail i =>
        simp only [handle]
        rcases fail_cases s i with hs | ⟨p, hp, _, hs⟩ <;> rw [hs]
        · exact h
        · exact h.callback hp (Or.inr rfl) fun hf => absurd rfl (hfail hf i)
      | _ => exact absurd rfl hmild
  · exact hrelaunch
  · exact h

theorem run (h : Keeping fails st₀ s) {es : List Event}
    (hes : Runs.Guarded HabitHive.step NoDelete s es)
    (hfail : fails = false → ∀ e ∈ es, ∀ i, e ≠ .fail i) :
    Keeping fails st₀ (HabitHive.run s es) := by
  induction es generalizing s with
  | nil => exact h
  | cons e es ih =>
    have hnext := h.step hes.1 fun hf => hfail hf e (by simp)
    exact ih hnext hes.2 fun hf e' he' => hfail hf e' (by simp [he'])

end Keeping

/-- The stores that a chain of processes can leave behind, each of them cut
off after some of its writes.  The first starts on the store of sign-up. -/
inductive Reached (ok : State → Event → Prop) : Store → Prop where
  | signUp : Reached ok .signUp
  | cut (s : State) (es : List Event) (ws : List Write) (hs : Reached ok s.store)
      (hes : Runs.Guarded step ok s.started es) (hws : ws <+: (run s.started es).journal) :
      Reached ok (s.store.applyAll ws)

theorem Reached.sound {st : Store} (h : Reached NoDelete st) : st.Sound := by
  induction h with
  | signUp => exact ⟨by simp [Store.Complete, Store.signUp], by simp [Store.signUp]⟩
  | cut s es ws _ hes hws hsound =>
    have hrun := (Keeping.start true hsound rfl).run hes (by simp)
    exact hrun.points ws hws

/-- As long as no habit is deleted the store can be loaded at every point
between two writes, and no process that starts on it fails a cast of a document field,
as long as its reads return documents. -/
theorem loadable_of_noDelete {st : Store} (h : Reached NoDelete st) :
    st.Loadable ∧
      ∀ (s : State) (es : List Event), s.store = st → Runs.Guarded step NoDelete s.started es →
        (∀ e ∈ es, ∀ i, e ≠ .fail i) → (run s.started es).crashed ≠ some .forcedCast := by
  refine ⟨h.sound.loadable, fun s es hs hes hfail => ?_⟩
  exact ((Keeping.start false h.sound hs).run hes fun _ => hfail).cast rfl

/-- A delete of a document that the counter counts leaves a store that
cannot be loaded, until its callbacks have run. -/
theorem unloadable_of_delete {s : State} {row : Nat} (hrow : s.indexPathGlobal = some row)
    (hlen : row < s.habitArray.length) (hcount : row < s.store.user.habitCounter) :
    ¬(deleteHabit s).store.Loadable := by
  intro h
  have hread := h row (by simpa [deleteHabit, deleteHabitAction, hrow, hlen] using hcount)
  simp [deleteHabit, deleteHabitAction, hrow, hlen, Store.readHabit, Habit.ofDocument_eq,
    Store.apply_deleteHabit_habits] at hread

/-- One habit is created and deleted, and the app is killed before the
first callback of the delete.  At the next launch the fetch fails a cast. -/
theorem killed_delete_unloadable :
    let created : List Event :=
      [.addButtonTapped, .createName 0 ["w"], .createAmount 0 1, .addHabitButtonTapped 0,
        .serve 0, .deliver 0, .deliver 0, .serve 0, .deliver 0, .serve 0, .deliver 0,
        .handleLongPress 0, .deleteHabit]
    let killed := run (State.launched .signUp) created
    Reached (fun _ _ => True) killed.store ∧ ¬killed.store.Loadable ∧
      (run killed.started [.fetchFirebaseHabits, .serve 0, .deliver 0, .serve 0,
        .deliver 0]).crashed = some .forcedCast := by
  intro created killed
  refine ⟨?_, ?_, by decide⟩
  · exact .cut (State.launched .signUp) created killed.journal .signUp (Runs.guarded_true _ _)
      (List.prefix_refl _)
  · intro h
    have hread := h 0 (by decide)
    revert hread
    decide

/-- The store right after the document of a first create was written. -/
theorem loadable_of_noDelete_created :
    let form : List Event := [.addButtonTapped, .createName 0 ["w"], .createAmount 0 1,
      .addHabitButtonTapped 0, .serve 0, .deliver 0]
    let st := Store.signUp.applyAll ((run (State.launched .signUp).started form).journal.take 1)
    st.Loadable ∧
      ∀ (s : State) (es : List Event), s.store = st → Runs.Guarded step NoDelete s.started es →
        (∀ e ∈ es, ∀ i, e ≠ .fail i) → (run s.started es).crashed ≠ some .forcedCast :=
  loadable_of_noDelete
    (.cut (State.launched .signUp) _ _ .signUp (by decide) (List.take_prefix _ _))

end HabitHive
