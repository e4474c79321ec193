import HabitHive.Lib.Rmw
import HabitHive.Refresh

/-!
# Creates

A confirmed create reads `habitCounter`, writes the document of that
number, and writes the counter back plus one.  This module follows any
number of such requests, on any number of create screens, which may be on
several devices.

Seen through `flight`, the counter is a register of `Rmw`.  A callback
that finds the counter as its read returned it appends one document
(`Creating.commit`).  The first callback that does not makes the run
`Lost`, and it stays so.  `created_iff` puts the two together: no create
overwrites another exactly when every callback is of the first kind.
-/

namespace HabitHive

open HabitCollection CreateHabit

/-! ## The create screen -/

/-- `s'` is `s` but for the forms of the create screens and the color that
is chosen. -/
structure FormsOnly (s s' : State) : Prop where
  store : s'.store = s.store
  journal : s'.journal = s.journal
  pending : s'.pending = s.pending
  today : s'.today = s.today
  palmiIsCool : s'.palmiIsCool = s.palmiIsCool
  signedIn : s'.signedIn = s.signedIn
  habitArray : s'.habitArray = s.habitArray
  shownRows : s'.shownRows = s.shownRows
  indexPathGlobal : s'.indexPathGlobal = s.indexPathGlobal
  editing : s'.editing = s.editing
  nextIdent : s'.nextIdent = s.nextIdent
  creating : s.creating.length ≤ s'.creating.length

/-- What happens on a create screen before a press of Add Habit. -/
inductive FormEvent : Event → Prop where
  | addButtonTapped : FormEvent .addButtonTapped
  | createName (c : Nat) (text : Text) : FormEvent (.createName c text)
  | createAmount (c : Nat) (amount : Int) : FormEvent (.createAmount c amount)
  | createTime (c : Nat) (time : List Int) : FormEvent (.createTime c time)
  | sectionColor (color : Int) : FormEvent (.sectionColor color)

theorem setForm_formsOnly (c : Nat) (form : CreateForm) (s : State) :
    FormsOnly s (setForm c form s) := by
  constructor <;> first | rfl | simp [setForm]

theorem FormsOnly.refl (s : State) : FormsOnly s s := by
  constructor <;> rfl

theorem formsOnly_of_formEvent {e : Event} (h : FormEvent e) (s : State) :
    FormsOnly s (handle s e) := by
  cases h with
  | addButtonTapped => constructor <;> first | rfl | simp [handle, addButtonTapped]
  | sectionColor color => constructor <;> rfl
  | createName c text =>
    simp only [handle, habitNameChanged]
    split
    · exact .refl s
    · exact setForm_formsOnly c _ s
  | createAmount c amount =>
    simp only [handle, didTapConfirmAmount]
    split
    · exact .refl s
    · exact setForm_formsOnly c _ s
  | createTime c time =>
    simp only [handle, didTapConfirmTime]
    split
    · exact .refl s
    · split
      · constructor <;> rfl
      · exact setForm_formsOnly c _ s

/-- The checks of `addHabitButtonTapped` on a form. -/
def CreateForm.accepted (form : CreateForm) : Bool :=
  form.typeOfHabitSelected && form.habitName ≠ [] && form.habitName.length < 24

/-- The habit that a press of Add Habit asks for, when its form is
accepted. -/
def requested (s : State) : Event → List Habit
  | .addHabitButtonTapped c =>
    match s.creating[c]? with
    | none => []
    | some form => if form.accepted then [newHabit form s] else []
  | _ => []

/-- A press of Add Habit issues a read for the habit it asks for, or only
sets a label of the form. -/
theorem addHabitButtonTapped_cases (c : Nat) (s : State) :
    (∃ form, s.creating[c]? = some form ∧
        requested s (.addHabitButtonTapped c) = [newHabit form s] ∧
        addHabitButtonTapped c s =
          { s with nextIdent := s.nextIdent + 1 }.issue (.addHabit c (newHabit form s))) ∨
      requested s (.addHabitButtonTapped c) = [] ∧
        FormsOnly s (addHabitButtonTapped c s) := by
  cases hform : s.creating[c]? with
  | none =>
    have hsame : addHabitButtonTapped c s = s := by simp [addHabitButtonTapped, hform]
    exact Or.inr ⟨by simp [requested, hform], by rw [hsame]; exact .refl s⟩
  | some form =>
    simp only [requested, addHabitButtonTapped, hform, CreateForm.accepted]
    by_cases htype : form.typeOfHabitSelected = true
    · by_cases hname : form.habitName = []
      · simpa [htype, hname] using setForm_formsOnly c _ s
      · by_cases hlen : form.habitName.length < 24
        · simp [htype, hname, hlen]
        · simpa [htype, hname, hlen] using setForm_formsOnly c _ s
    · simpa [htype] using setForm_formsOnly c _ s

/-- The document says of a habit what a create says: the values of the form,
and nothing counted, finished or repeated yet. -/
structure HabitDoc.IsNew (doc : HabitDoc) (habit : Habit) (time : List Int) : Prop where
  name : doc.fields.name = some habit.name
  color : doc.fields.color = some habit.color
  counted : doc.fields.counted = some habit.counted
  goal : doc.fields.goal = some habit.goal
  currentCount : doc.fields.currentCount = some 0
  timeArray : doc.fields.timeArray = some time
  timeArrayOriginal : doc.fields.timeArrayOriginal = some time
  addFirebase : doc.fields.addFirebase = some true
  streak : doc.fields.streak = some 0

/-- Nothing else is in a document that a create writes. -/
theorem isNew_iff (doc : HabitDoc) (habit : Habit) (time : List Int) :
    doc.IsNew habit time ↔ doc.fields = (newDocument habit time).fields := by
  constructor
  · intro h
    obtain ⟨⟨_, _, _, _, _, _, _, _, _⟩, _⟩ := doc
    obtain ⟨rfl, rfl, rfl, rfl, rfl, rfl, rfl, rfl, rfl⟩ := h
    rfl
  · intro h
    constructor <;> rw [h] <;> rfl

/-- The time array of the form in the callback: a counted habit gets six
zeros behind it. -/
theorem formRead_timeArray (habit : Habit) (document : Option Store) (form : CreateForm) :
    (formRead habit document form).timeArray =
      form.timeArray ++ if habit.counted then [0, 0, 0, 0, 0, 0] else [] := by
  simp only [formRead]
  split <;> simp

/-- The callback of a create, on a screen that exists. -/
theorem addHabitRead_eq {c : Nat} {form : CreateForm} {s : State}
    (hform : s.creating[c]? = some form) (habit : Habit) (st : Store) :
    addHabitRead c habit (some st) s =
      (((setForm c (formRead habit (some st) form) s).write
          (.setHabit st.user.habitCounter (newDocument habit
            (form.timeArray ++ if habit.counted then [0, 0, 0, 0, 0, 0] else [])))).write
        (.updateUser { habitCounter := some (st.user.habitCounter + 1) })).issue .fetch := by
  simp only [← formRead_timeArray habit (some st) form, addHabitRead, hform]
  rfl

/-- The create whose callback runs, with the time array that its form holds
by then. -/
def answered (s : State) : Event → List (Habit × List Int)
  | .deliver i =>
    match s.pending[i]? with
    | some { callback := .addHabit c habit, snapshot := some _ } =>
      (s.creating[c]?).toList.map fun form =>
        (habit, form.timeArray ++ if habit.counted then [0, 0, 0, 0, 0, 0] else [])
    | _ => []
  | _ => []

/-! ## Requests in flight -/

/-- Presses on create screens, and what Firestore and the main queue do
with their calls. -/
inductive CreateEvent : Event → Prop where
  | addHabitButtonTapped (c : Nat) : CreateEvent (.addHabitButtonTapped c)
  | serve (i : Nat) : CreateEvent (.serve i)
  | deliver (i : Nat) : CreateEvent (.deliver i)
  | form {e : Event} (h : FormEvent e) : CreateEvent e

/-- A create in flight: its habit, and the counter that it has read. -/
def Pending.create (p : Pending) : Option (Habit × Option Int) :=
  match p.callback with
  | .addHabit _ habit => some (habit, p.snapshot.map fun st => (st.user.habitCounter : Int))
  | _ => none

def creates (ps : List Pending) : List (Habit × Option Int) := ps.filterMap Pending.create

/-- The creates in flight as requests on the counter. -/
def flight (s : State) : List (Option Int) := (creates s.pending).map Prod.snd

/-- The callback of a create finds the counter as its read returned it. -/
def FreshRead (s : State) : Event → Prop
  | .deliver i => ∀ p c habit st, s.pending[i]? = some p → p.callback = .addHabit c habit →
      p.snapshot = some st → st.user.habitCounter = s.store.user.habitCounter
  | _ => True

theorem creates_perm {ps qs : List Pending} (h : ps.Perm qs) :
    (creates ps).Perm (creates qs) := h.filterMap _

@[simp] theorem creates_append (ps qs : List Pending) :
    creates (ps ++ qs) = creates ps ++ creates qs := List.filterMap_append

theorem creates_cons_addHabit {p : Pending} {c : Nat} {habit : Habit}
    (h : p.callback = .addHabit c habit) (ps : List Pending) :
    creates (p :: ps) =
      (habit, p.snapshot.map fun st => (st.user.habitCounter : Int)) :: creates ps := by
  simp [creates, Pending.create, h]

theorem creates_cons_of_isRefresh {p : Pending} (h : p.callback.isRefresh = true)
    (ps : List Pending) : creates (p :: ps) = creates ps := by
  cases hcb : p.callback <;> simp_all [creates, Pending.create, Callback.isRefresh]

theorem creates_issued (cbs : List Callback) (h : ∀ cb ∈ cbs, cb.isRefresh = true) :
    creates (cbs.map ({ callback := · })) = [] := by
  induction cbs with
  | nil => rfl
  | cons cb cbs ih =>
    rw [List.map_cons, creates_cons_of_isRefresh (h cb (by simp))]
    exact ih fun cb hcb => h cb (List.mem_cons_of_mem _ hcb)

/-- Only refreshes and creates of existing screens are in flight. -/
def CreateCallbacks (s : State) : Prop :=
  ∀ p ∈ s.pending, p.callback.isRefresh = true ∨
    ∃ c < s.creating.length, ∃ habit, p.callback = .addHabit c habit

theorem CreateCallbacks.of_eq {s s' : State} (h : CreateCallbacks s)
    (hpending : ∀ p ∈ s'.pending, p.callback.isRefresh = true ∨
      ∃ q ∈ s.pending, p.callback = q.callback)
    (hlen : s.creating.length ≤ s'.creating.length) : CreateCallbacks s' := by
  intro p hp
  rcases hpending p hp with href | ⟨q, hq, hcb⟩
  · exact Or.inl href
  · rw [hcb]
    rcases h q hq with href | ⟨c, hc, hadd⟩
    · exact Or.inl href
    · exact Or.inr ⟨c, by omega, hadd⟩

/-! ## What one event does to the creates -/

/-- What event `e` does to the counter and the creates in flight, with the
habits that it requests and those that it writes. -/
inductive CreateMove (s : State) (e : Event) (s' : State) :
    List Habit → List (Habit × List Int) → Prop where
  | quiet (hfresh : FreshRead s e) (hstore : s'.store = s.store)
      (hcreates : (creates s'.pending).Perm (creates s.pending)) : CreateMove s e s' [] []
  | request (habit : Habit) (hfresh : FreshRead s e) (hstore : s'.store = s.store)
      (hcreates : (creates s'.pending).Perm ((habit, none) :: creates s.pending)) :
      CreateMove s e s' [habit] []
  | sample (habit : Habit) (rest : List (Habit × Option Int)) (hfresh : FreshRead s e)
      (hstore : s'.store = s.store)
      (hbefore : (creates s.pending).Perm ((habit, none) :: rest))
      (hafter : (creates s'.pending).Perm
        ((habit, some (s.store.user.habitCounter : Int)) :: rest)) : CreateMove s e s' [] []
  | commit (habit : Habit) (rest : List (Habit × Option Int)) (v : Nat) (time : List Int)
      (hfresh : FreshRead s e ↔ v = s.store.user.habitCounter)
      (hstore : s'.store = (s.store.apply (.setHabit v (newDocument habit time))).apply
        (.updateUser { habitCounter := some (v + 1) }))
      (hbefore : (creates s.pending).Perm ((habit, some (v : Int)) :: rest))
      (hafter : (creates s'.pending).Perm rest) : CreateMove s e s' [] [(habit, time)]

theorem answered_of_none {s : State} {i : Nat}
    (h : ∀ p, s.pending[i]? = some p → p.snapshot = none) : answered s (.deliver i) = [] := by
  rw [answered]
  split
  · next hp => exact absurd (h _ hp) (by simp)
  · rfl

theorem answered_of_isRefresh {s : State} {i : Nat} {p : Pending} (hp : s.pending[i]? = some p)
    (href : p.callback.isRefresh = true) : answered s (.deliver i) = [] := by
  rw [answered, hp]
  split
  · next heq =>
    rw [Option.some.inj heq] at href
    contradiction
  · rfl

theorem answered_of_served {s : State} {i c : Nat} {p : Pending} {habit : Habit} {st : Store}
    {form : CreateForm} (hp : s.pending[i]? = some p) (hcb : p.callback = .addHabit c habit)
    (hst : p.snapshot = some st) (hform : s.creating[c]? = some form) :
    answered s (.deliver i) =
      [(habit, form.timeArray ++ if habit.counted then [0, 0, 0, 0, 0, 0] else [])] := by
  obtain ⟨callback, snapshot⟩ := p
  obtain rfl : callback = .addHabit c habit := hcb
  obtain rfl : snapshot = some st := hst
  simp [answered, hp, hform]

theorem createMove_formsOnly {s s' : State} {e : Event} (h : CreateCallbacks s)
    (hfresh : FreshRead s e) (hs : FormsOnly s s') :
    CreateMove s e s' [] [] ∧ CreateCallbacks s' := by
  refine ⟨.quiet hfresh hs.store (by rw [hs.pending]), h.of_eq ?_ hs.creating⟩
  intro p hp
  exact Or.inr ⟨p, hs.pending ▸ hp, rfl⟩

theorem createMove_serve {s : State} (h : CreateCallbacks s) (i : Nat) :
    CreateMove s (.serve i) (s.serve i) [] [] ∧ CreateCallbacks (s.serve i) := by
  constructor
  · rcases serve_cases s i with hs | ⟨p, hp, _, hnone, hs⟩
    · rw [hs]
      exact .quiet trivial rfl (List.Perm.refl _)
    · have hbefore := creates_perm (pending_perm hp)
      have hafter := creates_perm (set_pending_perm hp { p with snapshot := some s.store })
      rcases h p (List.mem_of_getElem? hp) with href | ⟨c, _, habit, hcb⟩
      · rw [creates_cons_of_isRefresh href] at hbefore
        rw [creates_cons_of_isRefresh (p := { p with snapshot := some s.store }) href] at hafter
        rw [hs]
        exact .quiet trivial rfl (hafter.trans hbefore.symm)
      · rw [creates_cons_addHabit hcb, hnone] at hbefore
        rw [creates_cons_addHabit (p := { p with snapshot := some s.store }) hcb] at hafter
        rw [hs]
        exact .sample habit _ trivial rfl hbefore hafter
  · refine h.of_eq ?_ (by rcases serve_cases s i with hs | ⟨_, _, _, _, hs⟩ <;> rw [hs])
    intro p hp
    rcases mem_serve s i hp with hmem | ⟨_, hmem⟩
    · exact Or.inr ⟨p, hmem, rfl⟩
    · exact Or.inr ⟨_, hmem, rfl⟩

theorem createMove_deliver {s : State} (h : CreateCallbacks s) (i : Nat) :
    CreateMove s (.deliver i) (s.deliver i) [] (answered s (.deliver i)) ∧
      CreateCallbacks (s.deliver i) := by
  rcases deliver_cases s i with ⟨hs, hnone⟩ | ⟨p, hp, hread, hs⟩
  · rw [hs, answered_of_none hnone]
    refine ⟨.quiet ?_ rfl (List.Perm.refl _), h⟩
    intro p c habit st hp _ hst
    rw [hnone p hp] at hst
    contradiction
  · have hbefore := creates_perm (pending_perm hp)
    rw [hs]
    rcases h p (List.mem_of_getElem? hp) with href | ⟨c, hc, habit, hcb⟩
    · obtain ⟨cbs, hpending, hfetch⟩ := pending_of_isRefresh href p.snapshot (s.dropPending i)
      have hframe := listOnly_of_isRefresh href p.snapshot (s.dropPending i)
      rw [creates_cons_of_isRefresh href] at hbefore
      rw [answered_of_isRefresh hp href]
      refine ⟨.quiet ?_ hframe.store ?_, h.of_eq ?_ (by rw [hframe.creating]; rfl)⟩
      · intro q c habit st hq hcb _
        rw [hp, Option.some.injEq] at hq
        rw [hq, hcb] at href
        contradiction
      · rw [hpending, creates_append,
          creates_issued _ fun cb hcb => Callback.isRefresh_of_isFetch (hfetch cb hcb),
          List.append_nil]
        exact hbefore.symm
      · intro q hq
        rw [hpending, List.mem_append] at hq
        rcases hq with hq | hq
        · exact Or.inr ⟨q, (mem_pending hp).mpr (Or.inr hq), rfl⟩
        · obtain ⟨cb, hcb, rfl⟩ := List.mem_map.mp hq
          exact Or.inl (Callback.isRefresh_of_isFetch (hfetch cb hcb))
    · obtain ⟨st, hst⟩ := hread (by rw [hcb]; rfl)
      have hform : s.creating[c]? = some s.creating[c] := List.getElem?_eq_getElem hc
      rw [creates_cons_addHabit hcb, hst] at hbefore
      rw [answered_of_served hp hcb hst hform, hcb, hst, Callback.run,
        addHabitRead_eq (s := s.dropPending i) hform]
      refine ⟨.commit habit _ st.user.habitCounter _ ?_ rfl hbefore ?_,
        h.of_eq ?_ (by simp [setForm])⟩
      · constructor
        · exact fun hfresh => hfresh p c habit st hp hcb hst
        · intro hv q c' habit' st' hq _ hst'
          rw [hp, Option.some.injEq] at hq
          rw [← hq, hst, Option.some.injEq] at hst'
          rw [← hst', hv]
      · rw [State.issue_pending, creates_append]
        have hfetch := creates_issued [.fetch] (by simp [Callback.isRefresh])
        rw [List.map_singleton] at hfetch
        rw [hfetch, List.append_nil]
        exact List.Perm.refl _
      · intro q hq
        simp only [State.issue_pending, State.write_pending, setForm, List.mem_append,
          List.mem_singleton] at hq
        rcases hq with hq | rfl
        · exact Or.inr ⟨q, (mem_pending hp).mpr (Or.inr hq), rfl⟩
        · exact Or.inl rfl

/-- One event of a run of creates. -/
theorem createMove {s : State} {e : Event} (h : CreateCallbacks s) (he : CreateEvent e) :
    CreateMove s e (handle s e) (requested s e) (answered s e) ∧ CreateCallbacks (handle s e) := by
  cases he with
  | form hform =>
    have hnone : requested s e = [] ∧ answered s e = [] := by cases hform <;> exact ⟨rfl, rfl⟩
    rw [hnone.1, hnone.2]
    exact createMove_formsOnly h (by cases hform <;> trivial) (formsOnly_of_formEvent hform s)
  | serve i => exact createMove_serve h i
  | deliver i => exact createMove_deliver h i
  | addHabitButtonTapped c =>
    rcases addHabitButtonTapped_cases c s with ⟨form, hform, hreq, hs⟩ | ⟨hreq, hs⟩
    · rw [hreq]
      simp only [handle, hs]
      refine ⟨.request _ trivial rfl ?_, ?_⟩
      · simp only [State.issue_pending, creates_append]
        exact List.perm_append_comm
      · intro p hp
        simp only [State.issue_pending, List.mem_append, List.mem_singleton] at hp
        rcases hp with hp | rfl
        · exact h p hp
        · exact Or.inr ⟨c, (List.getElem?_eq_some_iff.mp hform).1, _, rfl⟩
    · rw [hreq]
      exact createMove_formsOnly h trivial hs

/-! ## Runs -/

/-- The creates wrote `docs`: each document is that of its habit, with the
time array of the form. -/
def Written (news : List (Habit × List Int)) (docs : List HabitDoc) : Prop :=
  List.Forall₂ (fun new doc => doc.IsNew new.1 new.2 ∧ doc.ident = new.1.ident) news docs

/-- The store is `st₀` with `docs` appended. -/
structure Appended (st₀ : Store) (docs : List HabitDoc) (st : Store) : Prop where
  counter : st.user.habitCounter = st₀.user.habitCounter + docs.length
  before : ∀ k < st₀.user.habitCounter, st.habits k = st₀.habits k
  after : ∀ k < docs.length, st.habits (st₀.user.habitCounter + k) = docs[k]?

/-- Each request was answered once and has a document of its own, behind
those of `st₀` and in the order of the answers. -/
structure Created (st₀ : Store) (requests : List Habit) (news : List (Habit × List Int))
    (st : Store) : Prop where
  answers : (news.map Prod.fst).Perm requests
  documents : ∃ docs, Written news docs ∧ Appended st₀ docs st

/-- A create for each request raises the counter by their number. -/
theorem Created.counter {st₀ st : Store} {requests : List Habit} {news : List (Habit × List Int)}
    (h : Created st₀ requests news st) :
    st.user.habitCounter = st₀.user.habitCounter + requests.length := by
  obtain ⟨docs, hwritten, happ⟩ := h.documents
  rw [happ.counter, ← hwritten.length_eq, ← h.answers.length_eq, List.length_map]

/-- A run of creates that has lost none: the requests are written or in
flight. -/
structure Creating (st₀ : Store) (requests : List Habit) (news : List (Habit × List Int))
    (s : State) : Prop where
  callbacks : CreateCallbacks s
  clean : Rmw.Clean st₀.user.habitCounter requests.length s.store.user.habitCounter (flight s)
  answers : (news.map Prod.fst ++ (creates s.pending).map Prod.fst).Perm requests
  documents : ∃ docs, Written news docs ∧ Appended st₀ docs s.store

/-- A run of creates in which one was overwritten. -/
structure Lost (st₀ : Store) (requests : List Habit) (s : State) : Prop where
  callbacks : CreateCallbacks s
  lossy : Rmw.Lossy st₀.user.habitCounter requests.length s.store.user.habitCounter (flight s)

/-- A create that finds the counter as it read it appends its document. -/
theorem Appended.commit {st₀ st : Store} {docs : List HabitDoc} (h : Appended st₀ docs st)
    (doc : HabitDoc) :
    Appended st₀ (docs ++ [doc])
      ((st.apply (.setHabit st.user.habitCounter doc)).apply
        (.updateUser { habitCounter := some (st.user.habitCounter + 1) })) where
  counter := by
    have := h.counter
    simp
    omega
  before := by
    intro k hk
    have := h.counter
    rw [Store.apply_updateUser_habits, Store.apply_setHabit_habits, if_neg (by omega)]
    exact h.before k hk
  after := by
    intro k hk
    have := h.counter
    rw [List.length_append, List.length_singleton] at hk
    rw [Store.apply_updateUser_habits, Store.apply_setHabit_habits]
    by_cases hlast : k = docs.length
    · rw [if_pos (by omega), hlast]
      simp
    · rw [if_neg (by omega), h.after k (by omega), List.getElem?_append_left (by omega)]

namespace Creating

variable {st₀ : Store} {requests new : List Habit} {news answers : List (Habit × List Int)}
  {s s' : State} {e : Event}

/-- The steps of a run whose callbacks find the counter as they read it. -/
theorem step (h : Creating st₀ requests news s) (hmove : CreateMove s e s' new answers)
    (hcb : CreateCallbacks s') (hfresh : FreshRead s e) :
    Creating st₀ (requests ++ new) (news ++ answers) s' := by
  obtain ⟨_, hclean, hperm, docs, hwritten, happ⟩ := h
  cases hmove with
  | quiet _ hstore hcreates =>
    rw [List.append_nil, List.append_nil]
    refine ⟨hcb, ?_, ?_, docs, hwritten, hstore ▸ happ⟩
    · rw [hstore]
      exact hclean.perm (hcreates.symm.map _)
    · exact ((hcreates.map _).append_left _).trans hperm
  | request habit _ hstore hcreates =>
    rw [List.append_nil]
    refine ⟨hcb, ?_, ?_, docs, hwritten, hstore ▸ happ⟩
    · rw [hstore, List.length_append, List.length_singleton]
      push_cast
      exact hclean.request.perm (hcreates.symm.map Prod.snd)
    · refine ((hcreates.map _).append_left _).trans ?_
      refine List.perm_middle.trans (List.Perm.trans (hperm.cons habit) ?_)
      exact (List.perm_append_singleton habit requests).symm
  | sample habit rest _ hstore hbefore hafter =>
    rw [List.append_nil, List.append_nil]
    refine ⟨hcb, ?_, ?_, docs, hwritten, hstore ▸ happ⟩
    · rw [hstore]
      exact (hclean.perm (hbefore.map Prod.snd)).sample.perm (hafter.symm.map Prod.snd)
    · refine ((hafter.map _).append_left _).trans ?_
      exact ((hbefore.symm.map Prod.fst).append_left _).trans hperm
  | commit habit rest v time hiff hstore hbefore hafter =>
    obtain rfl := hiff.mp hfresh
    rw [List.append_nil]
    refine ⟨hcb, ?_, ?_, docs ++ [newDocument habit time], ?_, ?_⟩
    · have hcommit := (hclean.perm (hbefore.map Prod.snd)).commit
      rw [hstore]
      simpa [flight] using hcommit.perm (hafter.symm.map Prod.snd)
    · rw [List.map_append, List.append_assoc, List.map_singleton, List.singleton_append]
      refine (((hafter.map Prod.fst).cons habit).append_left _).trans ?_
      exact ((hbefore.symm.map Prod.fst).append_left _).trans hperm
    · exact List.rel_append hwritten (.cons ⟨(isNew_iff _ _ _).mpr rfl, rfl⟩ .nil)
    · rw [hstore]
      exact happ.commit _

/-- The first callback that finds another counter than it read. -/
theorem lose (h : Creating st₀ requests news s) (hmove : CreateMove s e s' new answers)
    (hcb : CreateCallbacks s') (hstale : ¬FreshRead s e) : Lost st₀ (requests ++ new) s' := by
  cases hmove with
  | quiet hfresh => exact absurd hfresh hstale
  | request _ hfresh => exact absurd hfresh hstale
  | sample _ _ hfresh => exact absurd hfresh hstale
  | commit habit rest v time hiff hstore hbefore hafter =>
    have hne : (v : Int) ≠ s.store.user.habitCounter := by
      intro hv
      exact hstale (hiff.mpr (by omega))
    refine ⟨hcb, ?_⟩
    have hlose := (h.clean.perm (hbefore.map Prod.snd)).lose hne
    rw [List.append_nil, hstore]
    simpa [flight] using hlose.perm (hafter.symm.map Prod.snd)

end Creating

/-- No event makes up for a lost create. -/
theorem Lost.step {st₀ : Store} {requests new : List Habit} {answers : List (Habit × List Int)}
    {s s' : State} {e : Event} (h : Lost st₀ requests s) (hmove : CreateMove s e s' new answers)
    (hcb : CreateCallbacks s') :
    Lost st₀ (requests ++ new) s' := by
  refine ⟨hcb, ?_⟩
  have hlossy := h.lossy
  cases hmove with
  | quiet _ hstore hcreates =>
    rw [List.append_nil, hstore]
    exact hlossy.perm (hcreates.symm.map _)
  | request habit _ hstore hcreates =>
    rw [hstore, List.length_append, List.length_singleton]
    push_cast
    exact hlossy.request.perm (hcreates.symm.map Prod.snd)
  | sample habit rest _ hstore hbefore hafter =>
    rw [List.append_nil, hstore]
    exact (hlossy.perm (hbefore.map Prod.snd)).sample.perm (hafter.symm.map Prod.snd)
  | commit habit rest v time _ hstore hbefore hafter =>
    have hcommit := (hlossy.perm (hbefore.map Prod.snd)).commit
    rw [List.append_nil, hstore]
    simpa [flight] using hcommit.perm (hafter.symm.map Prod.snd)

/-- What `look` sees of the steps so far. -/
def seen {ω : Type} (look : State → Event → List ω) (log : List (State × Event)) : List ω :=
  log.flatMap fun x => look x.1 x.2

theorem seen_steps {ω : Type} (look : State → Event → List ω) (log : List (State × Event))
    (s : State) (e : Event) : seen look (log ++ Runs.steps s e) = seen look log ++ look s e := by
  simp [seen, Runs.steps]

/-- After all callbacks of any number of interleaved creates, the counter
counts every create, each in a document of its own with the time array that
its form held in the callback, and the documents from before are unchanged,
exactly when the callback of each create found the counter as its read had
returned it. -/
theorem created_iff {s : State} {es : List Event} (hidle : s.pending = [])
    (hes : ∀ e ∈ es, CreateEvent e) (hdone : (run s es).pending = [])
    (hcrash : (run s es).crashed = none) :
    Created s.store (Runs.observe step requested s es) (Runs.observe step answered s es)
        (run s es).store ↔
      Runs.Guarded step FreshRead s es := by
  have hne : ∀ e, CreateEvent e → e ≠ .relaunch := by
    rintro _ (_ | _ | _ | ⟨⟨⟩⟩) <;> simp
  have hstart : Creating s.store (seen requested []) (seen answered []) s :=
    ⟨by simp [CreateCallbacks, hidle],
      ⟨by simp [seen, flight, creates, hidle], by simp [flight, creates, hidle]⟩,
      by simp [seen, creates, hidle], [], .nil, ⟨by simp, fun _ _ => rfl, by simp⟩⟩
  have hdich := run_dichotomy Runs.steps (fun x e => FreshRead x.1 e)
    (fun log s' => Creating s.store (seen requested log) (seen answered log) s')
    (fun log s' => Lost s.store (seen requested log) s') hne
    (fun log s e _ h he hok _ => by
      rw [seen_steps, seen_steps]
      exact h.step (createMove h.callbacks he).1 (createMove h.callbacks he).2 hok)
    (fun log s e _ h he hok _ => by
      rw [seen_steps]
      exact h.lose (createMove h.callbacks he).1 (createMove h.callbacks he).2 hok)
    (fun log s e _ h he _ => by
      rw [seen_steps]
      exact h.step (createMove h.callbacks he).1 (createMove h.callbacks he).2)
    hes hstart hcrash
  simp only [Runs.guarded_record, List.nil_append, seen, Runs.flatMap_observe_steps] at hdich
  rcases hdich with ⟨hguard, h⟩ | ⟨hguard, h⟩
  · refine iff_of_true ⟨?_, h.documents⟩ hguard
    simpa [creates, hdone] using h.answers
  · refine iff_of_false ?_ hguard
    intro hcreated
    have hlossy := h.lossy
    rw [flight, hdone] at hlossy
    have hlt := hlossy.finished
    rw [hcreated.counter] at hlt
    omega

/-- Two presses of Add Habit before the first read comes back: both habits
go to document 0. -/
theorem pressed_twice_overwrites :
    let s := State.launched Store.signUp
    let es : List Event :=
      [.addButtonTapped, .createName 0 ["w"], .createAmount 0 1, .addHabitButtonTapped 0,
        .addHabitButtonTapped 0, .serve 0, .serve 1, .deliver 0, .deliver 0, .deliver 0,
        .deliver 0, .serve 0, .deliver 0, .serve 0, .serve 1, .deliver 0, .deliver 0,
        .serve 0, .deliver 0]
    (∀ e ∈ es, CreateEvent e) ∧ (run s es).pending = [] ∧ (run s es).crashed = none ∧
      (Runs.observe step requested s es).length = 2 ∧
      (run s es).store.user.habitCounter = 1 ∧
      ¬Created s.store (Runs.observe step requested s es) (Runs.observe step answered s es)
        (run s es).store := by
  refine ⟨?_, by decide, by decide, by decide, by decide, ?_⟩
  · intro e he
    fin_cases he <;> repeat constructor
  · intro h
    have hcounter := h.counter
    revert hcounter
    decide

/-- The same presses, one after the other. -/
theorem created_iff_in_turn :
    let s := State.launched Store.signUp
    let es : List Event :=
      [.addButtonTapped, .createName 0 ["w"], .createAmount 0 1, .addHabitButtonTapped 0,
        .serve 0, .deliver 0, .deliver 0, .serve 0, .deliver 0, .serve 0, .deliver 0,
        .addHabitButtonTapped 0, .serve 0, .deliver 0, .deliver 0, .serve 0, .deliver 0,
        .serve 0, .serve 1, .deliver 0, .deliver 0]
    Created s.store (Runs.observe step requested s es) (Runs.observe step answered s es)
        (run s es).store ↔
      Runs.Guarded step FreshRead s es := by
  refine created_iff rfl ?_ (by decide) (by decide)
  intro e he
  fin_cases he <;> repeat constructor

end HabitHive
