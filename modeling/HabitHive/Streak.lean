import HabitHive.History

/-!
# Streaks

A reset raises the streak of a habit whose flag says that it was completed,
and sets it to zero otherwise.  So the streak counts consecutive completed
days only as long as each reset comes the day after the last one, or finds
no habit completed (`streak_iff`).

No habit is deleted in the runs of this module, so a habit is named by the
number of its document.  `Tracked` says that flag and streak of each row, of
each document and of each read in flight are those of the history; a
document may be behind by the callback of a completion that is still to
come.
-/

namespace HabitHive

open HabitCollection

/-! ## The law and the runs it is about -/

/-- The row of the completion that a callback writes. -/
def Callback.finishedRow : Callback → Option Nat
  | .finished row _ => some row
  | _ => none

/-- The callback of a completion of row `n` is still to come. -/
def State.completing (s : State) (n : Nat) : Bool :=
  s.pending.any fun p => p.callback.finishedRow = some n

/-- No read of document `n` has been served and not delivered. -/
def NotServed (s : State) (n : Nat) : Prop :=
  ∀ p ∈ s.pending, p.callback = .fetchHabit n → p.snapshot.isNone = true

instance (s : State) (n : Nat) : Decidable (NotServed s n) := by
  unfold NotServed
  infer_instance

/-- The row is the only one with its number. -/
def OwnRow (s : State) (row : Nat) : Prop :=
  ∀ r ∈ List.range s.habitArray.length,
    s.habitArray[r]?.map Habit.habitNumber = some row ↔ r = row

instance (s : State) (row : Nat) : Decidable (OwnRow s row) := by
  unfold OwnRow
  infer_instance

/-- A read that was served is one of another document. -/
theorem NotServed.ne {s : State} {m n : Nat} (h : NotServed s m) {p : Pending} (hp : p ∈ s.pending)
    (hcb : p.callback = .fetchHabit n) {st : Store} (hst : p.snapshot = some st) : n ≠ m := by
  rintro rfl
  have hnone := h p hp hcb
  rw [hst] at hnone
  contradiction

/-- The habit of the row has its number. -/
theorem OwnRow.habitNumber {s : State} {row : Nat} {h : Habit} (hown : OwnRow s row)
    (hrow : s.habitArray[row]? = some h) : h.habitNumber = row := by
  have hlt := (List.getElem?_eq_some_iff.mp hrow).1
  simpa [hrow] using (hown row (List.mem_range.mpr hlt)).mpr rfl

/-- The habits of the other rows have other numbers. -/
theorem OwnRow.ne {s : State} {row r : Nat} {h : Habit} (hown : OwnRow s row)
    (hr : s.habitArray[r]? = some h) (hne : r ≠ row) : h.habitNumber ≠ row := by
  intro heq
  have hlt := (List.getElem?_eq_some_iff.mp hr).1
  exact hne ((hown r (List.mem_range.mpr hlt)).mp (by rw [hr, Option.map_some, heq]))

/-- A read of a document sees the completions of its habit. -/
def SeesCompletions (s : State) : Callback → Prop
  | .fetchHabit n => s.completing n = false
  | _ => True

instance (s : State) (cb : Callback) : Decidable (SeesCompletions s cb) := by
  induction cb using Callback.casesOn <;> unfold SeesCompletions <;> infer_instance

/-- A create takes the number after the last document. -/
def Appends (s : State) (document : Option Store) : Callback → Prop
  | .addHabit c habit => ∀ form ∈ s.creating[c]?,
      (CreateHabit.formRead habit document form).habitCounter = s.store.user.habitCounter
  | _ => True

instance (s : State) (document : Option Store) (cb : Callback) :
    Decidable (Appends s document cb) := by
  induction cb using Callback.casesOn <;> unfold Appends <;> infer_instance

/-- The runs that the law is about.  There is no edit and no delete.  A
reset runs on a list that is loaded, once a day and before the first tap or
countdown of the day.  Where a completion is made, its row is the row of
its document.  The callback of a completion comes before the next reset,
the next read of its document and the next launch, and a read of a document
that was served is delivered before that document is completed or reset. -/
def Orderly (x : State × List DayEntry) : Event → Prop
  | .viewWillAppear => x.1.crashed = none → resets x.1 = true →
      lastReset x.2 ≠ some x.1.today ∧
        x.1.habitArray.map Habit.habitNumber = x.1.store.numbers ∧
        x.1.noFinished = true ∧ ∀ n ∈ x.1.store.numbers, NotServed x.1 n
  | .didSelectItemAt row menu => x.1.crashed = none → lastReset x.2 = some x.1.today ∧
      ∀ h ∈ x.1.habitArray[row]?, accepts menu h = true → h.completes = true →
        OwnRow x.1 row ∧ NotServed x.1 row
  | .showAlert row => x.1.crashed = none →
      lastReset x.2 = some x.1.today ∧ OwnRow x.1 row ∧ NotServed x.1 row
  | .relaunch => x.1.noFinished = true
  | .serve i => ∀ p ∈ x.1.pending[i]?, SeesCompletions x.1 p.callback
  | .deliver i => ∀ p ∈ x.1.pending[i]?,
      p.snapshot.isSome = true → Appends x.1 p.snapshot p.callback
  | .fail i => ∀ p ∈ x.1.pending[i]?, Appends x.1 none p.callback
  | .deleteHabit | .editConfirmed _ => False
  | _ => True

instance (x : State × List DayEntry) (e : Event) : Decidable (Orderly x e) := by
  induction e using Event.casesOn <;> unfold Orderly <;> infer_instance

/-- Right after a reset, the streak of each habit of the list, and of its
document, is the number of consecutive days up to yesterday on which it was
completed. -/
def StreakLaw (x : State × List DayEntry) : Event → Prop
  | .viewWillAppear => x.1.crashed = none → resets x.1 = true →
      ∀ h ∈ (viewWillAppear x.1).habitArray,
        h.streak = streakOn x.2 h.habitNumber x.1.today ∧
          ((viewWillAppear x.1).store.habits h.habitNumber).bind (·.fields.streak) = some h.streak
  | _ => True

instance (x : State × List DayEntry) (e : Event) : Decidable (StreakLaw x e) := by
  induction e using Event.casesOn <;> unfold StreakLaw <;> infer_instance

/-- A reset comes the day after the last one, or no habit of the list is
completed. -/
def NoSkip (x : State × List DayEntry) : Event → Prop
  | .viewWillAppear => x.1.crashed = none → resets x.1 = true →
      (∃ day ∈ lastReset x.2, day + 1 = x.1.today) ∨ ∀ h ∈ x.1.habitArray, h.addFirebase = true
  | _ => True

instance (x : State × List DayEntry) (e : Event) : Decidable (NoSkip x e) := by
  induction e using Event.casesOn <;> unfold NoSkip <;> infer_instance

/-! ## Sessions that are those of the history -/

/-- The document of habit `n` is right, where `behind` says that it still
misses a completion. -/
def DocRight (log : List DayEntry) (n : Nat) (behind : Bool) (doc : HabitDoc) : Prop :=
  ∃ flag streak, doc.fields.addFirebase = some flag ∧ doc.fields.streak = some streak ∧
    Right log n (flag && !behind) streak

/-- The session is right: documents, rows and reads that were served. -/
structure Tracked (log : List DayEntry) (s : State) : Prop where
  docs : ∀ n doc, s.store.habits n = some doc →
    n < s.store.user.habitCounter ∧ DocRight log n (s.completing n) doc
  rows : ∀ h ∈ s.habitArray, (s.store.habits h.habitNumber).isSome = true ∧
    Right log h.habitNumber h.addFirebase h.streak
  served : ∀ p ∈ s.pending, ∀ n st h, p.callback = .fetchHabit n → p.snapshot = some st →
    st.readHabit n = some h → (s.store.habits n).isSome = true ∧ Right log n h.addFirebase h.streak
  finished : ∀ n, s.completing n = true → n < s.store.user.habitCounter
  chain : s.noChain = true
  last : ∀ day, lastReset log = some day → day ≤ s.today
  past : ∀ n d, completedOn log n d = true →
    n < s.store.user.habitCounter ∧ ∃ day, lastReset log = some day ∧ d ≤ day

section Completing

variable {s s' : State} {n : Nat}

theorem finishedRow_of_isRefresh {cb : Callback} (h : cb.isRefresh = true) :
    cb.finishedRow = none := by
  cases cb <;> first | rfl | contradiction

theorem completing_iff :
    s.completing n = true ↔ ∃ p ∈ s.pending, p.callback.finishedRow = some n := by
  simp [State.completing]

theorem completing_of_issued (cbs : List Callback)
    (hpending : s'.pending = s.pending ++ cbs.map ({ callback := · })) :
    s'.completing n = (s.completing n || cbs.any fun cb => cb.finishedRow = some n) := by
  simp [State.completing, hpending, List.any_append, Function.comp_def]

theorem completing_drop {i : Nat} {p : Pending} (hp : s.pending[i]? = some p)
    (hcb : p.callback.finishedRow ≠ some n) : (s.dropPending i).completing n = s.completing n := by
  rw [Bool.eq_iff_iff, completing_iff, completing_iff]
  constructor
  · rintro ⟨q, hq, hrow⟩
    exact ⟨q, (mem_pending hp).mpr (Or.inr hq), hrow⟩
  · rintro ⟨q, hq, hrow⟩
    rcases (mem_pending hp).mp hq with rfl | hq
    · exact absurd hrow hcb
    · exact ⟨q, hq, hrow⟩

theorem completing_of_noFinished (h : s.noFinished = true) (n : Nat) : s.completing n = false := by
  rw [Bool.eq_false_iff, Ne, completing_iff]
  rintro ⟨p, hp, hrow⟩
  have hnot := List.all_eq_true.mp h p hp
  cases hcb : p.callback <;> rw [hcb] at hrow hnot <;> contradiction

end Completing

/-- Quiet writes leave flag and streak of every document. -/
theorem Store.habits_of_quiet {st : Store} {ws : List Write} (hws : ∀ w ∈ ws, w.isQuiet = true)
    {n : Nat} {doc : HabitDoc} (hdoc : (st.applyAll ws).habits n = some doc) :
    ∃ old, st.habits n = some old ∧ doc.fields.addFirebase = old.fields.addFirebase ∧
      doc.fields.streak = old.fields.streak := by
  induction ws generalizing st with
  | nil => exact ⟨doc, hdoc, rfl, rfl⟩
  | cons w ws ih =>
    obtain ⟨mid, hmid, hflag, hstreak⟩ := ih (fun v hv => hws v (List.mem_cons_of_mem w hv)) hdoc
    have hw := hws w (by simp)
    cases w with
    | updateUser fields => exact ⟨mid, hmid, hflag, hstreak⟩
    | updateHabit k fields ident =>
      simp only [Write.isQuiet, Bool.and_eq_true, Option.isNone_iff_eq_none] at hw
      rw [apply_updateHabit_habits] at hmid
      split at hmid
      · next hk =>
        obtain ⟨old, hold, rfl⟩ := Option.map_eq_some_iff.mp hmid
        refine ⟨old, hk ▸ hold, ?_, ?_⟩
        · simpa [HabitFields.merge, hw.1] using hflag
        · simpa [HabitFields.merge, hw.2] using hstreak
      · exact ⟨mid, hmid, hflag, hstreak⟩
    | _ => contradiction

namespace Tracked

variable {log : List DayEntry} {s s' : State}

/-- Quiet writes, the same rows, and calls that are neither completions
nor steps of a delete. -/
theorem frame (h : Tracked log s) (ws : List Write) (cbs : List Callback)
    (hws : ∀ w ∈ ws, w.isQuiet = true) (hstore : s'.store = s.store.applyAll ws)
    (hrows : ∀ h ∈ s'.habitArray, ∃ old ∈ s.habitArray, h.mark = old.mark)
    (hpending : s'.pending = s.pending ++ cbs.map ({ callback := · }))
    (hcbs : ∀ cb ∈ cbs, cb.finishedRow = none ∧ cb.isChain = false)
    (htoday : s.today ≤ s'.today) : Tracked log s' := by
  have hplain : ∀ w ∈ ws, w.isPlain = true := fun w hw => Write.isPlain_of_isQuiet (hws w hw)
  have hcounter : s'.store.user.habitCounter = s.store.user.habitCounter := by
    rw [hstore]
    exact Store.habitCounter_of_plain hplain
  have hsome : ∀ n, (s'.store.habits n).isSome = (s.store.habits n).isSome := fun n => by
    rw [hstore]
    exact Store.isSome_of_ident (Store.ident_of_plain hplain n)
  have hcompleting : ∀ n, s'.completing n = s.completing n := by
    intro n
    have hnone : (cbs.any fun cb => cb.finishedRow = some n) = false := by
      rw [List.any_eq_false]
      intro cb hcb
      simp [(hcbs cb hcb).1]
    rw [completing_of_issued _ hpending, hnone, Bool.or_false]
  refine ⟨fun n doc hdoc => ?_, fun habit hmem => ?_, ?_, fun n hn => ?_, ?_,
    fun day hday => ?_, ?_⟩
  · rw [hstore] at hdoc
    obtain ⟨old, hold, hflag, hstreak⟩ := Store.habits_of_quiet hws hdoc
    rw [hcounter, hcompleting, DocRight, hflag, hstreak]
    exact h.docs n old hold
  · obtain ⟨old, hold, hmark⟩ := hrows habit hmem
    simp only [Habit.mark, Prod.mk.injEq] at hmark
    obtain ⟨_, hnumber, hflag, hstreak⟩ := hmark
    rw [hsome, hnumber, hflag, hstreak]
    exact h.rows old hold
  · intro p hp n st habit hcb hsnapshot hread
    rw [hsome]
    exact h.served p (mem_of_served hpending hp hsnapshot) n st habit hcb hsnapshot hread
  · rw [hcompleting] at hn
    rw [hcounter]
    exact h.finished n hn
  · rw [noChain_of_issued hpending fun cb hcb => (hcbs cb hcb).2]
    exact h.chain
  · exact (h.last day hday).trans htoday
  · rw [hcounter]
    exact h.past

theorem quiet (h : Tracked log s) (hquiet : Quiet s s') : Tracked log s' := by
  obtain ⟨ws, hws, hstore⟩ := hquiet.writes
  obtain ⟨cbs, hpending, hcbs⟩ := hquiet.issued
  refine h.frame ws cbs hws hstore hquiet.rows hpending (fun cb hcb => ?_) hquiet.today
  have href := hcbs cb hcb
  exact ⟨finishedRow_of_isRefresh href, Callback.isChain_of_isRefresh href⟩

/-- A call that is no completion. -/
theorem drop (h : Tracked log s) {i : Nat} {p : Pending} (hp : s.pending[i]? = some p)
    (hcb : p.callback.finishedRow = none) : Tracked log (s.dropPending i) where
  docs n doc hdoc := by
    rw [completing_drop hp (by simp [hcb])]
    exact h.docs n doc hdoc
  rows := h.rows
  served q hq := h.served q ((mem_pending hp).mpr (Or.inr hq))
  finished n hn := h.finished n (by rwa [completing_drop hp (by simp [hcb])] at hn)
  chain := noChain_iff.mpr fun q hq => noChain_iff.mp h.chain q ((mem_pending hp).mpr (Or.inr hq))
  last := h.last
  past := h.past

/-- A launch after the completions have been written. -/
theorem relaunch (h : Tracked log s) (hdone : s.noFinished = true) : Tracked log s.relaunch where
  docs n doc hdoc := by
    have hdocs := h.docs n doc hdoc
    rw [completing_of_noFinished hdone] at hdocs
    exact hdocs
  rows := by simp [State.relaunch]
  served := by simp [State.relaunch]
  finished := by simp [State.completing, State.relaunch]
  chain := rfl
  last := h.last
  past := h.past

/-- A read that is served. -/
theorem serve (h : Tracked log s) {i : Nat}
    (hok : ∀ p ∈ s.pending[i]?, SeesCompletions s p.callback) : Tracked log (s.serve i) := by
  have hcompleting : ∀ n, (s.serve i).completing n = s.completing n := fun n => by
    have hmap := congrArg (List.any · fun cb => cb.finishedRow = some n) (serve_callbacks s i)
    simpa [State.completing, List.any_map, Function.comp_def] using hmap
  have htoday : (s.serve i).today = s.today := by
    rcases serve_cases s i with hs | ⟨_, _, _, _, hs⟩ <;> rw [hs]
  refine ⟨?_, ?_, fun p hp n st habit hcb hsnapshot hread => ?_, ?_,
    (noChain_serve s i).trans h.chain, ?_, ?_⟩
  · simp only [serve_store, hcompleting]
    exact h.docs
  · simp only [serve_store, serve_habitArray]
    exact h.rows
  · rw [serve_store]
    rcases serve_cases s i with hs | ⟨q, hq, _, _, hs⟩ <;> rw [hs] at hp
    · exact h.served p hp n st habit hcb hsnapshot hread
    · rcases List.mem_or_eq_of_mem_set hp with hp | rfl
      · exact h.served p hp n st habit hcb hsnapshot hread
      · have hsees := hok q hq
        have hstored : s.store.habits n = some habit.toDocument := by
          rw [← Option.some.inj hsnapshot] at hread
          exact Store.habits_of_readHabit hread
        have hcb' : q.callback = .fetchHabit n := hcb
        rw [hcb', SeesCompletions] at hsees
        obtain ⟨_, flag, streak, hflag, hstreak, hright⟩ := h.docs n _ hstored
        rw [hsees, Bool.not_false, Bool.and_true] at hright
        simp only [Habit.toDocument, Entry.fields, Habit.entry, Option.some.injEq] at hflag hstreak
        rw [hstored, hflag, hstreak]
        exact ⟨rfl, hright⟩
  · simp only [serve_store, hcompleting]
    exact h.finished
  · rw [htoday]
    exact h.last
  · rw [serve_store]
    exact h.past

end Tracked

/-! ## Resets -/

section Reset

variable {log : List DayEntry} {s : State}

/-- On a loaded list the row is the number. -/
theorem habitNumber_of_row
    (hloaded : s.habitArray.map Habit.habitNumber = s.store.numbers) {n : Nat}
    {h : Habit} (hrow : s.habitArray[n]? = some h) :
    h.habitNumber = n ∧ n < s.store.user.habitCounter := by
  have hnumber := congrArg (·[n]?) hloaded
  simp only [List.getElem?_map, hrow, Option.map_some, Store.numbers] at hnumber
  obtain ⟨hlt, heq⟩ := List.getElem?_eq_some_iff.mp hnumber.symm
  rw [List.length_range] at hlt
  rw [List.getElem_range] at heq
  exact ⟨heq.symm, hlt⟩

/-- The law of one reset. -/
theorem Tracked.law_iff (h : Tracked log s) (hrunning : s.crashed = none) (hres : resets s = true)
    (hok : Orderly (s, log) .viewWillAppear) :
    StreakLaw (s, log) .viewWillAppear ↔ NoSkip (s, log) .viewWillAppear := by
  obtain ⟨honce, hloaded, _, _⟩ := hok hrunning hres
  have hlast : ∀ day, lastReset log = some day → day < s.today := fun day hday =>
    lt_of_le_of_ne (h.last day hday) fun heq => honce (heq ▸ hday)
  have hrow : ∀ habit ∈ s.habitArray,
      ((resetHabit habit).streak = streakOn log habit.habitNumber s.today ∧
          ((viewWillAppear s).store.habits habit.habitNumber).bind (·.fields.streak) =
            some (resetHabit habit).streak) ↔
        (∃ day ∈ lastReset log, day + 1 = s.today) ∨ habit.addFirebase = true := by
    intro habit hmem
    obtain ⟨hdoc, hright⟩ := h.rows habit hmem
    obtain ⟨n, hn⟩ := List.getElem?_of_mem hmem
    obtain ⟨doc, hdoc⟩ := Option.isSome_iff_exists.mp hdoc
    have hstreak : ((viewWillAppear s).store.habits habit.habitNumber).bind (·.fields.streak) =
        some (resetHabit habit).streak := by
      rw [(habitNumber_of_row hloaded hn).1] at hdoc ⊢
      rw [viewWillAppear_habits hres, hn, hdoc]
      rfl
    rw [and_iff_left hstreak, ← hright.reset_iff (fun k hk => (h.past _ k hk).2) hlast]
    rfl
  simp only [StreakLaw, NoSkip, hrunning, hres, true_implies, viewWillAppear_habitArray hres,
    List.forall_mem_map]
  refine (forall₂_congr hrow).trans ?_
  by_cases hnext : ∃ day ∈ lastReset log, day + 1 = s.today
  · simp only [hnext, true_or, implies_true]
  · simp only [hnext, false_or]

/-- Nothing was completed today before the first reset of the day. -/
theorem Tracked.completedOn_today (h : Tracked log s) (honce : lastReset log ≠ some s.today)
    (n : Nat) : completedOn log n s.today = false := by
  by_contra hdone
  obtain ⟨_, day, hday, hle⟩ := h.past n s.today (by simpa using hdone)
  exact honce (by rw [hday, Nat.le_antisymm (h.last day hday) hle])

theorem completing_viewWillAppear (hdone : s.noFinished = true) (n : Nat) :
    (viewWillAppear s).completing n = false := by
  obtain ⟨cbs, hpending, hcbs⟩ := viewWillAppear_issued s
  have hnot : (cbs.any fun cb => cb.finishedRow = some n) = false := by
    rw [List.any_eq_false]
    intro cb hcb
    rw [hcbs cb hcb]
    simp [Callback.finishedRow]
  rw [completing_of_issued _ hpending, completing_of_noFinished hdone, hnot, Bool.or_false]

/-- On a loaded list each document that a reset leaves is that of a row. -/
theorem Tracked.doc_of_reset (h : Tracked log s) (hres : resets s = true)
    (hloaded : s.habitArray.map Habit.habitNumber = s.store.numbers) {n : Nat} {doc : HabitDoc}
    (hdoc : (viewWillAppear s).store.habits n = some doc) :
    ∃ habit ∈ (viewWillAppear s).habitArray, habit.habitNumber = n ∧
      n < s.store.user.habitCounter ∧ doc.fields.addFirebase = some true ∧
      doc.fields.streak = some habit.streak := by
  rw [viewWillAppear_habits hres] at hdoc
  cases hn : s.habitArray[n]? with
  | none =>
    -- the list has all documents that are counted
    rw [hn] at hdoc
    have hlt := (h.docs n doc hdoc).1
    have hlen := congrArg List.length hloaded
    simp only [List.length_map, Store.numbers, List.length_range] at hlen
    rw [List.getElem?_eq_none_iff] at hn
    omega
  | some old =>
    obtain ⟨hnumber, hlt⟩ := habitNumber_of_row hloaded hn
    rw [hn] at hdoc
    obtain ⟨before, _, rfl⟩ := Option.map_eq_some_iff.mp hdoc
    refine ⟨resetHabit old, ?_, hnumber, hlt, rfl, rfl⟩
    rw [viewWillAppear_habitArray hres]
    exact List.mem_map_of_mem (List.mem_of_getElem? hn)

/-- A reset that follows the law. -/
theorem Tracked.reset (h : Tracked log s) (hrunning : s.crashed = none) (hres : resets s = true)
    (hok : Orderly (s, log) .viewWillAppear) (hlaw : StreakLaw (s, log) .viewWillAppear) :
    Tracked (log ++ [.reset s.today]) (viewWillAppear s) := by
  obtain ⟨honce, hloaded, hdone, hserved⟩ := hok hrunning hres
  have hlaw := hlaw hrunning hres
  obtain ⟨htoday, _⟩ := viewWillAppear_device s
  have hcounter : (viewWillAppear s).store.user.habitCounter = s.store.user.habitCounter := by
    rw [(viewWillAppear_writes hres).1, Store.habitCounter_of_plain (appearWrites_isPlain s)]
  have hright : ∀ habit ∈ (viewWillAppear s).habitArray,
      Right (log ++ [.reset s.today]) habit.habitNumber true habit.streak := fun habit hmem =>
    .reset (hlaw habit hmem).1 (h.completedOn_today honce _)
  obtain ⟨cbs, hpending, hcbs⟩ := viewWillAppear_issued s
  have hcompleting := completing_viewWillAppear hdone
  refine ⟨fun n doc hdoc => ?_, fun habit hmem => ?_, fun p hp n st habit hcb hsnapshot hread => ?_,
    fun n hn => ?_, ?_, ?_, ?_⟩
  · obtain ⟨habit, hmem, rfl, hlt, hflag, hstreak⟩ := h.doc_of_reset hres hloaded hdoc
    refine ⟨hcounter ▸ hlt, true, habit.streak, hflag, hstreak, ?_⟩
    rw [hcompleting]
    exact hright habit hmem
  · have hstreak := (hlaw habit hmem).2
    have hflag : habit.addFirebase = true := by
      rw [viewWillAppear_habitArray hres] at hmem
      obtain ⟨old, _, rfl⟩ := List.mem_map.mp hmem
      rfl
    rw [hflag]
    refine ⟨?_, hright habit hmem⟩
    cases hdoc : (viewWillAppear s).store.habits habit.habitNumber with
    | none =>
      rw [hdoc] at hstreak
      contradiction
    | some doc => rfl
  · -- a read that was served has been delivered
    have hold := mem_of_served hpending hp hsnapshot
    have hsome := (h.served p hold n st habit hcb hsnapshot hread).1
    obtain ⟨doc, hdoc⟩ := Option.isSome_iff_exists.mp hsome
    exact absurd rfl ((hserved n (List.mem_range.mpr (h.docs n doc hdoc).1)).ne hold hcb hsnapshot)
  · rw [hcompleting] at hn
    contradiction
  · rw [noChain_of_issued hpending fun cb hcb => by rw [hcbs cb hcb]; rfl]
    exact h.chain
  · intro day hday
    rw [lastReset_reset, Option.some.injEq] at hday
    rw [htoday, hday]
  · intro n d hdone
    rw [completedOn_reset] at hdone
    obtain ⟨hlt, day, hday, hle⟩ := h.past n d hdone
    exact ⟨hcounter ▸ hlt, s.today, by simp, hle.trans (h.last day hday)⟩

end Reset

/-! ## Completions -/

section Completion

variable {log : List DayEntry} {s s' : State}

/-- The document of the habit that is completed gets the flag or waits for
it. -/
theorem DocRight.completed_self {n d : Nat} {behind behind' : Bool} {doc doc' : HabitDoc}
    (h : DocRight log n behind doc) (hday : lastReset log = some d)
    (hstreak : doc'.fields.streak = doc.fields.streak)
    (hflag : doc'.fields.addFirebase = some false ∨
      doc'.fields.addFirebase = doc.fields.addFirebase ∧ behind' = true) :
    DocRight (log ++ [.completed n d]) n behind' doc' := by
  obtain ⟨flag, streak, hflag₀, hstreak₀, hr⟩ := h
  have hr := hr.completed_self hday
  rcases hflag with hflag | ⟨hflag, hbehind⟩
  · exact ⟨false, streak, hflag, hstreak.trans hstreak₀, hr⟩
  · exact ⟨flag, streak, hflag.trans hflag₀, hstreak.trans hstreak₀, by simpa [hbehind] using hr⟩

theorem DocRight.completed_ne {n k d : Nat} {behind : Bool} {doc doc' : HabitDoc}
    (h : DocRight log n behind doc) (hday : lastReset log = some d) (hne : n ≠ k)
    (hstreak : doc'.fields.streak = doc.fields.streak)
    (hflag : doc'.fields.addFirebase = doc.fields.addFirebase) :
    DocRight (log ++ [.completed k d]) n behind doc' := by
  obtain ⟨flag, streak, hflag₀, hstreak₀, hr⟩ := h
  exact ⟨flag, streak, hflag.trans hflag₀, hstreak.trans hstreak₀, hr.completed_ne hday hne⟩

/-- The rows after a completion. -/
theorem Tracked.rows_completed (h : Tracked log s) {row : Nat} {habit habit' : Habit}
    (hrow : s.habitArray[row]? = some habit) (hday : lastReset log = some s.today)
    (hown : OwnRow s row)
    (hmark : habit'.mark = (habit.ident, habit.habitNumber, false, habit.streak)) :
    ∀ h' ∈ s.habitArray.set row habit', (s.store.habits h'.habitNumber).isSome = true ∧
      Right (log ++ [.completed row s.today]) h'.habitNumber h'.addFirebase h'.streak := by
  intro h' hmem
  obtain ⟨r, hr⟩ := List.getElem?_of_mem hmem
  by_cases hrow' : r = row
  · rw [hrow', List.getElem?_set_self (List.getElem?_eq_some_iff.mp hrow).1,
      Option.some.injEq] at hr
    obtain ⟨hdoc, hr₀⟩ := h.rows habit (List.mem_of_getElem? hrow)
    simp only [← hr, Habit.mark, Prod.mk.injEq] at hmark ⊢
    obtain ⟨_, hnumber', hflag, hstreak⟩ := hmark
    rw [hnumber', hflag, hstreak]
    rw [hown.habitNumber hrow] at hdoc hr₀ ⊢
    exact ⟨hdoc, hr₀.completed_self hday⟩
  · rw [List.getElem?_set_ne (Ne.symm hrow')] at hr
    obtain ⟨hdoc, hr₀⟩ := h.rows h' (List.mem_of_getElem? hr)
    exact ⟨hdoc, hr₀.completed_ne hday (hown.ne hr hrow')⟩

/-- A completion at a row of the right number, where the document gets the
flag or waits for it. -/
theorem Tracked.complete (h : Tracked log s) {row : Nat} {habit : Habit} (habit' : Habit)
    (hrow : s.habitArray[row]? = some habit) (hday : lastReset log = some s.today)
    (hown : OwnRow s row) (hnot : NotServed s row)
    (hmark : habit'.mark = (habit.ident, habit.habitNumber, false, habit.streak))
    (hlist : s'.habitArray = s.habitArray.set row habit')
    (hcounter : s'.store.user.habitCounter = s.store.user.habitCounter)
    (hsome : ∀ n, (s'.store.habits n).isSome = (s.store.habits n).isSome)
    (hdocs : ∀ n doc', s'.store.habits n = some doc' → ∃ doc, s.store.habits n = some doc ∧
      doc'.fields.streak = doc.fields.streak ∧
      if n = row then doc'.fields.addFirebase = some false ∨
        doc'.fields.addFirebase = doc.fields.addFirebase ∧ s'.completing n = true
      else doc'.fields.addFirebase = doc.fields.addFirebase ∧ s'.completing n = s.completing n)
    (cbs : List Callback) (hpending : s'.pending = s.pending ++ cbs.map ({ callback := · }))
    (hcbs : ∀ cb ∈ cbs, cb.isChain = false ∧ ∀ n, cb.finishedRow = some n → n = row)
    (htoday : s'.today = s.today) :
    Tracked (log ++ [.completed row s.today]) s' := by
  have hrow_lt : row < s.store.user.habitCounter := by
    obtain ⟨doc, hdoc⟩ := Option.isSome_iff_exists.mp (h.rows habit (List.mem_of_getElem? hrow)).1
    exact hown.habitNumber hrow ▸ (h.docs _ doc hdoc).1
  refine ⟨fun n doc' hdoc' => ?_, fun h' hmem => ?_, fun p hp n st read hcb hsnapshot hread => ?_,
    fun n hn => ?_, ?_, ?_, ?_⟩
  · obtain ⟨doc, hdoc, hstreak, hflag⟩ := hdocs n doc' hdoc'
    obtain ⟨hlt, hright⟩ := h.docs n doc hdoc
    rw [hcounter]
    refine ⟨hlt, ?_⟩
    by_cases hn : n = row
    · subst hn
      rw [if_pos rfl] at hflag
      exact hright.completed_self hday hstreak hflag
    · rw [if_neg hn] at hflag
      rw [hflag.2]
      exact hright.completed_ne hday hn hstreak hflag.1
  · rw [hsome]
    rw [hlist] at hmem
    exact h.rows_completed hrow hday hown hmark h' hmem
  · rw [hsome]
    have hold := mem_of_served hpending hp hsnapshot
    obtain ⟨hdoc, hr⟩ := h.served p hold n st read hcb hsnapshot hread
    exact ⟨hdoc, hr.completed_ne hday (hnot.ne hold hcb hsnapshot)⟩
  · rw [hcounter]
    rw [completing_of_issued _ hpending, Bool.or_eq_true] at hn
    rcases hn with hn | hn
    · exact h.finished n hn
    · obtain ⟨cb, hcb, hfinished⟩ := List.any_eq_true.mp hn
      rw [(hcbs cb hcb).2 n (by simpa using hfinished)]
      exact hrow_lt
  · rw [noChain_of_issued hpending fun cb hcb => (hcbs cb hcb).1]
    exact h.chain
  · intro day hlast
    rw [lastReset_completed] at hlast
    rw [htoday]
    exact h.last day hlast
  · intro n d hdone
    rw [completedOn_completed, Bool.or_eq_true] at hdone
    rw [hcounter, lastReset_completed]
    rcases hdone with hdone | hdone
    · exact h.past n d hdone
    · simp only [Bool.and_eq_true, decide_eq_true_eq] at hdone
      obtain ⟨rfl, rfl⟩ := hdone
      exact ⟨hrow_lt, s.today, hday, Nat.le_refl _⟩

/-- A tap that completes the habit. -/
theorem Tracked.tap (h : Tracked log s) {row : Nat} {habit : Habit}
    (hrow : s.habitArray[row]? = some habit) (hdone : habit.completes = true)
    (hday : lastReset log = some s.today) (hown : OwnRow s row) (hnot : NotServed s row) :
    Tracked (log ++ [.completed row s.today])
      ((({ s with palmiIsCool := some s.today }.writeAll (tapWrites row habit)).issueAll
        (tapCallbacks row habit)).setRow row habit.tapped) := by
  have hquiet : ∀ w ∈ tapWrites row habit, w.isQuiet = true := by
    unfold tapWrites
    split <;> simp [Write.isQuiet]
  have hplain : ∀ w ∈ tapWrites row habit, w.isPlain = true := fun w hw =>
    Write.isPlain_of_isQuiet (hquiet w hw)
  have hcbs : tapCallbacks row habit = [.finished row habit.ident] := by simp [tapCallbacks, hdone]
  have hmark : habit.tapped.mark = (habit.ident, habit.habitNumber, false, habit.streak) := by
    rw [Habit.tapped, if_pos hdone, Habit.incremented]
    split <;> rfl
  refine h.complete habit.tapped hrow hday hown hnot hmark rfl (Store.habitCounter_of_plain hplain)
    (fun n => Store.isSome_of_ident (Store.ident_of_plain hplain n)) (fun n doc' hdoc' => ?_)
    (tapCallbacks row habit) rfl (by simp [hcbs, Callback.isChain, Callback.finishedRow]) rfl
  obtain ⟨doc, hdoc, hflag, hstreak⟩ := Store.habits_of_quiet hquiet hdoc'
  refine ⟨doc, hdoc, hstreak, ?_⟩
  rw [completing_of_issued (s := s) (tapCallbacks row habit) rfl, hcbs]
  split
  · next hn => exact Or.inr ⟨hflag, by simp [Callback.finishedRow, hn]⟩
  · next hn => exact ⟨hflag, by simp [Callback.finishedRow, Ne.symm hn]⟩

/-- The end of a countdown. -/
theorem Tracked.alert (h : Tracked log s) {row : Nat} {habit : Habit}
    (hrow : s.habitArray[row]? = some habit) (hday : lastReset log = some s.today)
    (hown : OwnRow s row) (hnot : NotServed s row) :
    Tracked (log ++ [.completed row s.today]) (showAlert row s) := by
  have hs : showAlert row s = (s.setRow row { habit with addFirebase := false }).write
      (.updateHabit row { addFirebase := some false } habit.ident) := by
    simp [showAlert, hrow]
  rw [hs]
  refine h.complete { habit with addFirebase := false } hrow hday hown hnot rfl rfl rfl
    (s.store.apply_updateHabit_isSome row { addFirebase := some false } habit.ident)
    (fun n doc' hdoc' => ?_) []
    (by simp) (by simp) rfl
  simp only [State.write_store, State.setRow_store, Store.apply_updateHabit_habits] at hdoc'
  split at hdoc'
  · next hn =>
    obtain ⟨doc, hdoc, rfl⟩ := Option.map_eq_some_iff.mp hdoc'
    exact ⟨doc, hn ▸ hdoc, rfl, by rw [if_pos hn]; exact Or.inl rfl⟩
  · next hn => exact ⟨doc', hdoc', rfl, by rw [if_neg hn]; exact ⟨rfl, rfl⟩⟩

/-- The callback of a completion. -/
theorem Tracked.finishedRead (h : Tracked log s) {i row ident : Nat} {p : Pending}
    (hp : s.pending[i]? = some p) (hcb : p.callback = .finished row ident)
    (document : Option Store) :
    Tracked log (finishedRead row ident document (s.dropPending i)) := by
  have hdone : s.completing row = true :=
    completing_iff.mpr ⟨p, List.mem_of_getElem? hp, by rw [hcb]; rfl⟩
  have hplain := finishedWrites_isPlain row ident document
  rw [finishedRead_eq]
  set s' := (s.dropPending i).writeAll (finishedWrites row ident document)
  have hhabits : s'.store.habits =
      (s.store.apply (.updateHabit row { addFirebase := some false } ident)).habits :=
    habits_of_finishedWrites row ident document s.store
  have hcounter : s'.store.user.habitCounter = s.store.user.habitCounter :=
    Store.habitCounter_of_plain hplain
  have hsome : ∀ n, (s'.store.habits n).isSome = (s.store.habits n).isSome := fun n =>
    Store.isSome_of_ident (Store.ident_of_plain hplain n)
  refine ⟨fun n doc' hdoc' => ?_, fun habit hmem => ?_, fun q hq n st habit => ?_, fun n hn => ?_,
    ?_, h.last, ?_⟩
  · rw [hcounter]
    rw [hhabits, Store.apply_updateHabit_habits] at hdoc'
    split at hdoc'
    · next hn =>
      obtain ⟨doc, hdoc, rfl⟩ := Option.map_eq_some_iff.mp hdoc'
      obtain ⟨hlt, flag, streak, _, hstreak, hr⟩ := h.docs row doc hdoc
      rw [hdone, Bool.not_true, Bool.and_false] at hr
      rw [hn]
      exact ⟨hlt, false, streak, rfl, hstreak, by simpa using hr⟩
    · next hn =>
      have hsame : s'.completing n = s.completing n :=
        completing_drop hp (by rw [hcb, Callback.finishedRow]; simpa using Ne.symm hn)
      rw [hsame]
      exact h.docs n doc' hdoc'
  · rw [hsome]
    exact h.rows habit hmem
  · rw [hsome]
    exact h.served q ((mem_pending hp).mpr (Or.inr hq)) n st habit
  · rw [hcounter]
    obtain ⟨q, hq, hrow⟩ := completing_iff.mp hn
    exact h.finished n (completing_iff.mpr ⟨q, (mem_pending hp).mpr (Or.inr hq), hrow⟩)
  · have hchain : s'.noChain = s.noChain := noChain_drop hp (by rw [hcb]; rfl)
    rw [hchain]
    exact h.chain
  · rw [hcounter]
    exact h.past

end Completion

/-! ## The other callbacks -/

section Callbacks

variable {log : List DayEntry} {s : State}

/-- A create that appends its document. -/
theorem Tracked.addHabitRead (h : Tracked log s) {c : Nat} {habit : Habit} {document : Option Store}
    (hok : Appends s document (.addHabit c habit)) :
    Tracked log (CreateHabit.addHabitRead c habit document s) := by
  unfold CreateHabit.addHabitRead
  split
  · exact h
  · next form hform =>
    have hnumber := hok form hform
    simp only [hnumber]
    have hnone : s.store.habits s.store.user.habitCounter = none := by
      cases hdoc : s.store.habits s.store.user.habitCounter with
      | none => rfl
      | some doc => exact absurd (h.docs _ doc hdoc).1 (Nat.lt_irrefl _)
    have hnot : s.completing s.store.user.habitCounter = false := by
      by_contra hn
      exact Nat.lt_irrefl _ (h.finished _ (by simpa using hn))
    have hold : ∀ n doc, s.store.habits n = some doc → n ≠ s.store.user.habitCounter := by
      rintro n doc hdoc rfl
      rw [hnone] at hdoc
      contradiction
    set s' := (((CreateHabit.setForm c (CreateHabit.formRead habit document form) s).write
      (.setHabit s.store.user.habitCounter
        (CreateHabit.newDocument habit (CreateHabit.formRead habit document form).timeArray))).write
      (.updateUser { habitCounter := some (s.store.user.habitCounter + 1) })).issue .fetch with hs'
    have hcounter : s'.store.user.habitCounter = s.store.user.habitCounter + 1 := rfl
    have hhabits : ∀ n, s'.store.habits n = if n = s.store.user.habitCounter then
        some (CreateHabit.newDocument habit (CreateHabit.formRead habit document form).timeArray)
        else s.store.habits n := fun n => by
      rw [hs']
      exact Store.apply_setHabit_habits _ _ _ n
    have hsame : ∀ n, (s.store.habits n).isSome = true → s'.store.habits n = s.store.habits n := by
      intro n hn
      obtain ⟨doc, hdoc⟩ := Option.isSome_iff_exists.mp hn
      rw [hhabits, if_neg (hold n doc hdoc)]
    have hpending : s'.pending = s.pending ++ [Callback.fetch].map ({ callback := · }) := rfl
    have hcompleting : ∀ n, s'.completing n = s.completing n := fun n => by
      rw [completing_of_issued _ hpending]
      simp [Callback.finishedRow]
    refine ⟨fun n doc hdoc => ?_, fun habit hmem => ?_,
      fun p hp n st read hcb hsnapshot hread => ?_, fun n hn => ?_, ?_, h.last, fun n d hdone => ?_⟩
    · rw [hcounter, hcompleting]
      rw [hhabits] at hdoc
      split at hdoc
      · next hn =>
        obtain rfl := Option.some.inj hdoc
        refine ⟨by omega, true, 0, rfl, rfl, ?_⟩
        rw [hn, hnot]
        exact .fresh fun d => by
          by_contra hdone
          exact Nat.lt_irrefl _ (h.past _ d (by simpa using hdone)).1
      · obtain ⟨hlt, hright⟩ := h.docs n doc hdoc
        exact ⟨by omega, hright⟩
    · obtain ⟨hdoc, hright⟩ := h.rows habit hmem
      exact ⟨by rw [hsame _ hdoc]; exact hdoc, hright⟩
    · obtain ⟨hdoc, hright⟩ :=
        h.served p (mem_of_served hpending hp hsnapshot) n st read hcb hsnapshot hread
      exact ⟨by rw [hsame _ hdoc]; exact hdoc, hright⟩
    · rw [hcompleting] at hn
      have := h.finished n hn
      omega
    · rw [noChain_of_issued hpending (by simp [Callback.isChain])]
      exact h.chain
    · obtain ⟨hlt, hday⟩ := h.past n d hdone
      exact ⟨by omega, hday⟩

/-- The read of a document that was served. -/
theorem Tracked.fetchHabitRead (h : Tracked log s) {i n : Nat} {p : Pending}
    (hp : s.pending[i]? = some p) (hcb : p.callback = .fetchHabit n) (document : Option Store)
    (hdoc : ∀ st, document = some st → p.snapshot = some st) :
    Tracked log (fetchHabitRead n document (s.dropPending i)) := by
  have hdrop := h.drop hp (by rw [hcb]; rfl)
  have hframe := fetchHabitRead_listOnly n document (s.dropPending i)
  obtain ⟨cbs, hpending, hfetch⟩ := pending_of_isRefresh
    (show (Callback.fetchHabit n).isRefresh = true from rfl) document (s.dropPending i)
  -- everything but the rows is as after a quiet step
  have hquiet : Tracked log { HabitCollection.fetchHabitRead n document (s.dropPending i) with
      habitArray := s.habitArray } := by
    refine hdrop.frame [] cbs (by simp) hframe.store (fun habit hmem => ⟨habit, hmem, rfl⟩) hpending
      (fun cb hmem => ?_) hframe.today.ge
    have hcb := hfetch cb hmem
    exact ⟨finishedRow_of_isRefresh (Callback.isRefresh_of_isFetch hcb),
      Callback.isChain_of_isFetch hcb⟩
  refine ⟨hquiet.docs, fun habit hmem => ?_, hquiet.served, hquiet.finished, hquiet.chain,
    hquiet.last, hquiet.past⟩
  rcases mem_fetchHabitRead hmem with hmem | ⟨st, hst, hread⟩
  · exact hquiet.rows habit hmem
  · obtain ⟨hsome, hright⟩ := h.served p (List.mem_of_getElem? hp) n st habit hcb
      (hdoc st hst) hread
    rw [hframe.store, Store.habitNumber_of_readHabit hread]
    exact ⟨hsome, hright⟩

/-- The callbacks of a refresh that read no document of a habit. -/
theorem quiet_refresh {cb : Callback} (hcb : cb = .fetchCounter ∨ cb = .fetch ∨ cb = .reload)
    (document : Option Store) (s : State) : Quiet s (cb.run document s) := by
  have href : cb.isRefresh = true := by rcases hcb with rfl | rfl | rfl <;> rfl
  have hframe := listOnly_of_isRefresh href document s
  obtain ⟨cbs, hpending, hfetch⟩ := pending_of_isRefresh href document s
  refine .of_issued cbs (fun cb hmem => Callback.isRefresh_of_isFetch (hfetch cb hmem)) hpending
    hframe.store ?_ hframe.today.ge hframe.nextIdent
  rcases hcb with rfl | rfl | rfl
  · intro habit hmem
    rwa [Callback.run, fetchCounterRead_habitArray] at hmem
  · simp [Callback.run, fetchFirebaseHabits]
  · exact fun _ hmem => hmem

/-- Any callback of a run without deletes. -/
theorem Tracked.callback (h : Tracked log s) {i : Nat} {p : Pending} (hp : s.pending[i]? = some p)
    (document : Option Store) (hdoc : ∀ st, document = some st → p.snapshot = some st)
    (hok : Appends s document p.callback) :
    Tracked log (p.callback.run document (s.dropPending i)) := by
  have hchain := noChain_iff.mp h.chain p (List.mem_of_getElem? hp)
  cases hcb : p.callback with
  | fetchCounter => exact (h.drop hp (by rw [hcb]; rfl)).quiet (quiet_refresh (by simp) _ _)
  | fetch => exact (h.drop hp (by rw [hcb]; rfl)).quiet (quiet_refresh (by simp) _ _)
  | reload => exact (h.drop hp (by rw [hcb]; rfl)).quiet (quiet_refresh (by simp) _ _)
  | fetchHabit n => exact h.fetchHabitRead hp hcb document hdoc
  | addHabit c habit =>
    rw [hcb] at hok
    exact (h.drop hp (by rw [hcb]; rfl)).addHabitRead hok
  | finished row ident => exact h.finishedRead hp hcb document
  | deleteDone => rw [hcb] at hchain; contradiction
  | counterDone => rw [hcb] at hchain; contradiction

end Callbacks

/-! ## Runs -/

/-- One event of a session that is running. -/
theorem Tracked.handle {log : List DayEntry} {s : State} {e : Event} (h : Tracked log s)
    (hrunning : s.crashed = none) (hok : Orderly (s, log) e) (hlaw : StreakLaw (s, log) e) :
    Tracked (log ++ dayEntries s e) (handle s e) := by
  cases e with
  | relaunch =>
    rw [show dayEntries s .relaunch = [] from rfl, List.append_nil]
    exact h.relaunch hok
  | viewWillAppear =>
    cases hres : resets s
    · rw [show dayEntries s .viewWillAppear = [] by simp [dayEntries, hres], List.append_nil]
      simp only [HabitHive.handle, viewWillAppear_of_not_resets hres]
      exact h
    · rw [show dayEntries s .viewWillAppear = [.reset s.today] by simp [dayEntries, hres, hrunning]]
      exact h.reset hrunning hres hok hlaw
  | didSelectItemAt row menu =>
    obtain ⟨hday, hcomplete⟩ := hok hrunning
    simp only [HabitHive.handle]
    rcases didSelectItemAt_cases row menu s with
      ⟨hrow, hs⟩ | ⟨habit, hrow, ⟨hacc, hs⟩ | ⟨hacc, hs⟩⟩ <;>
      rw [hs]
    · simp only [dayEntries, hrow, List.append_nil]
      exact h.quiet (.same rfl rfl rfl (Nat.le_refl _) rfl)
    · simp only [dayEntries, hrow, hacc, Bool.false_eq_true, false_and, and_false, if_false,
        List.append_nil]
      exact h.quiet (.same rfl rfl rfl (Nat.le_refl _) rfl)
    · cases hdone : habit.completes
      · simp only [dayEntries, hrow, hdone, Bool.false_eq_true, and_false, if_false,
          List.append_nil]
        exact h.quiet (quiet_tap hrow hdone)
      · obtain ⟨hown, hnot⟩ := hcomplete habit hrow hacc hdone
        have hentries : dayEntries s (.didSelectItemAt row menu) = [.completed row s.today] := by
          simp [dayEntries, hrow, hdone, hacc, hrunning, hown.habitNumber hrow]
        rw [hentries]
        exact h.tap hrow hdone hday hown hnot
  | showAlert row =>
    obtain ⟨hday, hown, hnot⟩ := hok hrunning
    simp only [HabitHive.handle]
    cases hrow : s.habitArray[row]? with
    | none =>
      simp only [dayEntries, hrow, List.append_nil, showAlert]
      exact h.quiet (.same rfl rfl rfl (Nat.le_refl _) rfl)
    | some habit =>
      have hentries : dayEntries s (.showAlert row) = [.completed row s.today] := by
        simp [dayEntries, hrow, hrunning, hown.habitNumber hrow]
      rw [hentries]
      exact h.alert hrow hday hown hnot
  | addHabitButtonTapped c =>
    rw [show dayEntries s (.addHabitButtonTapped c) = [] from rfl, List.append_nil]
    simp only [HabitHive.handle]
    rcases addHabitButtonTapped_cases c s with ⟨form, _, _, hs⟩ | ⟨_, hforms⟩
    · rw [hs]
      exact h.frame [] [.addHabit c (CreateHabit.newHabit form s)] (by simp) rfl
        (fun habit hmem => ⟨habit, hmem, rfl⟩) rfl
        (by simp [Callback.finishedRow, Callback.isChain]) (Nat.le_refl _)
    · exact h.quiet hforms.quiet
  | serve i =>
    rw [show dayEntries s (.serve i) = [] from rfl, List.append_nil]
    exact h.serve hok
  | deliver i =>
    rw [show dayEntries s (.deliver i) = [] from rfl, List.append_nil]
    simp only [HabitHive.handle]
    rcases deliver_cases s i with ⟨hs, _⟩ | ⟨p, hp, hread, hs⟩ <;> rw [hs]
    · exact h
    · refine h.callback hp p.snapshot (fun _ => id) ?_
      cases hcb : p.callback with
      | addHabit c habit =>
        obtain ⟨st, hst⟩ := hread (by rw [hcb]; rfl)
        have happends := hok p hp (by rw [hst]; rfl)
        rwa [hcb] at happends
      | _ => trivial
  | fail i =>
    rw [show dayEntries s (.fail i) = [] from rfl, List.append_nil]
    simp only [HabitHive.handle]
    rcases fail_cases s i with hs | ⟨p, hp, _, hs⟩ <;> rw [hs]
    · exact h
    · exact h.callback hp none (by simp) (hok p hp)
  | deleteHabit => exact hok.elim
  | editConfirmed e => exact hok.elim
  | _ =>
    simp only [dayEntries, List.append_nil]
    exact h.quiet (quiet_of_event rfl s)

theorem tracked_signUp : Tracked [] (.launched .signUp) where
  docs := by simp [State.launched, Store.signUp]
  rows := by simp [State.launched]
  served := by simp [State.launched]
  finished := by simp [State.completing, State.launched]
  chain := rfl
  last := by simp [lastReset]
  past := by simp [completedOn]

/-- Sign-up, the first appearance, a habit with goal 1, and a tap that
completes it on day 0. -/
def completedFirstDay : List Event :=
  [.viewWillAppear, .addButtonTapped, .createName 0 ["w"], .createAmount 0 1,
    .addHabitButtonTapped 0, .serve 0, .deliver 0, .deliver 0, .serve 0, .deliver 0, .serve 0,
    .deliver 0, .didSelectItemAt 0 false, .serve 0, .deliver 0]

end HabitHive
