import HabitHive.Layout
import HabitHive.Lib.Draining

/-!
# The app comes to rest

The calls of a screen are the calls in flight of its session, the time
reads of its cells and the blocks that start a countdown.  A callback can
issue further calls, and the callback on the user document issues as many
as the counter says.  Still the chains are short: a delete leads to its
second callback, that to a refresh, the refresh to the read of the counter
and this one to the reads of the documents.  `Callback.rounds` counts what
is left of the chain.

Serving a read lowers its rank by one, and a callback takes out its call
and puts in calls with fewer rounds (`pending_of_callback`).  So once the
user starts nothing new, the events that are left drain the screen
(`Screen.drains_step`), whatever the order and whichever reads fail.
-/

namespace HabitHive

open HabitCollection

/-! ## What the calls of a session still cost -/

/-- The rounds of callbacks that follow a callback. -/
def Callback.rounds : Callback → Nat
  | .fetchHabit _ | .reload | .finished .. => 0
  | .fetchCounter => 1
  | .fetch => 2
  | .counterDone | .addHabit .. => 3
  | .deleteDone => 4

/-- A read that is not served yet ranks above the same read served. -/
def Pending.rank (p : Pending) : Nat :=
  2 * p.callback.rounds + if p.callback.isRead ∧ p.snapshot.isNone then 1 else 0

/-- The ranks of calls in flight. -/
def ranks (ps : List Pending) : Multiset Nat := (ps.map Pending.rank : List Nat)

theorem Pending.rank_bounds (p : Pending) :
    2 * p.callback.rounds ≤ p.rank ∧ p.rank ≤ 2 * p.callback.rounds + 1 := by
  unfold Pending.rank
  split <;> omega

theorem ranks_perm {ps qs : List Pending} (h : ps.Perm qs) : ranks ps = ranks qs :=
  Multiset.coe_eq_coe.mpr (h.map _)

@[simp] theorem ranks_cons (p : Pending) (ps : List Pending) :
    ranks (p :: ps) = p.rank ::ₘ ranks ps := rfl

@[simp] theorem ranks_append (ps qs : List Pending) : ranks (ps ++ qs) = ranks ps + ranks qs := by
  simp [ranks]

/-- A callback issues the calls of a refresh and the second callback of a
delete only, and they have fewer rounds to go.  Only the block that calls
`fetchFirebaseHabits` reads the counter. -/
theorem pending_of_callback (cb : Callback) (document : Option Store) (s : State) :
    ∃ cbs : List Callback, (cb.run document s).pending = s.pending ++ cbs.map ({ callback := · }) ∧
      (.fetchCounter ∈ cbs ↔ cb = .fetch) ∧
        ∀ cb' ∈ cbs, cb'.rounds < cb.rounds ∧ (cb'.isRefresh = true ∨ cb' = .counterDone) := by
  cases cb with
  | fetchCounter =>
    obtain ⟨n, hn⟩ := fetchCounterRead_pending document s
    refine ⟨_, hn, by simp, fun cb' hcb' => ?_⟩
    obtain ⟨k, _, rfl⟩ := List.mem_map.mp hcb'
    simp [Callback.rounds, Callback.isRefresh]
  | fetchHabit n =>
    refine ⟨[], ?_, by simp, by simp⟩
    simp only [Callback.run, fetchHabitRead]
    cases document with
    | none => simp
    | some doc => cases hread : doc.readHabit n <;> simp [hread]
  | deleteDone =>
    cases hglobal : s.indexPathGlobal with
    | none =>
      exact ⟨[], by simp [Callback.run, HabitCollection.deleteDone, hglobal], by simp, by simp⟩
    | some row =>
      refine ⟨[.counterDone], ?_, by simp, by simp [Callback.rounds]⟩
      simp [Callback.run, deleteDone_eq hglobal]
  | counterDone => exact ⟨[.fetch], rfl, by simp, by simp [Callback.rounds, Callback.isRefresh]⟩
  | fetch => exact ⟨[.fetchCounter], rfl, by simp, by simp [Callback.rounds, Callback.isRefresh]⟩
  | reload => exact ⟨[], by simp [Callback.run], by simp, by simp⟩
  | addHabit c habit =>
    simp only [Callback.run, CreateHabit.addHabitRead]
    cases s.creating[c]? with
    | none => exact ⟨[], by simp, by simp, by simp⟩
    | some form => exact ⟨[.fetch], rfl, by simp, by simp [Callback.rounds, Callback.isRefresh]⟩
  | finished row ident =>
    exact ⟨[], by simp [Callback.run, finishedRead_eq], by simp, by simp⟩

/-- Running a callback takes its rank out, and puts in smaller ones. -/
theorem ranks_callback {s : State} {i : Nat} {p : Pending} (hp : s.pending[i]? = some p)
    (document : Option Store) :
    (ranks (p.callback.run document (s.dropPending i)).pending).IsDershowitzMannaLT
      (ranks s.pending) := by
  obtain ⟨cbs, hpending, _, hcbs⟩ := pending_of_callback p.callback document (s.dropPending i)
  rw [hpending, ranks_append, ranks_perm (pending_perm hp), ranks_cons]
  refine Draining.lt_of_replace fun n hn => ?_
  obtain ⟨q, hq, rfl⟩ := List.mem_map.mp (Multiset.mem_coe.mp hn)
  obtain ⟨cb', hcb', rfl⟩ := List.mem_map.mp hq
  have hlt := (hcbs cb' hcb').1
  have hnew := (Pending.rank_bounds { callback := cb' }).2
  have hold := p.rank_bounds.1
  simp only at hnew
  omega

/-- Serving a read lowers its rank. -/
theorem ranks_serve (s : State) (i : Nat) :
    s.serve i = s ∨ (ranks (s.serve i).pending).IsDershowitzMannaLT (ranks s.pending) := by
  rcases serve_cases s i with hs | ⟨p, hp, hread, hnone, hs⟩
  · exact Or.inl hs
  · right
    rw [hs, ranks_perm (set_pending_perm hp _), ranks_perm (pending_perm hp), ranks_cons,
      ranks_cons, ← Multiset.singleton_add, add_comm]
    refine Draining.lt_of_replace fun n hn => ?_
    rw [Multiset.mem_singleton.mp hn]
    simp [Pending.rank, hread, hnone]

/-! ## Events that start nothing -/

/-- The events that may issue a call, and the relaunch. -/
def Event.calls : Event → Bool
  | .relaunch | .viewDidLoad | .viewWillAppear | .fetchFirebaseHabits | .deleteHabit
  | .didSelectItemAt .. | .addHabitButtonTapped _ | .editConfirmed _ => true
  | _ => false

/-- The calls of a session after an event that issues none. -/
theorem ranks_handle {e : Event} (he : e.calls = false) (s : State) :
    (handle s e).pending = s.pending ∨
      (ranks (handle s e).pending).IsDershowitzMannaLT (ranks s.pending) := by
  cases e with
  | serve i => exact (ranks_serve s i).imp_left fun hs => by rw [handle, hs]
  | deliver i =>
    simp only [handle]
    rcases deliver_cases s i with ⟨hs, _⟩ | ⟨p, hp, _, hs⟩ <;> rw [hs]
    · exact Or.inl rfl
    · exact Or.inr (ranks_callback hp p.snapshot)
  | fail i =>
    simp only [handle]
    rcases fail_cases s i with hs | ⟨p, hp, _, hs⟩ <;> rw [hs]
    · exact Or.inl rfl
    · exact Or.inr (ranks_callback hp none)
  | nextDay => exact Or.inl rfl
  | createTimeArray row ident time =>
    left
    simp only [handle, createTimeArray, returnTimeArray]
    split <;> rfl
  | showAlert row =>
    left
    simp only [handle, showAlert]
    split <;> rfl
  | _ => first
    | contradiction
    | exact Or.inl (screensOnly_of_event rfl s).pending

/-- While something is in flight, a read can be served or a call delivered. -/
theorem ranks_progress {s : State} (hne : s.pending ≠ []) :
    ∃ e, (e = Event.serve 0 ∨ e = .deliver 0) ∧
      (ranks (handle s e).pending).IsDershowitzMannaLT (ranks s.pending) := by
  obtain ⟨p, ps, hps⟩ := List.exists_cons_of_ne_nil hne
  have hp : s.pending[0]? = some p := by rw [hps]; rfl
  by_cases hserve : p.callback.isRead ∧ p.snapshot.isNone
  · refine ⟨.serve 0, Or.inl rfl, (ranks_serve s 0).resolve_left fun hsame => ?_⟩
    have hsnap := congrArg (fun s => s.pending[0]?.map Pending.snapshot) hsame
    simp only [State.serve, hps, List.getElem?_cons_zero, if_pos hserve, List.set_cons_zero,
      Option.map_some, Option.some.injEq] at hsnap
    simp [← hsnap] at hserve
  · refine ⟨.deliver 0, Or.inr rfl, ?_⟩
    rw [handle, State.deliver]
    simp only [hp, if_neg hserve]
    exact ranks_callback hp p.snapshot

namespace State

/-- What is in flight, as long as the process runs. -/
def held (s : State) : Option Fault × List Pending := (s.crashed, s.pending)

/-- A running process has one item of work that only its end takes out. -/
def work (s : State) : Multiset Nat := if s.crashed = none then 0 ::ₘ ranks s.pending else 0

/-- Something is in flight. -/
def Busy (h : Option Fault × List Pending) : Prop := h.1 = none ∧ h.2 ≠ []

theorem work_eq_of_held {s t : State} (h : s.held = t.held) : s.work = t.work := by
  obtain ⟨hcrashed, hpending⟩ := Prod.mk.inj h
  rw [work, work, hcrashed, hpending]

/-- Less in flight, or the end of the process. -/
theorem work_lt {s s' : State} (hrunning : s.crashed = none)
    (h : s'.crashed = none → (ranks s'.pending).IsDershowitzMannaLT (ranks s.pending)) :
    s'.work.IsDershowitzMannaLT s.work := by
  rw [work, work, if_pos hrunning]
  split_ifs with hend
  · exact Draining.lt_add_left {0} (h hend)
  · exact Draining.zero_lt Multiset.cons_ne_zero

theorem drains_step {e : Event} (he : e.calls = false) (s : State) :
    Draining.Drains HabitHive.step held work s e := by
  have hrelaunch : e ≠ .relaunch := fun h => by rw [h] at he; contradiction
  rw [Draining.Drains, HabitHive.step]
  split_ifs with hrunning
  · rcases ranks_handle he s with hsame | hlt
    · by_cases hend : (handle s e).crashed = none
      · exact Or.inl (by rw [held, held, hend, hrunning, hsame])
      · exact Or.inr (work_lt hrunning fun h => absurd h hend)
    · exact Or.inr (work_lt hrunning fun _ => hlt)
  · exact Or.inl rfl

end State

/-! ## The calls of a screen -/

/-- The events of a screen that may issue a call, and the relaunch.  The layout
of a row, which follows a reload of the view, is one of them. -/
def ScreenEvent.calls : ScreenEvent → Bool
  | .session e => e.calls
  | .cellForItemAt .. | .deleteHabit _ | .didSelectItemAt .. => true
  | _ => false

/-- A time read can still be served, and leaves a block at most. -/
def TimeRead.rank (r : TimeRead) : Nat := if r.snapshot.isNone then 2 else 1

theorem TimeRead.rank_pos (r : TimeRead) : 0 < r.rank := by
  unfold TimeRead.rank
  split <;> omega

namespace Screen

/-- The ranks of the time reads. -/
def readRanks (rs : List TimeRead) : Multiset Nat := (rs.map TimeRead.rank : List Nat)

/-- The ranks of all calls of a screen. -/
def flight (x : Screen) : Multiset Nat :=
  ranks x.session.pending + readRanks x.reads + Multiset.replicate x.blocks.length 0

/-- What is in flight, as long as the process runs. -/
def held (x : Screen) : (Option Fault × List Pending) × List TimeRead × List StartBlock :=
  (x.session.held, x.reads, x.blocks)

def work (x : Screen) : Multiset Nat := if x.session.crashed = none then 0 ::ₘ x.flight else 0

/-- A running process with a call or a block that waits. -/
def Busy (h : (Option Fault × List Pending) × List TimeRead × List StartBlock) : Prop :=
  h.1.1 = none ∧ (h.1.2 ≠ [] ∨ h.2 ≠ ([], []))

/-- Nothing is in flight in `x`, unless its process has ended. -/
def AtRest (x : Screen) : Prop :=
  x.session.crashed ≠ none ∨ x.session.pending = [] ∧ x.reads = [] ∧ x.blocks = []

instance (x : Screen) : Decidable x.AtRest := by
  unfold AtRest
  infer_instance

theorem not_busy_iff (x : Screen) : ¬Busy x.held ↔ x.AtRest := by
  unfold Busy AtRest held State.held
  simp only [Prod.mk.injEq, ne_eq]
  tauto

/-- Neither calls nor blocks change. -/
structure SameCalls (x y : Screen) : Prop where
  pending : y.session.pending = x.session.pending
  reads : y.reads = x.reads
  blocks : y.blocks = x.blocks

namespace SameCalls

variable {x y z : Screen}

theorem refl (x : Screen) : SameCalls x x := ⟨rfl, rfl, rfl⟩

theorem trans (h : SameCalls x y) (h' : SameCalls y z) : SameCalls x z :=
  ⟨h'.pending.trans h.pending, h'.reads.trans h.reads, h'.blocks.trans h.blocks⟩

end SameCalls

variable (x : Screen) (c row : Nat)

theorem sameCalls_startCountdown : SameCalls x (x.startCountdown c row false) := by
  rw [startCountdown_false]
  refine ⟨?_, rfl, rfl⟩
  simp only [stop, HabitCollection.createTimeArray, returnTimeArray]
  split <;> rfl

theorem sameCalls_handleLongPress : SameCalls x (x.handleLongPress row) := by
  refine rel_handleLongPress x row .refl .trans (fun _ _ => ⟨rfl, rfl, rfl⟩)
    (fun _ _ => ⟨rfl, rfl, rfl⟩) (fun x c => sameCalls_startCountdown x c row) fun x cs => ?_
  refine ⟨?_, rfl, rfl⟩
  simp only [HabitCollection.handleLongPress]
  split <;> rfl

/-- The habit of an alert is finished, so its time is not read. -/
theorem sameCalls_showAlert : SameCalls x (x.showAlert c row) := by
  rcases showAlert_cases x c row with ⟨f, h⟩ | ⟨habit, shown, hrow, _, h⟩
  · rw [h]
    exact ⟨rfl, rfl, rfl⟩
  · have hconfigure : ∀ y : Screen, SameCalls y (y.configure c (finished shown)) := by
      intro y
      rcases configure_cases y c (finished shown) with ⟨_, h⟩ | ⟨hadd, _⟩ | ⟨f, h⟩
      · rw [h]
        exact ⟨rfl, rfl, rfl⟩
      · contradiction
      · rw [h]
        exact ⟨rfl, rfl, rfl⟩
    have hcell : SameCalls x ((x.setCell c (alerted habit (x.cells c))).configure c
        (finished shown)) :=
      .trans (y := x.setCell c (alerted habit (x.cells c))) ⟨rfl, rfl, rfl⟩ (hconfigure _)
    rcases h with h | h <;> rw [h]
    · exact hcell
    · refine hcell.trans ⟨?_, rfl, rfl⟩
      simp only [HabitCollection.showAlert]
      split <;> rfl

theorem sameCalls_tick (id : Nat) : SameCalls x (x.tick id) :=
  rel_tick x .refl .trans id
    (fun c => rel_action x c .trans (fun _ _ => ⟨rfl, rfl, rfl⟩) (fun _ _ _ => ⟨rfl, rfl, rfl⟩)
      (fun _ _ => ⟨rfl, rfl, rfl⟩) fun y row => sameCalls_showAlert y c row)
    fun _ _ => ⟨rfl, rfl, rfl⟩

/-! ## The time reads -/

theorem flight_of_read {x y : Screen} {r : TimeRead} (hread : x.reads.Perm (r :: y.reads))
    (hpending : y.session.pending = x.session.pending)
    (hblocks : x.blocks.length ≤ y.blocks.length) :
    y.flight.IsDershowitzMannaLT x.flight := by
  obtain ⟨k, hk⟩ := Nat.exists_eq_add_of_le hblocks
  have hx : x.flight = r.rank ::ₘ
      (ranks x.session.pending + readRanks y.reads + Multiset.replicate x.blocks.length 0) := by
    have hranks : readRanks x.reads = r.rank ::ₘ readRanks y.reads :=
      Multiset.coe_eq_coe.mpr (hread.map TimeRead.rank)
    rw [flight, hranks, Multiset.add_cons, Multiset.cons_add]
  rw [hx, flight, hpending, hk, Multiset.replicate_add, ← add_assoc]
  refine Draining.lt_of_replace fun n hn => ?_
  rw [Multiset.eq_of_mem_replicate hn]
  exact r.rank_pos

theorem timeRead_pending (r : TimeRead) (document : Option Store) :
    (x.timeRead r document).session.pending = x.session.pending ∧
      (x.timeRead r document).reads = x.reads ∧ (x.timeRead r document).blocks = x.blocks := by
  rcases timeRead_cases x r document with ⟨_, h⟩ | ⟨f, h⟩ | ⟨doc, _, _, _, _, _, h⟩ <;>
    rw [h] <;> exact ⟨rfl, rfl, rfl⟩

theorem leaveGroup_length (r : TimeRead) : x.blocks.length ≤ (x.leaveGroup r).blocks.length := by
  unfold leaveGroup
  split <;> simp

theorem reads_perm {i : Nat} {r : TimeRead} (hr : x.reads[i]? = some r) :
    x.reads.Perm (r :: (x.dropRead i).reads) := by
  obtain ⟨hi, rfl⟩ := List.getElem?_eq_some_iff.mp hr
  exact (List.getElem_cons_eraseIdx_perm hi).symm

theorem flight_serveTime (i : Nat) :
    x.serveTime i = x ∨ (x.serveTime i).flight.IsDershowitzMannaLT x.flight := by
  unfold serveTime
  split
  · exact Or.inl rfl
  · next r hr =>
    split
    · next hnone =>
      right
      obtain ⟨hi, rfl⟩ := List.getElem?_eq_some_iff.mp hr
      have hset := List.set_perm_cons_eraseIdx hi
        ({ x.reads[i] with snapshot := some x.session.store } : TimeRead)
      have hold : readRanks x.reads = 2 ::ₘ readRanks (x.dropRead i).reads := by
        have hranks := Multiset.coe_eq_coe.mpr ((reads_perm x hr).map TimeRead.rank)
        simpa [readRanks, TimeRead.rank, hnone] using hranks
      have hnew : readRanks (x.reads.set i { x.reads[i] with snapshot := some x.session.store }) =
          readRanks (x.dropRead i).reads + {1} := by
        have hranks := Multiset.coe_eq_coe.mpr (hset.map TimeRead.rank)
        rw [add_comm, Multiset.singleton_add]
        simpa [readRanks, TimeRead.rank] using hranks
      rw [flight, flight, hold, hnew]
      refine Draining.lt_add_right _ (Draining.lt_add_left _
        (Draining.lt_of_replace fun n hn => ?_))
      rw [Multiset.mem_singleton.mp hn]
      exact Nat.one_lt_two
    · exact Or.inl rfl

theorem flight_deliverTime (i : Nat) :
    x.deliverTime i = x ∨ (x.deliverTime i).flight.IsDershowitzMannaLT x.flight := by
  unfold deliverTime
  split
  · exact Or.inl rfl
  · next r hr =>
    split
    · exact Or.inl rfl
    · obtain ⟨hpending, hreads, hblocks⟩ := timeRead_pending (x.dropRead i) r r.snapshot
      refine Or.inr (flight_of_read (r := r) ?_ ?_ ?_)
      · rw [leaveGroup_reads, hreads]
        exact reads_perm x hr
      · rw [leaveGroup_session, hpending]
        rfl
      · have hlength := leaveGroup_length ((x.dropRead i).timeRead r r.snapshot) r
        rwa [hblocks] at hlength

theorem flight_failTime (i : Nat) :
    x.failTime i = x ∨ (x.failTime i).flight.IsDershowitzMannaLT x.flight := by
  unfold failTime
  split
  · exact Or.inl rfl
  · next r hr =>
    refine Or.inr (flight_of_read (r := r) ?_ ?_ (leaveGroup_length (x.dropRead i) r))
    · rw [leaveGroup_reads]
      exact reads_perm x hr
    · rw [leaveGroup_session]
      rfl

/-- A block is gone once its timer is scheduled. -/
theorem flight_runBlock (i : Nat) :
    x.runBlock i = x ∨ (x.runBlock i).flight.IsDershowitzMannaLT x.flight := by
  unfold runBlock
  split
  · exact Or.inl rfl
  · next b hb =>
    right
    obtain ⟨hi, _⟩ := List.getElem?_eq_some_iff.mp hb
    have hlen : x.blocks.length = (x.blocks.eraseIdx i).length + 1 := by
      rw [List.length_eraseIdx_of_lt hi]
      omega
    have hx : x.flight = 0 ::ₘ (x.runBlock i).flight := by
      simp only [flight, runBlock, hb, startTimer]
      rw [hlen, Multiset.replicate_succ, Multiset.add_cons]
      rfl
    simp only [runBlock, hb] at hx
    rw [hx]
    simpa using Draining.lt_of_replace (a := 0) (M := _) (T := (0 : Multiset Nat)) (by simp)

/-! ## One step -/

/-- The calls of a running screen after an event that issues none. -/
theorem flight_handle {e : ScreenEvent} (he : e.calls = false)
    (hrunning : x.session.crashed = none) :
    SameCalls x (x.handle e) ∨ (x.handle e).flight.IsDershowitzMannaLT x.flight := by
  have hservice : ∀ {y : Screen}, y = x ∨ y.flight.IsDershowitzMannaLT x.flight →
      SameCalls x y ∨ y.flight.IsDershowitzMannaLT x.flight :=
    Or.imp_left fun h => h ▸ .refl x
  cases e with
  | session e =>
    have hrelaunch : e ≠ .relaunch := fun h => by rw [h] at he; contradiction
    simp only [handle, sessionEvent, if_neg hrelaunch]
    split
    · exact Or.inl (.refl x)
    · rw [step_of_running hrunning]
      refine (ranks_handle he x.session).imp (fun h => ⟨h, rfl, rfl⟩) fun hlt => ?_
      exact Draining.lt_add_right _ (Draining.lt_add_right _ hlt)
  | didEndDisplaying row => exact Or.inl ⟨rfl, rfl, rfl⟩
  | handleLongPress row => exact Or.inl (sameCalls_handleLongPress x row)
  | handlePressOnCollectionView =>
    exact Or.inl (rel_handlePressOnCollectionView x .refl .trans (fun _ _ => ⟨rfl, rfl, rfl⟩)
      fun _ => ⟨rfl, rfl, rfl⟩)
  | editHabit c =>
    simp only [handle, editHabit]
    split
    · have hsession := screensOnly_of_event (e := .editHabit) rfl x.session
      exact Or.inl ⟨hsession.pending, rfl, rfl⟩
    · exact Or.inl (.refl x)
  | tick id => exact Or.inl (sameCalls_tick x id)
  | serveTime i => exact hservice (flight_serveTime x i)
  | deliverTime i => exact hservice (flight_deliverTime x i)
  | failTime i => exact hservice (flight_failTime x i)
  | startTimer i => exact hservice (flight_runBlock x i)
  | _ => contradiction

variable {x}

theorem work_eq_of_held {y : Screen} (h : x.held = y.held) : x.work = y.work := by
  obtain ⟨hsession, hcalls⟩ := Prod.mk.inj h
  obtain ⟨hcrashed, hpending⟩ := Prod.mk.inj hsession
  obtain ⟨hreads, hblocks⟩ := Prod.mk.inj hcalls
  rw [work, work, flight, flight, hcrashed, hpending, hreads, hblocks]

theorem work_lt {y : Screen} (hrunning : x.session.crashed = none)
    (h : y.session.crashed = none → y.flight.IsDershowitzMannaLT x.flight) :
    y.work.IsDershowitzMannaLT x.work := by
  rw [work, work, if_pos hrunning]
  split_ifs with hend
  · exact Draining.lt_add_left {0} (h hend)
  · exact Draining.zero_lt Multiset.cons_ne_zero

theorem drains_step {e : ScreenEvent} (he : e.calls = false) (x : Screen) :
    Draining.Drains step held work x e := by
  have hrelaunch : e ≠ .session .relaunch := fun h => by rw [h] at he; contradiction
  rw [Draining.Drains, step]
  split_ifs with hrunning
  · rcases flight_handle x he hrunning with hsame | hlt
    · by_cases hend : (x.handle e).session.crashed = none
      · left
        rw [held, held, State.held, State.held, hend, hrunning, hsame.pending, hsame.reads,
          hsame.blocks]
      · exact Or.inr (work_lt hrunning fun h => absurd h hend)
    · exact Or.inr (work_lt hrunning fun _ => hlt)
  · exact Or.inl rfl

/-- Once nothing new is started, what is in flight changes finitely often,
whichever reads fail and whatever else happens in between; and if a screen with something in
flight moves sooner or later, it comes to rest. -/
theorem comes_to_rest (x : Screen) (e : ℕ → ScreenEvent) (he : ∀ n, (e n).calls = false) :
    (∃ n, ∀ m, n ≤ m →
      (Runs.trace step x e m).held = (Runs.trace step x e n).held) ∧
    ((∀ n, ¬(Runs.trace step x e n).AtRest →
        ∃ m, n ≤ m ∧ (Runs.trace step x e (m + 1)).held ≠ (Runs.trace step x e m).held) →
      ∃ n, ∀ m, n ≤ m → (Runs.trace step x e m).AtRest) := by
  have hdrains : ∀ (x : Screen) n, Draining.Drains step held work x (e n) :=
    fun x n => drains_step (he n) x
  have hwork : ∀ x y : Screen, x.held = y.held → x.work = y.work := fun _ _ => work_eq_of_held
  refine ⟨Draining.settles hwork hdrains, fun hfair => ?_⟩
  obtain ⟨n, hrest, hsame⟩ := Draining.rests hwork hdrains Busy fun n hbusy =>
    hfair n fun hrest => (not_busy_iff _).mpr hrest hbusy
  refine ⟨n, fun m hm => ?_⟩
  rw [← not_busy_iff, hsame m hm]
  exact hrest

/-- A countdown that was just started, with its time read in flight. -/
theorem comes_to_rest_started :
    let x := (loaded [.timed [0, 0, 0, 0, 0, 2]]).run [.didSelectItemAt 0 0 0]
    let e : ℕ → ScreenEvent := fun n =>
      (arrivals 2 1).getD n (.session .nextDay)
    x.reads ≠ [] ∧ ∃ n, ∀ m, n ≤ m → (Runs.trace step x e m).AtRest := by
  intro x e
  have hcalls : ∀ n, (e n).calls = false
    | 0 | 1 | 2 | 3 | 4 | _ + 5 => rfl
  have hidle : ∀ y : Screen, (step y (.session .nextDay)).held = y.held := by
    intro y
    by_cases hrunning : y.session.crashed = none
    · simp [step, handle, sessionEvent, Event.onCell, held, State.held, hrunning,
        HabitHive.step, HabitHive.handle]
    · simp [step, hrunning]
  refine ⟨by decide, (comes_to_rest x e hcalls).2 fun n hn => ?_⟩
  refine Draining.fair_of_rest held Busy (fun y _ => hidle y)
    ((not_busy_iff _).mpr (by decide)) n ?_
  rwa [← not_not (a := Busy _), not_busy_iff]

/-- The events of Firestore and of the main queue that take no failure. -/
def Served (e : ScreenEvent) : Prop :=
  e = .session (.serve 0) ∨ e = .session (.deliver 0) ∨ e = .serveTime 0 ∨ e = .deliverTime 0 ∨
    e = .startTimer 0

theorem progress {x : Screen} (h : ¬x.AtRest) :
    ∃ e, Served e ∧ (step x e).work.IsDershowitzMannaLT x.work := by
  rw [← not_busy_iff, not_not] at h
  obtain ⟨hrunning, hbusy⟩ : x.session.crashed = none ∧ _ := h
  have hstep : ∀ e, (x.handle e).flight.IsDershowitzMannaLT x.flight →
      (step x e).work.IsDershowitzMannaLT x.work := fun e hlt => by
    rw [step, if_pos hrunning]
    exact work_lt hrunning fun _ => hlt
  by_cases hpending : x.session.pending = []
  · by_cases hreads : x.reads = []
    · obtain ⟨b, bs, hbs⟩ := List.exists_cons_of_ne_nil
        (fun hblocks : x.blocks = [] => by simp_all [held, State.held])
      refine ⟨.startTimer 0, by simp [Served], hstep _ ((flight_runBlock x 0).resolve_left ?_)⟩
      intro hsame
      have hlen := congrArg (fun x : Screen => x.blocks.length) hsame
      simp [runBlock, hbs, startTimer] at hlen
    · obtain ⟨r, rs, hrs⟩ := List.exists_cons_of_ne_nil hreads
      by_cases hnone : r.snapshot.isNone
      · refine ⟨.serveTime 0, by simp [Served], hstep _ ((flight_serveTime x 0).resolve_left ?_)⟩
        intro hsame
        have hsnap := congrArg (fun x : Screen => x.reads[0]?.map TimeRead.snapshot) hsame
        simp only [serveTime, hrs, List.getElem?_cons_zero, if_pos hnone, List.set_cons_zero,
          Option.map_some, Option.some.injEq] at hsnap
        simp [← hsnap] at hnone
      · refine ⟨.deliverTime 0, by simp [Served],
          hstep _ ((flight_deliverTime x 0).resolve_left ?_)⟩
        intro hsame
        have hlen := congrArg (fun x : Screen => x.reads.length) hsame
        simp [deliverTime, hrs, hnone, timeRead_pending] at hlen
  · obtain ⟨e, he, hlt⟩ := ranks_progress hpending
    refine ⟨.session e, ?_, hstep _ ?_⟩
    · rcases he with rfl | rfl <;> simp [Served]
    · have hcell : e ≠ .relaunch ∧ e.onCell = false := by
        rcases he with rfl | rfl <;> simp [Event.onCell]
      simp only [handle, sessionEvent, if_neg hcell.1, hcell.2, Bool.false_eq_true, if_false]
      rw [step_of_running hrunning]
      exact Draining.lt_add_right _ (Draining.lt_add_right _ hlt)

/-- From any screen there is a finite schedule to rest in which no read
fails. -/
theorem exists_rest (x : Screen) :
    ∃ es : List ScreenEvent, (∀ e ∈ es, Served e) ∧ (x.run es).AtRest := by
  obtain ⟨es, hes, hrest⟩ := Draining.exists_rest (fun x => ¬AtRest x)
    (fun _ h => progress h) x
  exact ⟨es, hes, not_not.mp hrest⟩

end Screen

end HabitHive
