import HabitHive.CellTime
import HabitHive.Layout

/-!
# Time reads that fail

A failed read leaves the group all the same, and the block of the start
schedules the timer with whatever time the cell holds.  On a cell that was
never set the first tick is the alert.

`Lasts c R n x` says that what is scheduled or queued for the cell `c`,
which has ticked `n` times, does not show the alert before tick `R`.  It is
kept as long as the read of a start fails on cells only that hold `R`
seconds, and no read brings less (`ReadsLast`).  `alerts_after` is the
result.
-/

namespace HabitHive

/-- The remaining seconds that document `r` stores. -/
def Store.remaining (st : Store) (r : Nat) : Int := (st.storedTime r).elim 0 seconds

namespace Screen

/-- The time that a read brings.  A document without the field stands for
the time of the habit of the cell. -/
def brought (x : Screen) (r : TimeRead) (doc : Store) : Option (Int × Int × Int) :=
  (((doc.habits r.row).bind (·.fields.timeArray)).orElse
    fun _ => (x.cells r.cell).habitCell.map Habit.time).bind arrayTime

/-- What happens between a start and the alert: the reads come back or fail,
and timers are scheduled and tick. -/
def ReadOrTick : ScreenEvent → Prop
  | .serveTime _ | .deliverTime _ | .failTime _ | .startTimer _ | .tick _ => True
  | _ => False

/-- No read brings the cell less than `R` seconds, and where the read of a
start fails the cell holds them. -/
def ReadsLast (c : Nat) (R : Int) (x : Screen) : ScreenEvent → Prop
  | .deliverTime i => ∀ r ∈ x.reads[i]?, r.cell = c → ∀ doc ∈ r.snapshot,
      ∀ time ∈ x.brought r doc, R ≤ seconds time
  | .failTime i => ∀ r ∈ x.reads[i]?, r.cell = c → r.start = true →
      R ≤ seconds (x.cells c).time
  | _ => True

instance (e : ScreenEvent) : Decidable (ReadOrTick e) := by
  induction e using ScreenEvent.casesOn <;> unfold ReadOrTick <;> infer_instance

instance (c : Nat) (R : Int) (x : Screen) (e : ScreenEvent) : Decidable (ReadsLast c R x e) := by
  induction e using ScreenEvent.casesOn <;> unfold ReadsLast <;> infer_instance

/-- A read that comes back to the cell of a timed habit sets the time that
it brings, or ends the process. -/
theorem timeRead_brought (x : Screen) {r : TimeRead} (doc : Store)
    (hcounted : (x.cells r.cell).counted = some false) :
    (∃ f, x.timeRead r (some doc) = x.crash f) ∨
      ∃ time, x.brought r doc = some time ∧ x.timeRead r (some doc) =
        x.setCell r.cell (timed time.1 time.2.1 time.2.2 (doc.timeIdent r.row)
            (x.cells r.cell)) := by
  simp only [timeRead, hcounted, if_true, brought, Cell.readTime_eq]
  cases ((doc.habits r.row).bind (·.fields.timeArray)).orElse
      fun _ => (x.cells r.cell).habitCell.map Habit.time with
  | none => exact Or.inl ⟨_, rfl⟩
  | some result =>
    cases hresult : arrayTime result with
    | none => exact Or.inl ⟨_, by simp [hresult]; rfl⟩
    | some time => exact Or.inr ⟨time, by simp [hresult], by simp [hresult]; rfl⟩

/-- A start of the cell has its block queued. -/
def Queued (c : Nat) (x : Screen) : Prop := ∃ b ∈ x.blocks, b.cell = c

instance (c : Nat) (x : Screen) : Decidable (Queued c x) :=
  inferInstanceAs (Decidable (∃ b ∈ x.blocks, b.cell = c))

/-- What is scheduled for the cell does not end before tick `R`. -/
structure Lasts (c : Nat) (R : Int) (n : Nat) (x : Screen) : Prop where
  counted : (x.cells c).counted = some false
  lasts : Live c x ∨ Queued c x → R ≤ seconds (x.cells c).time + n

namespace Lasts

variable {c n m : Nat} {R : Int} {x y : Screen}

/-- A step that schedules nothing. -/
theorem mono (h : Lasts c R n x) (hcounted : (y.cells c).counted = (x.cells c).counted)
    (hlive : Live c y → Live c x ∨ Queued c x) (hqueued : Queued c y → Queued c x)
    (htime : seconds (x.cells c).time + n ≤ seconds (y.cells c).time + m) : Lasts c R m y where
  counted := hcounted.trans h.counted
  lasts hy := by
    have := h.lasts (hy.elim hlive fun hq => Or.inr (hqueued hq))
    omega

/-- A cell that holds the time. -/
theorem of_time (hcounted : (y.cells c).counted = some false)
    (htime : R ≤ seconds (y.cells c).time) : Lasts c R n y where
  counted := hcounted
  lasts _ := by omega

theorem serveTime (h : Lasts c R n x) (i : Nat) : Lasts c R n (x.serveTime i) := by
  have hsame : (x.serveTime i).cells = x.cells ∧ (x.serveTime i).timers = x.timers ∧
      (x.serveTime i).blocks = x.blocks := by
    unfold Screen.serveTime
    split
    · exact ⟨rfl, rfl, rfl⟩
    · split <;> exact ⟨rfl, rfl, rfl⟩
  obtain ⟨hcells, htimers, hblocks⟩ := hsame
  refine h.mono (by rw [hcells]) (fun hl => Or.inl ?_) (fun hq => ?_) (by rw [hcells])
  · rwa [Live, htimers] at hl
  · rwa [Queued, hblocks] at hq

theorem leaveGroup_queued {r : TimeRead} (hr : r.cell ≠ c) (hq : Queued c (x.leaveGroup r)) :
    Queued c x := by
  obtain ⟨b, hb, hbc⟩ := hq
  rcases mem_leaveGroup_blocks x r b hb with hb | ⟨_, hcell, _⟩
  · exact ⟨b, hb, hbc⟩
  · exact absurd (hcell.symm.trans hbc) hr

/-- A read that leaves the group without setting the time. -/
theorem leaveGroup (h : Lasts c R n x) {r : TimeRead}
    (hstart : r.cell = c → r.start = true → R ≤ seconds (x.cells c).time) :
    Lasts c R n (x.leaveGroup r) := by
  by_cases hr : r.cell = c ∧ r.start = true
  · exact .of_time (by rw [leaveGroup_cells, h.counted])
      (by rw [leaveGroup_cells]; exact hstart hr.1 hr.2)
  · refine h.mono (by rw [leaveGroup_cells]) (fun hl => Or.inl ?_) (fun hq => ?_)
      (by rw [leaveGroup_cells])
    · rwa [Live, leaveGroup_timers] at hl
    · by_cases hc : r.cell = c
      · have hblocks : (x.leaveGroup r).blocks = x.blocks := by
          rw [Screen.leaveGroup, if_neg fun hs => hr ⟨hc, hs⟩]
        rwa [Queued, hblocks] at hq
      · exact leaveGroup_queued hc hq

theorem drop (h : Lasts c R n x) (i : Nat) : Lasts c R n (x.dropRead i) := ⟨h.counted, h.lasts⟩

theorem failTime (h : Lasts c R n x) {i : Nat} (hok : ReadsLast c R x (.failTime i)) :
    Lasts c R n (x.failTime i) := by
  unfold Screen.failTime
  split
  · exact h
  · next r hr => exact (h.drop i).leaveGroup (hok r hr)

theorem deliverTime (h : Lasts c R n x) {i : Nat} (hok : ReadsLast c R x (.deliverTime i))
    (hrunning : (x.deliverTime i).session.crashed = none) : Lasts c R n (x.deliverTime i) := by
  unfold Screen.deliverTime at hrunning ⊢
  split
  · exact h
  · next r hr =>
    cases hsnap : r.snapshot with
    | none => simpa using h
    | some doc =>
      simp only [hr, hsnap] at hrunning
      by_cases hc : r.cell = c
      · subst hc
        rcases timeRead_brought (x.dropRead i) doc h.counted with ⟨f, hcrash⟩ | ⟨time, htime, hset⟩
        · simp [hcrash] at hrunning
        · have hlast : R ≤ seconds time := hok r hr rfl doc hsnap time htime
          have hheld : Lasts r.cell R n (Screen.timeRead r (some doc) (x.dropRead i)) := by
            rw [hset]
            exact .of_time (by simpa [timed] using h.counted) (by simpa using hlast)
          refine hheld.leaveGroup fun _ _ => ?_
          rw [hset]
          simpa using hlast
      · refine leaveGroup ?_ fun hcell => absurd hcell hc
        rcases timeRead_cases (x.dropRead i) r (some doc) with ⟨_, heq⟩ | ⟨f, heq⟩ |
          ⟨_, _, _, _, _, _, heq⟩ <;> rw [heq]
        · exact h.drop i
        · exact ⟨h.counted, h.lasts⟩
        · have hcell : ∀ cell, (((x.dropRead i).setCell r.cell cell).cells c) = x.cells c :=
            fun cell => Function.update_of_ne (Ne.symm hc) _ _
          exact (h.drop i).mono (by rw [hcell]; rfl) Or.inl id (by rw [hcell]; rfl)

/-- The block of a start schedules a timer, which was queued before. -/
theorem runBlock (h : Lasts c R n x) (i : Nat) : Lasts c R n (x.runBlock i) := by
  unfold Screen.runBlock
  split
  · exact h
  · next b hb =>
    have hview : ∀ {α : Type} (view : Cell → α),
        view { x.cells b.cell with timer := some x.nextTimer } = view (x.cells b.cell) →
        view (({ x with blocks := x.blocks.eraseIdx i }.startTimer b).cells c) = view (x.cells c) :=
      fun view h => setCell_view x b.cell view h c
    have hcounted := hview Cell.counted rfl
    have htime := hview Cell.time rfl
    refine h.mono hcounted (fun ⟨t, ht, hc⟩ => ?_)
      (fun ⟨q, hq, hc⟩ => ⟨q, List.mem_of_mem_eraseIdx hq, hc⟩) (by rw [htime])
    rcases List.mem_append.mp ht with ht | ht
    · exact Or.inl ⟨t, ht, hc⟩
    · rw [List.mem_singleton.mp ht] at hc
      exact Or.inr ⟨b, List.mem_of_getElem? hb, hc⟩

/-- A tick of the cell takes one second at most. -/
theorem action (h : Lasts c R n x) : Lasts c R (n + 1) (x.action c) := by
  refine h.mono (action_counted x c) (fun ⟨t, ht, hc⟩ =>
    Or.inl ⟨t, (keeps_action x c).timers t ht, hc⟩)
    (fun hq => ?_) ?_
  · rwa [Queued, action_blocks] at hq
  · rw [action_time]
    have := (x.cells c).seconds_countDown_ge
    split <;> push_cast <;> omega

theorem action_of_ne (h : Lasts c R n x) {d : Nat} (hd : c ≠ d) : Lasts c R n (x.action d) := by
  have hcell := Screen.action_of_ne x d hd
  refine h.mono (by rw [hcell]) (fun ⟨t, ht, hc⟩ => Or.inl ⟨t, (keeps_action x d).timers t ht, hc⟩)
    (fun hq => ?_) (by rw [hcell])
  rwa [Queued, action_blocks] at hq

theorem invalidate (h : Lasts c R n x) (ids : List Nat) : Lasts c R n (x.invalidate ids) :=
  h.mono rfl (fun ⟨t, ht, hc⟩ => Or.inl ⟨t, (keeps_invalidate x ids).timers t ht, hc⟩) id
    (Int.le_refl _)

/-- A tick of the cell shows the alert at zero only. -/
theorem tick (h : Lasts c R n x) (hrunning : x.session.crashed = none) (id : Nat) :
    Lasts c R (n + (ticked c x (.tick id)).length) (x.tick id) ∧
      ∀ b ∈ ticked c x (.tick id), b = true → R ≤ n := by
  cases ht : x.timers.find? fun t => t.id = id with
  | none => simpa [Screen.tick, ticked, hrunning, ht] using h
  | some t =>
    have hrepeats : ∀ {m : Nat}, Lasts c R m (x.action t.cell) →
        Lasts c R m (if t.repeats then x.action t.cell else (x.action t.cell).invalidate [id]) := by
      intro m hm
      split
      · exact hm
      · exact hm.invalidate [id]
    simp only [Screen.tick, ticked, hrunning, ht, if_true]
    by_cases hc : t.cell = c
    · subst hc
      rw [if_pos rfl]
      refine ⟨hrepeats h.action, fun b hb hbt => ?_⟩
      have hlast := h.lasts (Or.inl ⟨t, List.mem_of_find?_eq_some ht, rfl⟩)
      rw [List.mem_singleton.mp hb, Cell.alerts, Bool.and_eq_true] at hbt
      rwa [Cell.seconds_of_atZero _ hbt.1, Int.zero_add] at hlast
    · rw [if_neg hc]
      exact ⟨hrepeats (h.action_of_ne (Ne.symm hc)), by simp⟩

theorem step {e : ScreenEvent} (h : Lasts c R n x) (hrunning : x.session.crashed = none)
    (he : ReadOrTick e) (hok : ReadsLast c R x e) (hnext : (x.step e).session.crashed = none) :
    Lasts c R (n + (ticked c x e).length) (x.step e) := by
  have hstep : x.step e = x.handle e := if_pos hrunning
  rw [hstep] at hnext ⊢
  cases e with
  | serveTime i => exact h.serveTime i
  | deliverTime i => exact h.deliverTime hok hnext
  | failTime i => exact h.failTime hok
  | startTimer i => exact h.runBlock i
  | tick id => exact (h.tick hrunning id).1
  | _ => exact absurd he id

theorem le_of_alert {e : ScreenEvent} (h : Lasts c R n x) (hrunning : x.session.crashed = none)
    (halert : true ∈ ticked c x e) : R ≤ n := by
  cases e with
  | tick id => exact (h.tick hrunning id).2 true halert rfl
  | _ => simp [ticked] at halert

end Lasts

/-! ## Runs -/

/-- A screen whose process has ended shows no alert. -/
theorem ticked_of_crashed {c : Nat} {x : Screen} (h : x.session.crashed ≠ none)
    {es : List ScreenEvent}
    (hes : ∀ e ∈ es, ReadOrTick e) : Runs.observe Screen.step (ticked c) x es = [] := by
  refine (run_of_crashed c h fun e he hrelaunch => ?_).2
  have hread := hes e he
  rwa [hrelaunch] at hread

/-- In a run from a screen with `n` ticks behind it, the alert is not shown
before tick `R`. -/
theorem Lasts.alerts {c n : Nat} {R : Int} {x : Screen} {es : List ScreenEvent}
    (h : Lasts c R n x) (hes : ∀ e ∈ es, ReadOrTick e)
    (hok : Runs.Guarded Screen.step (ReadsLast c R) x es) (i : Nat)
    (halert : (Runs.observe Screen.step (ticked c) x es)[i]? = some true) : R ≤ (n + i : Nat) := by
  induction es generalizing x n i with
  | nil => simp at halert
  | cons e es ih =>
    by_cases hrunning : x.session.crashed = none
    · rw [Runs.observe_cons] at halert
      rcases Nat.lt_or_ge i (ticked c x e).length with hi | hi
      · rw [List.getElem?_append_left hi] at halert
        have hnow := h.le_of_alert hrunning (List.mem_of_getElem? halert)
        omega
      · rw [List.getElem?_append_right hi] at halert
        have hrest : ∀ e' ∈ es, ReadOrTick e' := fun e' he' => hes e' (by simp [he'])
        by_cases hnext : (x.step e).session.crashed = none
        · have hlast := ih (h.step hrunning (hes e (by simp)) hok.1 hnext) hrest hok.2 _ halert
          omega
        · rw [ticked_of_crashed hnext hrest] at halert
          simp at halert
    · rw [ticked_of_crashed hrunning hes] at halert
      simp at halert

/-- A start on the cell of a timed habit.  If nothing that is left over from
an earlier countdown of the cell ends before the remaining time, the read of
a start fails only where the cell holds the remaining time, and no read
brings less, then the alert comes after that many ticks at the earliest. -/
theorem alerts_after {x : Screen} {r c c₁ c₂ : Nat} {habit : Habit} {es : List ScreenEvent}
    (hrunning : x.session.crashed = none) (hshown : x.cellForItem r = some c)
    (hrow : x.session.habitArray[r]? = some habit) (htimed : habit.counted = false)
    (hadd : habit.addFirebase = true) (hcounted : (x.cells c).counted = some false)
    (hmenu : (x.cells c).deleteButtonHidden = true) (hstart : (x.cells c).startVar = false)
    (hfree : x.Free r c₁ ∧ x.Free r c₂) (hes : ∀ e ∈ es, ReadOrTick e)
    (hleft : Live c x ∨ Queued c x → x.session.store.remaining r ≤ seconds (x.cells c).time)
    (hok : Runs.Guarded step (ReadsLast c (x.session.store.remaining r))
      (x.step (.didSelectItemAt r c₁ c₂)) es) (i : Nat)
    (halert : (Runs.observe step (ticked c) (x.step (.didSelectItemAt r c₁ c₂)) es)[i]? =
      some true) : x.session.store.remaining r ≤ i := by
  have hbegin : Lasts c (x.session.store.remaining r) 0 (x.step (.didSelectItemAt r c₁ c₂)) := by
    rw [tap_timed x c r hrunning hfree hshown hrow htimed hadd hmenu, hstart, Bool.not_false,
      startCountdown_true]
    refine ⟨by simpa [started, saveDay] using hcounted, fun h => ?_⟩
    simpa [started, saveDay, Cell.time] using hleft h
  simpa using hbegin.alerts hes hok i halert

/-- Both reads of a new cell fail, and the first tick ends a countdown of ten
minutes. -/
theorem failed_reads_alert :
    let x := (loaded account).run [.failTime 0]
    let es : List ScreenEvent := [.failTime 1, .startTimer 0, .tick 0]
    x.session.crashed = none ∧ x.cellForItem 0 = some 0 ∧ (∀ e ∈ es, ReadOrTick e) ∧
      x.session.store.remaining 0 = 600 ∧
      ¬∀ i, (Runs.observe step (ticked 0) (x.step (.didSelectItemAt 0 0 0)) es)[i]? = some true →
        x.session.store.remaining 0 ≤ (i : Nat) := by
  refine ⟨by decide +kernel, by decide +kernel, by decide, by decide +kernel, fun h => ?_⟩
  exact absurd (h 0) (by decide +kernel)

/-- The read of the start of two seconds fails after the one of `configure`
came back, and the third tick shows the alert. -/
theorem alerts_after_failed_start :
    let x := (loaded [.timed [0, 0, 0, 0, 0, 2]]).run (arrivals 1 0)
    let es : List ScreenEvent := [.failTime 0, .startTimer 0, .tick 0, .tick 0, .tick 0]
    x.session.store.remaining 0 = 2 ∧
      Runs.observe step (ticked 0) (x.step (.didSelectItemAt 0 0 0)) es = [false, false, true] ∧
      ∀ i, (Runs.observe step (ticked 0) (x.step (.didSelectItemAt 0 0 0)) es)[i]? = some true →
        x.session.store.remaining 0 ≤ (i : Nat) :=
  ⟨by decide +kernel, by decide +kernel, fun i => alerts_after (by decide +kernel)
    (by decide +kernel)
    (show ((loaded [.timed [0, 0, 0, 0, 0, 2]]).run (arrivals 1 0)).session.habitArray[0]? =
      some ((Entry.timed [0, 0, 0, 0, 0, 2]).toHabit 0 0) by decide +kernel)
    (by decide) (by decide) (by decide +kernel) (by decide +kernel) (by decide +kernel)
    (by decide +kernel) (by decide) (by decide +kernel) (by decide +kernel) i⟩

end Screen

end HabitHive
