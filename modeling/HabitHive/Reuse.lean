import HabitHive.Layout

/-!
# Countdowns and the reuse of cells

A cell object is reused for other habits, while its timer, the reads of its
time and the blocks of its starts go on.  The ghost fields say which habit
each of these belongs to, and `Owned` says that it is the habit that the
cell shows.

`Apart` names the steps that could mix two habits: an object that is
configured for another habit while a countdown is left on it, a read that
is served from the document of another habit, fails, or comes back to a
cell that shows another habit by now, and a countdown that ends on a cell
whose row has moved.  In every run without them each countdown belongs to
the habit of its cell, and `showAlert` marks that habit.
-/

namespace HabitHive

namespace Screen

/-- No block and no read of a start is left on the cell, and no timer that
the cleanup would not stop. -/
def Clear (c : Nat) (x : Screen) : Prop :=
  ((∀ t ∈ x.timers, t.cell ≠ c) ∨ 1 < x.timerArray.length) ∧ (∀ b ∈ x.blocks, b.cell ≠ c) ∧
    ∀ r ∈ x.reads, r.cell = c → r.start = false

instance (c : Nat) (x : Screen) : Decidable (Clear c x) := inferInstanceAs (Decidable (_ ∧ _))

/-- The cell has the time of the habit, or a read of it is in flight. -/
def TimeKnown (c ident : Nat) (x : Screen) : Prop :=
  (x.cells c).timeIdent = some ident ∨ ∃ r ∈ x.reads, r.cell = c ∧ r.ident = some ident

instance (c ident : Nat) (x : Screen) : Decidable (TimeKnown c ident x) :=
  inferInstanceAs (Decidable (_ ∨ _))

/-- The object may be configured for the habit at the row.  It shows the
habit already, or it is clear.  And a timed habit that is finished, whose
time is not read, finds it there. -/
def Reusable (row c : Nat) (x : Screen) : Prop :=
  ∀ habit ∈ x.session.habitArray[row]?,
    (x.shownIdent c = some habit.ident ∨ Clear c x) ∧
      (habit.counted = true ∨ habit.addFirebase = true ∨ TimeKnown c habit.ident x)

instance (row c : Nat) (x : Screen) : Decidable (Reusable row c x) := by
  unfold Reusable
  infer_instance

/-- The objects that a tap on a row reloads it on. -/
def reloaded (row c₁ c₂ : Nat) (x : Screen) : List Nat :=
  match x.cellForItem row, x.session.habitArray[row]? with
  | some d, some habit =>
      if (x.cells d).deleteButtonHidden = false then [c₂]
      else if habit.addFirebase && habit.counted then
        if habit.currentCount < habit.goal then [c₁, c₂] else [c₂]
      else []
  | _, _ => []

/-- The cell of a read waits for another read, which is of the habit that it
shows. -/
def Awaits (i : Nat) (r : TimeRead) (x : Screen) : Prop :=
  ∃ r' ∈ (x.dropRead i).reads, r'.cell = r.cell ∧ r'.ident = x.shownIdent r.cell

instance (i : Nat) (r : TimeRead) (x : Screen) : Decidable (Awaits i r x) := by
  unfold Awaits
  infer_instance

/-- The read comes back to a cell that shows its habit, or no timed habit,
or the cell waits for another read with no countdown running.  A start
finds a timed habit. -/
def ComesBack (i : Nat) (r : TimeRead) (x : Screen) : Prop :=
  (r.ident = x.shownIdent r.cell ∨ (x.cells r.cell).counted ≠ some false ∨
    Awaits i r x ∧ (∀ t ∈ x.timers, t.cell ≠ r.cell) ∧ ∀ b ∈ x.blocks, b.cell ≠ r.cell) ∧
  (r.start = true → (x.cells r.cell).counted = some false)

instance (i : Nat) (r : TimeRead) (x : Screen) : Decidable (ComesBack i r x) :=
  inferInstanceAs (Decidable (_ ∧ _))

/-- The cell of a read that fails has the time of its habit already, or it
needs none yet. -/
def Harmless (i : Nat) (r : TimeRead) (x : Screen) : Prop :=
  (x.cells r.cell).timeIdent = x.shownIdent r.cell ∨
    r.start = false ∧ ((x.cells r.cell).counted ≠ some false ∨ Awaits i r x)

instance (i : Nat) (r : TimeRead) (x : Screen) : Decidable (Harmless i r x) :=
  inferInstanceAs (Decidable (_ ∨ _))

/-- The step mixes no two habits. -/
def Apart (x : Screen) : ScreenEvent → Prop
  | .cellForItemAt row c => Reusable row c x
  | .didSelectItemAt row c₁ c₂ => ∀ c ∈ x.reloaded row c₁ c₂, Reusable row c x
  | .serveTime i => ∀ r ∈ x.reads[i]?, x.session.store.timeIdent r.row = r.ident
  | .deliverTime i => ∀ r ∈ x.reads[i]?, ComesBack i r x
  | .failTime i => ∀ r ∈ x.reads[i]?, Harmless i r x
  | .tick id => ∀ t ∈ x.timers.find? (fun t => t.id = id), (x.cells t.cell).atZero = true →
      ∀ row ∈ (x.cells t.cell).indexPathCell, ∀ habit ∈ x.session.habitArray[row]?,
        x.shownIdent t.cell = some habit.ident
  | _ => True

instance (x : Screen) (e : ScreenEvent) : Decidable (Apart x e) := by
  induction e using ScreenEvent.casesOn <;> unfold Apart <;> infer_instance

/-- The cells of a running process keep their habits apart. -/
structure Own (x : Screen) : Prop where
  /-- every timer was started for the habit that its cell shows -/
  timers : ∀ t ∈ x.timers, t.ident = x.shownIdent t.cell
  /-- without a read in flight, the time of a cell is that of its habit -/
  time : ∀ c habit, (x.cells c).habitCell = some habit → habit.counted = false →
    (∀ r ∈ x.reads, r.cell ≠ c) → (x.cells c).timeIdent = some habit.ident

/-- A tick marks a habit as finished only when its timer was started for it
and the time that ran out was its own. -/
def OwnAlert (x : Screen) : ScreenEvent → Prop
  | .tick id => ∀ t ∈ x.timers.find? (fun t => t.id = id), (x.cells t.cell).atZero = true →
      ∀ row ∈ (x.cells t.cell).indexPathCell, ∀ habit ∈ x.session.habitArray[row]?,
        t.ident = some habit.ident ∧ (x.cells t.cell).timeIdent = some habit.ident
  | _ => True

instance (x : Screen) (e : ScreenEvent) : Decidable (OwnAlert x e) := by
  induction e using ScreenEvent.casesOn <;> unfold OwnAlert <;> infer_instance

/-! ## The invariant -/

/-- What belongs to a cell belongs to the habit that it shows. -/
structure Owned (x : Screen) : Prop where
  timers : ∀ t ∈ x.timers,
    t.ident = x.shownIdent t.cell ∧ (x.cells t.cell).timeIdent = x.shownIdent t.cell
  blocks : ∀ b ∈ x.blocks,
    b.ident = x.shownIdent b.cell ∧ (x.cells b.cell).timeIdent = x.shownIdent b.cell
  starts : ∀ r ∈ x.reads, r.start = true → r.ident = x.shownIdent r.cell
  served : ∀ r ∈ x.reads, ∀ doc, r.snapshot = some doc → doc.timeIdent r.row = r.ident
  counted : ∀ c habit, (x.cells c).habitCell = some habit → habit.counted = false →
    (x.cells c).counted = some false
  time : ∀ c habit, (x.cells c).habitCell = some habit → habit.counted = false →
    TimeKnown c habit.ident x

/-- The blocks, the reads and the times of the cells are the same. -/
structure Calm (x y : Screen) : Prop where
  blocks : y.blocks = x.blocks
  reads : y.reads = x.reads
  timeIdent : ∀ c, (y.cells c).timeIdent = (x.cells c).timeIdent

/-- No countdown is left on the cell. -/
structure Vacant (c : Nat) (x : Screen) : Prop where
  timers : ∀ t ∈ x.timers, t.cell ≠ c
  blocks : ∀ b ∈ x.blocks, b.cell ≠ c
  starts : ∀ r ∈ x.reads, r.cell = c → r.start = false

/-- The object is configured for the habit `ident`.  Its time may be read,
and nothing else is issued. -/
structure Configures (c ident : Nat) (x y : Screen) : Prop where
  other : ∀ d, d ≠ c → y.cells d = x.cells d
  shown : y.shownIdent c = some ident
  timeIdent : (y.cells c).timeIdent = (x.cells c).timeIdent
  keeps : Keeps x y
  blocks : y.blocks = x.blocks
  reads : ∀ r ∈ y.reads, r ∈ x.reads ∨ r.cell = c ∧ r.start = false ∧ r.snapshot = none
  grow : ∀ r ∈ x.reads, r ∈ y.reads

namespace Calm

variable {x y z : Screen}

theorem refl (x : Screen) : Calm x x := ⟨rfl, rfl, fun _ => rfl⟩

theorem trans (h : Calm x y) (h' : Calm y z) : Calm x z :=
  ⟨h'.blocks.trans h.blocks, h'.reads.trans h.reads,
    fun c => (h'.timeIdent c).trans (h.timeIdent c)⟩

theorem setCell (x : Screen) (c : Nat) (cell : Cell) (h : cell.timeIdent = (x.cells c).timeIdent) :
    Calm x (x.setCell c cell) := ⟨rfl, rfl, setCell_view x c Cell.timeIdent h⟩

end Calm

/-! ## Steps that read no time -/

section Calm

variable (x : Screen) (c row : Nat)

theorem calm_startCountdown : Calm x (x.startCountdown c row false) := by
  rw [startCountdown_false]
  have hcell := Calm.setCell x c (stopped (x.cells c)) rfl
  exact ⟨rfl, rfl, hcell.timeIdent⟩

theorem calm_crash (f : Fault) : Calm x (x.crash f) := ⟨rfl, rfl, fun _ => rfl⟩

theorem calm_handleLongPress : Calm x (x.handleLongPress row) :=
  rel_handleLongPress x row .refl .trans calm_crash (fun y c => .setCell y c _ rfl)
    (fun y c => calm_startCountdown y c row) fun _ _ => ⟨rfl, rfl, fun _ => rfl⟩

theorem calm_handlePressOnCollectionView : Calm x x.handlePressOnCollectionView :=
  rel_handlePressOnCollectionView x .refl .trans (fun y c => .setCell y c _ rfl)
    fun _ => ⟨rfl, rfl, fun _ => rfl⟩

/-- The habit that `showAlert` configures a cell for is finished. -/
theorem calm_showAlert : Calm x (x.showAlert c row) := by
  rcases showAlert_cases x c row with ⟨f, h⟩ | ⟨habit, shown, _, _, h⟩
  · rw [h]
    exact calm_crash x f
  · have hcell : Calm x ((x.setCell c (alerted habit (x.cells c))).configure c
        (finished shown)) := by
      refine (Calm.setCell x c (alerted habit (x.cells c)) rfl).trans ?_
      generalize x.setCell c (alerted habit (x.cells c)) = y
      have hshown : Calm y (y.setCell c (configured (finished shown) (y.cells c))) :=
        .setCell y c _ rfl
      rcases configure_cases y c (finished shown) with ⟨_, heq⟩ | ⟨hadd, _⟩ | ⟨f, heq⟩
      · rw [heq]
        exact hshown
      · exact absurd hadd (by simp [finished])
      · rw [heq]
        exact hshown.trans (calm_crash _ f)
    rcases h with h | h <;> rw [h]
    · exact hcell
    · exact hcell.trans ⟨rfl, rfl, fun _ => rfl⟩

theorem calm_invalidate (ids : List Nat) : Calm x (x.invalidate ids) := ⟨rfl, rfl, fun _ => rfl⟩

theorem calm_action : Calm x (x.action c) :=
  rel_action x c .trans calm_crash (fun _ _ _ => .setCell x c _ rfl) calm_invalidate
    fun y row => calm_showAlert y c row

theorem calm_tick (id : Nat) : Calm x (x.tick id) :=
  rel_tick x .refl .trans id (calm_action x) calm_invalidate

end Calm

/-! ## What an operation keeps -/

theorem shownIdent_eq (c : Nat) (x : Screen) :
    x.shownIdent c = ((x.cells c).habitCell.map Habit.kind).map Prod.fst := by
  rw [Option.map_map]
  rfl

theorem Steady.shownIdent {x y : Screen} (h : Steady x y) (c : Nat) :
    y.shownIdent c = x.shownIdent c := by
  rw [shownIdent_eq, shownIdent_eq, h.habitCell]

/-- The cell shows the same habit, of the same type. -/
theorem Steady.timed {x y : Screen} (h : Steady x y) {c : Nat} {habit : Habit}
    (hcell : (y.cells c).habitCell = some habit) :
    ∃ old, (x.cells c).habitCell = some old ∧ habit.kind = old.kind := by
  have hkind := h.habitCell c
  rw [hcell, Option.map_some] at hkind
  obtain ⟨old, hold, hkind⟩ := Option.map_eq_some_iff.mp hkind.symm
  exact ⟨old, hold, hkind.symm⟩

/-! ## Objects that fit a habit -/

/-- The object shows the habit, or no countdown is left on it after the
cleanup. -/
def Fits (ident c : Nat) (x : Screen) : Prop :=
  x.shownIdent c = some ident ∨ Vacant c x.invalidateAll

/-- The object fits the habit at the row, and its time is known. -/
def Suits (row c : Nat) (x : Screen) : Prop :=
  ∀ habit ∈ x.session.habitArray[row]?, Fits habit.ident c x ∧
    (habit.counted = true ∨ habit.addFirebase = true ∨ TimeKnown c habit.ident x)

theorem Vacant.mono {x y : Screen} {c : Nat} (h : Vacant c x)
    (htimers : ∀ t ∈ y.timers, t ∈ x.timers) (hblocks : y.blocks = x.blocks)
    (hreads : y.reads = x.reads) : Vacant c y where
  timers t ht := h.timers t (htimers t ht)
  blocks b hb := h.blocks b (hblocks ▸ hb)
  starts r hr := h.starts r (hreads ▸ hr)

/-- What the cleanup leaves on a cell depends on the timers and the calls. -/
theorem Vacant.cleanup {x y : Screen} {c : Nat} (h : Vacant c x.invalidateAll)
    (htimers : y.timers = x.timers) (harray : y.timerArray = x.timerArray)
    (hblocks : y.blocks = x.blocks) (hreads : y.reads = x.reads) : Vacant c y.invalidateAll := by
  refine h.mono (fun t ht => ?_) (by simp [hblocks]) (by simp [hreads])
  rwa [← invalidateAll_congr htimers harray]

/-- The cleanup stops every timer that is scheduled. -/
theorem Clear.vacant {x : Screen} {c : Nat} (h : Clear c x) (hsched : Scheduled x) :
    Vacant c x.invalidateAll := by
  obtain ⟨htimers, hblocks, hstarts⟩ := h
  refine ⟨fun t ht => ?_, by rwa [invalidateAll_blocks], by rwa [invalidateAll_reads]⟩
  rw [invalidateAll_timers] at ht
  split at ht
  · obtain ⟨hmem, hnot⟩ := List.mem_filter.mp ht
    exact absurd (hsched.mem t hmem) (of_decide_eq_true hnot)
  · next hlen => exact htimers.resolve_right hlen t ht

theorem Reusable.suits {x : Screen} {row c : Nat} (h : Reusable row c x) (hsched : Scheduled x) :
    Suits row c x := fun habit hrow =>
  ⟨(h habit hrow).1.imp_right fun hclear => hclear.vacant hsched, (h habit hrow).2⟩

theorem Suits.saveDay {x : Screen} {row c : Nat} (h : Suits row c x) : Suits row c x.saveDay :=
  fun habit hrow =>
    ⟨(h habit hrow).1.imp_right fun hvacant => hvacant.cleanup rfl rfl rfl rfl, (h habit hrow).2⟩

theorem suits_of_fits {x : Screen} {row c : Nat} {habit : Habit}
    (hrow : x.session.habitArray[row]? = some habit) (hcounted : habit.counted = true)
    (hfits : Fits habit.ident c x) : Suits row c x := by
  intro habit' hrow'
  obtain rfl := Option.some.inj (hrow.symm.trans hrow')
  exact ⟨hfits, Or.inl hcounted⟩

/-! ## The operations of a cell -/

namespace Owned

variable {x y : Screen}

theorem fresh (s : State) : Owned { session := s } := by
  constructor <;> simp

theorem own (h : Owned x) : Own x where
  timers t ht := (h.timers t ht).1
  time c habit hcell hcounted hreads := by
    rcases h.time c habit hcell hcounted with htime | ⟨r, hr, hc, _⟩
    · exact htime
    · exact absurd hc (hreads r hr)

/-- A step that leaves the reads, the blocks and what the cells show.  A new
timer is for the habit of its cell. -/
theorem schedules (h : Owned x) (hsteady : Steady x y) (hcalm : Calm x y)
    (htimers : ∀ t ∈ y.timers, t ∈ x.timers ∨
      t.ident = x.shownIdent t.cell ∧ (x.cells t.cell).timeIdent = x.shownIdent t.cell) :
    Owned y where
  timers t ht := by
    rw [hsteady.shownIdent, hcalm.timeIdent]
    exact (htimers t ht).elim (h.timers t) id
  blocks b hb := by
    rw [hsteady.shownIdent, hcalm.timeIdent]
    exact h.blocks b (hcalm.blocks ▸ hb)
  starts r hr hstart := by
    rw [hsteady.shownIdent]
    exact h.starts r (hcalm.reads ▸ hr) hstart
  served r hr := h.served r (hcalm.reads ▸ hr)
  counted c habit hcell hcounted := by
    obtain ⟨old, hold, hkind⟩ := hsteady.timed hcell
    rw [hsteady.counted]
    exact h.counted c old hold ((congrArg Prod.snd hkind).symm.trans hcounted)
  time c habit hcell hcounted := by
    obtain ⟨old, hold, hkind⟩ := hsteady.timed hcell
    have htime := h.time c old hold ((congrArg Prod.snd hkind).symm.trans hcounted)
    rw [show habit.ident = old.ident from congrArg Prod.fst hkind, TimeKnown, hcalm.timeIdent,
      hcalm.reads]
    exact htime

theorem calm (h : Owned x) (hsteady : Steady x y) (hkeeps : Keeps x y) (hcalm : Calm x y) :
    Owned y := h.schedules hsteady hcalm fun t ht => Or.inl (hkeeps.timers t ht)

/-- An object is configured for a habit that it shows already, or with
nothing left on it. -/
theorem configures (h : Owned x) {c ident : Nat} (hconf : Configures c ident x y)
    (hown : x.shownIdent c = some ident ∨ Vacant c y)
    (hcounted : ∀ habit, (y.cells c).habitCell = some habit → habit.counted = false →
      (y.cells c).counted = some false)
    (htime : ∀ habit, (y.cells c).habitCell = some habit → habit.counted = false →
      TimeKnown c habit.ident y) : Owned y := by
  obtain ⟨hother, hshown, hident, hkeeps, hblocks, hreads, hgrow⟩ := hconf
  have hshown' : ∀ d, d ≠ c → y.shownIdent d = x.shownIdent d := fun d hd => by
    rw [shownIdent, shownIdent, hother d hd]
  -- what is left on the object belongs to the habit, or nothing is left
  have hsame : ¬Vacant c y → y.shownIdent c = x.shownIdent c := fun hnot =>
    hown.elim (fun heq => hshown.trans heq.symm) fun hvacant => absurd hvacant hnot
  refine ⟨fun t ht => ?_, fun b hb => ?_, fun r hr hstart => ?_, fun r hr doc hdoc => ?_,
    fun d habit hcell hc => ?_, fun d habit hcell hc => ?_⟩
  · have hold := h.timers t (hkeeps.timers t ht)
    by_cases htc : t.cell = c
    · rw [htc] at hold ⊢
      rwa [hsame fun hvacant => hvacant.timers t ht htc, hident]
    · rwa [hshown' _ htc, hother _ htc]
  · have hold := h.blocks b (hblocks ▸ hb)
    by_cases hbc : b.cell = c
    · rw [hbc] at hold ⊢
      rwa [hsame fun hvacant => hvacant.blocks b hb hbc, hident]
    · rwa [hshown' _ hbc, hother _ hbc]
  · rcases hreads r hr with hold | ⟨_, hnew, _⟩
    · have hold := h.starts r hold hstart
      by_cases hrc : r.cell = c
      · rw [hrc] at hold ⊢
        have hno : ¬Vacant c y := fun hvacant => by simp [hvacant.starts r hr hrc] at hstart
        rwa [hsame hno]
      · rwa [hshown' _ hrc]
    · exact absurd (hstart.symm.trans hnew) (by simp)
  · rcases hreads r hr with hold | ⟨_, _, hnone⟩
    · exact h.served r hold doc hdoc
    · exact absurd (hdoc.symm.trans hnone) (by simp)
  · by_cases hd : d = c
    · subst hd
      exact hcounted habit hcell hc
    · rw [hother d hd] at hcell ⊢
      exact h.counted d habit hcell hc
  · by_cases hd : d = c
    · subst hd
      exact htime habit hcell hc
    · rw [hother d hd] at hcell
      rcases h.time d habit hcell hc with hold | ⟨r, hr, hrc, hri⟩
      · exact Or.inl (by rwa [hother d hd])
      · exact Or.inr ⟨r, hgrow r hr, hrc, hri⟩

/-- The cells, the timers and the calls of the screen are the same. -/
theorem same (h : Owned x) (hcells : y.cells = x.cells) (htimers : y.timers = x.timers)
    (hblocks : y.blocks = x.blocks) (hreads : y.reads = x.reads) : Owned y := by
  have hshown : ∀ c, y.shownIdent c = x.shownIdent c := fun c => by
    rw [shownIdent, shownIdent, hcells]
  constructor
  · simpa only [htimers, hshown, hcells] using h.timers
  · simpa only [hblocks, hshown, hcells] using h.blocks
  · simpa only [hreads, hshown] using h.starts
  · simpa only [hreads] using h.served
  · simpa only [hcells] using h.counted
  · simpa only [hcells, hreads, TimeKnown] using h.time

/-- A start reads the time of the habit that the cell shows. -/
theorem fetch (h : Owned x) (c row : Nat) : Owned (x.fetchTimeFromFirebase c row true) where
  timers := h.timers
  blocks := h.blocks
  starts r hr hstart := by
    rcases List.mem_append.mp hr with hr | hr
    · exact h.starts r hr hstart
    · rw [List.mem_singleton.mp hr]
      rfl
  served r hr doc hdoc := by
    rcases List.mem_append.mp hr with hr | hr
    · exact h.served r hr doc hdoc
    · rw [List.mem_singleton.mp hr] at hdoc
      exact absurd hdoc (by simp)
  counted := h.counted
  time d habit hcell hcounted := by
    rcases h.time d habit hcell hcounted with htime | ⟨r, hr, hrd, hri⟩
    · exact Or.inl htime
    · exact Or.inr ⟨r, List.mem_append_left _ hr, hrd, hri⟩

/-! ## Reloads -/

theorem cellForItemAt (h : Owned x) {row c : Nat} (hreuse : Suits row c x)
    (hrunning : (x.cellForItemAt row c).session.crashed = none) :
    Owned (x.cellForItemAt row c) := by
  cases hrow : x.session.habitArray[row]? with
  | none =>
    rw [cellForItemAt_of_none x c row hrow] at hrunning
    simp at hrunning
  | some habit =>
    obtain ⟨hown, hknown⟩ := hreuse habit hrow
    have hcell := cellForItemAt_cell x c row hrow
    have hident : ((x.cellForItemAt row c).cells c).timeIdent = (x.cells c).timeIdent := by
      simp [hcell, configured, laidOut, Cell.setMenu]
    -- the read of the time is issued for the habit, or the time is known
    have hcalls : (∀ r ∈ (x.cellForItemAt row c).reads,
        r ∈ x.reads ∨ r.cell = c ∧ r.start = false ∧ r.snapshot = none) ∧
        (∀ r ∈ x.reads, r ∈ (x.cellForItemAt row c).reads) ∧
        (habit.counted = false → TimeKnown c habit.ident (x.cellForItemAt row c)) := by
      rcases cellForItemAt_reads x c row hrow with ⟨hkind, hreads⟩ | hreads | hcrashed
      · rw [TimeKnown, hident, hreads]
        refine ⟨fun r hr => Or.inl hr, fun r hr => hr, fun hcounted => ?_⟩
        rw [hcounted] at hknown hkind
        rcases hknown with hc | hadd | hknown
        · exact absurd hc (by simp)
        · exact absurd hadd (by simpa using hkind)
        · exact hknown
      · rw [TimeKnown, hreads]
        refine ⟨fun r hr => ?_, fun r hr => List.mem_append_left _ hr,
          fun _ => Or.inr ⟨_, List.mem_append_right _ (List.mem_singleton.mpr rfl), rfl, rfl⟩⟩
        rcases List.mem_append.mp hr with hr | hr
        · exact Or.inl hr
        · rw [List.mem_singleton.mp hr]
          exact Or.inr ⟨rfl, rfl, rfl⟩
      · exact absurd hrunning hcrashed
    obtain ⟨hreads, hgrow, htime⟩ := hcalls
    have hshown : (x.cellForItemAt row c).shownIdent c = some habit.ident := by
      simp [shownIdent, hcell, configured, laidOut, Cell.setMenu]
    have hconf : Configures c habit.ident x (x.cellForItemAt row c) :=
      ⟨fun d hd => cellForItemAt_of_ne x c row hd, hshown, hident, keeps_cellForItemAt x c row,
        cellForItemAt_blocks x c row, hreads, hgrow⟩
    refine h.configures hconf ?_ ?_ ?_
    · refine hown.imp_right fun hvacant => ?_
      refine ⟨fun t ht => ?_, fun b hb => ?_, fun r hr hc => ?_⟩
      · rw [cellForItemAt_timers] at ht
        exact hvacant.timers t ht
      · rw [cellForItemAt_blocks, ← invalidateAll_blocks] at hb
        exact hvacant.blocks b hb
      · rcases hreads r hr with hold | ⟨_, hstart, _⟩
        · rw [← invalidateAll_reads] at hold
          exact hvacant.starts r hold hc
        · exact hstart
    · intro habit' hhabit hcounted
      rw [hcell] at hhabit ⊢
      obtain rfl : habit = habit' := Option.some.inj hhabit
      exact congrArg some hcounted
    · intro habit' hhabit hcounted
      rw [hcell] at hhabit
      obtain rfl : habit = habit' := Option.some.inj hhabit
      exact htime hcounted

/-- The completion configures a cell that shows the habit already. -/
theorem completeCounted (h : Owned x) {row d : Nat} {habit : Habit}
    (hshown : x.shownIdent d = some habit.ident) (hcounted : habit.counted = true) :
    Owned (x.completeCounted d row habit) := by
  have hsession : Owned { x with session := HabitCollection.completeCounted row habit x.session } :=
    h.same rfl rfl rfl rfl
  rcases completeCounted_cases x d row habit hcounted with heq | heq <;> rw [heq]
  · exact hsession
  · have hconf : Configures d habit.ident
        { x with session := HabitCollection.completeCounted row habit x.session }
        (setCell d (configured (completed habit) (x.cells d))
          { x with session := HabitCollection.completeCounted row habit x.session }) := by
      refine ⟨fun c hc => ?_, ?_, ?_, keeps_setCell _ d _ rfl, rfl, fun r hr => Or.inl hr,
        fun r hr => hr⟩
      · rw [setCell_cells, Function.update_of_ne hc]
      · simp [shownIdent, configured, completed, Cell.setMenu]
      · simp [configured, Cell.setMenu]
    have hcell : ∀ habit', ((setCell d (configured (completed habit) (x.cells d)) { x with
        session := HabitCollection.completeCounted row habit x.session }).cells d).habitCell =
          some habit' → habit'.counted ≠ false := by
      intro habit' hhabit
      rw [setCell_cells, Function.update_self] at hhabit
      rw [← Option.some.inj hhabit, completed, hcounted]
      simp
    exact hsession.configures hconf (Or.inl hshown)
      (fun habit' hhabit hc => absurd hc (hcell habit' hhabit))
      fun habit' hhabit hc => absurd hc (hcell habit' hhabit)

end Owned

/-! ## Taps -/

/-- What fits the habit in `x` still does in `y`. -/
structure Serves (ident : Nat) (x y : Screen) : Prop where
  shown : ∀ c, x.shownIdent c = some ident → y.shownIdent c = some ident
  vacant : ∀ c, Vacant c x.invalidateAll → Vacant c y.invalidateAll

namespace Serves

variable {x y z : Screen} {ident row c : Nat} {habit : Habit}

theorem trans (h : Serves ident x y) (h' : Serves ident y z) : Serves ident x z :=
  ⟨fun c hc => h'.shown c (h.shown c hc), fun c hc => h'.vacant c (h.vacant c hc)⟩

theorem fits (h : Serves ident x y) (hfits : Fits ident c x) : Fits ident c y :=
  hfits.imp (h.shown c) (h.vacant c)

theorem countUp (x : Screen) (row : Nat) (habit : Habit) : Serves ident x (x.countUp row habit) :=
  ⟨fun _ hc => hc, fun _ hc => hc.cleanup rfl rfl rfl rfl⟩

theorem cellForItemAt (hrow : x.session.habitArray[row]? = some habit)
    (hcounted : habit.counted = true) : Serves habit.ident x (x.cellForItemAt row c) := by
  refine ⟨fun d hd => ?_, fun d hd => hd.mono (fun t ht => ?_) (by simp) ?_⟩
  · by_cases hdc : d = c
    · subst hdc
      simp [shownIdent, cellForItemAt_cell x d row hrow, configured, Cell.setMenu]
    · rwa [shownIdent, cellForItemAt_of_ne x c row hdc]
  · rw [← cellForItemAt_timers x c row]
    exact (keeps_invalidateAll _).timers t ht
  · rw [invalidateAll_reads, invalidateAll_reads, (cellForItemAt_counted x c row hrow hcounted).2]

theorem completeCounted {d : Nat} (hcounted : habit.counted = true) :
    Serves habit.ident x (x.completeCounted d row habit) := by
  rcases completeCounted_cases x d row habit hcounted with heq | heq <;> rw [heq]
  · exact ⟨fun _ hc => hc, fun _ hc => hc.cleanup rfl rfl rfl rfl⟩
  · refine ⟨fun c hc => ?_, fun _ hc => hc.cleanup rfl rfl rfl rfl⟩
    by_cases hcd : c = d
    · simp [hcd, shownIdent, configured, completed, Cell.setMenu]
    · rw [shownIdent, setCell_cells, Function.update_of_ne hcd]
      exact hc

end Serves

theorem crashed_completeCounted (row : Nat) (habit : Habit) (s : State) :
    (HabitCollection.completeCounted row habit s).crashed = s.crashed := by
  unfold HabitCollection.completeCounted
  dsimp only
  split_ifs <;> rfl

namespace Owned

variable {x : Screen} {row c d c₁ c₂ : Nat} {habit : Habit}

theorem reloadCounted (h : Owned x) (hrunning : x.session.crashed = none)
    (hrow : x.session.habitArray[row]? = some habit) (hcounted : habit.counted = true)
    (hfits : Fits habit.ident c x) : Owned (x.cellForItemAt row c) := by
  refine h.cellForItemAt (suits_of_fits hrow hcounted hfits) ?_
  rw [(cellForItemAt_counted x c row hrow hcounted).1]
  exact hrunning

/-- The completion and the reload that ends a tap. -/
theorem completeReload (h : Owned x) (hrunning : x.session.crashed = none)
    (hrow : x.session.habitArray[row]? = some habit) (hcounted : habit.counted = true)
    (hshown : x.shownIdent d = some habit.ident) (hfits : Fits habit.ident c₂ x) :
    Owned ((x.completeCounted d row habit).cellForItemAt row c₂) := by
  have hsession := completeCounted_session x d row habit hcounted
  obtain ⟨habit', hrow', hkind⟩ := row_completeCounted hrow
  rw [← hsession] at hrow'
  have hident : habit'.ident = habit.ident := congrArg Prod.fst hkind
  refine (h.completeCounted hshown hcounted).reloadCounted ?_ hrow'
    ((congrArg Prod.snd hkind).trans hcounted) ?_
  · rw [hsession, crashed_completeCounted]
    exact hrunning
  · rw [hident]
    exact (Serves.completeCounted hcounted).fits hfits

theorem tapCounted (h : Owned x) (hlaid : Laid x) (hrunning : x.session.crashed = none)
    (hd : x.cellForItem row = some d) (hrow : x.session.habitArray[row]? = some habit)
    (hcounted : habit.counted = true)
    (hreuse : ∀ c ∈ if habit.currentCount < habit.goal then [c₁, c₂] else [c₂],
      Suits row c x) : Owned (x.tapCounted d row c₁ c₂ habit) := by
  -- the cell that is tapped shows the habit of the row
  have hshown : x.shownIdent d = some habit.ident := by
    rw [shownIdent_eq, (hlaid.habit _ (mem_of_cellForItem hd) habit hrow).1]
    rfl
  by_cases hcount : habit.currentCount < habit.goal
  · rw [tapCounted_of_lt x row hcount]
    rw [if_pos hcount] at hreuse
    have hident : habit.incremented.ident = habit.ident := congrArg Prod.fst habit.kind_incremented
    have hcounted' : habit.incremented.counted = true :=
      (congrArg Prod.snd habit.kind_incremented).trans hcounted
    have hup : Serves habit.ident x (x.countUp row habit.incremented) := .countUp x row _
    have hrow' : (x.countUp row habit.incremented).session.habitArray[row]? =
        some habit.incremented := List.getElem?_set_self (List.getElem?_eq_some_iff.mp hrow).1
    have hreload : Serves habit.ident (x.countUp row habit.incremented)
        ((x.countUp row habit.incremented).cellForItemAt row c₁) := by
      rw [← hident]
      exact .cellForItemAt hrow' hcounted'
    have hsame := (cellForItemAt_counted (x.countUp row habit.incremented) c₁ row hrow' hcounted').1
    have howned : Owned (x.countUp row habit.incremented) := h.same rfl rfl rfl rfl
    refine (howned.reloadCounted hrunning hrow' hcounted' ?_).completeReload ?_ ?_ hcounted' ?_ ?_
    · rw [hident]
      exact hup.fits (hreuse c₁ (by simp) habit hrow).1
    · rw [hsame]
      exact hrunning
    · rw [cellForItemAt_habitArray]
      exact hrow'
    · rw [hident]
      exact (hup.trans hreload).shown d hshown
    · rw [hident]
      exact (hup.trans hreload).fits (hreuse c₂ (by simp) habit hrow).1
  · rw [tapCounted_of_not_lt x row hcount]
    rw [if_neg hcount] at hreuse
    exact h.completeReload hrunning hrow hcounted hshown (hreuse c₂ (by simp) habit hrow).1

theorem startCountdown (h : Owned x) (c row : Nat) (start : Bool) :
    Owned (x.startCountdown c row start) := by
  cases start
  · exact h.calm (steady_startCountdown x c row false) (keeps_startCountdown x c row false)
      (calm_startCountdown x c row)
  · rw [startCountdown_true]
    have hstarted : Owned (x.setCell c (started (x.cells c))) :=
      h.calm (steady_setCell x c _ rfl rfl) (keeps_setCell x c _ rfl) (.setCell x c _ rfl)
    exact hstarted.fetch c row

theorem didSelectItemAt (h : Owned x) (hlaid : Laid x) (hrunning : x.session.crashed = none)
    (hreuse : ∀ c ∈ x.reloaded row c₁ c₂, Suits row c x)
    (hrun : (x.didSelectItemAt row c₁ c₂).session.crashed = none) :
    Owned (x.didSelectItemAt row c₁ c₂) := by
  have hday : Owned x.saveDay := h.same rfl rfl rfl rfl
  rcases didSelectItemAt_cases x row c₁ c₂ with heq | heq | ⟨d, habit, hshown, hrow, htap⟩
  · rwa [heq]
  · rw [heq]
    exact hday.same rfl rfl rfl rfl
  · generalize x.didSelectItemAt row c₁ c₂ = y at htap hrun ⊢
    cases htap with
    | finished => exact hday
    | menu hmenu =>
      refine hday.cellForItemAt (Suits.saveDay (hreuse c₂ ?_)) hrun
      simp [reloaded, hshown, hrow, hmenu]
    | start => exact hday.startCountdown d row true
    | stop => exact hday.startCountdown d row false
    | counted hmenu hadd hcounted =>
      have hlaid' : Laid x.saveDay := hlaid.steady (steady_session x rfl)
      refine hday.tapCounted hlaid' hrunning hshown hrow hcounted fun c hc => ?_
      refine Suits.saveDay (hreuse c ?_)
      simpa [reloaded, hshown, hrow, hmenu, hadd, hcounted] using hc

end Owned

/-! ## The reads and the blocks -/

namespace Owned

variable {x y : Screen}

theorem serveTime (h : Owned x) (i : Nat)
    (hok : ∀ r ∈ x.reads[i]?, x.session.store.timeIdent r.row = r.ident) :
    Owned (x.serveTime i) := by
  unfold Screen.serveTime
  split
  · exact h
  · next r hr =>
    split
    · have hmem : ∀ r' ∈ x.reads.set i { r with snapshot := some x.session.store },
          r' ∈ x.reads ∨ r' = { r with snapshot := some x.session.store } :=
        fun _ hr' => List.mem_or_eq_of_mem_set hr'
      have hread : r ∈ x.reads := List.mem_of_getElem? hr
      refine ⟨h.timers, h.blocks, fun r' hr' hstart => ?_, fun r' hr' doc hdoc => ?_, h.counted,
        fun c habit hcell hcounted => ?_⟩
      · rcases hmem r' hr' with hold | rfl
        · exact h.starts r' hold hstart
        · exact h.starts r hread hstart
      · rcases hmem r' hr' with hold | rfl
        · exact h.served r' hold doc hdoc
        · rw [← Option.some.inj hdoc]
          exact hok r hr
      · rcases h.time c habit hcell hcounted with htime | ⟨r', hr', hrc, hri⟩
        · exact Or.inl htime
        · obtain ⟨j, hj⟩ := List.mem_iff_getElem?.mp hr'
          by_cases hij : i = j
          · subst hij
            obtain rfl := Option.some.inj (hr.symm.trans hj)
            exact Or.inr ⟨_, List.mem_set (List.getElem?_eq_some_iff.mp hr).1 _, hrc, hri⟩
          · refine Or.inr ⟨r', List.mem_of_getElem? (i := j) ?_, hrc, hri⟩
            rwa [List.getElem?_set_ne hij]
    · exact h

/-- A read leaves, and a start queues its block.  The cell has the time of
its habit now, or no block is queued and no countdown uses the time. -/
theorem returned (h : Owned x) (hsteady : Steady x y) (hkeeps : Keeps x y) {i : Nat}
    {r : TimeRead} (hr : x.reads[i]? = some r) (hreads : y.reads = (x.dropRead i).reads)
    (hblocks : ∀ b ∈ y.blocks,
      b ∈ x.blocks ∨ r.start = true ∧ b.cell = r.cell ∧ b.ident = r.ident)
    (hother : ∀ c, c ≠ r.cell → (y.cells c).timeIdent = (x.cells c).timeIdent)
    (hcell : (y.cells r.cell).timeIdent = x.shownIdent r.cell ∨
      r.start = false ∧
        ((y.cells r.cell).timeIdent = (x.cells r.cell).timeIdent ∨
          (∀ t ∈ x.timers, t.cell ≠ r.cell) ∧ ∀ b ∈ x.blocks, b.cell ≠ r.cell) ∧
        ((x.cells r.cell).counted ≠ some false ∨
          ∃ r' ∈ (x.dropRead i).reads, r'.cell = r.cell ∧ r'.ident = x.shownIdent r.cell)) :
    Owned y := by
  have hmem : ∀ r' ∈ y.reads, r' ∈ x.reads := fun r' hr' =>
    List.mem_of_mem_eraseIdx (hreads ▸ hr')
  -- a cell with a countdown keeps the time of its habit
  have hkept : ∀ c, (∃ t ∈ x.timers, t.cell = c) ∨ (∃ b ∈ x.blocks, b.cell = c) →
      (x.cells c).timeIdent = x.shownIdent c → (y.cells c).timeIdent = x.shownIdent c := by
    intro c hused htime
    by_cases hc : c = r.cell
    · subst hc
      rcases hcell with hown | ⟨_, heq | ⟨hno, hno'⟩, _⟩
      · exact hown
      · exact heq.trans htime
      · rcases hused with ⟨t, ht, htc⟩ | ⟨b, hb, hbc⟩
        · exact absurd htc (hno t ht)
        · exact absurd hbc (hno' b hb)
    · rw [hother c hc, htime]
  refine ⟨fun t ht => ?_, fun b hb => ?_, fun r' hr' hstart => ?_, fun r' hr' => ?_,
    fun c habit hhabit hcounted => ?_, fun c habit hhabit hcounted => ?_⟩
  · rw [hsteady.shownIdent]
    obtain ⟨hident, htime⟩ := h.timers t (hkeeps.timers t ht)
    exact ⟨hident, hkept t.cell (Or.inl ⟨t, hkeeps.timers t ht, rfl⟩) htime⟩
  · rw [hsteady.shownIdent]
    rcases hblocks b hb with hold | ⟨hstart, hbc, hident⟩
    · obtain ⟨hident, htime⟩ := h.blocks b hold
      exact ⟨hident, hkept b.cell (Or.inr ⟨b, hold, rfl⟩) htime⟩
    · rw [hbc, hident]
      refine ⟨h.starts r (List.mem_of_getElem? hr) hstart, ?_⟩
      rcases hcell with hown | ⟨hno, _⟩
      · exact hown
      · exact absurd (hstart.symm.trans hno) (by simp)
  · rw [hsteady.shownIdent]
    exact h.starts r' (hmem r' hr') hstart
  · exact h.served r' (hmem r' hr')
  · obtain ⟨old, hold, hkind⟩ := hsteady.timed hhabit
    rw [hsteady.counted]
    exact h.counted c old hold ((congrArg Prod.snd hkind).symm.trans hcounted)
  · obtain ⟨old, hold, hkind⟩ := hsteady.timed hhabit
    have hcounted : old.counted = false := (congrArg Prod.snd hkind).symm.trans hcounted
    rw [show habit.ident = old.ident from congrArg Prod.fst hkind, TimeKnown, hreads]
    have hshown : x.shownIdent c = some old.ident := by rw [shownIdent, hold, Option.map_some]
    by_cases hc : c = r.cell
    · subst hc
      rcases hcell with hown | ⟨_, _, hnot | hother⟩
      · exact Or.inl (hown.trans hshown)
      · exact absurd (h.counted r.cell old hold hcounted) hnot
      · exact Or.inr (hshown ▸ hother)
    · rw [hother c hc]
      -- the read that the cell waits for is another one
      rcases h.time c old hold hcounted with htime | ⟨r', hr', hrc, hri⟩
      · exact Or.inl htime
      · obtain ⟨j, hj⟩ := List.mem_iff_getElem?.mp hr'
        refine Or.inr ⟨r', List.mem_eraseIdx_iff_getElem?.mpr ⟨j, fun hji => hc ?_, hj⟩, hrc, hri⟩
        rw [hji, hr] at hj
        rw [Option.some.inj hj, hrc]

theorem deliverTime (h : Owned x) (i : Nat)
    (hok : ∀ r ∈ x.reads[i]?, ComesBack i r x)
    (hrun : (x.deliverTime i).session.crashed = none) : Owned (x.deliverTime i) := by
  cases hr : x.reads[i]? with
  | none => simpa [Screen.deliverTime, hr] using h
  | some r =>
    cases hsnapshot : r.snapshot with
    | none => simpa [Screen.deliverTime, hr, hsnapshot] using h
    | some doc =>
      have heq : x.deliverTime i = ((x.dropRead i).timeRead r (some doc)).leaveGroup r := by
        simp [Screen.deliverTime, hr, hsnapshot]
      have hsteady := steady_deliverTime x i
      have hkeeps := keeps_deliverTime x i
      obtain ⟨hback, hstart⟩ := hok r hr
      have hread : r ∈ x.reads := List.mem_of_getElem? hr
      rw [heq] at hrun hsteady hkeeps ⊢
      rcases timeRead_cases (x.dropRead i) r (some doc) with
        ⟨hnone | hcounted, hsame⟩ | ⟨f, hcrash⟩ | ⟨doc', _, _, _, hdoc, hcounted, hset⟩
      · exact absurd hnone (by simp)
      · rw [hsame] at hrun hsteady hkeeps ⊢
        have hno : r.start = false :=
          Bool.eq_false_of_not_eq_true fun htrue => hcounted (hstart htrue)
        refine h.returned hsteady hkeeps hr (leaveGroup_reads _ r) (mem_leaveGroup_blocks _ r)
          (fun c _ => by simp) (Or.inr ⟨hno, Or.inl (by simp), Or.inl hcounted⟩)
      · rw [hcrash] at hrun
        simp at hrun
      · rw [hset] at hrun hsteady hkeeps ⊢
        obtain rfl := Option.some.inj hdoc
        have htime : doc.timeIdent r.row = r.ident := h.served r hread doc hsnapshot
        refine h.returned hsteady hkeeps hr (leaveGroup_reads _ r) (mem_leaveGroup_blocks _ r)
          (fun c hc => by simp [Function.update_of_ne hc]) ?_
        rcases hback with hown | hnot | ⟨hwaits, hno⟩
        · exact Or.inl (by simp [timed, htime, hown])
        · exact absurd hcounted hnot
        · by_cases hown : r.ident = x.shownIdent r.cell
          · exact Or.inl (by simp [timed, htime, hown])
          · have hnostart : r.start = false :=
              Bool.eq_false_of_not_eq_true fun htrue => hown (h.starts r hread htrue)
            exact Or.inr ⟨hnostart, Or.inr hno, Or.inr hwaits⟩

theorem failTime (h : Owned x) (i : Nat) (hok : ∀ r ∈ x.reads[i]?, Harmless i r x) :
    Owned (x.failTime i) := by
  cases hr : x.reads[i]? with
  | none => simpa [Screen.failTime, hr] using h
  | some r =>
    have heq : x.failTime i = (x.dropRead i).leaveGroup r := by simp [Screen.failTime, hr]
    have hsteady := steady_failTime x i
    have hkeeps := keeps_failTime x i
    rw [heq] at hsteady hkeeps ⊢
    refine h.returned hsteady hkeeps hr (leaveGroup_reads _ r) (mem_leaveGroup_blocks _ r)
      (fun c _ => by simp) ?_
    rcases hok r hr with hown | ⟨hstart, hneeds⟩
    · exact Or.inl (by simpa using hown)
    · exact Or.inr ⟨hstart, Or.inl (by simp), hneeds⟩

/-- The timer of a start belongs to the habit of its block. -/
theorem startTimer (h : Owned x) {b : StartBlock} (hident : b.ident = x.shownIdent b.cell)
    (htime : (x.cells b.cell).timeIdent = x.shownIdent b.cell) : Owned (x.startTimer b) := by
  have hcell := Calm.setCell x b.cell { x.cells b.cell with timer := some x.nextTimer } rfl
  refine h.schedules (steady_startTimer x b) ⟨rfl, rfl, hcell.timeIdent⟩ fun t ht => ?_
  rcases List.mem_append.mp ht with hold | hnew
  · exact Or.inl hold
  · rw [List.mem_singleton.mp hnew]
    exact Or.inr ⟨hident, htime⟩

theorem runBlock (h : Owned x) (i : Nat) : Owned (x.runBlock i) := by
  unfold Screen.runBlock
  split
  · exact h
  · next b hb =>
    have hdrop : Owned { x with blocks := x.blocks.eraseIdx i } :=
      ⟨h.timers, fun b' hb' => h.blocks b' (List.mem_of_mem_eraseIdx hb'), h.starts, h.served,
        h.counted, h.time⟩
    obtain ⟨hident, htime⟩ := h.blocks b (List.mem_of_getElem? hb)
    exact hdrop.startTimer hident htime

/-! ## One step -/

theorem sessionEvent (h : Owned x) (e : Event) : Owned (x.sessionEvent e) := by
  unfold Screen.sessionEvent
  split
  · exact fresh _
  · split
    · exact h
    · exact h.same rfl rfl rfl rfl

theorem deleteHabit (h : Owned x) (c : Nat) : Owned (x.deleteHabit c) := by
  unfold Screen.deleteHabit
  split
  · split
    · exact h.same rfl rfl rfl rfl
    · split
      · exact h.same rfl rfl rfl rfl
      · exact h.same rfl rfl rfl rfl
  · exact h

theorem editHabit (h : Owned x) (c : Nat) : Owned (x.editHabit c) := by
  unfold Screen.editHabit
  split
  · exact h.same rfl rfl rfl rfl
  · exact h

theorem handle (h : Owned x) (hsched : Scheduled x) (hlaid : Laid x)
    (hrunning : x.session.crashed = none) {e : ScreenEvent} (hok : Apart x e)
    (hrun : (x.handle e).session.crashed = none) : Owned (x.handle e) := by
  cases e with
  | session e => exact h.sessionEvent e
  | cellForItemAt row c =>
    simp only [Screen.handle] at hrun ⊢
    by_cases hfree : x.Free row c
    · rw [if_pos hfree] at hrun ⊢
      exact h.cellForItemAt (Reusable.suits hok hsched) hrun
    · rwa [if_neg hfree]
  | didEndDisplaying row => exact h.same rfl rfl rfl rfl
  | handleLongPress row =>
    exact h.calm (steady_handleLongPress x row) (keeps_handleLongPress x row)
      (calm_handleLongPress x row)
  | handlePressOnCollectionView =>
    exact h.calm (steady_handlePressOnCollectionView x) (keeps_handlePressOnCollectionView x)
      (calm_handlePressOnCollectionView x)
  | deleteHabit c => exact h.deleteHabit c
  | editHabit c => exact h.editHabit c
  | didSelectItemAt row c₁ c₂ =>
    simp only [Screen.handle] at hrun ⊢
    by_cases hfree : x.Free row c₁ ∧ x.Free row c₂
    · rw [if_pos hfree] at hrun ⊢
      exact h.didSelectItemAt hlaid hrunning (fun c hc => (hok c hc).suits hsched) hrun
    · rwa [if_neg hfree]
  | tick id => exact h.calm (steady_tick x id) (keeps_tick x id) (calm_tick x id)
  | serveTime i => exact h.serveTime i hok
  | deliverTime i => exact h.deliverTime i hok hrun
  | failTime i => exact h.failTime i hok
  | startTimer i => exact h.runBlock i

/-- A countdown that ends has counted the time of the habit that it
marks. -/
theorem ownAlert (h : Owned x) {e : ScreenEvent} (hok : Apart x e) : OwnAlert x e := by
  cases e with
  | tick id =>
    intro t ht hzero row habit hindex hrow
    obtain ⟨hident, htime⟩ := h.timers t (List.mem_of_find?_eq_some ht)
    have hshown := hok t ht hzero row habit hindex hrow
    exact ⟨hident.trans hshown, htime.trans hshown⟩
  | _ => trivial

end Owned

/-! ## Runs -/

/-- A screen on which no two habits were mixed, as long as its process
runs. -/
structure Unmixed (x : Screen) : Prop where
  scheduled : Scheduled x
  laid : Laid x
  owned : x.session.crashed = none → Owned x

theorem Unmixed.step {x : Screen} (h : Unmixed x) {e : ScreenEvent} (hok : Apart x e) :
    Unmixed (x.step e) := by
  refine ⟨h.scheduled.step e, h.laid.step e, fun hrun => ?_⟩
  rw [Screen.step] at hrun ⊢
  by_cases hrunning : x.session.crashed = none
  · rw [if_pos hrunning] at hrun ⊢
    exact (h.owned hrunning).handle h.scheduled h.laid hrunning hok hrun
  · rw [if_neg hrunning] at hrun ⊢
    by_cases hrelaunch : e = .session .relaunch
    · rw [if_pos hrelaunch]
      exact Owned.fresh _
    · rw [if_neg hrelaunch] at hrun
      exact absurd hrun hrunning

/-- In every run whose steps mix no two habits, each timer of a cell was
started for the habit that the cell shows, the time of a cell is that of
its habit once its reads are back, and a tick marks a habit as finished
only when its own countdown has run out. -/
theorem own_always (st : Store) (es : List ScreenEvent)
    (hok : Runs.Guarded step Apart (launched st) es) :
    Runs.Always step (fun x => x.session.crashed = none → Own x) (launched st) es ∧
      Runs.Guarded step (fun x e => x.session.crashed = none → OwnAlert x e) (launched st) es := by
  have hfresh : Unmixed (launched st) := ⟨Scheduled.fresh _, Laid.fresh _, fun _ => Owned.fresh _⟩
  constructor
  · have halways := hok.always (fun _ _ h he => h.step he) hfresh
    exact fun fs hfs hrunning => ((halways fs hfs).owned hrunning).own
  · have htrue : Runs.Guarded step (fun _ _ => True) (launched st) es := Runs.guarded_true _ es
    refine (Runs.guarded_congr (fun _ _ h he _ => h.step he) (fun _ _ h he => ?_) hok hfresh).mpr
      htrue
    exact iff_true_intro fun hrunning => (h.owned hrunning).ownAlert he

/-- A countdown runs for the first habit when its object is reused for the
second one, which is then marked as finished.  And a read of the first
habit comes back after the one that was issued for the second. -/
theorem reuse_crosses_habits :
    let st := Store.ofEntries [.timed [0, 0, 0, 0, 0, 3], .timed [0, 0, 0, 0, 0, 1]]
    let scrolled : List ScreenEvent := [.didEndDisplaying 0, .didEndDisplaying 1,
      .cellForItemAt 1 0]
    let reused := loads 2 ++ arrivals 2 0 ++ [.didSelectItemAt 0 0 0] ++ arrivals 1 1 ++ scrolled
    let late := loads 2 ++ [.serveTime 0, .serveTime 1] ++ scrolled ++
      [.serveTime 2, .deliverTime 2, .deliverTime 1, .deliverTime 0]
    (¬Runs.Always step (fun x => x.session.crashed = none → Own x) (launched st) reused ∧
      ¬Runs.Guarded step (fun x e => x.session.crashed = none → OwnAlert x e) (launched st)
        (reused ++ arrivals 1 0 ++ [.tick 0, .tick 0])) ∧
      ¬Runs.Always step (fun x => x.session.crashed = none → Own x) (launched st) late := by
  intro st scrolled reused late
  refine ⟨⟨fun h => ?_, by decide +kernel⟩, fun h => ?_⟩
  · have htimers := (h reused (List.prefix_refl _) (by decide +kernel)).timers
    revert htimers
    decide +kernel
  · have htime := (h late (List.prefix_refl _) (by decide +kernel)).time 0
      ((Entry.timed [0, 0, 0, 0, 0, 1]).toHabit 1 1) (by decide +kernel) rfl (by decide +kernel)
    revert htime
    decide +kernel

/-- A countdown ends on its own habit, and the object is reused after
that. -/
theorem own_always_ended :
    let st := Store.ofEntries [.timed [0, 0, 0, 0, 0, 1], .timed [0, 0, 0, 0, 0, 3]]
    let es := loads 2 ++ arrivals 2 0 ++ [.didSelectItemAt 0 0 0] ++ arrivals 1 1 ++
      [.tick 0, .tick 0, .didEndDisplaying 0, .didEndDisplaying 1, .cellForItemAt 1 0] ++
      arrivals 1 0
    Runs.Always step (fun x => x.session.crashed = none → Own x) (launched st) es ∧
      Runs.Guarded step (fun x e => x.session.crashed = none → OwnAlert x e) (launched st) es :=
  own_always _ _ (by decide +kernel)

end Screen

end HabitHive
