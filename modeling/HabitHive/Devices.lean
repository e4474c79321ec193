import HabitHive.Core

/-!
# Sessions on one device

The saved day and the chosen color live in `UserDefaults`.  A sign-out
leaves both there, and a sign-up sets the color but not the day, so a
session starts with what the users before it left.  `Alike` relates two
sessions of one user on devices that others have used: their cores are the
same, and the saved day is today in both or in neither.  Each event keeps
this, so both sessions write the same `dayValues`.
-/

namespace HabitHive

open HabitCollection

/-! ## Two sessions -/

/-- The saved day is not ahead of the clock, and an edit screen is only open
when a color is chosen. -/
structure SoundDevice (s : State) : Prop where
  saved : ∀ day, s.palmiIsCool = some day → day ≤ s.today
  color : s.editing ≠ [] → s.sectionColor.isSome = true

theorem saved_step {s : State} (h : ∀ day, s.palmiIsCool = some day → day ≤ s.today) (e : Event) :
    ∀ day, (step s e).palmiIsCool = some day → day ≤ (step s e).today := by
  have hhandle : ∀ day, (handle s e).palmiIsCool = some day → day ≤ (handle s e).today := by
    by_cases hday : e.isDay = false
    · obtain ⟨htoday, hsaved, _⟩ := device_handle hday s
      rw [htoday, hsaved]
      exact h
    · cases e with
      | nextDay => exact fun day hsaved => Nat.le_succ_of_le (h day hsaved)
      | didSelectItemAt row menu =>
        obtain ⟨htoday, hsaved, _⟩ := saved_didSelectItemAt row menu s
        intro day hday
        rw [handle, hsaved, Option.some.injEq] at hday
        rw [handle, htoday, hday]
      | _ => exact absurd rfl hday
  rw [HabitHive.step]
  split
  · exact hhandle
  · split <;> exact h

theorem SoundDevice.step {s : State} (hs : SoundDevice s) (e : Event) :
    SoundDevice (step s e) := by
  refine ⟨saved_step hs.saved e, ?_⟩
  have hhandle : (handle s e).editing ≠ [] → (handle s e).sectionColor.isSome = true := by
    by_cases hday : e.isDay = false
    · obtain ⟨_, _, hcolor⟩ := device_handle hday s
      intro hne
      rcases hcolor with hcolor | ⟨hcolor, hopen⟩
      · exact hcolor
      · rw [hcolor]
        exact hs.color (hopen hne)
    · cases e with
      | nextDay => exact hs.color
      | didSelectItemAt row menu =>
        obtain ⟨_, _, hcolor, hediting⟩ := saved_didSelectItemAt row menu s
        rw [handle, hcolor, hediting]
        exact hs.color
      | _ => exact absurd rfl hday
  rw [HabitHive.step]
  split
  · exact hhandle
  · split
    · simp [State.relaunch]
    · exact hs.color

/-- Sessions that differ in colors, idents and old saved days only. -/
structure Alike (s t : State) : Prop where
  core : s.core = t.core
  savedToday : SavedToday s ↔ SavedToday t

section Alike

variable {s t : State}

theorem Alike.signedIn (h : Alike s t) : s.signedIn = t.signedIn := by
  simpa using congrArg State.signedIn h.core

theorem Alike.resets (h : Alike s t) : resets s = resets t := by
  rw [Bool.eq_iff_iff, ← not_iff_not, Bool.not_eq_true, Bool.not_eq_true, resets_eq_false_iff,
    resets_eq_false_iff, h.signedIn, h.savedToday]

theorem Alike.core_handle (h : Alike s t) (hs : SoundDevice s) (ht : SoundDevice t) (e : Event) :
    (handle s e).core = (handle t e).core := by
  by_cases hcolorless : e.isColorless = true
  · rw [HabitHive.core_handle hcolorless, HabitHive.core_handle hcolorless, h.core]
  · cases e with
    | viewWillAppear =>
      cases hres : HabitCollection.resets s with
      | false =>
        rw [handle, handle, viewWillAppear_of_not_resets hres,
          viewWillAppear_of_not_resets (h.resets ▸ hres), h.core]
      | true =>
        rw [handle, handle, core_viewWillAppear hres, core_viewWillAppear (h.resets ▸ hres), h.core]
    | didSelectItemAt row menu =>
      rw [handle, handle, core_didSelectItemAt, core_didSelectItemAt row menu t, h.core]
    | sectionColor color => exact h.core
    | editHabit => rw [handle, handle, core_openEdit, core_openEdit t, h.core]
    | addHabitButtonTapped c =>
      rw [handle, handle, core_addHabitButtonTapped, core_addHabitButtonTapped c t, h.core]
    | editConfirmed e =>
      rw [handle, handle, core_editConfirmed e hs.color, core_editConfirmed e ht.color, h.core]
    | _ => exact absurd rfl hcolorless

theorem Alike.savedToday_handle (h : Alike s t) (hs : SoundDevice s) (ht : SoundDevice t)
    (e : Event) : SavedToday (handle s e) ↔ SavedToday (handle t e) := by
  by_cases hday : e.isDay = false
  · obtain ⟨hstoday, hssaved, _⟩ := device_handle hday s
    obtain ⟨httoday, htsaved, _⟩ := device_handle hday t
    rw [SavedToday, SavedToday, hstoday, hssaved, httoday, htsaved]
    exact h.savedToday
  · cases e with
    | nextDay =>
      -- the day that was saved is over
      have hold : ∀ {s : State}, SoundDevice s → ¬SavedToday (handle s .nextDay) := by
        intro s hs hsaved
        exact absurd (hs.saved _ hsaved) (Nat.not_succ_le_self s.today)
      exact iff_of_false (hold hs) (hold ht)
    | didSelectItemAt row menu =>
      obtain ⟨hstoday, hssaved, _⟩ := saved_didSelectItemAt row menu s
      obtain ⟨httoday, htsaved, _⟩ := saved_didSelectItemAt row menu t
      exact iff_of_true (by rw [SavedToday, handle, hstoday, hssaved])
        (by rw [SavedToday, handle, httoday, htsaved])
    | _ => exact absurd rfl hday

theorem Alike.step (h : Alike s t) (hs : SoundDevice s) (ht : SoundDevice t) (e : Event) :
    Alike (step s e) (step t e) := by
  have hcrashed : s.crashed = t.crashed := by
    simpa using congrArg State.crashed h.core
  rw [HabitHive.step, HabitHive.step, ← hcrashed]
  split
  · exact ⟨h.core_handle hs ht e, h.savedToday_handle hs ht e⟩
  · split
    · exact ⟨congrArg State.relaunch h.core, h.savedToday⟩
    · exact h

end Alike

/-! ## The values of a day -/

/-- What a write says about the progress of a day: a document, or the user
document for `none`, and the values that the write carries. -/
structure DayValues where
  document : Option Nat
  streak : Option Int := none
  currentCount : Option Int := none
  addFirebase : Option Bool := none
  finishedHabits : Option Int := none
  deriving DecidableEq, Repr

/-- Some of the four values is written. -/
def DayValues.carries (v : DayValues) : Bool :=
  v.streak.isSome || v.currentCount.isSome || v.addFirebase.isSome || v.finishedHabits.isSome

def HabitFields.dayValues (n : Nat) (f : HabitFields) : DayValues where
  document := some n
  streak := f.streak
  currentCount := f.currentCount
  addFirebase := f.addFirebase

def Write.dayValues : Write → DayValues
  | .updateUser fields => { document := none, finishedHabits := fields.finishedHabits }
  | .setHabit n doc => doc.fields.dayValues n
  | .updateHabit n fields _ => fields.dayValues n
  | .deleteHabit n => { document := some n }

/-- The values of `streak`, `currentCount`, `addFirebase` and
`finishedHabits` in writes, in order. -/
def dayValues (ws : List Write) : List DayValues :=
  (ws.map Write.dayValues).filter DayValues.carries

theorem Write.dayValues_core (w : Write) : w.core.dayValues = w.dayValues := by
  cases w <;> rfl

theorem dayValues_core (ws : List Write) : dayValues (ws.map Write.core) = dayValues ws := by
  simp [dayValues, Write.dayValues_core, Function.comp_def]

/-! ## Users of one device -/

/-- What a device keeps while nobody is signed in. -/
structure Device where
  today : Nat
  palmiIsCool : Option Nat := none
  sectionColor : Option Int := none
  deriving DecidableEq, Repr

/-- The session of a user who signs in, with the documents of the account.
`nextIdent` is not in the source: it names the habit that is created next. -/
def Device.signIn (d : Device) (documents : Store) (nextIdent : Nat) : State where
  store := documents
  today := d.today
  palmiIsCool := d.palmiIsCool
  sectionColor := d.sectionColor
  nextIdent := nextIdent

/-- The saved day is not ahead of the clock. -/
def Device.Sound (d : Device) : Prop := ∀ day, d.palmiIsCool = some day → day ≤ d.today

theorem Device.Sound.signIn {d : Device} (h : d.Sound) (documents : Store) (nextIdent : Nat) :
    SoundDevice (d.signIn documents nextIdent) :=
  ⟨h, fun hne => absurd rfl hne⟩

/-- The first appearance of a session resets, and so writes, unless a cell
was tapped on that day. -/
theorem dayValues_appearance (d : Device) (documents : Store) (nextIdent : Nat) :
    dayValues (viewWillAppear (d.signIn documents nextIdent)).journal = [] ↔
      d.palmiIsCool = some d.today := by
  cases hres : resets (d.signIn documents nextIdent) with
  | false =>
    rw [viewWillAppear_of_not_resets hres]
    exact iff_of_true rfl (((resets_eq_false_iff _).mp hres).resolve_left
      Bool.true_eq_false_eq_False)
  | true =>
    have hnot : ¬SavedToday (d.signIn documents nextIdent) := fun hsaved =>
      absurd hres (by rw [(resets_eq_false_iff _).mpr (Or.inr hsaved)]; exact Bool.false_ne_true)
    refine iff_of_false (fun hnil => ?_) hnot
    rw [(viewWillAppear_writes hres).2, appearWrites] at hnil
    simp [Device.signIn, dayValues, Write.dayValues, DayValues.carries] at hnil

theorem alike_signIn {d₁ d₂ : Device} (htoday : d₁.today = d₂.today)
    (hsaved : d₁.palmiIsCool = some d₁.today ↔ d₂.palmiIsCool = some d₂.today)
    (documents : Store) (nextIdent₁ nextIdent₂ : Nat) :
    Alike (d₁.signIn documents nextIdent₁) (d₂.signIn documents nextIdent₂) := by
  refine ⟨?_, hsaved⟩
  rw [Device.signIn, Device.signIn, htoday]
  rfl

end HabitHive
