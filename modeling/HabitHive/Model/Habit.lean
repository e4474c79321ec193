import Mathlib.Logic.Basic

/-!
# Habits and habit documents

`Habit` is `struct Habit` of `HabitCollectionViewController.swift`.
`HabitFields` is the set of fields of one Firestore habit document, and
also the dictionary that a `setData` or `updateData` call passes: a field
that is `none` is absent.  `Entry` holds the nine persisted values of a
habit when none of them is absent.

`Habit.ofDocument` is the block of nine `as!` casts in
`fetchFirebaseHabits`.  A cast fails exactly when the field is absent,
because every writer of the program passes a value of the right type.

`ident` in `Habit` and `HabitDoc` is not in the source.  It says which
habit a value or a document is about, so that a statement can speak of
one habit across renumberings and edits.  No function below branches on
it.
-/

namespace HabitHive

/-- A Swift `Character` is one grapheme cluster, held here as a string, and
a Swift `String` is the sequence of them, so its `count` is the length. -/
abbrev Text := List String

/-- The text of an ASCII literal: each of its characters is one cluster. -/
def Text.ofAscii (s : String) : Text := s.toList.map Char.toString

/-- `struct Habit`. -/
structure Habit where
  name : Text
  color : Int
  counted : Bool
  goal : Int
  currentCount : Int
  time : List Int
  timeOriginal : List Int
  addFirebase : Bool
  streak : Int
  habitNumber : Nat
  finishedFirstTime : Bool
  ident : Nat
  deriving DecidableEq, Repr

/-- The nine persisted values of a habit, under their field names. -/
structure Entry where
  name : Text
  color : Int
  counted : Bool
  goal : Int
  currentCount : Int
  timeArray : List Int
  timeArrayOriginal : List Int
  addFirebase : Bool
  streak : Int
  deriving DecidableEq, Repr

/-- The fields of a habit document, or of a write to one. -/
structure HabitFields where
  name : Option Text := none
  color : Option Int := none
  counted : Option Bool := none
  goal : Option Int := none
  currentCount : Option Int := none
  timeArray : Option (List Int) := none
  timeArrayOriginal : Option (List Int) := none
  addFirebase : Option Bool := none
  streak : Option Int := none
  deriving DecidableEq, Repr

/-- A document of the `habits` collection. -/
structure HabitDoc where
  fields : HabitFields
  ident : Nat
  deriving DecidableEq, Repr

/-- The effect of `updateData` on the fields of an existing document: the
fields that are passed replace the old ones, the others stay. -/
def HabitFields.merge (old new : HabitFields) : HabitFields where
  name := new.name <|> old.name
  color := new.color <|> old.color
  counted := new.counted <|> old.counted
  goal := new.goal <|> old.goal
  currentCount := new.currentCount <|> old.currentCount
  timeArray := new.timeArray <|> old.timeArray
  timeArrayOriginal := new.timeArrayOriginal <|> old.timeArrayOriginal
  addFirebase := new.addFirebase <|> old.addFirebase
  streak := new.streak <|> old.streak

/-- All nine fields, present. -/
def Entry.fields (e : Entry) : HabitFields where
  name := some e.name
  color := some e.color
  counted := some e.counted
  goal := some e.goal
  currentCount := some e.currentCount
  timeArray := some e.timeArray
  timeArrayOriginal := some e.timeArrayOriginal
  addFirebase := some e.addFirebase
  streak := some e.streak

/-- An entry after a write of some of its fields. -/
def Entry.patch (e : Entry) (new : HabitFields) : Entry where
  name := new.name.getD e.name
  color := new.color.getD e.color
  counted := new.counted.getD e.counted
  goal := new.goal.getD e.goal
  currentCount := new.currentCount.getD e.currentCount
  timeArray := new.timeArray.getD e.timeArray
  timeArrayOriginal := new.timeArrayOriginal.getD e.timeArrayOriginal
  addFirebase := new.addFirebase.getD e.addFirebase
  streak := new.streak.getD e.streak

/-- The nine values of a document that has all nine fields. -/
def HabitFields.decode (f : HabitFields) : Option Entry := do
  let name ← f.name
  let color ← f.color
  let counted ← f.counted
  let goal ← f.goal
  let currentCount ← f.currentCount
  let timeArray ← f.timeArray
  let timeArrayOriginal ← f.timeArrayOriginal
  let addFirebase ← f.addFirebase
  let streak ← f.streak
  return { name, color, counted, goal, currentCount, timeArray, timeArrayOriginal,
           addFirebase, streak }

/-- A counted habit on the day it was created, for examples. -/
def Entry.sample (goal : Int) : Entry where
  name := ["w"]
  color := 1
  counted := true
  goal := goal
  currentCount := 0
  timeArray := [0, 0, 0, 0, 0, 0]
  timeArrayOriginal := [0, 0, 0, 0, 0, 0]
  addFirebase := true
  streak := 0

/-- The persisted values of a habit in memory. -/
def Habit.entry (h : Habit) : Entry where
  name := h.name
  color := h.color
  counted := h.counted
  goal := h.goal
  currentCount := h.currentCount
  timeArray := h.time
  timeArrayOriginal := h.timeOriginal
  addFirebase := h.addFirebase
  streak := h.streak

/-- The document that `updateFirebaseHabits` writes for a habit. -/
def Habit.toDocument (h : Habit) : HabitDoc where
  fields := h.entry.fields
  ident := h.ident

/-- The habit that `fetchFirebaseHabits` builds from the document read for
number `n`.  The answer is `none` where one of the nine `as!` casts fails:
the document does not exist, or a field of it is absent. -/
def Habit.ofDocument (n : Nat) (document : Option HabitDoc) : Option Habit := do
  let doc ← document
  let name ← doc.fields.name
  let color ← doc.fields.color
  let counted ← doc.fields.counted
  let goal ← doc.fields.goal
  let currentCount ← doc.fields.currentCount
  let time ← doc.fields.timeArray
  let timeOriginal ← doc.fields.timeArrayOriginal
  let addFirebase ← doc.fields.addFirebase
  let streak ← doc.fields.streak
  return { name, color, counted, goal, currentCount, time, timeOriginal, addFirebase,
           streak, habitNumber := n, finishedFirstTime := true, ident := doc.ident }

/-! ## Documents with all nine fields -/

@[simp] theorem Entry.decode_fields (e : Entry) : e.fields.decode = some e := rfl

/-- A document with all nine fields is its entry. -/
theorem HabitFields.decode_eq_some {f : HabitFields} {e : Entry} :
    f.decode = some e ↔ f = e.fields := by
  constructor
  · intro h
    obtain ⟨name, color, counted, goal, count, time, original, add, streak⟩ := f
    simp only [HabitFields.decode, Option.bind_eq_bind, Option.bind_eq_some_iff,
      Option.pure_def, Option.some.injEq] at h
    obtain ⟨_, rfl, _, rfl, _, rfl, _, rfl, _, rfl, _, rfl, _, rfl, _, rfl, _, rfl, rfl⟩ := h
    rfl
  · rintro rfl
    exact e.decode_fields

/-- Writing some fields of a complete document leaves it complete. -/
@[simp] theorem Entry.fields_merge (e : Entry) (new : HabitFields) :
    e.fields.merge new = (e.patch new).fields := by
  obtain ⟨name, color, counted, goal, count, time, original, add, streak⟩ := new
  cases name <;> cases color <;> cases counted <;> cases goal <;> cases count <;>
    cases time <;> cases original <;> cases add <;> cases streak <;> rfl

theorem HabitFields.decode_merge {f : HabitFields} {e : Entry} (new : HabitFields)
    (h : f.decode = some e) : (f.merge new).decode = some (e.patch new) := by
  rw [HabitFields.decode_eq_some.mp h]
  simp

/-- The habit that a read of number `n` builds from an entry. -/
def Entry.toHabit (e : Entry) (n ident : Nat) : Habit where
  name := e.name
  color := e.color
  counted := e.counted
  goal := e.goal
  currentCount := e.currentCount
  time := e.timeArray
  timeOriginal := e.timeArrayOriginal
  addFirebase := e.addFirebase
  streak := e.streak
  habitNumber := n
  finishedFirstTime := true
  ident := ident

@[simp] theorem Entry.habitNumber_toHabit (e : Entry) (n ident : Nat) :
    (e.toHabit n ident).habitNumber = n := rfl

@[simp] theorem Entry.ident_toHabit (e : Entry) (n ident : Nat) :
    (e.toHabit n ident).ident = ident := rfl

/-- The nine casts read the entry of the document. -/
theorem Habit.ofDocument_eq (n : Nat) (document : Option HabitDoc) :
    Habit.ofDocument n document =
      document.bind fun doc => doc.fields.decode.map (·.toHabit n doc.ident) := by
  cases document with
  | none => rfl
  | some doc =>
    obtain ⟨⟨name, color, counted, goal, count, time, original, add, streak⟩, ident⟩ := doc
    cases name <;> cases color <;> cases counted <;> cases goal <;> cases count <;>
      cases time <;> cases original <;> cases add <;> cases streak <;> rfl

/-- Writing back a habit that was read from a document gives the document. -/
theorem Habit.toDocument_of_ofDocument {n : Nat} {doc : HabitDoc} {h : Habit}
    (hread : Habit.ofDocument n (some doc) = some h) : h.toDocument = doc := by
  rw [Habit.ofDocument_eq, Option.bind_some, Option.map_eq_some_iff] at hread
  obtain ⟨e, hentry, rfl⟩ := hread
  obtain ⟨fields, ident⟩ := doc
  rw [HabitFields.decode_eq_some] at hentry
  simp only at hentry
  subst hentry
  rfl

end HabitHive
