import Mathlib.Logic.Function.Basic
import HabitHive.Lib.Runs
import HabitHive.Model.Habit

/-!
# The Firestore documents of one user

`Store` holds the user document and the documents `habit0`, `habit1`, …
of its `habits` collection.  A `Write` is one single-document write, as
the program issues it, and `Store.apply` is its effect: `setData` replaces
a document, `updateData` changes some fields of an existing document and
fails without effect when there is none, and `delete` removes it.

`Store.signUp` is what `SignUpViewController.signUpTapped` leaves.  Names,
mail and uid of the user document are left out, since no other function
reads them.
-/

namespace HabitHive

/-- The fields of the user document that the habit list uses. -/
structure UserDoc where
  habitCounter : Nat
  finishedHabits : Int
  achievements : List Text
  deriving DecidableEq, Repr

/-- The dictionary of an `updateData` call on the user document. -/
structure UserFields where
  habitCounter : Option Nat := none
  finishedHabits : Option Int := none
  achievements : Option (List Text) := none
  deriving DecidableEq, Repr

def UserDoc.merge (old : UserDoc) (new : UserFields) : UserDoc where
  habitCounter := new.habitCounter.getD old.habitCounter
  finishedHabits := new.finishedHabits.getD old.finishedHabits
  achievements := new.achievements.getD old.achievements

/-- One write to one document.  The `ident` of an update is not in the
source: it is the habit whose values the update carries. -/
inductive Write where
  | updateUser (fields : UserFields)
  | setHabit (n : Nat) (doc : HabitDoc)
  | updateHabit (n : Nat) (fields : HabitFields) (ident : Nat)
  | deleteHabit (n : Nat)
  deriving DecidableEq, Repr

structure Store where
  user : UserDoc
  habits : Nat → Option HabitDoc

namespace Store

/-- The effect of one write. -/
def apply (st : Store) : Write → Store
  | .updateUser fields => { st with user := st.user.merge fields }
  | .setHabit n doc => { st with habits := Function.update st.habits n (some doc) }
  | .updateHabit n fields _ =>
      { st with
        habits := Function.update st.habits n
          ((st.habits n).map fun doc => { doc with fields := doc.fields.merge fields }) }
  | .deleteHabit n => { st with habits := Function.update st.habits n none }

/-- The effect of writes in the order they are issued. -/
abbrev applyAll (st : Store) (ws : List Write) : Store := Runs.run Store.apply st ws

@[simp] theorem applyAll_nil (st : Store) : st.applyAll [] = st := rfl

@[simp] theorem applyAll_cons (st : Store) (w : Write) (ws : List Write) :
    st.applyAll (w :: ws) = (st.apply w).applyAll ws := rfl

theorem applyAll_append (st : Store) (ws vs : List Write) :
    st.applyAll (ws ++ vs) = (st.applyAll ws).applyAll vs :=
  Runs.run_append Store.apply st ws vs

/-- The user document that sign-up writes, and no habit document. -/
def signUp : Store where
  user := { habitCounter := 0, finishedHabits := 0, achievements := [] }
  habits := fun _ => none

/-- What a read of document `n` yields in `fetchFirebaseHabits`. -/
def readHabit (st : Store) (n : Nat) : Option Habit := Habit.ofDocument n (st.habits n)

/-- The document numbers that the counter counts. -/
def numbers (st : Store) : List Nat := List.range st.user.habitCounter

/-- The documents reachable through the counter, in order. -/
def reachable (st : Store) : List (Option HabitDoc) := st.numbers.map st.habits

/-- The account that holds exactly the given documents, numbered in order.
The position of a document names its habit. -/
def ofFields (fs : List HabitFields) : Store where
  user := { habitCounter := fs.length, finishedHabits := 0, achievements := [] }
  habits := fun n => fs[n]?.map fun fields => { fields, ident := n }

/-- Documents of habits with their nine values. -/
def ofEntries (entries : List Entry) : Store := .ofFields (entries.map Entry.fields)

/-! ## What one write changes -/

section Apply

variable (st : Store) (n : Nat)

@[simp] theorem apply_updateUser_user (f : UserFields) :
    (st.apply (.updateUser f)).user = st.user.merge f := rfl

@[simp] theorem apply_updateUser_habits (f : UserFields) :
    (st.apply (.updateUser f)).habits = st.habits := rfl

@[simp] theorem apply_setHabit_user (doc : HabitDoc) :
    (st.apply (.setHabit n doc)).user = st.user := rfl

@[simp] theorem apply_deleteHabit_user : (st.apply (.deleteHabit n)).user = st.user := rfl

theorem apply_setHabit_habits (doc : HabitDoc) (k : Nat) :
    (st.apply (.setHabit n doc)).habits k = if k = n then some doc else st.habits k := by
  simp [apply, Function.update_apply]

theorem apply_deleteHabit_habits (k : Nat) :
    (st.apply (.deleteHabit n)).habits k = if k = n then none else st.habits k := by
  simp [apply, Function.update_apply]

theorem apply_updateHabit_habits (f : HabitFields) (i k : Nat) :
    (st.apply (.updateHabit n f i)).habits k =
      if k = n then (st.habits n).map fun doc => { doc with fields := doc.fields.merge f }
      else st.habits k := by
  simp [apply, Function.update_apply]

/-- An update neither adds nor removes a document. -/
@[simp] theorem apply_updateHabit_isSome (f : HabitFields) (i k : Nat) :
    ((st.apply (.updateHabit n f i)).habits k).isSome = (st.habits k).isSome := by
  rw [apply_updateHabit_habits]
  split
  · next h => rw [h, Option.isSome_map]
  · rfl

/-- An update leaves every document with the habit it is about. -/
@[simp] theorem apply_updateHabit_ident (f : HabitFields) (i k : Nat) :
    ((st.apply (.updateHabit n f i)).habits k).map HabitDoc.ident =
      (st.habits k).map HabitDoc.ident := by
  rw [apply_updateHabit_habits]
  split
  · next h => rw [h, Option.map_map]; rfl
  · rfl

end Apply

@[simp] theorem merge_habitCounter (u : UserDoc) (f : UserFields) :
    (u.merge f).habitCounter = f.habitCounter.getD u.habitCounter := rfl

/-- `setData` calls on consecutive document numbers. -/
def setHabits : Nat → List HabitDoc → List Write
  | _, [] => []
  | n, doc :: docs => .setHabit n doc :: setHabits (n + 1) docs

theorem mem_setHabits {n : Nat} {docs : List HabitDoc} {w : Write} (h : w ∈ setHabits n docs) :
    ∃ k, ∃ doc ∈ docs, w = .setHabit k doc := by
  induction docs generalizing n with
  | nil => contradiction
  | cons doc docs ih =>
    rcases List.mem_cons.mp h with rfl | h
    · exact ⟨n, doc, by simp, rfl⟩
    · obtain ⟨k, doc', hmem, rfl⟩ := ih h
      exact ⟨k, doc', List.mem_cons_of_mem doc hmem, rfl⟩

/-- A run of `setData` calls on consecutive numbers replaces exactly those
documents. -/
theorem applyAll_setHabits (st : Store) (n : Nat) (docs : List HabitDoc) :
    st.applyAll (setHabits n docs) =
      { st with
        habits := fun k =>
          if n ≤ k ∧ k < n + docs.length then docs[k - n]? else st.habits k } := by
  induction docs generalizing st n with
  | nil =>
    have hnone : ∀ k, ¬(n ≤ k ∧ k < n) := by omega
    simp [setHabits, hnone]
  | cons doc docs ih =>
    rw [setHabits, applyAll_cons, ih]
    simp only [apply_setHabit_user, apply_setHabit_habits, List.length_cons]
    congr 1
    funext k
    rcases Nat.lt_trichotomy k n with hlt | rfl | hgt
    · rw [if_neg (by omega), if_neg (by omega), if_neg (by omega)]
    · rw [if_neg (by omega), if_pos rfl, if_pos (by omega), Nat.sub_self]
      rfl
    · have hsub : k - n = (k - (n + 1)) + 1 := by omega
      rw [hsub, List.getElem?_cons_succ]
      by_cases hk : k < n + (docs.length + 1)
      · rw [if_pos (by omega), if_pos (by omega)]
      · rw [if_neg (by omega), if_neg (by omega), if_neg (by omega)]

end Store

end HabitHive
