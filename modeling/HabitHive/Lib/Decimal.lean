import Mathlib

/-!
# Printed numbers and times

`padded` prints a number with at least two digits and `clock` prints three
numbers in this way, with colons between them.

The law behind both is that printing a number from ten on is printing its
tens and then its last digit.  A padded number obeys it without the bound,
so it is determined by its text, and since no number is printed with a
colon the same holds for a clock.
-/

namespace Decimal

/-- A number, with a zero in front of a single digit. -/
def padded (n : Nat) : String := if n < 10 then "0" ++ n.repr else n.repr

theorem padded_of_lt {n : Nat} (h : n < 10) : padded n = "0" ++ n.repr := if_pos h

theorem padded_of_ge {n : Nat} (h : 10 ≤ n) : padded n = n.repr := if_neg (by omega)

/-- The tens and the last digit. -/
theorem padded_eq (n : Nat) : padded n = (n / 10).repr ++ (n % 10).repr := by
  rcases Nat.lt_or_ge n 10 with h | h
  · rw [padded_of_lt h, Nat.div_eq_of_lt h, Nat.mod_eq_of_lt h]
    rfl
  · rw [padded_of_ge h, Nat.repr_eq_repr_append_repr h]

theorem length_repr_of_lt {n : Nat} (h : n < 10) : n.repr.toList.length = 1 := by
  rw [Nat.toList_repr, Nat.toDigits_of_lt_base h]
  rfl

theorem padded_inj {m n : Nat} : padded m = padded n ↔ m = n := by
  refine ⟨fun h => ?_, fun h => h ▸ rfl⟩
  rw [padded_eq, padded_eq, ← String.toList_inj, String.toList_append, String.toList_append] at h
  have hlast : (m % 10).repr.toList.length = (n % 10).repr.toList.length := by
    rw [length_repr_of_lt (Nat.mod_lt m (by decide)), length_repr_of_lt (Nat.mod_lt n (by decide))]
  obtain ⟨htens, hdigit⟩ := List.append_inj' h hlast
  rw [String.toList_inj, Nat.repr_inj] at htens hdigit
  omega

theorem colon_notMem_repr (n : Nat) : ':' ∉ n.repr.toList := by
  intro h
  rw [Nat.toList_repr] at h
  exact absurd (Nat.isDigit_of_mem_toDigits (by decide) (by decide) h) (by decide)

theorem colon_notMem_padded (n : Nat) : ':' ∉ (padded n).toList := by
  rw [padded_eq, String.toList_append, List.mem_append]
  rintro (h | h)
  · exact colon_notMem_repr _ h
  · exact colon_notMem_repr _ h

/-- Hour, minute and second. -/
def clock (h m s : Nat) : String := padded h ++ ":" ++ padded m ++ ":" ++ padded s

theorem toList_clock (h m s : Nat) :
    (clock h m s).toList =
      (padded h).toList ++ ':' :: ((padded m).toList ++ ':' :: (padded s).toList) := by
  simp [clock]

/-- Two texts with a separator that does not occur before it. -/
theorem append_separator_inj {α : Type*} {a : α} {xs ys us vs : List α} (hx : a ∉ xs)
    (hy : a ∉ ys) (h : xs ++ a :: us = ys ++ a :: vs) : xs = ys ∧ us = vs := by
  induction xs generalizing ys with
  | nil =>
    cases ys with
    | nil => exact ⟨rfl, (List.cons.inj h).2⟩
    | cons y ys => exact absurd (List.cons.inj h).1 (List.ne_of_not_mem_cons hy)
  | cons x xs ih =>
    cases ys with
    | nil => exact absurd (List.cons.inj h).1.symm (List.ne_of_not_mem_cons hx)
    | cons y ys =>
      obtain ⟨hhead, htail⟩ := List.cons.inj h
      obtain ⟨hxs, hus⟩ :=
        ih (List.not_mem_of_not_mem_cons hx) (List.not_mem_of_not_mem_cons hy) htail
      exact ⟨congrArg₂ List.cons hhead hxs, hus⟩

/-- A text shows one time. -/
theorem clock_inj {h m s h' m' s' : Nat} :
    clock h m s = clock h' m' s' ↔ h = h' ∧ m = m' ∧ s = s' := by
  refine ⟨fun htext => ?_, fun ⟨hh, hm, hs⟩ => by rw [hh, hm, hs]⟩
  rw [← String.toList_inj, toList_clock, toList_clock] at htext
  obtain ⟨hhour, hrest⟩ :=
    append_separator_inj (colon_notMem_padded h) (colon_notMem_padded h') htext
  obtain ⟨hminute, hsecond⟩ :=
    append_separator_inj (colon_notMem_padded m) (colon_notMem_padded m') hrest
  rw [String.toList_inj, padded_inj] at hhour hminute hsecond
  exact ⟨hhour, hminute, hsecond⟩

end Decimal
