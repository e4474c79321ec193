import Mathlib.Data.List.Sort

/-!
# Lists in the order of a key

Elements carry a natural key, and a list is kept in key order by sorting
it again after each append.  Three facts are used about such lists.

* Appending and sorting adds one element and keeps the order
  (`insertByKey_perm`, `insertByKey_pairwise`).
* A list in key order is determined by its elements as soon as their keys
  are distinct (`eq_of_perm_of_key_lt`).  So the order in which the
  elements arrived does not matter.
* With distinct keys, taking out a position is taking out its key
  (`eraseIdx_eq_filter_key`).
-/

namespace Keyed

variable {α β : Type*} (key : α → ℕ)

/-- Sort by key; equal keys keep their order. -/
def sortByKey (l : List α) : List α := l.insertionSort fun a b => key a ≤ key b

theorem sortByKey_perm (l : List α) : (sortByKey key l).Perm l :=
  List.perm_insertionSort _ l

theorem sortByKey_pairwise (l : List α) :
    (sortByKey key l).Pairwise fun a b => key a ≤ key b :=
  haveI : Std.Total (α := α) fun a b => key a ≤ key b := ⟨fun a b => Nat.le_total (key a) (key b)⟩
  haveI : IsTrans α fun a b => key a ≤ key b := ⟨fun _ _ _ => Nat.le_trans⟩
  List.pairwise_insertionSort _ l

theorem insertByKey_perm (l : List α) (a : α) :
    (sortByKey key (l ++ [a])).Perm (a :: l) :=
  (sortByKey_perm key _).trans (List.perm_append_singleton a l)

/-- Sorting commutes with a map that keeps the keys. -/
theorem sortByKey_map {f : α → β} {key' : β → ℕ} (h : ∀ a, key' (f a) = key a) (l : List α) :
    sortByKey key' (l.map f) = (sortByKey key l).map f := by
  have hle : ∀ a ∈ l, ∀ b ∈ l, key a ≤ key b ↔ key' (f a) ≤ key' (f b) := by
    intro a _ b _
    rw [h, h]
  exact (List.map_insertionSort (fun a b => key a ≤ key b)
    (fun a b => key' a ≤ key' b) f l hle).symm

/-- A list whose keys rise is the only list of its elements in key order. -/
theorem eq_of_perm_of_key_lt {l l' : List α} (hperm : l.Perm l')
    (hl : l.Pairwise fun a b => key a ≤ key b)
    (hl' : l'.Pairwise fun a b => key a < key b) : l = l' := by
  refine List.Perm.eq_of_pairwise ?_ hl
    (hl'.imp Nat.le_of_lt) hperm
  intro a b ha hb hab hba
  by_contra hne
  have ha' : a ∈ l' := hperm.mem_iff.mp ha
  have hsep : key a < key b ∨ key b < key a :=
    List.Pairwise.forall_of_forall_of_flip (R := fun x y => x ≠ y → key x < key y ∨ key y < key x)
      (fun x _ h => absurd rfl h)
      (hl'.imp fun h _ => Or.inl h) (hl'.imp fun h _ => Or.inr h) ha' hb hne
  omega

/-- Some of the elements, in key order, are a sublist. -/
theorem sublist_of_subperm_of_key_lt {l l' : List α} (hsub : l.Subperm l')
    (hl : l.Pairwise fun a b => key a ≤ key b)
    (hl' : l'.Pairwise fun a b => key a < key b) : l.Sublist l' := by
  obtain ⟨k, hperm, hk⟩ := hsub
  rw [eq_of_perm_of_key_lt key hperm.symm hl (hl'.sublist hk)]
  exact hk

/-- The elements read at rising positions, when the key of an element is
its position. -/
theorem filterMap_range_key_lt {read : ℕ → Option α} (n : ℕ)
    (hkey : ∀ k a, read k = some a → key a = k) :
    ((List.range n).filterMap read).Pairwise fun a b => key a < key b := by
  rw [List.pairwise_filterMap]
  refine List.pairwise_lt_range.imp ?_
  intro i j hij a ha b hb
  rw [hkey i a ha, hkey j b hb]
  exact hij

/-- With distinct keys, only the element at `i` has its key. -/
theorem eraseIdx_eq_filter_key [DecidableEq β] {key : α → β} {l : List α}
    (h : (l.map key).Nodup) {i : ℕ} {a : α} (hi : l[i]? = some a) :
    l.eraseIdx i = l.filter fun b => key b ≠ key a := by
  induction l generalizing i with
  | nil => rfl
  | cons b l ih =>
    rw [List.map_cons, List.nodup_cons] at h
    cases i with
    | zero =>
      obtain rfl : b = a := by simpa using hi
      have hkeep : ∀ c ∈ l, key c ≠ key b := fun c hc heq =>
        h.1 (heq ▸ List.mem_map_of_mem hc)
      rw [List.eraseIdx_cons_zero, List.filter_cons_of_neg (by simp)]
      exact (List.filter_eq_self.mpr fun c hc => by simpa using hkeep c hc).symm
    | succ i =>
      have ha : a ∈ l := List.mem_of_getElem? hi
      have hne : key b ≠ key a := fun heq => h.1 (heq ▸ List.mem_map_of_mem ha)
      rw [List.eraseIdx_cons_succ, ih h.2 hi, List.filter_cons_of_pos (by simpa using hne)]

/-- A list, read position by position. -/
theorem filterMap_range_getElem? (l : List α) :
    (List.range l.length).filterMap (l[·]?) = l := by
  induction l with
  | nil => rfl
  | cons a l ih =>
    rw [List.length_cons, List.range_succ_eq_map, List.filterMap_cons, List.filterMap_map]
    exact congrArg (a :: ·) ih

end Keyed
