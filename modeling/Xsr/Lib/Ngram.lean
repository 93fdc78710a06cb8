import Mathlib

/-!
# Ngram — the grams of a padded text

All windows of `n` elements, with `n - 1` fillers put on both sides.
-/

namespace Xsr.Lib

variable {α : Type}

/-- The stretches of `n` elements of a list, from left to right. -/
def windows (n : Nat) (xs : List α) : List (List α) :=
  (List.range (xs.length + 1 - n)).map fun i => (xs.drop i).take n

/-- The windows of `xs` between `n - 1` fillers on each side. -/
def paddedGrams (n : Nat) (filler : α) (xs : List α) : List (List α) :=
  windows n (List.replicate (n - 1) filler ++ xs ++ List.replicate (n - 1) filler)

theorem length_windows (n : Nat) (xs : List α) : (windows n xs).length = xs.length + 1 - n := by
  rw [windows, List.length_map, List.length_range]

theorem length_paddedGrams {n : Nat} (h : 1 ≤ n) (filler : α) (xs : List α) :
    (paddedGrams n filler xs).length = xs.length + (n - 1) := by
  rw [paddedGrams, length_windows]
  simp only [List.length_append, List.length_replicate]
  omega

theorem length_of_mem_windows {n : Nat} {xs w : List α} (h : w ∈ windows n xs) : w.length = n := by
  obtain ⟨i, hi, rfl⟩ := List.mem_map.mp h
  rw [List.mem_range] at hi
  rw [List.length_take, List.length_drop]
  omega

theorem windows_map {β : Type} (f : α → β) (n : Nat) (xs : List α) :
    (windows n xs).map (List.map f) = windows n (xs.map f) := by
  rw [windows, windows, List.map_map, List.length_map]
  refine List.map_congr_left fun i _ => ?_
  rw [Function.comp_apply, List.map_take, List.map_drop]

theorem paddedGrams_map {β : Type} (f : α → β) (n : Nat) (filler : α) (xs : List α) :
    (paddedGrams n filler xs).map (List.map f) = paddedGrams n (f filler) (xs.map f) := by
  rw [paddedGrams, windows_map, paddedGrams]
  simp only [List.map_append, List.map_replicate]

/-- Texts related element by element have related windows. -/
theorem forall₂_windows {β : Type} {R : α → β → Prop} {xs : List α} {ys : List β}
    (h : List.Forall₂ R xs ys) (n : Nat) :
    List.Forall₂ (List.Forall₂ R) (windows n xs) (windows n ys) := by
  rw [windows, windows, ← h.length_eq, List.forall₂_map_left_iff, List.forall₂_map_right_iff,
    List.forall₂_same]
  exact fun i _ => List.forall₂_take n (List.forall₂_drop i h)

theorem forall₂_paddedGrams {R : α → α → Prop} {filler : α} (hfiller : R filler filler)
    {xs ys : List α} (h : List.Forall₂ R xs ys) (n : Nat) :
    List.Forall₂ (List.Forall₂ R) (paddedGrams n filler xs) (paddedGrams n filler ys) := by
  have hpad : List.Forall₂ R (List.replicate (n - 1) filler) (List.replicate (n - 1) filler) :=
    List.forall₂_same.mpr fun x hx => (List.eq_of_mem_replicate hx).symm ▸ hfiller
  exact forall₂_windows (List.rel_append (List.rel_append hpad h) hpad) n

/-- The windows of a text stay windows when the text is continued. -/
theorem windows_append (n : Nat) (xs ys : List α) : windows n xs <+: windows n (xs ++ ys) := by
  have hlen : (xs ++ ys).length + 1 - n = (xs.length + 1 - n) + ((xs ++ ys).length + 1 - n
      - (xs.length + 1 - n)) := by
    rw [List.length_append]
    omega
  have htake : ∀ i ∈ List.range (xs.length + 1 - n), (xs.drop i).take n = ((xs ++ ys).drop i).take n := by
    intro i hi
    rw [List.mem_range] at hi
    rw [List.drop_append_of_le_length (by omega), List.take_append_of_le_length]
    rw [List.length_drop]
    omega
  rw [windows, List.map_congr_left htake, windows, hlen, List.range_add, List.map_append]
  exact List.prefix_append _ _

theorem windows_cons {n : Nat} {x : α} {xs : List α} (h : n ≤ xs.length + 1) :
    windows n (x :: xs) = (x :: xs).take n :: windows n xs := by
  have hlen : (x :: xs).length + 1 - n = xs.length + 1 - n + 1 := by
    rw [List.length_cons]
    omega
  rw [windows, hlen, List.range_succ_eq_map, List.map_cons, List.map_map]
  rfl

/-- A text keeps its windows inside a longer text. -/
theorem windows_sublist_middle (n : Nat) (before xs after : List α) :
    (windows n xs).Sublist (windows n (before ++ xs ++ after)) := by
  induction before with
  | nil => exact (windows_append n xs after).sublist
  | cons b before ih =>
      refine ih.trans ?_
      rw [List.cons_append, List.cons_append]
      by_cases h : n ≤ (before ++ xs ++ after).length + 1
      · rw [windows_cons h]
        exact List.sublist_cons_self _ _
      · have hnil : windows n (before ++ xs ++ after) = [] := by
          rw [← List.length_eq_zero_iff, length_windows]
          omega
        rw [hnil]
        exact List.nil_sublist _

end Xsr.Lib
