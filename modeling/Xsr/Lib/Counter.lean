import Mathlib

/-!
# Counter — counted elements and what two counts share

Python's `Counter` of a sequence, as the sequence itself. The shared count
of two sequences is the size of their intersection as multisets; it grows
by one with an element of which the other side has more copies.
-/

namespace Xsr.Lib.Counter

variable {γ : Type} [DecidableEq γ]

/-- `sum(min(count, right[x]) for x, count in left.items())` -/
def same (left right : List γ) : Nat :=
  (left.dedup.map fun x => min (left.count x) (right.count x)).sum

/-- The shared count is the size of the intersection. -/
theorem same_eq_card (left right : List γ) :
    same left right = Multiset.card ((left : Multiset γ) ∩ right) := by
  have hsub : ((left : Multiset γ) ∩ right).toFinset ⊆ left.toFinset := by
    intro x hx
    rw [Multiset.mem_toFinset] at hx
    rw [List.mem_toFinset]
    exact (Multiset.mem_inter.mp hx).1
  have hcount : ∀ x, Multiset.count x ((left : Multiset γ) ∩ right)
      = min (left.count x) (right.count x) := fun x => by
    rw [Multiset.count_inter, Multiset.coe_count, Multiset.coe_count]
  rw [← Multiset.toFinset_sum_count_eq, Finset.sum_subset hsub fun x _ hx => ?_]
  · have hdedup : left.dedup.toFinset = left.toFinset := by
      ext x
      simp
    simp only [hcount]
    rw [same, ← List.sum_toFinset _ left.nodup_dedup, hdedup]
  · rw [Multiset.mem_toFinset] at hx
    exact Multiset.count_eq_zero.mpr hx

theorem same_comm (left right : List γ) : same left right = same right left := by
  rw [same_eq_card, same_eq_card, Multiset.inter_comm]

theorem same_le_left (left right : List γ) : same left right ≤ left.length := by
  rw [same_eq_card, ← Multiset.coe_card]
  exact Multiset.card_le_card Multiset.inter_le_left

theorem same_le_right (left right : List γ) : same left right ≤ right.length := by
  rw [same_comm]
  exact same_le_left right left

/-- Everything is shared with a sequence that has at least as many copies. -/
theorem same_of_count_le {left right : List γ} (h : ∀ x, right.count x ≤ left.count x) :
    same left right = right.length := by
  have hinter : (left : Multiset γ) ∩ right = right := Multiset.ext.mpr fun x => by
    rw [Multiset.count_inter, Multiset.coe_count, Multiset.coe_count]
    exact Nat.min_eq_right (h x)
  rw [same_eq_card, hinter, Multiset.coe_card]

theorem same_of_sublist {left right : List γ} (h : right.Sublist left) :
    same left right = right.length := same_of_count_le fun x => h.count_le x

/-- Fewer elements share no more. -/
theorem same_mono {left left' : List γ} (h : left.Sublist left') (right : List γ) :
    same left right ≤ same left' right := by
  rw [same_eq_card, same_eq_card]
  exact Multiset.card_le_card (inf_le_inf_right _ (Multiset.coe_le.mpr h.subperm))

/-- Only elements of the other side are shared: another element may stand
for any of the rest. -/
theorem same_of_forall₂ {left left' right : List γ}
    (h : List.Forall₂ (fun x y => x = y ∨ x ∉ right ∧ y ∉ right) left left') :
    same left right = same left' right := by
  have hcount : ∀ x ∈ right, left.count x = left'.count x := by
    intro x hx
    induction h with
    | nil => rfl
    | @cons a b left left' hab _ ih =>
        rcases hab with rfl | ⟨ha, hb⟩
        · rw [List.count_cons, List.count_cons, ih]
        · have hax : a ≠ x := fun heq => ha (heq ▸ hx)
          have hbx : b ≠ x := fun heq => hb (heq ▸ hx)
          rw [List.count_cons_of_ne hax, List.count_cons_of_ne hbx, ih]
  rw [same_comm left, same_comm left', same, same]
  refine congrArg List.sum (List.map_congr_left fun x hx => ?_)
  rw [hcount x (List.mem_dedup.mp hx)]

theorem same_perm {left left' : List γ} (h : left.Perm left') (right : List γ) :
    same left right = same left' right := by
  rw [same_eq_card, same_eq_card, Multiset.coe_eq_coe.mpr h]

/-- **One more element** is shared when the other side has more copies of
it than were there before. -/
theorem same_snoc (left right : List γ) (x : γ) :
    same (left ++ [x]) right = same left right + if left.count x < right.count x then 1 else 0 := by
  have hperm : same (left ++ [x]) right = same (x :: left) right :=
    same_perm (List.perm_append_comm) right
  rw [hperm, same_eq_card, same_eq_card, ← Multiset.cons_coe]
  split_ifs with hx
  · have hmem : x ∈ (right : Multiset γ) := by
      rw [Multiset.mem_coe, ← List.count_pos_iff]
      omega
    rw [Multiset.cons_inter_of_pos _ hmem, Multiset.card_cons, Nat.add_right_cancel_iff]
    refine congrArg Multiset.card (Multiset.ext.mpr fun y => ?_)
    rw [Multiset.count_inter, Multiset.count_inter]
    by_cases hy : y = x
    · subst hy
      rw [Multiset.count_erase_self, Multiset.coe_count, Multiset.coe_count]
      omega
    · rw [Multiset.count_erase_of_ne hy]
  · rw [Nat.add_zero]
    refine congrArg Multiset.card (Multiset.ext.mpr fun y => ?_)
    rw [Multiset.count_inter, Multiset.count_inter, Multiset.coe_count, Multiset.coe_count,
      Multiset.count_cons, Multiset.coe_count]
    split_ifs with hy
    · subst hy
      omega
    · rfl

/-- Counting survives an injective renaming. -/
theorem same_map {δ : Type} [DecidableEq δ] {f : γ → δ} (hf : Function.Injective f)
    (left right : List γ) : same (left.map f) (right.map f) = same left right := by
  rw [same, same, List.dedup_map_of_injective hf, List.map_map]
  refine congrArg List.sum (List.map_congr_left fun x _ => ?_)
  show min ((left.map f).count (f x)) ((right.map f).count (f x)) = _
  rw [List.count_map_of_injective left f hf, List.count_map_of_injective right f hf]

end Xsr.Lib.Counter
