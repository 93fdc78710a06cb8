import Mathlib

/-!
# Count — how many flags of a finite family are set

The number a counter variable is meant to hold, and what setting or
clearing one flag does to it.
-/

namespace Xsr.Lib

variable {ι : Type} [Fintype ι]

/-- The number of set flags. -/
def count (p : ι → Bool) : Nat := (Finset.univ.filter fun i => p i = true).card

theorem count_le (p : ι → Bool) : count p ≤ Fintype.card ι := Finset.card_filter_le _ _

@[simp] theorem count_false : count (fun _ : ι => false) = 0 := by
  simp [count]

theorem count_pos {p : ι → Bool} {i : ι} (h : p i = true) : 0 < count p :=
  Finset.card_pos.mpr ⟨i, by simp [h]⟩

variable [DecidableEq ι]

theorem count_set {p : ι → Bool} {i : ι} (h : p i = false) :
    count (Function.update p i true) = count p + 1 := by
  have hfilter : (Finset.univ.filter fun j => Function.update p i true j = true) =
      insert i (Finset.univ.filter fun j => p j = true) := by
    ext j
    by_cases hj : j = i
    · simp [hj]
    · simp [hj]
  rw [count, hfilter, Finset.card_insert_of_notMem (by simp [h])]
  rfl

theorem count_clear {p : ι → Bool} {i : ι} (h : p i = true) :
    count (Function.update p i false) + 1 = count p := by
  have hback := count_set (p := Function.update p i false) (i := i) (by simp)
  have hself : Function.update p i true = p := by
    rw [← h, Function.update_eq_self]
  rw [Function.update_idem, hself] at hback
  exact hback.symm

/-- A family of three kinds that exclude each other: two are flagged and the
third is listed without repetition. -/
theorem count_partition {p q : ι → Bool} {rest : List ι} (hpq : ∀ i, p i = true → q i = false)
    (hnodup : rest.Nodup) (hrest : ∀ i, i ∈ rest ↔ p i = false ∧ q i = false) :
    rest.length + count p + count q = Fintype.card ι := by
  have hunion : (Finset.univ : Finset ι) =
      (rest.toFinset ∪ Finset.univ.filter fun i => p i = true) ∪
        Finset.univ.filter fun i => q i = true := by
    ext i
    simp only [Finset.mem_univ, Finset.mem_union, List.mem_toFinset, Finset.mem_filter,
      true_and, hrest i]
    cases p i <;> cases q i <;> simp
  have h1 : Disjoint rest.toFinset (Finset.univ.filter fun i => p i = true) := by
    refine Finset.disjoint_left.mpr fun i hi hp => ?_
    have hp' := ((hrest i).mp (List.mem_toFinset.mp hi)).1
    simp [hp'] at hp
  have h2 : Disjoint (rest.toFinset ∪ Finset.univ.filter fun i => p i = true)
      (Finset.univ.filter fun i => q i = true) := by
    refine Finset.disjoint_left.mpr fun i hi hq => ?_
    have hq' : q i = true := by simpa using hq
    rcases Finset.mem_union.mp hi with hi | hi
    · have := ((hrest i).mp (List.mem_toFinset.mp hi)).2
      simp [hq'] at this
    · have := hpq i (by simpa using hi)
      simp [hq'] at this
  rw [← Finset.card_univ, hunion, Finset.card_union_of_disjoint h2,
    Finset.card_union_of_disjoint h1, List.toFinset_card_of_nodup hnodup]
  rfl

end Xsr.Lib
