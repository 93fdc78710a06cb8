import Mathlib

/-!
# Intervals — separated closed intervals and bit sets

A set of numbers as a sorted list of closed intervals with gaps between
them, and as the bits of a list of words. Binary search decides membership
in the first, a shift and a mask in the second.
-/

namespace Xsr.Lib

/-! ## Intervals -/

/-- `c` lies in one of the intervals. -/
def Covered (ranges : List (Nat × Nat)) (c : Nat) : Prop := ∃ r ∈ ranges, r.1 ≤ c ∧ c ≤ r.2

/-- Sorted, disjoint and not even adjacent intervals. -/
structure Separated (ranges : List (Nat × Nat)) : Prop where
  nonempty : ∀ r ∈ ranges, r.1 ≤ r.2
  apart : ranges.Pairwise fun r r' => r.2 + 1 < r'.1

theorem Separated.nil : Separated [] := ⟨by simp, .nil⟩

theorem Separated.snoc {ranges : List (Nat × Nat)} (h : Separated ranges) {first last : Nat}
    (hlast : first ≤ last) (hfirst : ∀ r ∈ ranges, r.2 + 1 < first) :
    Separated (ranges ++ [(first, last)]) where
  nonempty := by
    intro r hr
    rcases List.mem_append.mp hr with hr | hr
    · exact h.nonempty r hr
    · rw [List.mem_singleton.mp hr]
      exact hlast
  apart := by
    refine List.pairwise_append.mpr ⟨h.apart, List.pairwise_singleton _ _, fun r hr r' hr' => ?_⟩
    rw [List.mem_singleton.mp hr']
    exact hfirst r hr

/-- An interval further right lies above the earlier ones. -/
theorem Separated.getElem_lt {ranges : List (Nat × Nat)} (h : Separated ranges) {i j : Nat}
    (hij : i < j) (hj : j < ranges.length) : ranges[i].2 < ranges[j].1 := by
  have := List.pairwise_iff_getElem.mp h.apart i j (by omega) hj hij
  omega

theorem covered_snoc {ranges : List (Nat × Nat)} {first last c : Nat} :
    Covered (ranges ++ [(first, last)]) c ↔ Covered ranges c ∨ (first ≤ c ∧ c ≤ last) := by
  unfold Covered
  simp only [List.mem_append, List.mem_singleton, or_and_right, exists_or, exists_eq_left]

/-! ## Bit sets -/

/-- Bit `c` of a list of words of `2 ^ k` bits. -/
def wordBit (k : Nat) (words : List Nat) (c : Nat) : Bool :=
  (words.getD (c >>> k) 0).testBit (c % 2 ^ k)

/-- Setting one bit of a word sets one bit of the list. -/
theorem wordBit_set {k : Nat} {words : List Nat} {c : Nat} (h : c >>> k < words.length) (c' : Nat) :
    wordBit k (words.set (c >>> k) (words[c >>> k] ||| 1 <<< (c % 2 ^ k))) c'
      = (wordBit k words c' || decide (c' = c)) := by
  unfold wordBit
  by_cases hword : c' >>> k = c >>> k
  · have hget : (words.set (c >>> k) (words[c >>> k] ||| 1 <<< (c % 2 ^ k))).getD (c' >>> k) 0
        = words[c >>> k] ||| 1 <<< (c % 2 ^ k) := by
      rw [hword, List.getD_eq_getElem _ _ (by simpa using h), List.getElem_set_self]
    have hsame : c % 2 ^ k = c' % 2 ^ k ↔ c' = c := by
      -- the word and the place in it make the number
      rw [Nat.shiftRight_eq_div_pow, Nat.shiftRight_eq_div_pow] at hword
      constructor
      · intro hplace
        rw [← Nat.div_add_mod c' (2 ^ k), ← Nat.div_add_mod c (2 ^ k), hword, hplace]
      · intro hc
        rw [hc]
    rw [hget, hword, List.getD_eq_getElem _ _ h, Nat.testBit_or, Nat.one_shiftLeft,
      Nat.testBit_two_pow]
    simp only [hsame]
  · have hne : c' ≠ c := fun hc => hword (by rw [hc])
    rw [List.getD_eq_getElem?_getD, List.getElem?_set_ne (Ne.symm hword),
      ← List.getD_eq_getElem?_getD]
    simp [hne]

end Xsr.Lib
