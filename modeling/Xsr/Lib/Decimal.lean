import Mathlib

/-!
# Decimal — the number a string of ASCII digits writes

High digit first, as in a header field. Concatenation shifts, so a number
that a longer string of digits still writes was padded with zeros.
-/

namespace Xsr.Lib

/-- The number a string of digits writes. -/
def decimal (digits : List UInt8) : Nat :=
  Nat.ofDigits 10 (digits.reverse.map fun d => d.toNat - 48)

/-- All bytes are digits. -/
def AllDigits (digits : List UInt8) : Prop := ∀ d ∈ digits, 48 ≤ d.toNat ∧ d.toNat ≤ 57

theorem decimal_nil : decimal [] = 0 := rfl

theorem decimal_append (a b : List UInt8) :
    decimal (a ++ b) = decimal a * 10 ^ b.length + decimal b := by
  rw [decimal, List.reverse_append, List.map_append, Nat.ofDigits_append, List.length_map,
    List.length_reverse, Nat.add_comm, Nat.mul_comm]
  rfl

theorem decimal_snoc (digits : List UInt8) (d : UInt8) :
    decimal (digits ++ [d]) = decimal digits * 10 + (d.toNat - 48) := by
  rw [decimal_append]
  simp [decimal]

theorem decimal_lt {digits : List UInt8} (h : AllDigits digits) :
    decimal digits < 10 ^ digits.length := by
  have hlt := Nat.ofDigits_lt_base_pow_length (b := 10)
    (l := digits.reverse.map fun d => d.toNat - 48) (by decide) (by
      intro x hx
      obtain ⟨d, hd, rfl⟩ := List.mem_map.mp hx
      have := h d (List.mem_reverse.mp hd)
      omega)
  rwa [List.length_map, List.length_reverse] at hlt

/-- A string of digits inside a longer one writes the same number exactly
when only zeros stand before it, and nothing after it unless all is zero. -/
theorem decimal_middle {a b c : List UInt8} (hb : AllDigits b) :
    decimal (a ++ b ++ c) = decimal b ↔
      decimal a = 0 ∧ (c = [] ∨ (decimal b = 0 ∧ decimal c = 0)) := by
  have hlt := decimal_lt hb
  rw [decimal_append, decimal_append]
  have hone : 1 ≤ 10 ^ c.length := Nat.one_le_pow _ _ (by decide)
  constructor
  · intro h
    have hzero : decimal a = 0 := by
      by_contra hne
      have hbig : 10 ^ b.length ≤ decimal a * 10 ^ b.length + decimal b :=
        Nat.le_trans (Nat.le_mul_of_pos_left _ (Nat.pos_of_ne_zero hne)) (Nat.le_add_right _ _)
      have hmore := Nat.le_mul_of_pos_right (decimal a * 10 ^ b.length + decimal b) hone
      omega
    refine ⟨hzero, ?_⟩
    rw [hzero, Nat.zero_mul, Nat.zero_add] at h
    cases c with
    | nil => exact .inl rfl
    | cons x xs =>
        have hten : 10 ≤ 10 ^ (x :: xs).length := by
          rw [List.length_cons, Nat.pow_succ]
          have := Nat.one_le_pow xs.length 10 (by decide)
          omega
        have hgrow : decimal b * 10 ≤ decimal b * 10 ^ (x :: xs).length :=
          Nat.mul_le_mul_left _ hten
        exact .inr (by omega)
  · rintro ⟨ha, rfl | ⟨hb0, hc0⟩⟩
    · simp [ha, decimal_nil]
    · simp [ha, hb0, hc0]

end Xsr.Lib
