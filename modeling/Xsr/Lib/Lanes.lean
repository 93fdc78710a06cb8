import Mathlib

/-!
# Lanes — small counters packed into one number

`n` counters in lanes of `b` bits each, the first one lowest. As long as
every counter fits its lane, a lane is read back by a shift and a mask,
packed numbers add lane by lane, and setting a bit of an empty lane is an
addition.
-/

namespace Xsr.Lib

/-- The counters `f 0`, …, `f (n - 1)` in lanes of `b` bits. -/
def pack (b : Nat) : Nat → (Nat → Nat) → Nat
  | 0, _ => 0
  | n + 1, f => f 0 + 2 ^ b * pack b n fun i => f (i + 1)

/-- One in lane `k`. -/
def unit (k : Nat) : Nat → Nat := fun i => if i = k then 1 else 0

variable {b n : Nat} {f g : Nat → Nat}

theorem pack_congr (h : ∀ i < n, f i = g i) : pack b n f = pack b n g := by
  induction n generalizing f g with
  | zero => rfl
  | succ n ih =>
      rw [pack, pack, h 0 (by omega), ih fun i hi => h (i + 1) (by omega)]

theorem pack_add (f g : Nat → Nat) :
    pack b n f + pack b n g = pack b n fun i => f i + g i := by
  induction n generalizing f g with
  | zero => rfl
  | succ n ih =>
      rw [pack, pack, pack, ← ih]
      ring

theorem pack_zero : pack b n (fun _ => 0) = 0 := by
  induction n with
  | zero => rfl
  | succ n ih => rw [pack, ih, Nat.mul_zero]

theorem pack_lt (h : ∀ i < n, f i < 2 ^ b) : pack b n f < 2 ^ (b * n) := by
  induction n generalizing f with
  | zero => simp [pack]
  | succ n ih =>
      have h0 := h 0 (by omega)
      have hrest := ih fun i hi => h (i + 1) (by omega)
      rw [pack, Nat.mul_succ, Nat.pow_add, Nat.mul_comm (2 ^ (b * n))]
      calc f 0 + 2 ^ b * pack b n (fun i => f (i + 1))
          < 2 ^ b + 2 ^ b * pack b n (fun i => f (i + 1)) := by omega
        _ = 2 ^ b * (pack b n (fun i => f (i + 1)) + 1) := by ring
        _ ≤ 2 ^ b * 2 ^ (b * n) := Nat.mul_le_mul_left _ hrest

/-- **A lane** is read by a shift and a mask. -/
theorem pack_lane (h : ∀ i < n, f i < 2 ^ b) {k : Nat} (hk : k < n) :
    (pack b n f >>> (k * b)) &&& (2 ^ b - 1) = f k := by
  rw [Nat.and_two_pow_sub_one_eq_mod]
  induction n generalizing f k with
  | zero => omega
  | succ n ih =>
      have h0 := h 0 (by omega)
      cases k with
      | zero =>
          rw [Nat.zero_mul, Nat.shiftRight_zero, pack, Nat.add_mul_mod_self_left,
            Nat.mod_eq_of_lt h0]
      | succ k =>
          have hshift : pack b (n + 1) f >>> b = pack b n fun i => f (i + 1) := by
            rw [Nat.shiftRight_eq_div_pow, pack, Nat.add_mul_div_left _ _ (Nat.two_pow_pos b),
              Nat.div_eq_of_lt h0, Nat.zero_add]
          rw [Nat.succ_mul, Nat.add_comm (k * b), Nat.shiftRight_add, hshift]
          exact ih (fun i hi => h (i + 1) (by omega)) (by omega)

/-- The bit of one lane. -/
theorem pack_unit {k : Nat} (hk : k < n) : pack b n (unit k) = 2 ^ (k * b) := by
  induction n generalizing k with
  | zero => omega
  | succ n ih =>
      cases k with
      | zero =>
          have hrest : (fun i => unit 0 (i + 1)) = fun _ => 0 := funext fun i => by simp [unit]
          rw [pack, hrest, pack_zero]
          simp [unit]
      | succ k =>
          have hrest : (fun i => unit (k + 1) (i + 1)) = unit k := funext fun i => by simp [unit]
          rw [pack, hrest, ih (by omega), Nat.succ_mul, Nat.pow_add]
          simp [unit, Nat.mul_comm]

/-- **Setting the bit of an empty lane** adds it. -/
theorem pack_or_unit (hb : 0 < b) (h : ∀ i < n, f i < 2 ^ b) {k : Nat} (hk : k < n)
    (hempty : f k = 0) :
    pack b n f ||| 2 ^ (k * b) = pack b n fun i => f i + unit k i := by
  rw [← pack_add, pack_unit hk]
  induction n generalizing f k with
  | zero => omega
  | succ n ih =>
      have h0 := h 0 (by omega)
      have hsplit : ∀ x, f 0 + 2 ^ b * x = 2 ^ b * x ||| f 0 := fun x => by
        rw [Nat.add_comm, Nat.two_pow_add_eq_or_of_lt h0]
      cases k with
      | zero =>
          have hone : (1 : Nat) < 2 ^ b := Nat.one_lt_two_pow hb.ne'
          rw [pack, hempty, Nat.zero_mul, Nat.pow_zero, Nat.zero_add,
            ← Nat.two_pow_add_eq_or_of_lt hone]
      | succ k =>
          have hrest := ih (fun i hi => h (i + 1) (by omega)) (by omega) hempty
          have hor : ∀ x y, 2 ^ b * x ||| 2 ^ b * y = 2 ^ b * (x ||| y) := fun x y => by
            rw [Nat.mul_comm, Nat.mul_comm _ y, Nat.mul_comm _ (x ||| y), ← Nat.shiftLeft_eq,
              ← Nat.shiftLeft_eq, ← Nat.shiftLeft_eq, Nat.shiftLeft_or_distrib]
          rw [pack, Nat.succ_mul, Nat.pow_add, Nat.mul_comm (2 ^ (k * b))]
          generalize pack b n (fun i => f (i + 1)) = x at hrest
          calc f 0 + 2 ^ b * x ||| 2 ^ b * 2 ^ (k * b)
              = 2 ^ b * x ||| 2 ^ b * 2 ^ (k * b) ||| f 0 := by
                rw [hsplit, Nat.or_assoc, Nat.or_comm (f 0), ← Nat.or_assoc]
            _ = f 0 + 2 ^ b * (x + 2 ^ (k * b)) := by rw [hor, hrest, ← hsplit]
            _ = f 0 + 2 ^ b * x + 2 ^ b * 2 ^ (k * b) := by rw [Nat.mul_add, Nat.add_assoc]

end Xsr.Lib
