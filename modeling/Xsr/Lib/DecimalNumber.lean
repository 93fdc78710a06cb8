import Mathlib
import Xsr.Lib.Unicode

/-!
# DecimalNumber — decimal floating point in the default context

Python's `decimal`: numbers are read exactly, products are rounded half to
even to 28 digits, and a number is rounded half up to an integer by
`quantize`. Signed zeros are kept because the text decides them; nothing
below distinguishes them.
-/

namespace Xsr.Lib

/-- The value `±coefficient · 10 ^ exponent`. -/
structure DecimalNumber where
  negative : Bool
  coefficient : Nat
  exponent : Int
  deriving DecidableEq

/-- What `Decimal(text)` can be. -/
inductive Decimal where
  | finite (x : DecimalNumber)
  | infinity (negative : Bool)
  | nan
  deriving DecidableEq

/-- `getcontext().prec` -/
def decimalPrecision : Nat := 28
/-- `Etiny` of the default context, `-999999 - 27`. -/
def decimalEtiny : Int := -1000026
/-- `MAX_EMAX` -/
def decimalMaxExponent : Int := 999999999999999999
/-- `MIN_ETINY` -/
def decimalMinExponent : Int := -1999999999999999997

/-! ## Reading -/

namespace Decimal
variable (u : Unicode)

/-- Any decimal digit as its ASCII digit. -/
def asciiDigit (c : Char) : Char :=
  match u.digit c with
  | some d => Char.ofNat (48 + d)
  | none => c

/-- An optional sign. -/
def sign : List Char → Bool × List Char
  | '-' :: cs => (true, cs)
  | '+' :: cs => (false, cs)
  | cs => (false, cs)

/-- The number a run of ASCII digits writes. -/
def digits (cs : List Char) : Nat := Nat.ofDigits 10 (cs.reverse.map fun c => c.toNat - 48)

/-- The exponent part; nothing at all is exponent zero. -/
def exponentPart : List Char → Option Int
  | [] => some 0
  | e :: cs =>
      let (negative, ds) := sign cs
      if (e = 'e' ∨ e = 'E') ∧ ds ≠ [] ∧ ds.all Char.isDigit then
        some (if negative then -(digits ds) else digits ds)
      else none

/-- Digits, with at most one point among them, then the exponent part. -/
def numeral (negative : Bool) (cs : List Char) : Option Decimal :=
  let whole := cs.takeWhile Char.isDigit
  let rest := cs.dropWhile Char.isDigit
  let (fraction, rest) := match rest with
    | '.' :: cs => (cs.takeWhile Char.isDigit, cs.dropWhile Char.isDigit)
    | cs => ([], cs)
  match exponentPart rest with
  | none => none
  | some e =>
      let ds := whole ++ fraction
      let exponent := e - fraction.length
      let adjusted := exponent + (Nat.digits 10 (digits ds)).length - 1
      if ds = [] ∨ exponent < decimalMinExponent ∨ decimalMaxExponent < adjusted then none
      else some (.finite ⟨negative, digits ds, exponent⟩)

/-- `Decimal(text)`; `none` is `InvalidOperation`. -/
def read (text : List Char) : Option Decimal :=
  let (negative, cs) := sign (((Unicode.strip text).filter (· != '_')).map (asciiDigit u))
  let folded := cs.map Char.toLower
  if folded = "inf".toList ∨ folded = "infinity".toList then some (.infinity negative)
  else if ("nan".toList.isPrefixOf folded && (folded.drop 3).all Char.isDigit)
      || ("snan".toList.isPrefixOf folded && (folded.drop 4).all Char.isDigit) then some .nan
  else numeral negative cs

end Decimal

/-! ## Rounding -/

namespace DecimalNumber

/-- `c / d` rounded half to even. -/
def divHalfEven (c d : Nat) : Nat :=
  if d < 2 * (c % d) ∨ (2 * (c % d) = d ∧ c / d % 2 = 1) then c / d + 1 else c / d

/-- `c / d` rounded half up. -/
def divHalfUp (c d : Nat) : Nat := if d ≤ 2 * (c % d) then c / d + 1 else c / d

/-- Rounded to the digits and the least exponent of the context. -/
def fit (x : DecimalNumber) : DecimalNumber :=
  let drop := max ((Nat.digits 10 x.coefficient).length - decimalPrecision : Int)
    (decimalEtiny - x.exponent)
  if drop ≤ 0 then x
  else { x with coefficient := divHalfEven x.coefficient (10 ^ drop.toNat)
                exponent := x.exponent + drop }

/-- `x * n` for a natural number. -/
def scale (x : DecimalNumber) (n : Nat) : DecimalNumber :=
  { x with coefficient := x.coefficient * n }.fit

/-- The sign put back on a magnitude. -/
def signed (x : DecimalNumber) (n : Nat) : Int := if x.negative then -n else n

/-- `x == x.to_integral_value()` -/
def isIntegral (x : DecimalNumber) : Bool :=
  0 ≤ x.exponent || x.coefficient % 10 ^ (-x.exponent).toNat == 0

/-- `int(x)`: towards zero. -/
def truncate (x : DecimalNumber) : Int :=
  x.signed (if 0 ≤ x.exponent then x.coefficient * 10 ^ x.exponent.toNat
    else x.coefficient / 10 ^ (-x.exponent).toNat)

/-- The magnitude of `x.quantize(1, ROUND_HALF_UP)`. -/
def nearest (x : DecimalNumber) : Nat :=
  if 0 ≤ x.exponent then x.coefficient * 10 ^ x.exponent.toNat
  else divHalfUp x.coefficient (10 ^ (-x.exponent).toNat)

/-- `int(x.quantize(1, ROUND_HALF_UP))`; `none` is `InvalidOperation`, for a
result of more digits than the context has. -/
def quantize (x : DecimalNumber) : Option Int :=
  if decimalPrecision < (Nat.digits 10 x.nearest).length then none else some (x.signed x.nearest)

/-- `Decimal("0") <= x <= Decimal("1")` -/
def inUnit (x : DecimalNumber) : Bool :=
  x.coefficient == 0 ||
    (!x.negative &&
      (if 0 ≤ x.exponent then x.coefficient * 10 ^ x.exponent.toNat ≤ 1
       else x.coefficient ≤ 10 ^ (-x.exponent).toNat))

/-- A number that is an integer is quantized to itself. -/
theorem nearest_of_isIntegral {x : DecimalNumber} (h : x.isIntegral = true) :
    x.signed x.nearest = x.truncate := by
  unfold nearest truncate
  split_ifs with hexp
  · rfl
  · have hmod : x.coefficient % 10 ^ (-x.exponent).toNat = 0 := by
      simpa [isIntegral, hexp] using h
    have hpos : 0 < 10 ^ (-x.exponent).toNat := Nat.pow_pos (by decide)
    rw [divHalfUp, hmod, if_neg (by omega)]

/-! ## Bounds -/

/-- The magnitude is at most `n`. -/
def AtMost (x : DecimalNumber) (n : Nat) : Prop :=
  if 0 ≤ x.exponent then x.coefficient * 10 ^ x.exponent.toNat ≤ n
  else x.coefficient ≤ n * 10 ^ (-x.exponent).toNat

theorem divHalfEven_le {c d n : Nat} (hd : 0 < d) (h : c ≤ n * d) : divHalfEven c d ≤ n := by
  have hdiv : c / d ≤ n := Nat.div_le_of_le_mul (by rwa [Nat.mul_comm])
  rcases Nat.lt_or_ge (c / d) n with hlt | hge
  · unfold divHalfEven
    split_ifs <;> omega
  · -- the quotient is exact
    have heq : c / d = n := Nat.le_antisymm hdiv hge
    have hmod := Nat.div_add_mod c d
    rw [heq, Nat.mul_comm] at hmod
    have hzero : c % d = 0 := by omega
    rw [divHalfEven, hzero, heq, if_neg]
    omega

theorem divHalfUp_le {c d n : Nat} (hd : 0 < d) (h : c ≤ n * d) : divHalfUp c d ≤ n := by
  have hdiv : c / d ≤ n := Nat.div_le_of_le_mul (by rwa [Nat.mul_comm])
  rcases Nat.lt_or_ge (c / d) n with hlt | hge
  · unfold divHalfUp
    split_ifs <;> omega
  · have heq : c / d = n := Nat.le_antisymm hdiv hge
    have hmod := Nat.div_add_mod c d
    rw [heq, Nat.mul_comm] at hmod
    have hzero : c % d = 0 := by omega
    rw [divHalfUp, hzero, heq, if_neg]
    omega

/-- A bound of few digits survives rounding to the context. -/
theorem AtMost.fit {x : DecimalNumber} {n : Nat} (h : x.AtMost n) (hn : n < 10 ^ 27) :
    x.fit.AtMost n := by
  unfold DecimalNumber.fit
  dsimp only
  split_ifs with hdrop
  · exact h
  rw [not_le] at hdrop
  set drop := max ((Nat.digits 10 x.coefficient).length - decimalPrecision : Int)
    (decimalEtiny - x.exponent) with hdropeq
  have hlen : ∀ k : Nat, k < (Nat.digits 10 x.coefficient).length → 10 ^ k ≤ x.coefficient := by
    intro k hk
    by_contra hlt
    exact absurd ((Nat.digits_length_le_iff (by decide) _).mpr (not_le.mp hlt)) (by omega)
  unfold AtMost at h ⊢
  dsimp only
  by_cases hexp : 0 ≤ x.exponent
  · -- a coefficient that has to be rounded is too large
    rw [if_pos hexp] at h
    have hpow : 1 ≤ 10 ^ x.exponent.toNat := Nat.one_le_pow _ _ (by decide)
    have hcoeff : x.coefficient ≤ n := (Nat.le_mul_of_pos_right _ hpow).trans h
    have hbig := hlen 27 (by
      simp only [decimalPrecision, decimalEtiny] at hdropeq
      omega)
    omega
  rw [if_neg hexp] at h
  have hcross : x.exponent + drop < 0 := by
    by_contra hcross
    have hdigits : -x.exponent + 28 ≤ (Nat.digits 10 x.coefficient).length := by
      simp only [decimalPrecision, decimalEtiny] at hdropeq
      omega
    have hbig := hlen ((-x.exponent).toNat + 27) (by omega)
    rw [Nat.pow_add, Nat.mul_comm] at hbig
    have hpow : 0 < 10 ^ (-x.exponent).toNat := Nat.pow_pos (by decide)
    have := Nat.le_of_mul_le_mul_right (hbig.trans h) hpow
    omega
  rw [if_neg (by omega)]
  apply divHalfEven_le (Nat.pow_pos (by decide))
  rw [Nat.mul_assoc, ← Nat.pow_add]
  have hsplit : (-(x.exponent + drop)).toNat + drop.toNat = (-x.exponent).toNat := by omega
  rwa [hsplit]

theorem AtMost.scale {x : DecimalNumber} {k n : Nat} (h : x.AtMost k) (hn : k * n < 10 ^ 27) :
    (x.scale n).AtMost (k * n) := by
  refine AtMost.fit ?_ hn
  unfold AtMost at h ⊢
  dsimp only
  split_ifs at h ⊢ with hexp
  · rw [Nat.mul_right_comm]
    exact Nat.mul_le_mul_right n h
  · rw [Nat.mul_right_comm k n]
    exact Nat.mul_le_mul_right n h

theorem AtMost.nearest_le {x : DecimalNumber} {n : Nat} (h : x.AtMost n) : x.nearest ≤ n := by
  unfold AtMost at h
  unfold nearest
  split_ifs at h ⊢ with hexp
  · exact h
  · exact divHalfUp_le (Nat.pow_pos (by decide)) h

theorem scale_negative (x : DecimalNumber) (n : Nat) : (x.scale n).negative = x.negative := by
  unfold scale fit
  dsimp only
  split_ifs <;> rfl

theorem inUnit_cases {x : DecimalNumber} (h : x.inUnit = true) :
    x.AtMost 1 ∧ (x.negative = true → x.AtMost 0) := by
  unfold inUnit at h
  unfold AtMost
  rcases Bool.or_eq_true_iff.mp h with hzero | hunit
  · have : x.coefficient = 0 := eq_of_beq hzero
    rw [this]
    simp
  · obtain ⟨hsign, hle⟩ := Bool.and_eq_true_iff.mp hunit
    constructor
    · split_ifs at hle ⊢ with hexp
      · simpa using hle
      · simpa using hle
    · intro hneg
      rw [hneg] at hsign
      cases hsign

/-- **A share of the unit interval**, scaled and rounded, is between nothing
and the whole scale. -/
theorem nearest_scale_bounds {x : DecimalNumber} (h : x.inUnit = true) {n : Nat} (hn : n < 10 ^ 27) :
    0 ≤ (x.scale n).signed (x.scale n).nearest ∧ (x.scale n).signed (x.scale n).nearest ≤ n := by
  obtain ⟨hone, hneg⟩ := inUnit_cases h
  have hle := (hone.scale (n := n) (by omega)).nearest_le
  unfold signed
  split_ifs with hsign
  · rw [scale_negative] at hsign
    have hzero := ((hneg hsign).scale (n := n) (by omega)).nearest_le
    omega
  · omega

end DecimalNumber

end Xsr.Lib
