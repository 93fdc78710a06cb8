import Xsr.Lib.Counter
import Xsr.Policy.JaccardHeader

/-!
# Reference — `jaccard_reference.py`

The reference matcher counts the padded trigrams of a word and of a keyword
and compares the shared ones with all of them. A threshold the generator
accepts is a whole number of thousandths, so both read it alike.
-/

namespace Xsr.Signals

open Kernel Lib Policy

section Matcher
variable (u : Unicode)

/-- `word_grams`, the grams that the `Counter` counts. -/
def wordGrams (word : List Char) (arity : Nat) (caseSensitive : Bool) : List (List Char) :=
  paddedGrams arity ' ' (if caseSensitive then word else u.lowerText word)

/-- A character `re.split(r"[^\w-]+", text)` does not split at. -/
def wordPart (c : Char) : Bool := u.wordChar c || c == '-'

/-- `words` -/
def words (text : List Char) : List (List Char) :=
  (text.splitOnP fun c => !wordPart u c).filter fun word => !word.isEmpty

/-- `similarity_counts`. None of the differences is negative. -/
def similarityCounts (left right : List (List Char)) : Nat × Nat × Nat :=
  let same := Counter.same left right
  let allGrams := left.length + right.length - same
  (same, allGrams, allGrams * allGrams - (allGrams - same) * (allGrams - same))

/-- The comparison of `matches` with a threshold in thousandths. -/
def reaches (counts : Nat × Nat × Nat) (threshold : Int) : Bool :=
  counts.1 != 0 && counts.2.1 != 0
    && decide ((counts.2.1 * counts.2.1 : Nat) * threshold ≤ counts.2.2 * 1000)

/-- `matches`, the threshold in thousandths. -/
def wordMatches (word keyword : List Char) (arity : Nat) (threshold : Int)
    (caseSensitive : Bool) : Bool :=
  reaches (similarityCounts (wordGrams u word arity caseSensitive)
    (wordGrams u keyword arity caseSensitive)) threshold

/-- `threshold_milli` of the reference. -/
def referenceThreshold (value : PyVal) : Except PyError Int := do
  match ← value.toDecimal u with
  | .nan => .error .conversion
  | .infinity _ => .error .arithmetic
  | .finite x => (x.scale 1000).quantize.elim (.error .arithmetic) .ok

end Matcher

/-! ## Thresholds -/

section Thresholds
variable {u : Unicode}

/-- What the generator checked of a threshold. -/
theorem thresholdMilli_ok {value : PyVal} {t : Int} (h : thresholdMilli u value = .ok t) :
    ∃ x, value.toDecimal u = .ok (.finite x) ∧ x.inUnit = true ∧
      t = (x.scale 1000).signed (x.scale 1000).nearest := by
  unfold thresholdMilli raiseIf at h
  obtain ⟨d, hd, h⟩ := bind_ok h
  cases d with
  | nan => cases h
  | infinity negative => cases h
  | finite x =>
      obtain ⟨_, hunit, h⟩ := bind_ok h
      obtain ⟨_, hintegral, h⟩ := bind_ok h
      cases h
      refine ⟨x, hd, by simpa using refuseIf_ok hunit, ?_⟩
      exact (DecimalNumber.nearest_of_isIntegral (by simpa using refuseIf_ok hintegral)).symm

/-- A threshold lies between nothing and a thousand thousandths. -/
theorem thresholdMilli_bounds {value : PyVal} {t : Int} (h : thresholdMilli u value = .ok t) :
    0 ≤ t ∧ t ≤ 1000 := by
  obtain ⟨x, -, hunit, rfl⟩ := thresholdMilli_ok h
  exact DecimalNumber.nearest_scale_bounds hunit (by decide)

/-- **Both tools read a threshold alike.** -/
theorem thresholdMilli_reference {value : PyVal} {t : Int} (h : thresholdMilli u value = .ok t) :
    referenceThreshold u value = .ok t := by
  obtain ⟨x, hx, hunit, rfl⟩ := thresholdMilli_ok h
  have hle := ((DecimalNumber.inUnit_cases hunit).1.scale (n := 1000) (by decide)).nearest_le
  have hdigits : (Nat.digits 10 (x.scale 1000).nearest).length ≤ 4 :=
    (Nat.digits_length_le_iff (by decide) _).mpr (by omega)
  have hquantize : (x.scale 1000).quantize
      = some ((x.scale 1000).signed (x.scale 1000).nearest) := by
    rw [DecimalNumber.quantize, if_neg]
    unfold decimalPrecision
    omega
  rw [referenceThreshold, bind_of_ok hx]
  show (x.scale 1000).quantize.elim _ _ = _
  rw [hquantize]
  rfl

end Thresholds

end Xsr.Signals
