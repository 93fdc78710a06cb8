import Xsr.Policy.JaccardHeader

/-!
# Operators — any, all or none

Both generators read the operator of a signal by its name in `OPERATORS`,
and both references spell the names out.
-/

namespace Xsr.Policy

open Kernel Lib

/-- The key of an operator in `OPERATORS`. -/
def operatorName : Operator → String
  | .or => "OR"
  | .and => "AND"
  | .nor => "NOR"

theorem operatorConstant_name {name : String} {operator : Operator}
    (h : operatorConstant name = some operator) : name = operatorName operator := by
  obtain ⟨l₁, l₂, hsplit, -⟩ := List.lookup_eq_some_iff.mp h
  have hmem : (name, operator) ∈ [("OR", Operator.or), ("AND", .and), ("NOR", .nor)] := by
    rw [hsplit]
    simp
  simp only [List.mem_cons, Prod.mk.injEq, List.not_mem_nil, or_false] at hmem
  rcases hmem with ⟨rfl, rfl⟩ | ⟨rfl, rfl⟩ | ⟨rfl, rfl⟩ <;> rfl

theorem pyUpper_operatorName (u : Unicode) (operator : Operator) :
    pyUpper u (operatorName operator) = operatorName operator := by
  have hall : (operatorName operator).toList.all (fun c => c.toNat < 128) = true := by
    cases operator <;> rfl
  have hmap : (operatorName operator).toList.map Char.toUpper = (operatorName operator).toList := by
    cases operator <;> decide
  have hascii : ∀ c ∈ (operatorName operator).toList, c.toNat < 128 := fun c hc =>
    of_decide_eq_true (List.all_eq_true.mp hall c hc)
  rw [pyUpper, u.upperText_ascii hascii, hmap, String.ofList_toList]

end Xsr.Policy

namespace Xsr.Kernel

/-- The result of a rule over the results for its keywords. -/
def Operator.results {α : Type} (operator : Operator) (xs : List α) (isMatch : α → Bool) : Bool :=
  match operator with
  | .or => xs.any isMatch
  | .and => xs.all isMatch
  | .nor => !xs.any isMatch

/-- The references collect the keywords that match and look at how many
there are. -/
theorem Operator.results_filter {α : Type} (operator : Operator) (xs : List α)
    (isMatch : α → Bool) :
    operator.results xs isMatch = match operator with
      | .or => !(xs.filter isMatch).isEmpty
      | .and => (xs.filter isMatch).length == xs.length
      | .nor => (xs.filter isMatch).isEmpty := by
  have hempty : (xs.filter isMatch).isEmpty = !xs.any isMatch := by
    rw [Bool.eq_iff_iff, List.isEmpty_iff, List.filter_eq_nil_iff, Bool.not_eq_true',
      List.any_eq_false]
  cases operator with
  | or => rw [results, hempty, Bool.not_not]
  | and =>
      rw [results, Bool.eq_iff_iff, beq_iff_eq, List.length_filter_eq_length_iff,
        List.all_eq_true]
  | nor => rw [results, hempty]

/-- Only the results count. -/
theorem Operator.results_map {α : Type} (operator : Operator) (xs : List α) (isMatch : α → Bool) :
    operator.results xs isMatch = operator.results (xs.map isMatch) id := by
  cases operator with
  | or => simp [results]
  | and => simp [results]
  | nor => simp [results]

/-- The result depends on which results there are for the keywords, not on
their order. -/
theorem Operator.results_congr {α β : Type} {operator : Operator} {xs : List α} {ys : List β}
    {isMatch : α → Bool} {isMatch' : β → Bool}
    (hleft : ∀ x ∈ xs, ∃ y ∈ ys, isMatch x = isMatch' y)
    (hright : ∀ y ∈ ys, ∃ x ∈ xs, isMatch x = isMatch' y) :
    operator.results xs isMatch = operator.results ys isMatch' := by
  have hany : xs.any isMatch = ys.any isMatch' := by
    rw [Bool.eq_iff_iff, List.any_eq_true, List.any_eq_true]
    constructor
    · rintro ⟨x, hx, htrue⟩
      obtain ⟨y, hy, heq⟩ := hleft x hx
      exact ⟨y, hy, heq ▸ htrue⟩
    · rintro ⟨y, hy, htrue⟩
      obtain ⟨x, hx, heq⟩ := hright y hy
      exact ⟨x, hx, heq.trans htrue⟩
  have hall : xs.all isMatch = ys.all isMatch' := by
    rw [Bool.eq_iff_iff, List.all_eq_true, List.all_eq_true]
    constructor
    · intro htrue y hy
      obtain ⟨x, hx, heq⟩ := hright y hy
      exact heq ▸ htrue x hx
    · intro htrue x hx
      obtain ⟨y, hy, heq⟩ := hleft x hx
      exact heq.trans (htrue y hy)
  cases operator with
  | or => exact hany
  | and => exact hall
  | nor => exact congrArg (!·) hany

end Xsr.Kernel
