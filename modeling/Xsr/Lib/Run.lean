import Mathlib

/-!
# Run — finite runs of a labelled step relation

A run lists its labels in order, the latest step last, so an invariant of
the state reached is an induction on the run. The two rules here are the
ones a proof about a system needs: what every step preserves holds at the
end, and what every step's label satisfies holds of all labels.
-/

namespace Xsr.Lib

variable {σ ε : Type}

/-- The states `step` reaches from `s`, with the labels on the way. -/
inductive Run (step : σ → ε → σ → Prop) (s : σ) : List ε → σ → Prop where
  | nil : Run step s [] s
  | snoc {es : List ε} {s' s'' : σ} {e : ε} (run : Run step s es s') (last : step s' e s'') :
      Run step s (es ++ [e]) s''

section
variable {step : σ → ε → σ → Prop} {s s' : σ} {es : List ε}

/-- One step. -/
theorem Run.single {e : ε} (h : step s e s') : Run step s [e] s' :=
  .snoc .nil h

/-- Runs in sequence. -/
theorem Run.append {s'' : σ} {es' : List ε} (run : Run step s es s') (run' : Run step s' es' s'') :
    Run step s (es ++ es') s'' := by
  induction run' with
  | nil => rw [List.append_nil]; exact run
  | snoc _ last ih => rw [← List.append_assoc]; exact ih.snoc last

/-- **The invariant rule.** -/
theorem Run.invariant {I : σ → Prop} (run : Run step s es s') (h0 : I s)
    (hstep : ∀ t e t', I t → step t e t' → I t') : I s' := by
  induction run with
  | nil => exact h0
  | snoc _ last ih => exact hstep _ _ _ ih last

/-- **The trace rule**: an invariant, and what it says of each label. -/
theorem Run.trace {I : σ → Prop} {P : ε → Prop} (run : Run step s es s') (h0 : I s)
    (hstep : ∀ t e t', I t → step t e t' → I t' ∧ P e) : I s' ∧ ∀ e ∈ es, P e := by
  induction run with
  | nil => exact ⟨h0, by simp⟩
  | snoc _ last ih =>
      obtain ⟨hI, hP⟩ := ih
      obtain ⟨hI', hP'⟩ := hstep _ _ _ hI last
      refine ⟨hI', fun e he => ?_⟩
      rcases List.mem_append.mp he with he | he
      · exact hP e he
      · rw [List.mem_singleton.mp he]; exact hP'

end

end Xsr.Lib
