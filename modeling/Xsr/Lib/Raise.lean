import Mathlib

/-!
# Raise — programs that stop at the first exception

`Except` programs that returned: a bind returned through both parts, a
guard passed, and a loop over a list went through every element. A loop
that appends one output for each element it accepts relates its inputs to
its outputs element by element.
-/

namespace Xsr.Lib

variable {ε σ α β : Type}

/-- A bind that returned. -/
theorem bind_ok {x : Except ε α} {f : α → Except ε β} {b : β} (h : x >>= f = .ok b) :
    ∃ a, x = .ok a ∧ f a = .ok b := by
  cases x with
  | error e => cases h
  | ok a => exact ⟨a, rfl, h⟩

/-- A bind goes on with what its first part returned. -/
theorem bind_of_ok {x : Except ε α} {f : α → Except ε β} {a : α} (h : x = .ok a) :
    x >>= f = f a := by
  rw [h]
  rfl

/-- `if bad: raise e`. -/
def refuseIf (bad : Bool) (e : ε) : Except ε Unit := if bad then .error e else .ok ()

theorem refuseIf_ok {bad : Bool} {e : ε} {u : Unit} (h : refuseIf bad e = .ok u) :
    bad = false := by
  cases bad with
  | true => cases h
  | false => rfl

@[simp] theorem refuseIf_false (e : ε) : refuseIf false e = .ok () := rfl

/-- What every step that returns preserves holds where the loop returns. -/
theorem foldlM_invariant {step : σ → α → Except ε σ} {P : σ → Prop} {xs : List α} {s s' : σ}
    (hrun : xs.foldlM step s = .ok s') (h0 : P s)
    (hstep : ∀ t, P t → ∀ x ∈ xs, ∀ t', step t x = .ok t' → P t') : P s' := by
  induction xs generalizing s with
  | nil => cases hrun; exact h0
  | cons x xs ih =>
      obtain ⟨t, hx, hrest⟩ := bind_ok hrun
      exact ih hrest (hstep s h0 x (by simp) t hx)
        fun t ht y hy => hstep t ht y (List.mem_cons_of_mem _ hy)

/-- Every element passes the loop that returns. -/
theorem foldlM_forall {step : σ → α → Except ε σ} {P : α → Prop} {xs : List α} {s s' : σ}
    (hrun : xs.foldlM step s = .ok s') (hstep : ∀ t x t', step t x = .ok t' → P x) :
    ∀ x ∈ xs, P x := by
  induction xs generalizing s with
  | nil => simp
  | cons x xs ih =>
      obtain ⟨t, hx, hrest⟩ := bind_ok hrun
      exact List.forall_mem_cons.mpr ⟨hstep s x t hx, ih hrest⟩

/-- **A loop that appends one output for each element.** -/
theorem foldlM_forall₂ {step : σ → α → Except ε σ} {f : σ → List β} {R : α → β → Prop}
    {xs : List α} {s s' : σ} (hrun : xs.foldlM step s = .ok s')
    (hstep : ∀ t, ∀ x ∈ xs, ∀ t', step t x = .ok t' → ∃ y, f t' = f t ++ [y] ∧ R x y) :
    ∃ ys, f s' = f s ++ ys ∧ List.Forall₂ R xs ys := by
  induction xs generalizing s with
  | nil => cases hrun; exact ⟨[], by simp, .nil⟩
  | cons x xs ih =>
      obtain ⟨t, hx, hrest⟩ := bind_ok hrun
      obtain ⟨y, hout, hy⟩ := hstep s x (by simp) t hx
      obtain ⟨ys, hys, hall⟩ := ih hrest fun t z hz => hstep t z (List.mem_cons_of_mem _ hz)
      exact ⟨y :: ys, by rw [hys, hout, List.append_assoc]; rfl, .cons hy hall⟩

/-- An output came from the input at its place. -/
theorem forall₂_getElem? {R : α → β → Prop} {xs : List α} {ys : List β}
    (h : List.Forall₂ R xs ys) {i : Nat} {y : β} (hy : ys[i]? = some y) :
    ∃ x, xs[i]? = some x ∧ R x y := by
  induction h generalizing i with
  | nil => simp at hy
  | cons hR _ ih =>
      cases i with
      | zero => exact ⟨_, rfl, by simpa using (Option.some.inj hy) ▸ hR⟩
      | succ i => simpa using ih (by simpa using hy)

/-- An input has its output at its place. -/
theorem forall₂_getElem?_left {R : α → β → Prop} {xs : List α} {ys : List β}
    (h : List.Forall₂ R xs ys) {i : Nat} {x : α} (hx : xs[i]? = some x) :
    ∃ y, ys[i]? = some y ∧ R x y := by
  induction h generalizing i with
  | nil => simp at hx
  | cons hR _ ih =>
      cases i with
      | zero => exact ⟨_, rfl, by simpa using (Option.some.inj hx) ▸ hR⟩
      | succ i => simpa using ih (by simpa using hx)

/-- A loop over the parts of every element. -/
theorem foldlM_flatMap {m : Type → Type} [Monad m] [LawfulMonad m] (f : α → List β)
    (step : σ → β → m σ) (xs : List α) (s : σ) :
    (xs.flatMap f).foldlM step s = xs.foldlM (fun s x => (f x).foldlM step s) s := by
  induction xs generalizing s with
  | nil => rfl
  | cons x xs ih =>
      rw [List.flatMap_cons, List.foldlM_append, List.foldlM_cons]
      exact congrArg _ (funext ih)

/-- A loop by steps that agree on the elements. -/
theorem foldlM_congr {m : Type → Type} [Monad m] {step step' : σ → α → m σ} {xs : List α}
    (h : ∀ x ∈ xs, ∀ s, step s x = step' s x) (s : σ) :
    xs.foldlM step s = xs.foldlM step' s := by
  induction xs generalizing s with
  | nil => rfl
  | cons x xs ih =>
      rw [List.foldlM_cons, List.foldlM_cons, h x List.mem_cons_self]
      exact congrArg _ (funext fun t => ih (fun y hy => h y (List.mem_cons_of_mem _ hy)) t)

/-- A map over the elements with their membership forgotten. -/
theorem mapM_attach (f : α → Except ε β) (xs : List α) :
    (xs.attach.mapM fun x => f x.1) = xs.mapM f := by
  conv_rhs => rw [← List.attach_map_subtype_val xs, List.mapM_map]
  rfl

/-- An output of a map came from some input. -/
theorem mapM_mem {f : α → Except ε β} {xs : List α} {ys : List β} (h : xs.mapM f = .ok ys)
    {y : β} (hy : y ∈ ys) : ∃ x ∈ xs, f x = .ok y := by
  induction xs generalizing ys with
  | nil => cases h; cases hy
  | cons x xs ih =>
      rw [List.mapM_cons] at h
      obtain ⟨y', hx, hrest⟩ := bind_ok h
      obtain ⟨ys', hxs, hout⟩ := bind_ok hrest
      cases hout
      rcases List.mem_cons.mp hy with rfl | hy
      · exact ⟨x, by simp, hx⟩
      · obtain ⟨x', hmem, hx'⟩ := ih hxs hy
        exact ⟨x', by simp [hmem], hx'⟩

end Xsr.Lib
