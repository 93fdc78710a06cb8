import Mathlib

/-!
# Loop — bounded loops with an early exit

A counted loop whose body may ask to stop, and the scan of a list by a
step that may ask to stop. The loop sees an index and looks its element
up; the scan sees the element. `boundedLoop_eq_scan` turns the first into
the second, after which every argument about the loop is an induction on
the list.
-/

namespace Xsr.Lib

variable {σ α : Type}

/-- Run `body i`, `body (i+1)`, … at most `fuel` times; a `true` from the
body ends the loop. -/
def boundedLoop (body : Nat → σ → σ × Bool) : Nat → Nat → σ → σ
  | 0, _, s => s
  | fuel + 1, i, s =>
      match body i s with
      | (s', true) => s'
      | (s', false) => boundedLoop body fuel (i + 1) s'

/-- Feed a list to `step`; the flag says whether the step asked to stop. -/
def scan (step : σ → α → σ × Bool) : σ → List α → σ × Bool
  | s, [] => (s, false)
  | s, x :: xs =>
      match step s x with
      | (s', true) => (s', true)
      | (s', false) => scan step s' xs

section Scan
variable {step : σ → α → σ × Bool}

@[simp] theorem scan_nil (s : σ) : scan step s [] = (s, false) := rfl

theorem scan_cons_stop {s : σ} {x : α} (xs : List α) (h : (step s x).2 = true) :
    scan step s (x :: xs) = ((step s x).1, true) := by
  rw [scan, show step s x = ((step s x).1, true) from Prod.ext rfl h]

theorem scan_cons_go {s : σ} {x : α} (xs : List α) (h : (step s x).2 = false) :
    scan step s (x :: xs) = scan step (step s x).1 xs := by
  rw [scan, show step s x = ((step s x).1, false) from Prod.ext rfl h]

/-- A scan that has not stopped can be continued. -/
theorem scan_append_go {s : σ} {xs : List α} (ys : List α)
    (h : (scan step s xs).2 = false) :
    scan step s (xs ++ ys) = scan step (scan step s xs).1 ys := by
  induction xs generalizing s with
  | nil => rfl
  | cons x xs ih =>
      cases hx : (step s x).2 with
      | true => rw [scan_cons_stop xs hx] at h; cases h
      | false =>
          rw [scan_cons_go xs hx] at h ⊢
          rw [List.cons_append, scan_cons_go _ hx, ih h]

/-- A scan that has stopped ignores what follows. -/
theorem scan_append_stop {s : σ} {xs : List α} (ys : List α)
    (h : (scan step s xs).2 = true) :
    scan step s (xs ++ ys) = scan step s xs := by
  induction xs generalizing s with
  | nil => cases h
  | cons x xs ih =>
      cases hx : (step s x).2 with
      | true => rw [List.cons_append, scan_cons_stop _ hx, scan_cons_stop _ hx]
      | false =>
          rw [scan_cons_go xs hx] at h
          rw [List.cons_append, scan_cons_go _ hx, scan_cons_go _ hx, ih h]

/-- What every non-stopping step preserves holds where the scan ends, and
the last step may be a stopping one. -/
theorem scan_induction {P : σ → Prop} {s : σ} {xs : List α} (h0 : P s)
    (hstep : ∀ t, P t → ∀ x ∈ xs, P (step t x).1) :
    P (scan step s xs).1 := by
  induction xs generalizing s with
  | nil => exact h0
  | cons x xs ih =>
      have hx : P (step s x).1 := hstep s h0 x (by simp)
      cases hb : (step s x).2 with
      | true => rw [scan_cons_stop xs hb]; exact hx
      | false =>
          rw [scan_cons_go xs hb]
          exact ih hx (fun t ht y hy => hstep t ht y (by simp [hy]))

/-- A step that never asks to stop. -/
theorem scan_eq_foldl (f : σ → α → σ) (s : σ) (xs : List α) :
    scan (fun t x => (f t x, false)) s xs = (xs.foldl f s, false) := by
  induction xs generalizing s with
  | nil => rfl
  | cons x xs ih => exact ih (f s x)

end Scan

/-- What every body run preserves holds after the loop. -/
theorem boundedLoop_induction {body : Nat → σ → σ × Bool} {P : σ → Prop}
    (hstep : ∀ i t, P t → P (body i t).1) :
    ∀ (fuel i : Nat) (s : σ), P s → P (boundedLoop body fuel i s) := by
  intro fuel
  induction fuel with
  | zero => exact fun _ _ h => h
  | succ fuel ih =>
      intro i s h
      have hbody : P (body i s).1 := hstep i s h
      rw [boundedLoop]
      cases hb : body i s with
      | mk s' stop =>
          rw [hb] at hbody
          cases stop with
          | true => exact hbody
          | false => exact ih _ _ hbody

/-- A counted loop that never asks to stop. -/
theorem boundedLoop_eq_foldl {body : Nat → σ → σ × Bool} {step : σ → Nat → σ}
    (h : ∀ j s, body j s = (step s j, false)) (fuel j : Nat) (s : σ) :
    boundedLoop body fuel j s = (List.range' j fuel).foldl step s := by
  induction fuel generalizing j s with
  | zero => rfl
  | succ fuel ih => rw [boundedLoop, h, List.range'_succ, List.foldl_cons, ← ih]

/-- The counted loop over a list of looked-up elements is the scan of that
list. `P j s` is what the loop maintains between body runs; the body has to
be the step only in such states. -/
theorem boundedLoop_eq_scan {body : Nat → σ → σ × Bool} (step : σ → α → σ × Bool)
    (xs : List α) {P : Nat → σ → Prop}
    (hsome : ∀ j s x, P j s → xs[j]? = some x → body j s = step s x)
    (hnone : ∀ j s, xs[j]? = none → body j s = (s, true))
    (hP : ∀ j s x, P j s → xs[j]? = some x → (step s x).2 = false →
      P (j + 1) (step s x).1) :
    ∀ (fuel j : Nat) (s : σ), P j s →
      boundedLoop body fuel j s = (scan step s ((xs.drop j).take fuel)).1 := by
  intro fuel
  induction fuel with
  | zero => intro j s _; simp [boundedLoop]
  | succ fuel ih =>
      intro j s hs
      cases hx : xs[j]? with
      | none =>
          have hlen : xs.length ≤ j := List.getElem?_eq_none_iff.mp hx
          rw [List.drop_eq_nil_of_le hlen]
          simp [boundedLoop, hnone j s hx]
      | some x =>
          obtain ⟨hj, hxj⟩ := List.getElem?_eq_some_iff.mp hx
          rw [List.drop_eq_getElem_cons hj, hxj, List.take_succ_cons]
          cases hb : (step s x).2 with
          | true =>
              rw [scan_cons_stop _ hb]
              rw [boundedLoop, hsome j s x hs hx,
                show step s x = ((step s x).1, true) from Prod.ext rfl hb]
          | false =>
              rw [scan_cons_go _ hb, ← ih (j + 1) _ (hP j s x hs hx hb)]
              rw [boundedLoop, hsome j s x hs hx,
                show step s x = ((step s x).1, false) from Prod.ext rfl hb]

end Xsr.Lib
