import Mathlib

/-!
# Search — the first occurrence of a pattern

`after f pat xs` is what follows the first occurrence of `pat` in `xs`, with
the elements of `xs` read through `f`. A search in one pass keeps a single
number, the length of the pattern's prefix it stands in. Where the first
letter of the pattern does not recur in it, falling back to `0` or `1` loses
no occurrence: `searchFrom_eq`.
-/

namespace Xsr.Lib

variable {α β : Type} [DecidableEq β]

theorem suffix_snoc {α : Type} (xs : List α) (x : α) {p : List α} {c : α} :
    xs ++ [x] <:+ p ++ [c] ↔ x = c ∧ xs <:+ p := by
  rw [List.suffix_concat_iff]
  constructor
  · rintro (h | ⟨t, h, ht⟩)
    · simp at h
    · obtain ⟨rfl, h⟩ := List.append_inj' h rfl
      exact ⟨by simpa using h, ht⟩
  · rintro ⟨rfl, h⟩
    exact .inr ⟨xs, rfl, h⟩

theorem prefix_snoc {α : Type} {q p : List α} {c : α} :
    q <+: p ++ [c] ↔ q = p ++ [c] ∨ q <+: p := List.prefix_concat_iff

/-- What follows the first occurrence of `pat`. -/
def after (f : α → β) (pat : List β) : List α → Option (List α)
  | [] => none
  | x :: xs =>
      if pat <+: (x :: xs).map f then some ((x :: xs).drop pat.length) else after f pat xs

/-- One element of the search: `pos` letters of the pattern were just read. -/
def searchStep (pat : List β) (pos : Nat) (y : β) : Nat :=
  if pat[pos]? = some y then pos + 1 else if pat.head? = some y then 1 else 0

/-- The search from position `pos` on: what is left when the pattern is full. -/
def searchFrom (f : α → β) (pat : List β) : Nat → List α → Option (List α)
  | _, [] => none
  | pos, x :: xs =>
      if searchStep pat pos (f x) = pat.length then some xs
      else searchFrom f pat (searchStep pat pos (f x)) xs

section After
variable {f : α → β} {pat : List β}

theorem after_of_prefix {xs : List α} (hpat : pat ≠ []) (h : pat <+: xs.map f) :
    after f pat xs = some (xs.drop pat.length) := by
  cases xs with
  | nil => exact absurd (List.prefix_nil.mp h) hpat
  | cons x xs => rw [after, if_pos h]

/-- Too short a list has no occurrence. -/
theorem after_of_length_lt {xs : List α} (h : xs.length < pat.length) : after f pat xs = none := by
  induction xs with
  | nil => rfl
  | cons x xs ih =>
      have hno : ¬ pat <+: (x :: xs).map f := fun hp => by
        have := hp.length_le
        rw [List.length_map] at this
        omega
      rw [after, if_neg hno, ih (by simp only [List.length_cons] at h; omega)]

/-- An occurrence leaves at most what is left of the list. -/
theorem length_after {xs ys : List α} (h : after f pat xs = some ys) :
    pat.length + ys.length ≤ xs.length ∧ ∀ y ∈ ys, y ∈ xs := by
  induction xs with
  | nil => cases h
  | cons x xs ih =>
      rw [after] at h
      split_ifs at h with hp
      · cases h
        have hle := hp.length_le
        rw [List.length_map] at hle
        rw [List.length_drop]
        exact ⟨by omega, fun y hy => List.mem_of_mem_drop hy⟩
      · obtain ⟨hlen, hmem⟩ := ih h
        exact ⟨by rw [List.length_cons]; omega, fun y hy => List.mem_cons_of_mem _ (hmem y hy)⟩

/-- No occurrence starts at an element that is not the first letter. -/
theorem after_append_of_head {xs ys : List α} (hpat : pat ≠ [])
    (h : ∀ x ∈ xs, pat.head? ≠ some (f x)) : after f pat (xs ++ ys) = after f pat ys := by
  induction xs with
  | nil => rfl
  | cons x xs ih =>
      have hno : ¬ pat <+: (x :: (xs ++ ys)).map f := by
        intro hp
        cases pat with
        | nil => exact hpat rfl
        | cons p pat =>
            rw [List.map_cons] at hp
            exact h x (by simp) (congrArg some (List.cons_prefix_cons.mp hp).1)
      rw [List.cons_append, after, if_neg hno, ih fun y hy => h y (by simp [hy])]

end After

/-- **One pass finds the first occurrence.** `pre` is what the search has
matched so far. -/
theorem searchFrom_eq {f : α → β} {pat : List β}
    (honce : ∀ i, 0 < i → i < pat.length → pat[i]? ≠ pat.head?) (xs : List α) :
    ∀ (pre : List α), pre.length < pat.length → pre.map f = pat.take pre.length →
      searchFrom f pat pre.length xs = after f pat (pre ++ xs) := by
  induction xs with
  | nil =>
      intro pre hlt _
      rw [List.append_nil, after_of_length_lt hlt, searchFrom]
  | cons x xs ih =>
      intro pre hlt hpre
      have hpat : pat ≠ [] := fun h => by simp [h] at hlt
      rw [searchFrom]
      by_cases hmatch : pat[pre.length]? = some (f x)
      · have hstep : searchStep pat pre.length (f x) = (pre ++ [x]).length := by
          rw [searchStep, if_pos hmatch]; simp
        have hpre' : (pre ++ [x]).map f = pat.take (pre ++ [x]).length := by
          rw [List.map_append, hpre, List.length_append, List.length_singleton,
            List.take_add_one, hmatch]
          rfl
        rw [hstep, show pre ++ x :: xs = (pre ++ [x]) ++ xs by simp]
        by_cases hfull : (pre ++ [x]).length = pat.length
        · rw [hfull, List.take_length] at hpre'
          rw [if_pos hfull, after_of_prefix hpat, ← hfull, List.drop_left]
          rw [List.map_append, hpre']
          exact List.prefix_append _ _
        · rw [if_neg hfull]
          refine ih _ ?_ hpre'
          rw [List.length_append, List.length_singleton] at hfull ⊢
          omega
      · -- nothing that starts inside `pre` can still become an occurrence
        have hskip : after f pat (pre ++ x :: xs) = after f pat (x :: xs) := by
          cases pre with
          | nil => rfl
          | cons p ps =>
              have hno : ¬ pat <+: (p :: (ps ++ x :: xs)).map f := by
                intro hp
                refine hmatch ?_
                have hget := List.IsPrefix.getElem hp hlt
                rw [List.getElem?_eq_getElem hlt, hget]
                simp
              rw [List.cons_append, after, if_neg hno]
              refine after_append_of_head hpat fun q hq => ?_
              obtain ⟨i, hi, rfl⟩ := List.getElem_of_mem hq
              have hlt' : i + 1 < pat.length := by
                rw [List.length_cons] at hlt; omega
              have hat : pat[i + 1]? = some (f ps[i]) := by
                have := congrArg (fun l => l[i + 1]?) hpre
                simp only [List.map_cons, List.getElem?_cons_succ, List.getElem?_map,
                  List.getElem?_eq_getElem hi, List.getElem?_take, List.length_cons,
                  Option.map_some] at this
                rw [if_pos (by omega)] at this
                exact this.symm
              exact fun h => honce (i + 1) (Nat.succ_pos i) hlt' (hat.trans h.symm)
        by_cases hhead : pat.head? = some (f x)
        · have hpos : pre.length ≠ 0 := by
            intro h
            rw [h, ← List.head?_eq_getElem?] at hmatch
            exact hmatch hhead
          have hstep : searchStep pat pre.length (f x) = ([x] : List α).length := by
            rw [searchStep, if_neg hmatch, if_pos hhead]; rfl
          have hone : ([x] : List α).length < pat.length := by
            rw [List.length_singleton]; omega
          rw [hstep, if_neg (Nat.ne_of_lt hone), hskip]
          refine ih [x] hone ?_
          cases pat with
          | nil => exact absurd rfl hpat
          | cons p pat =>
              obtain rfl : p = f x := by simpa using hhead
              rfl
        · have hstep : searchStep pat pre.length (f x) = ([] : List α).length := by
            rw [searchStep, if_neg hmatch, if_neg hhead]; rfl
          have hnone : ([] : List α).length < pat.length := by
            rw [List.length_nil]; omega
          rw [hstep, if_neg (Nat.ne_of_lt hnone), hskip, ih [] hnone rfl, List.nil_append,
            show x :: xs = [x] ++ xs from rfl,
            after_append_of_head hpat fun y hy => by rw [List.mem_singleton.mp hy]; exact hhead]

/-- **What the position says**: it is the length of the pattern's part that
the elements read so far end in. -/
theorem searchStep_suffix {pat : List β}
    (honce : ∀ i, 0 < i → i < pat.length → pat[i]? ≠ pat.head?) {ys : List β} {pos : Nat}
    (hpos : pos < pat.length)
    (h : ∀ k, 0 < k → k < pat.length → (pat.take k <:+ ys ↔ pos = k)) (y : β) :
    ∀ k, 0 < k → k ≤ pat.length → (pat.take k <:+ ys ++ [y] ↔ searchStep pat pos y = k) := by
  intro k hk hle
  obtain ⟨j, rfl⟩ := Nat.exists_eq_succ_of_ne_zero (Nat.pos_iff_ne_zero.mp hk)
  have hj : j < pat.length := hle
  have hget : pat[j]? = some y ↔ pat[j] = y := by
    rw [List.getElem?_eq_getElem hj, Option.some.injEq]
  rw [Nat.succ_eq_add_one, List.take_succ_eq_append_getElem hj, suffix_snoc, ← hget, searchStep]
  cases j with
  | zero =>
      rw [List.take_zero, ← List.head?_eq_getElem?]
      simp only [List.nil_suffix, and_true]
      split_ifs with hmatch hhead
      · rcases Nat.eq_zero_or_pos pos with rfl | hlt
        · rw [List.head?_eq_getElem?]
          simp [hmatch]
        · have hne := honce pos hlt hpos
          rw [hmatch] at hne
          exact iff_of_false (fun heq => hne heq.symm) (by omega)
      · simp [hhead]
      · simp [hhead]
  | succ j =>
      rw [h (j + 1) (Nat.succ_pos j) hj]
      split_ifs with hmatch hhead
      · constructor
        · rintro ⟨-, rfl⟩
          rfl
        · intro heq
          obtain rfl : pos = j + 1 := by omega
          exact ⟨hmatch, rfl⟩
      · have hne : 1 ≠ j + 1 + 1 := by omega
        refine iff_of_false ?_ hne
        rintro ⟨hy, rfl⟩
        exact hmatch hy
      · refine iff_of_false ?_ not_false
        rintro ⟨hy, rfl⟩
        exact hmatch hy

/-- The elements with a property stand together, or two of them stand around
a gap. -/
theorem filter_together_or_gap (p : α → Bool) (xs : List α) :
    (∃ a b, xs = a ++ xs.filter p ++ b ∧ (∀ x ∈ a, p x = false) ∧ ∀ x ∈ b, p x = false) ∨
    ∃ a x gap y b, xs = a ++ x :: gap ++ y :: b ∧ p x = true ∧ gap ≠ [] ∧
      (∀ z ∈ gap, p z = false) ∧ p y = true := by
  induction xs with
  | nil => exact .inl ⟨[], [], rfl, by simp, by simp⟩
  | cons x xs ih =>
      rcases ih with ⟨a, b, hxs, ha, hb⟩ | ⟨a, x', gap, y, b, hxs, h⟩
      · cases hx : p x with
        | false =>
            refine .inl ⟨x :: a, b, ?_, by simpa [hx] using ha, hb⟩
            rw [List.filter_cons_of_neg (by simp [hx]), List.cons_append, List.cons_append, ← hxs]
        | true =>
            rw [List.filter_cons_of_pos hx]
            cases hf : xs.filter p with
            | nil =>
                rw [hf, List.append_nil] at hxs
                refine .inl ⟨[], a ++ b, by rw [hxs]; rfl, by simp, fun z hz => ?_⟩
                exact (List.mem_append.mp hz).elim (ha z) (hb z)
            | cons y ys =>
                rw [hf] at hxs
                have hy : p y = true := (List.mem_filter.mp (hf ▸ List.mem_cons_self)).2
                cases a with
                | nil => exact .inl ⟨[], b, by rw [hxs]; rfl, by simp, hb⟩
                | cons z zs =>
                    exact .inr ⟨[], x, z :: zs, y, ys ++ b, by rw [hxs]; simp, hx, by simp, ha, hy⟩
      · exact .inr ⟨x :: a, x', gap, y, b, by rw [hxs]; simp, h⟩

end Xsr.Lib
