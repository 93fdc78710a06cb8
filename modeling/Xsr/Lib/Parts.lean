import Mathlib

/-!
# Parts — lists cut into parts and put together

A list can be cut at its separators while it is read, keeping the finished
parts and the open one; that is `splitOnP`. In a list made of parts every
place lies in one part, behind the parts before it.
-/

namespace Xsr.Lib

variable {α β : Type}

/-! ## Cutting -/

/-- The finished parts and the open part, after one element more. -/
def splitStep (isSep : α → Bool) (s : List (List α) × List α) (x : α) :
    List (List α) × List α :=
  if isSep x then (s.1 ++ [s.2], []) else (s.1, s.2 ++ [x])

/-- The parts after the elements `xs`. -/
def splitRun (isSep : α → Bool) (xs : List α) : List (List α) × List α :=
  xs.foldl (splitStep isSep) ([], [])

@[simp] theorem splitRun_snoc (isSep : α → Bool) (xs : List α) (x : α) :
    splitRun isSep (xs ++ [x]) = splitStep isSep (splitRun isSep xs) x := by
  rw [splitRun, splitRun, List.foldl_append]
  rfl

/-- **Cutting in one pass.** -/
theorem splitOnP_eq_splitRun (isSep : α → Bool) (xs : List α) :
    xs.splitOnP isSep = (splitRun isSep xs).1 ++ [(splitRun isSep xs).2] := by
  -- the run from any state: the open part goes on into the first part
  have hrun : ∀ (xs : List α) (s : List (List α) × List α),
      (xs.foldl (splitStep isSep) s).1 ++ [(xs.foldl (splitStep isSep) s).2]
        = s.1 ++ (xs.splitOnP isSep).modifyHead (s.2 ++ ·) := by
    intro xs
    induction xs with
    | nil => exact fun s => by simp
    | cons x xs ih =>
        intro s
        rw [List.foldl_cons, ih, List.splitOnP_cons_eq_if_modifyHead, splitStep]
        split_ifs with h
        · cases hparts : xs.splitOnP isSep with
          | nil => simp
          | cons part parts => simp
        · rw [List.modifyHead_modifyHead]
          refine congrArg (s.1 ++ ·) (congrArg (List.modifyHead · _) (funext fun part => ?_))
          simp
  have hempty := hrun xs ([], [])
  rw [splitRun, hempty]
  cases hparts : xs.splitOnP isSep with
  | nil => rfl
  | cons part parts => rfl

/-- Every element of a part is an element of the list, and no separator. -/
theorem mem_splitRun {isSep : α → Bool} {xs : List α} {part : List α}
    (h : part ∈ (splitRun isSep xs).1 ++ [(splitRun isSep xs).2]) {x : α} (hx : x ∈ part) :
    x ∈ xs ∧ isSep x = false := by
  induction xs using List.reverseRecOn generalizing part with
  | nil =>
      rw [List.mem_singleton.mp h] at hx
      cases hx
  | append_singleton xs y ih =>
      rw [splitRun_snoc, splitStep] at h
      split_ifs at h with hy
      · rcases List.mem_append.mp h with h | h
        · exact ⟨List.mem_append_left _ (ih h hx).1, (ih h hx).2⟩
        · rw [List.mem_singleton.mp h] at hx
          cases hx
      · rcases List.mem_append.mp h with h | h
        · have hold := ih (List.mem_append_left _ h) hx
          exact ⟨List.mem_append_left _ hold.1, hold.2⟩
        · rw [List.mem_singleton.mp h, List.mem_append] at hx
          rcases hx with hx | hx
          · have hold := ih (List.mem_append_right _ (List.mem_singleton_self _)) hx
            exact ⟨List.mem_append_left _ hold.1, hold.2⟩
          · obtain rfl := List.mem_singleton.mp hx
            exact ⟨List.mem_append_right _ (List.mem_singleton_self _), by simpa using hy⟩

/-- Renaming the elements first. -/
theorem splitOnP_map {isSep : β → Bool} {isSep' : α → Bool} {f : α → β} {xs : List α}
    (h : ∀ x ∈ xs, isSep (f x) = isSep' x) :
    (xs.map f).splitOnP isSep = (xs.splitOnP isSep').map (List.map f) := by
  induction xs with
  | nil => simp
  | cons x xs ih =>
      rw [List.map_cons, List.splitOnP_cons_eq_if_modifyHead, List.splitOnP_cons_eq_if_modifyHead,
        h x (by simp), ih fun y hy => h y (by simp [hy])]
      split_ifs
      · rfl
      · cases xs.splitOnP isSep' with
        | nil => rfl
        | cons part parts => rfl

/-! ## Putting together -/

/-- The entries of one part of a list of parts. -/
theorem getElem?_flatMap_part {f : α → List β} {xs : List α} {i : Nat} {x : α}
    (hx : xs[i]? = some x) {j : Nat} (hj : j < (f x).length) :
    (xs.flatMap f)[((xs.take i).flatMap f).length + j]? = (f x)[j]? := by
  obtain ⟨hlt, rfl⟩ := List.getElem?_eq_some_iff.mp hx
  have hsplit : xs.flatMap f = (xs.take i).flatMap f ++ (f xs[i] ++ (xs.drop (i + 1)).flatMap f) := by
    rw [← List.flatMap_cons, ← List.drop_eq_getElem_cons hlt, ← List.flatMap_append,
      List.take_append_drop]
  rw [hsplit, List.getElem?_append_right (Nat.le_add_right _ _), Nat.add_sub_cancel_left,
    List.getElem?_append_left hj]

/-- **Every place lies in a part.** -/
theorem exists_part {f : α → List β} {xs : List α} {k : Nat} (hk : k < (xs.flatMap f).length) :
    ∃ i x j, xs[i]? = some x ∧ j < (f x).length ∧ k = ((xs.take i).flatMap f).length + j := by
  induction xs using List.reverseRecOn with
  | nil => exact absurd hk (Nat.not_lt_zero k)
  | append_singleton xs x ih =>
      rw [List.flatMap_append, List.length_append, List.flatMap_singleton] at hk
      by_cases hold : k < (xs.flatMap f).length
      · obtain ⟨i, y, j, hi, hj, hplace⟩ := ih hold
        have hlt := (List.getElem?_eq_some_iff.mp hi).1
        refine ⟨i, y, j, ?_, hj, ?_⟩
        · rw [List.getElem?_append_left hlt, hi]
        · rw [List.take_append_of_le_length hlt.le, hplace]
      · refine ⟨xs.length, x, k - (xs.flatMap f).length, ?_, by omega, ?_⟩
        · rw [List.getElem?_concat_length]
        · rw [List.take_append_of_le_length le_rfl, List.take_length]
          omega

end Xsr.Lib
