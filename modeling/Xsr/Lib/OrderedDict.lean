import Mathlib

/-!
# OrderedDict — dictionaries and sets in insertion order

A Python dictionary as the list of its items: assigning to a key that is
there keeps its place, a new key goes to the end. A set is the list of its
elements without repetition.
-/

namespace Xsr.Lib.OrderedDict

variable {κ ν : Type} [DecidableEq κ]

/-! ## Sets -/

/-- `s.add(x)` -/
def add (s : List κ) (x : κ) : List κ := if x ∈ s then s else s ++ [x]

/-- `set(xs)`, in the order of first occurrence. -/
def collect (xs : List κ) : List κ := xs.foldl add []

theorem mem_add {s : List κ} {x y : κ} : y ∈ add s x ↔ y ∈ s ∨ y = x := by
  unfold add
  split_ifs with h
  · constructor
    · exact .inl
    · rintro (hy | rfl)
      · exact hy
      · exact h
  · rw [List.mem_append, List.mem_singleton]

theorem nodup_add {s : List κ} (h : s.Nodup) (x : κ) : (add s x).Nodup := by
  unfold add
  split_ifs with hx
  · exact h
  · exact List.nodup_append.mpr ⟨h, by simp, fun a ha b hb hab =>
      hx (List.mem_singleton.mp hb ▸ hab ▸ ha)⟩

theorem mem_foldl_add {xs : List κ} {s : List κ} {y : κ} :
    y ∈ xs.foldl add s ↔ y ∈ s ∨ y ∈ xs := by
  induction xs generalizing s with
  | nil => simp
  | cons x xs ih => rw [List.foldl_cons, ih, mem_add, List.mem_cons, or_assoc]

theorem mem_collect {xs : List κ} {y : κ} : y ∈ collect xs ↔ y ∈ xs := by
  rw [collect, mem_foldl_add]
  simp

theorem nodup_collect (xs : List κ) : (collect xs).Nodup := by
  have hfold : ∀ {s : List κ}, s.Nodup → (xs.foldl add s).Nodup := by
    induction xs with
    | nil => exact id
    | cons x xs ih => exact fun h => ih (nodup_add h x)
  exact hfold List.nodup_nil

/-- **A sum over the occurrences** is a sum over the elements, each as often
as it occurs. -/
theorem sum_collect [b : BEq κ] [LawfulBEq κ] (xs : List κ) (f : κ → Int) :
    ((collect xs).map fun x => f x * xs.count x).sum = (xs.map f).sum := by
  obtain rfl : b = instBEqOfDecidableEq := lawful_beq_subsingleton _ _
  have hsame : (collect xs).toFinset = xs.toFinset := by
    ext x
    rw [List.mem_toFinset, List.mem_toFinset, mem_collect]
  rw [← List.sum_toFinset _ (nodup_collect xs), hsame, Finset.sum_list_map_count xs f]
  refine Finset.sum_congr rfl fun x _ => ?_
  rw [nsmul_eq_mul, mul_comm]

/-! ## Dictionaries -/

/-- `d[k] = v` -/
def setItem (d : List (κ × ν)) (k : κ) (v : ν) : List (κ × ν) :=
  match d with
  | [] => [(k, v)]
  | e :: d => if e.1 = k then (k, v) :: d else e :: setItem d k v

/-- The keys of a dictionary. -/
def keys (d : List (κ × ν)) : List κ := d.map Prod.fst

section Lookup
variable {κ ν : Type} [BEq κ] [LawfulBEq κ]

theorem lookup_cons_eq (e : κ × ν) (d : List (κ × ν)) : (e :: d).lookup e.1 = some e.2 := by
  rw [List.lookup_cons, BEq.rfl]

theorem lookup_cons_ne {e : κ × ν} {k : κ} (h : k ≠ e.1) (d : List (κ × ν)) :
    (e :: d).lookup k = d.lookup k := by
  rw [List.lookup_cons, beq_false_of_ne h]

/-- The item of a dictionary made from a list of keys. -/
theorem lookup_map [DecidableEq κ] (xs : List κ) (g : κ → ν) (k : κ) :
    (xs.map fun x => (x, g x)).lookup k = if k ∈ xs then some (g k) else none := by
  induction xs with
  | nil => rfl
  | cons x xs ih =>
      rw [List.map_cons]
      by_cases hk : k = x
      · rw [hk, lookup_cons_eq (x, g x), if_pos List.mem_cons_self]
      · rw [lookup_cons_ne (e := (x, g x)) hk, ih]
        simp [hk]

end Lookup

theorem lookup_setItem_eq (d : List (κ × ν)) (k : κ) (v : ν) :
    (setItem d k v).lookup k = some v := by
  induction d with
  | nil => exact lookup_cons_eq (k, v) []
  | cons e d ih =>
      unfold setItem
      by_cases he : e.1 = k
      · rw [if_pos he]
        exact lookup_cons_eq (k, v) d
      · rw [if_neg he, lookup_cons_ne (Ne.symm he), ih]

theorem lookup_setItem_ne {d : List (κ × ν)} {k k' : κ} (h : k' ≠ k) (v : ν) :
    (setItem d k v).lookup k' = d.lookup k' := by
  induction d with
  | nil => exact lookup_cons_ne (e := (k, v)) h []
  | cons e d ih =>
      unfold setItem
      by_cases he : e.1 = k
      · rw [if_pos he, lookup_cons_ne (e := (k, v)) h, lookup_cons_ne (by rw [he]; exact h)]
      · rw [if_neg he]
        by_cases hk : k' = e.1
        · rw [hk, lookup_cons_eq, lookup_cons_eq]
        · rw [lookup_cons_ne hk, lookup_cons_ne hk, ih]

theorem keys_setItem (d : List (κ × ν)) (k : κ) (v : ν) :
    keys (setItem d k v) = add (keys d) k := by
  induction d with
  | nil => rfl
  | cons e d ih =>
      unfold setItem
      by_cases he : e.1 = k
      · subst he
        rw [if_pos rfl, add, if_pos (by simp [keys])]
        rfl
      · rw [if_neg he]
        rw [keys, List.map_cons, ← keys, ih, add, add]
        by_cases hk : k ∈ keys d
        · rw [if_pos hk, if_pos (by rw [keys] at hk ⊢; exact List.mem_cons_of_mem _ hk)]
          rfl
        · have hne : k ∉ keys (e :: d) := by
            rw [keys, List.map_cons, List.mem_cons]
            exact fun h => h.elim (fun h => he h.symm) hk
          rw [if_neg hk, if_neg hne]
          rfl

/-- A new key goes to the end. -/
theorem setItem_new {d : List (κ × ν)} {k : κ} (h : k ∉ keys d) (v : ν) :
    setItem d k v = d ++ [(k, v)] := by
  induction d with
  | nil => rfl
  | cons e d ih =>
      rw [keys, List.map_cons, List.mem_cons, not_or] at h
      rw [setItem, if_neg (Ne.symm h.1), ih h.2]
      rfl

/-- Where the items of an assigned dictionary come from. -/
theorem mem_setItem {d : List (κ × ν)} {k : κ} {v : ν} {e : κ × ν} (h : e ∈ setItem d k v) :
    e = (k, v) ∨ e ∈ d := by
  induction d with
  | nil => exact .inl (List.mem_singleton.mp h)
  | cons x d ih =>
      unfold setItem at h
      split_ifs at h
      · rcases List.mem_cons.mp h with h | h
        · exact .inl h
        · exact .inr (List.mem_cons_of_mem _ h)
      · rcases List.mem_cons.mp h with h | h
        · exact .inr (h ▸ List.mem_cons_self)
        · exact (ih h).imp_right (List.mem_cons_of_mem _)

theorem lookup_isSome_iff {d : List (κ × ν)} {k : κ} : (d.lookup k).isSome ↔ k ∈ keys d := by
  induction d with
  | nil => simp [keys]
  | cons e d ih =>
      by_cases hk : k = e.1
      · rw [hk, lookup_cons_eq]
        simp [keys]
      · rw [lookup_cons_ne hk, ih]
        simp [keys, hk]

theorem mem_of_lookup {d : List (κ × ν)} {k : κ} {v : ν} (h : d.lookup k = some v) :
    (k, v) ∈ d := by
  induction d with
  | nil => cases h
  | cons e d ih =>
      by_cases hk : k = e.1
      · rw [hk, lookup_cons_eq] at h
        rw [hk, ← Option.some.inj h]
        exact List.mem_cons_self
      · rw [lookup_cons_ne hk] at h
        exact List.mem_cons_of_mem _ (ih h)

/-- An item is found under its key. -/
theorem lookup_of_mem {d : List (κ × ν)} (hd : (keys d).Nodup) {k : κ} {v : ν}
    (h : (k, v) ∈ d) : d.lookup k = some v := by
  induction d with
  | nil => cases h
  | cons e d ih =>
      obtain ⟨hnot, hd⟩ := List.nodup_cons.mp hd
      rcases List.mem_cons.mp h with rfl | h
      · exact lookup_cons_eq (k, v) d
      · have hk : k ≠ e.1 := by
          rintro rfl
          exact hnot (List.mem_map.mpr ⟨_, h, rfl⟩)
        rw [lookup_cons_ne hk]
        exact ih hd h

/-- Assigning to a dictionary made from a list of keys. -/
theorem setItem_map {xs : List κ} (hxs : xs.Nodup) (g : κ → ν) (k : κ) (v : ν) :
    setItem (xs.map fun x => (x, g x)) k v
      = (add xs k).map fun x => (x, if x = k then v else g x) := by
  have hsame : ∀ {ys : List κ}, k ∉ ys →
      (ys.map fun x => (x, if x = k then v else g x)) = ys.map fun x => (x, g x) := by
    intro ys hk
    refine List.map_congr_left fun x hx => ?_
    rw [if_neg (by rintro rfl; exact hk hx)]
  induction xs with
  | nil => simp [setItem, add]
  | cons x xs ih =>
      obtain ⟨hx, hxs⟩ := List.nodup_cons.mp hxs
      rw [List.map_cons, setItem]
      by_cases hk : x = k
      · subst hk
        rw [if_pos rfl, add, if_pos List.mem_cons_self, List.map_cons, if_pos rfl, hsame hx]
      · have hadd : add (x :: xs) k = x :: add xs k := by
          unfold add
          by_cases hmem : k ∈ xs
          · rw [if_pos (List.mem_cons_of_mem _ hmem), if_pos hmem]
          · rw [if_neg (by simp [hmem, Ne.symm hk]), if_neg hmem]
            rfl
        rw [if_neg hk, ih hxs, hadd, List.map_cons, if_neg hk]

end Xsr.Lib.OrderedDict
