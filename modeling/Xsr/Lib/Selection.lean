import Mathlib
import Xsr.Lib.Loop

/-!
# Selection — two ways to pick one of the best candidates

A left-to-right scan that replaces its choice whenever the next candidate
is at least as good keeps the last of the best; a stable descending sort
followed by a search for the first match keeps the first of the best.
`select_agree_iff` says for which two rankings both give the same answer
whatever the set of candidates: every pair of candidates with different
answers has to be ranked strictly the same way round.
-/

namespace Xsr.Lib

section Positions
variable {n : Nat} {p : Nat → Nat} {q : Nat → Int} {candidate : Nat → Bool}

/-- `k` is the last of the best candidates below `n`, ranked by `p`. -/
structure LastMax (n : Nat) (p : Nat → Nat) (candidate : Nat → Bool) (k : Nat) : Prop where
  lt : k < n
  chosen : candidate k = true
  before : ∀ j < k, candidate j = true → p j ≤ p k
  after : ∀ j, k < j → j < n → candidate j = true → p j < p k

/-- `k` is the first of the best candidates below `n`, ranked by `q`. -/
structure FirstMax (n : Nat) (q : Nat → Int) (candidate : Nat → Bool) (k : Nat) : Prop where
  lt : k < n
  chosen : candidate k = true
  before : ∀ j < k, candidate j = true → q j < q k
  after : ∀ j, k < j → j < n → candidate j = true → q j ≤ q k

theorem LastMax.unique {a b : Nat} (ha : LastMax n p candidate a) (hb : LastMax n p candidate b) :
    a = b := by
  rcases Nat.lt_trichotomy a b with h | h | h
  · have h1 := ha.after b h hb.lt hb.chosen
    have h2 := hb.before a h ha.chosen
    omega
  · exact h
  · have h1 := hb.after a h ha.lt ha.chosen
    have h2 := ha.before b h hb.chosen
    omega

theorem FirstMax.unique {a b : Nat} (ha : FirstMax n q candidate a)
    (hb : FirstMax n q candidate b) : a = b := by
  rcases Nat.lt_trichotomy a b with h | h | h
  · have h1 := ha.after b h hb.lt hb.chosen
    have h2 := hb.before a h ha.chosen
    omega
  · exact h
  · have h1 := hb.after a h ha.lt ha.chosen
    have h2 := ha.before b h hb.chosen
    omega

theorem LastMax.congr {candidate' : Nat → Bool} {k : Nat}
    (hc : ∀ i < n, candidate i = candidate' i) (h : LastMax n p candidate k) :
    LastMax n p candidate' k where
  lt := h.lt
  chosen := hc k h.lt ▸ h.chosen
  before := fun j hj hcj => h.before j hj (by rwa [hc j (Nat.lt_trans hj h.lt)])
  after := fun j hkj hj hcj => h.after j hkj hj (by rwa [hc j hj])

theorem FirstMax.congr {candidate' : Nat → Bool} {k : Nat}
    (hc : ∀ i < n, candidate i = candidate' i) (h : FirstMax n q candidate k) :
    FirstMax n q candidate' k where
  lt := h.lt
  chosen := hc k h.lt ▸ h.chosen
  before := fun j hj hcj => h.before j hj (by rwa [hc j (Nat.lt_trans hj h.lt)])
  after := fun j hkj hj hcj => h.after j hkj hj (by rwa [hc j hj])

/-- Two candidates only. -/
def pair (i j k : Nat) : Bool := k == i || k == j

theorem lastMax_pair {i j : Nat} (hij : i < j) (hj : j < n) :
    LastMax n p (pair i j) (if p j < p i then i else j) := by
  have hpair : ∀ k, pair i j k = true → k = i ∨ k = j := fun k hk => by simpa [pair] using hk
  split_ifs with h
  · refine ⟨by omega, by simp [pair], fun k hk hc => ?_, fun k hk _ hc => ?_⟩
    · rcases hpair k hc with rfl | rfl <;> omega
    · rcases hpair k hc with rfl | rfl <;> omega
  · refine ⟨hj, by simp [pair], fun k hk hc => ?_, fun k hk _ hc => ?_⟩
    · rcases hpair k hc with rfl | rfl <;> omega
    · rcases hpair k hc with rfl | rfl <;> omega

theorem firstMax_pair {i j : Nat} (hij : i < j) (hj : j < n) :
    FirstMax n q (pair i j) (if q j ≤ q i then i else j) := by
  have hpair : ∀ k, pair i j k = true → k = i ∨ k = j := fun k hk => by simpa [pair] using hk
  split_ifs with h
  · refine ⟨by omega, by simp [pair], fun k hk hc => ?_, fun k hk _ hc => ?_⟩
    · rcases hpair k hc with rfl | rfl <;> omega
    · rcases hpair k hc with rfl | rfl <;> omega
  · refine ⟨hj, by simp [pair], fun k hk hc => ?_, fun k hk _ hc => ?_⟩
    · rcases hpair k hc with rfl | rfl <;> omega
    · rcases hpair k hc with rfl | rfl <;> omega

/-- **When the two selections agree**: for every set of candidates exactly
when every earlier-later pair with different answers is ranked the same way
by both, a tie of the scan counting for the later one and a tie of the sort
for the earlier one. -/
theorem select_agree_iff {ρ : Type} (answer : Nat → ρ) :
    (∀ candidate a b, LastMax n p candidate a → FirstMax n q candidate b →
      answer a = answer b) ↔
    ∀ i j, i < j → j < n → answer i ≠ answer j → (p j < p i ↔ q j ≤ q i) := by
  constructor
  · intro hagree i j hij hj hne
    have heq := hagree (pair i j) _ _ (lastMax_pair hij hj) (firstMax_pair (q := q) hij hj)
    -- the pair is decided by one comparison on each side
    by_cases hp : p j < p i <;> by_cases hq : q j ≤ q i
    · exact iff_of_true hp hq
    · rw [if_pos hp, if_neg hq] at heq
      exact absurd heq hne
    · rw [if_neg hp, if_pos hq] at heq
      exact absurd heq.symm hne
    · exact iff_of_false hp hq
  · intro hpairs candidate a b ha hb
    by_contra hne
    rcases Nat.lt_trichotomy a b with h | rfl | h
    · have h1 := (hpairs a b h hb.lt hne).mp (ha.after b h hb.lt hb.chosen)
      have h2 := hb.before a h ha.chosen
      omega
    · exact hne rfl
    · have h1 := mt (hpairs b a h ha.lt (Ne.symm hne)).mpr
        (by have := ha.before b h hb.chosen; omega)
      have h2 := hb.after a h ha.lt ha.chosen
      exact h1 h2

end Positions

/-! ## The stable sort -/

section Sorted
variable {α : Type} (rank : α → Int)

/-- Highest rank first, equal ranks in the order of the list. -/
def sortDescending (xs : List α) : List α := xs.mergeSort fun a b => rank b ≤ rank a

theorem mem_sortDescending {xs : List α} {x : α} : x ∈ sortDescending rank xs ↔ x ∈ xs :=
  List.mem_mergeSort

theorem sortDescending_pairwise (xs : List α) :
    (sortDescending rank xs).Pairwise fun a b => rank b ≤ rank a := by
  have h : (sortDescending rank xs).Pairwise fun a b => decide (rank b ≤ rank a) = true :=
    List.pairwise_mergeSort (by simp only [decide_eq_true_eq]; omega)
      (by simp only [Bool.or_eq_true, decide_eq_true_eq]; omega) xs
  exact h.imp (by simp)

theorem mem_before_of_pair_sublist {as bs : List α} {x y : α} (h : (as ++ x :: bs).Nodup)
    (hsub : List.Sublist [y, x] (as ++ x :: bs)) : y ∈ as := by
  induction as with
  | nil =>
      -- `x` would have to stand behind itself
      have hx : x ∉ bs := (List.nodup_cons.mp h).1
      cases hsub with
      | cons _ hsub => exact absurd (hsub.subset (by simp)) hx
      | cons_cons _ hsub => exact absurd (hsub.subset (by simp)) hx
  | cons a as ih =>
      rw [List.cons_append] at h hsub
      cases hsub with
      | cons _ hsub => exact List.mem_cons_of_mem _ (ih (List.nodup_cons.mp h).2 hsub)
      | cons_cons _ _ => exact List.mem_cons_self

/-- **The first match of the sorted list is the first of the best** of the
list, when no element stands in it twice. `q` and `candidate` are the ranks
and the matches of the list by position. -/
theorem find_sortDescending {xs : List α} (hxs : xs.Nodup) {isMatch : α → Bool} {x : α}
    {q : Nat → Int} {candidate : Nat → Bool}
    (hq : ∀ i y, xs[i]? = some y → q i = rank y)
    (hcandidate : ∀ i y, xs[i]? = some y → candidate i = isMatch y)
    (h : (sortDescending rank xs).find? isMatch = some x) :
    ∃ k, xs[k]? = some x ∧ FirstMax xs.length q candidate k := by
  obtain ⟨hx, as, bs, hsplit, has⟩ := List.find?_eq_some_iff_append.mp h
  have hmem : x ∈ xs := (mem_sortDescending rank).mp (by rw [hsplit]; simp)
  obtain ⟨k, hk, hkx⟩ := List.getElem_of_mem hmem
  have hkx' : xs[k]? = some x := by rw [List.getElem?_eq_getElem hk, hkx]
  have hnodup : (as ++ x :: bs).Nodup := by
    rw [← hsplit]
    exact (List.mergeSort_perm xs _).nodup_iff.mpr hxs
  have hnot : ∀ y, isMatch y = true → y ∉ as := fun y hy hin => by simpa [hy] using has y hin
  refine ⟨k, hkx', hk, by rw [hcandidate k x hkx', hx], ?_, ?_⟩
  · intro j hj hcj
    have hjx : xs[j]? = some xs[j] := List.getElem?_eq_getElem (by omega)
    rw [hcandidate j _ hjx] at hcj
    rw [hq j _ hjx, hq k x hkx']
    by_contra hle
    -- an equally good match in front of `x` would have stayed in front of it
    have hpair : List.Sublist [xs[j], x] xs := by
      have hdrop : xs.drop j = xs[j] :: xs.drop (j + 1) := List.drop_eq_getElem_cons (by omega)
      have hin : x ∈ xs.drop (j + 1) :=
        List.mem_drop_iff_getElem.mpr ⟨k - (j + 1), by omega, by simp [← hkx]; congr; omega⟩
      have := (List.singleton_sublist.mpr hin).cons_cons xs[j]
      rw [← hdrop] at this
      exact this.trans (List.drop_sublist _ _)
    have hsorted : List.Sublist [xs[j], x] (as ++ x :: bs) := by
      rw [← hsplit]
      exact List.pair_sublist_mergeSort (by simp only [decide_eq_true_eq]; omega)
        (by simp only [Bool.or_eq_true, decide_eq_true_eq]; omega)
        (by simp only [decide_eq_true_eq]; omega) hpair
    exact hnot _ hcj (mem_before_of_pair_sublist hnodup hsorted)
  · intro j hj hlt hcj
    have hjx : xs[j]? = some xs[j] := List.getElem?_eq_getElem hlt
    rw [hcandidate j _ hjx] at hcj
    rw [hq j _ hjx, hq k x hkx']
    have hin : xs[j] ∈ as ++ x :: bs := by
      rw [← hsplit]
      exact (mem_sortDescending rank).mpr (List.getElem_mem _)
    rcases List.mem_append.mp hin with hin | hin
    · exact absurd hin (hnot _ hcj)
    · rcases List.mem_cons.mp hin with heq | hin
      · rw [heq]
      · have hpairwise := sortDescending_pairwise rank xs
        rw [hsplit] at hpairwise
        exact (List.pairwise_cons.mp (List.pairwise_append.mp hpairwise).2.1).1 _ hin

/-- Nothing that matches is ranked above the first match of the sorted list. -/
theorem find_sortDescending_max {xs : List α} {isMatch : α → Bool} {x y : α}
    (h : (sortDescending rank xs).find? isMatch = some x) (hy : y ∈ xs) (hm : isMatch y = true) :
    rank y ≤ rank x := by
  obtain ⟨-, as, bs, hsplit, has⟩ := List.find?_eq_some_iff_append.mp h
  have hin : y ∈ as ++ x :: bs := by
    rw [← hsplit]
    exact (mem_sortDescending rank).mpr hy
  have hpairwise := sortDescending_pairwise rank xs
  rw [hsplit] at hpairwise
  rcases List.mem_append.mp hin with hin | hin
  · exact absurd hm (by simpa using has y hin)
  · rcases List.mem_cons.mp hin with rfl | hin
    · exact Int.le_refl _
    · exact (List.pairwise_cons.mp (List.pairwise_append.mp hpairwise).2.1).1 y hin

theorem find_sortDescending_none {xs : List α} {isMatch : α → Bool} :
    (sortDescending rank xs).find? isMatch = none ↔ ∀ x ∈ xs, isMatch x = false := by
  rw [List.find?_eq_none]
  exact ⟨fun h x hx => by simpa using h x ((mem_sortDescending rank).mpr hx),
    fun h x hx => by simpa using h x ((mem_sortDescending rank).mp hx)⟩

end Sorted

/-! ## The scan -/

section Scan
variable {ρ : Type} {n : Nat} {p : Nat → Nat} {candidate : Nat → Bool} {answer : Nat → ρ}
  {default : ρ}

/-- What the scan holds after `i` candidates. -/
def Holds (p : Nat → Nat) (candidate : Nat → Bool) (answer : Nat → ρ) (default : ρ) (i : Nat)
    (best : Nat × ρ) : Prop :=
  (best = (0, default) ∧ ∀ j < i, candidate j = false) ∨
    ∃ k, LastMax i p candidate k ∧ best = (p k, answer k)

theorem Holds.step {i : Nat} {best : Nat × ρ} (h : Holds p candidate answer default i best) :
    Holds p candidate answer default (i + 1)
      (if candidate i = true ∧ best.1 ≤ p i then (p i, answer i) else best) := by
  split_ifs with hi
  · -- the new candidate is at least as good as everything held so far
    refine .inr ⟨i, ⟨by omega, hi.1, fun j hj hc => ?_, fun j hj _ _ => by omega⟩, rfl⟩
    rcases h with ⟨-, hnone⟩ | ⟨k, hk, rfl⟩
    · rw [hnone j hj] at hc; cases hc
    · rcases Nat.lt_trichotomy j k with hjk | rfl | hjk
      · exact Nat.le_trans (hk.before j hjk hc) hi.2
      · exact hi.2
      · exact Nat.le_trans (Nat.le_of_lt (hk.after j hjk hj hc)) hi.2
  · rcases h with ⟨rfl, hnone⟩ | ⟨k, hk, rfl⟩
    · refine .inl ⟨rfl, fun j hj => ?_⟩
      rcases Nat.lt_succ_iff_lt_or_eq.mp hj with hj | rfl
      · exact hnone j hj
      · simpa using fun hc => hi ⟨hc, Nat.zero_le _⟩
    · refine .inr ⟨k, ⟨Nat.lt_succ_of_lt hk.lt, hk.chosen, hk.before, fun j hkj hj hc => ?_⟩, rfl⟩
      rcases Nat.lt_succ_iff_lt_or_eq.mp hj with hj | rfl
      · exact hk.after j hkj hj hc
      · exact Nat.lt_of_not_le fun hle => hi ⟨hc, hle⟩

/-- **A loop whose body keeps the later of equals holds the last of the
best at its end.** The candidates are the first `n` of the `limit` the loop
can reach. -/
theorem boundedLoop_holds {limit : Nat} {body : Nat → Nat × ρ → (Nat × ρ) × Bool} (hn : n ≤ limit)
    (hbody : ∀ i < n, ∀ best, body i best =
      (if candidate i = true ∧ best.1 ≤ p i then (p i, answer i) else best, false))
    (hstop : ∀ i best, n ≤ i → i < limit → body i best = (best, true)) :
    ∀ (fuel i : Nat) (best : Nat × ρ), i ≤ n → i + fuel = limit →
      Holds p candidate answer default i best →
      Holds p candidate answer default n (boundedLoop body fuel i best) := by
  intro fuel
  induction fuel with
  | zero =>
      intro i best hi hfuel h
      obtain rfl : i = n := by omega
      exact h
  | succ fuel ih =>
      intro i best hi hfuel h
      rw [boundedLoop]
      rcases Nat.lt_or_ge i n with hlt | hge
      · rw [hbody i hlt best]
        exact ih (i + 1) _ hlt (by omega) h.step
      · obtain rfl : i = n := by omega
        rw [hstop i best hge (by omega)]
        exact h

end Scan

end Xsr.Lib
