import Xsr.Signals.Intersections

/-!
# KeywordMatches — which keywords a query marks

`xdp_jaccard_match_query` walks through the keywords, compares the counter
of each with its threshold in 32-bit arithmetic, and marks the keyword once.
For the queries of a loaded policy the comparison is the one over the
integers, and the byte of a rule counts the marked keywords of that rule.
-/

namespace Xsr.Signals

open Control Kernel Lib Policy

/-! ## The threshold test -/

/-- `(all^2 - (all - same)^2) * 1000 >= all^2 * threshold` over the integers,
with something shared. -/
def Reaches (same all : Nat) (threshold : Int) : Prop :=
  0 < same ∧
    (all : Int) ^ 2 * threshold ≤ ((all : Int) ^ 2 - ((all : Int) - (same : Int)) ^ 2) * 1000

instance (same all : Nat) (threshold : Int) : Decidable (Reaches same all threshold) :=
  inferInstanceAs (Decidable (_ ∧ _))

/-- All grams of a query and a keyword that share `same` of them. -/
def allGrams (total totalGrams same : Nat) : Nat := total + totalGrams - same

/-- The products of the test fit 32 bits. -/
structure FitsU32 (same all : Nat) (threshold : Int) : Prop where
  square : (all : Int) ^ 2 < 2 ^ 32
  scaled : (all : Int) ^ 2 * threshold < 2 ^ 32
  difference : 0 ≤ (all : Int) ^ 2 - ((all : Int) - (same : Int)) ^ 2
  similar : ((all : Int) ^ 2 - ((all : Int) - (same : Int)) ^ 2) * 1000 < 2 ^ 32

section Threshold
variable {total totalGrams same t : Nat}

theorem fitsU32 {all : Nat} (hall : all ≤ 160) (hsame : same ≤ all) (ht : t ≤ 1000) :
    FitsU32 same all t := by
  have hsquare : (all : Int) ^ 2 ≤ 160 ^ 2 := by
    exact_mod_cast Nat.pow_le_pow_left hall 2
  have hall0 : (0 : Int) ≤ (all : Int) ^ 2 := sq_nonneg _
  have hpart : 0 ≤ ((all : Int) - (same : Int)) ^ 2 := sq_nonneg _
  have hle : ((all : Int) - (same : Int)) ^ 2 ≤ (all : Int) ^ 2 := by
    have : (same : Int) ≤ all := by exact_mod_cast hsame
    exact pow_le_pow_left₀ (by omega) (by omega) 2
  have hscaled : (all : Int) ^ 2 * (t : Int) ≤ 160 ^ 2 * 1000 :=
    mul_le_mul hsquare (by exact_mod_cast ht) (by omega) (by norm_num)
  exact ⟨by omega, by omega, by omega, by omega⟩

/-- **The 32-bit test is the integer one.** -/
theorem reachesThreshold_iff (htotal : total ≤ 128) (hgrams : totalGrams ≤ 32)
    (hsame : same ≤ totalGrams) (hsame' : same ≤ total) (ht : t ≤ 1000) (hpos : 0 < same) :
    reachesThreshold total totalGrams same t = true
      ↔ Reaches same (allGrams total totalGrams same) t := by
  obtain ⟨all, hall⟩ : ∃ all, all = allGrams total totalGrams same := ⟨_, rfl⟩
  have hallEq : all = total + totalGrams - same := hall
  have hfits : FitsU32 same all t := fitsU32 (by omega) (by omega) ht
  -- none of the intermediate values leaves 32 bits
  have hu32 : u32 (total + totalGrams + 4294967296 - same) = all := by
    unfold u32
    omega
  have hdiff : subU32 all same = all - same := by
    unfold subU32
    omega
  have hcast : ((all - same : Nat) : Int) = (all : Int) - same := Nat.cast_sub (by omega)
  have hsquare : u32 (all * all) = all * all := by
    refine Nat.mod_eq_of_lt ?_
    have := hfits.square
    rw [sq] at this
    exact_mod_cast this
  have hpart : (all - same) * (all - same) ≤ all * all :=
    Nat.mul_self_le_mul_self (Nat.sub_le _ _)
  have hsimilar : (((all * all - (all - same) * (all - same) : Nat)) : Int)
      = (all : Int) ^ 2 - ((all : Int) - same) ^ 2 := by
    rw [Nat.cast_sub hpart]
    push_cast
    rw [hcast, sq, sq]
  have hsmall : all * all < 4294967296 := by
    have := hfits.square
    rw [sq] at this
    exact_mod_cast this
  have hpartU32 : u32 ((all - same) * (all - same)) = (all - same) * (all - same) :=
    Nat.mod_eq_of_lt (hpart.trans_lt hsmall)
  have hsub : subU32 (all * all) ((all - same) * (all - same))
      = all * all - (all - same) * (all - same) := by
    unfold subU32
    omega
  have hleft : u32 (all * all * t) = all * all * t := by
    refine Nat.mod_eq_of_lt ?_
    have := hfits.scaled
    rw [sq] at this
    exact_mod_cast this
  have hright : u32 ((all * all - (all - same) * (all - same)) * 1000)
      = (all * all - (all - same) * (all - same)) * 1000 := by
    refine Nat.mod_eq_of_lt ?_
    have := hfits.similar
    rw [← hsimilar] at this
    exact_mod_cast this
  rw [← hall, reachesThreshold]
  simp only [hu32, hdiff, hsquare, hpartU32, hsub, hleft, hright, decide_eq_true_eq]
  rw [Reaches, ← hsimilar, sq]
  constructor
  · intro h
    exact ⟨hpos, by exact_mod_cast h⟩
  · rintro ⟨-, h⟩
    exact_mod_cast h

end Threshold

/-! ## The keyword loop -/

/-- The bit of keyword `k` is set. -/
def Marked (s : JaccardMatches) (k : Nat) : Prop := s.matchedKeywords.testBit k = true

instance (s : JaccardMatches) (k : Nat) : Decidable (Marked s k) :=
  inferInstanceAs (Decidable (_ = _))

/-- One keyword of the loop: marked when it passes `test` and has no mark. -/
def markKeyword (ruleOf : Nat → Nat) (test : Nat → Bool) (s : JaccardMatches) (k : Nat) :
    JaccardMatches :=
  if test k = true ∧ s.matchedKeywords &&& (1 <<< k) = 0 then
    ⟨s.matchedKeywords ||| (1 <<< k), u64 (s.ruleMatchCounts + (1 <<< (ruleOf k * 8)))⟩
  else s

theorem unmarked_iff (s : JaccardMatches) (k : Nat) :
    s.matchedKeywords &&& (1 <<< k) = 0 ↔ ¬Marked s k := by
  rw [Nat.one_shiftLeft, Nat.and_two_pow, Marked]
  cases s.matchedKeywords.testBit k <;> simp

theorem marked_or (b k j : Nat) (c : Nat) :
    Marked ⟨b ||| (1 <<< k), c⟩ j ↔ b.testBit j = true ∨ j = k := by
  rw [Marked, Nat.one_shiftLeft, Nat.testBit_or, Nat.testBit_two_pow, Bool.or_eq_true,
    decide_eq_true_eq]
  exact or_congr Iff.rfl eq_comm

section Marking
variable (ruleOf : Nat → Nat) (test : Nat → Bool)

theorem markKeyword_marked (s : JaccardMatches) (k j : Nat) :
    Marked (markKeyword ruleOf test s k) j ↔ Marked s j ∨ (j = k ∧ test k = true) := by
  unfold markKeyword
  split_ifs with h
  · rw [marked_or]
    simp [h.1, Marked]
  · rw [unmarked_iff] at h
    constructor
    · exact .inl
    · rintro (hj | ⟨rfl, htest⟩)
      · exact hj
      · by_contra hunmarked
        exact h ⟨htest, hunmarked⟩

/-- **The marks after the loop.** -/
theorem foldl_markKeyword_marked (s : JaccardMatches) (ks : List Nat) (j : Nat) :
    Marked (ks.foldl (markKeyword ruleOf test) s) j
      ↔ Marked s j ∨ (j ∈ ks ∧ test j = true) := by
  induction ks generalizing s with
  | nil => simp
  | cons k ks ih =>
      rw [List.foldl_cons, ih, markKeyword_marked, List.mem_cons]
      constructor
      · rintro ((h | ⟨rfl, h⟩) | ⟨hj, h⟩)
        · exact .inl h
        · exact .inr ⟨.inl rfl, h⟩
        · exact .inr ⟨.inr hj, h⟩
      · rintro (h | ⟨rfl | hj, h⟩)
        · exact .inl (.inl h)
        · exact .inl (.inr ⟨rfl, h⟩)
        · exact .inr ⟨hj, h⟩

/-- The number of marked keywords of rule `r`, among the first `n`. -/
def markedCount (n : Nat) (s : JaccardMatches) (r : Nat) : Nat :=
  ((Finset.range n).filter fun k => ruleOf k = r ∧ Marked s k).card

/-- **The byte of a rule** counts its marked keywords. -/
def CountsMarked (n : Nat) (s : JaccardMatches) : Prop :=
  s.ruleMatchCounts = pack 8 jaccardMaxRules (markedCount ruleOf n s)

theorem markedCount_le (n : Nat) (s : JaccardMatches) (r : Nat) : markedCount ruleOf n s r ≤ n := by
  have := Finset.card_filter_le (Finset.range n) fun k => ruleOf k = r ∧ Marked s k
  rwa [Finset.card_range] at this

/-- One more mark. -/
theorem markedCount_or {n : Nat} {s : JaccardMatches} {k : Nat} (hk : k < n)
    (hunmarked : ¬Marked s k) (c r : Nat) :
    markedCount ruleOf n ⟨s.matchedKeywords ||| (1 <<< k), c⟩ r
      = markedCount ruleOf n s r + unit (ruleOf k) r := by
  unfold markedCount unit
  by_cases hr : r = ruleOf k
  · have hinsert : ((Finset.range n).filter fun j => ruleOf j = r ∧
        Marked ⟨s.matchedKeywords ||| (1 <<< k), c⟩ j)
        = insert k ((Finset.range n).filter fun j => ruleOf j = r ∧ Marked s j) := by
      ext j
      simp only [Finset.mem_filter, Finset.mem_range, Finset.mem_insert, marked_or]
      constructor
      · rintro ⟨hj, hrule, hmarked | rfl⟩
        · exact .inr ⟨hj, hrule, hmarked⟩
        · exact .inl rfl
      · rintro (rfl | ⟨hj, hrule, hmarked⟩)
        · exact ⟨hk, hr.symm, .inr rfl⟩
        · exact ⟨hj, hrule, .inl hmarked⟩
    rw [hinsert, if_pos hr, Finset.card_insert_of_notMem]
    simp [hunmarked]
  · rw [if_neg hr, Nat.add_zero]
    congr 1
    ext j
    simp only [Finset.mem_filter, Finset.mem_range, marked_or]
    constructor
    · rintro ⟨hj, hrule, hmarked | rfl⟩
      · exact ⟨hj, hrule, hmarked⟩
      · exact absurd hrule.symm hr
    · rintro ⟨hj, hrule, hmarked⟩
      exact ⟨hj, hrule, .inl hmarked⟩

variable {ruleOf test} {n : Nat}

theorem CountsMarked.empty : CountsMarked ruleOf n ⟨0, 0⟩ := by
  have hzero : markedCount ruleOf n ⟨0, 0⟩ = fun _ => 0 := by
    funext r
    simp [markedCount, Marked]
  rw [CountsMarked, hzero, pack_zero]

theorem CountsMarked.mark (hn : n ≤ jaccardMaxKeywords)
    (hrule : ∀ k < n, ruleOf k < jaccardMaxRules) {s : JaccardMatches}
    (h : CountsMarked ruleOf n s) {k : Nat} (hk : k < n) :
    CountsMarked ruleOf n (markKeyword ruleOf test s k) := by
  unfold markKeyword
  split_ifs with hmark
  · have hunmarked := (unmarked_iff s k).mp hmark.2
    have hcounts := funext (markedCount_or ruleOf hk hunmarked
      (u64 (s.ruleMatchCounts + (1 <<< (ruleOf k * 8)))))
    have hsmall : ∀ r < jaccardMaxRules, markedCount ruleOf n s r + unit (ruleOf k) r < 2 ^ 8 := by
      intro r _
      have := markedCount_le ruleOf n s r
      have hunit : unit (ruleOf k) r ≤ 1 := by
        unfold unit
        split_ifs <;> omega
      unfold jaccardMaxKeywords at hn
      omega
    rw [CountsMarked, hcounts]
    show u64 (s.ruleMatchCounts + (1 <<< (ruleOf k * 8))) = _
    rw [h, Nat.one_shiftLeft, ← pack_unit (hrule k hk), pack_add]
    exact Nat.mod_eq_of_lt ((pack_lt hsmall).trans_le (by decide))
  · exact h

theorem CountsMarked.foldl (hn : n ≤ jaccardMaxKeywords)
    (hrule : ∀ k < n, ruleOf k < jaccardMaxRules) {s : JaccardMatches}
    (h : CountsMarked ruleOf n s) {ks : List Nat} (hks : ∀ k ∈ ks, k < n) :
    CountsMarked ruleOf n (ks.foldl (markKeyword ruleOf test) s) := by
  induction ks generalizing s with
  | nil => exact h
  | cons k ks ih =>
      exact ih (h.mark hn hrule (hks k (by simp))) fun j hj => hks j (by simp [hj])

/-- The byte of rule `r`, read as the rule test reads it. -/
theorem CountsMarked.byte (hn : n ≤ jaccardMaxKeywords) {s : JaccardMatches}
    (h : CountsMarked ruleOf n s) {r : Nat} (hr : r < jaccardMaxRules) :
    (s.ruleMatchCounts >>> (r * 8)) &&& 255 = markedCount ruleOf n s r := by
  rw [h]
  refine pack_lane (fun i _ => ?_) hr
  have := markedCount_le ruleOf n s i
  unfold jaccardMaxKeywords at hn
  omega

end Marking

end Xsr.Signals
