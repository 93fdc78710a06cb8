import Xsr.Policy.RuleTable

/-!
# Decisions — what the decisions of a policy say

A decision is a formula over the keyword signals, by name, and a policy
means the name of its highest true decision. `Decision` is that meaning,
stated for itself; the generators only ever see the conditions one by one.
`Faithful` is the condition under which a rule table gives every set of
matching signals the route the decisions give it. It looks at each decision
through the smallest sets that make it true.
-/

namespace Xsr.Policy

open Kernel Lib

/-- A decision: all of its conditions have to hold, or one of them. -/
structure Decision where
  name : String
  priority : Int
  all : Bool
  conditions : List String

/-- Some signal called `c` matches. -/
def hit (names : List String) (m : Nat → Bool) (c : String) : Bool :=
  (List.range names.length).any fun i => names[i]? == some c && m i

/-- The formula of a decision. -/
def Decision.holds (A : Decision) (names : List String) (m : Nat → Bool) : Bool :=
  if A.all then A.conditions.all (hit names m) else A.conditions.any (hit names m)

/-- The name of the highest true decision. -/
def decisionRoute (names : List String) (decisions : List Decision) (m : Nat → Bool) : String :=
  (((sortDescending Decision.priority decisions).find? (·.holds names m)).map
    Decision.name).getD "others"

/-- `A` is true and no decision above it is. -/
structure Highest (names : List String) (decisions : List Decision) (m : Nat → Bool)
    (A : Decision) : Prop where
  mem : A ∈ decisions
  holds : A.holds names m = true
  above : ∀ B ∈ decisions, A.priority < B.priority → B.holds names m = false

/-- Signals that make a decision true: one for each condition, or one for
one of them. -/
def Supports (names : List String) (A : Decision) (T : List Nat) : Prop :=
  if A.all then List.Forall₂ (fun c t => names[t]? = some c) A.conditions T
  else ∃ c ∈ A.conditions, ∃ t, names[t]? = some c ∧ T = [t]

section Meaning
variable {names : List String} {m m' : Nat → Bool} {decisions : List Decision} {A B : Decision}

theorem hit_iff {c : String} : hit names m c = true ↔ ∃ i, names[i]? = some c ∧ m i = true := by
  simp only [hit, List.any_eq_true, List.mem_range, Bool.and_eq_true, beq_iff_eq]
  constructor
  · rintro ⟨i, -, hi, hm⟩
    exact ⟨i, hi, hm⟩
  · rintro ⟨i, hi, hm⟩
    exact ⟨i, (List.getElem?_eq_some_iff.mp hi).1, hi, hm⟩

/-- More matches make no decision false. -/
theorem Decision.holds_mono (hm : ∀ i < names.length, m i = true → m' i = true)
    (h : A.holds names m = true) : A.holds names m' = true := by
  have hhit : ∀ c, hit names m c = true → hit names m' c = true := by
    intro c hc
    obtain ⟨i, hi, hmi⟩ := hit_iff.mp hc
    exact hit_iff.mpr ⟨i, hi, hm i (List.getElem?_eq_some_iff.mp hi).1 hmi⟩
  unfold Decision.holds at h ⊢
  split_ifs with hall
  · rw [if_pos hall] at h
    exact List.all_eq_true.mpr fun c hc => hhit c (List.all_eq_true.mp h c hc)
  · rw [if_neg hall] at h
    obtain ⟨c, hc, hcm⟩ := List.any_eq_true.mp h
    exact List.any_eq_true.mpr ⟨c, hc, hhit c hcm⟩

/-- Fewer matches leave what is above `A` false. -/
theorem Highest.of_subset (h : Highest names decisions m A)
    (hm : ∀ i < names.length, m' i = true → m i = true) (hA : A.holds names m' = true) :
    Highest names decisions m' A where
  mem := h.mem
  holds := hA
  above := by
    intro B hB hlt
    by_contra htrue
    have := Decision.holds_mono hm (Bool.not_eq_false _ ▸ htrue)
    rw [h.above B hB hlt] at this
    cases this

theorem Highest.congr (hm : ∀ i < names.length, m i = m' i) (h : Highest names decisions m A) :
    Highest names decisions m' A :=
  h.of_subset (fun i hi => by rw [hm i hi]; exact id)
    (Decision.holds_mono (fun i hi => by rw [hm i hi]; exact id) h.holds)

theorem Highest.unique (hdistinct : (decisions.map Decision.priority).Nodup)
    (hA : Highest names decisions m A) (hB : Highest names decisions m B) : A = B := by
  have heq : A.priority = B.priority := by
    rcases Int.lt_trichotomy A.priority B.priority with h | h | h
    · exact absurd hB.holds (by rw [hA.above B hB.mem h]; simp)
    · exact h
    · exact absurd hA.holds (by rw [hB.above A hA.mem h]; simp)
  exact List.inj_on_of_nodup_map hdistinct hA.mem hB.mem heq

/-- Either nothing is true, or the highest true decision gives its name. -/
theorem decisionRoute_cases (names : List String) (decisions : List Decision) (m : Nat → Bool) :
    (decisionRoute names decisions m = "others" ∧
      ∀ A ∈ decisions, A.holds names m = false) ∨
    ∃ A, Highest names decisions m A ∧ decisionRoute names decisions m = A.name := by
  unfold decisionRoute
  cases hfind : (sortDescending Decision.priority decisions).find? (·.holds names m) with
  | none => exact .inl ⟨rfl, (find_sortDescending_none _).mp hfind⟩
  | some A =>
      refine .inr ⟨A, ⟨(mem_sortDescending _).mp (List.mem_of_find?_eq_some hfind), ?_, ?_⟩, rfl⟩
      · exact List.find?_some (p := fun B : Decision => B.holds names m) hfind
      · intro B hB hlt
        by_contra htrue
        have hle := find_sortDescending_max _ hfind hB (Bool.not_eq_false _ ▸ htrue)
        omega

theorem Highest.route (hdistinct : (decisions.map Decision.priority).Nodup)
    (h : Highest names decisions m A) : decisionRoute names decisions m = A.name := by
  rcases decisionRoute_cases names decisions m with ⟨-, hnone⟩ | ⟨B, hB, hroute⟩
  · cases h.holds.symm.trans (hnone A h.mem)
  · rw [hroute, h.unique hdistinct hB]

/-- The route depends on the matches of the signals only. -/
theorem decisionRoute_congr (hm : ∀ i < names.length, m i = m' i) :
    decisionRoute names decisions m = decisionRoute names decisions m' := by
  have hholds : (fun A : Decision => A.holds names m) = fun A => A.holds names m' := by
    funext A
    rw [Bool.eq_iff_iff]
    exact ⟨Decision.holds_mono fun i hi => by rw [hm i hi]; exact id,
      Decision.holds_mono fun i hi => by rw [hm i hi]; exact id⟩
  rw [decisionRoute, hholds]
  rfl

theorem Supports.holds {T : List Nat} (h : Supports names A T) (hT : ∀ t ∈ T, m t = true) :
    A.holds names m = true := by
  unfold Supports at h
  unfold Decision.holds
  split_ifs at h ⊢ with hall
  · refine List.all_eq_true.mpr fun c hc => ?_
    obtain ⟨k, hk⟩ := List.mem_iff_getElem?.mp hc
    obtain ⟨t, ht, htc⟩ := forall₂_getElem?_left h hk
    exact hit_iff.mpr ⟨t, htc, hT t (List.mem_of_getElem? ht)⟩
  · obtain ⟨c, hc, t, htc, rfl⟩ := h
    exact List.any_eq_true.mpr ⟨c, hc, hit_iff.mpr ⟨t, htc, hT t (by simp)⟩⟩

/-- What is true is true because of a support among the matches. -/
theorem exists_support (h : A.holds names m = true) :
    ∃ T, Supports names A T ∧ ∀ t ∈ T, t < names.length ∧ m t = true := by
  unfold Decision.holds at h
  unfold Supports
  split_ifs at h ⊢ with hall
  · have hhit : ∀ c ∈ A.conditions, ∃ t, names[t]? = some c ∧ m t = true :=
      fun c hc => hit_iff.mp (List.all_eq_true.mp h c hc)
    clear h hall
    generalize A.conditions = conditions at hhit
    induction conditions with
    | nil => exact ⟨[], .nil, by simp⟩
    | cons c conditions ih =>
        obtain ⟨T, hT, hmatch⟩ := ih fun c hc => hhit c (List.mem_cons_of_mem _ hc)
        obtain ⟨t, htc, htm⟩ := hhit c (by simp)
        refine ⟨t :: T, .cons htc hT, fun x hx => ?_⟩
        rcases List.mem_cons.mp hx with rfl | hx
        · exact ⟨(List.getElem?_eq_some_iff.mp htc).1, htm⟩
        · exact hmatch x hx
  · obtain ⟨c, hc, hcm⟩ := List.any_eq_true.mp h
    obtain ⟨t, htc, htm⟩ := hit_iff.mp hcm
    refine ⟨[t], ⟨c, hc, t, htc, rfl⟩, fun x hx => ?_⟩
    obtain rfl := List.mem_singleton.mp hx
    exact ⟨(List.getElem?_eq_some_iff.mp htc).1, htm⟩

end Meaning

/-! ## Faithful tables -/

/-- Signal `t` loses against signal `i`, or is `i`. -/
def AtMost (rank : Nat → Nat) (t i : Nat) : Prop := rank t < rank i ∨ (rank t = rank i ∧ t ≤ i)

/-- The routes and ranks of the signals say what the decisions say. -/
structure Faithful (names : List String) (decisions : List Decision) (route : Nat → String)
    (rank : Nat → Nat) : Prop where
  /-- without a match only a decision for the general route is true -/
  silent : ∀ A, Highest names decisions (fun _ => false) A → A.name = "others"
  /-- every signal alone makes some decision true -/
  covered : ∀ i < names.length, ∃ A ∈ decisions, A.holds names (· == i) = true
  /-- what wins over a support of a decision has the route of the decision,
  unless together they make a higher decision true -/
  named : ∀ A ∈ decisions, ∀ T i, Supports names A T → i < names.length →
    (∀ t ∈ T, AtMost rank t i) →
    (∀ B ∈ decisions, A.priority < B.priority →
      B.holds names (fun k => k == i || T.contains k) = false) → route i = A.name

theorem AtMost.of_lastMax {n : Nat} {rank : Nat → Nat} {m : Nat → Bool} {t i : Nat}
    (h : LastMax n rank m i) (ht : t < n) (hm : m t = true) : AtMost rank t i := by
  rcases Nat.lt_trichotomy t i with hlt | rfl | hgt
  · have := h.before t hlt hm
    unfold AtMost
    omega
  · exact .inr ⟨rfl, Nat.le_refl _⟩
  · exact .inl (h.after t hgt ht hm)

theorem lastMax_of_atMost {n : Nat} {rank : Nat → Nat} {T : List Nat} {i : Nat} (hi : i < n)
    (h : ∀ t ∈ T, AtMost rank t i) : LastMax n rank (fun k => k == i || T.contains k) i := by
  refine ⟨hi, by simp, fun j hj hm => ?_, fun j hj _ hm => ?_⟩
  · have hT : j ∈ T := by
      simpa [Nat.ne_of_lt hj] using hm
    rcases h j hT with hlt | ⟨heq, -⟩ <;> omega
  · have hT : j ∈ T := by
      simpa [Nat.ne_of_gt hj] using hm
    rcases h j hT with hlt | ⟨-, hle⟩ <;> omega

variable {σ : Type} {T : RuleTable σ} {names : List String} {decisions : List Decision}

/-- **A rule table says what the decisions say exactly when it is faithful
to them.** -/
theorem RuleTable.faithful_iff (hsize : T.size = names.length)
    (hdistinct : (decisions.map Decision.priority).Nodup) :
    (∀ s, routeName (T.select s).2 = decisionRoute names decisions (T.isMatch s)) ↔
      Faithful names decisions (fun i => routeName (T.route i)) T.priority := by
  constructor
  · intro hall
    refine ⟨fun A hA => ?_, fun i hi => ?_, fun A hA S i hS hi hle habove => ?_⟩
    -- a state in which nothing matches, one in which only `i` does, and one in which
    -- `i` does together with the support of `A`
    · obtain ⟨s, hs⟩ := T.realizes fun _ => false
      have hsel : (T.select s).2 = .general := by
        rcases T.selects s with ⟨hnone, -⟩ | ⟨k, hk, -⟩
        · rw [hnone]
        · cases hk.chosen.symm.trans (hs k hk.lt)
      have hroute := hall s
      rw [hsel, (hA.congr fun i hi => (hs i (by rw [hsize]; exact hi)).symm).route hdistinct]
        at hroute
      exact hroute.symm
    · obtain ⟨s, hs⟩ := T.realizes (· == i)
      have hi' : i < T.size := by rw [hsize]; exact hi
      rcases decisionRoute_cases names decisions (T.isMatch s) with ⟨hnone, -⟩ | ⟨A, hA, -⟩
      · rcases T.selects s with ⟨-, hno⟩ | ⟨k, hk, hsel⟩
        · exact absurd (hs i hi') (by simp [hno i hi'])
        · refine absurd (routeName_injective (s := .general) ?_) (T.route_ne_general k hk.lt)
          rw [← show (T.select s).2 = T.route k by rw [hsel], hall s, hnone]
          rfl
      · exact ⟨A, hA.mem, (hA.congr fun j hj => hs j (by rw [hsize]; exact hj)).holds⟩
    · obtain ⟨s, hs⟩ := T.realizes fun k => k == i || S.contains k
      have hi' : i < T.size := by rw [hsize]; exact hi
      have hlast := (lastMax_of_atMost hi' hle).congr fun k hk => (hs k hk).symm
      have hsel : (T.select s).2 = T.route i := by
        rcases T.selects s with ⟨-, hno⟩ | ⟨k, hk, hsel⟩
        · cases hlast.chosen.symm.trans (hno i hi')
        · rw [hsel, hk.unique hlast]
      have hhigh : Highest names decisions (fun k => k == i || S.contains k) A :=
        ⟨hA, hS.holds fun t ht => by simp [ht], habove⟩
      have hroute := hall s
      rw [hsel, (hhigh.congr fun k hk => (hs k (by rw [hsize]; exact hk)).symm).route hdistinct]
        at hroute
      exact hroute
  · intro hf s
    rcases T.selects s with ⟨hsel, hno⟩ | ⟨i, hi, hsel⟩
    · have hempty : ∀ k < names.length, T.isMatch s k = false := by
        rw [← hsize]
        exact hno
      rw [hsel]
      rcases decisionRoute_cases names decisions (T.isMatch s) with ⟨hnone, -⟩ | ⟨A, hA, hroute⟩
      · rw [hnone]
        rfl
      · rw [hroute, hf.silent A (hA.congr hempty)]
        rfl
    · have hi' : i < names.length := by
        rw [← hsize]
        exact hi.lt
      rw [hsel]
      rcases decisionRoute_cases names decisions (T.isMatch s) with ⟨-, hnone⟩ | ⟨A, hA, hroute⟩
      · -- the winner alone makes some decision true
        obtain ⟨A, hA, hholds⟩ := hf.covered i hi'
        have hholds' : A.holds names (T.isMatch s) = true := Decision.holds_mono
          (fun k _ hk => by rw [eq_of_beq hk]; exact hi.chosen) hholds
        rw [hnone A hA] at hholds'
        cases hholds'
      · rw [hroute]
        obtain ⟨S, hS, hmatch⟩ := exists_support hA.holds
        refine hf.named A hA.mem S i hS hi'
          (fun t ht => .of_lastMax hi (by rw [hsize]; exact (hmatch t ht).1) (hmatch t ht).2) ?_
        refine (hA.of_subset (fun k _ hk => ?_) (hS.holds fun t ht => by simp [ht])).above
        rcases Bool.or_eq_true_iff.mp hk with hk | hk
        · rw [eq_of_beq hk]
          exact hi.chosen
        · exact (hmatch k (by simpa using hk)).2

end Xsr.Policy
