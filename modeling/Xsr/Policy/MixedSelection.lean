import Xsr.Kernel.Classifier
import Xsr.Lib.Selection

/-!
# MixedSelection — one route from two rule tables

`xdp_classifier_route` merges two scans that both say "no match" with the
general route and priority 0. `Matches` lists the rules of both tables that
match; the merged route is that of one of the highest among them.
-/

namespace Xsr.Policy

open Kernel Lib

/-! ## The two tables -/

/-- The n-gram rule the scan reads at `i`. -/
def jaccardRuleAt (m : JaccardMaps) (i : Nat) : Option JaccardRule :=
  match m.config with
  | some config => if i < min config.ruleCount jaccardMaxRules then m.rules i else none
  | none => none

/-- The BM25 rule the scan reads at `i`; one whose documents lie outside the
sixteen is skipped. -/
def bm25RuleAt (m : Bm25Maps) (i : Nat) : Option Bm25Rule :=
  match m.config with
  | some config =>
      if i < min config.ruleCount bm25MaxRules then
        (m.rules i).filter fun rule => rule.documentStart < bm25MaxDocuments &&
          rule.documentCount ≤ bm25MaxDocuments - rule.documentStart
      else none
  | none => none

/-- A rule of either table matches, with its priority and its route. BM25
rules no longer match once their state has overflowed. -/
inductive Matches (m : ClassifierMaps) (s : ClassifierState) : Nat → Route → Prop where
  | ngram {i : Nat} {rule : JaccardRule} (compiled : m.modules.ngram = true)
      (read : jaccardRuleAt m.jaccard i = some rule)
      (test : jaccardRuleTest s.jaccard.toJaccardMatches i rule = true) :
      Matches m s rule.priority rule.route
  | bm25 {i : Nat} {rule : Bm25Rule} (compiled : m.modules.bm25 = true)
      (read : bm25RuleAt m.bm25 i = some rule) (fits : s.bm25.overflow = false)
      (test : bm25RuleTest s.bm25 rule = true) : Matches m s rule.priority rule.route

/-- The maps of a mixed policy: no priority is shared between the tables, and
no rule has the general route. -/
structure MixedTables where
  maps : ClassifierMaps
  unshared : ∀ i j rule rule', jaccardRuleAt maps.jaccard i = some rule →
    bm25RuleAt maps.bm25 j = some rule' → rule.priority ≠ rule'.priority
  ngram_route : ∀ i rule, jaccardRuleAt maps.jaccard i = some rule → rule.route ≠ .general
  bm25_route : ∀ i rule, bm25RuleAt maps.bm25 i = some rule → rule.route ≠ .general

/-! ## What one scan finds -/

/-- A scan found nothing, or one of the highest matches. -/
def Found (Match : Nat → Route → Prop) (best : Nat × Route) : Prop :=
  (best = (0, .general) ∧ ∀ p r, ¬Match p r) ∨
    (Match best.1 best.2 ∧ ∀ p r, Match p r → p ≤ best.1)

section Scans
variable (m : ClassifierMaps) (s : ClassifierState)

/-- The matches of the n-gram table. -/
def NgramMatch (p : Nat) (r : Route) : Prop :=
  ∃ i rule, jaccardRuleAt m.jaccard i = some rule ∧
    jaccardRuleTest s.jaccard.toJaccardMatches i rule = true ∧ rule.priority = p ∧ rule.route = r

/-- The matches of the BM25 table. -/
def Bm25Match (p : Nat) (r : Route) : Prop :=
  ∃ i rule, bm25RuleAt m.bm25 i = some rule ∧ s.bm25.overflow = false ∧
    bm25RuleTest s.bm25 rule = true ∧ rule.priority = p ∧ rule.route = r

/-- The last of the best positions is one of the highest matches. -/
theorem found_of_holds {n : Nat} {p : Nat → Nat} {candidate : Nat → Bool} {route : Nat → Route}
    {best : Nat × Route} {Match : Nat → Route → Prop}
    (h : Holds p candidate route .general n best)
    (hmatch : ∀ q r, Match q r ↔ ∃ i < n, candidate i = true ∧ p i = q ∧ route i = r) :
    Found Match best := by
  rcases h with ⟨rfl, hnone⟩ | ⟨k, hk, rfl⟩
  · refine .inl ⟨rfl, fun q r hqr => ?_⟩
    obtain ⟨i, hi, hc, -⟩ := (hmatch q r).mp hqr
    rw [hnone i hi] at hc
    cases hc
  · refine .inr ⟨(hmatch _ _).mpr ⟨k, hk.lt, hk.chosen, rfl, rfl⟩, fun q r hqr => ?_⟩
    obtain ⟨i, hi, hc, rfl, -⟩ := (hmatch q r).mp hqr
    rcases Nat.lt_trichotomy i k with hik | rfl | hik
    · exact hk.before i hik hc
    · exact Nat.le_refl _
    · exact Nat.le_of_lt (hk.after i hik hi hc)

/-- `xdp_jaccard_route_priority` finds one of the highest matches. -/
theorem jaccardRoutePriority_found :
    Found (NgramMatch m s) (jaccardRoutePriority m.jaccard s.jaccard.toJaccardMatches) := by
  cases hconfig : m.jaccard.config with
  | none =>
      refine .inl ⟨by rw [jaccardRoutePriority, hconfig], fun q r hqr => ?_⟩
      obtain ⟨i, rule, hrule, -⟩ := hqr
      simp [jaccardRuleAt, hconfig] at hrule
  | some config =>
      have hread : ∀ i, jaccardRuleAt m.jaccard i =
          if i < min config.ruleCount jaccardMaxRules then m.jaccard.rules i else none := by
        intro i
        rw [jaccardRuleAt, hconfig]
      -- the loop over the rules, as a search for the last highest match
      have hrun : Holds (fun i => ((jaccardRuleAt m.jaccard i).map JaccardRule.priority).getD 0)
          (fun i => ((jaccardRuleAt m.jaccard i).map
            (jaccardRuleTest s.jaccard.toJaccardMatches i)).getD false)
          (fun i => ((jaccardRuleAt m.jaccard i).map JaccardRule.route).getD Route.general)
          Route.general (min config.ruleCount jaccardMaxRules)
          (boundedLoop (jaccardRuleStep m.jaccard s.jaccard.toJaccardMatches config.ruleCount)
            jaccardMaxRules 0 (0, .general)) := by
        refine boundedLoop_holds (Nat.min_le_right _ _) ?_ ?_ jaccardMaxRules 0 (0, Route.general)
          (Nat.zero_le _) (Nat.zero_add _) (.inl ⟨rfl, by simp⟩)
        · intro i hi best
          have hcount : ¬config.ruleCount ≤ i := by omega
          have hat := hread i
          rw [if_pos hi] at hat
          rw [jaccardRuleStep, if_neg hcount, hat]
          cases m.jaccard.rules i with
          | none => simp
          | some rule =>
              by_cases htest : jaccardRuleTest s.jaccard.toJaccardMatches i rule = true ∧
                  best.1 ≤ rule.priority
              · simp [htest.1, htest.2]
              · simp only [Option.map_some, Option.getD_some, if_neg htest]
        · intro i best hi hlt
          rw [jaccardRuleStep, if_pos (by omega)]
      rw [jaccardRoutePriority, hconfig]
      refine found_of_holds hrun fun q r => ⟨?_, ?_⟩
      · rintro ⟨i, rule, hrule, htest, rfl, rfl⟩
        refine ⟨i, ?_, by simp [hrule, htest], by simp [hrule], by simp [hrule]⟩
        by_contra hout
        rw [hread, if_neg hout] at hrule
        cases hrule
      · rintro ⟨i, -, htest, rfl, rfl⟩
        cases hrule : jaccardRuleAt m.jaccard i with
        | none => simp [hrule] at htest
        | some rule => exact ⟨i, rule, hrule, by simpa [hrule] using htest, by simp, by simp⟩

/-- `xdp_bm25_route_priority` finds one of the highest matches, none once
the state has overflowed. -/
theorem bm25RoutePriority_found : Found (Bm25Match m s) (bm25RoutePriority m.bm25 s.bm25) := by
  cases hconfig : m.bm25.config with
  | none =>
      refine .inl ⟨by rw [bm25RoutePriority, hconfig], fun q r hqr => ?_⟩
      obtain ⟨i, rule, hrule, -⟩ := hqr
      simp [bm25RuleAt, hconfig] at hrule
  | some config =>
      cases hfits : s.bm25.overflow with
      | true =>
          refine .inl ⟨by simp [bm25RoutePriority, hconfig, hfits], fun q r hqr => ?_⟩
          obtain ⟨i, rule, -, hno, -⟩ := hqr
          rw [hfits] at hno
          cases hno
      | false =>
          have hread : ∀ i, bm25RuleAt m.bm25 i =
              if i < min config.ruleCount bm25MaxRules then
                (m.bm25.rules i).filter fun rule => rule.documentStart < bm25MaxDocuments &&
                  rule.documentCount ≤ bm25MaxDocuments - rule.documentStart
              else none := by
            intro i
            rw [bm25RuleAt, hconfig]
          have hrun : Holds (fun i => ((bm25RuleAt m.bm25 i).map Bm25Rule.priority).getD 0)
              (fun i => ((bm25RuleAt m.bm25 i).map (bm25RuleTest s.bm25)).getD false)
              (fun i => ((bm25RuleAt m.bm25 i).map Bm25Rule.route).getD Route.general)
              Route.general (min config.ruleCount bm25MaxRules)
              (boundedLoop (bm25RuleStep m.bm25 s.bm25 config.ruleCount) bm25MaxRules 0
                (0, .general)) := by
            refine boundedLoop_holds (Nat.min_le_right _ _) ?_ ?_ bm25MaxRules 0 (0, Route.general)
              (Nat.zero_le _) (Nat.zero_add _) (.inl ⟨rfl, by simp⟩)
            · intro i hi best
              have hcount : ¬config.ruleCount ≤ i := by omega
              have hat := hread i
              rw [if_pos hi] at hat
              rw [bm25RuleStep, if_neg hcount, hat]
              cases m.bm25.rules i with
              | none => simp
              | some rule =>
                  -- a rule whose documents do not fit is passed over
                  by_cases hdoc : bm25MaxDocuments ≤ rule.documentStart ∨
                      bm25MaxDocuments - rule.documentStart < rule.documentCount
                  · have hskip : ¬(rule.documentStart < bm25MaxDocuments ∧
                        rule.documentCount ≤ bm25MaxDocuments - rule.documentStart) := by omega
                    simp [hdoc, Option.filter, hskip]
                  · have hkeep : rule.documentStart < bm25MaxDocuments ∧
                        rule.documentCount ≤ bm25MaxDocuments - rule.documentStart := by omega
                    by_cases htest : bm25RuleTest s.bm25 rule = true ∧ best.1 ≤ rule.priority
                    · simp [hdoc, Option.filter, hkeep, htest.1, htest.2]
                    · simp only [Option.filter, hkeep.1, hkeep.2, decide_true, Bool.and_true,
                        if_true, Option.map_some, Option.getD_some, if_neg hdoc, if_neg htest]
            · intro i best hi hlt
              rw [bm25RuleStep, if_pos (by omega)]
          rw [bm25RoutePriority, hconfig]
          simp only [hfits, Bool.false_eq_true, if_false]
          refine found_of_holds hrun fun q r => ⟨?_, ?_⟩
          · rintro ⟨i, rule, hrule, -, htest, rfl, rfl⟩
            refine ⟨i, ?_, by simp [hrule, htest], by simp [hrule], by simp [hrule]⟩
            by_contra hout
            rw [hread, if_neg hout] at hrule
            cases hrule
          · rintro ⟨i, -, htest, rfl, rfl⟩
            cases hrule : bm25RuleAt m.bm25 i with
            | none => simp [hrule] at htest
            | some rule =>
                exact ⟨i, rule, hrule, hfits, by simpa [hrule] using htest, by simp, by simp⟩

/-- The rules of the compiled tables that match are the matches of the two
scans that run. -/
theorem matches_iff {p : Nat} {r : Route} :
    Matches m s p r ↔ (m.modules.ngram = true ∧ NgramMatch m s p r) ∨
      (m.modules.bm25 = true ∧ Bm25Match m s p r) := by
  constructor
  · rintro (⟨compiled, read, test⟩ | ⟨compiled, read, fits, test⟩)
    · exact .inl ⟨compiled, _, _, read, test, rfl, rfl⟩
    · exact .inr ⟨compiled, _, _, read, fits, test, rfl, rfl⟩
  · rintro (⟨compiled, i, rule, read, test, rfl, rfl⟩ |
      ⟨compiled, i, rule, read, fits, test, rfl, rfl⟩)
    · exact .ngram compiled read test
    · exact .bm25 compiled read fits test

/-- A scan that is not compiled in leaves the general route and priority 0. -/
theorem Found.of_compiled {Match : Nat → Route → Prop} {best : Nat × Route} (compiled : Bool)
    (h : Found Match best) :
    Found (fun p r => compiled = true ∧ Match p r) (if compiled then best else (0, .general)) := by
  cases compiled with
  | false => exact .inl ⟨rfl, by simp⟩
  | true => simpa using h

/-- **The merge of two scans is one scan of both tables**, where no match
has the general route and no priority is on both sides. -/
theorem Found.merge {A B : Nat → Route → Prop} {a b : Nat × Route} (ha : Found A a)
    (hb : Found B b) (hroute : ∀ p r, B p r → r ≠ .general)
    (hdistinct : ∀ p r r', A p r → ¬B p r') :
    Found (fun p r => A p r ∨ B p r)
      (if b.2 ≠ .general ∧ a.1 ≤ b.1 then b else a) := by
  rcases hb with ⟨rfl, hnone⟩ | ⟨hmatch, hmax⟩
  · rw [if_neg (by simp)]
    rcases ha with ⟨rfl, hnone'⟩ | ⟨hmatch, hmax⟩
    · exact .inl ⟨rfl, fun p r => not_or.mpr ⟨hnone' p r, hnone p r⟩⟩
    · refine .inr ⟨.inl hmatch, fun p r hp => ?_⟩
      exact hp.elim (hmax p r) fun hB => absurd hB (hnone p r)
  · have hne := hroute _ _ hmatch
    rcases ha with ⟨rfl, hnone⟩ | ⟨hmatch', hmax'⟩
    · rw [if_pos ⟨hne, Nat.zero_le _⟩]
      exact .inr ⟨.inr hmatch, fun p r hp => hp.elim (fun hA => absurd hA (hnone p r)) (hmax p r)⟩
    · have hneq : a.1 ≠ b.1 := fun heq => hdistinct _ _ _ hmatch' (heq ▸ hmatch)
      split_ifs with h
      · refine .inr ⟨.inr hmatch, fun p r hp => hp.elim (fun hA => ?_) (hmax p r)⟩
        exact Nat.le_trans (hmax' p r hA) h.2
      · have hlt : b.1 < a.1 := by
          have : ¬a.1 ≤ b.1 := fun hle => h ⟨hne, hle⟩
          omega
        refine .inr ⟨.inl hmatch', fun p r hp => hp.elim (hmax' p r) fun hB => ?_⟩
        exact Nat.le_trans (hmax p r hB) (Nat.le_of_lt hlt)

end Scans

/-! ## The merged route -/

/-- The route the distilled signal answers on its own, if it answers. -/
def distilledAnswer (m : ClassifierMaps) (s : ClassifierState) : Option Route :=
  let answer := if m.modules.distill then distillRoute m.distill s.distill else (false, .general)
  if answer.1 = true ∧ answer.2 ≠ .general then some answer.2 else none

namespace MixedTables
variable (M : MixedTables) (s : ClassifierState)

theorem ngramMatch_route {p : Nat} {r : Route} (h : NgramMatch M.maps s p r) : r ≠ .general := by
  obtain ⟨i, rule, hrule, -, -, rfl⟩ := h
  exact M.ngram_route i rule hrule

theorem bm25Match_route {p : Nat} {r : Route} (h : Bm25Match M.maps s p r) : r ≠ .general := by
  obtain ⟨i, rule, hrule, -, -, -, rfl⟩ := h
  exact M.bm25_route i rule hrule

theorem not_shared {p : Nat} {r r' : Route} (h : NgramMatch M.maps s p r) :
    ¬Bm25Match M.maps s p r' := by
  obtain ⟨i, rule, hrule, -, rfl, -⟩ := h
  rintro ⟨j, rule', hrule', -, -, hpriority, -⟩
  exact M.unshared i j rule rule' hrule hrule' hpriority.symm

/-- The two scans and their merge. -/
def merged : Nat × Route :=
  let ngram := if M.maps.modules.ngram then
    jaccardRoutePriority M.maps.jaccard s.jaccard.toJaccardMatches else (0, .general)
  let bm25 := if M.maps.modules.bm25 then bm25RoutePriority M.maps.bm25 s.bm25 else (0, .general)
  if bm25.2 ≠ .general ∧ ngram.1 ≤ bm25.1 then bm25 else ngram

theorem merged_found : Found (Matches M.maps s) (M.merged s) := by
  have h := Found.merge
    ((jaccardRoutePriority_found M.maps s).of_compiled M.maps.modules.ngram)
    ((bm25RoutePriority_found M.maps s).of_compiled M.maps.modules.bm25)
    (fun p r hB => M.bm25Match_route s hB.2)
    (fun p r r' hA hB => M.not_shared s hA.2 hB.2)
  have heq : (fun p r => (M.maps.modules.ngram = true ∧ NgramMatch M.maps s p r) ∨
      (M.maps.modules.bm25 = true ∧ Bm25Match M.maps s p r)) = Matches M.maps s := by
    funext p r
    exact propext (matches_iff M.maps s).symm
  rwa [heq] at h

theorem classifierRoute_eq :
    classifierRoute M.maps s = (distilledAnswer M.maps s).getD (M.merged s).2 := by
  rw [classifierRoute, distilledAnswer]
  split_ifs <;> simp_all [merged, apply_ite Prod.snd]

/-- **The route is that of a highest match of both tables**, unless the
distilled signal answers coding or math; it is the general route exactly
when nothing matches. -/
theorem mixed_route_maximal :
    (∀ r, distilledAnswer M.maps s = some r → classifierRoute M.maps s = r) ∧
    (distilledAnswer M.maps s = none →
      ((∃ p r, Matches M.maps s p r) → ∃ p, Matches M.maps s p (classifierRoute M.maps s) ∧
        ∀ p' r', Matches M.maps s p' r' → p' ≤ p) ∧
      (classifierRoute M.maps s = .general ↔ ∀ p r, ¬Matches M.maps s p r)) := by
  rw [classifierRoute_eq]
  refine ⟨fun r hr => by rw [hr]; rfl, fun hnone => ?_⟩
  rw [hnone, Option.getD_none]
  rcases M.merged_found s with ⟨heq, hno⟩ | ⟨hmatch, hmax⟩
  · refine ⟨fun ⟨p, r, hpr⟩ => absurd hpr (hno p r), ?_⟩
    rw [heq]
    exact iff_of_true rfl hno
  · refine ⟨fun _ => ⟨_, hmatch, hmax⟩, iff_of_false ?_ fun hno => hno _ _ hmatch⟩
    rcases (matches_iff M.maps s).mp hmatch with ⟨-, h⟩ | ⟨-, h⟩
    · exact M.ngramMatch_route s h
    · exact M.bm25Match_route s h

end MixedTables

/-! ## Two rules -/

/-- An n-gram rule of priority 5. -/
def codingRule : JaccardRule := ⟨800, 5, .coding, .or, 3, false, 1⟩

/-- A BM25 rule of priority 9. -/
def mathRule : Bm25Rule := ⟨100000000, 9, .math, .or, 0, 1, 1⟩

/-- The maps of a policy of these two. -/
def twoMaps : ClassifierMaps where
  modules := ⟨false, true, true⟩
  distill := ⟨none, fun _ => none⟩
  jaccard := ⟨some ⟨1, 1, false⟩, fun _ => some codingRule, fun _ => none, fun _ => none,
    fun _ => none, fun _ => 0⟩
  bm25 := ⟨some ⟨1, 1, fun _ => 0⟩, fun _ => some mathRule, fun _ => none⟩

theorem codingRule_only {i : Nat} {rule : JaccardRule}
    (h : jaccardRuleAt twoMaps.jaccard i = some rule) : rule = codingRule :=
  (Option.some.inj (Option.ite_none_right_eq_some.mp h).2).symm

theorem mathRule_only {i : Nat} {rule : Bm25Rule}
    (h : bm25RuleAt twoMaps.bm25 i = some rule) : rule = mathRule :=
  (Option.some.inj (Option.ite_none_right_eq_some.mp h).2).symm

def twoRules : MixedTables where
  maps := twoMaps
  unshared i j rule rule' h h' := by
    rw [codingRule_only h, mathRule_only h']
    decide
  ngram_route i rule h := by
    rw [codingRule_only h]
    decide
  bm25_route i rule h := by
    rw [mathRule_only h]
    decide

/-- The state in which both match. -/
def bothMatched : ClassifierState :=
  { ClassifierState.zero with
    jaccard := { JaccardState.zero with matchedKeywords := 1, ruleMatchCounts := 1 }
    bm25 := { bm25Init with matchedDocuments := 1 } }

/-- Both rules match, and the route is that of the BM25 rule. -/
theorem mixed_route_maximal_both :
    Matches twoMaps bothMatched 5 .coding ∧ Matches twoMaps bothMatched 9 .math ∧
      classifierRoute twoMaps bothMatched = .math ∧
      ∃ p, Matches twoMaps bothMatched p .math ∧
        ∀ p' r', Matches twoMaps bothMatched p' r' → p' ≤ p := by
  have hngram : Matches twoMaps bothMatched codingRule.priority codingRule.route :=
    .ngram (i := 0) rfl rfl rfl
  have hbm25 : Matches twoMaps bothMatched mathRule.priority mathRule.route :=
    .bm25 (i := 0) rfl rfl rfl rfl
  have hroute : classifierRoute twoMaps bothMatched = .math := rfl
  have hmaximal := ((MixedTables.mixed_route_maximal twoRules bothMatched).2 rfl).1 ⟨_, _, hbm25⟩
  exact ⟨hngram, hbm25, hroute, hroute ▸ hmaximal⟩

end Xsr.Policy
