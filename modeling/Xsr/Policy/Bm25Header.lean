import Xsr.Kernel.Bm25
import Xsr.Policy.JaccardHeader

/-!
# Bm25Header — the rules of `generate_bm25_policy_header.py`

`parse` lays the keyword documents of all BM25 rules out one behind the
other and gives each rule the mask of its own. How the documents are
tokenised and weighed is floating-point arithmetic that the rules do not
read, so it is a parameter of the loop.
-/

namespace Xsr.Policy

open Kernel Lib

/-- A row of `terms`, its token encoded. -/
structure TermRow where
  hash : UInt32
  token : List UInt8
  weights : List Int
  stopword : Bool

/-- The tokens and weights of the documents: what is known so far, one more
rule with its name, its first document and its keywords, and the term
table. -/
structure Weigher (τ : Type) where
  initial : τ
  addRule : τ → String → Nat → List String → Except PyError τ
  terms : τ → Except PyError (List TermRow)

/-- A row of `rules`. -/
structure Bm25RuleRow where
  thresholdFixed : Int
  priority : Int
  route : Route
  operator : Operator
  documentStart : Nat
  documentCount : Nat
  documentMask : Nat

/-- A row of `documents`. -/
structure DocumentRow where
  ruleId : Nat
  thresholdFixed : Int

/-- What `parse` returns. -/
structure Bm25Header where
  rules : List Bm25RuleRow
  documents : List DocumentRow
  terms : List TermRow

/-- The variables of the loop of `parse`. -/
structure Bm25Parse (τ : Type) where
  rules : List Bm25RuleRow
  documents : List DocumentRow
  known : τ

section Generator
variable (u : Unicode) {τ : Type} (w : Weigher τ)

/-- `SCORE_SCALE` -/
def scoreScale : Nat := 1000000000
/-- `MAX_FIXED_SCORE` -/
def maxFixedScore : Int := 9223372036854775807

/-- `threshold_fixed` -/
def thresholdFixed (value : PyVal) : Except PyError Int := do
  match ← value.toDecimal u with
  | .nan => .error .conversion
  | .infinity _ => .error .arithmetic
  | .finite x =>
      match (x.scale scoreScale).quantize with
      | none => .error .arithmetic
      | some result =>
          raiseIf (result < 0 || maxFixedScore < result) ("bm25_threshold " ++ value.repr u
            ++ " exceeds the Q1e9 signed-64 accumulator bound")
          return result

/-- The rule of a BM25 signal and its documents. -/
def parseBm25Signal (d : Decisions) (s : Bm25Parse τ) (signal : Dict) :
    Except PyError (Bm25Parse τ) := do
  let name := signalName u signal ""
  let routeName ← signalRouteName u signal d.routes
  let route ← required (routeConstant routeName)
    (name ++ ": unsupported route " ++ pyRepr u routeName)
  let operator ← required (operatorConstant (signalOperator u signal))
    (name ++ ": operator must be OR, AND, or NOR")
  let values ← required (signalKeywords signal) (name ++ ": keywords must be a non-empty list")
  raiseIf (bm25MaxRules ≤ s.rules.length || bm25MaxDocuments < s.documents.length + values.length)
    ("BM25 supports at most " ++ toString bm25MaxRules ++ " rules and "
      ++ toString bm25MaxDocuments ++ " keyword documents")
  let documentStart := s.documents.length
  let threshold ← thresholdFixed u (signal.getD "bm25_threshold" (.float ⟨"0.1", some 0, true⟩))
  let known ← w.addRule s.known name documentStart (values.map fun value => value.text u)
  let priority ← signalPriority u d.priorities name signal
  return ⟨s.rules ++ [⟨threshold, priority, route, operator, documentStart, values.length,
      ((1 <<< values.length) - 1) <<< documentStart⟩],
    s.documents ++ values.map fun _ => ⟨s.rules.length, threshold⟩, known⟩

/-- One signal of `parse`; signals of other methods are skipped. -/
def parseBm25Step (d : Decisions) (s : Bm25Parse τ) (raw : PyVal) :
    Except PyError (Bm25Parse τ) :=
  match raw.asDict with
  | none => .ok s
  | some signal =>
      if signalMethod u signal "" ≠ "bm25" then .ok s else parseBm25Signal u w d s signal

/-- `parse` -/
def parseBm25 (policy : Dict) : Except PyError Bm25Header := do
  let signals ← keywordSignals policy
  let d ← decisionKeywordRoutes u policy
  let s ← signals.foldlM (parseBm25Step u w d) ⟨[], [], w.initial⟩
  let terms ← w.terms s.known
  return ⟨s.rules, s.documents, terms⟩

end Generator

/-! ## What a generated header satisfies -/

section Generated
variable {u : Unicode} {τ : Type} {w : Weigher τ}

/-- `rule` is what the generator makes of `signal`. -/
structure Bm25RuleOf (u : Unicode) (d : Decisions) (signal : Dict) (rule : Bm25RuleRow) :
    Prop where
  route : ∃ name, signalRouteName u signal d.routes = .ok name ∧
    routeConstant name = some rule.route
  operator : operatorConstant (signalOperator u signal) = some rule.operator
  priority : signalPriority u d.priorities (signalName u signal "") signal = .ok rule.priority
  some_document : 1 ≤ rule.documentCount
  mask : rule.documentMask = ((1 <<< rule.documentCount) - 1) <<< rule.documentStart

/-- The documents of the rules lie one behind the other below `total`. -/
structure Layout (rules : List Bm25RuleRow) (total : Nat) : Prop where
  within : ∀ rule ∈ rules, rule.documentStart + rule.documentCount ≤ total
  apart : rules.Pairwise fun a b => a.documentStart + a.documentCount ≤ b.documentStart

theorem Layout.add {rules : List Bm25RuleRow} {total : Nat} (h : Layout rules total)
    {rule : Bm25RuleRow} (hstart : rule.documentStart = total) :
    Layout (rules ++ [rule]) (total + rule.documentCount) where
  within := by
    intro r hr
    rcases List.mem_append.mp hr with hr | hr
    · have := h.within r hr
      omega
    · rw [List.mem_singleton.mp hr, hstart]
  apart := by
    refine List.pairwise_append.mpr ⟨h.apart, List.pairwise_singleton _ _, fun a ha b hb => ?_⟩
    rw [List.mem_singleton.mp hb, hstart]
    exact h.within a ha

/-- What one BM25 signal leaves behind. -/
theorem parseBm25Signal_ok {d : Decisions} {s s' : Bm25Parse τ} {signal : Dict}
    (h : parseBm25Signal u w d s signal = .ok s') :
    ∃ rule, s'.rules = s.rules ++ [rule] ∧ Bm25RuleOf u d signal rule ∧
      rule.documentStart = s.documents.length ∧
      s'.documents.length = s.documents.length + rule.documentCount ∧
      s.rules.length < bm25MaxRules ∧ s'.documents.length ≤ bm25MaxDocuments := by
  unfold parseBm25Signal raiseIf at h
  obtain ⟨name, hname, h⟩ := bind_ok h
  obtain ⟨route, hroute, h⟩ := bind_ok h
  obtain ⟨operator, hoperator, h⟩ := bind_ok h
  obtain ⟨values, hvalues, h⟩ := bind_ok h
  obtain ⟨_, hroom, h⟩ := bind_ok h
  obtain ⟨threshold, -, h⟩ := bind_ok h
  obtain ⟨known, -, h⟩ := bind_ok h
  obtain ⟨priority, hpriority, h⟩ := bind_ok h
  cases h
  have hlen : 1 ≤ values.length :=
    List.length_pos_iff.mpr (signalKeywords_ne_nil (required_ok hvalues))
  have hroom := refuseIf_ok hroom
  simp only [Bool.or_eq_false_iff, decide_eq_false_iff_not, not_le, not_lt] at hroom
  exact ⟨_, rfl, ⟨⟨name, hname, required_ok hroute⟩, required_ok hoperator, hpriority, hlen, rfl⟩,
    rfl, by simp, hroom.1, by simpa using hroom.2⟩

/-- What an accepted policy of BM25 signals satisfies, signal by signal. -/
structure ParsedBm25Rules (u : Unicode) (policy : Dict) (rules : List Bm25RuleRow)
    (signals : List Dict) (d : Decisions) : Prop where
  read : keywordSignals policy = .ok (signals.map PyVal.dict)
  decided : decisionKeywordRoutes u policy = .ok d
  ruleOf : List.Forall₂ (Bm25RuleOf u d) signals rules
  length_le : rules.length ≤ bm25MaxRules
  layout : Layout rules bm25MaxDocuments

/-- Every keyword signal of the policy is a BM25 signal. -/
def OnlyBm25 (u : Unicode) (policy : Dict) : Prop :=
  ∀ raws, keywordSignals policy = .ok raws →
    ∀ raw ∈ raws, ∃ signal, raw = .dict signal ∧ signalMethod u signal "" = "bm25"

theorem parseBm25_rules {policy : Dict} {header : Bm25Header} (honly : OnlyBm25 u policy)
    (h : parseBm25 u w policy = .ok header) :
    ∃ signals d, ParsedBm25Rules u policy header.rules signals d := by
  unfold parseBm25 at h
  obtain ⟨raws, hraws, h⟩ := bind_ok h
  obtain ⟨d, hd, h⟩ := bind_ok h
  obtain ⟨s, hs, h⟩ := bind_ok h
  obtain ⟨terms, -, h⟩ := bind_ok h
  cases h
  have hstep : ∀ t, ∀ raw ∈ raws, ∀ t', parseBm25Step u w d t raw = .ok t' →
      ∃ signal, raw = .dict signal ∧ parseBm25Signal u w d t signal = .ok t' := by
    intro t raw hraw t' ht
    obtain ⟨signal, rfl, hmethod⟩ := honly raws hraws raw hraw
    simp only [parseBm25Step, PyVal.asDict, hmethod, ne_eq, not_true, if_false] at ht
    exact ⟨signal, rfl, ht⟩
  obtain ⟨rules, hrules, hall⟩ := foldlM_forall₂ (f := Bm25Parse.rules)
    (R := fun raw rule => ∃ signal, raw = .dict signal ∧ Bm25RuleOf u d signal rule) hs
    fun t raw hraw t' ht => by
      obtain ⟨signal, heq, hsignal⟩ := hstep t raw hraw t' ht
      obtain ⟨rule, hout, hrule, -⟩ := parseBm25Signal_ok hsignal
      exact ⟨rule, hout, signal, heq, hrule⟩
  obtain ⟨signals, rfl, hsignals⟩ := forall₂_dicts hall
  have hinv := foldlM_invariant
    (P := fun t : Bm25Parse τ => t.rules.length ≤ bm25MaxRules ∧
      t.documents.length ≤ bm25MaxDocuments ∧ Layout t.rules t.documents.length) hs
    ⟨Nat.zero_le _, Nat.zero_le _, ⟨by simp, .nil⟩⟩ fun t ht raw hraw t' hraw' => by
      obtain ⟨signal, -, hsignal⟩ := hstep t raw hraw t' hraw'
      obtain ⟨rule, hout, -, hstart, hlen, hroom, hle⟩ := parseBm25Signal_ok hsignal
      refine ⟨by rw [hout, List.length_append]; exact hroom, hle, ?_⟩
      rw [hout, hlen]
      exact ht.2.2.add hstart
  have heq : s.rules = rules := by simpa using hrules
  refine ⟨signals, d, hraws, hd, heq ▸ hsignals, hinv.1, ⟨fun rule hrule => ?_, hinv.2.2.apart⟩⟩
  exact Nat.le_trans (hinv.2.2.within rule hrule) hinv.2.1

end Generated

end Xsr.Policy
