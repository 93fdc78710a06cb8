import Xsr.Bm25.Scores

/-!
# Latching — document bits and rule tests at the end of a query

Document bits are set while the scores grow and never cleared. At the end
they are the comparison of the final scores with the thresholds, so the
order of the tokens does not matter, and the test of a rule asks whether
any, all or none of its own documents compare.
-/

namespace Xsr.Bm25

open Kernel Lib Policy Control

/-! ## Bits under a mask -/

section Masks
variable {bits start count : Nat}

theorem testBit_masked (d : Nat) : (bits &&& documentMask start count).testBit d = true ↔
    bits.testBit d = true ∧ start ≤ d ∧ d < start + count := by
  rw [Nat.testBit_and, testBit_documentMask, Bool.and_eq_true, decide_eq_true_eq]

theorem masked_ne_zero_iff : bits &&& documentMask start count ≠ 0 ↔
    ∃ d, start ≤ d ∧ d < start + count ∧ bits.testBit d = true := by
  constructor
  · intro h
    obtain ⟨d, hd⟩ := Nat.exists_testBit_of_ne_zero h
    obtain ⟨hbit, hrange⟩ := (testBit_masked d).mp hd
    exact ⟨d, hrange.1, hrange.2, hbit⟩
  · rintro ⟨d, hstart, hend, hbit⟩ hzero
    have hd : (bits &&& documentMask start count).testBit d = true :=
      (testBit_masked d).mpr ⟨hbit, hstart, hend⟩
    rw [hzero, Nat.zero_testBit] at hd
    cases hd

theorem masked_eq_mask_iff : bits &&& documentMask start count = documentMask start count ↔
    ∀ d, start ≤ d → d < start + count → bits.testBit d = true := by
  constructor
  · intro h d hstart hend
    have hmask : (documentMask start count).testBit d = true := by
      rw [testBit_documentMask, decide_eq_true_eq]
      exact ⟨hstart, hend⟩
    rw [← h] at hmask
    exact ((testBit_masked d).mp hmask).1
  · intro h
    refine Nat.eq_of_testBit_eq fun d => ?_
    rw [Bool.eq_iff_iff, testBit_masked, testBit_documentMask, decide_eq_true_eq]
    exact ⟨fun hd => hd.2, fun hd => ⟨h d hd.1 hd.2, hd⟩⟩

end Masks

/-! ## Rules over documents -/

/-- The documents of rule `r`. -/
def ruleDocuments (header : Bm25Header) (r : Nat) : List Nat :=
  (List.range header.documents.length).filter fun d =>
    header.documents[d]?.any fun document => document.ruleId == r

/-- The comparison at the end of a query: the score of document `d` is
positive and at least its threshold. -/
def finallyMatches (header : Bm25Header) (s : Bm25State) (d : Nat) : Bool :=
  header.documents[d]?.any fun document =>
    decide (0 < s.scores d ∧ document.thresholdFixed ≤ s.scores d)

/-- Any, all or none of the documents. -/
def operatorHolds (operator : Operator) (documents : List Nat) (isMatch : Nat → Bool) : Bool :=
  match operator with
  | .or => documents.any isMatch
  | .and => documents.all isMatch
  | .nor => !documents.any isMatch

theorem mem_ruleDocuments {header : Bm25Header} (h : Laid header.rules header.documents) {r : Nat}
    {row : Bm25RuleRow} (hrow : header.rules[r]? = some row) (d : Nat) :
    d ∈ ruleDocuments header r ↔
      row.documentStart ≤ d ∧ d < row.documentStart + row.documentCount := by
  rw [ruleDocuments, List.mem_filter, List.mem_range]
  constructor
  · rintro ⟨hd, hrule⟩
    rw [List.getElem?_eq_getElem hd, Option.any_some, beq_iff_eq] at hrule
    obtain ⟨row', hrow', -, hrange⟩ := h.belongs d _ (List.getElem?_eq_getElem hd)
    rw [hrule] at hrow'
    obtain rfl := Option.some.inj (hrow.symm.trans hrow')
    exact hrange
  · rintro ⟨hstart, hend⟩
    obtain ⟨document, hdocument, hid⟩ := h.covers r row hrow d hstart hend
    refine ⟨(List.getElem?_eq_some_iff.mp hdocument).1, ?_⟩
    rw [hdocument, Option.any_some, hid, BEq.rfl]

namespace LoadedBm25
variable {u : Unicode} {weight : TermStats → Int} {lines : List (List Char)}
  (L : LoadedBm25 u weight lines)

/-- A loaded rule. -/
theorem rule_at {r : Nat} {row : Bm25RuleRow} (hrow : L.header.rules[r]? = some row) :
    L.maps.rules r = some (bm25Rule row) ∧
      (bm25Rule row).documentStart = row.documentStart ∧
      (bm25Rule row).documentCount = row.documentCount ∧
      (bm25Rule row).documentMask = documentMask row.documentStart row.documentCount ∧
      1 ≤ row.documentCount ∧ row.documentStart + row.documentCount ≤ 16 := by
  have hmem := List.mem_of_getElem? hrow
  obtain ⟨hpos, hmask⟩ := L.laid.mask row hmem
  have hwithin : row.documentStart + row.documentCount ≤ 16 :=
    (L.laid.layout.within row hmem).trans L.laid.documents_le
  refine ⟨L.maps_ok.2.1 r row hrow, ?_, ?_, ?_, hpos, hwithin⟩
  · simp only [bm25Rule, cU8]
    omega
  · simp only [bm25Rule, cU8]
    omega
  · simp only [bm25Rule, cU16, hmask]
    exact Nat.mod_eq_of_lt (documentMask_lt hwithin)

/-- The threshold of a document, as the scorer compares with it. -/
theorem threshold_at {d : Nat} {document : DocumentRow}
    (hdocument : L.header.documents[d]? = some document) :
    (bm25Config L.header).thresholdsFixed d = document.thresholdFixed := by
  obtain ⟨row, hrow, hthreshold, -⟩ := L.laid.belongs d document hdocument
  obtain ⟨hlow, hhigh⟩ := L.laid.threshold row (List.mem_of_getElem? hrow)
  have hmax : (maxFixedScore : Int) = 9223372036854775807 := rfl
  simp only [bm25Config, hdocument]
  exact s64_of_bounds (by omega) (by omega)

/-- The test of a rule, given what the document bits say. -/
theorem ruleTest_eq {s : Bm25State} {isMatch : Nat → Bool}
    (hbits : ∀ d < L.header.documents.length, s.matchedDocuments.testBit d = isMatch d) {r : Nat}
    {row : Bm25RuleRow} (hrow : L.header.rules[r]? = some row) :
    bm25RuleTest s (bm25Rule row)
      = operatorHolds row.operator (ruleDocuments L.header r) isMatch := by
  obtain ⟨-, -, -, hmask, -, -⟩ := L.rule_at hrow
  have hdocuments := mem_ruleDocuments L.laid hrow
  have hlt : ∀ d, row.documentStart ≤ d → d < row.documentStart + row.documentCount →
      d < L.header.documents.length := fun d _ hend =>
    hend.trans_le (L.laid.layout.within row (List.mem_of_getElem? hrow))
  have hany : s.matchedDocuments &&& documentMask row.documentStart row.documentCount ≠ 0 ↔
      (ruleDocuments L.header r).any isMatch = true := by
    rw [masked_ne_zero_iff, List.any_eq_true]
    constructor
    · rintro ⟨d, hstart, hend, hbit⟩
      exact ⟨d, (hdocuments d).mpr ⟨hstart, hend⟩, hbits d (hlt d hstart hend) ▸ hbit⟩
    · rintro ⟨d, hd, hmatch⟩
      obtain ⟨hstart, hend⟩ := (hdocuments d).mp hd
      exact ⟨d, hstart, hend, (hbits d (hlt d hstart hend)).trans hmatch⟩
  have hall : s.matchedDocuments &&& documentMask row.documentStart row.documentCount
      = documentMask row.documentStart row.documentCount ↔
      (ruleDocuments L.header r).all isMatch = true := by
    rw [masked_eq_mask_iff, List.all_eq_true]
    constructor
    · intro h d hd
      obtain ⟨hstart, hend⟩ := (hdocuments d).mp hd
      exact hbits d (hlt d hstart hend) ▸ h d hstart hend
    · intro h d hstart hend
      exact (hbits d (hlt d hstart hend)).trans (h d ((hdocuments d).mpr ⟨hstart, hend⟩))
  have hoperator : (bm25Rule row).operator = row.operator := rfl
  rw [bm25RuleTest, hmask, hoperator]
  unfold operatorHolds
  cases row.operator with
  | or =>
      rw [Bool.eq_iff_iff, ← hany]
      exact bne_iff_ne
  | and =>
      rw [Bool.eq_iff_iff, ← hall]
      exact beq_iff_eq
  | nor =>
      rw [Bool.eq_iff_iff, Bool.not_eq_true', ← Bool.not_eq_true, ← hany, not_not]
      exact beq_iff_eq

/-- One turn of the rule loop of `xdp_bm25_route_priority`. -/
theorem ruleStep_eq {s : Bm25State} {isMatch : Nat → Bool}
    (hbits : ∀ d < L.header.documents.length, s.matchedDocuments.testBit d = isMatch d) {r : Nat}
    {row : Bm25RuleRow} (hrow : L.header.rules[r]? = some row) (best : Nat × Route) :
    bm25RuleStep L.maps s (bm25Config L.header).ruleCount r best =
      (if operatorHolds row.operator (ruleDocuments L.header r) isMatch = true ∧
          best.1 ≤ cU32 row.priority
        then (cU32 row.priority, row.route) else best, false) := by
  obtain ⟨hloaded, hstart, hcount, -, hpos, hwithin⟩ := L.rule_at hrow
  have hr : ¬(bm25Config L.header).ruleCount ≤ r :=
    not_le.mpr (List.getElem?_eq_some_iff.mp hrow).1
  have hdocuments : ¬(bm25MaxDocuments ≤ (bm25Rule row).documentStart ∨
      bm25MaxDocuments - (bm25Rule row).documentStart < (bm25Rule row).documentCount) := by
    rw [hstart, hcount]
    unfold bm25MaxDocuments
    omega
  have htest := L.ruleTest_eq hbits hrow
  rw [bm25RuleStep, if_neg hr, hloaded]
  simp only [if_neg hdocuments, htest]
  by_cases h : operatorHolds row.operator (ruleDocuments L.header r) isMatch = true ∧
      best.1 ≤ cU32 row.priority
  · rw [if_pos h]
    exact if_pos h
  · rw [if_neg h]
    exact if_neg h

end LoadedBm25

/-- What holds of the document bits and the rule tests of a query that did
not overflow. -/
structure FinalMatches {u : Unicode} {weight : TermStats → Int} {lines : List (List Char)}
    (L : LoadedBm25 u weight lines) (s : Bm25State) : Prop where
  bits : ∀ d < L.header.documents.length,
    s.matchedDocuments.testBit d = finallyMatches L.header s d
  tests : ∀ r row, L.header.rules[r]? = some row → bm25RuleTest s (bm25Rule row)
    = operatorHolds row.operator (ruleDocuments L.header r) (finallyMatches L.header s)
  steps : ∀ r row, L.header.rules[r]? = some row → ∀ best,
    bm25RuleStep L.maps s (bm25Config L.header).ruleCount r best =
      (if operatorHolds row.operator (ruleDocuments L.header r) (finallyMatches L.header s) = true ∧
          best.1 ≤ cU32 row.priority
        then (cU32 row.priority, row.route) else best, false)

/-- **Latched bits are the final comparison.** After any sequence of closed
tokens without overflow, a document bit is set iff the final score is
positive and reaches the threshold, and the test of each rule is the any,
all or none test over its documents; another order of the same tokens
does not overflow either and ends with the same scores and bits. -/
theorem latched_matches_final {u : Unicode} {weight : TermStats → Int} {lines : List (List Char)}
    (L : LoadedBm25 u weight lines) :
    (∀ tokens s, Closing L.maps tokens s → s.overflow = false → FinalMatches L s) ∧
    ∀ tokens tokens' s s', tokens.Perm tokens' → Closing L.maps tokens s →
      Closing L.maps tokens' s' → s.overflow = false →
      s'.overflow = false ∧ ∀ d < L.header.documents.length, s'.scores d = s.scores d ∧
        s'.matchedDocuments.testBit d = s.matchedDocuments.testBit d := by
  obtain ⟨hconfig, -, T, -, hterms⟩ := L.maps_ok
  have hfinal : ∀ {tokens s}, Scored T (bm25Config L.header) tokens s →
      ∀ d < L.header.documents.length, s.scores d = finalScore T.toTermTable tokens d ∧
        s.matchedDocuments.testBit d = finallyMatches L.header s d := by
    intro tokens s hscored d hd
    have hd16 : d < bm25MaxDocuments := hd.trans_le L.laid.documents_le
    have hdocument := List.getElem?_eq_getElem hd
    refine ⟨hscored.scores d hd16, ?_⟩
    rw [finallyMatches, hdocument, Option.any_some, Bool.eq_iff_iff, hscored.matched d hd16,
      L.threshold_at hdocument, hscored.scores d hd16, decide_eq_true_eq]
  constructor
  · intro tokens s hclosing hover
    have hscored := hclosing.scored hconfig hterms (hclosing.room hconfig hterms hover)
    have hbits := fun d hd => (hfinal hscored d hd).2
    exact ⟨hbits, fun r row hrow => L.ruleTest_eq hbits hrow,
      fun r row hrow best => L.ruleStep_eq hbits hrow best⟩
  · intro tokens tokens' s s' hperm hclosing hclosing' hover
    have hroom := hclosing.room hconfig hterms hover
    have hscored := hclosing.scored hconfig hterms hroom
    have hscored' := hclosing'.scored hconfig hterms (by rwa [← hperm.countP_eq])
    refine ⟨hscored'.overflow, fun d hd => ?_⟩
    have hsum : finalScore T.toTermTable tokens' d = finalScore T.toTermTable tokens d :=
      ((hperm.map _).sum_eq).symm
    have hscores : s'.scores d = s.scores d := by
      rw [(hfinal hscored' d hd).1, (hfinal hscored d hd).1, hsum]
    refine ⟨hscores, ?_⟩
    rw [(hfinal hscored' d hd).2, (hfinal hscored d hd).2, finallyMatches, finallyMatches, hscores]

end Xsr.Bm25
