import Xsr.Control.PolicyLoader
import Xsr.Policy.RuleTable

/-!
# Bm25Table — the rule table of a loaded BM25 policy

`Bm25Policy` is a policy of BM25 signals that `validate_policy` and `parse`
accept, with the maps `populate_bm25_policy` fills. The masks of its rules
do not overlap, so the document bits realise every assignment of match
results.
-/

namespace Xsr.Policy

open Kernel Lib Control

/-! ## Document masks -/

/-- `count` document bits from `start` on. -/
def documentMask (start count : Nat) : Nat := ((1 <<< count) - 1) <<< start

theorem testBit_documentMask (start count k : Nat) :
    (documentMask start count).testBit k = decide (start ≤ k ∧ k < start + count) := by
  rw [documentMask, Nat.testBit_shiftLeft, Nat.one_shiftLeft, Nat.testBit_two_pow_sub_one]
  by_cases h : start ≤ k
  · simp only [h, decide_true, Bool.true_and, true_and, decide_eq_decide]
    omega
  · simp [h]

theorem documentMask_pos {start count : Nat} (h : 1 ≤ count) : documentMask start count ≠ 0 := by
  intro h0
  have hbit := testBit_documentMask start count start
  rw [h0, Nat.zero_testBit] at hbit
  have := decide_eq_false_iff_not.mp hbit.symm
  omega

theorem documentMask_lt {start count : Nat} (h : start + count ≤ 16) :
    documentMask start count < 65536 := by
  refine Nat.lt_pow_two_of_testBit (n := 16) _ fun k hk => ?_
  rw [testBit_documentMask, decide_eq_false_iff_not]
  omega

/-- Masks of ranges one behind the other share no bit. -/
theorem documentMask_disjoint {s c t d : Nat} (h : s + c ≤ t) :
    documentMask s c &&& documentMask t d = 0 := by
  refine Nat.eq_of_testBit_eq fun k => ?_
  rw [Nat.testBit_and, testBit_documentMask, testBit_documentMask, Nat.zero_testBit,
    Bool.and_eq_false_iff, decide_eq_false_iff_not, decide_eq_false_iff_not]
  omega

/-- The bits of the chosen rules, the first of them having number `i`. -/
def chosenBits (chosen : Nat → Bool) : Nat → List Bm25RuleRow → Nat
  | _, [] => 0
  | i, row :: rows =>
      (if chosen i then documentMask row.documentStart row.documentCount else 0)
        ||| chosenBits chosen (i + 1) rows

/-- A mask that ends before all rules meets none of their bits. -/
theorem chosenBits_after {chosen : Nat → Bool} {i s c : Nat} {rows : List Bm25RuleRow}
    (h : ∀ row ∈ rows, s + c ≤ row.documentStart) :
    chosenBits chosen i rows &&& documentMask s c = 0 := by
  induction rows generalizing i with
  | nil => simp [chosenBits]
  | cons row rows ih =>
      have hrow : documentMask row.documentStart row.documentCount &&& documentMask s c = 0 := by
        rw [Nat.and_comm]
        exact documentMask_disjoint (h row (by simp))
      rw [chosenBits, Nat.and_or_distrib_right, ih fun r hr => h r (List.mem_cons_of_mem _ hr)]
      split
      · rw [hrow, Nat.zero_or]
      · simp

/-- Each rule finds its whole mask set or none of it. -/
theorem chosenBits_at {chosen : Nat → Bool} {i j : Nat} {rows : List Bm25RuleRow}
    {row : Bm25RuleRow}
    (h : rows.Pairwise fun a b => a.documentStart + a.documentCount ≤ b.documentStart)
    (hj : rows[j]? = some row) :
    chosenBits chosen i rows &&& documentMask row.documentStart row.documentCount =
      if chosen (i + j) then documentMask row.documentStart row.documentCount else 0 := by
  induction rows generalizing i j with
  | nil => simp at hj
  | cons r rows ih =>
      obtain ⟨hr, hrows⟩ := List.pairwise_cons.mp h
      rw [chosenBits, Nat.and_or_distrib_right]
      cases j with
      | zero =>
          obtain rfl : r = row := by simpa using hj
          rw [chosenBits_after hr, Nat.or_zero, Nat.add_zero]
          split
          · rw [Nat.and_self]
          · simp
      | succ j =>
          have hj' : rows[j]? = some row := by simpa using hj
          have hdisjoint := documentMask_disjoint (d := row.documentCount)
            (hr row (List.mem_of_getElem? hj'))
          rw [ih hrows hj', show i + (j + 1) = i + 1 + j by omega]
          split <;> simp [hdisjoint]

/-! ## The table -/

/-- A policy of BM25 signals that both tools accept, loaded. The entries
`routes` are those of `validate_policy` in the order of the policy. -/
structure Bm25Policy (u : Unicode) {τ : Type} (w : Weigher τ) where
  policy : Dict
  caseSensitive : Bool
  routes : List ValidRoute
  header : Bm25Header
  maps : Bm25Maps
  validated : validatedSignals u policy = .ok (caseSensitive, routes)
  single : OnlyBm25 u policy
  parsed : parseBm25 u w policy = .ok header
  loaded : populateBm25Policy header = some maps

/-- Whether the bits of a rule have to be set for the result `matched`. -/
def bm25Chosen (rules : List Bm25RuleRow) (candidate : Nat → Bool) (i : Nat) : Bool :=
  match rules[i]?.map Bm25RuleRow.operator with
  | some .nor => !candidate i
  | _ => candidate i

/-- The document bits of an assignment. -/
def bm25Results (rules : List Bm25RuleRow) (candidate : Nat → Bool) : Bm25State :=
  { Bm25State.zero with matchedDocuments := chosenBits (bm25Chosen rules candidate) 0 rules }

/-- The result of a rule; an overflowed scorer matches none. -/
def bm25RuleMatches (s : Bm25State) (rule : Bm25Rule) : Bool := !s.overflow && bm25RuleTest s rule

namespace Bm25Policy
variable {u : Unicode} {τ : Type} {w : Weigher τ} (P : Bm25Policy u w)

/-- The list `validate_policy` returns. -/
def walk : List ValidRoute := sortDescending ValidRoute.priority P.routes

theorem validatePolicy_walk : validatePolicy u P.policy = .ok (P.caseSensitive, P.walk) := by
  rw [validatePolicy, P.validated]
  rfl

/-- The kernel's result of each rule in state `s` is the oracle's. -/
def SameResults (s : Bm25State) (isMatch : ValidRoute → Bool) : Prop :=
  ∀ i entry rule, P.routes[i]? = some entry → P.maps.rules i = some rule →
    bm25RuleMatches s rule = isMatch entry

/-- `xdp_bm25_route_priority` selects what `expected_route` selects, and the
general route exactly when no rule matches, for every assignment of match
results. -/
def Agrees : Prop :=
  ∀ s isMatch ngramMatches, P.SameResults s isMatch →
    expectedRoute u ngramMatches isMatch P.walk =
        .ok (routeName (bm25RoutePriority P.maps s).2) ∧
      ((bm25RoutePriority P.maps s).2 = .general ↔ ∀ entry ∈ P.routes, isMatch entry = false)

/-- The signals behind the entries and the rules, one for each. -/
theorem signals_of : ∃ signals d, ValidatedSignals u P.policy P.caseSensitive P.routes signals d ∧
    ParsedBm25Rules u P.policy P.header.rules signals d := by
  obtain ⟨signals, d, hvalid⟩ := validatedSignals_ok P.validated
  obtain ⟨signals', d', hrules⟩ := parseBm25_rules P.single P.parsed
  have hmap := Except.ok.inj (hvalid.read.symm.trans hrules.read)
  obtain rfl : signals = signals' :=
    List.map_injective_iff.mpr (fun a b h => PyVal.dict.inj h) hmap
  obtain rfl := Except.ok.inj (hvalid.decided.symm.trans hrules.decided)
  exact ⟨signals, d, hvalid, hrules⟩

/-- What is known of a row of the table. -/
structure AtPlace (i : Nat) (row : Bm25RuleRow) : Prop where
  loaded : P.maps.rules i = some (bm25Rule row)
  start : (bm25Rule row).documentStart = row.documentStart
  count : (bm25Rule row).documentCount = row.documentCount
  mask : (bm25Rule row).documentMask = documentMask row.documentStart row.documentCount
  some_document : 1 ≤ row.documentCount
  within : row.documentStart + row.documentCount ≤ 16
  route : row.route ≠ .general

theorem at_place {i : Nat} {row : Bm25RuleRow} (hrow : P.header.rules[i]? = some row) :
    P.AtPlace i row := by
  obtain ⟨signals, d, -, hrules⟩ := P.signals_of
  obtain ⟨signal, -, hrule⟩ := forall₂_getElem? hrules.ruleOf hrow
  obtain ⟨name, -, hroute⟩ := hrule.route
  have hwithin : row.documentStart + row.documentCount ≤ 16 :=
    hrules.layout.within row (List.mem_of_getElem? hrow)
  have hmask := documentMask_lt hwithin
  have hpos := hrule.some_document
  refine ⟨(populateBm25_rules P.loaded).2 i row hrow, ?_, ?_, ?_, hpos, hwithin,
    (routeConstant_name hroute).2⟩
  · simp only [bm25Rule, cU8]
    omega
  · simp only [bm25Rule, cU8]
    omega
  · simp only [bm25Rule, cU16, hrule.mask]
    exact Nat.mod_eq_of_lt hmask

/-- One turn of the rule loop on a row of the table. -/
theorem bm25RuleStep_row {i : Nat} {row : Bm25RuleRow} (hrow : P.header.rules[i]? = some row)
    (s : Bm25State) (best : Nat × Route) :
    bm25RuleStep P.maps s P.header.rules.length i best =
      (if bm25RuleTest s (bm25Rule row) = true ∧ best.1 ≤ cU32 row.priority then
        (cU32 row.priority, row.route) else best, false) := by
  have hlt : i < P.header.rules.length := (List.getElem?_eq_some_iff.mp hrow).1
  have hat := P.at_place hrow
  have hdocuments : ¬(bm25MaxDocuments ≤ (bm25Rule row).documentStart ∨
      bm25MaxDocuments - (bm25Rule row).documentStart < (bm25Rule row).documentCount) := by
    have := hat.within
    have := hat.some_document
    rw [hat.start, hat.count, bm25MaxDocuments]
    omega
  rw [bm25RuleStep, if_neg (by omega), hat.loaded]
  simp only [if_neg hdocuments]
  by_cases h : bm25RuleTest s (bm25Rule row) = true ∧ best.1 ≤ cU32 row.priority
  · rw [if_pos h]
    exact if_pos h
  · rw [if_neg h]
    exact if_neg h

theorem bm25RuleTest_results {candidate : Nat → Bool} {i : Nat} {row : Bm25RuleRow}
    (hrow : P.header.rules[i]? = some row) :
    bm25RuleTest (bm25Results P.header.rules candidate) (bm25Rule row) = candidate i := by
  obtain ⟨signals, d, -, hrules⟩ := P.signals_of
  have hat := P.at_place hrow
  have hpos : documentMask row.documentStart row.documentCount ≠ 0 :=
    documentMask_pos hat.some_document
  have hbits : chosenBits (bm25Chosen P.header.rules candidate) 0 P.header.rules &&&
      documentMask row.documentStart row.documentCount =
        if bm25Chosen P.header.rules candidate (0 + i) then
          documentMask row.documentStart row.documentCount else 0 :=
    chosenBits_at hrules.layout.apart hrow
  rw [Nat.zero_add] at hbits
  have hchosen : bm25Chosen P.header.rules candidate i =
      if row.operator = .nor then !candidate i else candidate i := by
    rw [bm25Chosen, hrow, Option.map_some]
    cases row.operator <;> rfl
  have hop : (bm25Rule row).operator = row.operator := rfl
  simp only [bm25RuleTest, bm25Results, hat.mask, hbits, hchosen, hop]
  cases row.operator with
  | or => cases candidate i <;> simp [hpos]
  | and => cases candidate i <;> simp [Ne.symm hpos]
  | nor => cases candidate i <;> simp [hpos]

/-- The rule table of the policy. -/
def table : RuleTable Bm25State where
  size := P.header.rules.length
  priority i := (P.header.rules[i]?.map fun row => cU32 row.priority).getD 0
  route i := (P.header.rules[i]?.map Bm25RuleRow.route).getD .general
  isMatch s i := (P.header.rules[i]?.map fun row => bm25RuleMatches s (bm25Rule row)).getD false
  select s := bm25RoutePriority P.maps s
  selects := by
    intro s
    obtain ⟨signals, d, -, hrules⟩ := P.signals_of
    have hlen : P.header.rules.length ≤ 8 := hrules.length_le
    rw [bm25RoutePriority, (populateBm25_rules P.loaded).1]
    by_cases hover : s.overflow = true
    · -- an overflowed scorer matches no rule and selects none
      refine .inl ⟨if_pos hover, fun i hi => ?_⟩
      change (P.header.rules[i]?.map fun row => bm25RuleMatches s (bm25Rule row)).getD false = false
      rw [List.getElem?_eq_getElem hi]
      simp [bm25RuleMatches, hover]
    · simp only [hover]
      refine boundedLoop_holds hlen (fun i hi best => ?_) (fun i best hi _ => ?_) _ _ _
        (Nat.zero_le _) rfl (.inl ⟨rfl, by simp⟩)
      · have hrow := List.getElem?_eq_getElem hi
        simp only [bm25Config, P.bm25RuleStep_row hrow, hrow, Option.map_some, Option.getD_some,
          bm25RuleMatches, hover, Bool.not_false, Bool.true_and]
      · rw [bm25RuleStep, if_pos (by exact hi)]
  realizes := by
    intro candidate
    refine ⟨bm25Results P.header.rules candidate, fun i hi => ?_⟩
    have hrow := List.getElem?_eq_getElem hi
    rw [hrow]
    exact P.bm25RuleTest_results hrow
  route_ne_general := by
    intro i hi
    have hrow := List.getElem?_eq_getElem hi
    rw [hrow]
    exact (P.at_place hrow).route

/-- The table comes from the entries. -/
theorem table_of : P.table.Of P.routes := by
  obtain ⟨signals, d, hvalid, hrules⟩ := P.signals_of
  refine ⟨?_, fun i entry hentry => ?_, hvalid.nodup⟩
  · exact hrules.ruleOf.length_eq.symm.trans hvalid.validated.length_eq
  · obtain ⟨signal, hsignal, hentryOf⟩ := forall₂_getElem? hvalid.validated hentry
    obtain ⟨row, hrow, hruleOf⟩ := forall₂_getElem?_left hrules.ruleOf hsignal
    obtain ⟨name, hname, hroute⟩ := hruleOf.route
    obtain rfl := Except.ok.inj (hname.symm.trans hentryOf.name)
    change entry.name = routeName ((P.header.rules[i]?.map Bm25RuleRow.route).getD .general)
    rw [hrow]
    exact (routeConstant_name hroute).1.symm

/-- The oracle's answer, for entries that are all BM25 entries. -/
theorem expectedRoute_eq (ngramMatches isMatch : ValidRoute → Bool) :
    expectedRoute u ngramMatches isMatch P.walk = .ok (walkRoute isMatch P.routes) := by
  obtain ⟨signals, d, hvalid, hrules⟩ := P.signals_of
  refine expectedRoute_walk fun entry hentry => .inr ⟨?_, rfl⟩
  obtain ⟨i, hi⟩ := List.mem_iff_getElem?.mp ((mem_sortDescending _).mp hentry)
  obtain ⟨signal, hsignal, hentryOf⟩ := forall₂_getElem? hvalid.validated hi
  obtain ⟨raw, hraw, hmethod⟩ := P.single _ hvalid.read (.dict signal)
    (List.mem_map_of_mem (List.mem_of_getElem? hsignal))
  obtain rfl := PyVal.dict.inj hraw
  rw [hentryOf.method, signalMethod_default u hmethod (by rw [pyLower_empty]; decide)]
  exact pyLower_method u (.inr rfl)

/-- The two orders agree on the policy iff they agree on its rule table. -/
theorem agrees_iff_table : P.Agrees ↔ P.table.Agrees P.routes := by
  have hsize : P.header.rules.length = P.routes.length := P.table_of.size
  have hsame : ∀ s isMatch, P.SameResults s isMatch ↔ P.table.SameResults P.routes s isMatch := by
    intro s isMatch
    have hrow : ∀ (i : Nat) (entry : ValidRoute), P.routes[i]? = some entry →
        ∃ row, P.header.rules[i]? = some row := by
      intro i entry hentry
      exact ⟨_, List.getElem?_eq_getElem
        (by rw [hsize]; exact (List.getElem?_eq_some_iff.mp hentry).1)⟩
    constructor
    · intro h i entry hentry
      obtain ⟨row, hi⟩ := hrow i entry hentry
      rw [← h i entry _ hentry (P.at_place hi).loaded]
      change (P.header.rules[i]?.map fun row => bm25RuleMatches s (bm25Rule row)).getD false = _
      rw [hi]
      rfl
    · intro h i entry rule hentry hrule
      obtain ⟨row, hi⟩ := hrow i entry hentry
      obtain rfl := Option.some.inj ((P.at_place hi).loaded.symm.trans hrule)
      rw [← h i entry hentry]
      change _ = (P.header.rules[i]?.map fun row => bm25RuleMatches s (bm25Rule row)).getD false
      rw [hi]
      rfl
  constructor
  · intro h s isMatch hs
    obtain ⟨hroute, hgeneral⟩ := h s isMatch (fun _ => false) ((hsame s isMatch).mpr hs)
    rw [P.expectedRoute_eq] at hroute
    exact ⟨(Except.ok.inj hroute).symm, hgeneral⟩
  · intro h s isMatch ngramMatches hs
    obtain ⟨hroute, hgeneral⟩ := h s isMatch ((hsame s isMatch).mp hs)
    rw [P.expectedRoute_eq]
    exact ⟨congrArg Except.ok hroute.symm, hgeneral⟩

end Bm25Policy

end Xsr.Policy
