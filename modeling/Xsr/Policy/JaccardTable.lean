import Xsr.Control.PolicyLoader
import Xsr.Lib.LittleEndian
import Xsr.Policy.RuleTable

/-!
# JaccardTable — the rule table of a loaded n-gram policy

`LoadedJaccard` is a policy that `parse` accepts, with the maps
`populate_jaccard_policy` fills. Its rules form a `RuleTable`: the packed
match counts realise every assignment of match results. A `JaccardPolicy`
is one that `validate_policy` accepts as well.
-/

namespace Xsr.Policy

open Kernel Lib Control

/-- An n-gram policy the generator accepts, loaded. -/
structure LoadedJaccard (u : Unicode) where
  policy : Dict
  header : JaccardHeader
  wordBitmap : Nat → Nat
  maps : JaccardMaps
  parsed : parseJaccard u policy false = .ok header
  loaded : populateJaccardPolicy header wordBitmap = some maps

/-- An n-gram policy that both tools accept, loaded. The entries `routes` are
those of `validate_policy` in the order of the policy. -/
structure JaccardPolicy (u : Unicode) extends LoadedJaccard u where
  caseSensitive : Bool
  routes : List ValidRoute
  validated : validatedSignals u policy = .ok (caseSensitive, routes)

/-- The match counts that give rule `i` the result `matched`. -/
def jaccardCount (rule : RuleRow) (matched : Bool) : Nat :=
  match rule.operator with
  | .or => if matched then 1 else 0
  | .and => if matched then rule.keywordCount else 0
  | .nor => if matched then 0 else 1

/-- The packed match counts of an assignment. -/
def jaccardResults (rules : List RuleRow) (candidate : Nat → Bool) : JaccardMatches :=
  ⟨0, leNat (rules.zipIdx.map fun r => UInt8.ofNat (jaccardCount r.1 (candidate r.2)))⟩

theorem jaccardRuleTest_results {rules : List RuleRow} {candidate : Nat → Bool} {i : Nat}
    {row : RuleRow} (hrow : rules[i]? = some row) (hpos : 1 ≤ row.keywordCount)
    (hle : row.keywordCount ≤ 16) :
    jaccardRuleTest (jaccardResults rules candidate) i (jaccardRule row) = candidate i := by
  have hlane : ((jaccardResults rules candidate).ruleMatchCounts >>> (i * 8)) &&& 255 =
      jaccardCount row (candidate i) := by
    rw [jaccardResults, leNat_lane, List.getElem?_map, List.getElem?_zipIdx, hrow]
    have hsmall : jaccardCount row (candidate i) < 256 := by
      unfold jaccardCount
      split <;> split <;> omega
    simpa using hsmall
  have hcount : (jaccardRule row).keywordCount = row.keywordCount := by
    simp only [jaccardRule, cU8]
    omega
  have hop : (jaccardRule row).operator = row.operator := rfl
  simp only [jaccardRuleTest, hlane, hcount, hop, jaccardCount]
  cases row.operator with
  | or => cases candidate i <;> simp
  | and =>
      cases candidate i with
      | true => simp
      | false =>
          simp
          omega
  | nor => cases candidate i <;> simp

namespace LoadedJaccard
variable {u : Unicode} (P : LoadedJaccard u)

/-- What is known of a row of the table. -/
theorem at_place {i : Nat} {row : RuleRow} (hrow : P.header.rules[i]? = some row) :
    P.maps.rules i = some (jaccardRule row) ∧ 1 ≤ row.keywordCount ∧ row.keywordCount ≤ 16 ∧
      row.route ≠ .general := by
  obtain ⟨signals, d, hrules⟩ := parseJaccard_rules P.parsed
  obtain ⟨signal, -, hrule⟩ := forall₂_getElem? hrules.ruleOf hrow
  obtain ⟨values, hvalues, hcount⟩ := hrule.keywordCount
  obtain ⟨name, -, hroute⟩ := hrule.route
  refine ⟨(populateJaccard_rules P.loaded).2 i row hrow, ?_,
    hrules.counts_le row (List.mem_of_getElem? hrow), (routeConstant_name hroute).2⟩
  rw [hcount]
  exact List.length_pos_iff.mpr (signalKeywords_ne_nil hvalues)

/-- One turn of the rule loop on a row of the table. -/
theorem jaccardRuleStep_row {i : Nat} {row : RuleRow} (hrow : P.header.rules[i]? = some row)
    (s : JaccardMatches) (best : Nat × Route) :
    jaccardRuleStep P.maps s P.header.rules.length i best =
      (if jaccardRuleTest s i (jaccardRule row) = true ∧ best.1 ≤ cU32 row.priority then
        (cU32 row.priority, row.route) else best, false) := by
  have hlt : i < P.header.rules.length := (List.getElem?_eq_some_iff.mp hrow).1
  rw [jaccardRuleStep, if_neg (by omega), (P.at_place hrow).1]
  by_cases h : jaccardRuleTest s i (jaccardRule row) = true ∧ best.1 ≤ cU32 row.priority
  · rw [if_pos h]
    exact if_pos h
  · rw [if_neg h]
    exact if_neg h

/-- The rule table of the policy. -/
def table : RuleTable JaccardMatches where
  size := P.header.rules.length
  priority i := (P.header.rules[i]?.map fun row => cU32 row.priority).getD 0
  route i := (P.header.rules[i]?.map RuleRow.route).getD .general
  isMatch s i := (P.header.rules[i]?.map fun row => jaccardRuleTest s i (jaccardRule row)).getD false
  select s := jaccardRoutePriority P.maps s
  selects := by
    intro s
    obtain ⟨signals, d, hrules⟩ := parseJaccard_rules P.parsed
    have hlen : P.header.rules.length ≤ 8 := hrules.length_le
    rw [jaccardRoutePriority, (populateJaccard_rules P.loaded).1]
    refine boundedLoop_holds hlen (fun i hi best => ?_) (fun i best hi _ => ?_) _ _ _
      (Nat.zero_le _) rfl (.inl ⟨rfl, by simp⟩)
    · have hrow := List.getElem?_eq_getElem hi
      simp only [jaccardConfig, P.jaccardRuleStep_row hrow, hrow, Option.map_some, Option.getD_some]
    · rw [jaccardRuleStep, if_pos (by exact hi)]
  realizes := by
    intro candidate
    refine ⟨jaccardResults P.header.rules candidate, fun i hi => ?_⟩
    have hrow := List.getElem?_eq_getElem hi
    obtain ⟨-, hpos, hle, -⟩ := P.at_place hrow
    rw [hrow]
    exact jaccardRuleTest_results hrow hpos hle
  route_ne_general := by
    intro i hi
    have hrow := List.getElem?_eq_getElem hi
    rw [hrow]
    exact (P.at_place hrow).2.2.2

end LoadedJaccard

namespace JaccardPolicy
variable {u : Unicode} (P : JaccardPolicy u)

/-- The list `validate_policy` returns. -/
def walk : List ValidRoute := sortDescending ValidRoute.priority P.routes

theorem validatePolicy_walk : validatePolicy u P.policy = .ok (P.caseSensitive, P.walk) := by
  rw [validatePolicy, P.validated]
  rfl

/-- The kernel's result of each rule in state `s` is the oracle's. -/
def SameResults (s : JaccardMatches) (isMatch : ValidRoute → Bool) : Prop :=
  ∀ i entry rule, P.routes[i]? = some entry → P.maps.rules i = some rule →
    jaccardRuleTest s i rule = isMatch entry

/-- `xdp_jaccard_route_priority` selects what `expected_route` selects, and
the general route exactly when no rule matches, for every assignment of
match results. -/
def Agrees : Prop :=
  ∀ s isMatch bm25Matches, P.SameResults s isMatch →
    expectedRoute u isMatch bm25Matches P.walk =
        .ok (routeName (jaccardRoutePriority P.maps s).2) ∧
      ((jaccardRoutePriority P.maps s).2 = .general ↔ ∀ entry ∈ P.routes, isMatch entry = false)

/-- The signals behind the entries and the rules, one for each. -/
theorem signals_of : ∃ signals d, ValidatedSignals u P.policy P.caseSensitive P.routes signals d ∧
    ParsedRules u P.policy P.header.rules signals d := by
  obtain ⟨signals, d, hvalid⟩ := validatedSignals_ok P.validated
  obtain ⟨signals', d', hrules⟩ := parseJaccard_rules P.parsed
  have hmap := Except.ok.inj (hvalid.read.symm.trans hrules.read)
  obtain rfl : signals = signals' :=
    List.map_injective_iff.mpr (fun a b h => PyVal.dict.inj h) hmap
  obtain rfl := Except.ok.inj (hvalid.decided.symm.trans hrules.decided)
  exact ⟨signals, d, hvalid, hrules⟩

/-- The table comes from the entries. -/
theorem table_of : P.table.Of P.routes := by
  obtain ⟨signals, d, hvalid, hrules⟩ := P.signals_of
  refine ⟨?_, fun i entry hentry => ?_, hvalid.nodup⟩
  · exact hrules.ruleOf.length_eq.symm.trans hvalid.validated.length_eq
  · obtain ⟨signal, hsignal, hentryOf⟩ := forall₂_getElem? hvalid.validated hentry
    obtain ⟨row, hrow, hruleOf⟩ := forall₂_getElem?_left hrules.ruleOf hsignal
    obtain ⟨name, hname, hroute⟩ := hruleOf.route
    obtain rfl := Except.ok.inj (hname.symm.trans hentryOf.name)
    change entry.name = routeName ((P.header.rules[i]?.map RuleRow.route).getD .general)
    rw [hrow]
    exact (routeConstant_name hroute).1.symm

/-- The oracle's answer, for entries that are all n-gram entries. -/
theorem expectedRoute_eq (isMatch bm25Matches : ValidRoute → Bool) :
    expectedRoute u isMatch bm25Matches P.walk = .ok (walkRoute isMatch P.routes) := by
  obtain ⟨signals, d, hvalid, hrules⟩ := P.signals_of
  refine expectedRoute_walk fun entry hentry => .inl ⟨?_, rfl⟩
  obtain ⟨i, hi⟩ := List.mem_iff_getElem?.mp ((mem_sortDescending _).mp hentry)
  obtain ⟨signal, hsignal, hentryOf⟩ := forall₂_getElem? hvalid.validated hi
  obtain ⟨row, -, hruleOf⟩ := forall₂_getElem?_left hrules.ruleOf hsignal
  rw [hentryOf.method, signalMethod_default u hruleOf.method (by rw [pyLower_empty]; decide)]
  exact pyLower_method u (.inl rfl)

/-- The two orders agree on the policy iff they agree on its rule table. -/
theorem agrees_iff_table : P.Agrees ↔ P.table.Agrees P.routes := by
  have hsame : ∀ s isMatch, P.SameResults s isMatch ↔ P.table.SameResults P.routes s isMatch := by
    intro s isMatch
    have hsize : P.header.rules.length = P.routes.length := P.table_of.size
    constructor
    · intro h i entry hentry
      have hlt : i < P.header.rules.length := by
        rw [hsize]
        exact (List.getElem?_eq_some_iff.mp hentry).1
      have hrow := List.getElem?_eq_getElem hlt
      rw [← h i entry _ hentry (P.at_place hrow).1]
      change (P.header.rules[i]?.map fun row => jaccardRuleTest s i (jaccardRule row)).getD false
        = jaccardRuleTest s i (jaccardRule P.header.rules[i])
      rw [hrow]
      rfl
    · intro h i entry rule hentry hrule
      have hlt : i < P.header.rules.length := by
        rw [hsize]
        exact (List.getElem?_eq_some_iff.mp hentry).1
      have hrow := List.getElem?_eq_getElem hlt
      obtain rfl := Option.some.inj ((P.at_place hrow).1.symm.trans hrule)
      have := h i entry hentry
      change (P.header.rules[i]?.map fun row => jaccardRuleTest s i (jaccardRule row)).getD false
        = isMatch entry at this
      rwa [hrow] at this
  constructor
  · intro h s isMatch hs
    obtain ⟨hroute, hgeneral⟩ := h s isMatch (fun _ => false) ((hsame s isMatch).mpr hs)
    rw [P.expectedRoute_eq] at hroute
    exact ⟨(Except.ok.inj hroute).symm, hgeneral⟩
  · intro h s isMatch bm25Matches hs
    obtain ⟨hroute, hgeneral⟩ := h s isMatch ((hsame s isMatch).mp hs)
    rw [P.expectedRoute_eq]
    exact ⟨congrArg Except.ok hroute.symm, hgeneral⟩

end JaccardPolicy

/-! ## Plain signals -/

/-- A case-sensitive n-gram signal without a priority. -/
def plainSignal (name route keyword : String) : PyVal :=
  .dict [("name", .str name), ("route", .str route), ("method", .str "ngram"),
    ("keywords", .list [.str keyword]), ("case_sensitive", .bool true)]

/-- The rule of a plain signal of priority `priority`. -/
def plainRule (priority : Int) (route : Route) : RuleRow := ⟨400, priority, route, .or, 3, true, 1⟩

/-- The row of a keyword of four different letters. -/
def plainKeyword (ruleId a b c d : Nat) : KeywordRow :=
  ⟨ruleId, [[32, 32, a], [32, a, b], [a, b, c], [b, c, d], [c, d, 32], [d, 32, 32]],
    [1, 1, 1, 1, 1, 1], 6⟩

end Xsr.Policy
