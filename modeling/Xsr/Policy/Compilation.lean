import Xsr.Policy.Decisions
import Xsr.Policy.JaccardTable

/-!
# Compilation — decisions flattened into signals

`decision_keyword_routes` gives each signal a decision mentions the name
and the priority of the last such decision, whatever the decision's
operator and its other conditions. `DecisionPolicy` is an accepted n-gram
policy with the decisions it was meant to have.
-/

namespace Xsr.Policy

open Kernel Lib Control

section Reading
variable (u : Unicode)

/-- The signal a keyword condition names. -/
def readCondition (raw : PyVal) : Option String := do
  let condition ← raw.asDict
  if (condition.getD "type" (.str "")).text u = "keyword" then some (signalName u condition "")
  else none

/-- Whether all conditions have to hold. -/
def readOperator (rules : Dict) : Option Bool :=
  let operator := pyUpper u ((rules.getD "operator" .none).text u)
  if operator = "AND" then some true else if operator = "OR" then some false else none

/-- A decision over keyword conditions. -/
def readDecision (raw : PyVal) : Option Decision := do
  let decision ← raw.asDict
  let rules ← (decision.lookup "rules").bind PyVal.asDict
  let all ← readOperator u rules
  let conditions ← (rules.lookup "conditions").bind PyVal.asList
  let names ← conditions.mapM (readCondition u)
  let priority ← ((decision.getD "priority" (.int 0)).toInt u).toOption
  return ⟨(decision.getD "name" (.str "")).text u, priority, all, names⟩

/-- The decisions of a policy. -/
def policyDecisions (policy : Dict) : Option (List Decision) :=
  match routingDecisions policy with
  | none => some []
  | some raws => raws.mapM (readDecision u)

/-- The keyword signals of a policy. -/
def policySignals (policy : Dict) : List Dict :=
  match keywordSignals policy with
  | .ok raws => raws.filterMap PyVal.asDict
  | .error _ => []

/-- The names of the keyword signals. -/
def policySignalNames (policy : Dict) : List String :=
  (policySignals policy).map fun signal => signalName u signal ""

/-- The route the generators give a signal. -/
def compiledRoute (d : Decisions) (signal : Dict) : String :=
  match signalRouteName u signal d.routes with
  | .ok route => route
  | .error _ => "others"

/-- The priority the kernel gives a signal. -/
def compiledRank (d : Decisions) (signal : Dict) : Nat :=
  match signalPriority u d.priorities (signalName u signal "") signal with
  | .ok priority => cU32 priority
  | .error _ => 0

end Reading

/-- A loaded n-gram policy and its decisions, whose priorities are distinct
and not negative. -/
structure DecisionPolicy (u : Unicode) extends LoadedJaccard u where
  decisions : List Decision
  read : policyDecisions u policy = some decisions
  distinct : (decisions.map Decision.priority).Nodup
  nonneg : ∀ A ∈ decisions, 0 ≤ A.priority

namespace DecisionPolicy
variable {u : Unicode} (P : DecisionPolicy u)

/-- For every assignment `m` of match results the kernel's route is that of
the highest true decision. -/
def Preserved : Prop :=
  ∀ (s : JaccardMatches) (m : Nat → Bool),
    (∀ (i : Nat) row, P.header.rules[i]? = some row →
      jaccardRuleTest s i (jaccardRule row) = m i) →
    routeName (jaccardRoutePriority P.maps s).2 =
      decisionRoute (policySignalNames u P.policy) P.decisions m

/-- The signals, with the routes and ranks the generators give them, are
faithful to the decisions. -/
def SignalsFaithful : Prop :=
  ∀ d, decisionKeywordRoutes u P.policy = .ok d →
    Faithful (policySignalNames u P.policy) P.decisions
      (fun i => ((policySignals P.policy)[i]?.map (compiledRoute u d)).getD "others")
      (fun i => ((policySignals P.policy)[i]?.map (compiledRank u d)).getD 0)

theorem policySignals_eq {signals : List Dict}
    (h : keywordSignals P.policy = .ok (signals.map PyVal.dict)) :
    policySignals P.policy = signals := by
  rw [policySignals, h]
  simp only [List.filterMap_map]
  exact List.filterMap_some

/-- The table's routes and ranks are those of the signals. -/
theorem table_eq {signals : List Dict} {d : Decisions}
    (h : ParsedRules u P.policy P.header.rules signals d) :
    (fun i => routeName (P.table.route i)) =
        (fun i => (signals[i]?.map (compiledRoute u d)).getD "others") ∧
      P.table.priority = fun i => (signals[i]?.map (compiledRank u d)).getD 0 := by
  have hrow : ∀ i : Nat, (signals[i]? = none ∧ P.header.rules[i]? = none) ∨
      ∃ signal row, signals[i]? = some signal ∧ P.header.rules[i]? = some row ∧
        RuleOf u d signal row := by
    intro i
    cases hi : P.header.rules[i]? with
    | none =>
        refine .inl ⟨List.getElem?_eq_none_iff.mpr ?_, rfl⟩
        rw [h.ruleOf.length_eq]
        exact List.getElem?_eq_none_iff.mp hi
    | some row =>
        obtain ⟨signal, hsignal, hrule⟩ := forall₂_getElem? h.ruleOf hi
        exact .inr ⟨signal, row, hsignal, rfl, hrule⟩
  constructor
  · funext i
    change routeName ((P.header.rules[i]?.map RuleRow.route).getD .general) = _
    rcases hrow i with ⟨hs, hr⟩ | ⟨signal, row, hs, hr, hrule⟩
    · rw [hs, hr]
      rfl
    · obtain ⟨name, hname, hroute⟩ := hrule.route
      rw [hs, hr]
      simp only [Option.map_some, Option.getD_some, compiledRoute, hname,
        (routeConstant_name hroute).1]
  · funext i
    change (P.header.rules[i]?.map fun row => cU32 row.priority).getD 0 = _
    rcases hrow i with ⟨hs, hr⟩ | ⟨signal, row, hs, hr, hrule⟩
    · rw [hs, hr]
      rfl
    · rw [hs, hr]
      simp only [Option.map_some, Option.getD_some, compiledRank, hrule.priority]

/-- The decisions are preserved iff the table selects their route on every
assignment of match counts. -/
theorem preserved_iff_table (hlen : P.header.rules.length = (policySignalNames u P.policy).length) :
    P.Preserved ↔ ∀ s, routeName (P.table.select s).2 =
      decisionRoute (policySignalNames u P.policy) P.decisions (P.table.isMatch s) := by
  have hmatch : ∀ (s : JaccardMatches) (i : Nat) row, P.header.rules[i]? = some row →
      P.table.isMatch s i = jaccardRuleTest s i (jaccardRule row) := by
    intro s i row hrow
    change (P.header.rules[i]?.map fun row => jaccardRuleTest s i (jaccardRule row)).getD false = _
    rw [hrow]
    rfl
  constructor
  · intro h s
    exact h s _ fun i row hrow => (hmatch s i row hrow).symm
  · intro h s m hm
    have heq := h s
    rw [show decisionRoute (policySignalNames u P.policy) P.decisions (P.table.isMatch s) =
        decisionRoute (policySignalNames u P.policy) P.decisions m from
      decisionRoute_congr fun i hi => ?_] at heq
    · exact heq
    · have hrow := List.getElem?_eq_getElem (l := P.header.rules) (i := i) (by omega)
      rw [hmatch s i _ hrow, hm i _ hrow]

/-- **When compilation preserves decisions**: exactly when the flattened
signals are faithful to them. -/
theorem preserved_iff : P.Preserved ↔ P.SignalsFaithful := by
  obtain ⟨signals, d, h⟩ := parseJaccard_rules P.parsed
  have hsignals := P.policySignals_eq h.read
  have hlen : P.header.rules.length = (policySignalNames u P.policy).length := by
    rw [policySignalNames, hsignals, List.length_map]
    exact h.ruleOf.length_eq.symm
  obtain ⟨hroute, hrank⟩ := P.table_eq h
  rw [P.preserved_iff_table hlen, RuleTable.faithful_iff hlen P.distinct, hroute, hrank]
  unfold SignalsFaithful
  rw [hsignals]
  constructor
  · intro hf d' hd'
    obtain rfl := Except.ok.inj (h.decided.symm.trans hd')
    exact hf
  · intro hf
    exact hf d h.decided

end DecisionPolicy

/-! ## A decision over two signals -/

/-- A keyword condition. -/
def keywordCondition (name : String) : PyVal := .dict [("type", .str "keyword"), ("name", .str name)]

/-- One decision that asks for both of its signals. -/
def bothPolicy : Dict :=
  [("routing", .dict
    [("signals", .dict [("keywords", .list
        [plainSignal "code" "coding" "code", plainSignal "sums" "coding" "sums"])]),
     ("decisions", .list [.dict
        [("name", .str "coding"), ("priority", .int 100), ("rules", .dict
          [("operator", .str "AND"),
           ("conditions", .list [keywordCondition "code", keywordCondition "sums"])])]])])]

/-- The header of `bothPolicy`. -/
def bothHeader : JaccardHeader :=
  ⟨[plainRule 100 .coding, plainRule 100 .coding],
    [plainKeyword 0 99 111 100 101, plainKeyword 1 115 117 109 115], []⟩

/-- The two dictionaries of `decision_keyword_routes`. -/
def bothDecisions : Decisions :=
  ⟨[("sums", "coding"), ("code", "coding")], [("sums", 100), ("code", 100)]⟩

theorem both_parsed : parseJaccard Unicode.asciiTables bothPolicy false = .ok bothHeader := by
  have hloop : [plainSignal "code" "coding" "code", plainSignal "sums" "coding" "sums"].foldlM
      (parseSignal Unicode.asciiTables false bothDecisions) ⟨[], [], [], none⟩ =
      .ok ⟨bothHeader.rules, bothHeader.keywords, [], some true⟩ := rfl
  exact parseJaccard_of rfl rfl hloop (casefoldEntries_nil _)

/-- The policy with its decision, loaded. -/
def both : DecisionPolicy Unicode.asciiTables where
  policy := bothPolicy
  header := bothHeader
  wordBitmap := fun _ => 0
  maps := (populateJaccardPolicy bothHeader fun _ => 0).get rfl
  parsed := both_parsed
  loaded := (Option.some_get _).symm
  decisions := [⟨"coding", 100, true, ["code", "sums"]⟩]
  read := rfl
  distinct := by decide
  nonneg := by decide

/-- The kernel routes to `coding` as soon as one of the two signals matches. -/
theorem preserved_fails : ¬∀ P : DecisionPolicy Unicode.asciiTables, P.Preserved := by
  intro hall
  have hkernel : (jaccardRoutePriority both.maps ⟨1, 1⟩).2 = .coding := rfl
  have hroute := hall both ⟨1, 1⟩ (fun i => i == 0) fun i row hrow => by
    cases i with
    | zero => obtain rfl := Option.some.inj hrow; rfl
    | succ i =>
        cases i with
        | zero => obtain rfl := Option.some.inj hrow; rfl
        | succ i => cases hrow
  rw [hkernel] at hroute
  rcases decisionRoute_cases (policySignalNames Unicode.asciiTables both.policy) both.decisions
    (fun i => i == 0) with ⟨hothers, -⟩ | ⟨A, hA, -⟩
  · rw [hothers] at hroute
    exact absurd hroute (by decide)
  · obtain rfl := List.mem_singleton.mp hA.mem
    exact absurd hA.holds (by decide)

end Xsr.Policy
