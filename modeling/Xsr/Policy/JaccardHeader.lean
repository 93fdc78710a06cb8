import Xsr.Kernel.Jaccard
import Xsr.Lib.Ngram
import Xsr.Policy.Signals

/-!
# JaccardHeader — `generate_jaccard_policy_header.py`

`parse` turns the n-gram signals of a policy into the rows of the generated
header: the rules, the keywords with their distinct trigrams and counts,
and the case folds of the characters the keywords need.
-/

namespace Xsr.Policy

open Kernel Lib

section Generator
variable (u : Unicode)

/-- `MAX_KEYWORDS`, `MAX_RULES` and `MAX_GRAMS` are the kernel's. -/
def maxCasefolds : Nat := 128

/-- `ROUTES` -/
def routeConstant (name : String) : Option Route :=
  [("coding", Route.coding), ("math", .math), ("qa", .qa), ("writing", .writing)].lookup name

/-- `OPERATORS` -/
def operatorConstant (name : String) : Option Operator :=
  [("OR", Operator.or), ("AND", .and), ("NOR", .nor)].lookup name

/-- `threshold_milli` -/
def thresholdMilli (value : PyVal) : Except PyError Int := do
  match ← value.toDecimal u with
  | .nan => .error .arithmetic
  | .infinity _ => .error (.valueError "ngram_threshold must be between 0 and 1")
  | .finite x =>
      raiseIf (!x.inUnit) "ngram_threshold must be between 0 and 1"
      raiseIf (!(x.scale 1000).isIntegral)
        "ngram_threshold must be representable to thousandth precision"
      return (x.scale 1000).truncate

/-- One character of `scalar_lower`. -/
def scalarLowerChar (keyword : List Char) (c : Char) : Except PyError Char :=
  match u.lowerText [c] with
  | [lowered] => .ok lowered
  | _ => .error (.valueError ("keyword " ++ pyRepr u (String.ofList keyword)
      ++ " requires expanding Unicode case folding, "
      ++ "which is outside the bounded XDP implementation"))

/-- `scalar_lower` -/
def scalarLower (text keyword : List Char) : Except PyError (List Char) :=
  text.mapM (scalarLowerChar u keyword)

/-- `normalize` -/
def normalize (text : List Char) (caseSensitive : Bool) : Except PyError (List Char) :=
  if caseSensitive then .ok text
  else do
    let _ ← scalarLower u text text
    let uppercase := u.upperText text
    let scalar ← scalarLower u uppercase text
    raiseIf (u.lowerText uppercase != scalar) ("keyword " ++ pyRepr u (String.ofList text)
      ++ " requires context-sensitive Unicode lowercasing, "
      ++ "which the scalar XDP case-fold map cannot reproduce")
    return u.lowerText text

/-- A row of `keywords`. -/
structure KeywordRow where
  ruleId : Nat
  grams : List (List Nat)
  counts : List Nat
  totalGrams : Nat

/-- The distinct grams in the order of their first occurrence. -/
def distinctGrams (grams : List (List Nat)) : List (List Nat) :=
  grams.foldl (fun result gram => if result.contains gram then result else result ++ [gram]) []

/-- `gram_counts`, for the one arity `parse` lets through. -/
def gramCounts (keyword : List Char) (caseSensitive : Bool) (ruleId : Nat) :
    Except PyError KeywordRow := do
  let normalized ← normalize u keyword caseSensitive
  let allGrams := paddedGrams jaccardArity 32 (normalized.map Char.toNat)
  raiseIf (jaccardMaxGrams < allGrams.length)
    ("keyword " ++ pyRepr u (String.ofList keyword) ++ " produces " ++ toString allGrams.length
      ++ " trigrams; max is " ++ toString jaccardMaxGrams
      ++ " for the bounded ngrammatic-compatible XDP matcher")
  let result := distinctGrams allGrams
  raiseIf (jaccardMaxGrams < result.length)
    ("keyword " ++ pyRepr u (String.ofList keyword) ++ " produces " ++ toString result.length
      ++ " unique grams; max is " ++ toString jaccardMaxGrams)
  return ⟨ruleId, result, result.map fun gram => allGrams.count gram, allGrams.length⟩

/-- The entry of one code point in `casefold_entries`. Surrogates have no
lower case. -/
def casefoldEntry (targets : List Char) (codepoint : Nat) : Option (Nat × Nat) :=
  if codepoint.isValidChar then
    match u.lowerText [Char.ofNat codepoint] with
    | [lower] =>
        if targets.contains lower && Char.ofNat codepoint != lower then
          some (codepoint, lower.toNat)
        else none
    | _ => none
  else none

/-- `sys.maxunicode` -/
def maxUnicode : Nat := 0x10ffff

/-- `casefold_entries`, in ascending order as they are found. -/
def casefoldEntries (texts : List (List Char)) : Except PyError (List (Nat × Nat)) := do
  let targets := texts.flatMap u.lowerText
  let entries := (List.range (maxUnicode + 1)).filterMap (casefoldEntry u targets)
  raiseIf (maxCasefolds < entries.length)
    "Unicode case-fold policy requires more than 128 bounded mappings"
  return entries

/-- Without case-insensitive keywords nothing is folded. -/
theorem casefoldEntries_nil : casefoldEntries u [] = .ok [] := by
  have hnone : (List.range (maxUnicode + 1)).filterMap (casefoldEntry u []) = [] := by
    refine List.filterMap_eq_nil_iff.mpr fun codepoint _ => ?_
    unfold casefoldEntry
    split
    · split <;> rfl
    · rfl
  rw [casefoldEntries, List.flatMap_nil, hnone]
  rfl

/-- A row of `rules`. -/
structure RuleRow where
  thresholdMilli : Int
  priority : Int
  route : Route
  operator : Operator
  arity : Int
  caseSensitive : Bool
  keywordCount : Nat

/-- What `parse` returns. -/
structure JaccardHeader where
  rules : List RuleRow
  keywords : List KeywordRow
  casefolds : List (Nat × Nat)

/-- The variables of the loop of `parse`. -/
structure JaccardParse where
  rules : List RuleRow
  keywords : List KeywordRow
  insensitiveTexts : List (List Char)
  policyCaseSensitive : Option Bool

/-- One keyword of the rule `ruleId`. -/
def parseKeyword (name : String) (caseSensitive : Bool) (ruleId : Nat) (s : JaccardParse)
    (value : PyVal) : Except PyError JaccardParse := do
  raiseIf (jaccardMaxKeywords ≤ s.keywords.length)
    ("at most " ++ toString jaccardMaxKeywords ++ " keywords are supported")
  let text := (value.text u).toList
  raiseIf text.isEmpty (name ++ ": empty keywords are not supported")
  let row ← gramCounts u text caseSensitive ruleId
  return { s with
    keywords := s.keywords ++ [row]
    insensitiveTexts := if caseSensitive then s.insensitiveTexts else s.insensitiveTexts ++ [text] }

/-- The rule of an n-gram signal and its keywords. -/
def parseNgram (d : Decisions) (s : JaccardParse) (signal : Dict) :
    Except PyError JaccardParse := do
  let name := signalName u signal ""
  let routeName ← signalRouteName u signal d.routes
  let route ← required (routeConstant routeName)
    (name ++ ": route must be coding, math, qa, or writing")
  let operator ← required (operatorConstant (signalOperator u signal))
    (name ++ ": operator must be OR, AND, or NOR")
  let arity ← (signal.getD "ngram_arity" (.int 3)).toInt u
  raiseIf (arity != jaccardArity)
    (name ++ ": XDP's verifier-bounded implementation currently supports ngram_arity: "
      ++ toString jaccardArity)
  let values ← required (signalKeywords signal) (name ++ ": keywords must be a non-empty list")
  raiseIf (jaccardMaxRules ≤ s.rules.length)
    ("at most " ++ toString jaccardMaxRules ++ " keyword rules are supported")
  let caseSensitive := signalCaseSensitive signal
  raiseIf (s.policyCaseSensitive == some !caseSensitive)
    "XDP requires the same case_sensitive value for every ngram rule"
  let threshold ←
    thresholdMilli u (signal.getD "ngram_threshold" (.float ⟨"0.4", some 0, true⟩))
  let priority ← signalPriority u d.priorities name signal
  let rule : RuleRow := ⟨threshold, priority, route, operator, arity, caseSensitive, values.length⟩
  values.foldlM (parseKeyword u name caseSensitive s.rules.length)
    { s with rules := s.rules ++ [rule], policyCaseSensitive := some caseSensitive }

/-- One signal of `parse`. -/
def parseSignal (allowOtherMethods : Bool) (d : Decisions) (s : JaccardParse) (raw : PyVal) :
    Except PyError JaccardParse := do
  let signal ← required raw.asDict "keyword signals must be objects"
  if signalMethod u signal "" ≠ "ngram" then
    if allowOtherMethods then .ok s
    else .error (.valueError
      "XDP Jaccard policies must contain only method: ngram keyword signals")
  else parseNgram u d s signal

/-- `parse` -/
def parseJaccard (policy : Dict) (allowOtherMethods : Bool) : Except PyError JaccardHeader := do
  let signals ← keywordSignals policy
  let d ← decisionKeywordRoutes u policy
  let s ← signals.foldlM (parseSignal u allowOtherMethods d) ⟨[], [], [], none⟩
  let casefolds ← casefoldEntries u s.insensitiveTexts
  return ⟨s.rules, s.keywords, casefolds⟩

end Generator

/-! ## What a generated header satisfies -/

section Generated
variable {u : Unicode}

/-- `row` is what the generator makes of the keyword `value`. -/
structure KeywordOf (u : Unicode) (caseSensitive : Bool) (ruleId : Nat) (value : PyVal)
    (row : KeywordRow) : Prop where
  nonempty : value.text u ≠ ""
  grams : gramCounts u (value.text u).toList caseSensitive ruleId = .ok row

/-- `rule` is what the generator makes of `signal`. -/
structure RuleOf (u : Unicode) (d : Decisions) (signal : Dict) (rule : RuleRow) : Prop where
  method : signalMethod u signal "" = "ngram"
  route : ∃ name, signalRouteName u signal d.routes = .ok name ∧
    routeConstant name = some rule.route
  operator : operatorConstant (signalOperator u signal) = some rule.operator
  arity : rule.arity = jaccardArity
  threshold : thresholdMilli u (signal.getD "ngram_threshold" (.float ⟨"0.4", some 0, true⟩))
    = .ok rule.thresholdMilli
  priority : signalPriority u d.priorities (signalName u signal "") signal = .ok rule.priority
  caseSensitive : rule.caseSensitive = signalCaseSensitive signal
  keywordCount : ∃ values, signalKeywords signal = some values ∧
    rule.keywordCount = values.length

/-- What the keyword loop of one rule leaves behind. -/
structure KeywordsAdded (u : Unicode) (caseSensitive : Bool) (ruleId : Nat)
    (values : List PyVal) (s s' : JaccardParse) (rows : List KeywordRow) : Prop where
  rules : s'.rules = s.rules
  keywords : s'.keywords = s.keywords ++ rows
  rows : List.Forall₂ (KeywordOf u caseSensitive ruleId) values rows
  bounded : s.keywords.length ≤ jaccardMaxKeywords → s'.keywords.length ≤ jaccardMaxKeywords
  texts : s'.insensitiveTexts = s.insensitiveTexts ++
    if caseSensitive then [] else values.map fun value => (value.text u).toList
  policyCase : s'.policyCaseSensitive = s.policyCaseSensitive

theorem parseKeywords_ok {name : String} {caseSensitive : Bool} {ruleId : Nat}
    {values : List PyVal} {s s' : JaccardParse}
    (h : values.foldlM (parseKeyword u name caseSensitive ruleId) s = .ok s') :
    ∃ rows, KeywordsAdded u caseSensitive ruleId values s s' rows := by
  induction values generalizing s with
  | nil => cases h; exact ⟨[], rfl, by simp, .nil, id, by simp, rfl⟩
  | cons value values ih =>
      obtain ⟨t, ht, hrest⟩ := bind_ok h
      obtain ⟨rows, hrows⟩ := ih hrest
      unfold parseKeyword raiseIf at ht
      obtain ⟨_, hroom, ht⟩ := bind_ok ht
      obtain ⟨_, hempty, ht⟩ := bind_ok ht
      obtain ⟨row, hrow, ht⟩ := bind_ok ht
      cases ht
      refine ⟨row :: rows, hrows.rules, by rw [hrows.keywords]; simp, .cons ⟨?_, hrow⟩ hrows.rows,
        fun _ => hrows.bounded ?_, ?_, hrows.policyCase⟩
      · have := refuseIf_ok hempty
        rintro heq
        simp [heq] at this
      · have := refuseIf_ok hroom
        simp only [decide_eq_false_iff_not] at this
        simp only [List.length_append, List.length_singleton]
        omega
      · rw [hrows.texts]
        cases caseSensitive <;> simp

/-- What one n-gram signal leaves behind. -/
theorem parseNgram_ok {d : Decisions} {s s' : JaccardParse} {signal : Dict}
    (hmethod : signalMethod u signal "" = "ngram") (h : parseNgram u d s signal = .ok s') :
    ∃ rule values rows, RuleOf u d signal rule ∧ signalKeywords signal = some values ∧
      KeywordsAdded u (signalCaseSensitive signal) s.rules.length values
        { s with rules := s.rules ++ [rule],
                 policyCaseSensitive := some (signalCaseSensitive signal) } s' rows ∧
      s.rules.length < jaccardMaxRules := by
  unfold parseNgram raiseIf at h
  obtain ⟨name, hname, h⟩ := bind_ok h
  obtain ⟨route, hroute, h⟩ := bind_ok h
  obtain ⟨operator, hoperator, h⟩ := bind_ok h
  obtain ⟨arity, -, h⟩ := bind_ok h
  obtain ⟨_, harity, h⟩ := bind_ok h
  obtain ⟨values, hvalues, h⟩ := bind_ok h
  obtain ⟨_, hroom, h⟩ := bind_ok h
  obtain ⟨_, -, h⟩ := bind_ok h
  obtain ⟨threshold, hthreshold, h⟩ := bind_ok h
  obtain ⟨priority, hpriority, h⟩ := bind_ok h
  obtain ⟨rows, hrows⟩ := parseKeywords_ok h
  refine ⟨_, values, rows, ⟨hmethod, ⟨name, hname, required_ok hroute⟩, required_ok hoperator,
    by simpa using refuseIf_ok harity, hthreshold, hpriority, rfl, values, required_ok hvalues, rfl⟩,
    required_ok hvalues, hrows, ?_⟩
  simpa using refuseIf_ok hroom

/-- What one signal leaves behind when every signal has to be an n-gram
signal. -/
theorem parseSignal_ok {d : Decisions} {s s' : JaccardParse} {raw : PyVal}
    (h : parseSignal u false d s raw = .ok s') :
    ∃ signal rule values rows, raw = .dict signal ∧ RuleOf u d signal rule ∧
      signalKeywords signal = some values ∧
      KeywordsAdded u (signalCaseSensitive signal) s.rules.length values
        { s with rules := s.rules ++ [rule],
                 policyCaseSensitive := some (signalCaseSensitive signal) } s' rows ∧
      s.rules.length < jaccardMaxRules := by
  unfold parseSignal at h
  obtain ⟨signal, hsignal, h⟩ := bind_ok h
  split_ifs at h with hmethod hother
  · cases hother
  obtain ⟨rule, values, rows, hrest⟩ := parseNgram_ok (not_not.mp hmethod) h
  refine ⟨signal, rule, values, rows, ?_, hrest⟩
  cases raw with
  | dict entries => exact congrArg PyVal.dict (Option.some.inj (required_ok hsignal))
  | _ => cases required_ok hsignal

/-- What an accepted n-gram policy satisfies, signal by signal. -/
structure ParsedRules (u : Unicode) (policy : Dict) (rules : List RuleRow)
    (signals : List Dict) (d : Decisions) : Prop where
  read : keywordSignals policy = .ok (signals.map PyVal.dict)
  decided : decisionKeywordRoutes u policy = .ok d
  ruleOf : List.Forall₂ (RuleOf u d) signals rules
  length_le : rules.length ≤ jaccardMaxRules
  counts_le : ∀ rule ∈ rules, rule.keywordCount ≤ jaccardMaxKeywords

/-- A policy is accepted part by part. -/
theorem parseJaccard_of {policy : Dict} {allowOtherMethods : Bool} {signals : List PyVal}
    {d : Decisions} {s : JaccardParse} {casefolds : List (Nat × Nat)}
    (hsignals : keywordSignals policy = .ok signals)
    (hdecided : decisionKeywordRoutes u policy = .ok d)
    (hloop : signals.foldlM (parseSignal u allowOtherMethods d) ⟨[], [], [], none⟩ = .ok s)
    (hcasefolds : casefoldEntries u s.insensitiveTexts = .ok casefolds) :
    parseJaccard u policy allowOtherMethods = .ok ⟨s.rules, s.keywords, casefolds⟩ := by
  rw [parseJaccard, bind_of_ok hsignals, bind_of_ok hdecided, bind_of_ok hloop,
    bind_of_ok hcasefolds]
  rfl

theorem parseJaccard_rules {policy : Dict} {header : JaccardHeader}
    (h : parseJaccard u policy false = .ok header) :
    ∃ signals d, ParsedRules u policy header.rules signals d := by
  unfold parseJaccard at h
  obtain ⟨raws, hraws, h⟩ := bind_ok h
  obtain ⟨d, hd, h⟩ := bind_ok h
  obtain ⟨s, hs, h⟩ := bind_ok h
  obtain ⟨casefolds, -, h⟩ := bind_ok h
  cases h
  obtain ⟨rules, hrules, hall⟩ := foldlM_forall₂ (f := JaccardParse.rules)
    (R := fun raw rule => ∃ signal, raw = .dict signal ∧ RuleOf u d signal rule) hs
    fun t raw _ t' ht => by
      obtain ⟨signal, rule, values, rows, hraw, hrule, -, hadded, -⟩ := parseSignal_ok ht
      exact ⟨rule, hadded.rules, signal, hraw, hrule⟩
  obtain ⟨signals, rfl, hsignals⟩ := forall₂_dicts hall
  have hbounds := foldlM_invariant
    (P := fun t => t.rules.length ≤ jaccardMaxRules ∧ t.keywords.length ≤ jaccardMaxKeywords ∧
      ∀ rule ∈ t.rules, rule.keywordCount ≤ t.keywords.length) hs
    ⟨by decide, by decide, by simp⟩ fun t ht raw _ t' hraw => by
      -- the count of a rule is the number of rows added with it
      obtain ⟨signal, rule, values, rows, -, hrule, hvalues, hadded, hroom⟩ := parseSignal_ok hraw
      have hlen : t'.keywords.length = t.keywords.length + rows.length := by
        rw [hadded.keywords, List.length_append]
      refine ⟨?_, hadded.bounded ht.2.1, fun r hr => ?_⟩
      · rw [hadded.rules, List.length_append]
        exact hroom
      rw [hadded.rules] at hr
      rcases List.mem_append.mp hr with hr | hr
      · have := ht.2.2 r hr
        omega
      · obtain rfl := List.mem_singleton.mp hr
        obtain ⟨values', hvalues', hcount⟩ := hrule.keywordCount
        obtain rfl := Option.some.inj (hvalues.symm.trans hvalues')
        rw [hcount, hadded.rows.length_eq]
        omega
  have heq : s.rules = rules := by simpa using hrules
  exact ⟨signals, d, hraws, hd, heq ▸ hsignals, hbounds.1,
    fun rule hrule => Nat.le_trans (hbounds.2.2 rule hrule) hbounds.2.1⟩

end Generated

end Xsr.Policy
