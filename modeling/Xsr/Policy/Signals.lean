import Xsr.Lib.Selection
import Xsr.Policy.Value

/-!
# Signals — what `generate_keyword_header.py` reads of a policy

The keyword signals, the routes and priorities their decisions give them,
`validate_policy`, and `expected_route` of the routing benchmark, which
walks the list `validate_policy` returns. A dictionary the source fills is
a list with the newest entry first.
-/

namespace Xsr.Policy

open Lib

section Reading
variable (u : Unicode)

/-- The `routing.signals.keywords` of a policy. -/
def routingKeywords (policy : Dict) : Option (List PyVal) := do
  let routing ← (policy.lookup "routing").bind PyVal.asDict
  let signals ← (routing.lookup "signals").bind PyVal.asDict
  (signals.lookup "keywords").bind PyVal.asList

/-- `keyword_signals` -/
def keywordSignals (policy : Dict) : Except PyError (List PyVal) :=
  match routingKeywords policy with
  | some keywords => .ok keywords
  | none =>
      required ((policy.lookup "routes").bind PyVal.asList)
        "policy must define routing.signals.keywords"

/-- `{"coding", "math", "qa", "writing"}` -/
def routeNames : List String := ["coding", "math", "qa", "writing"]

/-- The two dictionaries of `decision_keyword_routes`. -/
structure Decisions where
  routes : List (String × String)
  priorities : List (String × Int)

/-- One condition of a decision `name` of priority `priority`. -/
def conditionStep (name : String) (priority : Int) (d : Decisions) (condition : PyVal) :
    Decisions :=
  match condition.asDict with
  | none => d
  | some condition =>
      let signalName := (condition.getD "name" (.str "")).text u
      if (condition.getD "type" (.str "")).text u ≠ "keyword" ∨ signalName = "" then d
      else ⟨(signalName, name) :: d.routes, (signalName, priority) :: d.priorities⟩

/-- The `rules.conditions` of a decision. -/
def decisionConditions (decision : Dict) : Option (List PyVal) := do
  let rules ← (decision.lookup "rules").bind PyVal.asDict
  (rules.lookup "conditions").bind PyVal.asList

/-- One decision. -/
def decisionStep (d : Decisions) (decision : PyVal) : Except PyError Decisions :=
  match decision.asDict with
  | none => .ok d
  | some decision =>
      let name := (decision.getD "name" (.str "")).text u
      if !routeNames.contains name then .ok d
      else do
        let priority ← (decision.getD "priority" (.int 0)).toInt u
        match decisionConditions decision with
        | none => return d
        | some conditions => return conditions.foldl (conditionStep u name priority) d

/-- The `routing.decisions` of a policy. -/
def routingDecisions (policy : Dict) : Option (List PyVal) := do
  let routing ← (policy.lookup "routing").bind PyVal.asDict
  (routing.lookup "decisions").bind PyVal.asList

/-- `decision_keyword_routes` -/
def decisionKeywordRoutes (policy : Dict) : Except PyError Decisions :=
  match routingDecisions policy with
  | none => .ok ⟨[], []⟩
  | some decisions => decisions.foldlM (decisionStep u) ⟨[], []⟩

/-- `str(signal.get("name", default))` -/
def signalName (signal : Dict) (default : String) : String :=
  (signal.getD "name" (.str default)).text u

/-- `signal_route_name` -/
def signalRouteName (signal : Dict) (routes : List (String × String)) : Except PyError String :=
  if (signal.getD "route" .none).truth then .ok ((signal.getD "route" .none).text u)
  else
    let name := signalName u signal ""
    match routes.lookup name with
    | some route => .ok route
    | none =>
        if startsWith name "code_" ∨ startsWith name "coding_" then .ok "coding"
        else if startsWith name "math_" then .ok "math"
        else if startsWith name "qa_" then .ok "qa"
        else if startsWith name "writing_" then .ok "writing"
        else .error (.valueError ("keyword signal " ++ pyRepr u name
          ++ " must define route: coding|math|qa|writing"))

/-- `priorities.get(name, int(signal.get("priority", 0)))`: the default is
computed whether it is used or not. -/
def signalPriority (priorities : List (String × Int)) (name : String) (signal : Dict) :
    Except PyError Int := do
  let own ← (signal.getD "priority" (.int 0)).toInt u
  return (priorities.lookup name).getD own

/-- `str(signal.get("operator", "OR")).upper()` -/
def signalOperator (signal : Dict) : String :=
  pyUpper u ((signal.getD "operator" (.str "OR")).text u)

/-- `str(signal.get("method", default)).lower()` -/
def signalMethod (signal : Dict) (default : String) : String :=
  pyLower u ((signal.getD "method" (.str default)).text u)

/-- `bool(signal.get("case_sensitive", False))` -/
def signalCaseSensitive (signal : Dict) : Bool :=
  (signal.getD "case_sensitive" (.bool false)).truth

/-- A method that is not what its default would give was written down, so
the default does not matter. -/
theorem signalMethod_default {signal : Dict} {default method other : String}
    (h : signalMethod u signal default = method) (hne : pyLower u default ≠ method) :
    signalMethod u signal other = method := by
  unfold signalMethod Dict.getD at h ⊢
  cases hm : signal.lookup "method" with
  | none =>
      rw [hm] at h
      exact absurd h hne
  | some value =>
      rw [hm] at h
      exact h

/-- `signal.get("keywords")` after `isinstance(…, list)`, if not empty. -/
def signalKeywords (signal : Dict) : Option (List PyVal) :=
  match (signal.lookup "keywords").bind PyVal.asList with
  | some (value :: values) => some (value :: values)
  | _ => none

end Reading

/-! ## Validation -/

/-- A dictionary of the list `validate_policy` returns. -/
structure ValidRoute where
  name : String
  priority : Int
  keywords : List String
  operator : String
  method : String
  ngramArity : Int
  ngramThreshold : PyVal
  bm25Threshold : PyVal

/-- The variables of the loop of `validate_policy`. -/
structure Validation where
  routes : List ValidRoute
  seenKeywords : List String
  globalCaseSensitive : Option Bool

/-- `re.search(r"[.^$*+?{}\\[\\]\\\\|()]", value)`. The class ends at its
first unescaped bracket, so the pattern asks for one of its characters
before two backslashes, or for a closing bracket. -/
def usesRegexSyntax : List Char → Bool
  | [] => false
  | c :: cs =>
      c == ']' || (".^$*+?\x7b\x7d\\[".toList.contains c && ['\\', '\\'].isPrefixOf cs)
        || usesRegexSyntax cs

section Validate
variable (u : Unicode)

/-- One keyword of the signal `signalName`: the keywords seen in the policy
and those cleaned for the signal. -/
def validateKeyword (signalName method : String) (caseSensitive : Bool)
    (s : List String × List String) (keyword : PyVal) :
    Except PyError (List String × List String) := do
  let value := keyword.text u
  raiseIf (value == "") (signalName ++ ": has an empty keyword")
  raiseIf (!value.toList.all fun c => c.toNat < 128)
    (signalName ++ ": keyword " ++ pyRepr u value ++ " must be ASCII")
  raiseIf (value.toList.any fun c => c.toNat < 32 || 126 < c.toNat)
    (signalName ++ ": keyword " ++ pyRepr u value ++ " must be printable ASCII")
  raiseIf (method == "regex" && usesRegexSyntax value.toList)
    (signalName ++ ": regex keyword " ++ pyRepr u value ++ " uses regex syntax "
      ++ "that XDP does not reproduce; use literal-safe patterns")
  let normalized := if caseSensitive then value else pyLower u value
  -- a keyword of an earlier signal counts as well
  raiseIf (s.1.contains normalized) ("duplicate keyword " ++ pyRepr u value)
  return (normalized :: s.1, s.2 ++ [normalized])

/-- One signal. -/
def validateSignal (d : Decisions) (v : Validation) (raw : PyVal) :
    Except PyError Validation := do
  let route ← required raw.asDict "each keyword signal must be an object"
  let name ← signalRouteName u route d.routes
  raiseIf (!routeNames.contains name)
    ("unsupported route " ++ pyRepr u name ++ "; use coding, math, qa, or writing")
  let signalName := signalName u route name
  let operator := signalOperator u route
  raiseIf (!(["OR", "AND", "NOR"].contains operator))
    (signalName ++ ": operator must be OR, AND, or NOR")
  let method := signalMethod u route "regex"
  raiseIf (!(["literal", "exact", "regex", "bm25", "ngram"].contains method))
    (signalName ++ ": unsupported method " ++ pyRepr u method)
  let caseSensitive := signalCaseSensitive route
  raiseIf (v.globalCaseSensitive == some !caseSensitive)
    "XDP requires the same case_sensitive value for every keyword signal"
  let keywords ← required (signalKeywords route) (signalName ++ ": must define keywords")
  let (seen, clean) ←
    keywords.foldlM (validateKeyword u signalName method caseSensitive) (v.seenKeywords, [])
  let priority ← signalPriority u d.priorities signalName route
  let ngramArity ← (route.getD "ngram_arity" (.int 3)).toInt u
  return ⟨v.routes ++ [⟨name, priority, clean, operator, method, ngramArity,
      route.getD "ngram_threshold" (.float ⟨"0.4", some 0, true⟩),
      route.getD "bm25_threshold" (.float ⟨"0.1", some 0, true⟩)⟩],
    seen, some caseSensitive⟩

/-- The list of `validate_policy` in the order of the policy, with the
value of `case_sensitive`. -/
def validatedSignals (policy : Dict) : Except PyError (Bool × List ValidRoute) := do
  let rawRoutes ← keywordSignals policy
  raiseIf rawRoutes.isEmpty "policy must define keyword signals"
  let d ← decisionKeywordRoutes u policy
  let v ← rawRoutes.foldlM (validateSignal u d) ⟨[], [], none⟩
  return (v.globalCaseSensitive.getD false, v.routes)

/-- `validate_policy` -/
def validatePolicy (policy : Dict) : Except PyError (Bool × List ValidRoute) := do
  let (caseSensitive, routes) ← validatedSignals u policy
  return (caseSensitive, sortDescending ValidRoute.priority routes)

/-- The route of `expected_route`, with the two `rule_matches` functions of
the references as parameters. -/
def expectedRoute (ngramMatches bm25Matches : ValidRoute → Bool) :
    List ValidRoute → Except PyError String
  | [] => .ok "others"
  | route :: routes =>
      let method := pyLower u route.method
      if method = "ngram" then
        if ngramMatches route then .ok route.name
        else expectedRoute ngramMatches bm25Matches routes
      else if method = "bm25" then
        if bm25Matches route then .ok route.name
        else expectedRoute ngramMatches bm25Matches routes
      else .error (.valueError ("benchmark policy uses unsupported method " ++ pyRepr u method))

end Validate

/-! ## What a validated policy satisfies -/

section Accepted
variable {u : Unicode}

/-- `keyword` is the cleaned text of `value`. -/
structure Cleaned (u : Unicode) (caseSensitive : Bool) (value : PyVal) (keyword : String) :
    Prop where
  nonempty : value.text u ≠ ""
  ascii : ∀ c ∈ (value.text u).toList, 32 ≤ c.toNat ∧ c.toNat ≤ 126
  normalized : keyword = if caseSensitive then value.text u else pyLower u (value.text u)

/-- `entry` is what `validate_policy` makes of `signal`. -/
structure Validated (u : Unicode) (d : Decisions) (signal : Dict) (entry : ValidRoute) :
    Prop where
  name : signalRouteName u signal d.routes = .ok entry.name
  known : entry.name ∈ routeNames
  priority : signalPriority u d.priorities (signalName u signal entry.name) signal
    = .ok entry.priority
  operator : entry.operator = signalOperator u signal
  method : entry.method = signalMethod u signal "regex"
  keywords : ∃ values, signalKeywords signal = some values ∧
    List.Forall₂ (Cleaned u (signalCaseSensitive signal)) values entry.keywords
  arity : (signal.getD "ngram_arity" (.int 3)).toInt u = .ok entry.ngramArity
  threshold : entry.ngramThreshold = signal.getD "ngram_threshold" (.float ⟨"0.4", some 0, true⟩)

theorem signalKeywords_ne_nil {signal : Dict} {values : List PyVal}
    (h : signalKeywords signal = some values) : values ≠ [] := by
  unfold signalKeywords at h
  split at h
  · cases h; simp
  · cases h

theorem Validated.keywords_ne_nil {d : Decisions} {signal : Dict} {entry : ValidRoute}
    (h : Validated u d signal entry) : entry.keywords ≠ [] := by
  obtain ⟨values, hvalues, hall⟩ := h.keywords
  intro hnil
  rw [hnil, List.forall₂_nil_right_iff] at hall
  exact signalKeywords_ne_nil hvalues hall

/-- One keyword that passed: it is new. -/
theorem validateKeyword_ok {name method : String} {caseSensitive : Bool}
    {s s' : List String × List String} {value : PyVal}
    (h : validateKeyword u name method caseSensitive s value = .ok s') :
    ∃ keyword, s' = (keyword :: s.1, s.2 ++ [keyword]) ∧ keyword ∉ s.1 ∧
      Cleaned u caseSensitive value keyword := by
  unfold validateKeyword raiseIf at h
  obtain ⟨_, hempty, h⟩ := bind_ok h
  obtain ⟨_, hascii, h⟩ := bind_ok h
  obtain ⟨_, hprintable, h⟩ := bind_ok h
  obtain ⟨_, -, h⟩ := bind_ok h
  obtain ⟨_, hnew, h⟩ := bind_ok h
  refine ⟨_, (Except.ok.inj h).symm, by simpa using refuseIf_ok hnew, ?_, ?_, rfl⟩
  · simpa using refuseIf_ok hempty
  · intro c hc
    have hout := List.any_eq_false.mp (refuseIf_ok hprintable) c hc
    simp only [Bool.or_eq_true, decide_eq_true_eq, not_or] at hout
    omega

/-- The keywords of one signal: all cleaned, all new, no two alike. -/
theorem validateKeywords_ok {name method : String} {caseSensitive : Bool}
    {seen seen' clean : List String} {values : List PyVal}
    (h : values.foldlM (validateKeyword u name method caseSensitive) (seen, []) =
      .ok (seen', clean)) :
    List.Forall₂ (Cleaned u caseSensitive) values clean ∧ seen' = clean.reverse ++ seen ∧
      (seen.Nodup → seen'.Nodup) := by
  obtain ⟨ys, hys, hall⟩ := foldlM_forall₂ (f := Prod.snd) h fun s v _ s' hs => by
    obtain ⟨keyword, rfl, -, hclean⟩ := validateKeyword_ok hs
    exact ⟨keyword, rfl, hclean⟩
  obtain rfl : clean = ys := by simpa using hys
  have hseen := foldlM_invariant
    (P := fun s => s.1 = s.2.reverse ++ seen ∧ (seen.Nodup → s.1.Nodup)) h ⟨by simp, id⟩
    fun s hs v _ s' hv => by
      obtain ⟨keyword, rfl, hnew, -⟩ := validateKeyword_ok hv
      exact ⟨by simp [hs.1], fun hn => List.nodup_cons.mpr ⟨hnew, hs.2 hn⟩⟩
  exact ⟨hall, hseen.1, hseen.2⟩

/-- One signal that passed. -/
theorem validateSignal_ok {d : Decisions} {v v' : Validation} {raw : PyVal}
    (h : validateSignal u d v raw = .ok v') :
    ∃ signal entry, raw = .dict signal ∧ Validated u d signal entry ∧
      v'.routes = v.routes ++ [entry] ∧
      v'.seenKeywords = entry.keywords.reverse ++ v.seenKeywords ∧
      (v.seenKeywords.Nodup → v'.seenKeywords.Nodup) ∧
      v'.globalCaseSensitive = some (signalCaseSensitive signal) ∧
      v.globalCaseSensitive ≠ some !signalCaseSensitive signal := by
  unfold validateSignal raiseIf at h
  obtain ⟨signal, hsignal, h⟩ := bind_ok h
  obtain ⟨name, hname, h⟩ := bind_ok h
  obtain ⟨_, hknown, h⟩ := bind_ok h
  obtain ⟨_, -, h⟩ := bind_ok h
  obtain ⟨_, -, h⟩ := bind_ok h
  obtain ⟨_, hcase, h⟩ := bind_ok h
  obtain ⟨values, hvalues, h⟩ := bind_ok h
  obtain ⟨⟨seen, clean⟩, hclean, h⟩ := bind_ok h
  obtain ⟨priority, hpriority, h⟩ := bind_ok h
  obtain ⟨arity, harity, h⟩ := bind_ok h
  obtain rfl := Except.ok.inj h
  obtain ⟨hall, hseen, hnodup⟩ := validateKeywords_ok hclean
  have hraw : raw = .dict signal := by
    cases raw with
    | dict entries => exact congrArg PyVal.dict (Option.some.inj (required_ok hsignal))
    | _ => cases required_ok hsignal
  refine ⟨signal, _, hraw, ⟨hname, by simpa using refuseIf_ok hknown, hpriority, rfl, rfl,
    ⟨values, required_ok hvalues, hall⟩, harity, rfl⟩, rfl, hseen, hnodup, rfl, ?_⟩
  simpa using refuseIf_ok hcase

/-- The signals of a loop that passed agree on `case_sensitive`. -/
theorem validateSignals_caseSensitive {d : Decisions} {raws : List PyVal} {v v' : Validation}
    (h : raws.foldlM (validateSignal u d) v = .ok v') :
    (∀ b, v.globalCaseSensitive = some b → v'.globalCaseSensitive = some b) ∧
      ∀ signal, .dict signal ∈ raws →
        v'.globalCaseSensitive = some (signalCaseSensitive signal) := by
  induction raws generalizing v with
  | nil => cases h; exact ⟨fun _ => id, by simp⟩
  | cons raw raws ih =>
      obtain ⟨t, hraw, hrest⟩ := bind_ok h
      obtain ⟨signal, entry, rfl, -, -, -, -, hcase, hsame⟩ := validateSignal_ok hraw
      obtain ⟨hkeep, hall⟩ := ih hrest
      refine ⟨fun b hb => ?_, fun other hother => ?_⟩
      · rw [hkeep _ hcase]
        rw [hb] at hsame
        cases b <;> cases hs : signalCaseSensitive signal <;> simp_all
      · rcases List.mem_cons.mp hother with heq | hother
        · cases heq; exact hkeep _ hcase
        · exact hall other hother

/-- What an accepted policy satisfies, signal by signal. -/
structure ValidatedSignals (u : Unicode) (policy : Dict) (caseSensitive : Bool)
    (routes : List ValidRoute) (signals : List Dict) (d : Decisions) : Prop where
  read : keywordSignals policy = .ok (signals.map PyVal.dict)
  decided : decisionKeywordRoutes u policy = .ok d
  nonempty : signals ≠ []
  validated : List.Forall₂ (Validated u d) signals routes
  sameCase : ∀ signal ∈ signals, signalCaseSensitive signal = caseSensitive
  distinct : (routes.flatMap ValidRoute.keywords).Nodup

/-- Values that all turned out to be dictionaries. -/
theorem forall₂_dicts {α : Type} {R : Dict → α → Prop} {raws : List PyVal} {ys : List α}
    (h : List.Forall₂ (fun raw y => ∃ signal, raw = .dict signal ∧ R signal y) raws ys) :
    ∃ signals : List Dict, raws = signals.map PyVal.dict ∧ List.Forall₂ R signals ys := by
  induction h with
  | nil => exact ⟨[], rfl, .nil⟩
  | cons hd _ ih =>
      obtain ⟨signal, rfl, hR⟩ := hd
      obtain ⟨signals, rfl, hall⟩ := ih
      exact ⟨signal :: signals, rfl, .cons hR hall⟩

theorem validatedSignals_ok {policy : Dict} {caseSensitive : Bool} {routes : List ValidRoute}
    (h : validatedSignals u policy = .ok (caseSensitive, routes)) :
    ∃ signals d, ValidatedSignals u policy caseSensitive routes signals d := by
  unfold validatedSignals raiseIf at h
  obtain ⟨raws, hraws, h⟩ := bind_ok h
  obtain ⟨_, hne, h⟩ := bind_ok h
  obtain ⟨d, hd, h⟩ := bind_ok h
  obtain ⟨v, hv, h⟩ := bind_ok h
  cases h
  obtain ⟨entries, hentries, hall⟩ := foldlM_forall₂ (f := Validation.routes)
    (R := fun raw entry => ∃ signal, raw = .dict signal ∧ Validated u d signal entry) hv
    fun t raw _ t' ht => by
      obtain ⟨signal, entry, hraw, hvalid, hout, -⟩ := validateSignal_ok ht
      exact ⟨entry, hout, signal, hraw, hvalid⟩
  have hseen := foldlM_invariant
    (P := fun t => t.seenKeywords = (t.routes.flatMap ValidRoute.keywords).reverse ∧
      t.seenKeywords.Nodup) hv ⟨rfl, List.nodup_nil⟩
    fun t ht raw _ t' hraw => by
      obtain ⟨signal, entry, -, -, hout, hkeys, hnodup, -⟩ := validateSignal_ok hraw
      exact ⟨by rw [hkeys, hout, ht.1]; simp, hnodup ht.2⟩
  obtain ⟨signals, rfl, hsignals⟩ := forall₂_dicts hall
  have hroutes : v.routes = entries := by simpa using hentries
  have hcase := (validateSignals_caseSensitive hv).2
  refine ⟨signals, d, hraws, hd, ?_, by rwa [hroutes], fun signal hsignal => ?_, ?_⟩
  · rintro rfl
    cases refuseIf_ok hne
  · rw [hcase signal (List.mem_map_of_mem hsignal)]
    rfl
  · rw [← List.nodup_reverse, ← hseen.1]
    exact hseen.2

/-- No entry of an accepted policy stands in the list twice: each has a
keyword of its own. -/
theorem ValidatedSignals.nodup {policy : Dict} {caseSensitive : Bool}
    {routes : List ValidRoute} {signals : List Dict} {d : Decisions}
    (h : ValidatedSignals u policy caseSensitive routes signals d) : routes.Nodup := by
  have hne : ∀ entry ∈ routes, entry.keywords ≠ [] := by
    intro entry hentry
    obtain ⟨i, hi⟩ := List.mem_iff_getElem?.mp hentry
    obtain ⟨signal, -, hvalid⟩ := forall₂_getElem? h.validated hi
    exact hvalid.keywords_ne_nil
  have hdisjoint := (List.nodup_flatMap.mp h.distinct).2
  refine hdisjoint.imp_of_mem fun {a b} ha _ hab heq => ?_
  obtain ⟨keyword, hkeyword⟩ := List.exists_mem_of_ne_nil _ (hne a ha)
  exact hab hkeyword (heq ▸ hkeyword)

end Accepted

end Xsr.Policy
