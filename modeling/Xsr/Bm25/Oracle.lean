import Xsr.Bm25.Prompts
import Xsr.Bm25.Latching
import Xsr.Lib.Parts
import Xsr.Policy.Operators
import Xsr.Policy.Precedence

/-!
# Oracle — the route of a prompt under a BM25 policy

The oracle tokenizes the prompt, scores the keywords of every entry in
floating point and walks the entries by priority. The kernel compares the
rounded weights it has added up with a rounded threshold and scans its rule
table. A prompt that the term table covers, and whose scores the rounding
leaves on their side of the threshold, gets the same route from both.
-/

namespace Xsr.Bm25

open Kernel Lib Policy Control OrderedDict Regex

/-! ## The oracle's results -/

/-- What `keyword_scores` and `rule_matches` of `bm25_reference.py` use of
Python's floats. -/
structure Floats (F : Type) where
  /-- `0.0` -/
  zero : F
  /-- `score + term` -/
  add : F → F → F
  /-- `idf * tf_norm` -/
  term : TermStats → F
  /-- `float(threshold)`, for what `threshold_fixed` accepts -/
  read : PyVal → F
  /-- `score > 0` -/
  positive : F → Bool
  /-- `score >= threshold_value` -/
  reaches : F → F → Bool

namespace Floats
variable {F : Type} (x : Floats F)

/-- The score of the document `tokens`, token by token of the query. -/
def documentScore (corpus : List (List Word)) (query tokens : List Word) : F :=
  query.foldl (fun score token =>
    if tokens.count token = 0 then score
    else x.add score (x.term (termStats corpus tokens token))) x.zero

/-- `keyword_scores` -/
def keywordScores (query : List Char) (keywords : List String) : List F :=
  (corpus keywords).map (x.documentScore (corpus keywords) (tokenizeQuery query))

/-- The score of a keyword counts. -/
def counts (threshold score : F) : Bool := x.positive score && x.reaches score threshold

/-- `rule_matches` for an entry. -/
def ruleMatches (u : Unicode) (prompt : List Char) (entry : ValidRoute) : Bool :=
  let matched := (x.keywordScores prompt entry.keywords).filter
    (x.counts (x.read entry.bm25Threshold))
  let operator := pyUpper u entry.operator
  if operator = "OR" then !matched.isEmpty
  else if operator = "AND" then matched.length == entry.keywords.length
  else if operator = "NOR" then matched.isEmpty
  else false

/-- The results of the oracle by operator. -/
theorem ruleMatches_eq {u : Unicode} {prompt : List Char} {entry : ValidRoute}
    {operator : Operator} (hoperator : operatorConstant entry.operator = some operator) :
    x.ruleMatches u prompt entry = operator.results (x.keywordScores prompt entry.keywords)
      (x.counts (x.read entry.bm25Threshold)) := by
  have hlen : (x.keywordScores prompt entry.keywords).length = entry.keywords.length := by
    simp [keywordScores, corpus]
  unfold ruleMatches
  rw [operatorConstant_name hoperator, pyUpper_operatorName, operator.results_filter, hlen]
  cases operator with
  | or => rw [operatorName, if_pos rfl]
  | and => rw [operatorName, if_neg (by decide), if_pos rfl]
  | nor => rw [operatorName, if_neg (by decide), if_neg (by decide), if_pos rfl]

end Floats

/-- The score of a keyword reaches the threshold in the unit of the weights. -/
def scoreReaches (threshold score : Int) : Bool := decide (0 < score ∧ threshold ≤ score)

theorem length_fixedScores (weight : TermStats → Int) (prompt : List Char)
    (keywords : List String) : (fixedScores weight prompt keywords).length = keywords.length := by
  simp [fixedScores, ruleCorpus, corpus]

/-- **Rounding decides nothing** for an entry: the floats put the score of
each of its keywords on the same side of the threshold as the rounded weights
and the rounded threshold do. -/
def ComparesAlike {F : Type} (u : Unicode) (weight : TermStats → Int) (x : Floats F)
    (prompt : List Char) (entry : ValidRoute) : Prop :=
  ∀ threshold, thresholdFixed u entry.bm25Threshold = .ok threshold →
    (x.keywordScores prompt entry.keywords).map (x.counts (x.read entry.bm25Threshold))
      = (fixedScores weight prompt entry.keywords).map (scoreReaches threshold)

/-! ## Texts, entries and rows -/

/-- Lower case is no matter to the tokenizer. -/
theorem queryText_lower (u : Unicode) {text : String} (h : ∀ c ∈ text.toList, c.toNat < 128) :
    queryText (pyLower u text).toList = queryText text.toList := by
  have hchar : ∀ n : Fin 128, Bm25.queryText [(Char.ofNat n).toLower] = queryText [Char.ofNat n] := by
    decide
  rw [pyLower, u.lowerText_ascii h, String.toList_ofList, queryText, queryText, List.map_map]
  refine List.map_congr_left fun c hc => ?_
  have hc' := hchar ⟨c.toNat, h c hc⟩
  rw [show Char.ofNat c.toNat = c from Char.ofNat_toNat c] at hc'
  exact (List.cons.inj hc').1

/-- The documents of cleaned keywords are those of the texts. -/
theorem corpus_cleaned {u : Unicode} {caseSensitive : Bool} {values : List PyVal}
    {keywords : List String} (h : List.Forall₂ (Cleaned u caseSensitive) values keywords) :
    corpus keywords = corpus (values.map fun value => value.text u) := by
  induction h with
  | nil => rfl
  | @cons value keyword values keywords hclean _ ih =>
      have hascii : ∀ c ∈ (value.text u).toList, c.toNat < 128 := fun c hc =>
        (hclean.ascii c hc).2.trans_lt (by decide)
      have htext : queryText keyword.toList = queryText (value.text u).toList := by
        rw [hclean.normalized]
        split_ifs
        · rfl
        · exact queryText_lower u hascii
      have htokens : tokenizeQuery keyword.toList = tokenizeQuery (value.text u).toList := by
        rw [tokenizeQuery, tokenizeQuery, htext]
      rw [List.map_cons]
      show tokenizeQuery keyword.toList :: corpus keywords = _
      rw [htokens, ih]
      rfl

/-- What a row takes from its signal besides route and rank. -/
structure RowTexts (u : Unicode) (signal : Dict) (row : Bm25RuleRow) : Prop where
  values : ∃ values, signalKeywords signal = some values ∧ row.documentCount = values.length
  threshold : thresholdFixed u (signal.getD "bm25_threshold" (.float ⟨"0.1", some 0, true⟩))
    = .ok row.thresholdFixed

/-- The documents of each rule start where those of the rules before it end. -/
def Consecutive (rules : List Bm25RuleRow) : Prop := ∀ (i : Nat) row, rules[i]? = some row →
  row.documentStart = ((rules.take i).map Bm25RuleRow.documentCount).sum

theorem Consecutive.add {rules : List Bm25RuleRow} (h : Consecutive rules) {row : Bm25RuleRow}
    (hstart : row.documentStart = (rules.map Bm25RuleRow.documentCount).sum) :
    Consecutive (rules ++ [row]) := by
  intro i other hi
  rcases Nat.lt_or_ge i rules.length with hlt | hge
  · rw [List.getElem?_append_left hlt] at hi
    rw [List.take_append_of_le_length hlt.le]
    exact h i other hi
  · have hlen := (List.getElem?_eq_some_iff.mp hi).1
    rw [List.length_append, List.length_singleton] at hlen
    obtain rfl : i = rules.length := by omega
    rw [List.getElem?_concat_length] at hi
    obtain rfl := Option.some.inj hi
    rw [List.take_append_of_le_length le_rfl, List.take_length]
    exact hstart

section Parse
variable {u : Unicode} {τ : Type} {w : Weigher τ}

theorem parseBm25Signal_texts {d : Decisions} {s s' : Bm25Parse τ} {signal : Dict}
    (h : parseBm25Signal u w d s signal = .ok s') :
    ∃ row, s'.rules = s.rules ++ [row] ∧ RowTexts u signal row := by
  unfold parseBm25Signal raiseIf at h
  obtain ⟨name, -, h⟩ := bind_ok h
  obtain ⟨route, -, h⟩ := bind_ok h
  obtain ⟨operator, -, h⟩ := bind_ok h
  obtain ⟨values, hvalues, h⟩ := bind_ok h
  obtain ⟨_, -, h⟩ := bind_ok h
  obtain ⟨threshold, hthreshold, h⟩ := bind_ok h
  obtain ⟨known, -, h⟩ := bind_ok h
  obtain ⟨priority, -, h⟩ := bind_ok h
  cases h
  exact ⟨_, rfl, ⟨values, required_ok hvalues, rfl⟩, hthreshold⟩

/-- **The rows of a policy of BM25 signals**, signal by signal. -/
theorem parseBm25_texts {policy : Dict} {header : Bm25Header} {signals : List Dict}
    (honly : OnlyBm25 u policy) (hread : keywordSignals policy = .ok (signals.map PyVal.dict))
    (h : parseBm25 u w policy = .ok header) :
    List.Forall₂ (RowTexts u) signals header.rules ∧ Consecutive header.rules := by
  unfold parseBm25 at h
  obtain ⟨raws, hraws, h⟩ := bind_ok h
  obtain ⟨d, hd, h⟩ := bind_ok h
  obtain ⟨s, hs, h⟩ := bind_ok h
  obtain ⟨terms, -, h⟩ := bind_ok h
  cases h
  obtain rfl := Except.ok.inj (hread.symm.trans hraws)
  have hstep : ∀ t, ∀ raw ∈ signals.map PyVal.dict, ∀ t', parseBm25Step u w d t raw = .ok t' →
      ∃ signal, raw = .dict signal ∧ parseBm25Signal u w d t signal = .ok t' := by
    intro t raw hraw t' ht
    obtain ⟨signal, rfl, hmethod⟩ := honly _ hread raw hraw
    simp only [parseBm25Step, PyVal.asDict, hmethod, ne_eq, not_true, if_false] at ht
    exact ⟨signal, rfl, ht⟩
  obtain ⟨rules, hrules, hall⟩ := foldlM_forall₂ (f := Bm25Parse.rules)
    (R := fun raw row => ∃ signal, raw = .dict signal ∧ RowTexts u signal row) hs
    fun t raw hraw t' ht => by
      obtain ⟨signal, heq, hsignal⟩ := hstep t raw hraw t' ht
      obtain ⟨row, hout, hrow⟩ := parseBm25Signal_texts hsignal
      exact ⟨row, hout, signal, heq, hrow⟩
  have hinv := foldlM_invariant
    (P := fun t : Bm25Parse τ => Consecutive t.rules ∧
      t.documents.length = (t.rules.map Bm25RuleRow.documentCount).sum) hs
    ⟨by simp [Consecutive], rfl⟩ fun t ht raw hraw t' hraw' => by
      obtain ⟨signal, -, hsignal⟩ := hstep t raw hraw t' hraw'
      obtain ⟨row, hout, -, hstart, hlen, -, -⟩ := parseBm25Signal_ok hsignal
      rw [hout]
      refine ⟨ht.1.add (hstart.trans ht.2), ?_⟩
      rw [hlen, ht.2, List.map_append, List.sum_append, List.map_singleton, List.sum_singleton]
  have heq : s.rules = rules := by simpa using hrules
  obtain ⟨signals', hsame, hsignals⟩ := forall₂_dicts hall
  obtain rfl : signals = signals' :=
    List.map_injective_iff.mpr (fun a b hab => PyVal.dict.inj hab) hsame
  exact ⟨heq ▸ hsignals, hinv.1⟩

/-- `validate_policy` passes the threshold on. -/
theorem validatedSignals_threshold {policy : Dict} {caseSensitive : Bool}
    {routes : List ValidRoute} {signals : List Dict}
    (hread : keywordSignals policy = .ok (signals.map PyVal.dict))
    (h : validatedSignals u policy = .ok (caseSensitive, routes)) :
    List.Forall₂ (fun (signal : Dict) entry => entry.bm25Threshold
      = signal.getD "bm25_threshold" (.float ⟨"0.1", some 0, true⟩)) signals routes := by
  unfold validatedSignals raiseIf at h
  obtain ⟨raws, hraws, h⟩ := bind_ok h
  obtain ⟨_, -, h⟩ := bind_ok h
  obtain ⟨d, -, h⟩ := bind_ok h
  obtain ⟨v, hv, h⟩ := bind_ok h
  cases h
  obtain rfl := Except.ok.inj (hread.symm.trans hraws)
  obtain ⟨entries, hentries, hall⟩ := foldlM_forall₂ (f := Validation.routes)
    (R := fun raw entry => ∃ signal : Dict, raw = .dict signal ∧ entry.bm25Threshold
      = signal.getD "bm25_threshold" (.float ⟨"0.1", some 0, true⟩)) hv
    fun t raw _ t' ht => by
      unfold validateSignal raiseIf at ht
      obtain ⟨signal, hsignal, ht⟩ := bind_ok ht
      obtain ⟨name, -, ht⟩ := bind_ok ht
      obtain ⟨_, -, ht⟩ := bind_ok ht
      obtain ⟨_, -, ht⟩ := bind_ok ht
      obtain ⟨_, -, ht⟩ := bind_ok ht
      obtain ⟨_, -, ht⟩ := bind_ok ht
      obtain ⟨values, -, ht⟩ := bind_ok ht
      obtain ⟨⟨seen, clean⟩, -, ht⟩ := bind_ok ht
      obtain ⟨priority, -, ht⟩ := bind_ok ht
      obtain ⟨arity, -, ht⟩ := bind_ok ht
      cases ht
      cases raw with
      | dict entries =>
          obtain rfl := Option.some.inj (required_ok hsignal)
          exact ⟨_, rfl, _, rfl, rfl⟩
      | _ => cases required_ok hsignal
  have hroutes : v.routes = entries := by simpa using hentries
  obtain ⟨signals', hsame, hsignals⟩ := forall₂_dicts hall
  obtain rfl : signals = signals' :=
    List.map_injective_iff.mpr (fun a b hab => PyVal.dict.inj hab) hsame
  exact hroutes ▸ hsignals

end Parse

/-! ## The rules of a loaded policy -/

section Entries
variable {u : Unicode} {weight : TermStats → Int} {lines : List (List Char)}
  (P : Bm25Policy u (termWeigher u weight lines))

/-- What the loader and the kernel see of the policy. -/
def loadedOf : LoadedBm25 u weight lines := ⟨P.policy, P.header, P.parsed, P.maps, P.loaded⟩

/-- An entry of the oracle and the row at its place. -/
structure EntryRow (i : Nat) (entry : ValidRoute) (row : Bm25RuleRow) : Prop where
  texts : ∃ texts, (loadedOf P).texts[i]? = some texts ∧ corpus entry.keywords = corpus texts ∧
    row.documentCount = texts.length
  start : row.documentStart
    = (((loadedOf P).texts.take i).flatMap fun texts => texts).length
  threshold : thresholdFixed u entry.bm25Threshold = .ok row.thresholdFixed
  operator : operatorConstant entry.operator = some row.operator

/-- The keyword texts of a signal. -/
def textsOf (u : Unicode) (signal : Dict) : List String :=
  ((signalKeywords signal).getD []).map fun value => value.text u

/-- **Entry by entry.** -/
theorem entryRow {i : Nat} {entry : ValidRoute} (hentry : P.routes[i]? = some entry) :
    ∃ row, P.header.rules[i]? = some row ∧ EntryRow P i entry row := by
  obtain ⟨signals, d, hvalid, hparsed⟩ := P.signals_of
  obtain ⟨hrows, hconsecutive⟩ := parseBm25_texts P.single hvalid.read P.parsed
  have hthresholds := validatedSignals_threshold hvalid.read P.validated
  -- the texts are those of the signals, all of them BM25 signals
  have htexts : (loadedOf P).texts = signals.map (textsOf u) := by
    have hsignal : ∀ signal ∈ signals, signalTexts u (.dict signal) = some (textsOf u signal) := by
      intro signal hmem
      obtain ⟨j, hj⟩ := List.mem_iff_getElem?.mp hmem
      obtain ⟨row, -, hrow⟩ := forall₂_getElem?_left hrows hj
      obtain ⟨values, hvalues, -⟩ := hrow.values
      obtain ⟨raw, hraw, hmethod⟩ := P.single _ hvalid.read (.dict signal)
        (List.mem_map_of_mem hmem)
      obtain rfl := PyVal.dict.inj hraw
      rw [signalTexts, PyVal.asDict, Option.bind_some, if_neg (not_not.mpr hmethod), textsOf,
        hvalues]
      rfl
    rw [LoadedBm25.texts, keywordTexts, show (loadedOf P).policy = P.policy from rfl, hvalid.read]
    show (signals.map PyVal.dict).filterMap (signalTexts u) = _
    rw [List.filterMap_map, ← List.filterMap_eq_map]
    exact List.filterMap_congr hsignal
  have hcounts : signals.map (fun signal => (textsOf u signal).length)
      = P.header.rules.map Bm25RuleRow.documentCount := by
    refine List.ext_getElem? fun j => ?_
    rw [List.getElem?_map, List.getElem?_map]
    cases hj : signals[j]? with
    | none =>
        have hlen := List.getElem?_eq_none_iff.mp hj
        rw [hrows.length_eq] at hlen
        rw [List.getElem?_eq_none_iff.mpr hlen]
        rfl
    | some signal =>
        obtain ⟨row, hrow, hrowTexts⟩ := forall₂_getElem?_left hrows hj
        obtain ⟨values, hvalues, hcount⟩ := hrowTexts.values
        rw [hrow, Option.map_some, Option.map_some, hcount, textsOf, hvalues, Option.getD_some,
          List.length_map]
  obtain ⟨signal, hsignal, hentryOf⟩ := forall₂_getElem? hvalid.validated hentry
  obtain ⟨row, hrow, hruleOf⟩ := forall₂_getElem?_left hparsed.ruleOf hsignal
  obtain ⟨row', hrow', hrowTexts⟩ := forall₂_getElem?_left hrows hsignal
  obtain rfl := Option.some.inj (hrow.symm.trans hrow')
  obtain ⟨entry', hentry', hthreshold⟩ := forall₂_getElem?_left hthresholds hsignal
  obtain rfl := Option.some.inj (hentry.symm.trans hentry')
  obtain ⟨values, hvalues, hclean⟩ := hentryOf.keywords
  obtain ⟨values', hvalues', hcount⟩ := hrowTexts.values
  obtain rfl := Option.some.inj (hvalues.symm.trans hvalues')
  have htext : textsOf u signal = values.map fun value => value.text u := by
    rw [textsOf, hvalues, Option.getD_some]
  refine ⟨row, hrow, ⟨textsOf u signal, ?texts, ?corpus, ?count⟩, ?start, ?threshold, ?operator⟩
  case texts =>
    rw [htexts, List.getElem?_map, hsignal]
    rfl
  case corpus =>
    rw [htext]
    exact corpus_cleaned hclean
  case count => rw [htext, List.length_map, hcount]
  case start =>
    rw [hconsecutive i row hrow, htexts, List.length_flatMap, List.map_take, ← hcounts,
      ← List.map_take, ← List.map_take, List.map_map]
    rfl
  case threshold =>
    rw [hthreshold]
    exact hrowTexts.threshold
  case operator =>
    rw [hentryOf.operator]
    exact hruleOf.operator

end Entries

namespace LoadedBm25
variable {u : Unicode} {weight : TermStats → Int} {lines : List (List Char)}
  (L : LoadedBm25 u weight lines)

/-- The document bits at the end of a prompt. -/
theorem prompt_bits {bytes : List UInt8} (hlen : bytes.length ≤ maxStreamRequestBytes) :
    (scorePrompt L.maps bytes).overflow = false ∧ ∀ d < L.header.documents.length,
      (scorePrompt L.maps bytes).matchedDocuments.testBit d
        = finallyMatches L.header (scorePrompt L.maps bytes) d := by
  obtain ⟨hconfig, -, T, -, hterms⟩ := L.maps_ok
  have hexact := scorePrompt_exact hconfig hterms hlen
  have hclosing := closing_prompt L.maps bytes
  have hscored := hclosing.scored hconfig hterms (hclosing.room hconfig hterms hexact.overflow)
  refine ⟨hexact.overflow, fun d hd => ?_⟩
  have hd16 : d < bm25MaxDocuments := hd.trans_le L.laid.documents_le
  have hdocument := List.getElem?_eq_getElem hd
  rw [finallyMatches, hdocument, Option.any_some, Bool.eq_iff_iff, hscored.matched d hd16,
    L.threshold_at hdocument, hscored.scores d hd16, decide_eq_true_eq]

end LoadedBm25

section Route
variable {u : Unicode} {weight : TermStats → Int} {lines : List (List Char)}
  (P : Bm25Policy u (termWeigher u weight lines)) {F : Type} (x : Floats F)

/-- **The result of a rule** is that of its entry, when the scores agree. -/
theorem ruleTest_oracle {i : Nat} {entry : ValidRoute} {row : Bm25RuleRow} {prompt : List Char}
    {s : Bm25State} (hrow : P.header.rules[i]? = some row) (h : EntryRow P i entry row)
    (halike : ComparesAlike u weight x prompt entry)
    (hscores : ∀ d < P.header.documents.length,
      s.scores d = ((loadedOf P).texts.flatMap (fixedScores weight prompt)).getD d 0)
    (hbits : ∀ d < P.header.documents.length,
      s.matchedDocuments.testBit d = finallyMatches P.header s d) :
    bm25RuleTest s (bm25Rule row) = x.ruleMatches u prompt entry := by
  obtain ⟨texts, htexts, hcorpus, hcount⟩ := h.texts
  have hlaid : Laid P.header.rules P.header.documents := (loadedOf P).laid
  have hdocuments := mem_ruleDocuments hlaid hrow
  have hsame : fixedScores weight prompt entry.keywords = fixedScores weight prompt texts := by
    rw [fixedScores, fixedScores, ruleCorpus, ruleCorpus, hcorpus]
  have hstart : row.documentStart
      = (((loadedOf P).texts.take i).flatMap (fixedScores weight prompt)).length := by
    rw [h.start, List.length_flatMap, List.length_flatMap]
    exact congrArg List.sum (List.map_congr_left fun t _ => (length_fixedScores weight prompt t).symm)
  have hwithin : row.documentStart + row.documentCount ≤ P.header.documents.length :=
    hlaid.layout.within row (List.mem_of_getElem? hrow)
  -- the documents of the rule, one after the other
  have hmatch : ∀ j (hj : j < (fixedScores weight prompt texts).length),
      finallyMatches P.header s (row.documentStart + j)
        = scoreReaches row.thresholdFixed (fixedScores weight prompt texts)[j] := by
    intro j hj
    have hj' : j < row.documentCount := by rwa [hcount, ← length_fixedScores weight prompt texts]
    have hd : row.documentStart + j < P.header.documents.length := by omega
    have hscore : s.scores (row.documentStart + j) = (fixedScores weight prompt texts)[j] := by
      rw [hscores _ hd, List.getD_eq_getElem?_getD, hstart, getElem?_flatMap_part htexts hj,
        List.getElem?_eq_getElem hj, Option.getD_some]
    obtain ⟨document, hdocument, hid⟩ := hlaid.covers i row hrow (row.documentStart + j)
      (Nat.le_add_right _ _) (by omega)
    obtain ⟨row', hrow', hthreshold, -⟩ := hlaid.belongs _ document hdocument
    rw [hid] at hrow'
    obtain rfl := Option.some.inj (hrow.symm.trans hrow')
    have hdocument : P.header.documents[row.documentStart + j]? = some document := hdocument
    rw [finallyMatches, hdocument, Option.any_some, hthreshold, hscore]
    rfl
  have hplaces : ∀ d, d ∈ ruleDocuments P.header i ↔
      ∃ j, j < (fixedScores weight prompt texts).length ∧ d = row.documentStart + j := by
    intro d
    rw [hdocuments d, length_fixedScores, ← hcount]
    constructor
    · exact fun hd => ⟨d - row.documentStart, by omega, by omega⟩
    · rintro ⟨j, hj, rfl⟩
      omega
  have hresults : row.operator.results (ruleDocuments P.header i) (finallyMatches P.header s)
      = row.operator.results (fixedScores weight prompt texts)
        (scoreReaches row.thresholdFixed) := by
    refine Operator.results_congr ?_ ?_
    · intro d hd
      obtain ⟨j, hj, rfl⟩ := (hplaces d).mp hd
      exact ⟨_, List.getElem_mem hj, hmatch j hj⟩
    · intro score hscore
      obtain ⟨j, hj, rfl⟩ := List.mem_iff_getElem.mp hscore
      exact ⟨_, (hplaces _).mpr ⟨j, hj, rfl⟩, hmatch j hj⟩
  have hrounded : row.operator.results (x.keywordScores prompt entry.keywords)
        (x.counts (x.read entry.bm25Threshold))
      = row.operator.results (fixedScores weight prompt entry.keywords)
        (scoreReaches row.thresholdFixed) := by
    rw [Operator.results_map, halike _ h.threshold, ← Operator.results_map]
  rw [(loadedOf P).ruleTest_eq hbits hrow, x.ruleMatches_eq h.operator, hrounded, hsame, ← hresults]
  cases row.operator with
  | or => rfl
  | and => rfl
  | nor => rfl

/-- A prompt both tokenizers cut alike, whose words have the rows of their
stems and are all covered. -/
structure Supported (prompt : List Char) : Prop where
  agrees : ∀ w ∈ findall asciiWord (queryText prompt), (loadedOf P).RowAgrees w
  uniform : AllUniform (queryText prompt)
  covers : (loadedOf P).Covers prompt

/-- **The route of a prompt.** Under a BM25 policy that ranks its signals
alike for both, a supported prompt that no rounding decides gets the route of
the oracle from the kernel. -/
theorem route_prompt (hranks : RanksAgree u P.policy) {prompt : List Char}
    (h : Supported P prompt) (halike : ∀ entry ∈ P.routes, ComparesAlike u weight x prompt entry)
    (hlen : (encodeUtf8 prompt).length ≤ maxStreamRequestBytes)
    (ngramMatches : ValidRoute → Bool) :
    expectedRoute u ngramMatches (x.ruleMatches u prompt) P.walk
      = .ok (routeName (bm25RoutePriority P.maps (scorePrompt P.maps (encodeUtf8 prompt))).2) := by
  obtain ⟨-, -, T, hT, hterms⟩ := (loadedOf P).maps_ok
  have hweights := ((loadedOf P).covers_iff hT h.agrees).mp h.covers
  have hscores : ∀ d < P.header.documents.length,
      (scorePrompt P.maps (encodeUtf8 prompt)).scores d
        = ((loadedOf P).texts.flatMap (fixedScores weight prompt)).getD d 0 := fun d hd =>
    ((loadedOf P).score_iff hT hterms h.agrees h.uniform hlen hd).mpr
      fun w hw => hweights w hw d hd
  obtain ⟨hover, hbits⟩ := (loadedOf P).prompt_bits hlen
  refine ((P.agrees_iff.mpr hranks) _ _ ngramMatches fun i entry rule hentry hrule => ?_).1
  obtain ⟨row, hrow, hentryRow⟩ := entryRow P hentry
  obtain rfl := Option.some.inj ((P.at_place hrow).loaded.symm.trans hrule)
  have hover : (scorePrompt P.maps (encodeUtf8 prompt)).overflow = false := hover
  rw [bm25RuleMatches, hover, Bool.not_false, Bool.true_and]
  exact ruleTest_oracle P x hrow hentryRow (halike _ (List.mem_of_getElem? hentry)) hscores hbits

end Route

/-! ## One keyword -/

/-- The tokens of two prompts in two orders. -/
theorem compose_code_tokens (m : Bm25Maps) :
    closedTokens m (encodeUtf8 "compose code".toList) = [ascii "compose", ascii "code"] ∧
      closedTokens m (encodeUtf8 "code compose".toList) = [ascii "code", ascii "compose"] := by
  have hfirst : findall asciiWord (queryText "compose code".toList)
      = [ascii "compose", ascii "code"] := by decide
  have hsecond : findall asciiWord (queryText "code compose".toList)
      = [ascii "code", ascii "compose"] := by decide
  have huniform : Uniform (queryText "compose code".toList) := by
    unfold Uniform
    decide +kernel
  have huniform' : Uniform (queryText "code compose".toList) := by
    unfold Uniform
    decide +kernel
  rw [closedTokens_uniform m fun _ hw _ => huniform.infix hw,
    closedTokens_uniform m fun _ hw _ => huniform'.infix hw]
  exact ⟨hfirst, hsecond⟩

/-- The kernel's score of the prompt `compose code`. -/
theorem compose_code_score {L : LoadedBm25 Unicode.asciiTables composeWeight []}
    (hpolicy : L.policy = composePolicy) :
    287682072 ≤ (scorePrompt L.maps (encodeUtf8 "compose code".toList)).scores 0 := by
  obtain ⟨hconfig, -, T, hT, hterms⟩ := L.maps_ok
  have hexact := scorePrompt_exact hconfig hterms
    (show (encodeUtf8 "compose code".toList).length ≤ maxStreamRequestBytes by decide)
  have hcompose : tokenWeight T.toTermTable 0 (ascii "compose") = 287682072 := by
    rw [L.tokenWeight_of_row hT (compose_rowAgrees hpolicy) (compose_row hpolicy),
      LoadedBm25.stemWeight, LoadedBm25.vector, LoadedBm25.texts, hpolicy]
    decide +kernel
  have hcode := (tokenWeight_bounds T (ascii "code") 0).1
  rw [hexact.scores 0 (by decide), (compose_code_tokens L.maps).1, finalScore]
  simp only [List.map_cons, List.map_nil, List.sum_cons, List.sum_nil]
  omega

/-- The bit of this policy's document is set after the tokens `compose` and
`code`, in either order. -/
theorem latched_matches_final_compose : ∃ L : LoadedBm25 Unicode.asciiTables composeWeight [],
    L.policy = composePolicy ∧
      FinalMatches L (scorePrompt L.maps (encodeUtf8 "compose code".toList)) ∧
      (scorePrompt L.maps (encodeUtf8 "compose code".toList)).matchedDocuments.testBit 0 = true ∧
      (scorePrompt L.maps (encodeUtf8 "code compose".toList)).matchedDocuments.testBit 0 = true := by
  obtain ⟨L, hpolicy, hdocuments⟩ := compose_parsed
  obtain ⟨hfirst, hsecond⟩ := compose_code_tokens L.maps
  have hclosing := closing_prompt L.maps (encodeUtf8 "compose code".toList)
  have hclosing' := closing_prompt L.maps (encodeUtf8 "code compose".toList)
  rw [hfirst] at hclosing
  rw [hsecond] at hclosing'
  have hover := (L.prompt_bits
    (show (encodeUtf8 "compose code".toList).length ≤ maxStreamRequestBytes by decide)).1
  obtain ⟨hfinal, hperm⟩ := latched_matches_final L
  have hmatches := hfinal _ _ hclosing hover
  have hzero : 0 < L.header.documents.length := by
    rw [hdocuments]
    decide
  have hbit := hmatches.bits 0 hzero
  have hscore := compose_code_score hpolicy
  have hreached : finallyMatches L.header
      (scorePrompt L.maps (encodeUtf8 "compose code".toList)) 0 = true := by
    simp only [finallyMatches, hdocuments, List.getElem?_cons_zero, Option.any_some,
      decide_eq_true_eq]
    omega
  rw [hreached] at hbit
  have hsame := (hperm _ _ _ _ (.swap ..) hclosing hclosing' hover).2 0 hzero
  exact ⟨L, hpolicy, hmatches, hbit, hsame.2.trans hbit⟩

/-- The entry of the policy of `compose`. -/
def composeEntry : ValidRoute :=
  ⟨"writing", 0, ["compose"], "OR", "bm25", 3, .float ⟨"0.4", some 0, true⟩,
    .float ⟨"0.1", some 0, true⟩⟩

/-- The floats this entry needs: `math.log(4 / 3)` is `0.28768207245178085`. -/
def composeFloats : Floats ℚ where
  zero := 0
  add := (· + ·)
  term := fun _ => 28768207245178085 / 100000000000000000
  read := fun _ => 1 / 10
  positive := fun score => decide (0 < score)
  reaches := fun score threshold => decide (threshold ≤ score)

theorem compose_alike :
    ComparesAlike Unicode.asciiTables composeWeight composeFloats "compose".toList composeEntry := by
  intro threshold hthreshold
  have hread : thresholdFixed Unicode.asciiTables composeEntry.bm25Threshold = .ok 100000000 := rfl
  obtain rfl := Except.ok.inj (hread.symm.trans hthreshold)
  decide +kernel

/-- The policy of the keyword `compose` supports it as a prompt. -/
theorem compose_supported :
    ∃ P : Bm25Policy Unicode.asciiTables (termWeigher Unicode.asciiTables composeWeight []),
      P.policy = composePolicy ∧ RanksAgree Unicode.asciiTables P.policy ∧
        Supported P "compose".toList ∧ ∀ entry ∈ P.routes,
          ComparesAlike Unicode.asciiTables composeWeight composeFloats "compose".toList entry := by
  obtain ⟨L, hpolicy, -⟩ := compose_parsed
  have honly : OnlyBm25 Unicode.asciiTables L.policy := by
    intro raws hread raw hraw
    rw [hpolicy] at hread
    obtain rfl := Except.ok.inj hread
    exact ⟨_, List.mem_singleton.mp hraw, rfl⟩
  have hroutes : validatedSignals Unicode.asciiTables L.policy = .ok (false, [composeEntry]) := by
    rw [hpolicy]
    rfl
  refine ⟨⟨L.policy, false, [composeEntry], L.header, L.maps, hroutes, honly, L.parsed, L.loaded⟩,
    hpolicy, ?_, ⟨?_, LoadedBm25.allUniform_of_findall compose_words, ?_⟩, fun entry hentry => ?_⟩
  · have hsignal : keywordSignals L.policy = .ok [composeSignal] := by
      rw [hpolicy]
      rfl
    exact .single hsignal
  · intro w hw
    rw [compose_words, List.mem_singleton] at hw
    exact hw ▸ compose_rowAgrees hpolicy
  · intro w hw _
    rw [contentWords, compose_words] at hw
    obtain rfl := List.mem_singleton.mp (List.mem_of_mem_filter hw)
    exact compose_row hpolicy
  · exact (List.mem_singleton.mp hentry) ▸ compose_alike

end Xsr.Bm25
