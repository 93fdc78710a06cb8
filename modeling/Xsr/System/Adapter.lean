import Xsr.System.Accumulation
import Xsr.Bm25.Oracle
import Xsr.Signals.Oracle
import Xsr.Student.Parity
import Xsr.Extraction.Messages

/-!
# Adapter — the kernel routes like the reference adapter

`XSRRoutingAdapter` routes the text `query_text` finds in a request with the
references: the policy walk for keyword signals, the frozen student for
intents. A run of the kernel sends every chat request of a client to the slot
of the adapter's route, where that text is the content of the first message.
-/

namespace Xsr.System

open Kernel Lib Signals Parsing Control Bm25 Extraction Policy Student Regex

/-! ## Chat requests -/

/-- A request whose body is the JSON text of the chat completion `body`, the
content of whose first message is the text `query_text` finds. -/
structure Asks (request : List UInt8) (body : Dict) (prompt : String) : Prop where
  chat : ∃ (style : Style) (model role : String) (messages : List (String × String)) (rest : Dict),
    requestBody model ((role, prompt) :: messages) rest = .dict body ∧
      request.drop (headerRun request).headerLen = encodeUtf8 (style.dumps (.dict body))
  query : Extraction.queryText body = some prompt

theorem asks_of_complete {request : List UInt8} {headerLen : Nat}
    (h : CompleteRequest request headerLen) {prompt : String} (style : Style)
    (model role : String) (messages : List (String × String)) (rest : Dict) {body : Dict}
    (hdict : requestBody model ((role, prompt) :: messages) rest = .dict body)
    (hbody : request.drop headerLen = encodeUtf8 (style.dumps (.dict body)))
    (hquery : Extraction.queryText body = some prompt) : Asks request body prompt := by
  have hrun := h.header [] h.covered
  rw [List.append_nil, List.take_length] at hrun
  exact ⟨⟨style, model, role, messages, rest, hdict, by rw [hrun, h.headerLen_eq, hbody]⟩, hquery⟩

/-- The prompt is what the scanner hands on. -/
theorem Asks.scored {request : List UInt8} {body : Dict} {prompt : String}
    (h : Asks request body prompt) :
    scoredBytes (request.drop (headerRun request).headerLen) = encodeUtf8 prompt.toList := by
  obtain ⟨style, model, role, messages, rest, hdict, hbody⟩ := h.chat
  rw [hbody, ← hdict, scoredBytes_eq]
  exact scored_requestBody style model (role, prompt) messages rest

/-- The slot of a chat request is that of its prompt. -/
theorem Asks.slot {request : List UInt8} {body : Dict} {prompt : String}
    (h : Asks request body prompt) (pol : Kernel.Policy) (entry : RouteEntry) :
    requestSlot pol entry request
      = routeSlot entry (promptRoute pol.classifier (encodeUtf8 prompt.toList)) := by
  rw [requestSlot, requestRoute, h.scored]

/-- The prompt of a request is no longer than a request. -/
theorem Asks.length_le {request : List UInt8} {body : Dict} {prompt : String}
    (h : Asks request body prompt) (hrequest : IsRequest request) :
    (encodeUtf8 prompt.toList).length ≤ maxRequest := by
  obtain ⟨headerLen, hcomplete⟩ := hrequest
  rw [← h.scored]
  refine (length_scoredBytes_le _).trans ?_
  rw [List.length_drop]
  exact (Nat.sub_le _ _).trans hcomplete.fits

/-- A verdict that sends its request to the slot of the route `name`. -/
def Redirect.RoutedTo (routes : BpfMap UInt64 RouteEntry) (r : Redirect) (name : String) : Prop :=
  ∃ entry route, routes r.cookie = some entry ∧ routeName route = name ∧
    r.target = some (routeSlot entry route)

section Runs
variable {pol : Kernel.Policy} {rules : BpfMap Nat DecisionRule}
  {requests : UInt64 → List (List UInt8)} {start node : Node} {out : List (Option Redirect)}

/-- A redirected request is one of its client's. -/
theorem Opened.redirect_mem (hrules : populateDecisionRules rules = some pol.decisionRules)
    (h : Opened requests start) (run : Run (Step pol) start out node)
    (hd : TokensDistinct node.world.grams) {r : Redirect} (hr : some r ∈ out) :
    IsRequest r.request := by
  obtain ⟨-, -, todo, -, htodo⟩ := h.run hrules run hd
  refine h.complete r.cookie r.request ?_
  rw [htodo]
  refine List.mem_append_left _ (List.mem_filterMap.mpr ⟨some r, hr, ?_⟩)
  rw [Option.bind_some, if_pos rfl]

/-- **A chat request in any run** goes to the slot of its prompt's route. -/
theorem Opened.chat (hrules : populateDecisionRules rules = some pol.decisionRules)
    (h : Opened requests start) (run : Run (Step pol) start out node)
    (hd : TokensDistinct node.world.grams) {r : Redirect} (hr : some r ∈ out)
    {body : Dict} {prompt : String} (hasks : Asks r.request body prompt) :
    r.RoutedTo start.world.routes
      (routeName (promptRoute pol.classifier (encodeUtf8 prompt.toList))) := by
  obtain ⟨-, hisolated, -⟩ := h.run hrules run hd
  obtain ⟨entry, hentry, htarget⟩ := hisolated r hr
  exact ⟨entry, _, hentry, rfl, htarget.trans (congrArg some (hasks.slot pol entry))⟩

end Runs

/-! ## A run of one request -/

section Single
variable {pol : Kernel.Policy} (hn : pol.classifier.modules.ngram = false)
include hn

/-- Without the n-gram signal the body scan leaves the grams alone. -/
theorem scanBody_grams (skb : List UInt8) (flow : HttpFlowState) (g : QueryGrams) :
    (scanBody pol.classifier skb flow g).1 = g := by
  have hbytes : ∀ (bytes : List UInt8) (g : QueryGrams) (s : ClassifierState),
      (classifierScoreChars pol.classifier g s bytes).1 = g := by
    intro bytes
    induction bytes with
    | nil => exact fun _ _ => rfl
    | cons c bytes ih =>
        intro g s
        rw [classifierScoreChars, ih]
        simp only [classifierScoreChar, hn, Bool.false_eq_true, if_false]
  have hfinish : ∀ (g : QueryGrams) (s : ClassifierState),
      (classifierFinish pol.classifier g s).1 = g := by
    intro g s
    simp only [classifierFinish, hn, Bool.false_eq_true, if_false]
  refine (hfinish _ _).trans ?_
  refine boundedLoop_induction (P := fun t : BodyScan => t.grams = g) ?_ _ _ _ rfl
  intro i t ht
  unfold scanContentCallback
  split_ifs
  · exact ht
  · split
    · exact ht
    · exact (hbytes _ _ _).trans ht

/-- **Without the n-gram signal** no run of the parser touches the grams. -/
theorem parser_grams {w : World} {cookie : UInt64} (hc : IsClient w cookie) (skb : List UInt8) :
    (skRouterParser pol w cookie skb).1.grams = w.grams := by
  have hopened : (openedFlow pol.classifier w cookie).1 = w.grams := by
    unfold openedFlow
    cases w.flows cookie with
    | some flow => rfl
    | none => simp only [initialFlow, classifierInit, hn, Bool.false_eq_true, if_false]
  cases hp : requestPending (scannedFlow pol w cookie skb).header skb.length with
  | true => rw [(parser_pending pol hc hp).2.2.1, hopened]
  | false => rw [(parser_complete pol hc hp).2.2.1, hopened, scanBody_grams hn]

/-- The run of a client with one request. -/
theorem oneClient_run {request : List UInt8} {headerLen : Nat}
    (h : CompleteRequest request headerLen) :
    ∃ (out : List (Option Redirect)) (node : Node) (r : Redirect),
      Opened (fun cookie => if cookie = 7 then [request] else []) (oneClient [request]) ∧
      Run (Step pol) (oneClient [request]) out node ∧ TokensDistinct node.world.grams ∧
      some r ∈ out ∧ r.request = request := by
  have hopen : Opened (fun cookie => if cookie = 7 then [request] else []) (oneClient [request]) :=
    oneClient_opened fun r hr => ⟨headerLen, (List.mem_singleton.mp hr) ▸ h⟩
  have hclient : IsClient (oneClient [request]).world 7 := by
    simp [IsClient, oneClient, clientEntry]
  have hready : Ready pol (request ++ []) 7 (oneClient [request]).world :=
    Fresh.ready ⟨.of_empty fun _ => rfl, rfl⟩ pol _
  have hgrams := parser_grams hn hclient ((request ++ []).take request.length)
  have hdistinct : TokensDistinct (oneClient [request]).world.grams :=
    fun i j _ hj => absurd hj (Nat.not_lt_zero j)
  have hresult := (hready.call_complete h hclient (Nat.le_refl _) (by rw [hgrams]; exact hdistinct)).1
  rw [List.append_nil] at hresult hgrams
  have hne : request.length ≠ 0 := by
    have hpos := h.pos
    have hcovered := h.covered
    omega
  have hparse := @Step.parse pol (oneClient [request]) 7 request request.length
    (by simp [oneClient]) (List.ne_nil_of_length_pos (Nat.pos_of_ne_zero hne))
  have hverdict := @Step.verdict pol ((oneClient [request]).parse pol 7 request request.length) 7
    request request.length
    (by simp only [Node.parse, Function.update_self, hresult, if_neg hne]) fun _ => true
  refine ⟨_, _, _, hopen, (Run.single hparse).snoc hverdict, ?_,
    List.mem_append_right _ (List.mem_singleton_self _), List.take_length⟩
  rw [Node.verdict, (verdict_frame pol _ _ 7 request.length).2, Node.parse, hgrams]
  exact hdistinct

end Single

/-- The body of `composeRequest`, as a dictionary. -/
def composeChat : Dict := conversation "MoM" [("user", "compose")]

theorem composeRequest_asks : Asks composeRequest composeChat "compose" := by
  refine asks_of_complete composeRequest_complete ⟨true, false⟩ "MoM" "user" [] [] rfl ?_ rfl
  show composeBody = _
  decide +kernel

/-- The prompt of `XSRRoutingAdapter.route`. -/
def adapterPrompt (queryInput : Dict) : Except PyError String :=
  required (Extraction.queryText queryInput)
    "query input requires a string 'query', 'prompt', or user message"

theorem Asks.adapterPrompt {request : List UInt8} {body : Dict} {prompt : String}
    (h : Asks request body prompt) : adapterPrompt body = .ok prompt := by
  rw [System.adapterPrompt, h.query]
  rfl

/-! ## BM25 policies -/

/-- With the BM25 signal alone the route is that of its scan. -/
theorem promptRoute_bm25 {m : ClassifierMaps} (hm : m.modules = ⟨false, false, true⟩)
    (prompt : List UInt8) :
    promptRoute m prompt = (bm25RoutePriority m.bm25 (scorePrompt m.bm25 prompt)).2 := by
  have hbyte : ∀ (p : Prompt) (c : UInt8), bm25ScoreChar m.bm25 p.bm25 c = (p.byte m c).bm25 := by
    intro p c
    simp only [Prompt.byte, hm, if_true]
  have hstate : ((prompt.foldl (Prompt.byte m) (.initial m)).finished m).bm25
      = scorePrompt m.bm25 prompt := by
    simp only [Prompt.finished, hm, if_true, ← List.foldl_hom Prompt.bm25 hbyte, scorePrompt]
    rw [Prompt.initial, hm]
    rfl
  simp only [promptRoute, classifierRoute, hm, hstate, Bool.false_eq_true, if_false, if_true,
    false_and]
  split_ifs with hgeneral
  · rfl
  · exact (not_not.mp fun h => hgeneral ⟨h, Nat.zero_le _⟩).symm

section Bm25Runs
variable {u : Unicode} {weight : TermStats → Int} {lines : List (List Char)}
  (P : Bm25Policy u (termWeigher u weight lines)) {F : Type} (x : Floats F)

/-- `XSRRoutingAdapter.route` for the method `bm25`. -/
def adapterBm25 (queryInput : Dict) : Except PyError String := do
  let prompt ← adapterPrompt queryInput
  expectedRoute u (fun _ => false) (x.ruleMatches u prompt.toList) P.walk

/-- **The BM25 router is the adapter.** In every run under an installed BM25
policy that ranks its signals alike for both, each chat request whose prompt
the policy supports, and whose scores no rounding moves across a threshold,
goes to the slot of the adapter's route. -/
theorem bm25_runs {pol : Kernel.Policy} (hmodules : pol.classifier.modules = ⟨false, false, true⟩)
    (hmaps : pol.classifier.bm25 = P.maps) (hranks : RanksAgree u P.policy)
    {rules : BpfMap Nat DecisionRule} (hrules : populateDecisionRules rules = some pol.decisionRules)
    {requests : UInt64 → List (List UInt8)} {start node : Node} {out : List (Option Redirect)}
    (hopen : Opened requests start) (run : Run (Step pol) start out node)
    (htokens : TokensDistinct node.world.grams) {r : Redirect} (hr : some r ∈ out)
    {body : Dict} {prompt : String} (hasks : Asks r.request body prompt)
    (hsupported : Supported P prompt.toList)
    (halike : ∀ entry ∈ P.routes, ComparesAlike u weight x prompt.toList entry) :
    ∃ name, adapterBm25 P x body = .ok name ∧ r.RoutedTo start.world.routes name := by
  have hrequest := hopen.redirect_mem hrules run htokens hr
  have hroute := route_prompt P x hranks hsupported halike (hasks.length_le hrequest)
    fun _ => false
  have hrouted := hopen.chat hrules run htokens hr hasks
  rw [promptRoute_bm25 hmodules, hmaps] at hrouted
  exact ⟨_, (bind_of_ok hasks.adapterPrompt).trans hroute, hrouted⟩

end Bm25Runs

/-- One request under the policy of one keyword. -/
theorem bm25_runs_compose :
    ∃ P : Bm25Policy Unicode.asciiTables (termWeigher Unicode.asciiTables composeWeight []),
      P.policy = composePolicy ∧ ∃ (r : Redirect) (name : String), r.request = composeRequest ∧
        adapterBm25 P composeFloats composeChat = .ok name ∧
        r.RoutedTo (oneClient [composeRequest]).world.routes name := by
  obtain ⟨P, hpolicy, hranks, hsupported, halike⟩ := compose_supported
  obtain ⟨out, node, r, hopen, run, htokens, hr, hrequest⟩ :=
    oneClient_run (show (bm25Only P.maps).classifier.modules.ngram = false from rfl)
      composeRequest_complete
  have hrules : populateDecisionRules (fun _ => none) = some (bm25Only P.maps).decisionRules := rfl
  obtain ⟨name, hname, hrouted⟩ := bm25_runs P composeFloats rfl rfl hranks hrules hopen run
    htokens hr (by rw [hrequest]; exact composeRequest_asks) hsupported halike
  exact ⟨P, hpolicy, r, name, hrequest, hname, hrouted⟩

/-! ## N-gram policies -/

/-- With the n-gram signal alone the route is that of its matches. -/
theorem promptRoute_ngram {m : ClassifierMaps} (hm : m.modules = ⟨false, true, false⟩)
    (prompt : List Char) :
    promptRoute m (encodeUtf8 prompt)
      = (jaccardRoutePriority m.jaccard (foundOf m.jaccard prompt)).2 := by
  have hbyte : ∀ (p : Prompt) (c : UInt8), p.ngram.byte m.jaccard c = (p.byte m c).ngram :=
    fun p c => rfl
  have hmatches : (((encodeUtf8 prompt).foldl (Prompt.byte m)
      (.initial m)).finished m).jaccard.toJaccardMatches = foundOf m.jaccard prompt := by
    rw [Prompt.finished, ← List.foldl_hom Prompt.ngram hbyte, foundOf, Prompt.initial]
  simp only [promptRoute, classifierRoute, hm, hmatches, Bool.false_eq_true, if_false, if_true,
    false_and]

section NgramRuns
variable {u : Unicode} (P : JaccardPolicy u)

/-- `XSRRoutingAdapter.route` for the method `ngram`. -/
def adapterNgram (queryInput : Dict) : Except PyError String := do
  let prompt ← adapterPrompt queryInput
  expectedRoute u (Signals.ruleMatches u P.caseSensitive prompt.toList) (fun _ => false) P.walk

/-- **The n-gram router is the adapter.** In every run under an installed
n-gram policy that ranks its signals alike for both, compiled with the word
characters of the interpreter, each chat request whose prompt both compare
alike goes to the slot of the adapter's route. -/
theorem ngram_runs {pol : Kernel.Policy} (hmodules : pol.classifier.modules = ⟨false, true, false⟩)
    (hmaps : pol.classifier.jaccard = P.maps) (hranks : RanksAgree u P.policy)
    (hwords : SameWordChars u P.maps)
    {rules : BpfMap Nat DecisionRule} (hrules : populateDecisionRules rules = some pol.decisionRules)
    {requests : UInt64 → List (List UInt8)} {start node : Node} {out : List (Option Redirect)}
    (hopen : Opened requests start) (run : Run (Step pol) start out node)
    (htokens : TokensDistinct node.world.grams) {r : Redirect} (hr : some r ∈ out)
    {body : Dict} {prompt : String} (hasks : Asks r.request body prompt)
    (hcompares : Compares P prompt.toList) :
    ∃ name, adapterNgram P body = .ok name ∧ r.RoutedTo start.world.routes name := by
  have hroute := route_text P hranks hwords hcompares fun _ => false
  have hrouted := hopen.chat hrules run htokens hr hasks
  rw [promptRoute_ngram hmodules, hmaps] at hrouted
  exact ⟨_, (bind_of_ok hasks.adapterPrompt).trans hroute, hrouted⟩

end NgramRuns

/-- The n-gram signal alone, with a policy, under the rules the control
process installs. -/
def ngramPolicy (m : JaccardMaps) : Kernel.Policy where
  classifier := { ngramOnly.classifier with jaccard := m }
  decisionRules := installedPolicy.decisionRules

/-- One request under the policy of one keyword. -/
theorem ngram_runs_compose : ∃ (r : Redirect) (name : String), r.request = composeRequest ∧
    adapterNgram composing composeChat = .ok name ∧
      r.RoutedTo (oneClient [composeRequest]).world.routes name := by
  obtain ⟨hranks, hwords, hcompares⟩ := composing_compares
  have hrules : populateDecisionRules (fun _ => none)
      = some (ngramPolicy composing.maps).decisionRules := rfl
  -- the parser sees the whole request at once, then the verdict
  have hresult : (skRouterParser (ngramPolicy composing.maps) (oneClient [composeRequest]).world 7
      (composeRequest.take 95)).2 = 95 := by decide +kernel
  have hparse := @Step.parse (ngramPolicy composing.maps) (oneClient [composeRequest]) 7
    composeRequest 95 rfl (by decide)
  have hverdict := @Step.verdict (ngramPolicy composing.maps)
    ((oneClient [composeRequest]).parse (ngramPolicy composing.maps) 7 composeRequest 95) 7
    composeRequest 95 (by simp only [Node.parse, Function.update_self, hresult]; rfl) fun _ => true
  obtain ⟨name, hname, hrouted⟩ := ngram_runs composing rfl rfl hranks hwords hrules
    (oneClient_opened (by simpa using ⟨25, composeRequest_complete⟩))
    ((Run.single hparse).snoc hverdict) (by decide +kernel)
    (List.mem_append_right _ (List.mem_singleton_self _)) composeRequest_asks hcompares
  exact ⟨_, name, rfl, hname, hrouted⟩

/-! ## The intent student -/

/-- `INTENT_ROUTE_BY_ID` with its default `others`. -/
def intentRouteById : Nat → String
  | 3 => "coding"
  | 9 => "math"
  | _ => "others"

/-- `XSRRoutingAdapter.route` for the method `intent`, on a model that has
been read. -/
def adapterIntent (model : QuantizedModel) (queryInput : Dict) : Except PyError String := do
  let prompt ← adapterPrompt queryInput
  let scores ← (integerScores prompt.toList model.weights model.bias).mapError .valueError
  return intentRouteById (predict scores)

/-- The distilled state of a prompt. -/
theorem foldl_byte_distill {m : ClassifierMaps} (hm : m.modules.distill = true) (bytes : List UInt8) :
    (bytes.foldl (Prompt.byte m) (.initial m)).distill = distillFeed m.distill bytes := by
  have hbyte : ∀ (p : Prompt) (c : UInt8),
      distillScoreChar m.distill p.distill c = (p.byte m c).distill := by
    intro p c
    simp only [Prompt.byte, hm, if_true]
  rw [← List.foldl_hom Prompt.distill hbyte, Prompt.initial, distillFeed, if_pos hm]

/-- **The intent of a prompt** is the adapter's. -/
theorem distillRoute_adapter {file : List UInt8} {m : DistillMaps}
    (hload : (populateDistillModel m file).2 = .loaded)
    (hweights : ∀ key, key < distillBuckets → ∀ c,
      -127 ≤ fileWeights file key c ∧ fileWeights file key c ≤ 127) (prompt : String) :
    ∃ model scores, readDeploymentModel file = .ok model ∧
      integerScores prompt.toList model.weights model.bias = .ok scores ∧
      (distillRoute (populateDistillModel m file).1 (distillFeed (populateDistillModel m file).1
        (encodeUtf8 prompt.toList))).1 = true ∧
      intentRouteById (predict scores) = routeName (distillRoute (populateDistillModel m file).1
        (distillFeed (populateDistillModel m file).1 (encodeUtf8 prompt.toList))).2 := by
  have hfile := (populateDistillModel_loaded m file).mp hload
  have hinstalled := hfile.installed m
  obtain ⟨model, hread, hbias, hrows, hcolumns, hentry⟩ := readDeploymentModel_accepted hfile
  have hscore : (distillFeed (populateDistillModel m file).1 (encodeUtf8 prompt.toList)).score
      = exactScore file (encodeUtf8 prompt.toList) := funext fun c =>
    (withinBound_of_weights hfile hinstalled (fun key hkey c => (hweights key hkey c).1) _ c).1
  have hscores := integerScores_eq hfile hbias hrows hcolumns hentry prompt.toList
  have hpredict := predict_eq (firstMax_scan (exactScore file (encodeUtf8 prompt.toList)))
  generalize hbest : (List.finRange 14).tail.foldl
    (distillBetter (exactScore file (encodeUtf8 prompt.toList))) 0 = best at hpredict
  have hintent : distillIntent (populateDistillModel m file).1
      (distillFeed (populateDistillModel m file).1 (encodeUtf8 prompt.toList)) = (true, best) := by
    rw [distillIntent, hinstalled.config, hscore, ← hbest]
    rfl
  refine ⟨model, _, hread, hscores, by rw [distillRoute, hintent], ?_⟩
  rw [hpredict, distillRoute, hintent]
  clear hbest hpredict hintent
  revert best
  decide

/-- **The intent router is the adapter.** In every run with the intent
profile and a model the loader accepts, with weights in [-127, 127], each
chat request goes to the slot of the adapter's route. -/
theorem intent_runs {pol : Kernel.Policy} (hmodules : pol.classifier.modules = ⟨true, false, false⟩)
    {file : List UInt8} {m : DistillMaps} (hload : (populateDistillModel m file).2 = .loaded)
    (hmaps : pol.classifier.distill = (populateDistillModel m file).1)
    (hweights : ∀ key, key < distillBuckets → ∀ c,
      -127 ≤ fileWeights file key c ∧ fileWeights file key c ≤ 127)
    {rules : BpfMap Nat DecisionRule} (hrules : populateDecisionRules rules = some pol.decisionRules)
    {requests : UInt64 → List (List UInt8)} {start node : Node} {out : List (Option Redirect)}
    (hopen : Opened requests start) (run : Run (Step pol) start out node)
    (htokens : TokensDistinct node.world.grams) {r : Redirect} (hr : some r ∈ out)
    {body : Dict} {prompt : String} (hasks : Asks r.request body prompt) :
    ∃ model name, readDeploymentModel file = .ok model ∧ adapterIntent model body = .ok name ∧
      r.RoutedTo start.world.routes name := by
  obtain ⟨model, scores, hread, hscores, henabled, hintent⟩ :=
    distillRoute_adapter hload hweights prompt
  have hrouted := hopen.chat hrules run htokens hr hasks
  have hstate := foldl_byte_distill (m := pol.classifier) (by rw [hmodules])
    (encodeUtf8 prompt.toList)
  rw [← hmaps, ← hstate] at henabled hintent
  have hroute : promptRoute pol.classifier (encodeUtf8 prompt.toList)
      = (distillRoute pol.classifier.distill ((encodeUtf8 prompt.toList).foldl
          (Prompt.byte pol.classifier) (.initial pol.classifier)).distill).2 := by
    simp only [promptRoute, classifierRoute, hmodules, Prompt.finished, henabled, if_true,
      Bool.false_eq_true, if_false, true_and]
    split_ifs with hgeneral
    · rfl
    · exact (not_not.mp hgeneral).symm
  have hadapter : adapterIntent model body = .ok (intentRouteById (predict scores)) := by
    rw [adapterIntent, hasks.adapterPrompt]
    show (integerScores prompt.toList model.weights model.bias).mapError PyError.valueError >>= _ = _
    rw [hscores]
    rfl
  exact ⟨model, _, hread, hadapter, by rw [hintent, ← hroute]; exact hrouted⟩

/-- The intent signal alone, with a model file. -/
def intentOnly (file : List UInt8) : Kernel.Policy where
  classifier := { ngramOnly.classifier with
    modules := ⟨true, false, false⟩
    distill := (populateDistillModel emptyDistillMaps file).1 }
  decisionRules := installedPolicy.decisionRules

/-- The policy of a file installs what the loader makes of it. -/
theorem intentOnly_eq (file : List UInt8) :
    (intentOnly file).classifier.modules = ⟨true, false, false⟩ ∧
      (intentOnly file).classifier.distill = (populateDistillModel emptyDistillMaps file).1 ∧
      populateDecisionRules (fun _ => none) = some (intentOnly file).decisionRules :=
  ⟨rfl, rfl, rfl⟩

/-- One request under weights that tell classes and buckets apart. -/
theorem intent_runs_compose : ∃ (model : QuantizedModel) (r : Redirect) (name : String),
    readDeploymentModel stepFile = .ok model ∧ r.request = composeRequest ∧
      adapterIntent model composeChat = .ok name ∧
      r.RoutedTo (oneClient [composeRequest]).world.routes name := by
  obtain ⟨hmodules, hmaps, hrules⟩ := intentOnly_eq stepFile
  obtain ⟨out, node, r, hopen, run, htokens, hr, hrequest⟩ :=
    oneClient_run (by rw [hmodules]) composeRequest_complete
  obtain ⟨model, name, hmodel, hname, hrouted⟩ := intent_runs hmodules (stepFile_loaded _) hmaps
    (fun key hkey c => by rw [stepFile_weights hkey c]; omega) hrules hopen run htokens hr
    (by rw [hrequest]; exact composeRequest_asks)
  exact ⟨model, r, name, hmodel, hrequest, hname, hrouted⟩

end Xsr.System
