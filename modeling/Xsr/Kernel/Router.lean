import Xsr.Kernel.Header
import Xsr.Kernel.Content

/-!
# Router — the parser and verdict programs

`sk_router_parser` and `sk_router_verdict` over the maps they share. The
`counters` map is left out: both programs only increment it. The build
variants `XSR_FORWARDING_ONLY` and `SK_PROFILE_COMPONENTS` are not modelled.
-/

namespace Xsr.Kernel

/-- `struct sk_http_flow_state` -/
structure HttpFlowState where
  header : HeaderScan
  content : ContentScan
  classifier : ClassifierState

/-- `struct sk_route_entry`; `backend` is `flags & SK_ROUTER_FLAG_BACKEND`. -/
structure RouteEntry where
  clientCookie : UInt64
  clientSlot : Nat
  codingSlot : Nat
  mathSlot : Nat
  othersSlot : Nat
  qaSlot : Nat
  writingSlot : Nat
  backend : Bool
  deriving DecidableEq

/-- `struct sk_lifecycle_state`, the flag word as its three bits. -/
structure LifecycleState where
  responseBytesForwarded : Nat
  requestBytesProcessed : Nat
  requestForwarded : Bool
  requestIncomplete : Bool
  redirectFailed : Bool
  deriving DecidableEq

/-- `struct xdp_decision_rule` -/
structure DecisionRule where
  requireAny : Nat
  requireAll : Nat
  rejectAny : Nat
  modelId : Nat
  enabled : Bool

/-- The maps the two programs read and never write. -/
structure Policy where
  classifier : ClassifierMaps
  decisionRules : BpfMap Nat DecisionRule

/-- The maps the two programs write, and the routes the control process
installs. A cookie of an LRU map can also vanish between two runs. -/
structure World where
  flows : BpfMap UInt64 HttpFlowState
  decisions : BpfMap UInt64 Route
  routes : BpfMap UInt64 RouteEntry
  lifecycle : BpfMap UInt64 LifecycleState
  grams : QueryGrams

/-- The client's lifecycle entry, when there is one, updated by `f`. -/
def World.updateLifecycle (w : World) (cookie : UInt64) (f : LifecycleState → LifecycleState) :
    World :=
  match w.lifecycle cookie with
  | some l => { w with lifecycle := w.lifecycle.update cookie (f l) }
  | none => w

/-- The initial flow of `sk_router_parser`, set up in the per-CPU scratch
entry: `memset`, `line_start = 1`, `xdp_classifier_init`. -/
def initialFlow (m : ClassifierMaps) (g : QueryGrams) : QueryGrams × HttpFlowState :=
  let (g, classifier) := classifierInit m g .zero
  (g, ⟨.initial, .initial, classifier⟩)

/-- The flow entry the parser works on: the one in the map, else a fresh
one put there. -/
def World.openFlow (m : ClassifierMaps) (w : World) (cookie : UInt64) : World × HttpFlowState :=
  match w.flows cookie with
  | some flow => (w, flow)
  | none =>
      let (g, flow) := initialFlow m w.grams
      ({ w with grams := g, flows := w.flows.update cookie flow }, flow)

/-- The parser's test that the request is not there yet, or never will be. -/
def requestPending (h : HeaderScan) (skbLen : Nat) : Bool :=
  h.headerLen = 0 || h.invalid || h.requestLen = 0 || skbLen < h.requestLen
    || maxRequest < h.requestLen

/-- The body part of `sk_router_parser`: scan the content, finish the
signals. -/
def scanBody (m : ClassifierMaps) (skb : List UInt8) (flow : HttpFlowState) (g : QueryGrams) :
    QueryGrams × HttpFlowState :=
  let start := flow.header.headerLen
  let scanLen := subU32 flow.header.requestLen flow.header.headerLen
  let b := Lib.boundedLoop (scanContentCallback m skb start scanLen) scanLen 0
    ⟨flow.content, flow.classifier, g⟩
  let (g, classifier) := classifierFinish m b.grams b.classifier
  (g, ⟨flow.header, b.content, classifier⟩)

/-- `sk_router_parser` on the bytes assembled for a socket; the number is
its return value. -/
def skRouterParser (pol : Policy) (w : World) (cookie : UInt64) (skb : List UInt8) :
    World × Nat :=
  if ((w.routes cookie).map RouteEntry.backend) = some true then (w, skb.length)
  else
    let w := w.updateLifecycle cookie fun l => { l with requestIncomplete := false }
    let (w, flow) := w.openFlow pol.classifier cookie
    let flow := { flow with header := scanHeaders skb flow.header }
    if requestPending flow.header skb.length then
      let w := { w with flows := w.flows.update cookie flow }
      (w.updateLifecycle cookie fun l =>
        { l with requestBytesProcessed := skb.length, requestIncomplete := true }, 0)
    else
      let (g, flow) := scanBody pol.classifier skb flow w.grams
      let route := classifierRoute pol.classifier flow.classifier
      ({ w with
          grams := g
          flows := w.flows.update cookie flow
          decisions := w.decisions.update cookie route }, flow.header.requestLen)

/-! ## The verdict -/

/-- `xdp_decision_rule_matches` -/
def decisionRuleMatches (rule : DecisionRule) (signals : Nat) : Bool :=
  if !rule.enabled then false
  else if rule.requireAny ≠ 0 ∧ signals &&& rule.requireAny = 0 then false
  else if signals &&& rule.requireAll ≠ rule.requireAll then false
  else if signals &&& rule.rejectAny ≠ 0 then false
  else true

/-- `XDP_MAX_DECISION_RULES` -/
def maxDecisionRules : Nat := 16

/-- `xdp_decision_eval`: the first of the sixteen rules that matches, else
`XDP_MODEL_FALLBACK`. -/
def decisionEval (rules : BpfMap Nat DecisionRule) (signals : Nat) : Nat :=
  match (List.range maxDecisionRules).findSome? fun key =>
    (rules key).bind fun rule => if decisionRuleMatches rule signals then some rule.modelId else none
  with
  | some modelId => modelId
  | none => 0

/-- `model_for_route`: the route's `XDP_SIGNAL_DOMAIN_*` bit, evaluated. -/
def modelForRoute (rules : BpfMap Nat DecisionRule) (route : Route) : Nat :=
  decisionEval rules <| match route with
    | .coding => 1 <<< 0
    | .general => 1 <<< 1
    | .math => 1 <<< 2
    | .qa => 1 <<< 3
    | .writing => 1 <<< 4

/-- The slot of a model id `SK_MODEL_*`; `none` is the early `SK_DROP`. -/
def RouteEntry.modelSlot (entry : RouteEntry) (modelId : Nat) : Option Nat :=
  match modelId with
  | 1 => some entry.codingSlot
  | 2 => some entry.mathSlot
  | 3 => some entry.othersSlot
  | 4 => some entry.qaSlot
  | 5 => some entry.writingSlot
  | _ => none

/-- What a verdict run did: the slot it handed to `bpf_sk_redirect_map`, if
it got that far, and whether it returned `SK_PASS`. -/
structure Verdict where
  target : Option Nat
  pass : Bool
  deriving DecidableEq

/-- `classify_request` -/
def classifyRequest (w : World) (cookie : UInt64) : Route :=
  (w.decisions cookie).getD .general

/-- `sk_router_verdict`. `redirect slot` says whether `bpf_sk_redirect_map`
answers `SK_PASS` for that slot at this moment. -/
def skRouterVerdict (pol : Policy) (w : World) (redirect : Nat → Bool) (cookie : UInt64)
    (skbLen : Nat) : World × Verdict :=
  match w.routes cookie with
  | none => (w, ⟨none, false⟩)
  | some entry =>
      if entry.backend then
        if redirect entry.clientSlot then
          (w.updateLifecycle entry.clientCookie fun l =>
            { l with responseBytesForwarded := u64 (l.responseBytesForwarded + skbLen) },
            ⟨some entry.clientSlot, true⟩)
        else (w, ⟨some entry.clientSlot, false⟩)
      else
        let modelId := modelForRoute pol.decisionRules (classifyRequest w cookie)
        match entry.modelSlot modelId with
        | none => (w, ⟨none, false⟩)
        | some slot =>
            -- the request's state goes whether or not the redirect succeeds
            let w := { w with
              decisions := w.decisions.delete cookie
              flows := w.flows.delete cookie }
            if redirect slot then
              (w.updateLifecycle entry.clientCookie fun l => { l with requestForwarded := true },
                ⟨some slot, true⟩)
            else
              (w.updateLifecycle entry.clientCookie fun l => { l with redirectFailed := true },
                ⟨some slot, false⟩)

end Xsr.Kernel
