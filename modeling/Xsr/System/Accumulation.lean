import Xsr.System.Isolation
import Xsr.Parsing.SizeBoundary
import Xsr.Bm25.WordByWord
import Xsr.Extraction.Expansion

/-!
# Accumulation — the BM25 scores of every accepted request

`Serves` is a client socket among everything else: parser runs on any part
of its unread bytes, verdicts, and changes of the other entries. Between
two requests its flow has scored nothing, so an accepted request leaves the
scores of its own prompt, and a prompt no longer than a request is scored
exactly.
-/

namespace Xsr.System

open Kernel Lib Signals Parsing Control Bm25 Extraction Policy

/-! ## The classifier's BM25 state -/

section Classifier
variable (m : ClassifierMaps)

theorem classifierScoreChars_bm25 (hm : m.modules.bm25 = true) (g : QueryGrams)
    (s : ClassifierState) (cs : List UInt8) :
    (classifierScoreChars m g s cs).2.bm25 = cs.foldl (bm25ScoreChar m.bm25) s.bm25 := by
  induction cs generalizing g s with
  | nil => rfl
  | cons c cs ih =>
      have hchar : (classifierScoreChar m g s c).2.bm25 = bm25ScoreChar m.bm25 s.bm25 c := by
        simp only [classifierScoreChar, if_pos hm]
      rw [classifierScoreChars, List.foldl_cons, ← hchar]
      exact ih _ _

/-- **The body scan** of a flow that has scored nothing scores the prompt. -/
theorem scanBody_bm25 (hm : m.modules.bm25 = true) {flow : HttpFlowState}
    (hcontent : flow.content = .initial) (hbm25 : flow.classifier.bm25 = bm25Init)
    (skb : List UInt8) (g : QueryGrams) (hle : flow.header.headerLen ≤ flow.header.requestLen)
    (hlen : flow.header.requestLen ≤ skb.length) (hmax : flow.header.requestLen ≤ maxRequest) :
    (scanBody m skb flow g).2.classifier.bm25 = scorePrompt m.bm25
      (scoredBytes (bodyOf skb flow.header.headerLen flow.header.requestLen)) := by
  simp only [scanBody, bodyLoop_eq_scan m skb hle hlen hmax, bodyScan_eq, classifierFinish,
    if_pos hm, classifierScoreChars_bm25 m hm, hcontent, hbm25]
  rw [scoredBytes_eq]
  rfl

end Classifier

/-! ## A client socket -/

/-- A request the parser accepted: the bytes it was given, its result, and
the flow it left. -/
structure Accepted where
  skb : List UInt8
  length : Nat
  flow : Option HttpFlowState

/-- The body of an accepted request, behind the header its flow has read. -/
def Accepted.body (a : Accepted) (flow : HttpFlowState) : List UInt8 :=
  bodyOf a.skb flow.header.headerLen a.length

/-- One step as a client socket sees it. Its unread bytes hold all that will
arrive, and the parser gets any part of them; a verdict needs the entry of
the client; everything else may change, and the flow may be evicted. -/
inductive Serves (pol : Kernel.Policy) (cookie : UInt64) :
    World × Connection → Option Accepted → World × Connection → Prop where
  | parse {w : World} {unread : List UInt8} (client : IsClient w cookie) (m : Nat) :
      Serves pol cookie (w, ⟨unread, none⟩)
        (if (skRouterParser pol w cookie (unread.take m)).2 = 0 then none
          else some ⟨unread.take m, (skRouterParser pol w cookie (unread.take m)).2,
            (skRouterParser pol w cookie (unread.take m)).1.flows cookie⟩)
        ((skRouterParser pol w cookie (unread.take m)).1,
          ⟨unread, if (skRouterParser pol w cookie (unread.take m)).2 = 0 then none
            else some (skRouterParser pol w cookie (unread.take m)).2⟩)
  | verdict {w : World} {unread : List UInt8} {n : Nat} {entry : RouteEntry}
      (route : w.routes cookie = some entry) (client : entry.backend = false)
      (redirect : Nat → Bool) :
      Serves pol cookie (w, ⟨unread, some n⟩) none
        ((skRouterVerdict pol w redirect cookie n).1, ⟨unread.drop n, none⟩)
  | others {w w' : World} {conn : Connection}
      (kept : w'.flows cookie = w.flows cookie ∨ w'.flows cookie = none) :
      Serves pol cookie (w, conn) none (w', conn)

/-- The flow of a socket with no message waiting has scored nothing yet. -/
def Unscored (cookie : UInt64) (s : World × Connection) : Prop :=
  s.2.framed = none → ∀ flow, s.1.flows cookie = some flow →
    flow.content = .initial ∧ flow.classifier.bm25 = bm25Init ∧
      ∃ k, k ≤ maxHeader ∧ flow.header = headerRun (s.2.unread.take k)

/-- A body is scored exactly: no part of it is decoded to more bytes, `n` of
the decoded bytes close at most `(n + 1) / 2` tokens, and the scores are the
sums of the tokens' weights. -/
structure ScoredExactly (T : WeightTable) (m : Bm25Maps) (body : List UInt8) (s : Bm25State) :
    Prop where
  decoded : ∀ k, (scoredBytes (body.take k)).length ≤ k
  content : ∀ text inside behind, body = text ++ inside ++ behind → OpensContent text →
    (scoredBytes (text ++ inside)).length ≤ inside.length
  tokens : ∀ n, (closedTokens m ((scoredBytes body).take n)).length ≤ (n + 1) / 2
  exact : ExactScores T (closedTokens m (scoredBytes body)) s

/-- What a request's length is enough for. -/
theorem scoredExactly {T : WeightTable} {config : Bm25Config} {m : Bm25Maps}
    (hconfig : m.config = some config) (hterms : m.terms = T.terms) {body : List UInt8}
    (hlen : body.length ≤ maxRequest) :
    ScoredExactly T m body (scorePrompt m (scoredBytes body)) := by
  refine ⟨fun k => ?_, fun text inside _ _ hopens => hopens.length_le inside, fun n => ?_, ?_⟩
  · exact (length_scoredBytes_le _).trans (List.length_take_le _ _)
  · refine (length_closedTokens m _).trans (Nat.div_le_div_right (Nat.succ_le_succ ?_))
    exact List.length_take_le _ _
  · exact scorePrompt_exact hconfig hterms ((length_scoredBytes_le body).trans hlen)

section Steps
variable {pol : Kernel.Policy} {cookie : UInt64}

/-- The flow of a parser run before its body scan. -/
theorem Unscored.scanned {w : World} {unread : List UInt8}
    (h : Unscored cookie (w, ⟨unread, none⟩)) (hm : pol.classifier.modules.bm25 = true)
    (skb : List UInt8) :
    (scannedFlow pol w cookie skb).content = .initial ∧
      (scannedFlow pol w cookie skb).classifier.bm25 = bm25Init := by
  unfold scannedFlow openedFlow
  cases hflow : w.flows cookie with
  | some flow => exact ⟨(h rfl flow hflow).1, (h rfl flow hflow).2.1⟩
  | none =>
      refine ⟨rfl, ?_⟩
      simp only [initialFlow, classifierInit, if_pos hm]

theorem Unscored.resumed {w : World} {unread : List UInt8}
    (h : Unscored cookie (w, ⟨unread, none⟩)) (hc : IsClient w cookie) :
    Resumed unread cookie w :=
  ⟨hc, fun flow hflow => (h rfl flow hflow).2.2⟩

end Steps

/-- An accepted request left the exact scores of its body in its flow. -/
def Accepted.Exact (T : WeightTable) (m : Bm25Maps) (a : Accepted) : Prop :=
  ∃ flow, a.flow = some flow ∧ flow.header.headerLen ≤ a.length ∧ a.length ≤ a.skb.length ∧
    ScoredExactly T m (a.body flow) flow.classifier.bm25

section Runs
variable {u : Unicode} {weight : TermStats → Int} {lines : List (List Char)}
  (L : LoadedBm25 u weight lines) {pol : Kernel.Policy} {cookie : UInt64}

/-- **A parser run**: a pending request scores nothing, a complete one is
scored exactly. -/
theorem Unscored.parse {T : WeightTable} (hterms : L.maps.terms = T.terms)
    (hmaps : pol.classifier.bm25 = L.maps) (hmodule : pol.classifier.modules.bm25 = true)
    {w : World} {unread : List UInt8} (h : Unscored cookie (w, ⟨unread, none⟩))
    (client : IsClient w cookie) (m : Nat) :
    ((skRouterParser pol w cookie (unread.take m)).2 = 0 →
      Unscored cookie ((skRouterParser pol w cookie (unread.take m)).1, ⟨unread, none⟩)) ∧
    ((skRouterParser pol w cookie (unread.take m)).2 ≠ 0 →
      Accepted.Exact T L.maps ⟨unread.take m, (skRouterParser pol w cookie (unread.take m)).2,
        (skRouterParser pol w cookie (unread.take m)).1.flows cookie⟩) := by
  have hresumed := h.resumed client
  obtain ⟨hcontent, hbm25⟩ := h.scanned hmodule (unread.take m)
  cases hp : requestPending (scannedFlow pol w cookie (unread.take m)).header
      (unread.take m).length with
  | true =>
      obtain ⟨hzero, hleft, -⟩ := parser_pending pol client hp
      refine ⟨fun _ _ flow hflow => ?_, fun hpos => absurd hzero hpos⟩
      rw [hleft] at hflow
      obtain rfl := Option.some.inj hflow
      obtain ⟨k, -, hk, hheader⟩ := hresumed.scanned pol m
      exact ⟨hcontent, hbm25, k, hk, hheader⟩
  | false =>
      obtain ⟨hresult, -, -, hleft, -⟩ := parser_complete pol client hp
      have hpos : (skRouterParser pol w cookie (unread.take m)).2 ≠ 0 := by
        have hpending := hp
        simp only [requestPending, Bool.or_eq_false_iff, decide_eq_false_iff_not] at hpending
        rw [hresult]
        exact hpending.1.1.2
      have hdelimits := hresumed.delimits pol (Nat.pos_of_ne_zero hpos)
      have hle := hdelimits.sum ▸ Nat.le_add_right _ _
      have hwithin := hdelimits.within
      have hfits := hdelimits.fits
      rw [hresult] at hle hwithin hfits
      refine ⟨fun hzero => absurd hzero hpos, fun _ => ?_⟩
      rw [hresult, hleft]
      refine ⟨_, rfl, hle, hwithin, ?_⟩
      rw [scanBody_bm25 pol.classifier hmodule hcontent hbm25 _ _ hle hwithin hfits, hmaps]
      refine scoredExactly L.maps_ok.1 hterms ?_
      refine le_trans ?_ hfits
      rw [Accepted.body, bodyOf, List.length_drop, List.length_take]
      exact (Nat.sub_le _ _).trans (Nat.min_le_left _ _)

/-- **BM25 accumulation is exact** for every request the parser accepts in
any run: decoding never yields more bytes than it reads, `n` of them close
at most `(n + 1) / 2` tokens, and the scores are the sums of the tokens'
weights, without overflow. -/
theorem bm25_accumulation_exact (hmaps : pol.classifier.bm25 = L.maps)
    (hmodule : pol.classifier.modules.bm25 = true) {rules : BpfMap Nat DecisionRule}
    (hrules : populateDecisionRules rules = some pol.decisionRules) {w : World}
    {stream : List UInt8} (hnew : w.flows cookie = none) {s : World × Connection}
    {accepted : List (Option Accepted)}
    (run : Run (Serves pol cookie) (w, ⟨stream, none⟩) accepted s) :
    ∃ T : WeightTable, T.rows = L.header.terms ∧
      ∀ a, some a ∈ accepted → a.Exact T L.maps := by
  obtain ⟨-, -, T, hrows, hterms⟩ := L.maps_ok
  have htrace := run.trace (I := Unscored cookie)
    (P := fun label => ∀ a, label = some a → a.Exact T L.maps)
    (fun _ flow hflow => by rw [hnew] at hflow; cases hflow) ?_
  · exact ⟨T, hrows, fun a ha => htrace.2 _ ha a rfl⟩
  · intro s label s' hs hstep
    cases hstep with
    | @parse w unread client m =>
        obtain ⟨hpending, hcomplete⟩ := hs.parse L hterms hmaps hmodule client m
        by_cases hzero : (skRouterParser pol w cookie (unread.take m)).2 = 0
        · rw [if_pos hzero, if_pos hzero]
          exact ⟨hpending hzero, fun a h => by cases h⟩
        · rw [if_neg hzero, if_neg hzero]
          refine ⟨(fun h => by cases h), fun a h => ?_⟩
          obtain rfl := Option.some.inj h
          exact hcomplete hzero
    | verdict route client redirect =>
        refine ⟨fun _ flow hflow => ?_, fun a h => by cases h⟩
        rw [verdict_flow hrules route client] at hflow
        cases hflow
    | others kept =>
        refine ⟨fun hframed flow hflow => ?_, fun a h => by cases h⟩
        rcases kept with hkept | hnone
        · exact hs hframed flow (hkept ▸ hflow)
        · rw [hnone] at hflow
          cases hflow

end Runs

/-- The BM25 signal alone, under the rules the control process installs. -/
def bm25Only (m : Bm25Maps) : Kernel.Policy where
  classifier := { ngramOnly.classifier with modules := ⟨false, false, true⟩, bm25 := m }
  decisionRules := installedPolicy.decisionRules

/-- `{"model": "MoM", "messages": [{"role": "user", "content": "compose"}]}` -/
def composeBody : List UInt8 :=
  [123, 34, 109, 111, 100, 101, 108, 34, 58, 32, 34, 77, 111, 77, 34, 44, 32, 34, 109, 101,
   115, 115, 97, 103, 101, 115, 34, 58, 32, 91, 123, 34, 114, 111, 108, 101, 34, 58, 32, 34,
   117, 115, 101, 114, 34, 44, 32, 34, 99, 111, 110, 116, 101, 110, 116, 34, 58, 32, 34, 99,
   111, 109, 112, 111, 115, 101, 34, 125, 93, 125]

/-- `P\r\nContent-Length: 70\r\n\r\n` and the body. -/
def composeRequest : List UInt8 :=
  [80, 13, 10, 67, 111, 110, 116, 101, 110, 116, 45, 76, 101, 110, 103, 116, 104, 58, 32, 55, 48,
    13, 10, 13, 10] ++ composeBody

theorem composeRequest_complete : CompleteRequest composeRequest 25 := by
  constructor <;> decide

/-- The keyword of a policy, asked for. -/
theorem bm25_accumulation_exact_compose :
    ∃ L : LoadedBm25 Unicode.asciiTables composeWeight [], L.policy = composePolicy ∧
      ∃ T : WeightTable, T.rows = L.header.terms ∧
        Accepted.Exact T L.maps ⟨composeRequest, 95,
          (skRouterParser (bm25Only L.maps) idleWorld 7 (composeRequest.take 95)).1.flows 7⟩ := by
  obtain ⟨L, hpolicy, -⟩ := compose_parsed
  have hresult : (skRouterParser (bm25Only L.maps) idleWorld 7 (composeRequest.take 95)).2 = 95 := by
    have hheader : (scannedFlow (bm25Only L.maps) idleWorld 7 (composeRequest.take 95)).header
        = scanHeaders (composeRequest.take 95) .initial := by
      simp only [scannedFlow, openedFlow, idleWorld, initialFlow]
    rw [parser_result _ (idleWorld_resumed composeRequest 7), hheader]
    decide
  have hparse := @Serves.parse (bm25Only L.maps) 7 idleWorld composeRequest (by decide) 95
  rw [hresult] at hparse
  have hrules : populateDecisionRules (fun _ => none) = some (bm25Only L.maps).decisionRules := rfl
  obtain ⟨T, hrows, hexact⟩ := bm25_accumulation_exact L rfl rfl hrules rfl (.single hparse)
  exact ⟨L, hpolicy, T, hrows, hexact _ (List.mem_singleton_self _)⟩

end Xsr.System
