import Xsr.Kernel.Distill
import Xsr.Lib.Loop

/-!
# Bm25 — the streaming keyword scorer

`xdp_bm25_classifier.bpf.h`: a tokenizer with one character of lookahead
(`pending_connector`), an incremental FNV-1a hash of the open token, and
the fixed-point score of each policy document.
-/

namespace Xsr.Kernel

open Xsr.Lib (boundedLoop)

/-- `XDP_BM25_MAX_RULES` -/
def bm25MaxRules : Nat := 8
/-- `XDP_BM25_MAX_DOCUMENTS` -/
def bm25MaxDocuments : Nat := 16
/-- `XDP_BM25_MAX_TOKEN_BYTES` -/
def bm25MaxTokenBytes : Nat := 64
/-- `XDP_MAX_STREAM_REQUEST_BYTES` -/
def maxStreamRequestBytes : Nat := 262144
/-- `XDP_BM25_MAX_QUERY_TOKENS` -/
def bm25MaxQueryTokens : Nat := (maxStreamRequestBytes + 1) / 2

/-- `struct xdp_bm25_rule` -/
structure Bm25Rule where
  thresholdFixed : Int
  priority : Nat
  route : Route
  operator : Operator
  documentStart : Nat
  documentCount : Nat
  documentMask : Nat

/-- `struct xdp_bm25_policy_config` -/
structure Bm25Config where
  ruleCount : Nat
  documentCount : Nat
  thresholdsFixed : Nat → Int

/-- `struct xdp_bm25_term_weights` -/
structure Bm25TermWeights where
  weights : Nat → Int
  token : Nat → UInt8
  tokenLength : Nat
  stopword : Bool

/-- The read-only policy maps of the scorer. -/
structure Bm25Maps where
  config : Option Bm25Config
  rules : BpfMap Nat Bm25Rule
  terms : BpfMap UInt32 Bm25TermWeights

/-- `struct xdp_bm25_state`; `pendingConnector` is `0` when none is pending. -/
structure Bm25State where
  scores : Nat → Int
  hash : UInt32
  queryTokens : Nat
  matchedDocuments : Nat
  tokenLength : Nat
  inWord : Bool
  pendingConnector : UInt8
  previousChar : UInt8
  overflow : Bool
  tokenOverflow : Bool
  token : Nat → UInt8

/-- The state as `memset` leaves it. -/
def Bm25State.zero : Bm25State :=
  ⟨fun _ => 0, 0, 0, 0, 0, false, 0, 0, false, false, fun _ => 0⟩

/-- `xdp_bm25_init` -/
def bm25Init : Bm25State := { Bm25State.zero with hash := fnvOffset }

/-- `xdp_bm25_word_char` -/
def bm25WordChar (c : UInt8) : Bool := isLower c || isUpper c || isDigit c

/-- `'\''` -/
def apostrophe : UInt8 := 39
/-- `'.'` -/
def dot : UInt8 := 46
/-- `'_'` -/
def underscore : UInt8 := 95

/-- `xdp_bm25_connector` -/
def bm25Connector (c : UInt8) : Bool := c == apostrophe || c == dot || c == underscore

/-- `xdp_bm25_match_callback`; the state is `ctx->matches`. -/
def bm25MatchCallback (s : Bm25State) (term : Bm25TermWeights) (position : Nat)
    (isMatch : Bool) : Bool × Bool :=
  let index := position &&& (bm25MaxTokenBytes - 1)
  if s.tokenLength ≤ position then (isMatch, true)
  else if s.token index ≠ term.token index then (false, true)
  else (isMatch, false)

/-- `xdp_bm25_token_matches` -/
def bm25TokenMatches (s : Bm25State) (term : Bm25TermWeights) : Bool :=
  if s.tokenOverflow ∨ s.tokenLength ≠ term.tokenLength then false
  else boundedLoop (bm25MatchCallback s term) bm25MaxTokenBytes 0 true

/-- `xdp_bm25_append_token_byte` -/
def bm25AppendTokenByte (s : Bm25State) (c : UInt8) : Bm25State :=
  if s.tokenLength < bm25MaxTokenBytes then
    let index := s.tokenLength &&& (bm25MaxTokenBytes - 1)
    { s with token := Function.update s.token index c, tokenLength := s.tokenLength + 1 }
  else { s with tokenOverflow := true }

/-- `xdp_bm25_add_callback`; it never asks the loop to stop. -/
def bm25AddCallback (m : Bm25Maps) (term : Bm25TermWeights) (document : Nat)
    (s : Bm25State) : Bm25State × Bool :=
  let index := document &&& (bm25MaxDocuments - 1)
  let weight := term.weights index
  if weight = 0 then (s, false)
  else
    let s := { s with scores := Function.update s.scores index (s64 (s.scores index + weight)) }
    match m.config with
    | some config =>
        if config.thresholdsFixed index ≤ s.scores index then
          ({ s with matchedDocuments := s.matchedDocuments ||| (1 <<< index) }, false)
        else (s, false)
    | none => (s, false)

/-- The `reset:` label of `xdp_bm25_finish_word`. -/
def bm25ResetToken (s : Bm25State) : Bm25State :=
  { s with hash := fnvOffset, inWord := false, pendingConnector := 0, previousChar := 0,
           tokenLength := 0, tokenOverflow := false }

/-- `xdp_bm25_finish_word` -/
def bm25FinishWord (m : Bm25Maps) (s : Bm25State) : Bm25State :=
  if !s.inWord then s
  else
    let s := { s with pendingConnector := 0 }
    let term := m.terms s.hash
    let exactMatch : Bool := match term with
      | some term => bm25TokenMatches s term
      | none => false
    -- a stop word leaves no trace, not even in the number of tokens
    if exactMatch ∧ (term.map Bm25TermWeights.stopword) = some true then bm25ResetToken s
    else if bm25MaxQueryTokens ≤ s.queryTokens then bm25ResetToken { s with overflow := true }
    else
      let s := { s with queryTokens := s.queryTokens + 1 }
      match term with
      | some term =>
          if exactMatch ∧ !term.stopword then
            bm25ResetToken (boundedLoop (bm25AddCallback m term) bm25MaxDocuments 0 s)
          else bm25ResetToken s
      | none => bm25ResetToken s

/-- Hash and append one byte of the open token. -/
def bm25TakeByte (s : Bm25State) (c : UInt8) : Bm25State :=
  bm25AppendTokenByte { s with hash := fnvRound s.hash c } c

/-- Whether a pending connector may join the open token to `c`. -/
def bm25ConnectorValid (s : Bm25State) (c : UInt8) : Bool :=
  s.pendingConnector ≠ dot || (isDigit s.previousChar && isDigit c)

/-- `xdp_bm25_score_char` -/
def bm25ScoreChar (m : Bm25Maps) (s : Bm25State) (c : UInt8) : Bm25State :=
  let c := lower c
  if bm25WordChar c then
    let s :=
      if s.pendingConnector ≠ 0 then
        let s :=
          if bm25ConnectorValid s c then bm25TakeByte s s.pendingConnector
          else bm25FinishWord m s
        { s with pendingConnector := 0 }
      else s
    { bm25TakeByte s c with inWord := true, previousChar := c }
  -- a second connector in a row ends the token
  else if bm25Connector c && s.inWord && s.pendingConnector == 0 then
    { s with pendingConnector := c }
  else if s.inWord then bm25FinishWord m s
  else s

/-- The operator test of a rule, on the latched document bits. -/
def bm25RuleTest (s : Bm25State) (rule : Bm25Rule) : Bool :=
  let matched := s.matchedDocuments &&& rule.documentMask
  match rule.operator with
  | .or => matched != 0
  | .and => matched == rule.documentMask
  | .nor => matched == 0

/-- One turn of the rule loop: the flag is its `break`. -/
def bm25RuleStep (m : Bm25Maps) (s : Bm25State) (ruleCount : Nat) (i : Nat)
    (best : Nat × Route) : (Nat × Route) × Bool :=
  if ruleCount ≤ i then (best, true)
  else match m.rules i with
    | none => (best, false)
    | some rule =>
        if bm25MaxDocuments ≤ rule.documentStart
            ∨ bm25MaxDocuments - rule.documentStart < rule.documentCount then (best, false)
        else if bm25RuleTest s rule ∧ best.1 ≤ rule.priority then
          ((rule.priority, rule.route), false)
        else (best, false)

/-- `xdp_bm25_route_priority`: `*priority` and the route. -/
def bm25RoutePriority (m : Bm25Maps) (s : Bm25State) : Nat × Route :=
  match m.config with
  | none => (0, .general)
  | some config =>
      if s.overflow then (0, .general)
      else boundedLoop (bm25RuleStep m s config.ruleCount) bm25MaxRules 0 (0, .general)

end Xsr.Kernel
