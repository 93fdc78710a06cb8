import Xsr.Kernel.Distill
import Xsr.Lib.Loop

/-!
# Jaccard — the streaming trigram matcher

`xdp_jaccard_classifier.bpf.h`. Two queries run over the code points of a
prompt: one over the current word and one over the full text. The grams of
a query are counted in a shared LRU map under the query's random token, so
every function that touches a query takes and returns the map.
-/

namespace Xsr.Kernel

open Xsr.Lib (boundedLoop)

/-- `XDP_JACCARD_MAX_KEYWORDS` -/
def jaccardMaxKeywords : Nat := 16
/-- `XDP_JACCARD_MAX_RULES` -/
def jaccardMaxRules : Nat := 8
/-- `XDP_JACCARD_MAX_GRAMS` -/
def jaccardMaxGrams : Nat := 32
/-- `XDP_JACCARD_MAX_TEXT_GRAMS` -/
def jaccardMaxTextGrams : Nat := 128
/-- `XDP_JACCARD_ARITY` -/
def jaccardArity : Nat := 3
/-- `XDP_JACCARD_INTERSECTION_BITS` -/
def jaccardIntersectionBits : Nat := 6

/-- `struct xdp_jaccard_gram`: three Unicode scalar values. -/
structure JaccardGram where
  a : Nat
  b : Nat
  c : Nat
  deriving DecidableEq, Repr

/-- `struct xdp_jaccard_keyword` -/
structure JaccardKeyword where
  count : Nat
  totalGrams : Nat
  grams : List JaccardGram
  gramCounts : List Nat
  ruleId : Nat

/-- `struct xdp_jaccard_rule` -/
structure JaccardRule where
  thresholdMilli : Nat
  priority : Nat
  route : Route
  operator : Operator
  arity : Nat
  caseSensitive : Bool
  keywordCount : Nat

/-- `struct xdp_jaccard_policy_config` -/
structure JaccardConfig where
  keywordCount : Nat
  ruleCount : Nat
  caseSensitive : Bool

/-- `struct xdp_jaccard_query_key` -/
structure QueryKey where
  token : UInt64
  gram : JaccardGram
  deriving DecidableEq

/-- `struct xdp_jaccard_gram_key` -/
structure GramKey where
  gram : JaccardGram
  occurrence : Nat
  deriving DecidableEq

/-- `struct xdp_jaccard_gram_vector`: sixteen six-bit lanes. -/
structure GramVector where
  low : Nat
  high : Nat

/-- The read-only policy maps of the matcher, with the word-character
bitmap compiled into the program. -/
structure JaccardMaps where
  config : Option JaccardConfig
  rules : BpfMap Nat JaccardRule
  keywords : BpfMap Nat JaccardKeyword
  gramMasks : BpfMap GramKey GramVector
  casefolds : BpfMap Nat Nat
  wordBitmap : Nat → Nat

/-- `xdp_jaccard_query_grams` and the source of the query tokens: the
`i`-th reset reads the pair `prandom i` from `bpf_get_prandom_u32`, and
`drawn` counts the resets made so far. -/
structure QueryGrams where
  counts : BpfMap QueryKey Nat
  prandom : Nat → UInt32 × UInt32
  drawn : Nat

/-- `struct xdp_jaccard_query` -/
structure JaccardQuery where
  token : UInt64
  intersectionsLow : Nat
  intersectionsHigh : Nat
  total : Nat
  overflow : Bool

/-- The fields of `struct xdp_jaccard_state` that hold the match results. -/
structure JaccardMatches where
  matchedKeywords : Nat
  ruleMatchCounts : Nat

/-- The fields of `struct xdp_jaccard_state` that decode UTF-8. -/
structure Utf8Scan where
  utf8Value : Nat
  utf8Min : Nat
  utf8Remaining : Nat

/-- `struct xdp_jaccard_state` -/
structure JaccardState extends JaccardMatches, Utf8Scan where
  word : JaccardQuery
  full : JaccardQuery
  wordPrevious : Nat
  wordLast : Nat
  fullPrevious : Nat
  fullLast : Nat
  wordLen : Nat
  fullLen : Nat
  caseSensitive : Bool

/-- A query as `memset` leaves it. -/
def JaccardQuery.zero : JaccardQuery := ⟨0, 0, 0, 0, false⟩

/-- The state as `memset` leaves it. -/
def JaccardState.zero : JaccardState :=
  ⟨⟨0, 0⟩, ⟨0, 0, 0⟩, .zero, .zero, 0, 0, 0, 0, 0, 0, false⟩

/-- `' '` as a code point. -/
def space : Nat := 32

/-- `xdp_jaccard_lower` -/
def jaccardLower (m : JaccardMaps) (c : Nat) : Nat :=
  if 65 ≤ c ∧ c ≤ 90 then c + 32
  else match m.casefolds c with
    | some mapped => mapped
    | none => c

/-- `XDP_UNICODE_WORD_MAX` -/
def unicodeWordMax : Nat := 1114111
/-- `XDP_UNICODE_WORD_BITMAP_WORDS` -/
def unicodeWordBitmapWords : Nat := 17408

/-- `xdp_jaccard_word_char` -/
def jaccardWordChar (m : JaccardMaps) (c : Nat) : Bool :=
  if c < 128 then
    (97 ≤ c && c ≤ 122) || (65 ≤ c && c ≤ 90) || (48 ≤ c && c ≤ 57) || c == 95 || c == 45
  else if unicodeWordMax < c then false
  else
    let word := c >>> 6
    if unicodeWordBitmapWords ≤ word then false
    else ((m.wordBitmap word >>> (c &&& 63)) &&& 1) == 1

/-- The token of the `i`-th reset, `(prandom << 32) | prandom`. -/
def queryToken (prandom : Nat → UInt32 × UInt32) (i : Nat) : UInt64 :=
  ((prandom i).1.toUInt64 <<< 32) ||| (prandom i).2.toUInt64

/-- `xdp_jaccard_reset_query` -/
def jaccardResetQuery (g : QueryGrams) : QueryGrams × JaccardQuery :=
  ({ g with drawn := g.drawn + 1 }, ⟨queryToken g.prandom g.drawn, 0, 0, 0, false⟩)

/-- The occurrence number of a gram seen `count` times before. -/
def nextOccurrence : Option Nat → Nat
  | some count => if count < 255 then count + 1 else 1
  | none => 1

/-- The lanes of `vector`, when there is one, added to the intersections. -/
def JaccardQuery.addVector (q : JaccardQuery) : Option GramVector → JaccardQuery
  | some vector =>
      { q with
        intersectionsLow := u64 (q.intersectionsLow + vector.low)
        intersectionsHigh := u64 (q.intersectionsHigh + vector.high) }
  | none => q

/-- `xdp_jaccard_add_gram` -/
def jaccardAddGram (m : JaccardMaps) (g : QueryGrams) (q : JaccardQuery)
    (gram : JaccardGram) (limit : Nat) : QueryGrams × JaccardQuery :=
  if limit ≤ q.total then (g, { q with overflow := true })
  else
    let key : QueryKey := ⟨q.token, gram⟩
    let next := nextOccurrence (g.counts key)
    let g := { g with counts := g.counts.update key next }
    let q := q.addVector (m.gramMasks ⟨gram, next⟩)
    (g, { q with total := u16 (q.total + 1) })

/-- The six-bit lane of keyword `id`. -/
def intersectionLane (q : JaccardQuery) (id : Nat) : Nat :=
  if id < 8 then (q.intersectionsLow >>> (id * jaccardIntersectionBits)) &&& 63
  else (q.intersectionsHigh >>> ((id - 8) * jaccardIntersectionBits)) &&& 63

/-- The threshold test of one keyword, in `__u32` arithmetic. -/
def reachesThreshold (total totalGrams same thresholdMilli : Nat) : Bool :=
  let all := u32 (total + totalGrams + 4294967296 - same)
  let diff := subU32 all same
  let allSquared := u32 (all * all)
  u32 (allSquared * thresholdMilli) ≤ u32 (subU32 allSquared (u32 (diff * diff)) * 1000)

/-- `xdp_jaccard_match_keyword_callback` -/
def jaccardMatchKeywordCallback (m : JaccardMaps) (q : JaccardQuery) (keywordCount : Nat)
    (id : Nat) (s : JaccardMatches) : JaccardMatches × Bool :=
  if keywordCount ≤ id ∨ q.overflow then (s, true)
  else match m.keywords id with
    | none => (s, false)
    | some keyword =>
        if jaccardMaxRules ≤ keyword.ruleId then (s, false)
        else match m.rules keyword.ruleId with
          | none => (s, false)
          | some rule =>
              if rule.arity ≠ jaccardArity then (s, false)
              else
                let same := intersectionLane q id
                if same = 0 ∨ q.total = 0 ∨ keyword.totalGrams = 0 then (s, false)
                else if reachesThreshold q.total keyword.totalGrams same rule.thresholdMilli
                    ∧ s.matchedKeywords &&& (1 <<< id) = 0 then
                  (⟨s.matchedKeywords ||| (1 <<< id),
                    u64 (s.ruleMatchCounts + (1 <<< (keyword.ruleId * 8)))⟩, false)
                else (s, false)

/-- `xdp_jaccard_match_query` -/
def jaccardMatchQuery (m : JaccardMaps) (s : JaccardMatches) (q : JaccardQuery) :
    JaccardMatches :=
  match m.config with
  | none => s
  | some config =>
      if q.overflow then s
      else boundedLoop
        (jaccardMatchKeywordCallback m q (min config.keywordCount jaccardMaxKeywords))
        jaccardMaxKeywords 0 s

/-- `xdp_jaccard_finish_word` -/
def jaccardFinishWord (m : JaccardMaps) (g : QueryGrams) (s : JaccardState) :
    QueryGrams × JaccardState :=
  if s.wordLen = 0 then (g, s)
  else
    let (g, word) :=
      -- the first gram of a single code point went in when it was pushed; the one with
      -- a space on either side is never added
      if s.wordLen = 1 then jaccardAddGram m g s.word ⟨s.wordLast, space, space⟩ jaccardMaxGrams
      else
        let (g, word) :=
          jaccardAddGram m g s.word ⟨s.wordPrevious, s.wordLast, space⟩ jaccardMaxGrams
        jaccardAddGram m g word ⟨s.wordLast, space, space⟩ jaccardMaxGrams
    let s := { s with word := word }
    (g, { s with toJaccardMatches := jaccardMatchQuery m s.toJaccardMatches s.word })

/-- The window `xdp_jaccard_push` moves: `*previous`, `*last`, `*length`. -/
structure GramWindow where
  previous : Nat
  last : Nat
  length : Nat

/-- `xdp_jaccard_push` -/
def jaccardPush (m : JaccardMaps) (g : QueryGrams) (q : JaccardQuery) (w : GramWindow)
    (c limit : Nat) : QueryGrams × JaccardQuery × GramWindow :=
  if w.length = 0 then
    let (g, q) := jaccardAddGram m g q ⟨space, space, c⟩ limit
    (g, q, { w with last := c, length := 1 })
  else if w.length = 1 then
    let (g, q) := jaccardAddGram m g q ⟨space, w.last, c⟩ limit
    (g, q, { previous := w.last, last := c, length := w.length + 1 })
  else
    let (g, q) := jaccardAddGram m g q ⟨w.previous, w.last, c⟩ limit
    (g, q, { previous := w.last, last := c,
             -- the length is a `__u16` and stays at its last value
             length := if w.length < 65535 then w.length + 1 else w.length })

/-- `xdp_jaccard_init` -/
def jaccardInit (m : JaccardMaps) (g : QueryGrams) : QueryGrams × JaccardState :=
  let s := match m.config with
    | some config => { JaccardState.zero with caseSensitive := config.caseSensitive }
    | none => JaccardState.zero
  let (g, word) := jaccardResetQuery g
  let (g, full) := jaccardResetQuery g
  (g, { s with word := word, full := full })

/-- `xdp_jaccard_score_codepoint` -/
def jaccardScoreCodepoint (m : JaccardMaps) (g : QueryGrams) (s : JaccardState) (c : Nat) :
    QueryGrams × JaccardState :=
  let c := if s.caseSensitive then c else jaccardLower m c
  let (g, full, w) :=
    jaccardPush m g s.full ⟨s.fullPrevious, s.fullLast, s.fullLen⟩ c jaccardMaxTextGrams
  let s := { s with full := full, fullPrevious := w.previous, fullLast := w.last,
                    fullLen := w.length }
  if jaccardWordChar m c then
    let (g, word, w) :=
      jaccardPush m g s.word ⟨s.wordPrevious, s.wordLast, s.wordLen⟩ c jaccardMaxGrams
    (g, { s with word := word, wordPrevious := w.previous, wordLast := w.last,
                 wordLen := w.length })
  else
    let (g, s) := jaccardFinishWord m g s
    let (g, word) := jaccardResetQuery g
    (g, { s with word := word, wordLen := 0 })

/-- `xdp_jaccard_score_codepoint` on each of a run of code points. -/
def jaccardScoreCodepoints (m : JaccardMaps) :
    QueryGrams → JaccardState → List Nat → QueryGrams × JaccardState
  | g, s, [] => (g, s)
  | g, s, c :: cs =>
      let (g, s) := jaccardScoreCodepoint m g s c
      jaccardScoreCodepoints m g s cs

/-- The decoding part of `xdp_jaccard_score_char`: the new decoder and the
code points it hands to `xdp_jaccard_score_codepoint`. -/
def utf8Byte (u : Utf8Scan) (byte : UInt8) : Utf8Scan × List Nat :=
  if u.utf8Remaining = 0 then
    if byte < 0x80 then (u, [byte.toNat])
    else if byte &&& 0xe0 = 0xc0 then (⟨(byte &&& 0x1f).toNat, 0x80, 1⟩, [])
    else if byte &&& 0xf0 = 0xe0 then (⟨(byte &&& 0x0f).toNat, 0x800, 2⟩, [])
    else if byte &&& 0xf8 = 0xf0 then (⟨(byte &&& 0x07).toNat, 0x10000, 3⟩, [])
    else (u, [space])
  else if byte &&& 0xc0 ≠ 0x80 then
    -- a lead byte that breaks a sequence off is not read as one
    ({ u with utf8Remaining := 0, utf8Value := 0 },
      if byte < 0x80 then [space, byte.toNat] else [space])
  else
    let value := u32 ((u.utf8Value <<< 6) ||| (byte &&& 0x3f).toNat)
    if u.utf8Remaining - 1 ≠ 0 then
      ({ u with utf8Value := value, utf8Remaining := u.utf8Remaining - 1 }, [])
    else
      ({ u with utf8Value := 0, utf8Remaining := 0 },
        [if value < u.utf8Min ∨ 0x10ffff < value ∨ (0xd800 ≤ value ∧ value ≤ 0xdfff) then space
         else value])

/-- `xdp_jaccard_score_char` -/
def jaccardScoreChar (m : JaccardMaps) (g : QueryGrams) (s : JaccardState) (byte : UInt8) :
    QueryGrams × JaccardState :=
  let (u, cs) := utf8Byte s.toUtf8Scan byte
  jaccardScoreCodepoints m g { s with toUtf8Scan := u } cs

/-- `xdp_jaccard_finish` -/
def jaccardFinish (m : JaccardMaps) (g : QueryGrams) (s : JaccardState) :
    QueryGrams × JaccardState :=
  let (g, s) :=
    if s.utf8Remaining = 0 then (g, s)
    else jaccardScoreCodepoint m g { s with utf8Remaining := 0 } space
  let (g, s) := jaccardFinishWord m g s
  if s.fullLen = 0 then (g, s)
  else
    let (g, full) :=
      if s.fullLen = 1 then
        jaccardAddGram m g s.full ⟨s.fullLast, space, space⟩ jaccardMaxTextGrams
      else
        let (g, full) :=
          jaccardAddGram m g s.full ⟨s.fullPrevious, s.fullLast, space⟩ jaccardMaxTextGrams
        jaccardAddGram m g full ⟨s.fullLast, space, space⟩ jaccardMaxTextGrams
    let s := { s with full := full }
    (g, { s with toJaccardMatches := jaccardMatchQuery m s.toJaccardMatches s.full })

/-- The operator test of rule `rule` in slot `i`, on the packed match
counts. -/
def jaccardRuleTest (s : JaccardMatches) (i : Nat) (rule : JaccardRule) : Bool :=
  let matched := (s.ruleMatchCounts >>> (i * 8)) &&& 255
  match rule.operator with
  | .or => 0 < matched
  | .and => matched == rule.keywordCount
  | .nor => matched == 0

/-- One turn of the rule loop: the flag is its `break`. -/
def jaccardRuleStep (m : JaccardMaps) (s : JaccardMatches) (ruleCount : Nat) (i : Nat)
    (best : Nat × Route) : (Nat × Route) × Bool :=
  if ruleCount ≤ i then (best, true)
  else match m.rules i with
    | none => (best, false)
    | some rule =>
        if jaccardRuleTest s i rule ∧ best.1 ≤ rule.priority then
          ((rule.priority, rule.route), false)
        else (best, false)

/-- `xdp_jaccard_route_priority`: `*priority` and the route. -/
def jaccardRoutePriority (m : JaccardMaps) (s : JaccardMatches) : Nat × Route :=
  match m.config with
  | none => (0, .general)
  | some config =>
      boundedLoop (jaccardRuleStep m s config.ruleCount) jaccardMaxRules 0 (0, .general)

end Xsr.Kernel
