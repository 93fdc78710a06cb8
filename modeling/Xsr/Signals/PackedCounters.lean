import Xsr.Policy.Precedence
import Xsr.Signals.KeywordMatches

/-!
# PackedCounters — counters and marks of a loaded policy

A query of a loaded policy, from its reset on, and the match results of one
matcher, query after query. Every lane is the number of trigrams shared with
its keyword, a match marks the keywords that reach their threshold, and the
byte of a rule counts its marks.
-/

namespace Xsr.Signals

open Control Kernel Lib Policy

variable {u : Unicode}

/-! ## Runs -/

/-- A query and the grams added to it since `xdp_jaccard_reset_query`. The
token is a fresh one, and what other queries count in between leaves its
entries alone. -/
inductive Filled (m : JaccardMaps) (limit : Nat) :
    QueryGrams → JaccardQuery → List JaccardGram → Prop where
  | reset {g : QueryGrams}
      (hfresh : ∀ gram, g.counts ⟨(jaccardResetQuery g).2.token, gram⟩ = none) :
      Filled m limit (jaccardResetQuery g).1 (jaccardResetQuery g).2 []
  | add {g : QueryGrams} {q : JaccardQuery} {grams : List JaccardGram}
      (filled : Filled m limit g q grams) (gram : JaccardGram) :
      Filled m limit (jaccardAddGram m g q gram limit).1 (jaccardAddGram m g q gram limit).2
        (grams ++ [gram])
  | others {g g' : QueryGrams} {q : JaccardQuery} {grams : List JaccardGram}
      (filled : Filled m limit g q grams)
      (hkept : ∀ gram, g'.counts ⟨q.token, gram⟩ = g.counts ⟨q.token, gram⟩) :
      Filled m limit g' q grams

/-- The match results of one matcher: any queries, one after another. -/
inductive Matching (m : JaccardMaps) : JaccardMatches → Prop where
  | start : Matching m ⟨0, 0⟩
  | query {s : JaccardMatches} (matching : Matching m s) (q : JaccardQuery) :
      Matching m (jaccardMatchQuery m s q)

/-- A query stands for the grams added to it. -/
theorem Filled.counts {m : JaccardMaps} {limit : Nat} (hlimit : limit ≤ 128) {g : QueryGrams}
    {q : JaccardQuery} {grams : List JaccardGram} (h : Filled m limit g q grams) :
    Counts m limit g q grams := by
  induction h with
  | reset hfresh =>
      refine ⟨by simp [jaccardResetQuery, JaccardQuery.zero], fun gram => ?_⟩
      exact (hfresh gram).trans (by simp [gramCount])
  | add _ gram ih => exact ih.addGram hlimit gram
  | others _ hkept ih => exact ih.frame hkept

/-! ## The keyword loop of a loaded policy -/

/-- The rule a keyword belongs to. -/
def ruleOf (header : JaccardHeader) (k : Nat) : Nat :=
  (header.keywords[k]?.map KeywordRow.ruleId).getD 0

/-- The test of keyword `k` for a query. -/
def keywordTest (header : JaccardHeader) (q : JaccardQuery) (k : Nat) : Bool :=
  header.keywords[k]?.any fun row => header.rules[row.ruleId]?.any fun rule =>
    intersectionLane q k != 0 && q.total != 0 && row.totalGrams != 0 &&
      reachesThreshold q.total row.totalGrams (intersectionLane q k) (cU32 rule.thresholdMilli)

section Loop
variable (p : LoadedPolicy u)

/-- A row, its rule, and what the loader makes of them. -/
theorem LoadedPolicy.rule_of {k : Nat} (K : KeywordAt u p.header k) :
    p.maps.keywords k = some (jaccardKeyword K.row) ∧
      p.maps.rules K.row.ruleId = some (jaccardRule K.rule) ∧
      K.row.ruleId < jaccardMaxRules ∧ RuleChecked K.rule := by
  obtain ⟨texts, c, hrows⟩ := p.rows
  obtain ⟨hlt, hget⟩ := List.getElem?_eq_some_iff.mp K.rowOf.belongs
  refine ⟨(populateJaccard_keywords p.loaded).1 k K.row K.row_at,
    (populateJaccard_rules p.loaded).2 _ _ K.rowOf.belongs, hlt.trans_le p.rules_le, ?_⟩
  exact hrows.checked _ (hget ▸ List.getElem_mem hlt)

theorem keywordTest_at {k : Nat} (K : KeywordAt u p.header k) (q : JaccardQuery) :
    keywordTest p.header q k
      = (intersectionLane q k != 0 && q.total != 0 && K.row.totalGrams != 0 &&
        reachesThreshold q.total K.row.totalGrams (intersectionLane q k)
          (cU32 K.rule.thresholdMilli)) := by
  rw [keywordTest, K.row_at, Option.any_some, K.rowOf.belongs, Option.any_some]

/-- One turn of the loop. -/
theorem callback_eq {q : JaccardQuery} (hover : q.overflow = false) {k : Nat}
    (K : KeywordAt u p.header k) (s : JaccardMatches) :
    jaccardMatchKeywordCallback p.maps q p.header.keywords.length k s
      = (markKeyword (ruleOf p.header) (keywordTest p.header q) s k, false) := by
  obtain ⟨hkeyword, hrule, hlt, hchecked⟩ := p.rule_of K
  have hk := (List.getElem?_eq_some_iff.mp K.row_at).1
  have hid : (jaccardKeyword K.row).ruleId = K.row.ruleId := by
    unfold jaccardMaxRules at hlt
    show cU8 (K.row.ruleId : Int) = _
    unfold cU8
    omega
  have harity : (jaccardRule K.rule).arity = jaccardArity := by
    show cU8 K.rule.arity = _
    rw [hchecked.arity]
    rfl
  have hruleOf : ruleOf p.header k = K.row.ruleId := by
    rw [ruleOf, K.row_at]
    rfl
  have hcond : ¬(p.header.keywords.length ≤ k ∨ q.overflow = true) := by
    rw [hover]
    simpa using hk
  unfold jaccardMatchKeywordCallback markKeyword
  rw [if_neg hcond, hkeyword]
  dsimp only
  rw [hid, if_neg (not_le.mpr hlt), hrule]
  dsimp only
  rw [if_neg (not_not.mpr harity), keywordTest_at p K q, hruleOf]
  show (if intersectionLane q k = 0 ∨ q.total = 0 ∨ K.row.totalGrams = 0 then (s, false)
    else if reachesThreshold q.total K.row.totalGrams (intersectionLane q k)
        (cU32 K.rule.thresholdMilli) = true ∧ s.matchedKeywords &&& (1 <<< k) = 0 then _
      else (s, false)) = _
  by_cases hempty : intersectionLane q k = 0 ∨ q.total = 0 ∨ K.row.totalGrams = 0
  · have hfalse : (intersectionLane q k != 0 && q.total != 0 && K.row.totalGrams != 0) = false := by
      simp only [Bool.and_eq_false_iff, bne_eq_false_iff_eq]
      tauto
    rw [if_pos hempty, hfalse]
    simp
  · have htrue : (intersectionLane q k != 0 && q.total != 0 && K.row.totalGrams != 0) = true := by
      simp only [Bool.and_eq_true, bne_iff_ne]
      tauto
    rw [if_neg hempty, htrue, Bool.true_and]
    split_ifs <;> rfl

/-- **The match of a query** is the marking loop. -/
theorem matchQuery_eq (s : JaccardMatches) (q : JaccardQuery) :
    jaccardMatchQuery p.maps s q = if q.overflow then s else
      (List.range p.header.keywords.length).foldl
        (markKeyword (ruleOf p.header) (keywordTest p.header q)) s := by
  obtain ⟨hconfig, -⟩ := populateJaccard_rules p.loaded
  rw [jaccardMatchQuery, hconfig]
  dsimp only
  by_cases hover : q.overflow = true
  · rw [if_pos hover, if_pos hover]
  rw [if_neg hover, if_neg hover]
  have hcount : min (jaccardConfig p.header).keywordCount jaccardMaxKeywords
      = p.header.keywords.length := Nat.min_eq_left p.keywords_le
  rw [hcount]
  have hscan := @boundedLoop_eq_scan _ _
    (jaccardMatchKeywordCallback p.maps q p.header.keywords.length)
    (fun s k => (markKeyword (ruleOf p.header) (keywordTest p.header q) s k, false))
    (List.range p.header.keywords.length) (P := fun _ _ => True)
    (fun j s x _ hx => ?_) (fun j s hx => ?_) (fun _ _ _ _ _ _ => trivial)
    jaccardMaxKeywords 0 s trivial
  · have hlen : (List.range p.header.keywords.length).length ≤ jaccardMaxKeywords := by
      rw [List.length_range]
      exact p.keywords_le
    rw [hscan, List.drop_zero, List.take_of_length_le hlen, scan_eq_foldl]
  · have hj := (List.getElem?_eq_some_iff.mp hx).1
    rw [List.length_range] at hj
    rw [List.getElem?_range hj] at hx
    obtain rfl := Option.some.inj hx
    obtain ⟨K⟩ := p.keyword hj
    exact callback_eq p (by simpa using hover) K s
  · have hj : p.header.keywords.length ≤ j := by simpa using hx
    rw [jaccardMatchKeywordCallback, if_pos (.inl hj)]

theorem ruleOf_lt {k : Nat} (hk : k < p.header.keywords.length) :
    ruleOf p.header k < jaccardMaxRules := by
  obtain ⟨K⟩ := p.keyword hk
  rw [ruleOf, K.row_at]
  exact (p.rule_of K).2.2.1

/-- The bytes stay counts, whatever is matched. -/
theorem Matching.counts {s : JaccardMatches} (h : Matching p.maps s) :
    CountsMarked (ruleOf p.header) p.header.keywords.length s := by
  induction h with
  | start => exact .empty
  | query _ q ih =>
      rw [matchQuery_eq]
      split_ifs
      · exact ih
      · exact ih.foldl p.keywords_le (fun k hk => ruleOf_lt p hk) fun k hk => List.mem_range.mp hk

end Loop

/-! ## The counters and marks of a query -/

/-- The counters of a query that was given `grams`. -/
structure CountersExact (p : LoadedPolicy u) (q : JaccardQuery) (grams : List JaccardGram) :
    Prop where
  keyword : ∀ k (K : KeywordAt u p.header k), intersectionLane q k = Counter.same grams K.trigrams
  bounded : ∀ k (K : KeywordAt u p.header k),
    intersectionLane q k ≤ K.row.totalGrams ∧ K.row.totalGrams ≤ jaccardMaxGrams
  unused : ∀ k < jaccardMaxKeywords, p.header.keywords.length ≤ k → intersectionLane q k = 0
  separate : HoldsLanes q (intersectionLane q)

/-- The marks a query makes. -/
structure MarksExact (p : LoadedPolicy u) (q : JaccardQuery) (grams : List JaccardGram) :
    Prop where
  fits : ∀ k (K : KeywordAt u p.header k),
    FitsU32 (Counter.same grams K.trigrams)
      (allGrams grams.length K.trigrams.length (Counter.same grams K.trigrams))
      K.rule.thresholdMilli
  marked : ∀ s k (K : KeywordAt u p.header k),
    Marked (jaccardMatchQuery p.maps s q) k ↔ Marked s k ∨
      Reaches (Counter.same grams K.trigrams)
        (allGrams grams.length K.trigrams.length (Counter.same grams K.trigrams))
        K.rule.thresholdMilli

section Query
variable (p : LoadedPolicy u) {limit : Nat} {g : QueryGrams} {q : JaccardQuery}
  {grams : List JaccardGram}

theorem counters_exact (h : Counts p.maps limit g q grams) (hlen : grams.length ≤ limit) :
    CountersExact p q grams := by
  have hlanes : HoldsLanes q fun k => laneSum p.maps (vectorLane k) [] grams := by
    have hquery := gramQuery_lanes p hlen
    rw [h.query]
    exact ⟨hquery.low, hquery.high, hquery.fits⟩
  have hlane : ∀ k < jaccardMaxKeywords,
      intersectionLane q k = laneSum p.maps (vectorLane k) [] grams := fun k hk => hlanes.lane hk
  have hused : ∀ {k : Nat}, KeywordAt u p.header k → k < jaccardMaxKeywords := fun K =>
    (List.getElem?_eq_some_iff.mp K.row_at).1.trans_le p.keywords_le
  refine ⟨fun k K => ?_, fun k K => ?_, fun k hk hunused => ?_, ?_⟩
  · rw [hlane k (hused K), laneSum_keyword p K]
  · obtain ⟨htotal, hle⟩ := K.length_trigrams
    rw [hlane k (hused K), laneSum_keyword p K]
    exact ⟨htotal ▸ Counter.same_le_right _ _, hle⟩
  · rw [hlane k hk, laneSum_unused p hk hunused]
  · refine ⟨?_, ?_, fun k hk => ?_⟩
    · rw [hlanes.low]
      exact pack_congr fun k hk => (hlane k (by unfold jaccardMaxKeywords; omega)).symm
    · rw [hlanes.high]
      exact pack_congr fun k hk => (hlane (k + 8) (by unfold jaccardMaxKeywords; omega)).symm
    · rw [hlane k hk]
      exact hlanes.fits k hk

theorem marks_exact (h : Counts p.maps limit g q grams) (hlimit : limit ≤ 128)
    (hlen : grams.length ≤ limit) : MarksExact p q grams := by
  have hcounters := counters_exact p h hlen
  have htotal : q.total = grams.length := by
    rw [h.query]
    exact Nat.min_eq_left hlen
  -- no more grams than the limit, so nothing was left out
  have hover : q.overflow = false := by
    rw [h.query]
    exact decide_eq_false (not_lt.mpr hlen)
  have hthreshold : ∀ {k : Nat} (K : KeywordAt u p.header k),
      ∃ t : Nat, K.rule.thresholdMilli = t ∧ t ≤ 1000 := by
    intro k K
    obtain ⟨hlow, hhigh⟩ := (p.rule_of K).2.2.2.threshold
    exact ⟨K.rule.thresholdMilli.toNat, by omega, by omega⟩
  constructor
  · intro k K
    obtain ⟨t, ht, hle⟩ := hthreshold K
    obtain ⟨hgrams, hmax⟩ := K.length_trigrams
    have hmax32 : K.row.totalGrams ≤ 32 := hmax
    have hleft := Counter.same_le_left grams K.trigrams
    have hright := Counter.same_le_right grams K.trigrams
    rw [ht]
    refine fitsU32 ?_ ?_ hle
    · unfold allGrams
      omega
    · unfold allGrams
      omega
  · intro s k K
    obtain ⟨t, ht, hle⟩ := hthreshold K
    obtain ⟨hgrams, hmax⟩ := K.length_trigrams
    have hmax32 : K.row.totalGrams ≤ 32 := hmax
    have hk := (List.getElem?_eq_some_iff.mp K.row_at).1
    have hsame := hcounters.keyword k K
    have hleft := Counter.same_le_left grams K.trigrams
    have hright := Counter.same_le_right grams K.trigrams
    have hmilli : cU32 K.rule.thresholdMilli = t := by
      unfold cU32
      omega
    rw [matchQuery_eq, hover, if_neg (by decide), foldl_markKeyword_marked, keywordTest_at p K,
      hsame, htotal, hmilli, hgrams, ht]
    simp only [List.mem_range, hk, true_and]
    refine or_congr Iff.rfl ?_
    rw [Bool.and_eq_true, Bool.and_eq_true, Bool.and_eq_true, bne_iff_ne, bne_iff_ne, bne_iff_ne]
    generalize Counter.same grams K.trigrams = same at *
    constructor
    · rintro ⟨⟨⟨hpos, -⟩, -⟩, hreach⟩
      exact (reachesThreshold_iff (by omega) hmax32 (by omega) hleft hle (by omega)).mp hreach
    · intro hreach
      have hpos := hreach.1
      refine ⟨⟨⟨by omega, by omega⟩, by omega⟩, ?_⟩
      exact (reachesThreshold_iff (by omega) hmax32 (by omega) hleft hle hpos).mpr hreach

end Query

/-- **The packed counters are exact** in every loaded policy: the masks fit
their map, each lane of a query is the number of trigrams shared with its
keyword, a match marks what reaches its threshold, and each byte counts the
marks of its rule. -/
theorem packed_counters_exact (p : LoadedPolicy u) :
    (∃ t, (p.header.keywords.map jaccardKeyword).zipIdx.foldlM loadKeywordGrams .empty = some t ∧
      t.map = p.maps.gramMasks ∧ t.used ≤ gramMaskCapacity) ∧
    (∀ k < p.header.keywords.length, Nonempty (KeywordAt u p.header k)) ∧
    (∀ limit, limit = jaccardMaxGrams ∨ limit = jaccardMaxTextGrams →
      ∀ g q grams, Filled p.maps limit g q grams → grams.length ≤ limit →
        CountersExact p q grams ∧ MarksExact p q grams) ∧
    (∀ s, Matching p.maps s → ∀ r < jaccardMaxRules, (s.ruleMatchCounts >>> (r * 8)) &&& 255
      = markedCount (ruleOf p.header) p.header.keywords.length s r) := by
  refine ⟨?_, fun k hk => p.keyword hk, ?_, ?_⟩
  · obtain ⟨texts, c, hrows⟩ := p.rows
    obtain ⟨t, ht, hused, -⟩ := gramMasks_loaded hrows
    obtain ⟨-, -, t', ht', hmasks⟩ := populateJaccard_keywords p.loaded
    obtain rfl : t = t' := Option.some.inj (ht.symm.trans ht')
    exact ⟨t, ht, hmasks.symm, hused⟩
  · intro limit hlimit g q grams hfilled hlen
    have h128 : limit ≤ 128 := by
      rcases hlimit with rfl | rfl <;> decide
    have hcounts := hfilled.counts h128
    exact ⟨counters_exact p hcounts hlen, marks_exact p hcounts h128 hlen⟩
  · intro s hmatching r hr
    exact (hmatching.counts p).byte p.keywords_le hr

/-! ## Two keywords -/

/-- The policy of the keywords `code` and `sums`. -/
def twoKeywords : LoadedPolicy Unicode.asciiTables where
  policy := tiedPolicy
  allowOtherMethods := false
  header := tiedHeader
  parsed := tied_parsed
  wordBitmap := fun _ => 0
  maps := tied.maps
  loaded := tied.loaded

def codeAt : KeywordAt Unicode.asciiTables twoKeywords.header 0 where
  row := plainKeyword 0 99 111 100 101
  rule := plainRule 0 .coding
  text := "code".toList
  normalized := "code".toList
  row_at := rfl
  rowOf := ⟨rfl, by decide, rfl⟩
  normal := rfl

def sumsAt : KeywordAt Unicode.asciiTables twoKeywords.header 1 where
  row := plainKeyword 1 115 117 109 115
  rule := plainRule 0 .math
  text := "sums".toList
  normalized := "sums".toList
  row_at := rfl
  rowOf := ⟨rfl, by decide, rfl⟩
  normal := rfl

/-- The first three trigrams of `code`. -/
def codeGrams : List JaccardGram := [⟨32, 32, 99⟩, ⟨32, 99, 111⟩, ⟨99, 111, 100⟩]

/-- A query of these trigrams shares three with one keyword and none with the
other, and marks the one. -/
theorem packed_counters_exact_code : ∃ g q,
    Filled twoKeywords.maps jaccardMaxGrams g q codeGrams ∧
      intersectionLane q 0 = 3 ∧ intersectionLane q 1 = 0 ∧
      Marked (jaccardMatchQuery twoKeywords.maps ⟨0, 0⟩ q) 0 ∧
      ¬Marked (jaccardMatchQuery twoKeywords.maps ⟨0, 0⟩ q) 1 := by
  obtain ⟨g, q, hfilled⟩ : ∃ g q, Filled twoKeywords.maps jaccardMaxGrams g q codeGrams :=
    ⟨_, _, (((@Filled.reset _ _ ⟨fun _ => none, fun i => (0, UInt32.ofNat i), 0⟩
      fun _ => rfl).add _).add _).add _⟩
  obtain ⟨-, -, hqueries, -⟩ := packed_counters_exact twoKeywords
  obtain ⟨hcounters, hmarks⟩ :=
    hqueries jaccardMaxGrams (.inl rfl) g q codeGrams hfilled (by decide)
  refine ⟨g, q, hfilled, (hcounters.keyword 0 codeAt).trans (by decide),
    (hcounters.keyword 1 sumsAt).trans (by decide), ?_, ?_⟩
  · exact (hmarks.marked _ 0 codeAt).mpr (.inr (by decide))
  · rw [hmarks.marked _ 1 sumsAt]
    decide

end Xsr.Signals
