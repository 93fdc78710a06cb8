import Xsr.Control.GramMasks
import Xsr.Signals.QueryTokens

/-!
# Intersections — the packed counters of a query

A query adds one mask vector for each gram. The vectors of a loaded policy
hold one bit per keyword, so the two sums are sixteen counters side by
side, and the counter of a keyword is the number of grams the query shares
with it. No counter outgrows its lane: a keyword has at most 32 grams.
-/

namespace Xsr.Signals

open Control Kernel Lib Policy

variable {u : Unicode}

/-! ## A loaded policy -/

/-- An n-gram policy that `parse` accepts and `populate_jaccard_policy`
loads. -/
structure LoadedPolicy (u : Unicode) where
  policy : Dict
  allowOtherMethods : Bool
  header : JaccardHeader
  parsed : parseJaccard u policy allowOtherMethods = .ok header
  wordBitmap : Nat → Nat
  maps : JaccardMaps
  loaded : populateJaccardPolicy header wordBitmap = some maps

/-- Keyword `k` of a header: its row, its rule, its text and its trigrams. -/
structure KeywordAt (u : Unicode) (header : JaccardHeader) (k : Nat) where
  row : KeywordRow
  rule : RuleRow
  text : List Char
  normalized : List Char
  row_at : header.keywords[k]? = some row
  rowOf : RowOf u header.rules row rule text
  normal : normalize u text rule.caseSensitive = .ok normalized

/-- The trigrams of a keyword. -/
def KeywordAt.trigrams {header : JaccardHeader} {k : Nat} (K : KeywordAt u header k) :
    List JaccardGram := keywordTrigrams K.normalized

theorem KeywordAt.length_trigrams {header : JaccardHeader} {k : Nat} (K : KeywordAt u header k) :
    K.trigrams.length = K.row.totalGrams ∧ K.row.totalGrams ≤ jaccardMaxGrams := by
  obtain ⟨normalized, hnormalized, htotal, hle, -⟩ := keywordEntries_row K.rowOf.grams k
  obtain rfl : K.normalized = normalized := Except.ok.inj (K.normal.symm.trans hnormalized)
  exact ⟨htotal, hle⟩

theorem LoadedPolicy.rows (p : LoadedPolicy u) :
    ∃ texts c, RowsChecked u ⟨p.header.rules, p.header.keywords, texts, c⟩ :=
  parseJaccard_rows p.parsed

theorem LoadedPolicy.keywords_le (p : LoadedPolicy u) :
    p.header.keywords.length ≤ jaccardMaxKeywords := by
  obtain ⟨texts, c, hrows⟩ := p.rows
  exact hrows.keywords_le

theorem LoadedPolicy.rules_le (p : LoadedPolicy u) : p.header.rules.length ≤ jaccardMaxRules := by
  obtain ⟨texts, c, hrows⟩ := p.rows
  exact hrows.rules_le

/-- Every keyword of the header has a text. -/
theorem LoadedPolicy.keyword (p : LoadedPolicy u) {k : Nat} (hk : k < p.header.keywords.length) :
    Nonempty (KeywordAt u p.header k) := by
  obtain ⟨texts, c, hrows⟩ := p.rows
  obtain ⟨rule, text, hof⟩ := hrows.rows _ (List.getElem_mem hk)
  obtain ⟨normalized, hnormalized, -, -, -⟩ := keywordEntries_row hof.grams k
  exact ⟨⟨_, rule, text, normalized, List.getElem?_eq_getElem hk, hof, hnormalized⟩⟩

/-- The keywords and masks of a loaded policy. -/
theorem populateJaccard_keywords {header : JaccardHeader} {wordBitmap : Nat → Nat}
    {m : JaccardMaps} (h : populateJaccardPolicy header wordBitmap = some m) :
    (∀ k row, header.keywords[k]? = some row → m.keywords k = some (jaccardKeyword row)) ∧
      m.wordBitmap = wordBitmap ∧
      ∃ t, (header.keywords.map jaccardKeyword).zipIdx.foldlM loadKeywordGrams .empty = some t ∧
        m.gramMasks = t.map := by
  unfold populateJaccardPolicy at h
  obtain ⟨rules, -, h⟩ := Option.bind_eq_some_iff.mp h
  obtain ⟨keywords, hkeywords, h⟩ := Option.bind_eq_some_iff.mp h
  obtain ⟨grams, hgrams, h⟩ := Option.bind_eq_some_iff.mp h
  obtain ⟨casefolds, -, h⟩ := Option.bind_eq_some_iff.mp h
  cases h
  refine ⟨fun k row hk => ?_, rfl, grams, hgrams, rfl⟩
  have := loadArray_at hkeywords (j := k) (v := jaccardKeyword row)
    (by rw [List.getElem?_map, hk]; rfl)
  rwa [Nat.zero_add] at this

/-- The vector of a gram and an occurrence. -/
theorem LoadedPolicy.masks (p : LoadedPolicy u) (key : GramKey) :
    (p.maps.gramMasks key).getD ⟨0, 0⟩ = laneVector (loadedCount (headerEntries p.header) key) := by
  obtain ⟨texts, c, hrows⟩ := p.rows
  obtain ⟨t, ht, -, hvectors⟩ := gramMasks_loaded hrows
  obtain ⟨-, -, t', ht', hmasks⟩ := populateJaccard_keywords p.loaded
  obtain rfl : t = t' := Option.some.inj (ht.symm.trans ht')
  rw [hmasks]
  exact hvectors key

/-! ## The lanes of a sum -/

/-- Lane `k` of a vector. -/
def vectorLane (k : Nat) (v : GramVector) : Nat :=
  if k < 8 then (v.low >>> (k * jaccardIntersectionBits)) &&& 63
  else (v.high >>> ((k - 8) * jaccardIntersectionBits)) &&& 63

theorem vectorLane_laneVector {f : Nat → Nat} (hf : ∀ i, f i < 2 ^ jaccardIntersectionBits)
    {k : Nat} (hk : k < jaccardMaxKeywords) : vectorLane k (laneVector f) = f k := by
  unfold vectorLane laneVector
  split_ifs with hlow
  · exact pack_lane (fun i _ => hf i) hlow
  · have hroom : k - 8 < 8 := by
      unfold jaccardMaxKeywords at hk
      omega
    have hk8 : k - 8 + 8 = k := by omega
    rw [show (63 : Nat) = 2 ^ jaccardIntersectionBits - 1 from rfl]
    rw [pack_lane (fun i _ => hf (i + 8)) hroom, hk8]

theorem maskLane_eq (m : JaccardMaps) {lane : GramVector → Nat} (hlane : lane ⟨0, 0⟩ = 0)
    (seen : List JaccardGram) (gram : JaccardGram) :
    maskLane m lane seen gram = lane ((m.gramMasks ⟨gram, seen.count gram + 1⟩).getD ⟨0, 0⟩) := by
  unfold maskLane
  cases m.gramMasks ⟨gram, seen.count gram + 1⟩ with
  | none => exact hlane.symm
  | some vector => rfl

theorem vectorLane_zero (k : Nat) : vectorLane k ⟨0, 0⟩ = 0 := by
  unfold vectorLane
  simp

section Sum
variable (p : LoadedPolicy u)

theorem loadedCount_lt (entries : List MaskEntry) (key : GramKey) (i : Nat) :
    loadedCount entries key i < 2 ^ jaccardIntersectionBits := by
  unfold loadedCount
  split_ifs <;> decide

/-- What a gram adds to a lane. -/
theorem maskLane_vectorLane {k : Nat} (hk : k < jaccardMaxKeywords) (seen : List JaccardGram)
    (gram : JaccardGram) :
    maskLane p.maps (vectorLane k) seen gram
      = loadedCount (headerEntries p.header) ⟨gram, seen.count gram + 1⟩ k := by
  rw [maskLane_eq _ (vectorLane_zero k), p.masks]
  exact vectorLane_laneVector (loadedCount_lt _ _) hk

/-- The low sum is the low eight lane sums, packed. -/
theorem laneSum_low (grams : List JaccardGram) :
    laneSum p.maps GramVector.low [] grams
      = pack jaccardIntersectionBits 8 fun k => laneSum p.maps (vectorLane k) [] grams := by
  induction grams using List.reverseRecOn with
  | nil => exact pack_zero.symm
  | append_singleton grams gram ih =>
      have hgram : maskLane p.maps GramVector.low ([] ++ grams) gram
          = pack jaccardIntersectionBits 8 fun k =>
              maskLane p.maps (vectorLane k) ([] ++ grams) gram := by
        rw [maskLane_eq _ rfl, p.masks]
        refine pack_congr fun k hk => ?_
        rw [maskLane_vectorLane p (by unfold jaccardMaxKeywords; omega)]
      simp only [laneSum_snoc]
      rw [ih, hgram, pack_add]

/-- The high sum is the high eight lane sums, packed. -/
theorem laneSum_high (grams : List JaccardGram) :
    laneSum p.maps GramVector.high [] grams
      = pack jaccardIntersectionBits 8 fun k => laneSum p.maps (vectorLane (k + 8)) [] grams := by
  induction grams using List.reverseRecOn with
  | nil => exact pack_zero.symm
  | append_singleton grams gram ih =>
      have hgram : maskLane p.maps GramVector.high ([] ++ grams) gram
          = pack jaccardIntersectionBits 8 fun k =>
              maskLane p.maps (vectorLane (k + 8)) ([] ++ grams) gram := by
        rw [maskLane_eq _ rfl, p.masks]
        refine pack_congr fun k hk => ?_
        rw [maskLane_vectorLane p (by unfold jaccardMaxKeywords; omega)]
      simp only [laneSum_snoc]
      rw [ih, hgram, pack_add]

/-- **The lane of a keyword** counts the grams shared with it. -/
theorem laneSum_keyword {k : Nat} (K : KeywordAt u p.header k) (grams : List JaccardGram) :
    laneSum p.maps (vectorLane k) [] grams = Counter.same grams K.trigrams := by
  have hk : k < jaccardMaxKeywords :=
    (List.getElem?_eq_some_iff.mp K.row_at).1.trans_le p.keywords_le
  induction grams using List.reverseRecOn with
  | nil => rfl
  | append_singleton grams gram ih =>
      rw [laneSum_snoc, ih, Counter.same_snoc, List.nil_append, maskLane_vectorLane p hk,
        loadedCount_header K.row_at K.rowOf K.normal gram (Nat.le_add_left 1 _)]
      rfl

/-- The other lanes stay empty. -/
theorem laneSum_unused {k : Nat} (hk : k < jaccardMaxKeywords)
    (hunused : p.header.keywords.length ≤ k) (grams : List JaccardGram) :
    laneSum p.maps (vectorLane k) [] grams = 0 := by
  induction grams using List.reverseRecOn with
  | nil => rfl
  | append_singleton grams gram ih =>
      rw [laneSum_snoc, ih, List.nil_append, maskLane_vectorLane p hk, loadedCount, if_neg]
      intro hmem
      obtain ⟨e, he, hin⟩ := List.mem_flatMap.mp hmem
      have hlt := (List.mem_zipIdx' he).1
      rw [List.length_map, ← fst_of_mem_keywordEntries hin] at hlt
      exact absurd hlt (not_lt.mpr hunused)

/-- No lane exceeds the number of grams a keyword may have. -/
theorem laneSum_le {k : Nat} (hk : k < jaccardMaxKeywords) (grams : List JaccardGram) :
    laneSum p.maps (vectorLane k) [] grams ≤ jaccardMaxGrams := by
  by_cases hused : k < p.header.keywords.length
  · obtain ⟨K⟩ := p.keyword hused
    rw [laneSum_keyword p K]
    obtain ⟨hlen, hle⟩ := K.length_trigrams
    exact (Counter.same_le_right _ _).trans (hlen ▸ hle)
  · rw [laneSum_unused p hk (not_lt.mp hused)]
    exact Nat.zero_le _

theorem laneSum_lt {k : Nat} (hk : k < jaccardMaxKeywords) (grams : List JaccardGram) :
    laneSum p.maps (vectorLane k) [] grams < 2 ^ jaccardIntersectionBits :=
  (laneSum_le p hk grams).trans_lt (by decide)

end Sum

/-- The two words of a query whose counters are `f`. -/
structure HoldsLanes (q : JaccardQuery) (f : Nat → Nat) : Prop where
  low : q.intersectionsLow = pack jaccardIntersectionBits 8 f
  high : q.intersectionsHigh = pack jaccardIntersectionBits 8 fun k => f (k + 8)
  fits : ∀ k < jaccardMaxKeywords, f k < 2 ^ jaccardIntersectionBits

theorem HoldsLanes.lane {q : JaccardQuery} {f : Nat → Nat} (h : HoldsLanes q f) {k : Nat}
    (hk : k < jaccardMaxKeywords) : intersectionLane q k = f k := by
  have hfits : ∀ i < 16, f i < 2 ^ jaccardIntersectionBits := h.fits
  have hk16 : k < 16 := hk
  unfold intersectionLane
  split_ifs with hlow
  · rw [h.low]
    exact pack_lane (fun i hi => hfits i (by omega)) hlow
  · have hroom : k - 8 < 8 := by omega
    have hk8 : k - 8 + 8 = k := by omega
    have hlane := pack_lane (f := fun k => f (k + 8)) (fun i hi => hfits (i + 8) (by omega)) hroom
    rw [h.high, ← congrArg f hk8]
    exact hlane

/-- **The counters of a query** are the lane sums, without a carry. -/
theorem gramQuery_lanes (p : LoadedPolicy u) {limit : Nat} {grams : List JaccardGram}
    (hlen : grams.length ≤ limit) :
    HoldsLanes (gramQuery p.maps limit grams) fun k => laneSum p.maps (vectorLane k) [] grams := by
  have hbound : ∀ k < jaccardMaxKeywords, laneSum p.maps (vectorLane k) [] grams
      < 2 ^ jaccardIntersectionBits := fun k hk => laneSum_lt p hk grams
  have hu64 : ∀ {n : Nat}, n < 2 ^ (jaccardIntersectionBits * 8) → u64 n = n := fun {n} hn =>
    Nat.mod_eq_of_lt (hn.trans (by decide))
  refine ⟨?_, ?_, hbound⟩
  · show u64 (laneSum p.maps GramVector.low [] (grams.take limit)) = _
    rw [List.take_of_length_le hlen, laneSum_low]
    exact hu64 (pack_lt fun i hi => hbound i (by unfold jaccardMaxKeywords; omega))
  · show u64 (laneSum p.maps GramVector.high [] (grams.take limit)) = _
    rw [List.take_of_length_le hlen, laneSum_high]
    exact hu64 (pack_lt fun i hi => hbound (i + 8) (by unfold jaccardMaxKeywords; omega))

end Xsr.Signals
