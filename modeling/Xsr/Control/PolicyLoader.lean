import Xsr.Policy.Bm25Header

/-!
# PolicyLoader — the generated rows in the policy maps

`populate_jaccard_policy` (`sk_router.c`) and `populate_bm25_policy`
(`keyword_policy_loader.h`) on freshly created maps. The generated header
is C, so each number is cut to the width of its field. An update fails for
a key outside an array map and for a new key in a full hash map.
-/

namespace Xsr.Control

open Kernel Policy

/-! ## Maps with a capacity -/

section Maps
variable {κ ν : Type} [DecidableEq κ]

/-- An array map as it is created: every entry is there. -/
def zeroedArray (maxEntries : Nat) (zero : ν) : BpfMap Nat ν := fun i =>
  if i < maxEntries then some zero else none

/-- Write the elements of an array from entry `i` on. -/
def loadArray (maxEntries : Nat) : Nat → BpfMap Nat ν → List ν → Option (BpfMap Nat ν)
  | _, m, [] => some m
  | i, m, v :: vs => if i < maxEntries then loadArray maxEntries (i + 1) (m.update i v) vs else none

/-- A hash map with the number of its entries. -/
structure HashTable (κ ν : Type) where
  map : BpfMap κ ν
  used : Nat

/-- A hash map as it is created. -/
def HashTable.empty : HashTable κ ν := ⟨fun _ => none, 0⟩

/-- `bpf_map_update_elem(…, BPF_ANY)` on a hash map of `maxEntries` entries. -/
def HashTable.update (maxEntries : Nat) (t : HashTable κ ν) (k : κ) (v : ν) :
    Option (HashTable κ ν) :=
  match t.map k with
  | some _ => some { t with map := t.map.update k v }
  | none => if t.used < maxEntries then some ⟨t.map.update k v, t.used + 1⟩ else none

theorem loadArray_before {maxEntries : Nat} {vs : List ν} {i : Nat} {m m' : BpfMap Nat ν}
    (h : loadArray maxEntries i m vs = some m') {k : Nat} (hk : k < i) : m' k = m k := by
  induction vs generalizing i m with
  | nil => cases h; rfl
  | cons v vs ih =>
      rw [loadArray] at h
      split_ifs at h
      rw [ih h (by omega), BpfMap.update_ne _ _ (by omega)]

/-- The entries written. -/
theorem loadArray_at {maxEntries : Nat} {vs : List ν} {i : Nat} {m m' : BpfMap Nat ν}
    (h : loadArray maxEntries i m vs = some m') {j : Nat} {v : ν} (hj : vs[j]? = some v) :
    m' (i + j) = some v := by
  induction vs generalizing i j m with
  | nil => simp at hj
  | cons w vs ih =>
      rw [loadArray] at h
      split_ifs at h
      cases j with
      | zero =>
          rw [loadArray_before h (by omega)]
          simpa using hj
      | succ j =>
          rw [show i + (j + 1) = i + 1 + j by omega]
          exact ih h (by simpa using hj)

/-- **A hash map that was loaded** row by row holds the row of each key. -/
theorem HashTable.load_map {α : Type} {maxEntries : Nat} {key : α → κ} {value : α → ν}
    {rows : List α} (hdistinct : (rows.map key).Nodup) {t : HashTable κ ν}
    (h : rows.foldlM (fun t row => HashTable.update maxEntries t (key row) (value row)) .empty
      = some t) :
    t.map = fun k => (rows.find? fun row => key row = k).map value := by
  induction rows using List.reverseRecOn generalizing t with
  | nil =>
      cases h
      rfl
  | append_singleton rows row ih =>
      rw [List.map_append, List.nodup_append] at hdistinct
      rw [List.foldlM_append] at h
      obtain ⟨t', ht', hlast⟩ := Option.bind_eq_some_iff.mp h
      have hmap := ih hdistinct.1 ht'
      have hnew : rows.find? (fun other => key other = key row) = none :=
        List.find?_eq_none.mpr fun other hother heq => hdistinct.2.2 (key other)
          (List.mem_map_of_mem hother) (key row) (by simp) (of_decide_eq_true heq)
      have hupdate : t.map = t'.map.update (key row) (value row) := by
        simp only [List.foldlM_cons, List.foldlM_nil, HashTable.update] at hlast
        cases hold : t'.map (key row) with
        | some old =>
            rw [hold] at hlast
            cases hlast
            rfl
        | none =>
            rw [hold] at hlast
            dsimp only at hlast
            split_ifs at hlast
            · cases hlast
              rfl
            · cases hlast
      rw [hupdate, hmap]
      funext k
      rw [List.find?_append]
      by_cases hk : k = key row
      · subst hk
        rw [BpfMap.update_self, hnew]
        simp
      · rw [BpfMap.update_ne _ _ hk]
        simp [Ne.symm hk]

end Maps

/-! ## The n-gram policy -/

/-- A number in a `__u32` field. -/
def cU32 (z : Int) : Nat := (z % 4294967296).toNat
/-- A number in a `__u8` field. -/
def cU8 (z : Int) : Nat := (z % 256).toNat

/-- `xdp_jaccard_generated_rules[…]` -/
def jaccardRule (row : RuleRow) : JaccardRule where
  thresholdMilli := cU32 row.thresholdMilli
  priority := cU32 row.priority
  route := row.route
  operator := row.operator
  arity := cU8 row.arity
  caseSensitive := row.caseSensitive
  keywordCount := cU8 row.keywordCount

/-- `{.a, .b, .c}` -/
def jaccardGram (gram : List Nat) : JaccardGram :=
  ⟨gram.getD 0 0, gram.getD 1 0, gram.getD 2 0⟩

/-- `xdp_jaccard_generated_keywords[…]` -/
def jaccardKeyword (row : KeywordRow) : JaccardKeyword where
  count := row.grams.length
  totalGrams := row.totalGrams
  grams := row.grams.map jaccardGram ++
    List.replicate (jaccardMaxGrams - row.grams.length) ⟨0, 0, 0⟩
  gramCounts := row.counts.map (fun n => cU8 n) ++
    List.replicate (jaccardMaxGrams - row.counts.length) 0
  ruleId := cU8 row.ruleId

/-- `xdp_jaccard_generated_config` -/
def jaccardConfig (header : JaccardHeader) : JaccardConfig where
  keywordCount := header.keywords.length
  ruleCount := header.rules.length
  caseSensitive := match header.rules with
    | rule :: _ => rule.caseSensitive
    | [] => false

/-- The capacity of `xdp_jaccard_gram_masks`. -/
def gramMaskCapacity : Nat := jaccardMaxKeywords * jaccardMaxGrams

/-- The bit of keyword `key` in `vector`. -/
def setLane (key : Nat) (vector : GramVector) : GramVector :=
  if key < 8 then { vector with low := vector.low ||| 1 <<< (key * jaccardIntersectionBits) }
  else { vector with high := vector.high ||| 1 <<< ((key - 8) * jaccardIntersectionBits) }

/-- One occurrence of one gram of keyword `key`. -/
def loadOccurrence (key : Nat) (gram : JaccardGram) (t : HashTable GramKey GramVector)
    (occurrence : Nat) : Option (HashTable GramKey GramVector) :=
  t.update gramMaskCapacity ⟨gram, occurrence⟩
    (setLane key ((t.map ⟨gram, occurrence⟩).getD ⟨0, 0⟩))

/-- The grams of keyword `key`, each with its occurrences from 1 on. -/
def loadKeywordGrams (t : HashTable GramKey GramVector) (keyword : JaccardKeyword × Nat) :
    Option (HashTable GramKey GramVector) :=
  ((keyword.1.grams.zip keyword.1.gramCounts).take keyword.1.count).foldlM
    (fun t gram => (List.range' 1 gram.2).foldlM (loadOccurrence keyword.2 gram.1) t) t

/-- One case fold. -/
def loadCasefold (t : HashTable Nat Nat) (fold : Nat × Nat) : Option (HashTable Nat Nat) :=
  t.update maxCasefolds fold.1 fold.2

/-- `populate_jaccard_policy`, with the word bitmap of the compiled program. -/
def populateJaccardPolicy (header : JaccardHeader) (wordBitmap : Nat → Nat) :
    Option JaccardMaps := do
  let rules ← loadArray jaccardMaxRules 0
    (zeroedArray jaccardMaxRules ⟨0, 0, .coding, .or, 0, false, 0⟩) (header.rules.map jaccardRule)
  let keywords ← loadArray jaccardMaxKeywords 0
    (zeroedArray jaccardMaxKeywords
      ⟨0, 0, List.replicate jaccardMaxGrams ⟨0, 0, 0⟩, List.replicate jaccardMaxGrams 0, 0⟩)
    (header.keywords.map jaccardKeyword)
  let grams ← (header.keywords.map jaccardKeyword).zipIdx.foldlM loadKeywordGrams .empty
  let casefolds ← header.casefolds.foldlM loadCasefold .empty
  return ⟨some (jaccardConfig header), rules, keywords, grams.map, casefolds.map, wordBitmap⟩

/-! ## The BM25 policy -/

/-- A number in a `__u16` field. -/
def cU16 (n : Nat) : Nat := n % 65536

/-- `xdp_bm25_generated_rules[…]` -/
def bm25Rule (row : Bm25RuleRow) : Bm25Rule where
  thresholdFixed := s64 row.thresholdFixed
  priority := cU32 row.priority
  route := row.route
  operator := row.operator
  documentStart := cU8 row.documentStart
  documentCount := cU8 row.documentCount
  documentMask := cU16 row.documentMask

/-- `xdp_bm25_generated_config` -/
def bm25Config (header : Bm25Header) : Bm25Config where
  ruleCount := header.rules.length
  documentCount := header.documents.length
  thresholdsFixed := fun i =>
    match header.documents[i]? with
    | some document => s64 document.thresholdFixed
    | none => 0

/-- `xdp_bm25_generated_terms[…].value` -/
def bm25TermWeights (row : TermRow) : Bm25TermWeights where
  weights := fun i => s64 (row.weights.getD i 0)
  token := fun i => row.token.getD i 0
  tokenLength := cU8 row.token.length
  stopword := row.stopword

/-- `XDP_BM25_MAX_TERMS` -/
def bm25MaxTerms : Nat := 2048

/-- One term. -/
def loadTerm (t : HashTable UInt32 Bm25TermWeights) (row : TermRow) :
    Option (HashTable UInt32 Bm25TermWeights) :=
  t.update bm25MaxTerms row.hash (bm25TermWeights row)

/-- `populate_bm25_policy` -/
def populateBm25Policy (header : Bm25Header) : Option Bm25Maps := do
  let rules ← loadArray bm25MaxRules 0
    (zeroedArray bm25MaxRules ⟨0, 0, .coding, .or, 0, 0, 0⟩) (header.rules.map bm25Rule)
  let terms ← header.terms.foldlM loadTerm .empty
  return ⟨some (bm25Config header), rules, terms.map⟩

/-! ## What is loaded -/

/-- The rule table of a loaded n-gram policy. -/
theorem populateJaccard_rules {header : JaccardHeader} {wordBitmap : Nat → Nat}
    {m : JaccardMaps} (h : populateJaccardPolicy header wordBitmap = some m) :
    m.config = some (jaccardConfig header) ∧
      ∀ i row, header.rules[i]? = some row → m.rules i = some (jaccardRule row) := by
  unfold populateJaccardPolicy at h
  obtain ⟨rules, hrules, h⟩ := Option.bind_eq_some_iff.mp h
  obtain ⟨keywords, -, h⟩ := Option.bind_eq_some_iff.mp h
  obtain ⟨grams, -, h⟩ := Option.bind_eq_some_iff.mp h
  obtain ⟨casefolds, -, h⟩ := Option.bind_eq_some_iff.mp h
  cases h
  refine ⟨rfl, fun i row hi => ?_⟩
  have := loadArray_at hrules (j := i) (v := jaccardRule row) (by rw [List.getElem?_map, hi]; rfl)
  rwa [Nat.zero_add] at this

/-- The rule table of a loaded BM25 policy. -/
theorem populateBm25_rules {header : Bm25Header} {m : Bm25Maps}
    (h : populateBm25Policy header = some m) :
    m.config = some (bm25Config header) ∧
      ∀ i row, header.rules[i]? = some row → m.rules i = some (bm25Rule row) := by
  unfold populateBm25Policy at h
  obtain ⟨rules, hrules, h⟩ := Option.bind_eq_some_iff.mp h
  obtain ⟨terms, -, h⟩ := Option.bind_eq_some_iff.mp h
  cases h
  refine ⟨rfl, fun i row hi => ?_⟩
  have := loadArray_at hrules (j := i) (v := bm25Rule row) (by rw [List.getElem?_map, hi]; rfl)
  rwa [Nat.zero_add] at this

end Xsr.Control
