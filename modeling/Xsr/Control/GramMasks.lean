import Xsr.Control.PolicyLoader
import Xsr.Lib.Lanes
import Xsr.Policy.JaccardKeywords

/-!
# GramMasks — the gram masks of a loaded n-gram policy

The loader walks through keywords, grams and occurrences and sets one bit
for each. Written out as one list of entries, the load of a header that
`parse` returned has no entry twice and fits the map, and afterwards the
vector of a gram and an occurrence has the bits of exactly those keywords
that contain the gram so many times.
-/

namespace Xsr.Control

open Kernel Lib Policy

/-! ## The load as a list of entries -/

/-- What `loadOccurrence` is called with: a keyword and a key of the map. -/
abbrev MaskEntry := Nat × GramKey

/-- One entry of the load. -/
def loadEntry (t : HashTable GramKey GramVector) (e : MaskEntry) :
    Option (HashTable GramKey GramVector) :=
  loadOccurrence e.1 e.2.gram t e.2.occurrence

/-- The entries of one keyword. -/
def keywordEntries (keyword : JaccardKeyword × Nat) : List MaskEntry :=
  ((keyword.1.grams.zip keyword.1.gramCounts).take keyword.1.count).flatMap fun gram =>
    (List.range' 1 gram.2).map fun occurrence => (keyword.2, ⟨gram.1, occurrence⟩)

theorem fst_of_mem_keywordEntries {keyword : JaccardKeyword × Nat} {e : MaskEntry}
    (h : e ∈ keywordEntries keyword) : e.1 = keyword.2 := by
  obtain ⟨gram, -, he⟩ := List.mem_flatMap.mp h
  obtain ⟨occurrence, -, rfl⟩ := List.mem_map.mp he
  rfl

theorem loadKeywordGrams_eq (t : HashTable GramKey GramVector) (keyword : JaccardKeyword × Nat) :
    loadKeywordGrams t keyword = (keywordEntries keyword).foldlM loadEntry t := by
  have hstep : (fun (t : HashTable GramKey GramVector) (gram : JaccardGram × Nat) =>
      (List.range' 1 gram.2).foldlM (loadOccurrence keyword.2 gram.1) t)
      = fun t gram => ((List.range' 1 gram.2).map fun occurrence =>
          ((keyword.2, ⟨gram.1, occurrence⟩) : MaskEntry)).foldlM loadEntry t := by
    funext t gram
    rw [List.foldlM_map]
    rfl
  rw [keywordEntries, foldlM_flatMap, loadKeywordGrams, hstep]

/-! ## The vectors -/

/-- Sixteen counters in the two words of a vector. -/
def laneVector (f : Nat → Nat) : GramVector :=
  ⟨pack jaccardIntersectionBits 8 f, pack jaccardIntersectionBits 8 fun i => f (i + 8)⟩

/-- Setting the bit of a keyword whose lane is empty. -/
theorem setLane_laneVector {f : Nat → Nat} (hf : ∀ i, f i < 2 ^ jaccardIntersectionBits) {k : Nat}
    (hk : k < jaccardMaxKeywords) (hempty : f k = 0) :
    setLane k (laneVector f) = laneVector fun i => f i + unit k i := by
  have hbits : 0 < jaccardIntersectionBits := by decide
  unfold setLane laneVector
  split_ifs with hlow
  · have hhigh : ∀ i < 8, f (i + 8) = f (i + 8) + unit k (i + 8) := fun i _ => by
      rw [unit, if_neg (by omega)]
      rfl
    rw [Nat.one_shiftLeft, pack_or_unit hbits (fun i _ => hf i) hlow hempty, pack_congr hhigh]
  · have hk8 : k - 8 + 8 = k := by omega
    have hlane : ∀ i < 8, f (i + 8) + unit (k - 8) i = f (i + 8) + unit k (i + 8) := fun i _ => by
      have hiff : i = k - 8 ↔ i + 8 = k := by omega
      simp only [unit, hiff]
    have hlowlanes : ∀ i < 8, f i = f i + unit k i := fun i hi => by
      rw [unit, if_neg (by omega)]
      rfl
    have hroom : k - 8 < 8 := by
      unfold jaccardMaxKeywords at hk
      omega
    rw [Nat.one_shiftLeft, pack_or_unit hbits (fun i _ => hf (i + 8)) hroom (by rw [hk8, hempty]),
      pack_congr hlane, pack_congr hlowlanes]

/-- Whether an entry was loaded, as a count. -/
def loadedCount (entries : List MaskEntry) (key : GramKey) (i : Nat) : Nat :=
  if (i, key) ∈ entries then 1 else 0

/-- A map after the entries `entries`. -/
structure Masks (t : HashTable GramKey GramVector) (entries : List MaskEntry) : Prop where
  vectors : ∀ key, (t.map key).getD ⟨0, 0⟩ = laneVector (loadedCount entries key)
  used : t.used ≤ entries.length

theorem Masks.empty : Masks .empty [] := by
  refine ⟨fun key => ?_, Nat.le_refl _⟩
  have hzero : loadedCount [] key = fun _ => 0 := funext fun i => if_neg (by simp)
  rw [hzero, laneVector, pack_zero]
  rfl

/-- One more entry. -/
theorem Masks.entry {t : HashTable GramKey GramVector} {entries : List MaskEntry}
    (h : Masks t entries) {e : MaskEntry} (hnew : e ∉ entries) (hk : e.1 < jaccardMaxKeywords)
    (hroom : entries.length < gramMaskCapacity) :
    ∃ t', loadEntry t e = some t' ∧ Masks t' (entries ++ [e]) := by
  have hcount : ∀ key i, loadedCount entries key i < 2 ^ jaccardIntersectionBits := fun key i => by
    unfold loadedCount
    split_ifs <;> decide
  have hempty : loadedCount entries e.2 e.1 = 0 := if_neg hnew
  have hlane := setLane_laneVector (hcount e.2) hk hempty
  have hvectors : ∀ key, (BpfMap.update t.map e.2
      (setLane e.1 ((t.map e.2).getD ⟨0, 0⟩)) key).getD ⟨0, 0⟩
        = laneVector (loadedCount (entries ++ [e]) key) := by
    intro key
    -- the lane of the entry's keyword gains one, all others are kept
    by_cases hkey : key = e.2
    · subst hkey
      rw [BpfMap.update_self, h.vectors, hlane, Option.getD_some]
      refine congrArg laneVector (funext fun i => ?_)
      by_cases hi : i = e.1
      · subst hi
        simp [loadedCount, unit, hnew]
      · have hne : (i, e.2) ≠ e := fun heq => hi (congrArg Prod.fst heq)
        simp [loadedCount, unit, hi, hne]
    · have hsame : loadedCount (entries ++ [e]) key = loadedCount entries key := funext fun i => by
        have hne : (i, key) ≠ e := fun heq => hkey (congrArg Prod.snd heq)
        simp [loadedCount, hne]
      rw [BpfMap.update_ne _ _ hkey, hsame]
      exact h.vectors key
  have hlen : (entries ++ [e]).length = entries.length + 1 := by simp
  unfold loadEntry loadOccurrence HashTable.update
  have heta : (⟨e.2.gram, e.2.occurrence⟩ : GramKey) = e.2 := rfl
  rw [heta]
  have hused := h.used
  cases hold : t.map e.2 with
  | some vector =>
      rw [hold] at hvectors
      exact ⟨_, rfl, hvectors, by rw [hlen]; exact Nat.le_succ_of_le hused⟩
  | none =>
      rw [hold] at hvectors
      dsimp only
      rw [if_pos (by omega)]
      exact ⟨_, rfl, hvectors, by rw [hlen]; exact Nat.succ_le_succ hused⟩

/-- **A load without repetitions** that fits the map succeeds and sets
exactly its bits. -/
theorem masks_of_entries {entries : List MaskEntry} (hnodup : entries.Nodup)
    (hkeys : ∀ e ∈ entries, e.1 < jaccardMaxKeywords)
    (hroom : entries.length ≤ gramMaskCapacity) :
    ∃ t, entries.foldlM loadEntry .empty = some t ∧ Masks t entries := by
  induction entries using List.reverseRecOn with
  | nil => exact ⟨_, rfl, .empty⟩
  | append_singleton entries e ih =>
      rw [List.nodup_append] at hnodup
      rw [List.length_append, List.length_singleton] at hroom
      obtain ⟨t, ht, hmasks⟩ := ih hnodup.1 (fun e' he' => hkeys e' (by simp [he'])) (by omega)
      have hnew : e ∉ entries := fun hmem => hnodup.2.2 e hmem e (by simp) rfl
      obtain ⟨t', ht', hmasks'⟩ := hmasks.entry hnew (hkeys e (by simp)) (by omega)
      refine ⟨t', ?_, hmasks'⟩
      rw [List.foldlM_append, ht]
      simpa using ht'

/-! ## The entries of a header -/

/-- The trigrams of a normalised keyword, as the kernel holds them. -/
def keywordTrigrams (normalized : List Char) : List JaccardGram :=
  (keywordGrams normalized).map jaccardGram

theorem jaccardGram_inj {g g' : List Nat} (hg : g.length = 3) (hg' : g'.length = 3)
    (h : jaccardGram g = jaccardGram g') : g = g' := by
  obtain ⟨a, b, c, rfl⟩ := List.length_eq_three.mp hg
  obtain ⟨a', b', c', rfl⟩ := List.length_eq_three.mp hg'
  simpa [jaccardGram] using h

theorem count_keywordTrigrams {normalized : List Char} {gram : List Nat}
    (h : gram ∈ keywordGrams normalized) :
    (keywordTrigrams normalized).count (jaccardGram gram) = (keywordGrams normalized).count gram := by
  have hlen := length_of_mem_keywordGrams h
  have hall : ∀ g ∈ keywordGrams normalized, g.length = 3 := fun g hg =>
    length_of_mem_keywordGrams hg
  rw [keywordTrigrams]
  generalize keywordGrams normalized = grams at hall
  clear h
  induction grams with
  | nil => rfl
  | cons g grams ih =>
      have hg := hall g (by simp)
      have ih := ih fun g' hg' => hall g' (by simp [hg'])
      rw [List.map_cons, List.count_cons, List.count_cons, ih]
      by_cases heq : g = gram
      · simp [heq]
      · have hne : jaccardGram g ≠ jaccardGram gram := fun h => heq (jaccardGram_inj hg hlen h)
        simp [heq, hne]

/-- The entries of a keyword that `gram_counts` made a row of. -/
theorem keywordEntries_row {u : Unicode} {text : List Char} {caseSensitive : Bool} {ruleId : Nat}
    {row : KeywordRow} (h : gramCounts u text caseSensitive ruleId = .ok row) (k : Nat) :
    ∃ normalized, normalize u text caseSensitive = .ok normalized ∧
      (keywordTrigrams normalized).length = row.totalGrams ∧
      row.totalGrams ≤ jaccardMaxGrams ∧
      keywordEntries (jaccardKeyword row, k) =
        (OrderedDict.collect (keywordGrams normalized)).flatMap fun gram =>
          (List.range' 1 ((keywordGrams normalized).count gram)).map fun occurrence =>
            (k, ⟨jaccardGram gram, occurrence⟩) := by
  obtain ⟨normalized, hnormalized, hlen, rfl⟩ := gramCounts_ok h
  refine ⟨normalized, hnormalized, List.length_map _, hlen, ?_⟩
  have hcount : ∀ gram, cU8 ((keywordGrams normalized).count gram : Nat)
      = (keywordGrams normalized).count gram := fun gram => by
    have : (keywordGrams normalized).count gram ≤ (keywordGrams normalized).length :=
      List.count_le_length
    unfold cU8 jaccardMaxGrams at *
    omega
  rw [keywordEntries, jaccardKeyword, distinctGrams_eq]
  simp only [bind_pure_comp, List.map_eq_map, List.map_map]
  rw [List.zip_append (by simp), List.take_append_of_le_length (by simp),
    List.take_of_length_le (by simp), List.zip_map', List.flatMap_map]
  simp only [Function.comp_apply, hcount]

/-- The entries of one keyword, as the loader walks through them. -/
structure EntriesOf (trigrams : List JaccardGram) (k : Nat) (entries : List MaskEntry) : Prop where
  length : entries.length = trigrams.length
  nodup : entries.Nodup
  mem : ∀ e, e ∈ entries ↔
    e.1 = k ∧ 1 ≤ e.2.occurrence ∧ e.2.occurrence ≤ trigrams.count e.2.gram

theorem entriesOf_keyword {u : Unicode} {text : List Char} {caseSensitive : Bool} {ruleId : Nat}
    {row : KeywordRow} (h : gramCounts u text caseSensitive ruleId = .ok row) (k : Nat) :
    ∃ normalized, normalize u text caseSensitive = .ok normalized ∧
      (keywordTrigrams normalized).length = row.totalGrams ∧
      row.totalGrams ≤ jaccardMaxGrams ∧
      EntriesOf (keywordTrigrams normalized) k (keywordEntries (jaccardKeyword row, k)) := by
  obtain ⟨normalized, hnormalized, htotal, hle, hentries⟩ := keywordEntries_row h k
  refine ⟨normalized, hnormalized, htotal, hle, ?_⟩
  rw [hentries]
  have hnodup : (OrderedDict.collect (keywordGrams normalized)).Nodup := OrderedDict.nodup_collect _
  have hmem : ∀ gram, gram ∈ OrderedDict.collect (keywordGrams normalized)
      ↔ gram ∈ keywordGrams normalized := fun gram => OrderedDict.mem_collect
  constructor
  -- the occurrences of every distinct gram add up to all the grams
  · have hperm : (OrderedDict.collect (keywordGrams normalized)).Perm
        (keywordGrams normalized).dedup :=
      (List.perm_ext_iff_of_nodup hnodup (List.nodup_dedup _)).mpr fun gram => by
        rw [hmem, List.mem_dedup]
    rw [List.length_flatMap]
    simp only [List.length_map, List.length_range']
    rw [(hperm.map _).sum_eq, keywordTrigrams, List.length_map]
    convert List.sum_map_count_dedup_eq_length (keywordGrams normalized)
    rfl
  · refine List.nodup_flatMap.mpr ⟨fun gram _ => ?_, ?_⟩
    · refine List.Nodup.map (fun o o' ho => ?_) List.nodup_range'
      exact congrArg (fun e : MaskEntry => e.2.occurrence) ho
    · refine hnodup.imp_of_mem fun {g g'} hg hg' hne => ?_
      intro e he he'
      obtain ⟨o, -, rfl⟩ := List.mem_map.mp he
      obtain ⟨o', -, heq⟩ := List.mem_map.mp he'
      have hgram := congrArg (fun e : MaskEntry => e.2.gram) heq
      exact hne (jaccardGram_inj (length_of_mem_keywordGrams ((hmem g').mp hg'))
        (length_of_mem_keywordGrams ((hmem g).mp hg)) hgram).symm
  · intro e
    rw [List.mem_flatMap]
    constructor
    · rintro ⟨gram, hgram, he⟩
      obtain ⟨o, ho, rfl⟩ := List.mem_map.mp he
      rw [List.mem_range'_1] at ho
      rw [count_keywordTrigrams ((hmem gram).mp hgram)]
      refine ⟨rfl, ho.1, ?_⟩
      dsimp only
      omega
    · rintro ⟨hk, hpos, hcount⟩
      have hin : e.2.gram ∈ keywordTrigrams normalized := List.count_pos_iff.mp (by omega)
      obtain ⟨gram, hgram, hgeq⟩ := List.mem_map.mp hin
      rw [← hgeq, count_keywordTrigrams hgram] at hcount
      refine ⟨gram, (hmem gram).mpr hgram, List.mem_map.mpr ⟨e.2.occurrence, ?_, ?_⟩⟩
      · rw [List.mem_range'_1]
        omega
      · rw [hgeq, ← hk]

/-- All entries of a header. -/
def headerEntries (header : JaccardHeader) : List MaskEntry :=
  (header.keywords.map jaccardKeyword).zipIdx.flatMap keywordEntries

/-- **The gram masks of a header that `parse` returned** fit their map, and
the vector of a gram and an occurrence has the bits of the keywords that
contain the gram so often. -/
theorem gramMasks_loaded {u : Unicode} {header : JaccardHeader} {texts : List (List Char)}
    {c : Option Bool} (h : RowsChecked u ⟨header.rules, header.keywords, texts, c⟩) :
    ∃ t, (header.keywords.map jaccardKeyword).zipIdx.foldlM loadKeywordGrams .empty = some t ∧
      t.used ≤ gramMaskCapacity ∧
      ∀ key, (t.map key).getD ⟨0, 0⟩ = laneVector (loadedCount (headerEntries header) key) := by
  have hrow : ∀ e ∈ (header.keywords.map jaccardKeyword).zipIdx, ∃ trigrams : List JaccardGram,
      trigrams.length ≤ jaccardMaxGrams ∧ EntriesOf trigrams e.2 (keywordEntries e) := by
    intro e he
    obtain ⟨hlt, hget⟩ := List.mem_zipIdx' he
    rw [List.getElem_map] at hget
    obtain ⟨rule, text, hof⟩ := h.rows _ (List.getElem_mem (by simpa using hlt))
    obtain ⟨normalized, -, htotal, hle, hentries⟩ := entriesOf_keyword hof.grams e.2
    rw [← hget] at hentries
    exact ⟨_, htotal ▸ hle, hentries⟩
  have hlen : (header.keywords.map jaccardKeyword).zipIdx.length ≤ jaccardMaxKeywords := by
    rw [List.length_zipIdx, List.length_map]
    exact h.keywords_le
  have hnodup : (headerEntries header).Nodup := by
    refine List.nodup_flatMap.mpr ⟨fun e he => ?_, ?_⟩
    · obtain ⟨trigrams, -, hentries⟩ := hrow e he
      exact hentries.nodup
    · have hidx : (header.keywords.map jaccardKeyword).zipIdx.Pairwise fun e e' => e.2 ≠ e'.2 := by
        have hsnd : (List.range' 0 (header.keywords.map jaccardKeyword).length).Nodup :=
          List.nodup_range'
        rw [← List.zipIdx_map_snd] at hsnd
        exact List.pairwise_map.mp hsnd
      refine hidx.imp fun {e e'} hne => ?_
      intro x hx hx'
      exact hne ((fst_of_mem_keywordEntries hx).symm.trans (fst_of_mem_keywordEntries hx'))
  have hkeys : ∀ x ∈ headerEntries header, x.1 < jaccardMaxKeywords := by
    intro x hx
    obtain ⟨e, he, hxe⟩ := List.mem_flatMap.mp hx
    rw [fst_of_mem_keywordEntries hxe]
    have := (List.mem_zipIdx' he).1
    rw [List.length_map] at this
    exact this.trans_le h.keywords_le
  -- 32 grams for each of 16 keywords, which is the size of the map
  have hroom : (headerEntries header).length ≤ gramMaskCapacity := by
    rw [headerEntries, List.length_flatMap]
    refine (List.sum_le_card_nsmul _ jaccardMaxGrams fun n hn => ?_).trans ?_
    · obtain ⟨e, he, rfl⟩ := List.mem_map.mp hn
      obtain ⟨trigrams, hle, hentries⟩ := hrow e he
      rw [hentries.length]
      exact hle
    · rw [List.length_map, smul_eq_mul]
      exact Nat.mul_le_mul_right _ hlen
  obtain ⟨t, ht, hmasks⟩ := masks_of_entries hnodup hkeys hroom
  refine ⟨t, ?_, hmasks.used.trans hroom, hmasks.vectors⟩
  rw [headerEntries, foldlM_flatMap] at ht
  rw [← ht]
  exact congrFun (congrFun (congrArg _ (funext₂ loadKeywordGrams_eq)) _) _

/-- Which keywords have a gram so often. -/
theorem loadedCount_header {u : Unicode} {header : JaccardHeader} {k : Nat}
    {row : KeywordRow} (hrow : header.keywords[k]? = some row) {rule : RuleRow} {text : List Char}
    (hof : RowOf u header.rules row rule text) {normalized : List Char}
    (hnormalized : normalize u text rule.caseSensitive = .ok normalized) (gram : JaccardGram)
    {occurrence : Nat} (hpos : 1 ≤ occurrence) :
    loadedCount (headerEntries header) ⟨gram, occurrence⟩ k
      = if occurrence ≤ (keywordTrigrams normalized).count gram then 1 else 0 := by
  obtain ⟨normalized', hnormalized', -, -, hentries⟩ := entriesOf_keyword hof.grams k
  obtain rfl : normalized = normalized' := Except.ok.inj (hnormalized.symm.trans hnormalized')
  have hat : (header.keywords.map jaccardKeyword)[k]? = some (jaccardKeyword row) := by
    rw [List.getElem?_map, hrow]
    rfl
  have hiff : (k, ⟨gram, occurrence⟩) ∈ headerEntries header
      ↔ occurrence ≤ (keywordTrigrams normalized).count gram := by
    constructor
    · intro hmem
      obtain ⟨e, he, hin⟩ := List.mem_flatMap.mp hmem
      -- an entry under `k` comes from the keyword at `k`
      have hk : k = e.2 := fst_of_mem_keywordEntries hin
      have hget := List.mem_zipIdx_iff_getElem?.mp he
      rw [← hk, hat] at hget
      have heq : e = (jaccardKeyword row, k) := Prod.ext (Option.some.inj hget).symm hk.symm
      rw [heq] at hin
      exact ((hentries.mem _).mp hin).2.2
    · intro hle
      refine List.mem_flatMap.mpr ⟨(jaccardKeyword row, k), ?_, ?_⟩
      · exact List.mem_zipIdx_iff_getElem?.mpr hat
      · exact (hentries.mem _).mpr ⟨rfl, hpos, hle⟩
  unfold loadedCount
  simp only [hiff]

end Xsr.Control
