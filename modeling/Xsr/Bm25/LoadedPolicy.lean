import Xsr.Bm25.TermRows
import Xsr.Policy.Bm25Table

/-!
# LoadedPolicy — a BM25 policy from `parse` to the maps

`LoadedBm25` is any policy the generator accepts, whatever other methods it
has, with the maps the loader fills. Its documents lie rule by rule one
behind the other, its thresholds are numbers the scores can be compared
with, and its terms map is the table of `TermRows`.
-/

namespace Xsr.Bm25

open Kernel Lib Policy Control

/-! ## The documents -/

/-- What holds of the rules and documents at every point of `parse`. -/
structure Laid (rules : List Bm25RuleRow) (documents : List DocumentRow) : Prop where
  rules_le : rules.length ≤ bm25MaxRules
  documents_le : documents.length ≤ bm25MaxDocuments
  layout : Layout rules documents.length
  mask : ∀ rule ∈ rules, 1 ≤ rule.documentCount ∧
    rule.documentMask = documentMask rule.documentStart rule.documentCount
  threshold : ∀ rule ∈ rules, 0 ≤ rule.thresholdFixed ∧ rule.thresholdFixed ≤ maxFixedScore
  belongs : ∀ (d : Nat) document, documents[d]? = some document →
    ∃ rule, rules[document.ruleId]? = some rule ∧
      document.thresholdFixed = rule.thresholdFixed ∧
      rule.documentStart ≤ d ∧ d < rule.documentStart + rule.documentCount
  covers : ∀ (r : Nat) rule, rules[r]? = some rule → ∀ d, rule.documentStart ≤ d →
    d < rule.documentStart + rule.documentCount →
    ∃ document, documents[d]? = some document ∧ document.ruleId = r

theorem Laid.empty : Laid [] [] :=
  ⟨by decide, by decide, ⟨by simp, .nil⟩, by simp, by simp, by simp, by simp⟩

theorem thresholdFixed_ok {u : Unicode} {value : PyVal} {t : Int}
    (h : thresholdFixed u value = .ok t) : 0 ≤ t ∧ t ≤ maxFixedScore := by
  unfold thresholdFixed raiseIf at h
  obtain ⟨x, -, h⟩ := bind_ok h
  cases x with
  | nan => cases h
  | infinity negative => cases h
  | finite x =>
      dsimp only at h
      cases hq : (x.scale scoreScale).quantize with
      | none =>
          rw [hq] at h
          cases h
      | some result =>
          rw [hq] at h
          obtain ⟨_, hbound, h⟩ := bind_ok h
          cases h
          have hle := refuseIf_ok hbound
          rw [Bool.or_eq_false_iff, decide_eq_false_iff_not, decide_eq_false_iff_not] at hle
          omega

section Parse
variable {u : Unicode} {τ : Type} {w : Weigher τ}

/-- One signal adds a rule with its documents. -/
theorem parseBm25Signal_laid {d : Decisions} {s s' : Bm25Parse τ} {signal : Dict}
    (hs : Laid s.rules s.documents) (h : parseBm25Signal u w d s signal = .ok s') :
    Laid s'.rules s'.documents ∧
      ∃ name start values, w.addRule s.known name start values = .ok s'.known := by
  unfold parseBm25Signal raiseIf at h
  -- the statements of the source, one after the other
  obtain ⟨name, -, h⟩ := bind_ok h
  obtain ⟨route, -, h⟩ := bind_ok h
  obtain ⟨operator, -, h⟩ := bind_ok h
  obtain ⟨values, hvalues, h⟩ := bind_ok h
  obtain ⟨_, hroom, h⟩ := bind_ok h
  obtain ⟨threshold, hthreshold, h⟩ := bind_ok h
  obtain ⟨known, hknown, h⟩ := bind_ok h
  obtain ⟨priority, -, h⟩ := bind_ok h
  cases h
  refine ⟨?_, _, _, _, hknown⟩
  have hroom := refuseIf_ok hroom
  simp only [Bool.or_eq_false_iff, decide_eq_false_iff_not, not_le, not_lt] at hroom
  have hlen : 1 ≤ values.length :=
    List.length_pos_iff.mpr (signalKeywords_ne_nil (required_ok hvalues))
  have hadd : Layout (s.rules ++ [⟨threshold, priority, route, operator, s.documents.length,
      values.length, documentMask s.documents.length values.length⟩])
      (s.documents.length + values.length) := hs.layout.add rfl
  refine ⟨?rules_le, ?documents_le, ?layout, ?mask, ?threshold, ?belongs, ?covers⟩
  case rules_le =>
    rw [List.length_append]
    exact hroom.1
  case documents_le =>
    rw [List.length_append, List.length_map]
    exact hroom.2
  case layout =>
    rw [List.length_append, List.length_map]
    exact hadd
  case mask =>
    intro rule hrule
    rcases List.mem_append.mp hrule with hrule | hrule
    · exact hs.mask rule hrule
    · rw [List.mem_singleton.mp hrule]
      exact ⟨hlen, rfl⟩
  case threshold =>
    intro rule hrule
    rcases List.mem_append.mp hrule with hrule | hrule
    · exact hs.threshold rule hrule
    · rw [List.mem_singleton.mp hrule]
      exact thresholdFixed_ok hthreshold
  case belongs =>
    intro k document hdocument
    rw [List.getElem?_append] at hdocument
    -- an earlier document, or one of this signal
    split_ifs at hdocument with hk
    · obtain ⟨rule, hrule, hrest⟩ := hs.belongs k document hdocument
      exact ⟨rule, by rw [List.getElem?_append_left (List.getElem?_eq_some_iff.mp hrule).1, hrule],
        hrest⟩
    · rw [List.getElem?_map, Option.map_eq_some_iff] at hdocument
      obtain ⟨value, hvalue, rfl⟩ := hdocument
      have hlt := (List.getElem?_eq_some_iff.mp hvalue).1
      refine ⟨_, by rw [List.getElem?_append_right (Nat.le_refl _), Nat.sub_self]; rfl, rfl, ?_, ?_⟩
      · exact not_lt.mp hk
      · show k < s.documents.length + values.length
        omega
  case covers =>
    intro r rule hrule k hstart hend
    rw [List.getElem?_append] at hrule
    split_ifs at hrule with hr
    · obtain ⟨document, hdocument, hid⟩ := hs.covers r rule hrule k hstart hend
      exact ⟨document,
        by rw [List.getElem?_append_left (List.getElem?_eq_some_iff.mp hdocument).1, hdocument], hid⟩
    · rw [List.getElem?_singleton] at hrule
      split_ifs at hrule with hzero
      obtain rfl := Option.some.inj hrule
      have hk : ¬k < s.documents.length := not_lt.mpr hstart
      have hlt : k - s.documents.length < values.length := by
        have : k < s.documents.length + values.length := hend
        omega
      refine ⟨⟨s.rules.length, threshold⟩, ?_, ?_⟩
      · rw [List.getElem?_append_right (not_lt.mp hk), List.getElem?_map,
          List.getElem?_eq_getElem hlt]
        rfl
      · show s.rules.length = r
        omega

/-- **The documents of an accepted policy**, and what every rule keeps of
the known terms. -/
theorem parseBm25_laid {P : τ → Prop} (hinitial : P w.initial)
    (hkeeps : ∀ known name start values known', P known →
      w.addRule known name start values = .ok known' → P known')
    {policy : Dict} {header : Bm25Header} (h : parseBm25 u w policy = .ok header) :
    Laid header.rules header.documents ∧ ∃ known, P known ∧ w.terms known = .ok header.terms := by
  unfold parseBm25 at h
  obtain ⟨raws, -, h⟩ := bind_ok h
  obtain ⟨d, -, h⟩ := bind_ok h
  obtain ⟨s, hs, h⟩ := bind_ok h
  obtain ⟨terms, hterms, h⟩ := bind_ok h
  cases h
  obtain ⟨hlaid, hknown⟩ := foldlM_invariant
    (P := fun t : Bm25Parse τ => Laid t.rules t.documents ∧ P t.known) hs ⟨.empty, hinitial⟩
    fun t ht raw _ t' hraw => by
      unfold parseBm25Step at hraw
      cases hdict : raw.asDict with
      | none =>
          rw [hdict] at hraw
          cases hraw
          exact ht
      | some signal =>
          rw [hdict] at hraw
          dsimp only at hraw
          split_ifs at hraw
          · cases hraw
            exact ht
          · obtain ⟨hnext, name, start, values, hadd⟩ := parseBm25Signal_laid ht.1 hraw
            exact ⟨hnext, hkeeps _ _ _ _ _ ht.2 hadd⟩
  exact ⟨hlaid, s.known, hknown, hterms⟩

end Parse

/-! ## The terms map -/

/-- **The terms map** holds the rows of the table. -/
theorem loadTerms_map {rows : List TermRow} (hdistinct : (rows.map TermRow.hash).Nodup)
    {t : HashTable UInt32 Bm25TermWeights} (h : rows.foldlM loadTerm .empty = some t) :
    t.map = fun hash => (rows.find? fun row => row.hash == hash).map bm25TermWeights :=
  HashTable.load_map hdistinct h

theorem loadArray_of {ν : Type} {maxEntries i : Nat} {m : BpfMap Nat ν} {vs : List ν}
    (h : i + vs.length ≤ maxEntries) : ∃ m', loadArray maxEntries i m vs = some m' := by
  induction vs generalizing i m with
  | nil => exact ⟨m, rfl⟩
  | cons v vs ih =>
      rw [List.length_cons] at h
      rw [loadArray, if_pos (by omega)]
      exact ih (by omega)

theorem loadTerms_of {rows : List TermRow} {t : HashTable UInt32 Bm25TermWeights}
    (h : t.used + rows.length ≤ bm25MaxTerms) : ∃ t', rows.foldlM loadTerm t = some t' := by
  induction rows generalizing t with
  | nil => exact ⟨t, rfl⟩
  | cons row rows ih =>
      rw [List.length_cons] at h
      obtain ⟨t', hload, hused⟩ : ∃ t', loadTerm t row = some t' ∧ t'.used ≤ t.used + 1 := by
        unfold loadTerm HashTable.update
        cases t.map row.hash with
        | some _ => exact ⟨_, rfl, Nat.le_succ _⟩
        | none =>
            dsimp only
            rw [if_pos (by omega)]
            exact ⟨_, rfl, Nat.le_refl _⟩
      obtain ⟨t'', hrest⟩ := ih (t := t') (by omega)
      exact ⟨t'', by rw [List.foldlM_cons, hload]; exact hrest⟩

/-- What `parse` checks of a policy's terms and documents. -/
theorem parseBm25_table {u : Unicode} {weight : TermStats → Int} {lines : List (List Char)}
    {policy : Dict} {header : Bm25Header}
    (h : parseBm25 u (termWeigher u weight lines) policy = .ok header) :
    Laid header.rules header.documents ∧ ∃ T : WeightTable, T.rows = header.terms := by
  obtain ⟨hlaid, known, hknown, hterms⟩ := parseBm25_laid (P := KnownChecked)
    ⟨by simp [Hashes, termWeigher], by simp [AllBounded, termWeigher]⟩
    (fun known name start values known' hk hadd => hk.addKeywords hadd) h
  exact ⟨hlaid, termRows_ok hknown hterms⟩

/-- **Every policy `parse` accepts can be loaded.** -/
theorem parseBm25_loads {u : Unicode} {weight : TermStats → Int} {lines : List (List Char)}
    {policy : Dict} {header : Bm25Header}
    (h : parseBm25 u (termWeigher u weight lines) policy = .ok header) :
    ∃ maps, populateBm25Policy header = some maps := by
  obtain ⟨hlaid, T, hrows⟩ := parseBm25_table h
  have hrules := hlaid.rules_le
  have hfits := hrows ▸ T.fits
  obtain ⟨rules, hrules⟩ : ∃ rules, loadArray bm25MaxRules 0
      (zeroedArray bm25MaxRules ⟨0, 0, .coding, .or, 0, 0, 0⟩) (header.rules.map bm25Rule)
        = some rules :=
    loadArray_of (by rwa [List.length_map, Nat.zero_add])
  obtain ⟨terms, hterms⟩ : ∃ terms, header.terms.foldlM loadTerm .empty = some terms :=
    loadTerms_of ((Nat.zero_add _).trans_le hfits)
  refine ⟨⟨some (bm25Config header), rules, terms.map⟩, ?_⟩
  rw [populateBm25Policy, hrules, hterms]
  rfl

/-- A BM25 policy that `parse` accepts and `populate_bm25_policy` loads. The
weights are computed by `weight` and `lines` is the vocabulary file. -/
structure LoadedBm25 (u : Unicode) (weight : TermStats → Int) (lines : List (List Char)) where
  policy : Dict
  header : Bm25Header
  parsed : parseBm25 u (termWeigher u weight lines) policy = .ok header
  maps : Bm25Maps
  loaded : populateBm25Policy header = some maps

namespace LoadedBm25
variable {u : Unicode} {weight : TermStats → Int} {lines : List (List Char)}
  (L : LoadedBm25 u weight lines)

/-- An accepted policy with the maps it loads into. -/
theorem of_parsed {policy : Dict} {header : Bm25Header}
    (h : parseBm25 u (termWeigher u weight lines) policy = .ok header) :
    ∃ L : LoadedBm25 u weight lines, L.policy = policy ∧ L.header = header := by
  obtain ⟨maps, hmaps⟩ := parseBm25_loads h
  exact ⟨⟨policy, header, h, maps, hmaps⟩, rfl, rfl⟩

theorem laid : Laid L.header.rules L.header.documents := (parseBm25_table L.parsed).1

/-- **The maps of a loaded policy**: its configuration, its rules and its
table. -/
theorem maps_ok : L.maps.config = some (bm25Config L.header) ∧
    (∀ i row, L.header.rules[i]? = some row → L.maps.rules i = some (bm25Rule row)) ∧
    ∃ T : WeightTable, T.rows = L.header.terms ∧ L.maps.terms = T.terms := by
  obtain ⟨hconfig, hrules⟩ := populateBm25_rules L.loaded
  obtain ⟨T, hT⟩ := (parseBm25_table L.parsed).2
  refine ⟨hconfig, hrules, T, hT, ?_⟩
  have h := L.loaded
  unfold populateBm25Policy at h
  obtain ⟨rules, -, h⟩ := Option.bind_eq_some_iff.mp h
  obtain ⟨terms, hterms, h⟩ := Option.bind_eq_some_iff.mp h
  obtain hmaps := Option.some.inj h
  rw [← hmaps]
  show terms.map = _
  rw [loadTerms_map (hT ▸ T.distinct) hterms, ← hT]
  rfl

end LoadedBm25

end Xsr.Bm25
