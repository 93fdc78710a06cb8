import Xsr.Bm25.WordByWord

/-!
# Prompts — the scores of a whole prompt

The reference stems the words of a prompt and adds up weights; the kernel
looks the words up. Where the rows of these words are right, the scores of
all documents agree exactly when no word that has a stem of the policy is
missing in the table.
-/

namespace Xsr.Bm25

open Kernel Lib Policy Control OrderedDict Regex

/-! ## The reference -/

/-- `fixed_scores` of `bm25_reference.py`, with the generator's weights: each
token of the query once, with the number of its occurrences. -/
def fixedScores (weight : TermStats → Int) (query : List Char) (keywords : List String) :
    List Int :=
  (ruleCorpus weight keywords).map fun document =>
    ((collect (tokenizeQuery query)).map fun token =>
      document.weight token * ((tokenizeQuery query).count token : Int)).sum

/-- **Counting the tokens first** changes no score. -/
theorem fixedScores_eq (weight : TermStats → Int) (query : List Char) (keywords : List String) :
    fixedScores weight query keywords = keywordScores weight query keywords := by
  refine List.map_congr_left fun document _ => ?_
  rw [sum_collect]

/-! ## Every weight is positive -/

section Positive
variable {u : Unicode} {weight : TermStats → Int} {lines : List (List Char)}

/-- `parse` refuses a keyword with a stem that weighs nothing. -/
theorem addKeywords_positive {known known' : KnownTerms} {name : String} {start : Nat}
    {texts : List String} (h : addKeywords u weight known name start texts = .ok known') :
    ∀ d ∈ ruleCorpus weight texts, ∀ stem ∈ d.stems, 0 < d.weigh stem := by
  unfold addKeywords raiseIf at h
  obtain ⟨tokens, htokens, h⟩ := bind_ok h
  obtain ⟨_, -, h⟩ := bind_ok h
  obtain ⟨_, -, h⟩ := bind_ok h
  obtain ⟨_, -, h⟩ := bind_ok h
  obtain rfl : tokens = corpus texts := mapM_eq_map (fun _ _ => tokenize_ok) htokens
  have hterm : ∀ {document : List Word} {id : Nat} (t : KnownTerms) (stem : Word) (t' : KnownTerms),
      addTerm u weight (corpus texts) document id t stem = .ok t' →
      0 < weight (termStats (corpus texts) document stem) := by
    intro document id t stem t' hadd
    unfold addTerm raiseIf at hadd
    obtain ⟨_, -, hadd⟩ := bind_ok hadd
    obtain ⟨_, hbound, -⟩ := bind_ok hadd
    have hbound := refuseIf_ok hbound
    simp only [Bool.not_eq_false', Bool.and_eq_true, decide_eq_true_eq] at hbound
    exact hbound.1
  have hdocument : ∀ (t : KnownTerms) (document : List Word × Nat) (t' : KnownTerms),
      addDocument u weight (corpus texts) t document = .ok t' →
      ∀ stem ∈ document.1, 0 < weight (termStats (corpus texts) document.1 stem) :=
    fun t document t' hadd stem hstem =>
      foldlM_forall hadd hterm stem (mem_collect.mpr hstem)
  intro d hd stem hstem
  obtain ⟨document, hmem, rfl⟩ := List.mem_map.mp hd
  obtain ⟨i, hi, rfl⟩ := List.mem_iff_getElem.mp hmem
  have hzip : ((corpus texts)[i], start + i) ∈ (corpus texts).zipIdx start :=
    List.mk_add_mem_zipIdx_iff_getElem?.mpr (List.getElem?_eq_getElem hi)
  exact foldlM_forall h hdocument _ hzip stem hstem

/-- **Every stem of a document** has a positive weight there. -/
theorem Fills.positive {texts : List (List String)} {n : Nat} {known : KnownTerms}
    (h : Fills (termWeigher u weight lines) texts n known) :
    ∀ d ∈ documents weight texts, ∀ stem ∈ d.stems, 0 < d.weigh stem := by
  induction h with
  | start => simp [documents]
  | rule filled room added ih =>
      intro d hd
      rw [documents, List.flatMap_append, List.mem_append] at hd
      rcases hd with hd | hd
      · exact ih d hd
      · rw [List.flatMap_singleton] at hd
        exact addKeywords_positive added d hd

end Positive

/-! ## Words and stems -/

attribute [local instance] lawfulWord

namespace LoadedBm25
variable {u : Unicode} {weight : TermStats → Int} {lines : List (List Char)}
  (L : LoadedBm25 u weight lines)

/-- What the reference adds to the score of document `d` for a word. -/
def stemWeight (d : Nat) (w : Word) : Int :=
  if w ∈ englishStopWords then 0 else (L.vector (stemEnglish w)).getD d 0

/-- The row of a word, where there is one, is that of its stem. -/
def RowAgrees (w : Word) : Prop := ∀ row ∈ L.header.terms, row.token = w →
  row.weights = if w ∈ englishStopWords then zeroWeights else L.vector (stemEnglish w)

/-- Every word of the prompt that has a stem of the policy has a row. -/
def Covers (prompt : List Char) : Prop :=
  ∀ w ∈ contentWords (queryText prompt), stemEnglish w ∈ L.stems →
    ∃ row ∈ L.header.terms, row.token = w

/-- The rows of an unambiguous policy all agree. -/
theorem rowAgrees_of_unambiguous (h : L.Unambiguous) (w : Word) : L.RowAgrees w := by
  obtain ⟨hstop, hstemmed⟩ := L.rows_agree_iff.mpr h
  rintro row hrow rfl
  by_cases hmem : row.token ∈ englishStopWords
  · rw [if_pos hmem]
    exact (hstop row hrow hmem).2
  · rw [if_neg hmem]
    exact hstemmed row hrow hmem

/-- The scores of the reference are sums over the words of the prompt. -/
theorem fixedScores_getD (prompt : List Char) {d : Nat} (hd : d < L.header.documents.length) :
    (L.texts.flatMap (fixedScores weight prompt)).getD d 0
      = ((findall asciiWord (queryText prompt)).map (L.stemWeight d)).sum := by
  have hwords : ∀ words : List Word, ((words.filter fun w => w ∉ englishStopWords).map
      fun w => (L.vector (stemEnglish w)).getD d 0).sum = (words.map (L.stemWeight d)).sum := by
    intro words
    induction words with
    | nil => rfl
    | cons w words ih =>
        rw [List.map_cons, List.sum_cons, ← ih, stemWeight]
        by_cases hmem : w ∈ englishStopWords
        · rw [if_pos hmem, List.filter_cons_of_neg (by simpa using hmem), zero_add]
        · rw [if_neg hmem, List.filter_cons_of_pos (by simpa using hmem), List.map_cons,
            List.sum_cons]
  have hreference : L.texts.flatMap (fixedScores weight prompt)
      = L.texts.flatMap (keywordScores weight prompt) :=
    congrArg (List.flatMap · L.texts) (funext fun _ => fixedScores_eq weight prompt _)
  rw [hreference, L.keywordScores_getD prompt hd, tokenizeQuery, List.map_map, ← hwords]
  rfl

/-- The vector of a stem that is no stem of the policy is zero. -/
theorem vector_zero {stem : Word} (h : stem ∉ L.stems) : L.vector stem = zeroWeights := by
  refine corpusVector_zero ?_ fun d hd hin => h (mem_stemsOf.mpr ⟨d, hd, hin⟩)
  rw [L.length_documents]
  exact L.laid.documents_le

/-- No entry of a vector is negative, and the one of a document with the
stem is positive. -/
theorem vector_getD (stem : Word) {d : Nat} (hd : d < (documents weight L.texts).length) :
    0 ≤ (L.vector stem).getD d 0 ∧
      (stem ∈ (documents weight L.texts)[d].stems → 0 < (L.vector stem).getD d 0) := by
  obtain ⟨known, hfills, -⟩ := parseBm25_fills L.parsed
  have hpositive := hfills.positive _ (List.getElem_mem hd)
  have hentry : (L.vector stem).getD d 0 = ((documents weight L.texts)[d]).weight stem := by
    rw [vector, corpusVector, List.getD_append _ _ _ _ (by rw [List.length_map]; exact hd),
      List.getD_eq_getElem _ _ (by rw [List.length_map]; exact hd), List.getElem_map]
  rw [hentry, Document.weight]
  split_ifs with hin
  · exact ⟨(hpositive stem hin).le, fun _ => hpositive stem hin⟩
  · exact ⟨le_refl _, fun h => absurd h hin⟩

section Lookup
variable {T : WeightTable} (hT : T.rows = L.header.terms)
include hT

/-- A word with a row weighs the same for both. -/
theorem tokenWeight_of_row {w : Word} (hagrees : L.RowAgrees w)
    (h : ∃ row ∈ L.header.terms, row.token = w) (d : Nat) :
    tokenWeight T.toTermTable d w = L.stemWeight d w := by
  obtain ⟨row, hrow, rfl⟩ := h
  have hentry : T.entry row.token = some row :=
    TermTable.entry_eq_some_iff.mpr ⟨hT ▸ hrow, rfl⟩
  rw [tokenWeight, hentry, stemWeight]
  show row.weights.getD d 0 = _
  rw [hagrees row hrow rfl]
  split_ifs with hmem
  · simp [zeroWeights]
  · rfl

/-- A word without a row weighs nothing in the kernel. -/
theorem tokenWeight_of_missing {w : Word} (h : ¬∃ row ∈ L.header.terms, row.token = w) (d : Nat) :
    tokenWeight T.toTermTable d w = 0 := by
  have hentry : T.entry w = none := by
    refine Option.eq_none_iff_forall_ne_some.mpr fun row hsome => h ?_
    obtain ⟨hrow, htoken⟩ := TermTable.entry_eq_some_iff.mp hsome
    exact ⟨row, hT ▸ hrow, htoken⟩
  rw [tokenWeight, hentry]

/-- The kernel never gives a word more than the reference. -/
theorem tokenWeight_le {w : Word} (hagrees : L.RowAgrees w) {d : Nat}
    (hd : d < L.header.documents.length) : tokenWeight T.toTermTable d w ≤ L.stemWeight d w := by
  by_cases h : ∃ row ∈ L.header.terms, row.token = w
  · exact (L.tokenWeight_of_row hT hagrees h d).le
  · rw [L.tokenWeight_of_missing hT h, stemWeight]
    split_ifs
    · exact le_refl _
    · exact (L.vector_getD _ (L.length_documents.symm ▸ hd)).1

/-- **One word**: both give it the same weight in every document exactly
when it has a row, or is a stop word, or has no stem of the policy. -/
theorem tokenWeight_iff {w : Word} (hagrees : L.RowAgrees w) :
    (∀ d < L.header.documents.length, tokenWeight T.toTermTable d w = L.stemWeight d w) ↔
      (w ∉ englishStopWords → stemEnglish w ∈ L.stems → ∃ row ∈ L.header.terms, row.token = w) := by
  constructor
  · intro h hcontent hstem
    by_contra hmissing
    obtain ⟨document, hdocument, hin⟩ := mem_stemsOf.mp hstem
    obtain ⟨d, hd, rfl⟩ := List.mem_iff_getElem.mp hdocument
    have hpositive := (L.vector_getD (stemEnglish w) hd).2 hin
    have hequal := h d (L.length_documents ▸ hd)
    rw [L.tokenWeight_of_missing hT hmissing, stemWeight, if_neg hcontent] at hequal
    omega
  · intro h d hd
    by_cases hrow : ∃ row ∈ L.header.terms, row.token = w
    · exact L.tokenWeight_of_row hT hagrees hrow d
    · rw [L.tokenWeight_of_missing hT hrow, stemWeight]
      split_ifs with hmem
      · rfl
      · have hstem : stemEnglish w ∉ L.stems := fun hin => hrow (h hmem hin)
        rw [L.vector_zero hstem]
        simp [zeroWeights]

/-- **The score of one document** is that of the reference exactly when each
word of the prompt weighs the same for both. -/
theorem score_iff (hterms : L.maps.terms = T.terms) {prompt : List Char}
    (hagree : ∀ w ∈ findall asciiWord (queryText prompt), L.RowAgrees w)
    (huniform : AllUniform (queryText prompt))
    (hlen : (encodeUtf8 prompt).length ≤ maxStreamRequestBytes) {d : Nat}
    (hd : d < L.header.documents.length) :
    (scorePrompt L.maps (encodeUtf8 prompt)).scores d
        = (L.texts.flatMap (fixedScores weight prompt)).getD d 0 ↔
      ∀ w ∈ findall asciiWord (queryText prompt),
        tokenWeight T.toTermTable d w = L.stemWeight d w := by
  have hexact := scorePrompt_exact L.maps_ok.1 hterms hlen
  rw [closedTokens_uniform L.maps huniform] at hexact
  have hle : ∀ w ∈ findall asciiWord (queryText prompt),
      tokenWeight T.toTermTable d w ≤ L.stemWeight d w :=
    fun w hw => L.tokenWeight_le hT (hagree w hw) hd
  rw [hexact.scores d (hd.trans_le L.laid.documents_le), L.fixedScores_getD prompt hd, finalScore]
  constructor
  · intro hsum w hw
    by_contra hne
    exact absurd hsum (List.sum_lt_sum _ _ hle ⟨w, hw, lt_of_le_of_ne (hle w hw) hne⟩).ne
  · intro hall
    exact congrArg List.sum (List.map_congr_left hall)

/-- A covered prompt has no word that weighs less in the kernel. -/
theorem covers_iff {prompt : List Char}
    (hagree : ∀ w ∈ findall asciiWord (queryText prompt), L.RowAgrees w) :
    L.Covers prompt ↔ ∀ w ∈ findall asciiWord (queryText prompt),
      ∀ d < L.header.documents.length, tokenWeight T.toTermTable d w = L.stemWeight d w := by
  simp only [Covers, contentWords, List.mem_filter, decide_eq_true_eq, and_imp]
  exact forall₂_congr fun w hw => (L.tokenWeight_iff hT (hagree w hw)).symm

end Lookup

/-- **A whole prompt.** For every accepted policy and every prompt that both
tokenizers cut alike and whose words have the rows of their stems, the
kernel's score of every document is that of `fixed_scores` exactly when every
word with a stem of the policy has a row. -/
theorem prompt_scores_iff {prompt : List Char}
    (hagree : ∀ w ∈ findall asciiWord (queryText prompt), L.RowAgrees w)
    (huniform : AllUniform (queryText prompt))
    (hlen : (encodeUtf8 prompt).length ≤ maxStreamRequestBytes) :
    (∀ d < L.header.documents.length, (scorePrompt L.maps (encodeUtf8 prompt)).scores d
        = (L.texts.flatMap (fixedScores weight prompt)).getD d 0) ↔ L.Covers prompt := by
  obtain ⟨-, -, T, hT, hterms⟩ := L.maps_ok
  rw [L.covers_iff hT hagree]
  constructor
  · exact fun h w hw d hd => (L.score_iff hT hterms hagree huniform hlen hd).mp (h d hd) w hw
  · exact fun h d hd =>
      (L.score_iff hT hterms hagree huniform hlen hd).mpr fun w hw => h w hw d hd

end LoadedBm25

/-- The rows of the policy of `compose` agree on its keyword. -/
theorem compose_rowAgrees {L : LoadedBm25 Unicode.asciiTables composeWeight []}
    (hpolicy : L.policy = composePolicy) : L.RowAgrees (ascii "compose") := by
  have hstems : L.stems = [ascii "compos"] := by
    rw [LoadedBm25.stems, LoadedBm25.texts, hpolicy]
    rfl
  have hstem : stemEnglish (ascii "compose") = ascii "compos" := by decide
  have hcontent : ascii "compose" ∉ englishStopWords := by decide +kernel
  rintro row hrow htoken
  rw [if_neg hcontent, hstem]
  rcases L.rows_ok.1 row hrow with ⟨before, stem, behind, halias⟩ | ⟨hstop, -⟩
  · have hmem : stem ∈ L.stems := by
      rw [halias.order]
      exact List.mem_append_right _ List.mem_cons_self
    rw [hstems, List.mem_singleton] at hmem
    rw [halias.weights, hmem]
  · exact absurd (htoken ▸ hstop) hcontent

/-- The keyword has a row. -/
theorem compose_row {L : LoadedBm25 Unicode.asciiTables composeWeight []}
    (hpolicy : L.policy = composePolicy) :
    ∃ row ∈ L.header.terms, row.token = ascii "compose" := by
  have htexts : L.texts = [["compose"]] := by
    rw [LoadedBm25.texts, hpolicy]
    rfl
  have hstem : stemEnglish (ascii "compose") ∈ L.stems := by
    rw [LoadedBm25.stems, htexts]
    decide +kernel
  refine (L.rows_ok.2 _ hstem _ ?_).imp fun row h => ⟨h.1, h.2.1⟩
  rw [LoadedBm25.aliases, htexts]
  decide +kernel

/-- The words of the prompt `compose`. -/
theorem compose_words : findall asciiWord (queryText "compose".toList) = [ascii "compose"] := by
  decide

/-- The prompt `compose` under the policy of its keyword. -/
theorem prompt_scores_iff_compose : ∃ L : LoadedBm25 Unicode.asciiTables composeWeight [],
    L.policy = composePolicy ∧
      ((∀ d < L.header.documents.length,
        (scorePrompt L.maps (encodeUtf8 "compose".toList)).scores d
          = (L.texts.flatMap (fixedScores composeWeight "compose".toList)).getD d 0) ↔
        L.Covers "compose".toList) := by
  obtain ⟨L, hpolicy, -⟩ := compose_parsed
  refine ⟨L, hpolicy, L.prompt_scores_iff (fun w hw => ?_)
    (LoadedBm25.allUniform_of_findall compose_words) (by decide)⟩
  rw [compose_words, List.mem_singleton] at hw
  exact hw ▸ compose_rowAgrees hpolicy

end Xsr.Bm25
