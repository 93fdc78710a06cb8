import Xsr.Bm25.AliasRows
import Xsr.Bm25.Agreement
import Xsr.Bm25.TokenCount

/-!
# WordByWord — the term table against the tokenizer

The kernel looks a word up; the reference stems it and drops stop words.
Row by row the two agree exactly when no alias is a stop word and every
stem that the stemmer changes keeps the vector of what it is changed to.
-/

namespace Xsr.Bm25

open Kernel Lib Policy Control OrderedDict Regex

/-- `keyword_scores` of `bm25_reference.py` for a rule with these keywords,
with the generator's weights. -/
def keywordScores (weight : TermStats → Int) (query : List Char) (keywords : List String) :
    List Int :=
  (ruleCorpus weight keywords).map fun document =>
    ((tokenizeQuery query).map document.weight).sum

namespace LoadedBm25
variable {u : Unicode} {weight : TermStats → Int} {lines : List (List Char)}
  (L : LoadedBm25 u weight lines)

/-- The keyword texts of the policy. -/
def texts : List (List String) := keywordTexts u L.policy

/-- The stems of the policy, in the order of their first occurrence. -/
def stems : List Word := stemsOf (textWords L.texts.flatten)

/-- The vocabulary aliases of a stem. -/
def aliases (stem : Word) : List Word := policyAliases u lines L.texts stem

/-- The corpus vector of a stem. -/
def vector (stem : Word) : List Int := corpusVector (documents weight L.texts) stem

/-- The term table agrees with the tokenizer word by word, and so does the
kernel on the query that is one word of the table. -/
structure WordByWord : Prop where
  stopWords : ∀ row ∈ L.header.terms, row.token ∈ englishStopWords →
    row.stopword = true ∧ row.weights = zeroWeights
  stemmed : ∀ row ∈ L.header.terms, row.token ∉ englishStopWords →
    row.weights = L.vector (stemEnglish row.token)
  queries : ∀ row ∈ L.header.terms, ∀ query : List Char, queryText query = row.token →
    findall asciiWord row.token = [row.token] → ∀ d < L.header.documents.length,
      (scorePrompt L.maps (encodeUtf8 query)).scores d
        = (L.texts.flatMap (keywordScores weight query)).getD d 0

/-- No alias is a stop word, and a stem that is no stem of its own has the
vector of its stem, or is an alias of it and comes before it. -/
structure Unambiguous : Prop where
  content : ∀ stem ∈ L.stems, ∀ w ∈ L.aliases stem, w ∉ englishStopWords
  restemmed : ∀ stem ∈ L.stems, stemEnglish stem ≠ stem →
    L.vector (stemEnglish stem) = L.vector stem ∨
      stem ∈ L.aliases (stemEnglish stem) ∧
        ∃ before behind, L.stems = before ++ stem :: behind ∧ stemEnglish stem ∈ behind

/-! ## The rows -/

/-- The row of a word that is an alias: the last stem it is an alias of. -/
structure AliasRow (row : TermRow) (before : List Word) (stem : Word) (behind : List Word) :
    Prop where
  order : L.stems = before ++ stem :: behind
  isAlias : row.token ∈ L.aliases stem
  last : ∀ other ∈ behind, row.token ∉ L.aliases other
  weights : row.weights = L.vector stem
  counted : row.stopword = false

/-- **The rows of the table**: one for each alias, and stop words. -/
theorem rows_ok :
    (∀ row ∈ L.header.terms, (∃ before stem behind, L.AliasRow row before stem behind) ∨
      row.token ∈ englishStopWords ∧ row.stopword = true ∧ row.weights = zeroWeights) ∧
    ∀ stem ∈ L.stems, ∀ w ∈ L.aliases stem, ∃ row ∈ L.header.terms, row.token = w ∧
      ∃ before stem behind, L.AliasRow row before stem behind := by
  obtain ⟨known, hfills, hterms⟩ := parseBm25_fills L.parsed
  obtain ⟨hknown, -⟩ := hfills.corpus
  obtain ⟨s, stopwords, hloops, hperm, -⟩ := termRows_parts hterms
  have hwrites := hknown.writes hloops.aliases
  have hdistinct : (keys s.vectors).Nodup :=
    (foldlM_invariant (P := AliasChecked) hloops.aliases
      ⟨hknown.tokens, by simp [keys], by simp [keys], by simp⟩
      fun t ht entry _ t' hentry => ht.addAliases hknown.vectors hentry).distinct
  have hrow : ∀ row, row ∈ aliasRows s ↔ ∃ w vector, lastWrite _ w = some vector ∧
      row = ⟨tokenHash w, w, vector, false⟩ := fun _ => mem_aliasRows hwrites hdistinct
  refine ⟨fun row hmem => ?_, fun stem hstem w hw => ?_⟩
  · rcases List.mem_append.mp (hperm.mem_iff.mp hmem) with hmem | hmem
    · obtain ⟨w, vector, hlast, rfl⟩ := (hrow row).mp hmem
      obtain ⟨before, stem, behind, horder, halias, hbehind, hvector⟩ := lastWrite_iff.mp hlast
      exact .inl ⟨before, stem, behind, horder, halias, hbehind, hvector, rfl⟩
    · exact .inr (stopRows_ok hloops.stops row hmem)
  · obtain ⟨vector, hlast⟩ : ∃ vector, lastWrite (aliasWrites (policyAliases u lines L.texts)
        (corpusVector (documents weight L.texts)) L.stems) w = some vector := by
      obtain ⟨before, behind, horder⟩ := List.append_of_mem hstem
      cases hlast : lastWrite (aliasWrites (policyAliases u lines L.texts)
          (corpusVector (documents weight L.texts)) L.stems) w with
      | some vector => exact ⟨vector, rfl⟩
      | none =>
          have hmem : (w, corpusVector (documents weight L.texts) stem) ∈
              aliasWrites (policyAliases u lines L.texts)
                (corpusVector (documents weight L.texts)) L.stems :=
            List.mem_flatMap.mpr ⟨stem, hstem, List.mem_map_of_mem hw⟩
          have hnone := List.lookup_eq_none_iff.mp hlast _ (List.mem_reverse.mpr hmem)
          exact absurd hnone (by simp)
    obtain ⟨before, other, behind, horder, halias, hbehind, hvector⟩ := lastWrite_iff.mp hlast
    refine ⟨⟨tokenHash w, w, vector, false⟩, ?_, rfl, before, other, behind, horder, halias,
      hbehind, hvector, rfl⟩
    exact hperm.mem_iff.mpr (List.mem_append_left _ ((hrow _).mpr ⟨w, vector, hlast, rfl⟩))

/-- An alias is the stem or has it. -/
theorem alias_stem {stem w : Word} (h : w ∈ L.aliases stem) : w = stem ∨ stemEnglish w = stem :=
  stem_of_alias (fun _ => stemEnglish_of_mem_surfaces) h

/-- **Row by row**, without the queries. -/
theorem rows_agree_iff :
    ((∀ row ∈ L.header.terms, row.token ∈ englishStopWords →
        row.stopword = true ∧ row.weights = zeroWeights) ∧
      ∀ row ∈ L.header.terms, row.token ∉ englishStopWords →
        row.weights = L.vector (stemEnglish row.token)) ↔ L.Unambiguous := by
  obtain ⟨hrows, haliases⟩ := L.rows_ok
  constructor
  · rintro ⟨hstop, hstemmed⟩
    have hcontent : ∀ stem ∈ L.stems, ∀ w ∈ L.aliases stem, w ∉ englishStopWords := by
      intro stem hstem w hw hmem
      obtain ⟨row, hrow, rfl, before, other, behind, halias⟩ := haliases stem hstem w hw
      have hflag := (hstop row hrow hmem).1
      rw [halias.counted] at hflag
      cases hflag
    refine ⟨hcontent, fun stem hstem hne => ?_⟩
    -- the row of the stem as a word was written by the stem, or by a later one
    have hself : stem ∈ L.aliases stem := stem_mem_aliases _
    obtain ⟨row, hrow, htoken, before, other, behind, halias⟩ := haliases stem hstem stem hself
    have hweights := hstemmed row hrow (by rw [htoken]; exact hcontent stem hstem stem hself)
    rw [halias.weights, htoken] at hweights
    have hother := halias.isAlias
    rw [htoken] at hother
    rcases L.alias_stem hother with rfl | hstemOf
    · exact .inl hweights.symm
    · -- the row is that of the stem's stem, which comes later
      refine .inr ⟨hstemOf ▸ hother, ?_⟩
      have hbefore : stem ∈ before := by
        have hmem := hstem
        rw [halias.order, List.mem_append, List.mem_cons] at hmem
        rcases hmem with hmem | hmem | hmem
        · exact hmem
        · exact absurd (hstemOf.trans hmem.symm) hne
        · exact absurd hself (htoken ▸ halias.last stem hmem)
      obtain ⟨first, rest, rfl⟩ := List.append_of_mem hbefore
      refine ⟨first, rest ++ other :: behind, ?_, ?_⟩
      · rw [halias.order, List.append_assoc, List.cons_append]
      · rw [hstemOf]
        exact List.mem_append_right _ List.mem_cons_self
  · intro h
    constructor
    · intro row hrow hmem
      rcases hrows row hrow with ⟨before, stem, behind, halias⟩ | ⟨-, hstop, hweights⟩
      · refine absurd hmem (h.content stem ?_ _ halias.isAlias)
        rw [halias.order]
        exact List.mem_append_right _ List.mem_cons_self
      · exact ⟨hstop, hweights⟩
    · intro row hrow hcontent
      rcases hrows row hrow with ⟨before, stem, behind, halias⟩ | ⟨hmem, -⟩
      · have hstem : stem ∈ L.stems := by
          rw [halias.order]
          exact List.mem_append_right _ List.mem_cons_self
        rw [halias.weights]
        rcases L.alias_stem halias.isAlias with htoken | htoken
        · rw [htoken]
          -- a stem that stems to itself has its own vector
          by_cases hsame : stemEnglish stem = stem
          · rw [hsame]
          · rcases h.restemmed stem hstem hsame with heq | ⟨hin, first, rest, horder, hlater⟩
            · exact heq.symm
            · -- the stem's stem would have written the row later
              have hnodup : L.stems.Nodup := nodup_stemsOf _
              rw [horder, List.nodup_middle, List.nodup_cons, List.mem_append, not_or] at hnodup
              have hsplit := (List.append_cons_inj_of_notMem hnodup.1.1 hnodup.1.2).mp
                (horder.symm.trans halias.order)
              have hnot := halias.last (stemEnglish stem) (hsplit.2.2 ▸ hlater)
              rw [htoken] at hnot
              exact absurd hin hnot
        · rw [htoken]
      · exact absurd hmem hcontent

/-! ## Queries of one word -/

/-- The word is one word of the pattern. -/
theorem allUniform_of_findall {w : Word} (h : findall asciiWord w = [w]) : AllUniform w := by
  cases w with
  | nil => cases h
  | cons c s =>
      have huniform : Uniform (c :: s) := by
        cases hc : alnum c with
        | true =>
            obtain ⟨m, rest, hfirst⟩ := first_asciiWord_some hc s
            rw [findall_match hfirst (by simp)] at h
            exact (List.cons.inj h).1 ▸ uniform_of_first hfirst
        | false =>
            rw [findall_skip (first_asciiWord_none hc s)] at h
            have hmem : c :: s ∈ findall asciiWord s := by
              rw [h]
              exact List.mem_singleton_self _
            have hlen := length_of_mem_findallFrom hmem
            rw [List.length_cons] at hlen
            omega
      exact fun v hv _ => huniform.infix hv

/-- The kernel's scores of a query that is a word of the table. -/
theorem scores_word {row : TermRow} (hrow : row ∈ L.header.terms) {query : List Char}
    (hquery : queryText query = row.token) (hword : findall asciiWord row.token = [row.token])
    {d : Nat} (hd : d < bm25MaxDocuments) :
    (scorePrompt L.maps (encodeUtf8 query)).scores d = row.weights.getD d 0 := by
  obtain ⟨hconfig, -, T, hT, hterms⟩ := L.maps_ok
  have hclosed : closedTokens L.maps (encodeUtf8 query) = [row.token] := by
    rw [closedTokens_uniform L.maps, hquery, hword]
    rw [hquery]
    exact allUniform_of_findall hword
  have hclosing := closing_prompt L.maps (encodeUtf8 query)
  rw [hclosed] at hclosing
  have hroom : [row.token].countP (counted T.toTermTable) ≤ bm25MaxQueryTokens :=
    List.countP_le_length.trans (Nat.one_le_iff_ne_zero.mpr (by decide))
  have hentry : T.entry row.token = some row :=
    TermTable.entry_eq_some_iff.mpr ⟨hT ▸ hrow, rfl⟩
  rw [(hclosing.scored hconfig hterms hroom).scores d hd, finalScore, List.map_singleton,
    List.sum_singleton, tokenWeight, hentry]

/-- The documents of the policy are those of its header. -/
theorem length_documents : (documents weight L.texts).length = L.header.documents.length := by
  obtain ⟨known, hfills, -⟩ := parseBm25_fills L.parsed
  exact hfills.corpus.2

/-- The reference's scores, document by document. -/
theorem keywordScores_getD (query : List Char) {d : Nat} (hd : d < L.header.documents.length) :
    (L.texts.flatMap (keywordScores weight query)).getD d 0
      = ((tokenizeQuery query).map fun stem => (L.vector stem).getD d 0).sum := by
  have hflat : L.texts.flatMap (keywordScores weight query) =
      (documents weight L.texts).map fun document =>
        ((tokenizeQuery query).map document.weight).sum := by
    rw [documents, List.map_flatMap]
    rfl
  rw [← L.length_documents] at hd
  have hvector : ∀ stem, (L.vector stem).getD d 0 = ((documents weight L.texts)[d]).weight stem := by
    intro stem
    rw [vector, corpusVector, List.getD_append _ _ _ _ (by rw [List.length_map]; exact hd),
      List.getD_eq_getElem _ _ (by rw [List.length_map]; exact hd), List.getElem_map]
  rw [hflat, List.getD_eq_getElem _ _ (by rw [List.length_map]; exact hd), List.getElem_map]
  exact congrArg List.sum (List.map_congr_left fun stem _ => (hvector stem).symm)

/-- **Word by word.** For every accepted policy, the generated table and the
scores of one-word queries agree with the reference tokenizer exactly when
no alias of a stem is a stop word and every stem that is not its own stem
has the vector of its stem, or is an alias of it and comes before it. -/
theorem wordByWord_iff : L.WordByWord ↔ L.Unambiguous := by
  refine ⟨fun h => L.rows_agree_iff.mp ⟨h.stopWords, h.stemmed⟩, fun h => ?_⟩
  obtain ⟨hstop, hstemmed⟩ := L.rows_agree_iff.mpr h
  refine ⟨hstop, hstemmed, fun row hrow query hquery hword d hd => ?_⟩
  have hlimit := hd.trans_le L.laid.documents_le
  have htokens : tokenizeQuery query =
      if row.token ∈ englishStopWords then [] else [stemEnglish row.token] := by
    rw [tokenizeQuery, contentWords, hquery, hword, List.filter_singleton]
    by_cases hmem : row.token ∈ englishStopWords
    · simp [hmem]
    · simp [hmem]
  rw [L.scores_word hrow hquery hword hlimit, L.keywordScores_getD query hd, htokens]
  by_cases hmem : row.token ∈ englishStopWords
  · rw [if_pos hmem, (hstop row hrow hmem).2]
    simp [zeroWeights]
  · rw [if_neg hmem, hstemmed row hrow hmem, List.map_singleton, List.sum_singleton]

end LoadedBm25

/-! ## A stem with another stem -/

theorem stopWords_hash_nodup : (englishStopWords.map tokenHash).Nodup := by
  -- on numbers, which the kernel compares fast
  have hnat : (englishStopWords.map fun w => (tokenHash w).toNat).Pairwise
      fun a b => a.beq b = false := by decide +kernel
  rw [List.pairwise_map] at hnat
  refine List.pairwise_map.mpr (hnat.imp fun {v w} hne heq => ?_)
  rw [heq, Nat.beq_refl] at hne
  cases hne

/-- The stop words under their hashes. -/
def stopWordHashes : List (UInt32 × Word) := englishStopWords.map fun w => (tokenHash w, w)

/-- **All stop words are added** where no hash is taken. -/
theorem stopWords_added {u : Unicode} {tokens : List (UInt32 × Word)}
    (h : ∀ w ∈ englishStopWords, tokens.lookup (tokenHash w) = none) :
    englishStopWords.foldlM (addStopWord u tokens) [] = .ok stopWordHashes := by
  have hloop : ∀ rest done : List Word, ((done ++ rest).map tokenHash).Nodup →
      (∀ w ∈ rest, tokens.lookup (tokenHash w) = none) →
      rest.foldlM (addStopWord u tokens) (done.map fun w => (tokenHash w, w))
        = .ok ((done ++ rest).map fun w => (tokenHash w, w)) := by
    intro rest
    induction rest with
    | nil =>
        intro done _ _
        rw [List.append_nil]
        rfl
    | cons w rest ih =>
        intro done hnodup hfree
        have hkeys : keys (done.map fun w => (tokenHash w, w)) = done.map tokenHash := by
          rw [keys, List.map_map]
          rfl
        have hnew : tokenHash w ∉ keys (done.map fun w => (tokenHash w, w)) := by
          rw [List.map_append, List.map_cons, List.nodup_append] at hnodup
          rw [hkeys]
          exact fun hmem => hnodup.2.2 _ hmem _ List.mem_cons_self rfl
        have hlookup : (done.map fun w => (tokenHash w, w)).lookup (tokenHash w) = none := by
          rw [← Option.not_isSome_iff_eq_none, lookup_isSome_iff]
          exact hnew
        have hadd : addStopWord u tokens (done.map fun w => (tokenHash w, w)) w
            = .ok ((done ++ [w]).map fun w => (tokenHash w, w)) := by
          unfold addStopWord recordToken
          rw [hfree w List.mem_cons_self]
          dsimp only
          rw [hlookup]
          dsimp only
          rw [setItem_new hnew, List.map_append]
          rfl
        rw [← List.singleton_append, ← List.append_assoc] at hnodup
        rw [List.foldlM_cons, bind_of_ok hadd, ih (done ++ [w]) hnodup fun v hv =>
          hfree v (List.mem_cons_of_mem _ hv), List.append_assoc]
        rfl
  exact hloop englishStopWords [] stopWords_hash_nodup h

/-- A BM25 signal with the keyword `compose`. -/
def composeSignal : PyVal :=
  .dict [("name", .str "music"), ("route", .str "writing"), ("method", .str "bm25"),
    ("keywords", .list [.str "compose"])]

/-- The policy of this signal. -/
def composePolicy : Dict := [("routes", .list [composeSignal])]

/-- The weight of the only term of this policy: `ln(4/3)` in units of
`1 / SCORE_SCALE`, rounded. -/
def composeWeight : TermStats → Int := fun _ => 287682072

/-- This weight for the only document. -/
def firstDocument : List Int := zeroWeights.set 0 287682072

/-- What is known of `compose`: its stem is `compos`. -/
def composeKnown : KnownTerms :=
  ⟨[(tokenHash (ascii "compos"), firstDocument)], [(tokenHash (ascii "compos"), ascii "compos")],
    [(ascii "compos", [ascii "compose"])]⟩

/-- The aliases of `compos` without a vocabulary. -/
def composeAliases : AliasVectors :=
  ⟨[(tokenHash (ascii "compose"), firstDocument), (tokenHash (ascii "compos"), firstDocument),
      (tokenHash (ascii "compose's"), firstDocument)],
    [(tokenHash (ascii "compos"), ascii "compos"), (tokenHash (ascii "compose"), ascii "compose"),
      (tokenHash (ascii "compose's"), ascii "compose's")]⟩

theorem compose_loops : TermLoops Unicode.asciiTables [] composeKnown composeAliases
    stopWordHashes where
  aliases := rfl
  stops := stopWords_added (by decide +kernel)

/-- The loop over the signals. -/
theorem compose_signals : [composeSignal].foldlM (parseBm25Step Unicode.asciiTables
      (termWeigher Unicode.asciiTables composeWeight []) ⟨[], []⟩) ⟨[], [], ⟨[], [], []⟩⟩
    = .ok ⟨[⟨100000000, 0, .writing, .or, 0, 1, 1⟩], [⟨0, 100000000⟩], composeKnown⟩ := by
  have hstep : parseBm25Step Unicode.asciiTables
      (termWeigher Unicode.asciiTables composeWeight []) ⟨[], []⟩ ⟨[], [], ⟨[], [], []⟩⟩
      composeSignal
      = .ok ⟨[⟨100000000, 0, .writing, .or, 0, 1, 1⟩], [⟨0, 100000000⟩], composeKnown⟩ := rfl
  rw [List.foldlM_cons, bind_of_ok hstep]
  rfl

/-- The policy is accepted, with one document. -/
theorem compose_parsed : ∃ L : LoadedBm25 Unicode.asciiTables composeWeight [],
    L.policy = composePolicy ∧ L.header.documents = [⟨0, 100000000⟩] := by
  have hread : keywordSignals composePolicy = .ok [composeSignal] := rfl
  have hdecided : decisionKeywordRoutes Unicode.asciiTables composePolicy = .ok ⟨[], []⟩ := rfl
  obtain ⟨rows, hrows⟩ := termRows_of (by decide) compose_loops (by decide +kernel)
    (by decide +kernel)
  have hparsed : parseBm25 Unicode.asciiTables (termWeigher Unicode.asciiTables composeWeight [])
      composePolicy = .ok ⟨[⟨100000000, 0, .writing, .or, 0, 1, 1⟩], [⟨0, 100000000⟩], rows⟩ := by
    unfold parseBm25
    rw [bind_of_ok hread, bind_of_ok hdecided]
    exact (bind_of_ok compose_signals).trans (bind_of_ok hrows)
  obtain ⟨L, hpolicy, hheader⟩ := LoadedBm25.of_parsed hparsed
  exact ⟨L, hpolicy, by rw [hheader]⟩

/-- **The table is not word by word** for the keyword `compose`: its stem
`compos` gets the vector of the keyword, but has the stem `compo`. -/
theorem wordByWord_fails : ∃ L : LoadedBm25 Unicode.asciiTables composeWeight [],
    L.policy = composePolicy ∧ ¬L.WordByWord := by
  obtain ⟨L, hpolicy, -⟩ := compose_parsed
  refine ⟨L, hpolicy, fun h => ?_⟩
  have htexts : L.texts = [["compose"]] := by
    rw [LoadedBm25.texts, hpolicy]
    rfl
  have hstems : L.stems = [ascii "compos"] := by
    rw [LoadedBm25.stems, htexts]
    rfl
  have hvector : L.vector (ascii "compo") ≠ L.vector (ascii "compos") := by
    rw [LoadedBm25.vector, LoadedBm25.vector, htexts]
    decide +kernel
  have hstem : stemEnglish (ascii "compos") = ascii "compo" := by decide
  have hunambiguous := L.rows_agree_iff.mp ⟨h.stopWords, h.stemmed⟩
  rcases hunambiguous.restemmed (ascii "compos") (by rw [hstems]; exact List.mem_singleton_self _)
    (by rw [hstem]; decide) with heq | ⟨-, before, behind, horder, hlater⟩
  · exact hvector (hstem ▸ heq)
  · rw [hstems] at horder
    have hlen := congrArg List.length horder
    rw [List.length_singleton, List.length_append, List.length_cons] at hlen
    rw [List.length_eq_zero_iff.mp (show behind.length = 0 by omega)] at hlater
    cases hlater

end Xsr.Bm25
