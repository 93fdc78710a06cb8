import Xsr.Bm25.Corpus

/-!
# AliasRows — the rows a corpus word gets

Every alias of a stem is written with the vector of that stem, stem after
stem in the order of their first occurrence, so an alias of two stems keeps
the vector of the later one. A word can only be an alias of its own stem and,
being a stem itself, of itself.
-/

namespace Xsr.Bm25

open Kernel Lib Policy Control OrderedDict

/-! ## The stems and their words -/

/-- The stems of a list of words, in the order of their first occurrence. -/
def stemsOf (words : List Word) : List Word := collect (words.map stemEnglish)

/-- The words of a stem. -/
def surfacesOf (words : List Word) (stem : Word) : List Word :=
  collect (words.filter fun word => stemEnglish word = stem)

theorem collect_append (xs : List Word) (x : Word) : collect (xs ++ [x]) = add (collect xs) x := by
  rw [collect, List.foldl_append]
  rfl

theorem nodup_stemsOf (words : List Word) : (stemsOf words).Nodup := nodup_collect _

/-- **The surfaces of each stem.** -/
theorem surfaces_eq (words : List Word) : words.foldl addSurface []
    = (stemsOf words).map fun stem => (stem, surfacesOf words stem) := by
  induction words using List.reverseRecOn with
  | nil => rfl
  | append_singleton words word ih =>
      have hstems : stemsOf (words ++ [word]) = add (stemsOf words) (stemEnglish word) := by
        rw [stemsOf, List.map_append, List.map_singleton, collect_append]
        rfl
      have hsurfaces : ∀ stem, surfacesOf (words ++ [word]) stem =
          if stem = stemEnglish word then add (surfacesOf words stem) word
          else surfacesOf words stem := by
        intro stem
        rw [surfacesOf, List.filter_append]
        by_cases h : stem = stemEnglish word
        · rw [if_pos h, List.filter_singleton, decide_eq_true h.symm, cond_true, collect_append]
          rfl
        · rw [if_neg h, List.filter_singleton, decide_eq_false (Ne.symm h), cond_false,
            List.append_nil]
          rfl
      have hold : ((stemsOf words).map fun stem => (stem, surfacesOf words stem)).lookup
          (stemEnglish word) = if stemEnglish word ∈ stemsOf words
            then some (surfacesOf words (stemEnglish word)) else none := lookup_map _ _ _
      rw [List.foldl_append, List.foldl_cons, List.foldl_nil, ih, addSurface,
        setItem_map (nodup_stemsOf words), hstems, hold]
      refine List.map_congr_left fun stem _ => ?_
      rw [hsurfaces]
      by_cases h : stem = stemEnglish word
      · subst h
        rw [if_pos rfl, if_pos rfl]
        by_cases hmem : stemEnglish word ∈ stemsOf words
        · rw [if_pos hmem, Option.getD_some]
        · rw [if_neg hmem, Option.getD_none]
          have hnone : surfacesOf words (stemEnglish word) = [] := by
            rw [surfacesOf, List.filter_eq_nil_iff.mpr, collect, List.foldl_nil]
            intro other hother heq
            refine hmem (mem_collect.mpr ?_)
            rw [← of_decide_eq_true heq]
            exact List.mem_map_of_mem hother
          rw [hnone]
      · rw [if_neg h, if_neg h]

/-! ## Aliases -/

section Aliases
variable {u : Unicode} {lines : List (List Char)} {stem w : Word}

/-- A stem is an alias of itself. -/
theorem stem_mem_aliases (surfaces : List Word) :
    stem ∈ vocabularyAliases u lines stem surfaces := by
  unfold vocabularyAliases
  exact mem_foldl_add.mpr (.inl (mem_add.mpr (.inr rfl)))

/-- **An alias of a stem** is the stem or has it. -/
theorem stem_of_alias {surfaces : List Word} (hsurfaces : ∀ w ∈ surfaces, stemEnglish w = stem)
    (h : w ∈ vocabularyAliases u lines stem surfaces) : w = stem ∨ stemEnglish w = stem := by
  unfold vocabularyAliases at h
  dsimp only at h
  rw [mem_foldl_add, mem_add, mem_foldl_add, vocabularyByStem, mem_collect, List.mem_filter] at h
  rcases h with ((⟨-, h⟩ | h) | h) | h
  · exact .inr (of_decide_eq_true h)
  · exact .inr (hsurfaces w h)
  · exact .inl h
  · obtain ⟨surface, -, h⟩ := List.mem_filterMap.mp h
    split_ifs at h with _ hstem
    obtain rfl := Option.some.inj h
    exact .inr hstem

theorem stemEnglish_of_mem_surfaces {words : List Word} (h : w ∈ surfacesOf words stem) :
    stemEnglish w = stem := by
  rw [surfacesOf, mem_collect, List.mem_filter] at h
  exact of_decide_eq_true h.2

end Aliases

/-! ## The alias loop -/

/-- The last vector written for a word. -/
def lastWrite (writes : List (Word × List Int)) (w : Word) : Option (List Int) :=
  writes.reverse.lookup w

theorem lastWrite_snoc (writes : List (Word × List Int)) (e : Word × List Int) (w : Word) :
    lastWrite (writes ++ [e]) w = if w = e.1 then some e.2 else lastWrite writes w := by
  rw [lastWrite, List.reverse_append, List.reverse_singleton, List.singleton_append]
  by_cases h : w = e.1
  · rw [if_pos h, h, lookup_cons_eq]
  · rw [if_neg h, lookup_cons_ne h]
    rfl

/-- The variables of the alias loop after some writes. -/
structure Written (tokens : List (UInt32 × Word)) (writes : List (Word × List Int))
    (s : AliasVectors) : Prop where
  recorded : ∀ w, s.hashTokens.lookup (tokenHash w) = some w ↔
    tokens.lookup (tokenHash w) = some w ∨ ∃ vector, lastWrite writes w = some vector
  vectors : ∀ w vector, lastWrite writes w = some vector →
    s.vectors.lookup (tokenHash w) = some vector
  keys : ∀ hash ∈ keys s.vectors, ∃ w vector, lastWrite writes w = some vector ∧
    hash = tokenHash w

section Loop
variable {u : Unicode} {tokens : List (UInt32 × Word)}

theorem Written.start : Written tokens [] ⟨[], tokens⟩ :=
  ⟨fun w => by simp [lastWrite], by simp [lastWrite], by simp [OrderedDict.keys]⟩

/-- **One write.** -/
theorem Written.write {writes : List (Word × List Int)} {s s' : AliasVectors}
    (h : Written tokens writes s) {surface : Word} {vector : List Int}
    (hadd : addAlias u vector s surface = .ok s') :
    Written tokens (writes ++ [(surface, vector)]) s' := by
  unfold addAlias at hadd
  obtain ⟨hashTokens, hrecord, hadd⟩ := bind_ok hadd
  cases hadd
  obtain ⟨hself, hother, -⟩ := recordToken_ok hrecord
  have hapart : ∀ w, w ≠ surface → s.hashTokens.lookup (tokenHash w) = some w →
      tokenHash w ≠ tokenHash surface := by
    intro w hne hlookup hhash
    rw [hhash] at hlookup
    exact hne (recordToken_before hrecord hlookup)
  refine ⟨fun w => ?_, fun w v hw => ?_, fun hash hmem => ?_⟩
  · rw [lastWrite_snoc]
    by_cases hne : w = surface
    · rw [hne, if_pos rfl]
      exact ⟨fun _ => .inr ⟨vector, rfl⟩, fun _ => hself⟩
    · rw [if_neg hne, ← h.recorded w]
      dsimp only
      by_cases hhash : tokenHash w = tokenHash surface
      · rw [hhash, hself]
        refine ⟨fun heq => absurd (Option.some.inj heq).symm hne, fun hold => ?_⟩
        exact absurd (recordToken_before hrecord hold) hne
      · rw [hother _ hhash]
  · rw [lastWrite_snoc] at hw
    dsimp only
    by_cases hne : w = surface
    · rw [if_pos hne] at hw
      rw [hne, lookup_setItem_eq]
      exact hw
    · rw [if_neg hne] at hw
      rw [lookup_setItem_ne (hapart w hne ((h.recorded w).mpr (.inr ⟨v, hw⟩)))]
      exact h.vectors w v hw
  · rw [keys_setItem, mem_add] at hmem
    by_cases hhash : hash = tokenHash surface
    · exact ⟨surface, vector, by rw [lastWrite_snoc, if_pos rfl], hhash⟩
    · obtain ⟨w, v, hw, rfl⟩ := h.keys hash (hmem.resolve_right hhash)
      refine ⟨w, v, ?_, rfl⟩
      rw [lastWrite_snoc, if_neg (by rintro rfl; exact hhash rfl), hw]

/-- **All writes.** -/
theorem Written.run {writes : List (Word × List Int)} {s : AliasVectors}
    (h : writes.foldlM (fun s e => addAlias u e.2 s e.1) ⟨[], tokens⟩ = .ok s) :
    Written tokens writes s := by
  have hloop : ∀ (rest done : List (Word × List Int)) (t : AliasVectors),
      Written tokens done t → rest.foldlM (fun s e => addAlias u e.2 s e.1) t = .ok s →
      Written tokens (done ++ rest) s := by
    intro rest
    induction rest with
    | nil =>
        intro done t ht hfold
        cases hfold
        rw [List.append_nil]
        exact ht
    | cons e rest ih =>
        intro done t ht hfold
        obtain ⟨next, hadd, hfold⟩ := bind_ok hfold
        have hlast := ih _ next (ht.write hadd) hfold
        rwa [List.append_assoc, List.singleton_append] at hlast
  exact hloop writes [] _ .start h

end Loop

/-! ## The rows -/

section Rows
variable {u : Unicode} {weight : TermStats → Int} {lines : List (List Char)}
  {texts : List (List String)} {known : KnownTerms}

/-- The aliases of a stem of the policy. -/
def policyAliases (u : Unicode) (lines : List (List Char)) (texts : List (List String))
    (stem : Word) : List Word :=
  vocabularyAliases u lines stem (surfacesOf (textWords texts.flatten) stem)

/-- The writes for these stems. -/
def aliasWrites (aliases : Word → List Word) (vector : Word → List Int) (stems : List Word) :
    List (Word × List Int) :=
  stems.flatMap fun stem => (aliases stem).map fun surface => (surface, vector stem)

theorem lastWrite_append (writes writes' : List (Word × List Int)) (w : Word) :
    lastWrite (writes ++ writes') w = (lastWrite writes' w).or (lastWrite writes w) := by
  induction writes' using List.reverseRecOn with
  | nil => rw [List.append_nil]; rfl
  | append_singleton writes' e ih =>
      rw [← List.append_assoc, lastWrite_snoc, lastWrite_snoc, ih]
      split_ifs <;> rfl

theorem lastWrite_const (surfaces : List Word) (vector : List Int) (w : Word) :
    lastWrite (surfaces.map fun surface => (surface, vector)) w =
      if w ∈ surfaces then some vector else none := by
  rw [lastWrite, ← List.map_reverse, lookup_map surfaces.reverse fun _ => vector]
  simp only [List.mem_reverse]

/-- **The last write** is that of the last stem with this alias. -/
theorem lastWrite_iff {aliases : Word → List Word} {vector : Word → List Int} {stems : List Word}
    {w : Word} {v : List Int} : lastWrite (aliasWrites aliases vector stems) w = some v ↔
    ∃ before stem behind, stems = before ++ stem :: behind ∧ w ∈ aliases stem ∧
      (∀ other ∈ behind, w ∉ aliases other) ∧ v = vector stem := by
  induction stems using List.reverseRecOn generalizing v with
  | nil => simp [aliasWrites, lastWrite]
  | append_singleton stems last ih =>
      have hwrites : aliasWrites aliases vector (stems ++ [last]) = aliasWrites aliases vector stems
          ++ (aliases last).map fun surface => (surface, vector last) := by
        simp [aliasWrites]
      rw [hwrites, lastWrite_append, lastWrite_const]
      by_cases hlast : w ∈ aliases last
      · rw [if_pos hlast, Option.some_or]
        constructor
        · intro h
          exact ⟨stems, last, [], rfl, hlast, by simp, (Option.some.inj h).symm⟩
        · rintro ⟨before, stem, behind, heq, hstem, hbehind, rfl⟩
          rcases List.eq_nil_or_concat' behind with rfl | ⟨init, x, rfl⟩
          · obtain ⟨-, hx⟩ := List.append_inj' heq rfl
            rw [List.singleton_inj.mp hx]
          · rw [← List.cons_append, ← List.append_assoc] at heq
            obtain ⟨-, hx⟩ := List.append_inj' heq rfl
            exact absurd hlast (hbehind last (by simp [List.singleton_inj.mp hx]))
      · rw [if_neg hlast, Option.none_or, ih]
        constructor
        · rintro ⟨before, stem, behind, rfl, hstem, hbehind, rfl⟩
          refine ⟨before, stem, behind ++ [last], by simp, hstem, fun other hother => ?_, rfl⟩
          rcases List.mem_append.mp hother with hother | hother
          · exact hbehind other hother
          · exact List.mem_singleton.mp hother ▸ hlast
        · rintro ⟨before, stem, behind, heq, hstem, hbehind, rfl⟩
          rcases List.eq_nil_or_concat' behind with rfl | ⟨init, x, rfl⟩
          · obtain ⟨-, hx⟩ := List.append_inj' heq rfl
            exact absurd hstem (List.singleton_inj.mp hx ▸ hlast)
          · rw [← List.cons_append, ← List.append_assoc] at heq
            obtain ⟨hstems, -⟩ := List.append_inj' heq rfl
            exact ⟨before, stem, init, hstems, hstem,
              fun other hother => hbehind other (by simp [hother]), rfl⟩

/-- The stems of the documents are those of the words. -/
theorem mem_stemsOf {stem : Word} : stem ∈ stemsOf (textWords texts.flatten) ↔
    ∃ d ∈ documents weight texts, stem ∈ d.stems := by
  simp only [stemsOf, mem_collect, textWords, documents, ruleCorpus, corpus, tokenizeQuery,
    List.mem_map, List.mem_flatMap, List.mem_flatten]
  constructor
  · rintro ⟨word, ⟨text, ⟨rule, hrule, htext⟩, hword⟩, rfl⟩
    exact ⟨_, ⟨rule, hrule, _, ⟨text, htext, rfl⟩, rfl⟩, List.mem_map_of_mem hword⟩
  · rintro ⟨d, ⟨rule, hrule, _, ⟨text, htext, rfl⟩, rfl⟩, hstem⟩
    obtain ⟨word, hword, rfl⟩ := List.mem_map.mp hstem
    exact ⟨word, ⟨text, ⟨rule, hrule, htext⟩, hword⟩, rfl⟩

/-- **The alias loop** writes the aliases of every stem with its corpus
vector. -/
theorem KnownCorpus.writes (hk : KnownCorpus weight texts known) {s : AliasVectors}
    (h : known.stemSurfaces.foldlM (addAliases u lines known.termVectors) ⟨[], known.hashTokens⟩
      = .ok s) :
    Written known.hashTokens (aliasWrites (policyAliases u lines texts)
      (corpusVector (documents weight texts)) (stemsOf (textWords texts.flatten))) s := by
  refine Written.run (u := u) ?_
  rw [← h, hk.surfaces, surfaces_eq, aliasWrites, foldlM_flatMap, List.foldlM_map]
  refine foldlM_congr (fun stem hstem t => ?_) _
  obtain ⟨d, hd, hin⟩ := mem_stemsOf.mp hstem
  rw [List.foldlM_map, addAliases, hk.collected.vectors d hd stem hin, Option.getD_some]
  rfl

/-- **The rows of the aliases.** -/
theorem mem_aliasRows {tokens : List (UInt32 × Word)} {writes : List (Word × List Int)}
    {s : AliasVectors} (h : Written tokens writes s) (hdistinct : (keys s.vectors).Nodup)
    {row : TermRow} : row ∈ aliasRows s ↔ ∃ w vector, lastWrite writes w = some vector ∧
      row = ⟨tokenHash w, w, vector, false⟩ := by
  have htoken : ∀ {w vector}, lastWrite writes w = some vector →
      (s.hashTokens.lookup (tokenHash w)).getD [] = w := by
    intro w vector hw
    rw [(h.recorded w).mpr (.inr ⟨vector, hw⟩), Option.getD_some]
  constructor
  · intro hrow
    obtain ⟨e, he, rfl⟩ := List.mem_map.mp hrow
    obtain ⟨w, vector, hw, hhash⟩ := h.keys e.1 (List.mem_map_of_mem he)
    have hvector := h.vectors w vector hw
    rw [← hhash, lookup_of_mem hdistinct he] at hvector
    refine ⟨w, vector, hw, ?_⟩
    rw [hhash, htoken hw, Option.some.inj hvector]
  · rintro ⟨w, vector, hw, rfl⟩
    refine List.mem_map.mpr ⟨(tokenHash w, vector), mem_of_lookup (h.vectors w vector hw), ?_⟩
    rw [htoken hw]

/-- A row of a stop word. -/
theorem stopRows_ok {tokens stopwords : List (UInt32 × Word)}
    (h : englishStopWords.foldlM (addStopWord u tokens) [] = .ok stopwords) :
    ∀ row ∈ stopRows stopwords, row.token ∈ englishStopWords ∧ row.stopword = true ∧
      row.weights = zeroWeights := by
  have hwords : ∀ e ∈ stopwords, e.2 ∈ englishStopWords := by
    refine foldlM_invariant (P := fun t : List (UInt32 × Word) => ∀ e ∈ t, e.2 ∈ englishStopWords) h
      (by simp) fun t ht stopword hmem t' hadd => ?_
    have hrecord : recordToken u t stopword = .ok t' → ∀ e ∈ t', e.2 ∈ englishStopWords := by
      intro hrecord e he
      rcases (recordToken_ok hrecord).2.2 with rfl | rfl
      · exact ht e he
      · rcases mem_setItem he with rfl | he
        · exact hmem
        · exact ht e he
    unfold addStopWord at hadd
    cases hlookup : tokens.lookup (tokenHash stopword) with
    | none =>
        rw [hlookup] at hadd
        exact hrecord hadd
    | some token =>
        rw [hlookup] at hadd
        cases token with
        | nil => exact hrecord hadd
        | cons c cs =>
            obtain ⟨_, -, hadd⟩ := bind_ok hadd
            cases hadd
            exact ht
  intro row hrow
  obtain ⟨e, he, rfl⟩ := List.mem_map.mp hrow
  exact ⟨hwords e he, rfl, rfl⟩

end Rows

end Xsr.Bm25
