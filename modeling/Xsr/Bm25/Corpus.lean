import Xsr.Bm25.LoadedPolicy

/-!
# Corpus — what `parse` collects from the keyword texts

The keyword texts of the BM25 signals are documents, one behind the other.
When the loop over the signals ends, `hash_tokens` holds their stems,
`term_vectors` the weights of each stem in all documents, and
`stem_surfaces` the words of each stem in the order of first occurrence.
-/

namespace Xsr.Bm25

open Kernel Lib Policy Control OrderedDict

/-! ## The keyword texts -/

/-- The keyword texts of a BM25 signal. -/
def signalTexts (u : Unicode) (raw : PyVal) : Option (List String) :=
  raw.asDict.bind fun signal =>
    if signalMethod u signal "" ≠ "bm25" then none
    else (signalKeywords signal).map fun values => values.map fun value => value.text u

/-- The keyword texts of a policy, one list for each BM25 signal. -/
def keywordTexts (u : Unicode) (policy : Dict) : List (List String) :=
  match keywordSignals policy with
  | .ok raws => raws.filterMap (signalTexts u)
  | .error _ => []

/-- The words of a list of texts. -/
def textWords (texts : List String) : List Word :=
  texts.flatMap fun text => contentWords (queryText text.toList)

/-- The stems of each text. -/
def corpus (texts : List String) : List (List Word) :=
  texts.map fun text => tokenizeQuery text.toList

section Tokenize
variable {u : Unicode}

theorem asciiWords_ok {text : String} {words : List Word} (h : asciiWords u text = .ok words) :
    words = contentWords (queryText text.toList) := by
  unfold asciiWords at h
  obtain ⟨s, hs, h⟩ := bind_ok h
  cases h
  rw [policyText_eq (required_ok hs)]

theorem tokenize_ok {text : String} {words : List Word} (h : tokenize u text = .ok words) :
    words = tokenizeQuery text.toList := by
  unfold tokenize at h
  obtain ⟨s, hs, h⟩ := bind_ok h
  cases h
  rw [asciiWords_ok hs, tokenizeQuery]

/-- A map that returned, element by element. -/
theorem mapM_eq_map {ε α β : Type} {f : α → Except ε β} {g : α → β} {xs : List α} {ys : List β}
    (hf : ∀ x y, f x = .ok y → y = g x) (h : xs.mapM f = .ok ys) : ys = xs.map g := by
  induction xs generalizing ys with
  | nil =>
      cases h
      rfl
  | cons x xs ih =>
      rw [List.mapM_cons] at h
      obtain ⟨y, hx, h⟩ := bind_ok h
      obtain ⟨ys', hxs, h⟩ := bind_ok h
      cases h
      rw [List.map_cons, ← hf x y hx, ← ih hxs]

end Tokenize

/-! ## Documents -/

/-- A document: the weight of a stem in it and its stems. -/
structure Document where
  weigh : Word → Int
  stems : List Word

/-- Words are compared byte by byte. -/
local instance lawfulWord : LawfulBEq Word := inferInstance

/-- The weight of a stem in a document, which is zero unless it occurs. -/
def Document.weight (document : Document) (stem : Word) : Int :=
  if stem ∈ document.stems then document.weigh stem else 0

/-- The documents of a rule with the given texts. -/
def ruleCorpus (weight : TermStats → Int) (texts : List String) : List Document :=
  (corpus texts).map fun tokens => ⟨fun stem => weight (termStats (corpus texts) tokens stem), tokens⟩

/-- The documents of all rules. -/
def documents (weight : TermStats → Int) (texts : List (List String)) : List Document :=
  texts.flatMap (ruleCorpus weight)

/-- The corpus vector of a stem. -/
def corpusVector (documents : List Document) (stem : Word) : List Int :=
  documents.map (Document.weight · stem)
    ++ List.replicate (bm25MaxDocuments - documents.length) 0

section Vectors
variable {documents : List Document} {weigh : Word → Int} {stems : List Word}

/-- A document without stems weighs nothing. -/
theorem corpusVector_empty (hlen : documents.length < bm25MaxDocuments) (stem : Word) :
    corpusVector (documents ++ [⟨weigh, []⟩]) stem = corpusVector documents stem := by
  have hpad : bm25MaxDocuments - documents.length =
      bm25MaxDocuments - (documents.length + 1) + 1 := by omega
  simp only [corpusVector, List.map_append, List.map_singleton, List.length_append,
    List.length_singleton, List.append_assoc, List.singleton_append, Document.weight,
    List.not_mem_nil, if_false]
  rw [hpad, List.replicate_succ]

/-- A stem of no document weighs nothing. -/
theorem corpusVector_zero (hlen : documents.length ≤ bm25MaxDocuments) {stem : Word}
    (h : ∀ d ∈ documents, stem ∉ d.stems) : corpusVector documents stem = zeroWeights := by
  have hmap : documents.map (Document.weight · stem) = List.replicate documents.length 0 := by
    refine List.eq_replicate_iff.mpr ⟨List.length_map _, fun w hw => ?_⟩
    obtain ⟨d, hd, rfl⟩ := List.mem_map.mp hw
    exact if_neg (h d hd)
  rw [corpusVector, hmap, ← List.replicate_add, zeroWeights, Nat.add_sub_cancel' hlen]

/-- One more stem in the last document: the vectors of the others stay, its
own gets the weight. -/
theorem corpusVector_snoc_of_ne {stem token : Word} (h : stem ≠ token) :
    corpusVector (documents ++ [⟨weigh, stems ++ [token]⟩]) stem
      = corpusVector (documents ++ [⟨weigh, stems⟩]) stem := by
  have hlast : Document.weight ⟨weigh, stems ++ [token]⟩ stem
      = Document.weight ⟨weigh, stems⟩ stem := by
    simp [Document.weight, h]
  simp only [corpusVector, List.map_append, List.map_singleton, hlast, List.length_append,
    List.length_singleton]

theorem corpusVector_snoc_self (token : Word) :
    (corpusVector (documents ++ [⟨weigh, stems⟩]) token).set documents.length (weigh token)
      = corpusVector (documents ++ [⟨weigh, stems ++ [token]⟩]) token := by
  have hlast : Document.weight ⟨weigh, stems ++ [token]⟩ token = weigh token := by
    simp [Document.weight]
  simp only [corpusVector, List.map_append, List.map_singleton, hlast, List.length_append,
    List.length_singleton, List.append_assoc, List.singleton_append]
  rw [List.set_append_right _ _ (by rw [List.length_map]), List.length_map, Nat.sub_self,
    List.set_cons_zero]

/-- The order and the repetition of the stems of a document do not matter. -/
theorem corpusVector_congr {stems' : List Word} (h : ∀ stem, stem ∈ stems ↔ stem ∈ stems')
    (stem : Word) : corpusVector (documents ++ [⟨weigh, stems⟩]) stem
      = corpusVector (documents ++ [⟨weigh, stems'⟩]) stem := by
  simp only [corpusVector, List.map_append, List.map_singleton, Document.weight, h,
    List.length_append, List.length_singleton]

end Vectors

/-! ## The loop over the documents -/

/-- What holds of the known terms when these documents have been weighed. -/
structure Collected (documents : List Document) (known : KnownTerms) : Prop where
  recorded : ∀ stem, known.hashTokens.lookup (tokenHash stem) = some stem ↔
    ∃ d ∈ documents, stem ∈ d.stems
  vectors : ∀ d ∈ documents, ∀ stem ∈ d.stems,
    known.termVectors.lookup (tokenHash stem) = some (corpusVector documents stem)
  owned : ∀ hash vector, known.termVectors.lookup hash = some vector →
    ∃ token, known.hashTokens.lookup hash = some token

/-- The stems of the documents with one more. -/
theorem occurs_snoc {documents : List Document} {last : Document} {stem : Word} :
    (∃ d ∈ documents ++ [last], stem ∈ d.stems) ↔
      (∃ d ∈ documents, stem ∈ d.stems) ∨ stem ∈ last.stems := by
  simp only [List.mem_append, List.mem_singleton, or_and_right, exists_or, exists_eq_left]

/-- What stands under the hash of a recorded token before. -/
theorem recordToken_before {u : Unicode} {tokens tokens' : List (UInt32 × Word)} {token : Word}
    (h : recordToken u tokens token = .ok tokens') {previous : Word}
    (hprevious : tokens.lookup (tokenHash token) = some previous) : previous = token := by
  unfold recordToken raiseIf at h
  rw [hprevious] at h
  obtain ⟨_, hsame, -⟩ := bind_ok h
  simpa using refuseIf_ok hsame

section Loop
variable {u : Unicode} {weight : TermStats → Int} {placed : List Document} {known known' : KnownTerms}

theorem Collected.begin (h : Collected placed known) (hlen : placed.length < bm25MaxDocuments)
    (weigh : Word → Int) : Collected (placed ++ [⟨weigh, []⟩]) known where
  recorded stem := by simp [h.recorded stem]
  vectors d hd stem hstem := by
    rcases List.mem_append.mp hd with hd | hd
    · rw [corpusVector_empty hlen]
      exact h.vectors d hd stem hstem
    · rw [List.mem_singleton.mp hd] at hstem
      cases hstem
  owned := h.owned

/-- **One stem** of the document at hand. -/
theorem Collected.addTerm {texts : List (List Word)} {tokens stems : List Word} {token : Word}
    (hlen : placed.length < bm25MaxDocuments)
    (h : Collected (placed ++ [⟨fun t => weight (termStats texts tokens t), stems⟩]) known)
    (hadd : addTerm u weight texts tokens placed.length known token = .ok known') :
    Collected (placed ++ [⟨fun t => weight (termStats texts tokens t), stems ++ [token]⟩]) known' ∧
      known'.stemSurfaces = known.stemSurfaces := by
  unfold Policy.addTerm raiseIf at hadd
  obtain ⟨hashTokens, hrecord, hadd⟩ := bind_ok hadd
  obtain ⟨_, -, hadd⟩ := bind_ok hadd
  cases hadd
  obtain ⟨hself, hother, -⟩ := recordToken_ok hrecord
  have hbefore : ∀ previous, known.hashTokens.lookup (tokenHash token) = some previous →
      previous = token := fun _ => recordToken_before hrecord
  -- a recorded stem other than the token has another hash
  have hapart : ∀ stem, stem ≠ token →
      (∃ d ∈ placed ++ [⟨fun t => weight (termStats texts tokens t), stems⟩], stem ∈ d.stems) →
      tokenHash stem ≠ tokenHash token := by
    intro stem hne hin hhash
    have hlookup := (h.recorded stem).mpr hin
    rw [hhash] at hlookup
    exact hne (hbefore stem hlookup)
  have hin : ∀ stem, (∃ d ∈ placed ++ [⟨fun t => weight (termStats texts tokens t),
      stems ++ [token]⟩], stem ∈ d.stems) ↔
      stem = token ∨ ∃ d ∈ placed ++ [⟨fun t => weight (termStats texts tokens t), stems⟩],
        stem ∈ d.stems := by
    intro stem
    rw [occurs_snoc, occurs_snoc]
    show _ ∨ stem ∈ stems ++ [token] ↔ stem = token ∨ _ ∨ stem ∈ stems
    rw [List.mem_append, List.mem_singleton, ← or_assoc, or_comm]
  refine ⟨⟨fun stem => ?_, fun d hd stem hstem => ?_, fun hash vector hvector => ?_⟩, rfl⟩
  · rw [hin]
    by_cases hne : stem = token
    · rw [hne]
      exact ⟨fun _ => .inl rfl, fun _ => hself⟩
    · by_cases hhash : tokenHash stem = tokenHash token
      · dsimp only
        rw [hhash, hself]
        refine ⟨fun heq => absurd (Option.some.inj heq).symm hne, fun hold => ?_⟩
        exact absurd hhash (hapart stem hne (hold.resolve_left hne))
      · dsimp only
        rw [hother _ hhash, h.recorded stem]
        exact ⟨.inr, fun hold => hold.resolve_left hne⟩
  · have hmem := (hin stem).mp ⟨d, hd, hstem⟩
    by_cases hne : stem = token
    · subst hne
      dsimp only
      rw [lookup_setItem_eq, Option.some.injEq, ← corpusVector_snoc_self]
      refine congrArg (fun vector : List Int => vector.set placed.length _) ?_
      by_cases hold : ∃ d ∈ placed ++ [⟨fun t => weight (termStats texts tokens t), stems⟩],
          stem ∈ d.stems
      · obtain ⟨d', hd', hstem'⟩ := hold
        rw [h.vectors d' hd' stem hstem', Option.getD_some]
      · have hnone : known.termVectors.lookup (tokenHash stem) = none := by
          cases hlookup : known.termVectors.lookup (tokenHash stem) with
          | none => rfl
          | some vector =>
              obtain ⟨previous, hprevious⟩ := h.owned _ _ hlookup
              have heq := hbefore previous hprevious
              exact absurd ((h.recorded stem).mp (heq ▸ hprevious)) hold
        push Not at hold
        rw [hnone, Option.getD_none, corpusVector_zero _ hold]
        rw [List.length_append, List.length_singleton]
        exact hlen
    · obtain ⟨d', hd', hstem'⟩ := hmem.resolve_left hne
      dsimp only
      rw [lookup_setItem_ne (hapart stem hne ⟨d', hd', hstem'⟩), corpusVector_snoc_of_ne hne]
      exact h.vectors d' hd' stem hstem'
  · by_cases hhash : hash = tokenHash token
    · exact ⟨token, hhash ▸ hself⟩
    · dsimp only at hvector ⊢
      rw [lookup_setItem_ne hhash] at hvector
      rw [hother hash hhash]
      exact h.owned hash vector hvector

theorem Collected.congr {weigh : Word → Int} {stems stems' : List Word}
    (h : Collected (placed ++ [⟨weigh, stems⟩]) known)
    (hmem : ∀ stem, stem ∈ stems ↔ stem ∈ stems') :
    Collected (placed ++ [⟨weigh, stems'⟩]) known := by
  have hin : ∀ stem, (∃ d ∈ placed ++ [⟨weigh, stems'⟩], stem ∈ d.stems) ↔
      ∃ d ∈ placed ++ [⟨weigh, stems⟩], stem ∈ d.stems := by
    intro stem
    rw [occurs_snoc, occurs_snoc, hmem]
  refine ⟨fun stem => (h.recorded stem).trans (hin stem).symm, fun d hd stem hstem => ?_, h.owned⟩
  obtain ⟨d', hd', hstem'⟩ := (hin stem).mp ⟨d, hd, hstem⟩
  rw [h.vectors d' hd' stem hstem', corpusVector_congr hmem]

/-- **One document.** -/
theorem Collected.addDocument {texts : List (List Word)} {tokens : List Word}
    (hlen : placed.length < bm25MaxDocuments) (h : Collected placed known)
    (hadd : addDocument u weight texts known (tokens, placed.length) = .ok known') :
    Collected (placed ++ [⟨fun t => weight (termStats texts tokens t), tokens⟩]) known' ∧
      known'.stemSurfaces = known.stemSurfaces := by
  have hloop : ∀ (rest stems : List Word) (known : KnownTerms),
      Collected (placed ++ [⟨fun t => weight (termStats texts tokens t), stems⟩]) known →
      rest.foldlM (Policy.addTerm u weight texts tokens placed.length) known = .ok known' →
      Collected (placed ++ [⟨fun t => weight (termStats texts tokens t), stems ++ rest⟩]) known' ∧
        known'.stemSurfaces = known.stemSurfaces := by
    intro rest
    induction rest with
    | nil =>
        intro stems known h hfold
        cases hfold
        rw [List.append_nil]
        exact ⟨h, rfl⟩
    | cons token rest ih =>
        intro stems known h hfold
        obtain ⟨next, hterm, hfold⟩ := bind_ok hfold
        obtain ⟨hnext, hsurfaces⟩ := h.addTerm hlen hterm
        obtain ⟨hlast, hsame⟩ := ih _ next hnext hfold
        rw [List.append_assoc, List.singleton_append] at hlast
        exact ⟨hlast, hsame.trans hsurfaces⟩
  obtain ⟨hall, hsame⟩ := hloop (collect tokens) [] known (h.begin hlen _) hadd
  exact ⟨hall.congr fun stem => by rw [List.nil_append, mem_collect], hsame⟩

/-- **The documents of one rule.** -/
theorem Collected.addKeywords {name : String} {texts : List String}
    (hlen : placed.length + texts.length ≤ bm25MaxDocuments) (h : Collected placed known)
    (hadd : addKeywords u weight known name placed.length texts = .ok known') :
    Collected (placed ++ ruleCorpus weight texts) known' ∧
      known'.stemSurfaces = (textWords texts).foldl addSurface known.stemSurfaces := by
  unfold Policy.addKeywords raiseIf at hadd
  obtain ⟨tokens, htokens, hadd⟩ := bind_ok hadd
  obtain ⟨words, hwords, hadd⟩ := bind_ok hadd
  obtain ⟨_, -, hadd⟩ := bind_ok hadd
  obtain ⟨_, -, hadd⟩ := bind_ok hadd
  obtain rfl : tokens = corpus texts := mapM_eq_map (fun _ _ => tokenize_ok) htokens
  obtain rfl := mapM_eq_map (g := fun text : String => contentWords (queryText text.toList))
    (fun _ _ => asciiWords_ok) hwords
  have hloop : ∀ (rest : List (List Word)) (placed : List Document) (known : KnownTerms),
      placed.length + rest.length ≤ bm25MaxDocuments → Collected placed known →
      (rest.zipIdx placed.length).foldlM (Policy.addDocument u weight (corpus texts)) known
        = .ok known' →
      Collected (placed ++ rest.map fun tokens =>
        ⟨fun stem => weight (termStats (corpus texts) tokens stem), tokens⟩) known' ∧
        known'.stemSurfaces = known.stemSurfaces := by
    intro rest
    induction rest with
    | nil =>
        intro placed known _ h hfold
        cases hfold
        rw [List.map_nil, List.append_nil]
        exact ⟨h, rfl⟩
    | cons tokens rest ih =>
        intro placed known hlen h hfold
        rw [List.length_cons] at hlen
        obtain ⟨next, hdocument, hfold⟩ := bind_ok hfold
        obtain ⟨hnext, hsurfaces⟩ := h.addDocument (by omega) hdocument
        obtain ⟨hlast, hsame⟩ := ih _ next
          (by rw [List.length_append, List.length_singleton]; omega) hnext
          (by rw [List.length_append, List.length_singleton]; exact hfold)
        rw [List.append_assoc, List.singleton_append] at hlast
        exact ⟨hlast, hsame.trans hsurfaces⟩
  obtain ⟨hall, hsame⟩ := hloop (corpus texts) placed
    { known with stemSurfaces := (textWords texts).foldl addSurface known.stemSurfaces }
    (by rw [corpus, List.length_map]; exact hlen) ⟨h.recorded, h.vectors, h.owned⟩
    (by rw [textWords, List.flatMap_def]; exact hadd)
  exact ⟨hall, hsame⟩

end Loop

/-! ## The loop over the signals -/

/-- The known terms when the rules with these texts have been added, and the
number of their documents. -/
inductive Fills {τ : Type} (w : Weigher τ) : List (List String) → Nat → τ → Prop where
  | start : Fills w [] 0 w.initial
  | rule {texts : List (List String)} {n : Nat} {known known' : τ} {name : String}
      {values : List String} (filled : Fills w texts n known)
      (room : n + values.length ≤ bm25MaxDocuments)
      (added : w.addRule known name n values = .ok known') :
      Fills w (texts ++ [values]) (n + values.length) known'

section Parse
variable {u : Unicode} {τ : Type} {w : Weigher τ}

theorem parseBm25Step_fills {d : Decisions} {s s' : Bm25Parse τ} {raw : PyVal}
    {texts : List (List String)} (h : Fills w texts s.documents.length s.known)
    (hstep : parseBm25Step u w d s raw = .ok s') :
    Fills w (texts ++ (signalTexts u raw).toList) s'.documents.length s'.known := by
  unfold parseBm25Step at hstep
  unfold signalTexts
  cases hdict : raw.asDict with
  | none =>
      rw [hdict] at hstep
      cases hstep
      rw [Option.bind_none, Option.toList_none, List.append_nil]
      exact h
  | some signal =>
      rw [hdict] at hstep
      dsimp only at hstep
      rw [Option.bind_some]
      split_ifs at hstep ⊢ with hmethod
      · cases hstep
        rw [Option.toList_none, List.append_nil]
        exact h
      · unfold parseBm25Signal raiseIf at hstep
        obtain ⟨name, -, hstep⟩ := bind_ok hstep
        obtain ⟨route, -, hstep⟩ := bind_ok hstep
        obtain ⟨operator, -, hstep⟩ := bind_ok hstep
        obtain ⟨values, hvalues, hstep⟩ := bind_ok hstep
        obtain ⟨_, hroom, hstep⟩ := bind_ok hstep
        obtain ⟨threshold, -, hstep⟩ := bind_ok hstep
        obtain ⟨known, hknown, hstep⟩ := bind_ok hstep
        obtain ⟨priority, -, hstep⟩ := bind_ok hstep
        cases hstep
        have hroom := refuseIf_ok hroom
        simp only [Bool.or_eq_false_iff, decide_eq_false_iff_not, not_lt] at hroom
        rw [required_ok hvalues, Option.map_some, Option.toList_some]
        have hfills := h.rule (by rw [List.length_map]; exact hroom.2) hknown
        rw [List.length_map] at hfills
        rw [List.length_append, List.length_map]
        exact hfills

/-- **The rules of an accepted policy** were added one by one. -/
theorem parseBm25_fills {policy : Dict} {header : Bm25Header}
    (h : parseBm25 u w policy = .ok header) :
    ∃ known, Fills w (keywordTexts u policy) header.documents.length known ∧
      w.terms known = .ok header.terms := by
  unfold parseBm25 at h
  obtain ⟨raws, hraws, h⟩ := bind_ok h
  obtain ⟨d, -, h⟩ := bind_ok h
  obtain ⟨s, hs, h⟩ := bind_ok h
  obtain ⟨terms, hterms, h⟩ := bind_ok h
  cases h
  have hloop : ∀ (raws : List PyVal) (texts : List (List String)) (t : Bm25Parse τ),
      Fills w texts t.documents.length t.known →
      raws.foldlM (parseBm25Step u w d) t = .ok s →
      Fills w (texts ++ raws.filterMap (signalTexts u)) s.documents.length s.known := by
    intro raws
    induction raws with
    | nil =>
        intro texts t ht hfold
        cases hfold
        rw [List.filterMap_nil, List.append_nil]
        exact ht
    | cons raw raws ih =>
        intro texts t ht hfold
        obtain ⟨next, hstep, hfold⟩ := bind_ok hfold
        have hlast := ih _ next (parseBm25Step_fills ht hstep) hfold
        rw [List.append_assoc] at hlast
        convert hlast using 2
        rw [List.filterMap_cons]
        cases signalTexts u raw <;> rfl
  refine ⟨s.known, ?_, hterms⟩
  rw [keywordTexts, hraws]
  exact hloop raws [] _ .start hs

end Parse

/-- What is known of a policy's terms at the end of the loop. -/
structure KnownCorpus (weight : TermStats → Int) (texts : List (List String))
    (known : KnownTerms) : Prop extends KnownChecked known where
  collected : Collected (documents weight texts) known
  surfaces : known.stemSurfaces = (textWords texts.flatten).foldl addSurface []

/-- **The known terms** of an accepted policy. -/
theorem Fills.corpus {u : Unicode} {weight : TermStats → Int} {lines : List (List Char)}
    {texts : List (List String)} {n : Nat} {known : KnownTerms}
    (h : Fills (termWeigher u weight lines) texts n known) :
    KnownCorpus weight texts known ∧ (documents weight texts).length = n := by
  induction h with
  | start =>
      refine ⟨⟨⟨by simp [Hashes, termWeigher], by simp [AllBounded, termWeigher]⟩,
        ⟨?_, ?_, ?_⟩, rfl⟩, rfl⟩ <;> simp [documents, termWeigher]
  | @rule texts n known known' name values filled room added ih =>
      obtain ⟨hknown, rfl⟩ := ih
      obtain ⟨hcollected, hsurfaces⟩ := hknown.collected.addKeywords room added
      have hdocuments : documents weight (texts ++ [values])
          = documents weight texts ++ ruleCorpus weight values := by
        simp [documents]
      refine ⟨⟨hknown.toKnownChecked.addKeywords added, hdocuments ▸ hcollected, ?_⟩, ?_⟩
      · rw [hsurfaces, hknown.surfaces, ← List.foldl_append]
        simp [textWords]
      · rw [hdocuments, List.length_append]
        simp [ruleCorpus, Bm25.corpus]

end Xsr.Bm25
