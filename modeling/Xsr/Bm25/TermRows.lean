import Xsr.Bm25.Lookup
import Xsr.Lib.OrderedDict

/-!
# TermRows — the term table `parse` returns

Three dictionaries are filled one behind the other: the vectors of the
corpus terms, the vectors of their aliases, and the stop words. Each stands
under the hashes of its tokens and a collision is refused, so the rows form
a table; each weight was checked when it was computed.
-/

namespace Xsr.Bm25

open Kernel Lib Policy Control OrderedDict

/-! ## Weight vectors -/

/-- A vector with a weight for every document, each within the bound. -/
structure Bounded (vector : List Int) : Prop where
  length : vector.length = bm25MaxDocuments
  weights : ∀ w ∈ vector, 0 ≤ w ∧ w ≤ maxFixedTermWeight

theorem Bounded.zero : Bounded zeroWeights := by
  refine ⟨by decide, fun w hw => ?_⟩
  rw [List.eq_of_mem_replicate hw]
  decide

theorem Bounded.set {vector : List Int} (h : Bounded vector) (d : Nat) {w : Int} (hw : 0 ≤ w)
    (hmax : w ≤ maxFixedTermWeight) : Bounded (vector.set d w) := by
  refine ⟨by rw [List.length_set, h.length], fun x hx => ?_⟩
  rcases List.mem_or_eq_of_mem_set hx with hx | rfl
  · exact h.weights x hx
  · exact ⟨hw, hmax⟩

/-- All vectors of a dictionary are bounded. -/
def AllBounded (vectors : List (UInt32 × List Int)) : Prop :=
  ∀ hash vector, vectors.lookup hash = some vector → Bounded vector

theorem AllBounded.getD {vectors : List (UInt32 × List Int)} (h : AllBounded vectors)
    (hash : UInt32) : Bounded ((vectors.lookup hash).getD zeroWeights) := by
  cases hlookup : vectors.lookup hash with
  | none => exact .zero
  | some vector => exact h hash vector hlookup

theorem AllBounded.setItem {vectors : List (UInt32 × List Int)} (h : AllBounded vectors)
    (hash : UInt32) {vector : List Int} (hvector : Bounded vector) :
    AllBounded (setItem vectors hash vector) := by
  intro k v hv
  by_cases hk : k = hash
  · rw [hk, lookup_setItem_eq] at hv
    exact Option.some.inj hv ▸ hvector
  · rw [lookup_setItem_ne hk] at hv
    exact h k v hv

/-! ## Recorded tokens -/

/-- Every token stands under its hash. -/
def Hashes (tokens : List (UInt32 × Word)) : Prop :=
  ∀ hash token, tokens.lookup hash = some token → hash = tokenHash token

section Record
variable {u : Unicode} {tokens tokens' : List (UInt32 × Word)} {token : Word}

/-- A recorded token is found under its hash, and the others where they
were. -/
theorem recordToken_ok (h : recordToken u tokens token = .ok tokens') :
    tokens'.lookup (tokenHash token) = some token ∧
      (∀ hash, hash ≠ tokenHash token → tokens'.lookup hash = tokens.lookup hash) ∧
      (tokens' = tokens ∨ tokens' = setItem tokens (tokenHash token) token) := by
  unfold recordToken raiseIf at h
  cases hlookup : tokens.lookup (tokenHash token) with
  | none =>
      rw [hlookup] at h
      cases h
      exact ⟨lookup_setItem_eq _ _ _, fun hash hne => lookup_setItem_ne hne _, .inr rfl⟩
  | some previous =>
      rw [hlookup] at h
      obtain ⟨_, hsame, h⟩ := bind_ok h
      cases h
      have hprevious : previous = token := by simpa using refuseIf_ok hsame
      exact ⟨hprevious ▸ hlookup, fun _ _ => rfl, .inl rfl⟩

theorem recordToken_keeps (h : recordToken u tokens token = .ok tokens') {hash : UInt32}
    (hfound : ∃ t, tokens.lookup hash = some t) : ∃ t, tokens'.lookup hash = some t := by
  obtain ⟨hself, hother, -⟩ := recordToken_ok h
  by_cases hhash : hash = tokenHash token
  · exact ⟨token, hhash ▸ hself⟩
  · rwa [hother hash hhash]

theorem Hashes.record (hs : Hashes tokens) (h : recordToken u tokens token = .ok tokens') :
    Hashes tokens' := by
  obtain ⟨hself, hother, -⟩ := recordToken_ok h
  intro hash t ht
  by_cases hhash : hash = tokenHash token
  · rw [hhash, hself] at ht
    rw [hhash, Option.some.inj ht]
  · rw [hother hash hhash] at ht
    exact hs hash t ht

end Record

/-! ## The corpus terms -/

/-- What holds of the terms known at every point of `parse`. -/
structure KnownChecked (known : KnownTerms) : Prop where
  tokens : Hashes known.hashTokens
  vectors : AllBounded known.termVectors

section Known
variable {u : Unicode} {weight : TermStats → Int}

theorem KnownChecked.addTerm {corpus : List (List Word)} {tokens : List Word} {docId : Nat}
    {known known' : KnownTerms} {token : Word} (hk : KnownChecked known)
    (h : addTerm u weight corpus tokens docId known token = .ok known') : KnownChecked known' := by
  unfold Policy.addTerm raiseIf at h
  obtain ⟨hashTokens, hrecord, h⟩ := bind_ok h
  obtain ⟨_, hweight, h⟩ := bind_ok h
  cases h
  have hw := refuseIf_ok hweight
  rw [Bool.not_eq_false', Bool.and_eq_true, decide_eq_true_eq, decide_eq_true_eq] at hw
  exact ⟨hk.tokens.record hrecord,
    hk.vectors.setItem _ ((hk.vectors.getD _).set docId hw.1.le hw.2)⟩

theorem KnownChecked.addKeywords {known known' : KnownTerms} {name : String} {start : Nat}
    {values : List String} (hk : KnownChecked known)
    (h : addKeywords u weight known name start values = .ok known') : KnownChecked known' := by
  unfold Policy.addKeywords raiseIf at h
  obtain ⟨corpus, -, h⟩ := bind_ok h
  obtain ⟨rawCorpus, -, h⟩ := bind_ok h
  obtain ⟨_, -, h⟩ := bind_ok h
  obtain ⟨_, -, h⟩ := bind_ok h
  refine foldlM_invariant (P := KnownChecked) h ⟨hk.tokens, hk.vectors⟩
    fun t ht document _ t' hdocument => ?_
  exact foldlM_invariant (P := KnownChecked) hdocument ht
    fun v hv token _ v' hterm => hv.addTerm hterm

end Known

/-! ## The aliases -/

/-- What holds of the variables of the alias loop. -/
structure AliasChecked (s : AliasVectors) : Prop where
  tokens : Hashes s.hashTokens
  distinct : (keys s.vectors).Nodup
  recorded : ∀ hash ∈ keys s.vectors, ∃ token, s.hashTokens.lookup hash = some token
  bounded : ∀ e ∈ s.vectors, Bounded e.2

section Aliases
variable {u : Unicode}

theorem AliasChecked.addAlias {vector : List Int} {s s' : AliasVectors} {surface : Word}
    (hs : AliasChecked s) (hvector : Bounded vector)
    (h : addAlias u vector s surface = .ok s') : AliasChecked s' := by
  unfold Policy.addAlias at h
  obtain ⟨hashTokens, hrecord, h⟩ := bind_ok h
  cases h
  refine ⟨hs.tokens.record hrecord, ?_, fun hash hmem => ?_, fun e he => ?_⟩
  · rw [keys_setItem]
    exact nodup_add hs.distinct _
  · rw [keys_setItem, mem_add] at hmem
    rcases hmem with hmem | rfl
    · exact recordToken_keeps hrecord (hs.recorded hash hmem)
    · exact ⟨surface, (recordToken_ok hrecord).1⟩
  · rcases mem_setItem he with rfl | he
    · exact hvector
    · exact hs.bounded e he

theorem AliasChecked.addAliases {lines : List (List Char)}
    {termVectors : List (UInt32 × List Int)} (hterms : AllBounded termVectors)
    {s s' : AliasVectors} {entry : Word × List Word} (hs : AliasChecked s)
    (h : addAliases u lines termVectors s entry = .ok s') : AliasChecked s' :=
  foldlM_invariant (P := AliasChecked) h hs fun _ ht _ _ _ halias =>
    ht.addAlias (hterms.getD _) halias

end Aliases

/-! ## The stop words -/

/-- What holds of the stop words collected so far. -/
structure StopsChecked (hashTokens stopwords : List (UInt32 × Word)) : Prop where
  tokens : Hashes stopwords
  distinct : (keys stopwords).Nodup
  apart : ∀ hash ∈ keys stopwords, hashTokens.lookup hash = none

/-- No stop word has the hash of the empty word. -/
theorem stopWord_hash_ne_empty : ∀ stopword ∈ englishStopWords, tokenHash stopword ≠ tokenHash [] := by
  decide +kernel

theorem StopsChecked.add {u : Unicode} {hashTokens stopwords stopwords' : List (UInt32 × Word)}
    (hhashes : Hashes hashTokens) (hs : StopsChecked hashTokens stopwords) {stopword : Word}
    (hmem : stopword ∈ englishStopWords)
    (h : addStopWord u hashTokens stopwords stopword = .ok stopwords') :
    StopsChecked hashTokens stopwords' := by
  have hrecord : hashTokens.lookup (tokenHash stopword) = none →
      recordToken u stopwords stopword = .ok stopwords' → StopsChecked hashTokens stopwords' := by
    intro hnone hrecord
    obtain ⟨-, -, hshape⟩ := recordToken_ok hrecord
    refine ⟨hs.tokens.record hrecord, ?_, fun hash hkey => ?_⟩
    · rcases hshape with rfl | rfl
      · exact hs.distinct
      · rw [keys_setItem]
        exact nodup_add hs.distinct _
    · rcases hshape with rfl | rfl
      · exact hs.apart hash hkey
      · rw [keys_setItem, mem_add] at hkey
        rcases hkey with hkey | rfl
        · exact hs.apart hash hkey
        · exact hnone
  unfold addStopWord at h
  cases hlookup : hashTokens.lookup (tokenHash stopword) with
  | none =>
      rw [hlookup] at h
      exact hrecord hlookup h
  | some token =>
      rw [hlookup] at h
      cases token with
      | nil => exact absurd (hhashes _ _ hlookup) (stopWord_hash_ne_empty stopword hmem)
      | cons c cs =>
          obtain ⟨_, -, h⟩ := bind_ok h
          cases h
          exact hs

/-! ## The rows -/

/-- A term table whose weights are bounded and whose stop words weigh
nothing. -/
structure WeightTable extends TermTable where
  bounded : ∀ row ∈ rows, Bounded row.weights
  silent : ∀ row ∈ rows, row.stopword = true → row.weights = zeroWeights
  fits : rows.length ≤ maxTerms

theorem sortByHash_perm (rows : List TermRow) : (sortByHash rows).Perm rows :=
  List.mergeSort_perm _ _

theorem forM_ok {ε α : Type} {f : α → Except ε Unit} {xs : List α} (h : xs.forM f = .ok ()) :
    ∀ x ∈ xs, f x = .ok () := by
  induction xs with
  | nil => simp
  | cons x xs ih =>
      obtain ⟨_, hx, hrest⟩ := bind_ok h
      intro y hy
      rcases List.mem_cons.mp hy with rfl | hy
      · exact hx
      · exact ih hrest y hy

theorem forM_of_ok {ε α : Type} {f : α → Except ε Unit} {xs : List α}
    (h : ∀ x ∈ xs, f x = .ok ()) : xs.forM f = .ok () := by
  induction xs with
  | nil => rfl
  | cons x xs ih =>
      exact (bind_of_ok (h x (by simp))).trans (ih fun y hy => h y (List.mem_cons_of_mem _ hy))

/-- The rows of the aliases. -/
def aliasRows (s : AliasVectors) : List TermRow :=
  s.vectors.map fun e => ⟨e.1, (s.hashTokens.lookup e.1).getD [], e.2, false⟩

/-- The rows of the stop words. -/
def stopRows (stopwords : List (UInt32 × Word)) : List TermRow :=
  stopwords.map fun e => ⟨e.1, e.2, zeroWeights, true⟩

/-- The two loops of `termRows`. -/
structure TermLoops (u : Unicode) (lines : List (List Char)) (known : KnownTerms)
    (s : AliasVectors) (stopwords : List (UInt32 × Word)) : Prop where
  aliases : known.stemSurfaces.foldlM (addAliases u lines known.termVectors)
    ⟨[], known.hashTokens⟩ = .ok s
  stops : englishStopWords.foldlM (addStopWord u s.hashTokens) [] = .ok stopwords

section Rows
variable {u : Unicode} {lines : List (List Char)} {known : KnownTerms}

theorem sortedRows_perm (s : AliasVectors) (stopwords : List (UInt32 × Word)) :
    (sortByHash (aliasRows s) ++ sortByHash (stopRows stopwords)).Perm
      (aliasRows s ++ stopRows stopwords) :=
  (sortByHash_perm _).append (sortByHash_perm _)

/-- What `termRows` returns. -/
theorem termRows_parts {rows : List TermRow} (h : termRows u lines known = .ok rows) :
    ∃ s stopwords, TermLoops u lines known s stopwords ∧
      rows.Perm (aliasRows s ++ stopRows stopwords) ∧
      (∀ row ∈ rows, row.token.length ≤ maxTokenBytes) ∧ rows.length ≤ maxTerms := by
  unfold termRows raiseIf at h
  obtain ⟨_, -, h⟩ := bind_ok h
  obtain ⟨s, haliases, h⟩ := bind_ok h
  obtain ⟨stopwords, hstops, h⟩ := bind_ok h
  obtain ⟨_, hshort, h⟩ := bind_ok h
  obtain ⟨_, hfits, h⟩ := bind_ok h
  cases h
  refine ⟨s, stopwords, ⟨haliases, hstops⟩,
    (sortByHash_perm _).trans (sortedRows_perm s stopwords), fun row hrow => ?_, ?_⟩
  · have hok := forM_ok hshort row ((sortByHash_perm _).mem_iff.mp hrow)
    simpa using refuseIf_ok hok
  · rw [(sortByHash_perm _).length_eq]
    simpa using refuseIf_ok hfits

/-- When `termRows` returns. -/
theorem termRows_of (hcorpus : known.termVectors.length ≤ maxCorpusTerms) {s : AliasVectors}
    {stopwords : List (UInt32 × Word)} (h : TermLoops u lines known s stopwords)
    (hshort : ∀ row ∈ aliasRows s ++ stopRows stopwords, row.token.length ≤ maxTokenBytes)
    (hfits : (aliasRows s ++ stopRows stopwords).length ≤ maxTerms) :
    ∃ rows, termRows u lines known = .ok rows := by
  have hperm := sortedRows_perm s stopwords
  have hpass : ∀ {bad : Prop} [Decidable bad] (text : String), ¬bad →
      raiseIf (decide bad) text = .ok () := fun text hbad => by
    rw [raiseIf, decide_eq_false hbad]
    rfl
  refine ⟨sortByHash (sortByHash (aliasRows s) ++ sortByHash (stopRows stopwords)), ?_⟩
  rw [termRows, bind_of_ok (hpass _ (not_lt.mpr hcorpus)), bind_of_ok h.aliases,
    bind_of_ok h.stops]
  refine (bind_of_ok (forM_of_ok fun row hrow => ?_)).trans
    ((bind_of_ok (a := ()) ?_).trans rfl)
  · exact hpass _ (not_lt.mpr (hshort row (hperm.mem_iff.mp hrow)))
  · exact hpass _ (not_lt.mpr (hperm.length_eq.trans_le hfits))

/-- **The rows form a table.** -/
theorem termRows_ok {rows : List TermRow} (hk : KnownChecked known)
    (h : termRows u lines known = .ok rows) : ∃ T : WeightTable, T.rows = rows := by
  obtain ⟨s, stopwords, hloops, hperm, hshort, hfits⟩ := termRows_parts h
  have hs : AliasChecked s := foldlM_invariant (P := AliasChecked) hloops.aliases
    ⟨hk.tokens, by simp [keys], by simp [keys], by simp⟩
    fun t ht entry _ t' hentry => ht.addAliases hk.vectors hentry
  have hstop : StopsChecked s.hashTokens stopwords :=
    foldlM_invariant (P := StopsChecked s.hashTokens) hloops.stops
      ⟨by simp [Hashes], by simp [keys], by simp [keys]⟩
      fun t ht stopword hmem t' hadd => ht.add hs.tokens hmem hadd
  -- a hash is that of a corpus term or of a stop word, and not of both
  have halias : ∀ row ∈ aliasRows s, row.hash = tokenHash row.token ∧ Bounded row.weights ∧
      row.stopword = false ∧ ∃ token, s.hashTokens.lookup row.hash = some token := by
    intro row hrow
    obtain ⟨e, he, rfl⟩ := List.mem_map.mp hrow
    obtain ⟨token, htoken⟩ := hs.recorded e.1 (List.mem_map_of_mem he)
    refine ⟨?_, hs.bounded e he, rfl, token, htoken⟩
    rw [htoken, Option.getD_some]
    exact hs.tokens _ _ htoken
  have hstopRow : ∀ row ∈ stopRows stopwords, row.hash = tokenHash row.token ∧
      row.weights = zeroWeights ∧ s.hashTokens.lookup row.hash = none := by
    intro row hrow
    obtain ⟨e, he, rfl⟩ := List.mem_map.mp hrow
    exact ⟨hstop.tokens _ _ (lookup_of_mem hstop.distinct he), rfl,
      hstop.apart e.1 (List.mem_map_of_mem he)⟩
  refine ⟨{ rows := rows
            hashed := fun row hrow => ?_
            distinct := ?_
            short := hshort
            bounded := fun row hrow => ?_
            silent := fun row hrow hstopword => ?_
            fits := hfits }, rfl⟩
  · rcases List.mem_append.mp (hperm.mem_iff.mp hrow) with hrow | hrow
    · exact (halias row hrow).1
    · exact (hstopRow row hrow).1
  · rw [(hperm.map TermRow.hash).nodup_iff, List.map_append, List.nodup_append]
    refine ⟨?_, ?_, ?_⟩
    · rw [aliasRows, List.map_map]
      exact hs.distinct
    · rw [stopRows, List.map_map]
      exact hstop.distinct
    · intro a ha b hb hab
      obtain ⟨row, hrow, rfl⟩ := List.mem_map.mp ha
      obtain ⟨stop, hstopmem, rfl⟩ := List.mem_map.mp hb
      obtain ⟨token, htoken⟩ := (halias row hrow).2.2.2
      rw [hab, (hstopRow stop hstopmem).2.2] at htoken
      cases htoken
  · rcases List.mem_append.mp (hperm.mem_iff.mp hrow) with hrow | hrow
    · exact (halias row hrow).2.1
    · rw [(hstopRow row hrow).2.1]
      exact .zero
  · rcases List.mem_append.mp (hperm.mem_iff.mp hrow) with hrow | hrow
    · rw [(halias row hrow).2.2.1] at hstopword
      cases hstopword
    · exact (hstopRow row hrow).2.1

end Rows

end Xsr.Bm25
