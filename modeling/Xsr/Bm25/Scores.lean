import Xsr.Bm25.LoadedPolicy

/-!
# Scores — what a sequence of closed tokens adds up to

As long as no more tokens are counted than the limit allows, the score of a
document is the sum of the weights of the closed tokens: every weight is at
most the 131072nd part of the largest 64-bit number. A document bit is set
as soon as the score reaches the threshold, and a score never falls.
-/

namespace Xsr.Bm25

open Kernel Lib Policy Control

/-! ## Weights and sums -/

/-- The weight of a token for a document. -/
def tokenWeight (T : TermTable) (d : Nat) (token : Word) : Int :=
  match T.entry token with
  | some row => row.weights.getD d 0
  | none => 0

/-- The token is counted: it is no stop word. -/
def counted (T : TermTable) (token : Word) : Bool := !(T.entry token).any TermRow.stopword

/-- The sum of the weights of a sequence of tokens. -/
def finalScore (T : TermTable) (tokens : List Word) (d : Nat) : Int :=
  (tokens.map (tokenWeight T d)).sum

theorem maxFixedTermWeight_nonneg : 0 ≤ maxFixedTermWeight := by decide

section Weights
variable (T : WeightTable)

theorem Bounded.getD {vector : List Int} (h : Bounded vector) (d : Nat) :
    0 ≤ vector.getD d 0 ∧ vector.getD d 0 ≤ maxFixedTermWeight := by
  by_cases hd : d < vector.length
  · rw [List.getD_eq_getElem _ _ hd]
    exact h.weights _ (List.getElem_mem hd)
  · rw [List.getD_eq_default _ _ (not_lt.mp hd)]
    exact ⟨le_refl _, maxFixedTermWeight_nonneg⟩

theorem tokenWeight_bounds (token : Word) (d : Nat) :
    0 ≤ tokenWeight T.toTermTable d token ∧
      tokenWeight T.toTermTable d token ≤ maxFixedTermWeight := by
  unfold tokenWeight
  cases hentry : T.entry token with
  | none => exact ⟨le_refl _, maxFixedTermWeight_nonneg⟩
  | some row => exact (T.bounded row (TermTable.entry_eq_some_iff.mp hentry).1).getD d

/-- A stop word weighs nothing. -/
theorem tokenWeight_uncounted {token : Word} (h : counted T.toTermTable token = false) (d : Nat) :
    tokenWeight T.toTermTable d token = 0 := by
  unfold counted at h
  unfold tokenWeight
  cases hentry : T.entry token with
  | none => rfl
  | some row =>
      rw [hentry, Option.any_some, Bool.not_eq_false'] at h
      dsimp only
      rw [T.silent row (TermTable.entry_eq_some_iff.mp hentry).1 h]
      simp [zeroWeights]

theorem finalScore_snoc (tokens : List Word) (token : Word) (d : Nat) :
    finalScore T.toTermTable (tokens ++ [token]) d
      = finalScore T.toTermTable tokens d + tokenWeight T.toTermTable d token := by
  simp [finalScore]

/-- **The bound of a score**, by the number of counted tokens. -/
theorem finalScore_bounds (tokens : List Word) (d : Nat) :
    0 ≤ finalScore T.toTermTable tokens d ∧ finalScore T.toTermTable tokens d ≤
      (tokens.countP (counted T.toTermTable) : Int) * maxFixedTermWeight := by
  induction tokens using List.reverseRecOn with
  | nil => simp [finalScore]
  | append_singleton tokens token ih =>
      obtain ⟨hlow, hhigh⟩ := tokenWeight_bounds T token d
      rw [finalScore_snoc, List.countP_append, List.countP_singleton]
      split_ifs with hcounted
      · push_cast
        constructor
        · omega
        · rw [add_mul, one_mul]
          omega
      · rw [tokenWeight_uncounted T (by simpa using hcounted)]
        simpa using ih

/-- The largest sum is a signed 64-bit number. -/
theorem maxFixedTermWeight_mul {n : Nat} (h : n ≤ bm25MaxQueryTokens) :
    (n : Int) * maxFixedTermWeight ≤ maxFixedScore := by
  have hmax : (bm25MaxQueryTokens : Int) * maxFixedTermWeight ≤ maxFixedScore := by decide
  have hn : (n : Int) ≤ (bm25MaxQueryTokens : Int) := by exact_mod_cast h
  exact (mul_le_mul_of_nonneg_right hn (by decide)).trans hmax

theorem finalScore_le {tokens : List Word}
    (h : tokens.countP (counted T.toTermTable) ≤ bm25MaxQueryTokens) (d : Nat) :
    finalScore T.toTermTable tokens d ≤ maxFixedScore :=
  (finalScore_bounds T tokens d).2.trans (maxFixedTermWeight_mul h)

end Weights

/-! ## Closing tokens -/

/-- The scorer and the tokens `xdp_bm25_finish_word` closed: between two of
them the bytes of a token are read, which leaves the scores alone. -/
inductive Closing (m : Bm25Maps) : List Word → Bm25State → Prop where
  | start : Closing m [] bm25Init
  | read {tokens : List Word} {s s' : Bm25State} (closing : Closing m tokens s)
      (scores : s'.scores = s.scores) (matched : s'.matchedDocuments = s.matchedDocuments)
      (queryTokens : s'.queryTokens = s.queryTokens) (overflow : s'.overflow = s.overflow) :
      Closing m tokens s'
  | close {tokens : List Word} {s : Bm25State} {token : Word} (closing : Closing m tokens s)
      (inWord : s.inWord = true) (hashed : Hashed s token) :
      Closing m (tokens ++ [token]) (bm25FinishWord m s)

/-- The scorer after the tokens `tokens`, no more of them counted than the
limit allows. -/
structure Scored (T : WeightTable) (config : Bm25Config) (tokens : List Word) (s : Bm25State) :
    Prop where
  queryTokens : s.queryTokens = tokens.countP (counted T.toTermTable)
  room : s.queryTokens ≤ bm25MaxQueryTokens
  scores : ∀ d < bm25MaxDocuments, s.scores d = finalScore T.toTermTable tokens d
  matched : ∀ d < bm25MaxDocuments, s.matchedDocuments.testBit d = true ↔
    0 < finalScore T.toTermTable tokens d ∧
      config.thresholdsFixed d ≤ finalScore T.toTermTable tokens d
  overflow : s.overflow = false

section Step
variable {T : WeightTable} {config : Bm25Config} {m : Bm25Maps} {tokens : List Word}
  {s s' : Bm25State}

theorem Scored.init : Scored T config [] bm25Init :=
  ⟨rfl, Nat.zero_le _, fun _ _ => rfl,
    fun d _ => iff_of_false (by simp [bm25Init, Bm25State.zero]) (by simp [finalScore]), rfl⟩

theorem Scored.read (h : Scored T config tokens s) (hscores : s'.scores = s.scores)
    (hmatched : s'.matchedDocuments = s.matchedDocuments)
    (hqueryTokens : s'.queryTokens = s.queryTokens) (hoverflow : s'.overflow = s.overflow) :
    Scored T config tokens s' := by
  refine ⟨?_, ?_, ?_, ?_, ?_⟩
  · rw [hqueryTokens]
    exact h.queryTokens
  · rw [hqueryTokens]
    exact h.room
  · rw [hscores]
    exact h.scores
  · rw [hmatched]
    exact h.matched
  · rw [hoverflow]
    exact h.overflow

/-- A token without weight changes no score and no bit. -/
theorem Scored.weightless (h : Scored T config tokens s) {token : Word}
    (hweight : ∀ d, tokenWeight T.toTermTable d token = 0) :
    (∀ d < bm25MaxDocuments, s.scores d = finalScore T.toTermTable (tokens ++ [token]) d) ∧
    ∀ d < bm25MaxDocuments, s.matchedDocuments.testBit d = true ↔
      0 < finalScore T.toTermTable (tokens ++ [token]) d ∧
        config.thresholdsFixed d ≤ finalScore T.toTermTable (tokens ++ [token]) d := by
  have hsame : ∀ d, finalScore T.toTermTable (tokens ++ [token]) d
      = finalScore T.toTermTable tokens d := fun d => by
    rw [finalScore_snoc, hweight, add_zero]
  refine ⟨fun d hd => ?_, fun d hd => ?_⟩
  · rw [hsame]
    exact h.scores d hd
  · rw [hsame]
    exact h.matched d hd

/-- **A counted token**: its weights are added and the reached bits set. -/
theorem Scored.apply (hconfig : m.config = some config) (h : Scored T config tokens s)
    {token : Word} {row : TermRow} (hentry : T.entry token = some row)
    (hcounted : counted T.toTermTable token = true) (hroom : s.queryTokens < bm25MaxQueryTokens) :
    Scored T config (tokens ++ [token])
      (applyRow m row { s with queryTokens := s.queryTokens + 1 }) := by
  have hadded := applyRow_added m row { s with queryTokens := s.queryTokens + 1 }
  have hrow := T.bounded row (TermTable.entry_eq_some_iff.mp hentry).1
  have hweight : ∀ d, tokenWeight T.toTermTable d token = row.weights.getD d 0 := fun d => by
    unfold tokenWeight
    rw [hentry]
  have hbounds := fun d => hrow.getD d
  have hmax : maxFixedTermWeight ≤ maxFixedScore := by decide
  have hscore : (maxFixedScore : Int) = 9223372036854775807 := rfl
  have hterm : ∀ d, (bm25TermWeights row).weights d = row.weights.getD d 0 := fun d => by
    have := hbounds d
    exact s64_of_bounds (by omega) (by omega)
  have hcount : (tokens ++ [token]).countP (counted T.toTermTable) ≤ bm25MaxQueryTokens := by
    rw [List.countP_append, List.countP_singleton, if_pos hcounted, ← h.queryTokens]
    exact hroom
  have hnew : ∀ d < bm25MaxDocuments,
      addedScore (bm25TermWeights row) { s with queryTokens := s.queryTokens + 1 } d
        = finalScore T.toTermTable (tokens ++ [token]) d := by
    intro d hd
    have hle := finalScore_le T hcount d
    have hge := (finalScore_bounds T (tokens ++ [token]) d).1
    rw [finalScore_snoc] at hle hge ⊢
    rw [addedScore, hterm, ← hweight]
    show (if tokenWeight T.toTermTable d token = 0 then s.scores d
      else s64 (s.scores d + tokenWeight T.toTermTable d token)) = _
    rw [h.scores d hd]
    split_ifs with hzero
    · rw [hzero, add_zero]
    · exact s64_of_bounds (by omega) (by omega)
  have hmem : ∀ {d : Nat}, d < bm25MaxDocuments → d ∈ List.range bm25MaxDocuments := fun hd =>
    List.mem_range.mpr hd
  refine ⟨?_, ?_, fun d hd => ?_, fun d hd => ?_, ?_⟩
  · rw [hadded.queryTokens, List.countP_append, List.countP_singleton, if_pos hcounted,
      ← h.queryTokens]
  · rw [hadded.queryTokens]
    exact hroom
  · rw [hadded.scores, if_pos (hmem hd)]
    exact hnew d hd
  · have hold := h.matched d hd
    have hpos := (finalScore_bounds T tokens d).1
    have hweightPos := (tokenWeight_bounds T token d).1
    rw [hadded.matched, Bool.or_eq_true, decide_eq_true (hmem hd), Bool.true_and, reached,
      hnew d hd, hconfig, Option.any_some, Bool.and_eq_true, decide_eq_true_eq, decide_eq_true_eq,
      hterm, ← hweight]
    show s.matchedDocuments.testBit d = true ∨ _ ↔ _
    rw [hold, finalScore_snoc]
    -- a score that had reached the threshold still does
    constructor
    · rintro (⟨hscore, hreach⟩ | ⟨hne, hreach⟩)
      · exact ⟨by omega, by omega⟩
      · exact ⟨by omega, hreach⟩
    · rintro ⟨hscore, hreach⟩
      by_cases hzero : tokenWeight T.toTermTable d token = 0
      · exact .inl ⟨by omega, by omega⟩
      · exact .inr ⟨hzero, hreach⟩
  · rw [hadded.overflow]
    exact h.overflow

/-- **One closed token**, counted only if there is room. -/
theorem Scored.close (hconfig : m.config = some config) (hterms : m.terms = T.terms)
    (h : Scored T config tokens s) {token : Word} (hin : s.inWord = true) (hashed : Hashed s token)
    (hroom : counted T.toTermTable token = true → s.queryTokens < bm25MaxQueryTokens) :
    Scored T config (tokens ++ [token]) (bm25FinishWord m s) := by
  have hpending : Scored T config tokens { s with pendingConnector := 0 } :=
    h.read rfl rfl rfl rfl
  rw [finishWord_eq hterms hin hashed, closeToken]
  refine Scored.read (s := if (T.entry token).any TermRow.stopword then
    { s with pendingConnector := 0 } else
      countToken m (T.entry token) { s with pendingConnector := 0 }) ?_ rfl rfl rfl rfl
  cases hcounted : counted T.toTermTable token with
  | false =>
      have hstop : (T.entry token).any TermRow.stopword = true := by
        rwa [counted, Bool.not_eq_false'] at hcounted
      obtain ⟨hscores, hmatched⟩ := hpending.weightless (tokenWeight_uncounted T hcounted)
      rw [if_pos hstop]
      refine ⟨?_, h.room, hscores, hmatched, h.overflow⟩
      rw [List.countP_append, List.countP_singleton, hcounted, if_neg Bool.false_ne_true]
      exact h.queryTokens
  | true =>
      have hstop : (T.entry token).any TermRow.stopword = false := by
        rwa [counted, Bool.not_eq_true'] at hcounted
      have hlt : ¬bm25MaxQueryTokens ≤ s.queryTokens := not_le.mpr (hroom hcounted)
      rw [hstop, if_neg Bool.false_ne_true]
      unfold countToken
      rw [if_neg hlt]
      cases hentry : T.entry token with
      | some row => exact hpending.apply hconfig hentry hcounted (hroom hcounted)
      | none =>
          have hweight : ∀ d, tokenWeight T.toTermTable d token = 0 := fun d => by
            unfold tokenWeight
            rw [hentry]
          obtain ⟨hscores, hmatched⟩ := hpending.weightless hweight
          refine ⟨?_, hroom hcounted, hscores, hmatched, h.overflow⟩
          rw [List.countP_append, List.countP_singleton, if_pos hcounted]
          exact congrArg (· + 1) h.queryTokens

end Step

/-! ## Every run -/

section Run
variable {T : WeightTable} {config : Bm25Config} {m : Bm25Maps} {tokens : List Word}
  {s : Bm25State}

/-- A run whose tokens fit the limit is scored. -/
theorem Closing.scored (hconfig : m.config = some config) (hterms : m.terms = T.terms)
    (h : Closing m tokens s) (hroom : tokens.countP (counted T.toTermTable) ≤ bm25MaxQueryTokens) :
    Scored T config tokens s := by
  induction h with
  | start => exact .init
  | read _ hscores hmatched hqueryTokens hoverflow ih =>
      exact (ih hroom).read hscores hmatched hqueryTokens hoverflow
  | @close tokens s token _ hin hashed ih =>
      rw [List.countP_append, List.countP_singleton] at hroom
      have hscored := ih (by omega)
      refine hscored.close hconfig hterms hin hashed fun hcounted => ?_
      rw [if_pos hcounted] at hroom
      rw [hscored.queryTokens]
      exact hroom

/-- What `xdp_bm25_finish_word` does to the overflow mark. -/
theorem finishWord_overflow (hterms : m.terms = T.terms) {token : Word} (hin : s.inWord = true)
    (hashed : Hashed s token) (h : (bm25FinishWord m s).overflow = false) :
    s.overflow = false ∧
      (counted T.toTermTable token = true → s.queryTokens < bm25MaxQueryTokens) := by
  rw [finishWord_eq hterms hin hashed, closeToken] at h
  have hshape : (if (T.entry token).any TermRow.stopword then { s with pendingConnector := 0 }
      else countToken m (T.entry token) { s with pendingConnector := 0 }).overflow = false := h
  cases hcounted : counted T.toTermTable token with
  | false =>
      have hstop : (T.entry token).any TermRow.stopword = true := by
        rwa [counted, Bool.not_eq_false'] at hcounted
      rw [if_pos hstop] at hshape
      exact ⟨hshape, fun hfalse => absurd hfalse Bool.false_ne_true⟩
  | true =>
      have hstop : (T.entry token).any TermRow.stopword = false := by
        rwa [counted, Bool.not_eq_true'] at hcounted
      rw [hstop, if_neg Bool.false_ne_true] at hshape
      unfold countToken at hshape
      split_ifs at hshape with hfull
      refine ⟨?_, fun _ => not_le.mp hfull⟩
      cases hentry : T.entry token with
      | none =>
          rw [hentry] at hshape
          exact hshape
      | some row =>
          rw [hentry] at hshape
          have hadded := applyRow_added m row
            { s with pendingConnector := 0, queryTokens := s.queryTokens + 1 }
          exact hadded.overflow.symm.trans hshape

/-- A run that did not overflow had room for its tokens. -/
theorem Closing.room (hconfig : m.config = some config) (hterms : m.terms = T.terms)
    (h : Closing m tokens s) (hover : s.overflow = false) :
    tokens.countP (counted T.toTermTable) ≤ bm25MaxQueryTokens := by
  induction h with
  | start => exact Nat.zero_le _
  | read _ _ _ _ hoverflow ih => exact ih (hoverflow ▸ hover)
  | @close tokens s token closing hin hashed ih =>
      obtain ⟨hbefore, hlt⟩ := finishWord_overflow hterms hin hashed hover
      have hscored := closing.scored hconfig hterms (ih hbefore)
      have hroom := ih hbefore
      rw [List.countP_append, List.countP_singleton]
      split_ifs with hcounted
      · have := hlt hcounted
        rw [hscored.queryTokens] at this
        exact this
      · exact hroom

end Run

end Xsr.Bm25
