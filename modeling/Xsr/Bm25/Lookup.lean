import Xsr.Bm25.Trace
import Xsr.Control.PolicyLoader
import Xsr.Policy.Bm25Terms

/-!
# Lookup — the table entry of a closed token

The scorer looks a token up by its hash and then compares the bytes it
kept. `Hashed` is the representation invariant of the open token, so the
comparison decides the token itself: `tokenMatches_iff`. With distinct
hashes the entry found is the entry of the token, or the token has none.
-/

namespace Xsr.Bm25

open Kernel Lib Policy Control

/-! ## Tables -/

/-- A term table as `parse` emits it: every row stands under the hash of its
token, no two rows share a hash, and the tokens fit the kernel's buffer. -/
structure TermTable where
  rows : List TermRow
  hashed : ∀ row ∈ rows, row.hash = tokenHash row.token
  distinct : (rows.map TermRow.hash).Nodup
  short : ∀ row ∈ rows, row.token.length ≤ maxTokenBytes

namespace TermTable
variable {T : TermTable}

/-- `xdp_bm25_terms` with the table loaded. -/
def terms (T : TermTable) : BpfMap UInt32 Bm25TermWeights := fun hash =>
  (T.rows.find? fun row => row.hash == hash).map bm25TermWeights

/-- The row of a token. -/
def entry (T : TermTable) (token : Word) : Option TermRow :=
  T.rows.find? fun row => row.token == token

theorem eq_of_hash {a b : TermRow} (ha : a ∈ T.rows) (hb : b ∈ T.rows) (h : a.hash = b.hash) :
    a = b := List.inj_on_of_nodup_map T.distinct ha hb h

theorem entry_eq_some_iff {token : Word} {row : TermRow} :
    T.entry token = some row ↔ row ∈ T.rows ∧ row.token = token := by
  constructor
  · intro h
    exact ⟨List.mem_of_find?_eq_some h, by simpa using List.find?_some h⟩
  · rintro ⟨hmem, rfl⟩
    cases hfind : T.entry row.token with
    | none => simpa using List.find?_eq_none.mp hfind row hmem
    | some found =>
        have htoken : found.token = row.token := by simpa using List.find?_some hfind
        have hfound := List.mem_of_find?_eq_some hfind
        rw [eq_of_hash hfound hmem (by rw [T.hashed _ hfound, T.hashed _ hmem, htoken])]

/-- What the map holds under the hash of a token. -/
theorem terms_tokenHash (T : TermTable) (token : Word) :
    (∃ row ∈ T.rows, T.terms (tokenHash token) = some (bm25TermWeights row) ∧
      row.hash = tokenHash token) ∨
    T.terms (tokenHash token) = none ∧ ∀ row ∈ T.rows, row.hash ≠ tokenHash token := by
  cases hfind : T.rows.find? fun row => row.hash == tokenHash token with
  | none =>
      refine .inr ⟨by rw [terms, hfind]; rfl, fun row hmem => ?_⟩
      simpa using List.find?_eq_none.mp hfind row hmem
  | some row =>
      exact .inl ⟨row, List.mem_of_find?_eq_some hfind, by rw [terms, hfind]; rfl,
        by simpa using List.find?_some hfind⟩

end TermTable

/-! ## The comparison -/

/-- The comparison loop from `position` on. -/
theorem matchLoop_eq {s : Bm25State} (term : Bm25TermWeights) (hlen : s.tokenLength ≤ 64) :
    ∀ fuel position, position ≤ s.tokenLength → s.tokenLength ≤ position + fuel →
      (boundedLoop (bm25MatchCallback s term) fuel position true = true ↔
        ∀ i, position ≤ i → i < s.tokenLength → s.token i = term.token i) := by
  intro fuel
  induction fuel with
  | zero =>
      intro position hle hfuel
      exact iff_of_true rfl fun i hi hlt => by omega
  | succ fuel ih =>
      intro position hle hfuel
      rw [boundedLoop, bm25MatchCallback]
      by_cases hend : s.tokenLength ≤ position
      · rw [if_pos hend]
        exact iff_of_true rfl fun i hi hlt => by omega
      · have hindex : position &&& (bm25MaxTokenBytes - 1) = position :=
          tokenIndex (show position < 64 by omega)
        simp only [if_neg hend, hindex]
        by_cases hbyte : s.token position = term.token position
        · rw [if_neg (not_not.mpr hbyte)]
          refine (ih (position + 1) (by omega) (by omega)).trans ⟨fun h i hi hlt => ?_, fun h i hi =>
            h i (by omega)⟩
          rcases Nat.eq_or_lt_of_le hi with rfl | hgt
          · exact hbyte
          · exact h i hgt hlt
        · rw [if_pos hbyte]
          exact iff_of_false Bool.false_ne_true fun h => hbyte (h position (Nat.le_refl _) (by omega))

/-- **The comparison decides the token.** -/
theorem tokenMatches_iff {s : Bm25State} {token : Word} (h : Hashed s token) {row : TermRow}
    (hshort : row.token.length ≤ maxTokenBytes) :
    bm25TokenMatches s (bm25TermWeights row) = true ↔ row.token = token := by
  have hmax : bm25MaxTokenBytes = 64 := rfl
  have hmaxBytes : maxTokenBytes = 64 := rfl
  have hlength : (bm25TermWeights row).tokenLength = row.token.length := by
    simp only [bm25TermWeights, cU8]
    omega
  have hover := h.overflow
  have hlen := h.length
  rw [bm25TokenMatches, hlength]
  by_cases hlong : bm25MaxTokenBytes < token.length
  · rw [if_pos (.inl (hover.mpr hlong))]
    refine iff_of_false Bool.false_ne_true ?_
    rintro rfl
    omega
  · have hsame : s.tokenLength = token.length := by omega
    by_cases hlens : row.token.length = token.length
    · rw [if_neg (by rintro (ho | hne); exacts [hlong (hover.mp ho), hne (by omega)])]
      have hloop := matchLoop_eq (s := s) (bm25TermWeights row) (by omega)
        bm25MaxTokenBytes 0 (Nat.zero_le _) (by omega)
      rw [hloop]
      constructor
      · intro hbytes
        refine List.ext_getElem hlens fun i hi hi' => ?_
        have hbyte := hbytes i (Nat.zero_le _) (by omega)
        rw [h.bytes i (by omega) token[i] (List.getElem?_eq_getElem hi')] at hbyte
        rw [hbyte]
        simp [bm25TermWeights, hi]
      · rintro rfl i - hi
        have hi' : i < row.token.length := by omega
        rw [h.bytes i (by omega) row.token[i] (List.getElem?_eq_getElem hi')]
        simp [bm25TermWeights, hi']
    · rw [if_pos (.inr (by omega))]
      refine iff_of_false Bool.false_ne_true ?_
      rintro rfl
      exact hlens rfl

/-! ## Applying a row -/

/-- The score of a document after a weight was added. -/
def addedScore (term : Bm25TermWeights) (s : Bm25State) (document : Nat) : Int :=
  if term.weights document = 0 then s.scores document
  else s64 (s.scores document + term.weights document)

/-- The document reached its threshold with the weight just added. -/
def reached (m : Bm25Maps) (term : Bm25TermWeights) (s : Bm25State) (document : Nat) : Bool :=
  term.weights document ≠ 0 &&
    m.config.any fun config => config.thresholdsFixed document ≤ addedScore term s document

/-- The scorer with some documents done: each of them, and nothing else. -/
structure Added (m : Bm25Maps) (term : Bm25TermWeights) (s : Bm25State) (documents : List Nat)
    (s' : Bm25State) : Prop where
  scores : ∀ d, s'.scores d = if d ∈ documents then addedScore term s d else s.scores d
  matched : ∀ d, s'.matchedDocuments.testBit d =
    (s.matchedDocuments.testBit d || (decide (d ∈ documents) && reached m term s d))
  queryTokens : s'.queryTokens = s.queryTokens
  overflow : s'.overflow = s.overflow

/-- One document. -/
theorem Added.step {m : Bm25Maps} {term : Bm25TermWeights} {s s' : Bm25State}
    {documents : List Nat} (h : Added m term s documents s') {d : Nat} (hd : d < bm25MaxDocuments)
    (hnew : d ∉ documents) :
    Added m term s (documents ++ [d]) (bm25AddCallback m term d s').1 := by
  have hindex : d &&& (bm25MaxDocuments - 1) = d := by
    have hmod : d &&& (bm25MaxDocuments - 1) = d % 16 := Nat.and_two_pow_sub_one_eq_mod d 4
    rw [hmod]
    exact Nat.mod_eq_of_lt hd
  have hold : s'.scores d = s.scores d := by rw [h.scores, if_neg hnew]
  have hmem : ∀ e, e ∈ documents ++ [d] ↔ e ∈ documents ∨ e = d := by simp
  -- without a weight the callback returns before it compares
  by_cases hweight : term.weights d = 0
  · have hstep : (bm25AddCallback m term d s').1 = s' := by
      simp only [bm25AddCallback, hindex, hweight, if_true]
    rw [hstep]
    refine ⟨fun e => ?_, fun e => ?_, h.queryTokens, h.overflow⟩
    · rw [h.scores, if_congr (hmem e) rfl rfl]
      by_cases he : e = d
      · subst he
        rw [if_neg hnew, if_pos (.inr rfl), addedScore, if_pos hweight]
      · simp only [he, or_false]
    · rw [h.matched]
      by_cases he : e = d
      · subst he
        simp [reached, hweight]
      · simp [he]
  · have hadded : s64 (s'.scores d + term.weights d) = addedScore term s d := by
      rw [hold, addedScore, if_neg hweight]
    have hscores : ∀ e, Function.update s'.scores d (addedScore term s d) e =
        if e ∈ documents ++ [d] then addedScore term s e else s.scores e := by
      intro e
      by_cases he : e = d
      · subst he
        rw [Function.update_self, if_pos ((hmem e).mpr (.inr rfl))]
      · rw [Function.update_of_ne he, h.scores]
        exact if_congr (by rw [hmem]; simp [he]) rfl rfl
    have hbit : ∀ e, (s'.matchedDocuments ||| 1 <<< d).testBit e =
        (s'.matchedDocuments.testBit e || decide (e = d)) := by
      intro e
      rw [Nat.testBit_or, Nat.one_shiftLeft, Nat.testBit_two_pow]
      simp only [eq_comm]
    simp only [bm25AddCallback, hindex, hweight, if_false, hadded, Function.update_self]
    cases hconfig : m.config with
    | none =>
        refine ⟨hscores, fun e => ?_, h.queryTokens, h.overflow⟩
        have hnone : ∀ e, reached m term s e = false := fun e => by
          rw [reached, hconfig, Option.any_none, Bool.and_false]
        rw [h.matched, hnone, Bool.and_false, Bool.and_false]
    | some config =>
        dsimp only
        by_cases hreach : config.thresholdsFixed d ≤ addedScore term s d
        · rw [if_pos hreach]
          refine ⟨hscores, fun e => ?_, h.queryTokens, h.overflow⟩
          show (s'.matchedDocuments ||| 1 <<< d).testBit e = _
          rw [hbit, h.matched]
          by_cases he : e = d
          · subst he
            simp [reached, hweight, hconfig, hreach]
          · simp [he]
        · rw [if_neg hreach]
          refine ⟨hscores, fun e => ?_, h.queryTokens, h.overflow⟩
          show s'.matchedDocuments.testBit e = _
          rw [h.matched]
          by_cases he : e = d
          · subst he
            simp [reached, hweight, hconfig, hreach, hnew]
          · simp [he]

/-- The weights of a row added to the scores. -/
def applyRow (m : Bm25Maps) (row : TermRow) (s : Bm25State) : Bm25State :=
  boundedLoop (bm25AddCallback m (bm25TermWeights row)) bm25MaxDocuments 0 s

/-- **A row is applied** to every document once. -/
theorem applyRow_added (m : Bm25Maps) (row : TermRow) (s : Bm25State) :
    Added m (bm25TermWeights row) s (List.range bm25MaxDocuments) (applyRow m row s) := by
  have hloop : applyRow m row s = (List.range bm25MaxDocuments).foldl
      (fun s d => (bm25AddCallback m (bm25TermWeights row) d s).1) s := by
    rw [applyRow, List.range_eq_range']
    refine boundedLoop_eq_foldl (fun d s => ?_) _ _ _
    unfold bm25AddCallback
    dsimp only
    split_ifs
    · rfl
    · cases m.config with
      | none => rfl
      | some config => dsimp only; split_ifs <;> rfl
  have hprefix : ∀ n, n ≤ bm25MaxDocuments → Added m (bm25TermWeights row) s (List.range n)
      ((List.range n).foldl (fun s d => (bm25AddCallback m (bm25TermWeights row) d s).1) s) := by
    intro n
    induction n with
    | zero => exact fun _ => ⟨by simp, by simp, rfl, rfl⟩
    | succ n ih =>
        intro hn
        rw [List.range_succ, List.foldl_append]
        exact (ih (by omega)).step hn (by simp)
  rw [hloop]
  exact hprefix _ (Nat.le_refl _)

/-! ## Closing a token -/

/-- A token that is no stop word is counted, and `row` applied if it has one,
unless too many have been counted. -/
def countToken (m : Bm25Maps) (row : Option TermRow) (s : Bm25State) : Bm25State :=
  if bm25MaxQueryTokens ≤ s.queryTokens then { s with overflow := true }
  else
    match row with
    | some row => applyRow m row { s with queryTokens := s.queryTokens + 1 }
    | none => { s with queryTokens := s.queryTokens + 1 }

/-- What closing a token with the entry `row` does. -/
def closeToken (m : Bm25Maps) (row : Option TermRow) (s : Bm25State) : Bm25State :=
  let s := { s with pendingConnector := 0 }
  bm25ResetToken (if row.any TermRow.stopword then s else countToken m row s)

section Close
variable {T : TermTable} {m : Bm25Maps} {s : Bm25State} {token : Word}

/-- **`xdp_bm25_finish_word`** closes the open token with its entry. -/
theorem finishWord_eq (hm : m.terms = T.terms) (hin : s.inWord = true) (h : Hashed s token) :
    bm25FinishWord m s = closeToken m (T.entry token) s := by
  have hpending : Hashed { s with pendingConnector := 0 } token := ⟨h.1, h.2, h.3, h.4⟩
  have hhash : s.hash = tokenHash token := h.hash
  have hopen : (!s.inWord) = false := by rw [hin]; rfl
  simp only [bm25FinishWord, hopen, Bool.false_eq_true, if_false, closeToken, countToken]
  rcases T.terms_tokenHash token with ⟨row, hmem, hterm, hrow⟩ | ⟨hterm, hnone⟩
  · rw [← hhash, ← hm] at hterm
    rw [hterm]
    by_cases htoken : row.token = token
    · have hentry : T.entry token = some row := TermTable.entry_eq_some_iff.mpr ⟨hmem, htoken⟩
      have hmatch : bm25TokenMatches { s with pendingConnector := 0 } (bm25TermWeights row) = true :=
        (tokenMatches_iff hpending (T.short row hmem)).mpr htoken
      have hstop : (bm25TermWeights row).stopword = row.stopword := rfl
      simp only [hentry, hmatch, Option.map_some, hstop, true_and, Option.some.injEq,
        Option.any_some, Bool.not_eq_eq_eq_not, Bool.not_true]
      cases row.stopword with
      | true => rfl
      | false =>
          simp only [Bool.false_eq_true, if_false, if_true]
          split_ifs <;> rfl
    · -- Another token under the same hash: the bytes differ, and it is the only row there.
      have hentry : T.entry token = none := by
        cases hentry : T.entry token with
        | none => rfl
        | some found =>
            obtain ⟨hfound, rfl⟩ := TermTable.entry_eq_some_iff.mp hentry
            have heq := TermTable.eq_of_hash hmem hfound (by rw [hrow, T.hashed _ hfound])
            exact absurd (congrArg TermRow.token heq) htoken
      have hmatch : bm25TokenMatches { s with pendingConnector := 0 } (bm25TermWeights row) = false :=
        Bool.eq_false_iff.mpr fun h =>
          htoken ((tokenMatches_iff hpending (T.short row hmem)).mp h)
      simp only [hentry, hmatch, Bool.false_eq_true, false_and, if_false, Option.any_none]
      split_ifs <;> rfl
  · have hentry : T.entry token = none := by
      cases hentry : T.entry token with
      | none => rfl
      | some found =>
          obtain ⟨hfound, rfl⟩ := TermTable.entry_eq_some_iff.mp hentry
          exact absurd (T.hashed _ hfound) (hnone found hfound)
    rw [← hhash, ← hm] at hterm
    rw [hterm]
    simp only [hentry, Bool.false_eq_true, false_and, if_false, Option.any_none]
    split_ifs <;> rfl

end Close

/-! ## Every closed token -/

/-- The scorer with the open token: what its hash is, and what closing the
token does. -/
structure LooksUp (m : Bm25Maps) (T : TermTable) (t : Bm25Trace) : Prop where
  hash : t.state.hash = tokenHash t.token
  closes : t.state.inWord = true → bm25FinishWord m t.state = closeToken m (T.entry t.token) t.state

theorem Bm25Trace.Accurate.looksUp {m : Bm25Maps} {T : TermTable} (hm : m.terms = T.terms)
    {t : Bm25Trace} (h : t.Accurate) : LooksUp m T t :=
  ⟨h.hashed.hash, fun hin => finishWord_eq hm hin h.hashed⟩

/-- **The lookup is exact** after every run of bytes: the hash is that of the
open token, and closing the token skips a stop word, and else counts it and
applies its row and no other, up to the limit of counted tokens. -/
theorem lookup_exact (T : TermTable) (config : Option Bm25Config) (rules : BpfMap Nat Bm25Rule)
    (bytes : List UInt8) :
    (bytes.foldl (Bm25Trace.scoreChar ⟨config, rules, T.terms⟩) .init).state =
        bytes.foldl (bm25ScoreChar ⟨config, rules, T.terms⟩) bm25Init ∧
      LooksUp ⟨config, rules, T.terms⟩ T
        (bytes.foldl (Bm25Trace.scoreChar ⟨config, rules, T.terms⟩) .init) :=
  ⟨Bm25Trace.foldl_scoreChar_state _ bytes _, (Bm25Trace.accurate_run _ bytes).looksUp rfl⟩

/-! ## Beyond the limit -/

/-- A token that has a row is given its weights whenever it is closed. -/
def AlwaysApplied (m : Bm25Maps) (T : TermTable) (t : Bm25Trace) : Prop :=
  t.state.inWord = true → ∀ row ∈ T.rows, row.token = t.token → row.stopword = false →
    (bm25FinishWord m t.state).scores = (applyRow m row t.state).scores

/-- The table with the one token `b`, of weight one in the first document. -/
def oneTerm : TermTable where
  rows := [⟨tokenHash [98], [98], [1], false⟩]
  hashed := by simp
  distinct := by simp
  short := by simp [maxTokenBytes]

/-- The scorer with `oneTerm` loaded. -/
def oneTermMaps : Bm25Maps := ⟨none, fun _ => none, oneTerm.terms⟩

/-- Between two tokens, `n` tokens counted and nothing scored. -/
structure Counting (n : Nat) (t : Bm25Trace) : Prop where
  accurate : t.Accurate
  idle : t.state.inWord = false
  pending : t.state.pendingConnector = 0
  queryTokens : t.state.queryTokens = n
  scores : t.state.scores = fun _ => 0

/-- A letter opens a token. -/
theorem Counting.letter {n : Nat} {t : Bm25Trace} (h : Counting n t) {c : UInt8}
    (hc : bm25WordChar (lower c) = true) :
    (t.scoreChar oneTermMaps c).Accurate ∧ (t.scoreChar oneTermMaps c).token = [lower c] ∧
    (t.scoreChar oneTermMaps c).state.inWord = true ∧
    (t.scoreChar oneTermMaps c).state.queryTokens = n ∧
    (t.scoreChar oneTermMaps c).state.scores = fun _ => 0 := by
  have hscore : t.scoreChar oneTermMaps c =
      ⟨{ bm25TakeByte t.state (lower c) with inWord := true, previousChar := lower c },
        t.token ++ [lower c], t.closed⟩ := by
    simp only [Bm25Trace.scoreChar, Bm25Trace.scoreLower, hc, h.pending, ne_eq, not_true,
      if_true, if_false, Bm25Trace.takeByte]
  refine ⟨h.accurate.scoreLower _ _, ?_, ?_, ?_, ?_⟩
  · rw [hscore, h.accurate.idle h.idle]
    rfl
  · rw [hscore]
  · rw [hscore]
    simp only [bm25TakeByte, bm25AppendTokenByte]
    split_ifs <;> exact h.queryTokens
  · rw [hscore]
    simp only [bm25TakeByte, bm25AppendTokenByte]
    split_ifs <;> exact h.scores

/-- `a` and a blank: one more token counted. -/
theorem Counting.word {n : Nat} {t : Bm25Trace} (h : Counting n t) (hn : n < bm25MaxQueryTokens) :
    Counting (n + 1) ((t.scoreChar oneTermMaps 97).scoreChar oneTermMaps 32) := by
  obtain ⟨haccurate, htoken, hin, hcount, hscores⟩ := h.letter (c := 97) (by decide)
  generalize t.scoreChar oneTermMaps 97 = v at *
  have hclose := (haccurate.looksUp (m := oneTermMaps) (T := oneTerm) rfl).closes hin
  have hentry : oneTerm.entry v.token = none := by
    rw [htoken]
    decide
  rw [hentry] at hclose
  have hfinish : v.scoreChar oneTermMaps 32 = v.finishWord oneTermMaps := by
    have hword : bm25WordChar (lower 32) = false := by decide
    have hconnector : bm25Connector (lower 32) = false := by decide
    simp only [Bm25Trace.scoreChar, Bm25Trace.scoreLower, hword, hconnector, Bool.false_and,
      Bool.false_eq_true, if_false]
  have hstate : (v.finishWord oneTermMaps).state =
      bm25ResetToken { v.state with pendingConnector := 0, queryTokens := n + 1 } := by
    rw [Bm25Trace.finishWord_state, hclose]
    simp only [closeToken, countToken, Option.any_none, Bool.false_eq_true, if_false, hcount,
      if_neg (Nat.not_le.mpr hn)]
  rw [hfinish]
  refine ⟨haccurate.finishWord _, ?_, ?_, ?_, ?_⟩
  · rw [hstate]
    rfl
  · rw [hstate]
    rfl
  · rw [hstate]
    rfl
  · rw [hstate]
    exact hscores

/-- `n` tokens `a`. -/
def letters (n : Nat) : List UInt8 := (List.replicate n [97, 32]).flatten

theorem counting_letters (n : Nat) (hn : n ≤ bm25MaxQueryTokens) :
    Counting n ((letters n).foldl (Bm25Trace.scoreChar oneTermMaps) .init) := by
  induction n with
  | zero => exact ⟨Bm25Trace.accurate_init, rfl, rfl, rfl, rfl⟩
  | succ n ih =>
      rw [letters, List.replicate_succ', List.flatten_append, List.flatten_singleton,
        List.foldl_append]
      exact (ih (Nat.le_of_lt hn)).word hn

/-- After as many tokens as are counted, `b` is not applied. -/
theorem Counting.not_applied {n : Nat} {t : Bm25Trace} (h : Counting n t)
    (hn : bm25MaxQueryTokens ≤ n) :
    ¬ AlwaysApplied oneTermMaps oneTerm (t.scoreChar oneTermMaps 98) := by
  obtain ⟨haccurate, htoken, hin, hcount, hscores⟩ := h.letter (c := 98) (by decide)
  generalize t.scoreChar oneTermMaps 98 = v at *
  intro happlied
  have hrow : (⟨tokenHash [98], [98], [1], false⟩ : TermRow) ∈ oneTerm.rows :=
    List.mem_singleton_self _
  have hsame := happlied hin _ hrow htoken.symm rfl
  have hclose := (haccurate.looksUp (m := oneTermMaps) (T := oneTerm) rfl).closes hin
  have hentry : oneTerm.entry v.token = some ⟨tokenHash [98], [98], [1], false⟩ :=
    TermTable.entry_eq_some_iff.mpr ⟨hrow, htoken.symm⟩
  have hnothing : (bm25FinishWord oneTermMaps v.state).scores = fun _ => 0 := by
    rw [hclose, hentry]
    simp only [closeToken, countToken, Option.any_some, Bool.false_eq_true, if_false, hcount,
      if_pos hn]
    exact hscores
  have hone : (applyRow oneTermMaps ⟨tokenHash [98], [98], [1], false⟩ v.state).scores 0 = 1 := by
    rw [(applyRow_added _ _ _).scores, if_pos (by decide), addedScore, hscores]
    decide
  rw [← hsame, hnothing] at hone
  cases hone

/-- **The limit shows**: a token that comes after as many others as the
scorer counts is not applied. -/
theorem always_applied_fails : ¬ ∀ bytes : List UInt8,
    AlwaysApplied oneTermMaps oneTerm (bytes.foldl (Bm25Trace.scoreChar oneTermMaps) .init) := by
  have hbeyond : ∀ n, n ≤ bm25MaxQueryTokens → bm25MaxQueryTokens ≤ n →
      ¬ AlwaysApplied oneTermMaps oneTerm
        ((letters n ++ [98]).foldl (Bm25Trace.scoreChar oneTermMaps) .init) := by
    intro n hle hge
    rw [List.foldl_append]
    exact (counting_letters n hle).not_applied hge
  exact fun hall => hbeyond _ (Nat.le_refl _) (Nat.le_refl _) (hall _)

end Xsr.Bm25
