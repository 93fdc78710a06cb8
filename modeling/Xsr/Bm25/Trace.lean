import Xsr.Bm25.Tokenizer
import Xsr.Lib.Utf8
import Mathlib

/-!
# Trace — the tokens the kernel scorer closes

The scorer keeps a hash and a truncated copy of the open token and forgets
it when it finishes the word. `Bm25Trace` carries the whole open token and
the closed ones beside the state; it takes every branch the scorer takes
(`scoreChar_state`), and `Hashed` says that the carried token is the one
the state's hash and bytes are about.
-/

namespace Xsr.Bm25

open Kernel Lib

/-- A scorer state with the bytes of the open token and the closed tokens. -/
structure Bm25Trace where
  state : Bm25State
  token : List UInt8
  closed : List (List UInt8)

namespace Bm25Trace

/-- `xdp_bm25_init` -/
def init : Bm25Trace := ⟨bm25Init, [], []⟩

/-- `xdp_bm25_finish_word`: it closes the open token. -/
def finishWord (m : Bm25Maps) (t : Bm25Trace) : Bm25Trace :=
  if t.state.inWord then ⟨bm25FinishWord m t.state, [], t.closed ++ [t.token]⟩ else t

/-- Hash and append one byte. -/
def takeByte (t : Bm25Trace) (c : UInt8) : Bm25Trace :=
  { t with state := bm25TakeByte t.state c, token := t.token ++ [c] }

def setPending (t : Bm25Trace) (c : UInt8) : Bm25Trace :=
  { t with state := { t.state with pendingConnector := c } }

/-- `xdp_bm25_score_char` on a character in lower case. -/
def scoreLower (m : Bm25Maps) (t : Bm25Trace) (c : UInt8) : Bm25Trace :=
  if bm25WordChar c then
    let t :=
      if t.state.pendingConnector ≠ 0 then
        (if bm25ConnectorValid t.state c then t.takeByte t.state.pendingConnector
          else t.finishWord m).setPending 0
      else t
    let t := t.takeByte c
    { t with state := { t.state with inWord := true, previousChar := c } }
  else if bm25Connector c && t.state.inWord && t.state.pendingConnector == 0 then t.setPending c
  else t.finishWord m

/-- `xdp_bm25_score_char` -/
def scoreChar (m : Bm25Maps) (t : Bm25Trace) (c : UInt8) : Bm25Trace := scoreLower m t (lower c)

/-! ## The trace is the scorer's -/

theorem finishWord_state (m : Bm25Maps) (t : Bm25Trace) :
    (t.finishWord m).state = bm25FinishWord m t.state := by
  unfold finishWord
  cases h : t.state.inWord with
  | true => rfl
  | false => simp [bm25FinishWord, h]

/-- **Erasure.** The trace goes through the scorer's states. -/
theorem scoreChar_state (m : Bm25Maps) (t : Bm25Trace) (c : UInt8) :
    (t.scoreChar m c).state = bm25ScoreChar m t.state c := by
  unfold scoreChar scoreLower bm25ScoreChar
  cases hword : bm25WordChar (lower c) with
  | true =>
      by_cases hpending : t.state.pendingConnector ≠ 0
      · cases hvalid : bm25ConnectorValid t.state (lower c) with
        | true => simp [hpending, hvalid, hword, takeByte, setPending]
        | false => simp [hpending, hvalid, hword, takeByte, setPending, finishWord_state]
      · simp [hpending, hword, takeByte]
  | false =>
      simp only [hword, Bool.false_eq_true, if_false]
      by_cases hconn :
          (bm25Connector (lower c) && t.state.inWord && t.state.pendingConnector == 0) = true
      · rw [if_pos hconn, if_pos hconn]
        rfl
      · rw [if_neg hconn, if_neg hconn, finishWord_state]
        cases hin : t.state.inWord with
        | true => rfl
        | false => simp [bm25FinishWord, hin]

/-- Over a whole text. -/
theorem foldl_scoreChar_state (m : Bm25Maps) (bytes : List UInt8) (t : Bm25Trace) :
    (bytes.foldl (scoreChar m) t).state = bytes.foldl (bm25ScoreChar m) t.state := by
  induction bytes generalizing t with
  | nil => rfl
  | cons c bytes ih => rw [List.foldl_cons, List.foldl_cons, ih, scoreChar_state]

end Bm25Trace

/-! ## What the state remembers of the open token -/

/-- The state's hash, length and bytes are those of `token`. -/
structure Hashed (s : Bm25State) (token : List UInt8) : Prop where
  hash : s.hash = token.foldl fnvRound fnvOffset
  length : s.tokenLength = min token.length bm25MaxTokenBytes
  overflow : s.tokenOverflow = true ↔ bm25MaxTokenBytes < token.length
  bytes : ∀ i, i < bm25MaxTokenBytes → ∀ b, token[i]? = some b → s.token i = b

/-- `index & (XDP_BM25_MAX_TOKEN_BYTES - 1)` inside the buffer. -/
theorem tokenIndex {n : Nat} (h : n < bm25MaxTokenBytes) : n &&& (bm25MaxTokenBytes - 1) = n := by
  have hmod : n &&& (bm25MaxTokenBytes - 1) = n % 64 := Nat.and_two_pow_sub_one_eq_mod n 6
  rw [hmod]
  exact Nat.mod_eq_of_lt h

/-- One byte. -/
theorem Hashed.take {s : Bm25State} {token : List UInt8} (h : Hashed s token) (c : UInt8) :
    Hashed (bm25TakeByte s c) (token ++ [c]) := by
  have hlen := h.length
  have hover := h.overflow
  have hmax : bm25MaxTokenBytes = 64 := rfl
  have hnext : (token ++ [c]).length = token.length + 1 := by simp
  have hhash : (token ++ [c]).foldl fnvRound fnvOffset = fnvRound s.hash c := by
    rw [List.foldl_append, ← h.hash]
    rfl
  unfold bm25TakeByte bm25AppendTokenByte
  by_cases hroom : s.tokenLength < bm25MaxTokenBytes
  · have hshort : s.tokenLength = token.length := by omega
    simp only [hroom, if_true, tokenIndex hroom]
    refine ⟨hhash.symm, by simp only [hnext]; omega, by simp only [hnext, hover]; omega,
      fun i hi b hb => ?_⟩
    show Function.update s.token s.tokenLength c i = b
    rw [hshort]
    rcases Nat.lt_trichotomy i token.length with hlt | rfl | hgt
    · rw [List.getElem?_append_left hlt] at hb
      rw [Function.update_of_ne (Nat.ne_of_lt hlt), h.bytes i hi b hb]
    · rw [List.getElem?_concat_length] at hb
      cases hb
      rw [Function.update_self]
    · rw [List.getElem?_eq_none (by omega)] at hb
      cases hb
  · simp only [hroom, if_false]
    refine ⟨hhash.symm, by simp only [hnext]; omega, by simp only [hnext, true_iff]; omega,
      fun i hi b hb => ?_⟩
    rw [List.getElem?_append_left (by omega)] at hb
    exact h.bytes i hi b hb

/-- What finishing a word leaves. -/
theorem bm25FinishWord_reset (m : Bm25Maps) (s : Bm25State) (h : s.inWord = true) :
    Hashed (bm25FinishWord m s) [] ∧ (bm25FinishWord m s).inWord = false ∧
    (bm25FinishWord m s).pendingConnector = 0 := by
  have hreset : ∃ s', bm25FinishWord m s = bm25ResetToken s' := by
    simp only [bm25FinishWord, h, Bool.not_true, Bool.false_eq_true, if_false]
    split_ifs
    · exact ⟨_, rfl⟩
    · exact ⟨_, rfl⟩
    · split
      · split_ifs <;> exact ⟨_, rfl⟩
      · exact ⟨_, rfl⟩
  obtain ⟨s', hs'⟩ := hreset
  rw [hs']
  exact ⟨⟨rfl, rfl, by simp [bm25ResetToken], fun i _ b hb => by cases hb⟩, rfl, rfl⟩

namespace Bm25Trace

/-- The carried token is the one the state is about. -/
structure Accurate (t : Bm25Trace) : Prop where
  hashed : Hashed t.state t.token
  idle : t.state.inWord = false → t.token = []

theorem accurate_init : Accurate init :=
  ⟨⟨rfl, rfl, by simp [init, bm25Init, Bm25State.zero], fun i _ b hb => by cases hb⟩, fun _ => rfl⟩

theorem Accurate.finishWord {t : Bm25Trace} (h : Accurate t) (m : Bm25Maps) :
    Accurate (t.finishWord m) := by
  unfold Bm25Trace.finishWord
  split_ifs with hin
  · exact ⟨(bm25FinishWord_reset m t.state hin).1, fun _ => rfl⟩
  · exact h

/-- **Accuracy**, one character on. -/
theorem Accurate.scoreLower {t : Bm25Trace} (h : Accurate t) (m : Bm25Maps) (c : UInt8) :
    Accurate (t.scoreLower m c) := by
  have hpend : ∀ {s : Bm25State} {token : List UInt8} (k : UInt8), Hashed s token →
      Hashed { s with pendingConnector := k } token := fun k h => ⟨h.1, h.2, h.3, h.4⟩
  have hopen : ∀ {s : Bm25State} {token : List UInt8} closed, Hashed s token →
      Accurate ⟨{ bm25TakeByte s c with inWord := true, previousChar := c }, token ++ [c],
        closed⟩ := by
    intro s token closed h
    have := h.take c
    exact ⟨⟨this.1, this.2, this.3, this.4⟩, fun h => by cases h⟩
  unfold Bm25Trace.scoreLower
  split_ifs
  · exact hopen _ (hpend 0 (h.hashed.take t.state.pendingConnector))
  · exact hopen _ (hpend 0 (h.finishWord m).hashed)
  · exact hopen _ h.hashed
  · exact ⟨hpend c h.hashed, h.idle⟩
  · exact h.finishWord m

/-- **Accuracy** over a whole text: what a closed token is, is what the
scorer hashed and compared. -/
theorem accurate_run (m : Bm25Maps) (bytes : List UInt8) :
    Accurate (bytes.foldl (scoreChar m) init) := by
  induction bytes using List.reverseRecOn with
  | nil => exact accurate_init
  | append_singleton bytes c ih =>
      rw [List.foldl_append]
      exact ih.scoreLower m (lower c)

end Bm25Trace

/-- The tokens closed for a byte string, the last by the final
`xdp_bm25_finish_word`. -/
def closedTokens (m : Bm25Maps) (bytes : List UInt8) : List (List UInt8) :=
  ((bytes.foldl (Bm25Trace.scoreChar m) .init).finishWord m).closed

end Xsr.Bm25
