import Xsr.Bm25.Scores

/-!
# TokenCount — a closed token costs two bytes

Each closed token has a byte of its own, and between two of them lies a
byte of neither: the character that ended the first, or the connector that
joined nothing. So `n` scored bytes close at most `(n + 1) / 2` tokens, and
a prompt within the request limit never reaches the limit of counted tokens.
-/

namespace Xsr.Bm25

open Kernel Lib Policy

namespace Bm25Trace

/-- Two bytes for each closed token, one for the open token and one for a
pending connector. -/
def cost (t : Bm25Trace) : Nat :=
  2 * t.closed.length + (if t.state.inWord then 1 else 0)
    + if t.state.pendingConnector = 0 then 0 else 1

section Cost
variable (m : Bm25Maps) (t : Bm25Trace)

@[simp] theorem takeByte_closed (c : UInt8) : (t.takeByte c).closed = t.closed := rfl

@[simp] theorem takeByte_pending (c : UInt8) :
    (t.takeByte c).state.pendingConnector = t.state.pendingConnector := by
  simp only [takeByte, bm25TakeByte, bm25AppendTokenByte]
  split_ifs <;> rfl

@[simp] theorem setPending_closed (c : UInt8) : (t.setPending c).closed = t.closed := rfl

@[simp] theorem setPending_pending (c : UInt8) :
    (t.setPending c).state.pendingConnector = c := rfl

/-- Closing the open token: its byte becomes two. -/
theorem cost_finishWord : (t.finishWord m).cost ≤ t.cost + 1 := by
  unfold finishWord
  split_ifs with hin
  · obtain ⟨-, hout, hpending⟩ := bm25FinishWord_reset m t.state hin
    simp only [cost, hout, hpending, hin, Bool.false_eq_true, if_false, if_true,
      List.length_append, List.length_singleton]
    split_ifs <;> omega
  · exact Nat.le_succ _

/-- A pending connector that joins nothing pays for the token it ended. -/
theorem closed_finishWord : (t.finishWord m).closed.length ≤ t.closed.length + 1 ∧
    (t.state.inWord = false → (t.finishWord m).closed = t.closed) := by
  unfold finishWord
  split_ifs with hin
  · exact ⟨by simp, fun hout => by rw [hin] at hout; cases hout⟩
  · exact ⟨Nat.le_succ _, fun _ => rfl⟩

/-- **One byte more** allows one more in cost. -/
theorem cost_scoreChar (c : UInt8) : (t.scoreChar m c).cost ≤ t.cost + 1 := by
  unfold scoreChar scoreLower
  generalize lower c = c
  by_cases hword : bm25WordChar c = true
  · rw [if_pos hword]
    by_cases hpending : t.state.pendingConnector ≠ 0
    · have hone : t.cost = 2 * t.closed.length + (if t.state.inWord then 1 else 0) + 1 := by
        rw [cost, if_neg hpending]
      obtain ⟨hle, hsame⟩ := closed_finishWord m t
      rw [if_pos hpending, hone]
      by_cases hvalid : bm25ConnectorValid t.state c = true
      · simp only [if_pos hvalid, cost, takeByte_closed, takeByte_pending, setPending_closed,
          setPending_pending, if_true]
        omega
      · simp only [if_neg hvalid, cost, takeByte_closed, takeByte_pending, setPending_closed,
          setPending_pending, if_true]
        cases hin : t.state.inWord with
        | true =>
            rw [if_pos rfl]
            omega
        | false =>
            rw [hsame hin]
            omega
    · have hzero : t.state.pendingConnector = 0 := not_not.mp hpending
      simp only [if_neg hpending]
      simp only [cost, takeByte_closed, takeByte_pending, hzero, if_true]
      omega
  · rw [if_neg hword]
    by_cases hconn : (bm25Connector c && t.state.inWord && t.state.pendingConnector == 0) = true
    · have hzero : t.state.pendingConnector = 0 := by
        rw [Bool.and_eq_true, beq_iff_eq] at hconn
        exact hconn.2
      rw [if_pos hconn]
      have hle : (if c = 0 then 0 else 1) ≤ 1 := by split_ifs <;> omega
      have hcost : (t.setPending c).cost = 2 * t.closed.length
          + (if t.state.inWord then 1 else 0) + if c = 0 then 0 else 1 := rfl
      rw [hcost, cost, if_pos hzero]
      omega
    · rw [if_neg hconn]
      exact cost_finishWord m t

theorem cost_run (bytes : List UInt8) : (bytes.foldl (scoreChar m) init).cost ≤ bytes.length := by
  induction bytes using List.reverseRecOn with
  | nil => exact Nat.le_refl _
  | append_singleton bytes c ih =>
      rw [List.foldl_append, List.length_append]
      exact (cost_scoreChar m _ c).trans (Nat.succ_le_succ ih)

end Cost

/-! ## The closed tokens of a run -/

section Run
variable (m : Bm25Maps)

theorem closing_finishWord {t : Bm25Trace} (h : Closing m t.closed t.state) (ha : t.Accurate) :
    Closing m (t.finishWord m).closed (t.finishWord m).state := by
  unfold finishWord
  split_ifs with hin
  · exact h.close hin ha.hashed
  · exact h

theorem closing_takeByte {t : Bm25Trace} (h : Closing m t.closed t.state) (c : UInt8) :
    Closing m (t.takeByte c).closed (t.takeByte c).state := by
  refine Closing.read h ?_ ?_ ?_ ?_ <;>
    · simp only [takeByte, bm25TakeByte, bm25AppendTokenByte]
      split_ifs <;> rfl

theorem closing_setPending {t : Bm25Trace} (h : Closing m t.closed t.state) (c : UInt8) :
    Closing m (t.setPending c).closed (t.setPending c).state := h.read rfl rfl rfl rfl

theorem closing_scoreChar {t : Bm25Trace} (h : Closing m t.closed t.state) (ha : t.Accurate)
    (c : UInt8) : Closing m (t.scoreChar m c).closed (t.scoreChar m c).state := by
  unfold scoreChar scoreLower
  split_ifs
  · exact (closing_takeByte m (closing_setPending m (closing_takeByte m h _) 0) _).read
      rfl rfl rfl rfl
  · exact (closing_takeByte m (closing_setPending m (closing_finishWord m h ha) 0) _).read
      rfl rfl rfl rfl
  · exact (closing_takeByte m h _).read rfl rfl rfl rfl
  · exact closing_setPending m h _
  · exact closing_finishWord m h ha

theorem closing_run (bytes : List UInt8) :
    Closing m (bytes.foldl (scoreChar m) init).closed (bytes.foldl (scoreChar m) init).state := by
  induction bytes using List.reverseRecOn with
  | nil => exact .start
  | append_singleton bytes c ih =>
      rw [List.foldl_append]
      exact closing_scoreChar m ih (accurate_run m bytes) c

end Run

end Bm25Trace

/-- The scorer at the end of a prompt. -/
def scorePrompt (m : Bm25Maps) (bytes : List UInt8) : Bm25State :=
  bm25FinishWord m (bytes.foldl (bm25ScoreChar m) bm25Init)

/-- A prompt closes its tokens. -/
theorem closing_prompt (m : Bm25Maps) (bytes : List UInt8) :
    Closing m (closedTokens m bytes) (scorePrompt m bytes) := by
  have h := Bm25Trace.closing_finishWord m (Bm25Trace.closing_run m bytes)
    (Bm25Trace.accurate_run m bytes)
  rwa [Bm25Trace.finishWord_state, Bm25Trace.foldl_scoreChar_state] at h

/-- **The number of closed tokens**: at most one for every two bytes. -/
theorem length_closedTokens (m : Bm25Maps) (bytes : List UInt8) :
    (closedTokens m bytes).length ≤ (bytes.length + 1) / 2 := by
  have hcost := Bm25Trace.cost_run m bytes
  unfold closedTokens Bm25Trace.finishWord
  unfold Bm25Trace.cost at hcost
  split_ifs with hin
  · rw [List.length_append, List.length_singleton]
    rw [if_pos hin] at hcost
    omega
  · omega

/-- The exact result of a prompt: its tokens fit the limit and its scores
are their sums. -/
structure ExactScores (T : WeightTable) (tokens : List Word) (s : Bm25State) : Prop where
  overflow : s.overflow = false
  counted : s.queryTokens = tokens.countP (counted T.toTermTable)
  scores : ∀ d < bm25MaxDocuments, s.scores d = finalScore T.toTermTable tokens d
  bounds : ∀ d < bm25MaxDocuments, 0 ≤ s.scores d ∧ s.scores d ≤ 2 ^ 63 - 1

/-- **A prompt within the request limit** is scored exactly. -/
theorem scorePrompt_exact {T : WeightTable} {config : Bm25Config} {m : Bm25Maps}
    (hconfig : m.config = some config) (hterms : m.terms = T.terms) {bytes : List UInt8}
    (hlen : bytes.length ≤ maxStreamRequestBytes) :
    ExactScores T (closedTokens m bytes) (scorePrompt m bytes) := by
  have hroom : (closedTokens m bytes).countP (counted T.toTermTable) ≤ bm25MaxQueryTokens := by
    refine (List.countP_le_length).trans ((length_closedTokens m bytes).trans ?_)
    unfold bm25MaxQueryTokens
    omega
  have hscored := (closing_prompt m bytes).scored hconfig hterms hroom
  have hmax : (maxFixedScore : Int) = 2 ^ 63 - 1 := by decide
  refine ⟨hscored.overflow, hscored.queryTokens, hscored.scores, fun d hd => ?_⟩
  rw [hscored.scores d hd, ← hmax]
  exact ⟨(finalScore_bounds T _ d).1, finalScore_le T hroom d⟩

end Xsr.Bm25
