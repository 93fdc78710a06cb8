import Xsr.Extraction.Codepoints
import Xsr.Lib.Parts
import Xsr.Signals.PackedCounters

/-!
# TextMarks — the keywords a text marks

The matcher reads a text code point by code point, matches each word where
it ends, and the whole text at the end. The marks it is left with are those
of the words and of the text, each within its own limit: nothing of the
order in which they were matched remains.
-/

namespace Xsr.Signals

open Control Extraction Kernel Lib Policy

variable {u : Unicode}

/-! ## One stretch of code points -/

/-- The code points `cs` mark the keyword, in a query of at most `limit`
grams. -/
def KeywordAt.Marks {header : JaccardHeader} {k : Nat} (K : KeywordAt u header k) (limit : Nat)
    (cs : List Nat) : Prop :=
  (givenGrams cs).length ≤ limit ∧
    Reaches (Counter.same (givenGrams cs) K.trigrams)
      (allGrams (givenGrams cs).length K.trigrams.length (Counter.same (givenGrams cs) K.trigrams))
      K.rule.thresholdMilli

theorem KeywordAt.not_marks_nil {header : JaccardHeader} {k : Nat} (K : KeywordAt u header k)
    (limit : Nat) : ¬K.Marks limit [] := by
  rintro ⟨-, hpos, -⟩
  exact absurd hpos (by simp [givenGrams, closingGrams, Counter.same])

section Stretch
variable (p : LoadedPolicy u)

/-- The map that holds the counts of one query without a token. -/
def countsOf (limit : Nat) (grams : List JaccardGram) : QueryGrams where
  counts key := if key.token = 0 then gramCount (grams.take limit) key.gram else none
  prandom _ := (0, 0)
  drawn := 0

/-- **A stretch matched** marks what it reaches, and nothing when it is too
long. -/
theorem match_gramQuery {limit : Nat} (hlimit : limit ≤ 128) (cs : List Nat) (s : JaccardMatches)
    {k : Nat} (K : KeywordAt u p.header k) :
    Marked (jaccardMatchQuery p.maps s (gramQuery p.maps limit (givenGrams cs))) k
      ↔ Marked s k ∨ K.Marks limit cs := by
  by_cases hlen : (givenGrams cs).length ≤ limit
  · have hcounts : Counts p.maps limit (countsOf limit (givenGrams cs))
        (gramQuery p.maps limit (givenGrams cs)) (givenGrams cs) := by
      refine ⟨rfl, fun gram => ?_⟩
      show (if (0 : UInt64) = 0 then gramCount ((givenGrams cs).take limit) gram else none) = _
      rw [if_pos rfl]
    rw [(marks_exact p hcounts hlimit hlen).marked s k K, KeywordAt.Marks, and_iff_right hlen]
  · -- a query past its limit is dropped
    have hover : (gramQuery p.maps limit (givenGrams cs)).overflow = true :=
      decide_eq_true (Nat.lt_of_not_le hlen)
    rw [matchQuery_eq, if_pos hover]
    exact (or_iff_left fun h => hlen h.1).symm

end Stretch

/-! ## A text, code point by code point -/

/-- A code point that is no word character. -/
def separates (m : JaccardMaps) (c : Nat) : Bool := !jaccardWordChar m c

@[simp] theorem closeWord_text (m : JaccardMaps) (t : TextMatch) :
    (t.closeWord m).text = t.text := by
  unfold TextMatch.closeWord
  split_ifs <;> rfl

/-- Match results with the marks of some stretches. -/
structure Holds (p : LoadedPolicy u) (found : JaccardMatches)
    (marks : ∀ k, KeywordAt u p.header k → Prop) : Prop where
  matching : Matching p.maps found
  marked : ∀ k (K : KeywordAt u p.header k), Marked found k ↔ marks k K

section Text
variable {p : LoadedPolicy u} {marks : ∀ k, KeywordAt u p.header k → Prop}

/-- The end of a word. -/
theorem Holds.closeWord {t : TextMatch} (h : Holds p t.found marks) :
    Holds p (t.closeWord p.maps).found fun k K => marks k K ∨ K.Marks jaccardMaxGrams t.word := by
  unfold TextMatch.closeWord
  split_ifs with hempty
  · refine ⟨h.matching, fun k K => ?_⟩
    rw [h.marked, hempty]
    exact (or_iff_left (K.not_marks_nil _)).symm
  · refine ⟨.query h.matching _, fun k K => ?_⟩
    rw [match_gramQuery p (by decide), h.marked]

/-- The end of the text. -/
theorem Holds.finish {t : TextMatch} (h : Holds p t.found marks) :
    Holds p (t.finish p.maps).found fun k K =>
      (marks k K ∨ K.Marks jaccardMaxGrams t.word) ∨ K.Marks jaccardMaxTextGrams t.text := by
  unfold TextMatch.finish
  dsimp only
  rw [closeWord_text]
  split_ifs with hempty
  · refine ⟨h.closeWord.matching, fun k K => ?_⟩
    rw [h.closeWord.marked, hempty]
    exact (or_iff_left (K.not_marks_nil _)).symm
  · refine ⟨.query h.closeWord.matching _, fun k K => ?_⟩
    rw [match_gramQuery p (by decide), h.closeWord.marked]

variable (p)

/-- What the matcher knows after the code points `cs`, folded. -/
structure Reading (t : TextMatch) (cs : List Nat) : Prop where
  text : t.text = cs
  word : t.word = (splitRun (separates p.maps) cs).2
  found : Holds p t.found fun _ K =>
    ∃ w ∈ (splitRun (separates p.maps) cs).1, K.Marks jaccardMaxGrams w

theorem Reading.start : Reading p .empty [] := by
  refine ⟨rfl, rfl, .start, fun k K => ?_⟩
  simp [TextMatch.empty, Marked, splitRun]

variable {p}

/-- **One code point.** -/
theorem Reading.codepoint {t : TextMatch} {cs : List Nat} (h : Reading p t cs) (c : Nat) :
    Reading p (t.codepoint p.maps c) (cs ++ [foldCodepoint p.maps c]) := by
  unfold TextMatch.codepoint
  dsimp only
  by_cases hword : jaccardWordChar p.maps (foldCodepoint p.maps c) = true
  · -- a word character goes to the open word
    have hsep : separates p.maps (foldCodepoint p.maps c) = false := by
      rw [separates, hword]
      rfl
    rw [if_pos hword]
    refine ⟨congrArg (· ++ _) h.text, ?_, ?_⟩
    · rw [splitRun_snoc, splitStep, hsep]
      exact congrArg (· ++ _) h.word
    · rw [splitRun_snoc, splitStep, hsep]
      exact h.found
  · -- anything else closes it
    have hsep : separates p.maps (foldCodepoint p.maps c) = true := by
      rw [separates, Bool.eq_false_of_not_eq_true hword]
      rfl
    rw [if_neg hword]
    refine ⟨?_, ?_, ?_⟩
    · rw [closeWord_text]
      exact congrArg (· ++ _) h.text
    · rw [splitRun_snoc, splitStep, hsep]
      rfl
    · -- the open word is the last one of the finished words
      have hclosed := Holds.closeWord (t := { t with text := t.text ++ [foldCodepoint p.maps c] })
        h.found
      refine ⟨hclosed.matching, fun k K => ?_⟩
      rw [hclosed.marked k K, splitRun_snoc, splitStep, hsep, if_pos rfl, h.word]
      simp only [List.mem_append, List.mem_singleton, or_and_right, exists_or, exists_eq_left]

/-- **The marks of a text.** -/
theorem text_marks (p : LoadedPolicy u) (cs : List Nat) :
    Holds p ((cs.foldl (TextMatch.codepoint p.maps) .empty).finish p.maps).found fun _ K =>
      (∃ w ∈ (cs.map (foldCodepoint p.maps)).splitOnP (separates p.maps),
        K.Marks jaccardMaxGrams w) ∨
      K.Marks jaccardMaxTextGrams (cs.map (foldCodepoint p.maps)) := by
  have hread : Reading p (cs.foldl (TextMatch.codepoint p.maps) .empty)
      (cs.map (foldCodepoint p.maps)) := by
    induction cs using List.reverseRecOn with
    | nil => exact .start p
    | append_singleton cs c ih =>
        rw [List.foldl_append, List.map_append]
        exact ih.codepoint c
  have hdone := hread.found.finish
  refine ⟨hdone.matching, fun k K => ?_⟩
  rw [hdone.marked k K, hread.text, hread.word, splitOnP_eq_splitRun]
  simp only [List.mem_append, List.mem_singleton, or_and_right, exists_or, exists_eq_left]

end Text

/-! ## The bytes of a text -/

theorem foldl_byte (m : JaccardMaps) (bytes : List UInt8) (b : ByteMatch) :
    bytes.foldl (ByteMatch.byte m) b = ⟨(utf8Points b.utf8 bytes).1,
      (utf8Points b.utf8 bytes).2.foldl (TextMatch.codepoint m) b.text⟩ := by
  induction bytes generalizing b with
  | nil => rfl
  | cons c bytes ih =>
      rw [List.foldl_cons, ih, utf8Points, List.foldl_append]
      rfl

/-- The matcher decodes the text it is given as UTF-8. -/
theorem finish_encodeUtf8 (m : JaccardMaps) (text : List Char) :
    ((encodeUtf8 text).foldl (ByteMatch.byte m) .empty).finish m
      = ((text.map Char.toNat).foldl (TextMatch.codepoint m) .empty).finish m := by
  obtain ⟨hremaining, hpoints⟩ := utf8Points_text (u := ByteMatch.empty.utf8) rfl text
  rw [foldl_byte, ByteMatch.finish, if_pos hremaining, hpoints]
  rfl

end Xsr.Signals
