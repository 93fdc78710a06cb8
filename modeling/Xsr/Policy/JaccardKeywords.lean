import Xsr.Lib.Ngram
import Xsr.Lib.OrderedDict
import Xsr.Signals.Reference

/-!
# JaccardKeywords — the keyword rows of a generated n-gram header

Every row comes from one keyword of the rule it names, and the rules of a
header agree on the case of letters. A row lists the distinct trigrams of
its keyword with their numbers; together they are all its trigrams.
-/

namespace Xsr.Policy

open Kernel Lib

/-- `row` holds the trigrams of the keyword `text` of `rule`. -/
structure RowOf (u : Unicode) (rules : List RuleRow) (row : KeywordRow) (rule : RuleRow)
    (text : List Char) : Prop where
  belongs : rules[row.ruleId]? = some rule
  nonempty : text ≠ []
  grams : gramCounts u text rule.caseSensitive row.ruleId = .ok row

/-- What the generator checked of a rule. -/
structure RuleChecked (rule : RuleRow) : Prop where
  arity : rule.arity = jaccardArity
  threshold : 0 ≤ rule.thresholdMilli ∧ rule.thresholdMilli ≤ 1000

/-- What holds of the rows at every point of the loop of `parse`. -/
structure RowsChecked (u : Unicode) (s : JaccardParse) : Prop where
  rules_le : s.rules.length ≤ jaccardMaxRules
  keywords_le : s.keywords.length ≤ jaccardMaxKeywords
  checked : ∀ rule ∈ s.rules, RuleChecked rule
  oneCase : ∀ rule ∈ s.rules, s.policyCaseSensitive = some rule.caseSensitive
  rows : ∀ row ∈ s.keywords, ∃ rule text, RowOf u s.rules row rule text

section Loop
variable {u : Unicode}

theorem RowOf.append {rules more : List RuleRow} {row : KeywordRow} {rule : RuleRow}
    {text : List Char} (h : RowOf u rules row rule text) : RowOf u (rules ++ more) row rule text :=
  ⟨List.getElem?_append_left (List.getElem?_eq_some_iff.mp h.belongs).1 ▸ h.belongs, h.nonempty, h.grams⟩

theorem gramCounts_ruleId {text : List Char} {caseSensitive : Bool} {ruleId : Nat}
    {row : KeywordRow} (h : gramCounts u text caseSensitive ruleId = .ok row) :
    row.ruleId = ruleId := by
  unfold gramCounts at h
  obtain ⟨_, -, h⟩ := bind_ok h
  obtain ⟨_, -, h⟩ := bind_ok h
  obtain ⟨_, -, h⟩ := bind_ok h
  cases h
  rfl

theorem RowsChecked.ngram {d : Decisions} {s s' : JaccardParse} {signal : Dict}
    (hs : RowsChecked u s) (hmethod : signalMethod u signal "" = "ngram")
    (h : parseNgram u d s signal = .ok s') : RowsChecked u s' := by
  have hcase : s.policyCaseSensitive ≠ some !signalCaseSensitive signal := by
    unfold parseNgram raiseIf at h
    obtain ⟨_, -, h⟩ := bind_ok h
    obtain ⟨_, -, h⟩ := bind_ok h
    obtain ⟨_, -, h⟩ := bind_ok h
    obtain ⟨_, -, h⟩ := bind_ok h
    obtain ⟨_, -, h⟩ := bind_ok h
    obtain ⟨_, -, h⟩ := bind_ok h
    obtain ⟨_, -, h⟩ := bind_ok h
    obtain ⟨_, hcase, h⟩ := bind_ok h
    simpa using refuseIf_ok hcase
  obtain ⟨rule, values, rows, hrule, hvalues, hadded, hroom⟩ := parseNgram_ok hmethod h
  have hrules : s'.rules = s.rules ++ [rule] := hadded.rules
  have hcased : s'.policyCaseSensitive = some (signalCaseSensitive signal) := hadded.policyCase
  have hkeywords : s'.keywords = s.keywords ++ rows := hadded.keywords
  constructor
  case rules_le =>
    rw [hrules, List.length_append]
    exact hroom
  case keywords_le => exact hadded.bounded hs.keywords_le
  case checked =>
    intro r hr
    rw [hrules] at hr
    rcases List.mem_append.mp hr with hr | hr
    · exact hs.checked r hr
    · rw [List.mem_singleton.mp hr]
      exact ⟨hrule.arity, Signals.thresholdMilli_bounds hrule.threshold⟩
  case oneCase =>
    intro r hr
    rw [hrules] at hr
    rw [hcased]
    rcases List.mem_append.mp hr with hr | hr
    · have hold := hs.oneCase r hr
      rw [hold] at hcase
      cases hc : r.caseSensitive <;> cases hs : signalCaseSensitive signal <;>
        simp [hc, hs] at hcase ⊢
    · rw [List.mem_singleton.mp hr, hrule.caseSensitive]
  case rows =>
    intro row hrow
    rw [hkeywords] at hrow
    rw [hrules]
    rcases List.mem_append.mp hrow with hrow | hrow
    · obtain ⟨r, text, hof⟩ := hs.rows row hrow
      exact ⟨r, text, hof.append⟩
    · obtain ⟨i, hi⟩ := List.mem_iff_getElem?.mp hrow
      obtain ⟨value, -, hvalue⟩ := forall₂_getElem? hadded.rows hi
      have hid := gramCounts_ruleId hvalue.grams
      refine ⟨rule, (value.text u).toList, ?_, ?_, ?_⟩
      · rw [hid, List.getElem?_append_right (Nat.le_refl _), Nat.sub_self]
        rfl
      · exact fun hnil => hvalue.nonempty (String.toList_inj.mp hnil)
      · rw [hid, hrule.caseSensitive]
        exact hvalue.grams

/-- **The rows of a generated header**, other methods skipped or not. -/
theorem parseJaccard_rows {policy : Dict} {allowOtherMethods : Bool} {header : JaccardHeader}
    (h : parseJaccard u policy allowOtherMethods = .ok header) :
    ∃ texts c, RowsChecked u ⟨header.rules, header.keywords, texts, c⟩ := by
  unfold parseJaccard at h
  obtain ⟨raws, -, h⟩ := bind_ok h
  obtain ⟨d, -, h⟩ := bind_ok h
  obtain ⟨s, hs, h⟩ := bind_ok h
  obtain ⟨casefolds, -, h⟩ := bind_ok h
  cases h
  refine ⟨s.insensitiveTexts, s.policyCaseSensitive, ?_⟩
  refine foldlM_invariant (P := RowsChecked u) hs ⟨by decide, by decide, by simp, by simp, by simp⟩
    fun t ht raw _ t' hraw => ?_
  unfold parseSignal at hraw
  obtain ⟨signal, -, hraw⟩ := bind_ok hraw
  split_ifs at hraw with hmethod hother
  · cases hraw
    exact ht
  · exact ht.ngram (not_not.mp hmethod) hraw

end Loop

/-! ## The trigrams of a row -/

section Grams
variable {u : Unicode}

/-- The trigrams of a normalised keyword. -/
def keywordGrams (normalized : List Char) : List (List Nat) :=
  paddedGrams jaccardArity 32 (normalized.map Char.toNat)

theorem length_of_mem_keywordGrams {normalized : List Char} {gram : List Nat}
    (h : gram ∈ keywordGrams normalized) : gram.length = 3 := length_of_mem_windows h

theorem distinctGrams_eq (grams : List (List Nat)) :
    distinctGrams grams = OrderedDict.collect grams := by
  unfold distinctGrams OrderedDict.collect
  refine congrArg (fun f => grams.foldl f []) (funext₂ fun result gram => ?_)
  by_cases h : gram ∈ result <;> simp [OrderedDict.add, h]

/-- A row holds the trigrams of the keyword, normalised. -/
theorem gramCounts_ok {text : List Char} {caseSensitive : Bool} {ruleId : Nat} {row : KeywordRow}
    (h : gramCounts u text caseSensitive ruleId = .ok row) :
    ∃ normalized, normalize u text caseSensitive = .ok normalized ∧
      (keywordGrams normalized).length ≤ jaccardMaxGrams ∧
      row = ⟨ruleId, distinctGrams (keywordGrams normalized),
        (distinctGrams (keywordGrams normalized)).map fun gram =>
          (keywordGrams normalized).count gram, (keywordGrams normalized).length⟩ := by
  unfold gramCounts raiseIf at h
  obtain ⟨normalized, hnormalized, h⟩ := bind_ok h
  obtain ⟨_, hlen, h⟩ := bind_ok h
  obtain ⟨_, -, h⟩ := bind_ok h
  cases h
  refine ⟨normalized, hnormalized, ?_, rfl⟩
  unfold keywordGrams
  simpa using refuseIf_ok hlen

/-- The normalised keyword is the text the reference compares. -/
theorem normalize_ok {text : List Char} {caseSensitive : Bool} {normalized : List Char}
    (h : normalize u text caseSensitive = .ok normalized) :
    normalized = if caseSensitive then text else u.lowerText text := by
  unfold normalize at h
  split_ifs at h with hcase
  · cases h
    rw [if_pos hcase]
  · obtain ⟨_, -, h⟩ := bind_ok h
    obtain ⟨_, -, h⟩ := bind_ok h
    obtain ⟨_, -, h⟩ := bind_ok h
    cases h
    rw [if_neg hcase]

/-- The reference counts the same trigrams, as characters. -/
theorem keywordGrams_eq {text normalized : List Char} {caseSensitive : Bool}
    (h : normalize u text caseSensitive = .ok normalized) :
    keywordGrams normalized
      = (Signals.wordGrams u text jaccardArity caseSensitive).map (List.map Char.toNat) := by
  rw [Signals.wordGrams, ← normalize_ok h, paddedGrams_map]
  rfl

end Grams

end Xsr.Policy
