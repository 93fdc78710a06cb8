import Xsr.Policy.JaccardKeywords
import Xsr.Policy.JaccardTable
import Xsr.Signals.Grams

/-!
# Overflow — what the gram limits of a query lose

A query takes 32 grams of a word and 128 of the full text, and one that
overflows is dropped. A longer word can still share every gram of a short
keyword, so whether the drop can be seen depends on the threshold: it has
to exceed the similarity of the keyword to the shortest text beyond the
limit.
-/

namespace Xsr.Signals

open Kernel Lib Policy

variable {u : Unicode}

/-- No list of `c` or more grams is as similar as `threshold` thousandths to
a keyword of `g` grams. -/
def Unreachable (c g : Nat) (threshold : Int) : Prop :=
  ((c * c - (c - g) * (c - g) : Nat) : Int) * 1000 < (c * c : Nat) * threshold

instance (c g : Nat) (threshold : Int) : Decidable (Unreachable c g threshold) :=
  inferInstanceAs (Decidable (_ < _))

/-- **The similarity beyond a limit**: a longer text differs from the
keyword in a larger part. -/
theorem difference_le {c g n same : Nat} (hn : c ≤ n) (hsame : same ≤ g) (hg : g ≤ c) :
    (c - g) * (n + g - same) ≤ (n + g - same - same) * c := by
  obtain ⟨d, rfl⟩ := Nat.exists_eq_add_of_le hsame
  obtain ⟨e, rfl⟩ := Nat.exists_eq_add_of_le hg
  obtain ⟨k, rfl⟩ := Nat.exists_eq_add_of_le hn
  have h1 : same + d + e - (same + d) = e := by omega
  have h2 : same + d + e + k + (same + d) - same = same + d + e + k + d := by omega
  have h3 : same + d + e + k + d - same = d + e + k + d := by omega
  rw [h1, h2, h3]
  nlinarith

/-- A similarity with a larger part that differs is not larger. -/
theorem similarity_le {all part c k : Nat} {threshold : Int} (hpart : part ≤ all) (hk : k ≤ c)
    (hall : 0 < all) (hdiff : k * all ≤ part * c)
    (h : ((all * all : Nat) : Int) * threshold ≤ ((all * all - part * part : Nat) : Int) * 1000) :
    ((c * c : Nat) : Int) * threshold ≤ ((c * c - k * k : Nat) : Int) * 1000 := by
  rw [Nat.cast_sub (Nat.mul_self_le_mul_self hpart)] at h
  rw [Nat.cast_sub (Nat.mul_self_le_mul_self hk)]
  push_cast at h ⊢
  have hsquares : ((k : Int) * all) * (k * all) ≤ (part * c) * (part * c) := by
    exact_mod_cast Nat.mul_self_le_mul_self hdiff
  have hpos : (0 : Int) < all * all := by positivity
  refine le_of_mul_le_mul_left ?_ hpos
  calc (all * all : Int) * (c * c * threshold) = c * c * (all * all * threshold) := by ring
    _ ≤ c * c * ((all * all - part * part) * 1000) :=
        mul_le_mul_of_nonneg_left h (by positivity)
    _ = (all * all * (c * c) - (part * c) * (part * c)) * 1000 := by ring
    _ ≤ (all * all * (c * c) - (k * all) * (k * all)) * 1000 := by omega
    _ = all * all * ((c * c - k * k) * 1000) := by ring

theorem not_reaches {left right : List (List Char)} {c : Nat} {threshold : Int}
    (hc : c ≤ left.length) (hg : right.length ≤ c)
    (h : Unreachable c right.length threshold) :
    reaches (similarityCounts left right) threshold = false := by
  have hsame : Counter.same left right ≤ right.length := Counter.same_le_right left right
  by_contra htrue
  rw [Bool.not_eq_false, reaches, Bool.and_eq_true, Bool.and_eq_true, bne_iff_ne, bne_iff_ne,
    decide_eq_true_eq] at htrue
  obtain ⟨⟨-, hall⟩, hle⟩ := htrue
  have hbound := similarity_le (Nat.sub_le _ _) (Nat.sub_le _ _) (Nat.pos_of_ne_zero hall)
    (difference_le hc hsame hg) hle
  exact absurd h (not_lt.mpr hbound)

/-! ## Words and texts -/

theorem length_lowerText (hlower : ∀ c, u.lower c ≠ []) (text : List Char) :
    text.length ≤ (u.lowerText text).length := by
  have hat : ∀ before c after, 1 ≤ (u.lowerAt before c after).length := by
    intro before c after
    unfold Unicode.lowerAt
    split_ifs
    · simp
    · simp
    · exact List.length_pos_of_ne_nil (hlower c)
  have hfrom : ∀ before, text.length ≤ (u.lowerFrom before text).length := by
    induction text with
    | nil => exact fun _ => Nat.zero_le _
    | cons c cs ih =>
        intro before
        rw [Unicode.lowerFrom, List.length_append, List.length_cons]
        have := hat before c cs
        have := ih (c :: before)
        omega
  exact hfrom []

theorem length_wordGrams (hlower : ∀ c, u.lower c ≠ []) (word : List Char)
    (caseSensitive : Bool) :
    word.length + 2 ≤ (wordGrams u word jaccardArity caseSensitive).length := by
  rw [wordGrams, length_paddedGrams (by decide)]
  have := length_lowerText hlower word
  cases caseSensitive
  · exact Nat.add_le_add_right this 2
  · exact Nat.le_refl _

/-- The row of a keyword has as many grams as the reference counts. -/
theorem totalGrams_eq {rules : List RuleRow} {row : KeywordRow} {rule : RuleRow}
    {text : List Char} (h : RowOf u rules row rule text) :
    row.totalGrams = (wordGrams u text jaccardArity rule.caseSensitive).length ∧
      row.totalGrams ≤ jaccardMaxGrams := by
  obtain ⟨normalized, hnormalized, hlen, hrow⟩ := gramCounts_ok h.grams
  rw [hrow]
  refine ⟨?_, hlen⟩
  show (keywordGrams normalized).length = _
  rw [keywordGrams_eq hnormalized, List.length_map]

/-- The shortest text beyond the limit that has a keyword in it. -/
def aroundKeyword (text : List Char) : List Char :=
  [' ', ' '] ++ text ++ List.replicate (125 - text.length) ' '

/-- The keyword's grams are all among those of the text around it. -/
theorem same_aroundKeyword (text : List Char) :
    Counter.same (wordGrams u (aroundKeyword text) jaccardArity true)
        (wordGrams u text jaccardArity true)
      = (wordGrams u text jaccardArity true).length := by
  have hblanks : List.replicate (125 - text.length) ' ' ++ List.replicate 2 ' '
      = List.replicate 2 ' ' ++ List.replicate (125 - text.length) ' ' := by
    rw [List.replicate_append_replicate, List.replicate_append_replicate, Nat.add_comm]
  have hshape : List.replicate 2 ' ' ++ aroundKeyword text ++ List.replicate 2 ' '
      = [' ', ' '] ++ ([' ', ' '] ++ text ++ [' ', ' '])
        ++ List.replicate (125 - text.length) ' ' := by
    rw [aroundKeyword, List.append_assoc, List.append_assoc, hblanks]
    simp [List.replicate_succ]
  apply Counter.same_of_sublist
  rw [wordGrams, wordGrams, if_pos rfl, if_pos rfl, paddedGrams, paddedGrams]
  show (Lib.windows 3 ([' ', ' '] ++ text ++ [' ', ' '])).Sublist
    (Lib.windows 3 (List.replicate 2 ' ' ++ aroundKeyword text ++ List.replicate 2 ' '))
  rw [hshape]
  exact windows_sublist_middle 3 _ _ _

theorem length_aroundKeyword {text : List Char} (hlen : text.length ≤ 30) :
    (aroundKeyword text).length = 127 := by
  simp only [aroundKeyword, List.length_append, List.length_replicate, List.length_cons,
    List.length_nil]
  omega

/-- A keyword of an n-gram policy the generator accepts: its row, its rule
and its text. -/
structure PolicyKeyword (u : Unicode) where
  policy : Dict
  allowOtherMethods : Bool
  header : JaccardHeader
  parsed : parseJaccard u policy allowOtherMethods = .ok header
  row : KeywordRow
  mem : row ∈ header.keywords
  rule : RuleRow
  text : List Char
  rowOf : RowOf u header.rules row rule text

/-- `matches` against a keyword, under its rule. -/
def PolicyKeyword.matchedBy (k : PolicyKeyword u) (word : List Char) : Bool :=
  wordMatches u word k.text jaccardArity k.rule.thresholdMilli k.rule.caseSensitive

/-- **What the limits lose**: a query that overflows is dropped, and the
drop goes unseen for every keyword whose threshold lies above its similarity
to the shortest word, or text, beyond the limit. For texts and rules that
are case-sensitive no weaker condition will do. -/
theorem overflow_unobservable (hlower : ∀ c, u.lower c ≠ []) (k : PolicyKeyword u) :
    (∀ m s q, q.overflow = true → jaccardMatchQuery m s q = s) ∧
    (Unreachable 33 k.row.totalGrams k.rule.thresholdMilli →
      ∀ word, 30 < word.length → k.matchedBy word = false) ∧
    (Unreachable 129 k.row.totalGrams k.rule.thresholdMilli →
      ∀ full, 126 < full.length → k.matchedBy full = false) ∧
    (k.rule.caseSensitive = true → ¬Unreachable 129 k.row.totalGrams k.rule.thresholdMilli →
      ∃ full, 126 < full.length ∧ k.matchedBy full = true) := by
  obtain ⟨htotal, hle⟩ := totalGrams_eq k.rowOf
  have hbeyond : ∀ {c n : Nat} {long : List Char}, c = n + 3 → jaccardMaxGrams ≤ c →
      Unreachable c k.row.totalGrams k.rule.thresholdMilli → n < long.length →
      k.matchedBy long = false := by
    intro c n long hc hcap hun hlong
    have hlength := length_wordGrams hlower long k.rule.caseSensitive
    rw [htotal] at hun hle
    exact not_reaches (by omega) (by omega) hun
  refine ⟨?_, ?_, ?_, ?_⟩
  · intro m s q hover
    rw [jaccardMatchQuery]
    cases m.config with
    | none => rfl
    | some config => exact if_pos hover
  · exact fun hun word hword => hbeyond rfl (by decide) hun hword
  · exact fun hun full hfull => hbeyond rfl (by decide) hun hfull
  · intro hcase hun
    rw [hcase] at htotal
    rw [Unreachable, not_lt, htotal] at hun
    have hgrams : (wordGrams u k.text jaccardArity true).length = k.text.length + 2 :=
      length_paddedGrams (by decide) _ _
    have hcap : k.row.totalGrams ≤ 32 := hle
    have htext : k.text.length ≤ 30 := by omega
    have haround : (wordGrams u (aroundKeyword k.text) jaccardArity true).length = 129 := by
      rw [wordGrams, length_paddedGrams (by decide), if_pos rfl, length_aroundKeyword htext]
      rfl
    refine ⟨aroundKeyword k.text, by rw [length_aroundKeyword htext]; decide, ?_⟩
    rw [PolicyKeyword.matchedBy, hcase, wordMatches, similarityCounts, same_aroundKeyword, haround, reaches, Nat.add_sub_cancel]
    simp only [Bool.and_eq_true, bne_iff_ne, decide_eq_true_eq]
    exact ⟨⟨by omega, by decide⟩, hun⟩

/-! ## A long word -/

/-- One plain signal with the keyword `function`. -/
def functionPolicy : Dict := [("routes", .list [plainSignal "code" "coding" "function"])]

/-- The row of `function`, ten different trigrams. -/
def functionRow : KeywordRow :=
  ⟨0, [[32, 32, 102], [32, 102, 117], [102, 117, 110], [117, 110, 99], [110, 99, 116],
    [99, 116, 105], [116, 105, 111], [105, 111, 110], [111, 110, 32], [110, 32, 32]],
    [1, 1, 1, 1, 1, 1, 1, 1, 1, 1], 10⟩

theorem function_parsed : parseJaccard Unicode.asciiTables functionPolicy false
    = .ok ⟨[plainRule 0 .coding], [functionRow], []⟩ := by
  have hloop : [plainSignal "code" "coding" "function"].foldlM
      (parseSignal Unicode.asciiTables false ⟨[], []⟩) ⟨[], [], [], none⟩ =
      .ok ⟨[plainRule 0 .coding], [functionRow], [], some true⟩ := rfl
  exact parseJaccard_of rfl rfl hloop (casefoldEntries_nil _)

/-- The keyword `function` under the default threshold. -/
def functionKeyword : PolicyKeyword Unicode.asciiTables where
  policy := functionPolicy
  allowOtherMethods := false
  header := _
  parsed := function_parsed
  row := functionRow
  mem := by simp
  rule := plainRule 0 .coding
  text := "function".toList
  rowOf := ⟨rfl, by decide, rfl⟩

/-- The same signal with a threshold of 0.6. -/
def strictSignal : PyVal :=
  .dict [("name", .str "code"), ("route", .str "coding"), ("method", .str "ngram"),
    ("keywords", .list [.str "function"]), ("case_sensitive", .bool true),
    ("ngram_threshold", .float ⟨"0.6", some 0, true⟩)]

/-- The rule of this signal. -/
def strictRule : RuleRow := { plainRule 0 .coding with thresholdMilli := 600 }

theorem strict_parsed : parseJaccard Unicode.asciiTables [("routes", .list [strictSignal])] false
    = .ok ⟨[strictRule], [functionRow], []⟩ := by
  have hloop : [strictSignal].foldlM (parseSignal Unicode.asciiTables false ⟨[], []⟩)
      ⟨[], [], [], none⟩ = .ok ⟨[strictRule], [functionRow], [], some true⟩ := rfl
  exact parseJaccard_of rfl rfl hloop (casefoldEntries_nil _)

/-- The keyword `function` under this threshold. -/
def strictKeyword : PolicyKeyword Unicode.asciiTables where
  policy := _
  allowOtherMethods := false
  header := _
  parsed := strict_parsed
  row := functionRow
  mem := by simp
  rule := strictRule
  text := "function".toList
  rowOf := ⟨rfl, by decide, rfl⟩

/-- No word and no text beyond the limits reaches it. -/
theorem overflow_unobservable_strict :
    (∀ word, 30 < word.length → strictKeyword.matchedBy word = false) ∧
    (∀ full, 126 < full.length → strictKeyword.matchedBy full = false) := by
  obtain ⟨-, hwords, hfulls, -⟩ :=
    overflow_unobservable (fun _ => List.cons_ne_nil _ _) strictKeyword
  exact ⟨hwords (show Unreachable 33 10 600 by decide),
    hfulls (show Unreachable 129 10 600 by decide)⟩

/-- `functionfunctionfunctionfunction` has 32 code points and reaches the
threshold. -/
theorem overflow_unobservable_fails :
    ¬∀ k : PolicyKeyword Unicode.asciiTables,
      (∀ word, 30 < word.length → k.matchedBy word = false) ∧
      (∀ full, 126 < full.length → k.matchedBy full = false) := by
  intro h
  have hlong := (h functionKeyword).1 "functionfunctionfunctionfunction".toList (by decide)
  exact absurd hlong (by decide +kernel)

end Xsr.Signals
