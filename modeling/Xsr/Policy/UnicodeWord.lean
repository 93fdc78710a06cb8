import Xsr.Lib.Intervals
import Xsr.Lib.Raise
import Xsr.Policy.JaccardHeader

/-!
# UnicodeWord — `generate_unicode_word_header.py`

Which code points are word characters is a predicate of the interpreter.
The generator collects its maximal runs in one pass, and the matcher looks
code points up in a bitmap built from the runs. `contains`, the binary
search of the tests, decides the same set.
-/

namespace Xsr.Policy

open Kernel Lib

/-! ## The runs -/

/-- The variables of `word_ranges`: the closed runs and the start of the
open one. -/
structure RangeScan where
  ranges : List (Nat × Nat)
  start : Option Nat

/-- One code point of the loop. -/
def rangeStep (isalnum : Nat → Bool) (s : RangeScan) (codepoint : Nat) : RangeScan :=
  if isalnum codepoint then
    match s.start with
    | none => { s with start := some codepoint }
    | some _ => s
  else
    match s.start with
    | some start => ⟨s.ranges ++ [(start, codepoint - 1)], none⟩
    | none => s

/-- A run still open at the end ends at the last code point. -/
def RangeScan.close (s : RangeScan) (last : Nat) : List (Nat × Nat) :=
  match s.start with
  | some start => s.ranges ++ [(start, last)]
  | none => s.ranges

/-- `word_ranges` -/
def wordRanges (isalnum : Nat → Bool) : List (Nat × Nat) :=
  ((List.range (maxUnicode + 1)).foldl (rangeStep isalnum) ⟨[], none⟩).close maxUnicode

/-- What the loop has found of the code points below `n`. -/
structure Scanned (isalnum : Nat → Bool) (n : Nat) (s : RangeScan) : Prop where
  separated : Separated s.ranges
  below : ∀ r ∈ s.ranges, r.2 + 1 < s.start.getD n
  covered : ∀ c < s.start.getD n, Covered s.ranges c ↔ isalnum c = true
  run : ∀ start, s.start = some start → start < n ∧ ∀ c, start ≤ c → c < n → isalnum c = true

theorem not_covered_of_le {ranges : List (Nat × Nat)} {n c : Nat} (h : ∀ r ∈ ranges, r.2 + 1 < n)
    (hc : n ≤ c) : ¬Covered ranges c := by
  rintro ⟨r, hr, -, hle⟩
  have := h r hr
  omega

/-- An open run, closed at its last code point. -/
theorem Scanned.closed {isalnum : Nat → Bool} {n start : Nat} {s : RangeScan}
    (h : Scanned isalnum n s) (hs : s.start = some start) :
    Separated (s.ranges ++ [(start, n - 1)]) ∧
      ∀ c < n, Covered (s.ranges ++ [(start, n - 1)]) c ↔ isalnum c = true := by
  obtain ⟨hlt, hrun⟩ := h.run start hs
  have hbelow := h.below
  have hcovered := h.covered
  rw [hs, Option.getD_some] at hbelow hcovered
  refine ⟨h.separated.snoc (by omega) hbelow, fun c hc => ?_⟩
  rw [covered_snoc]
  by_cases hold : c < start
  · rw [hcovered c hold]
    constructor
    · rintro (hp | hp)
      · exact hp
      · omega
    · exact .inl
  · exact iff_of_true (.inr ⟨by omega, by omega⟩) (hrun c (by omega) hc)

/-- One code point more. -/
theorem Scanned.step {isalnum : Nat → Bool} {n : Nat} {s : RangeScan}
    (h : Scanned isalnum n s) : Scanned isalnum (n + 1) (rangeStep isalnum s n) := by
  unfold rangeStep
  cases hs : s.start with
  | none =>
      have hbelow := h.below
      have hcovered := h.covered
      rw [hs, Option.getD_none] at hbelow hcovered
      by_cases hp : isalnum n = true
      · rw [if_pos hp]
        refine ⟨h.separated, hbelow, hcovered, ?_⟩
        intro start hstart
        obtain rfl := Option.some.inj hstart
        refine ⟨n.lt_succ_self, fun c hle hlt => ?_⟩
        have hc : c = n := by omega
        rwa [hc]
      · rw [if_neg hp]
        refine ⟨h.separated, ?_, ?_, ?_⟩
        · intro r hr
          rw [hs, Option.getD_none]
          exact (hbelow r hr).trans n.lt_succ_self
        · intro c hc
          rw [hs, Option.getD_none] at hc
          rcases Nat.lt_succ_iff_lt_or_eq.mp hc with hlt | rfl
          · exact hcovered c hlt
          · exact iff_of_false (not_covered_of_le hbelow le_rfl) hp
        · rw [hs]
          rintro start ⟨⟩
  | some start =>
      obtain ⟨hlt, hrun⟩ := h.run start hs
      by_cases hp : isalnum n = true
      · rw [if_pos hp]
        refine ⟨h.separated, ?_, ?_, ?_⟩
        · rw [hs, Option.getD_some]
          have hbelow := h.below
          rwa [hs, Option.getD_some] at hbelow
        · rw [hs, Option.getD_some]
          have hcovered := h.covered
          rwa [hs, Option.getD_some] at hcovered
        · intro start' hstart'
          obtain rfl := Option.some.inj (hs.symm.trans hstart')
          refine ⟨by omega, fun c hle hc => ?_⟩
          rcases Nat.lt_succ_iff_lt_or_eq.mp hc with hlt | rfl
          · exact hrun c hle hlt
          · exact hp
      · rw [if_neg hp]
        -- the run ends before `n`
        obtain ⟨hseparated, hclosed⟩ := h.closed hs
        have hbelow := h.below
        rw [hs, Option.getD_some] at hbelow
        have hbelow' : ∀ r ∈ s.ranges ++ [(start, n - 1)], r.2 + 1 < n + 1 := by
          intro r hr
          rcases List.mem_append.mp hr with hr | hr
          · have := hbelow r hr
            omega
          · rw [List.mem_singleton.mp hr]
            dsimp only
            omega
        refine ⟨hseparated, hbelow', fun c hc => ?_, by rintro start' ⟨⟩⟩
        rcases Nat.lt_succ_iff_lt_or_eq.mp hc with hlt | rfl
        · exact hclosed c hlt
        · refine iff_of_false ?_ hp
          rintro ⟨r, hr, -, hle⟩
          have := hbelow' r hr
          omega

theorem scanned_range (isalnum : Nat → Bool) (n : Nat) :
    Scanned isalnum n ((List.range n).foldl (rangeStep isalnum) ⟨[], none⟩) := by
  induction n with
  | zero =>
      exact ⟨.nil, by simp, fun c hc => absurd hc (Nat.not_lt_zero c), by rintro start ⟨⟩⟩
  | succ n ih =>
      rw [List.range_succ, List.foldl_append]
      exact ih.step

/-- **The maximal runs** are separated and cover exactly the predicate. -/
theorem Scanned.close {isalnum : Nat → Bool} {n : Nat} {s : RangeScan}
    (h : Scanned isalnum (n + 1) s) :
    Separated (s.close n) ∧ ∀ c, Covered (s.close n) c ↔ c ≤ n ∧ isalnum c = true := by
  unfold RangeScan.close
  cases hs : s.start with
  | none =>
      have hbelow := h.below
      have hcovered := h.covered
      rw [hs, Option.getD_none] at hbelow hcovered
      refine ⟨h.separated, fun c => ?_⟩
      by_cases hc : c ≤ n
      · rw [hcovered c (by omega)]
        exact (and_iff_right hc).symm
      · exact iff_of_false (not_covered_of_le hbelow (by omega)) fun hp => hc hp.1
  | some start =>
      obtain ⟨hseparated, hclosed⟩ := h.closed hs
      obtain ⟨hlt, -⟩ := h.run start hs
      have hbelow := h.below
      rw [hs, Option.getD_some] at hbelow
      rw [Nat.add_sub_cancel] at hseparated hclosed
      refine ⟨hseparated, fun c => ?_⟩
      by_cases hc : c ≤ n
      · rw [hclosed c (by omega)]
        exact (and_iff_right hc).symm
      · refine iff_of_false ?_ fun hp => hc hp.1
        rw [covered_snoc]
        rintro (hcov | hlast)
        · exact not_covered_of_le hbelow (by omega) hcov
        · omega

/-! ## The search -/

/-- The loop of `contains`. -/
def containsLoop (ranges : List (Nat × Nat)) (codepoint left right : Nat)
    (hright : right ≤ ranges.length) : Bool :=
  if h : left < right then
    let middle := (left + right) / 2
    have hmiddle : middle < ranges.length := by omega
    if codepoint < ranges[middle].1 then
      containsLoop ranges codepoint left middle (by omega)
    else if ranges[middle].2 < codepoint then
      containsLoop ranges codepoint (middle + 1) right hright
    else true
  else false
termination_by right - left

/-- `contains` -/
def contains (ranges : List (Nat × Nat)) (codepoint : Nat) : Bool :=
  containsLoop ranges codepoint 0 ranges.length le_rfl

/-- The loop looks for an interval between its bounds. -/
theorem containsLoop_iff {ranges : List (Nat × Nat)} (h : Separated ranges)
    (codepoint left right : Nat) (hright : right ≤ ranges.length) :
    containsLoop ranges codepoint left right hright = true ↔
      ∃ i, ∃ hi : i < ranges.length, left ≤ i ∧ i < right ∧
        ranges[i].1 ≤ codepoint ∧ codepoint ≤ ranges[i].2 := by
  fun_induction containsLoop ranges codepoint left right hright with
  | case1 left right hright hlt middle hmiddle hfirst ih =>
      -- everything from the middle on starts above the code point
      have hmid : middle = (left + right) / 2 := rfl
      rw [ih]
      constructor
      · rintro ⟨i, hi, hleft, hright, hin⟩
        exact ⟨i, hi, hleft, by omega, hin⟩
      · rintro ⟨i, hi, hleft, hright, hin⟩
        refine ⟨i, hi, hleft, ?_, hin⟩
        by_contra hge
        rcases Nat.eq_or_lt_of_le (Nat.le_of_not_lt hge) with heq | hgt
        · subst heq
          omega
        · have := h.getElem_lt hgt hi
          have := h.nonempty _ (List.getElem_mem hmiddle)
          omega
  | case2 left right hright hlt middle hmiddle hfirst hlast ih =>
      have hmid : middle = (left + right) / 2 := rfl
      rw [ih]
      constructor
      · rintro ⟨i, hi, hleft, hright, hin⟩
        exact ⟨i, hi, by omega, hright, hin⟩
      · rintro ⟨i, hi, hleft, hright, hin⟩
        refine ⟨i, hi, ?_, hright, hin⟩
        by_contra hle
        rcases Nat.eq_or_lt_of_le (Nat.le_of_lt_succ (Nat.not_le.mp hle)) with heq | hlt'
        · subst heq
          omega
        · have := h.getElem_lt hlt' hmiddle
          have := h.nonempty _ (List.getElem_mem hmiddle)
          omega
  | case3 left right hright hlt middle hmiddle hfirst hlast =>
      have hmid : middle = (left + right) / 2 := rfl
      exact iff_of_true rfl ⟨middle, hmiddle, by omega, by omega, by omega, by omega⟩
  | case4 left right hright hlt =>
      refine iff_of_false (by decide) ?_
      rintro ⟨i, -, hleft, hi, -⟩
      omega

/-- **The binary search** decides membership. -/
theorem contains_iff {ranges : List (Nat × Nat)} (h : Separated ranges) (codepoint : Nat) :
    contains ranges codepoint = true ↔ Covered ranges codepoint := by
  rw [contains, containsLoop_iff h]
  constructor
  · rintro ⟨i, hi, -, -, hin⟩
    exact ⟨_, List.getElem_mem hi, hin⟩
  · rintro ⟨r, hr, hin⟩
    obtain ⟨i, hi, rfl⟩ := List.getElem_of_mem hr
    exact ⟨i, hi, Nat.zero_le i, hi, hin⟩

/-! ## The bitmap -/

/-- `words[codepoint >> 6] |= 1 << (codepoint & 63)`; `none` is an
`IndexError`. -/
def setBit (words : List Nat) (codepoint : Nat) : Option (List Nat) :=
  words[codepoint >>> 6]?.map fun word =>
    words.set (codepoint >>> 6) (word ||| 1 <<< (codepoint &&& 63))

/-- `word_bitmap` -/
def wordBitmap (ranges : List (Nat × Nat)) : Option (List Nat) :=
  ranges.foldlM
    (fun words r => (List.range' r.1 (r.2 + 1 - r.1)).foldlM setBit words)
    (List.replicate ((maxUnicode + 1 + 63) / 64) 0)

/-- The lookup of `xdp_jaccard_word_char` in the generated bitmap. -/
def bitmapLookup (words : List Nat) (codepoint : Nat) : Bool :=
  ((words.getD (codepoint >>> 6) 0 >>> (codepoint &&& 63)) &&& 1) == 1

theorem bitmapLookup_eq (words : List Nat) (codepoint : Nat) :
    bitmapLookup words codepoint = wordBit 6 words codepoint := by
  have hplace : codepoint &&& 63 = codepoint % 2 ^ 6 := Nat.and_two_pow_sub_one_eq_mod codepoint 6
  rw [bitmapLookup, wordBit, hplace, Nat.testBit_eq_decide_div_mod_eq, Nat.shiftRight_eq_div_pow,
    Nat.and_one_is_mod]
  exact beq_eq_decide _ _

/-- A bitmap of `size` words of 64 bits that holds the set `codepoints`. -/
structure Bitmap (size : Nat) (codepoints : List Nat) (words : List Nat) : Prop where
  length : words.length = size
  bounded : ∀ word ∈ words, word < 2 ^ 64
  bit : ∀ c, wordBit 6 words c = decide (c ∈ codepoints)

theorem Bitmap.empty (size : Nat) : Bitmap size [] (List.replicate size 0) := by
  refine ⟨List.length_replicate, ?_, ?_⟩
  · intro word hword
    rw [List.eq_of_mem_replicate hword]
    decide
  · intro c
    have hzero : (List.replicate size 0).getD (c >>> 6) 0 = 0 := by
      rw [List.getD_eq_getElem?_getD, List.getElem?_replicate]
      split_ifs <;> rfl
    rw [wordBit, hzero, Nat.zero_testBit]
    simp

/-- One code point more. -/
theorem Bitmap.setBit {size : Nat} {codepoints words : List Nat} (h : Bitmap size codepoints words)
    {c : Nat} (hc : c >>> 6 < size) :
    ∃ words', setBit words c = some words' ∧ Bitmap size (codepoints ++ [c]) words' := by
  have hlt : c >>> 6 < words.length := h.length.symm ▸ hc
  have hplace : c &&& 63 = c % 2 ^ 6 := Nat.and_two_pow_sub_one_eq_mod c 6
  refine ⟨words.set (c >>> 6) (words[c >>> 6] ||| 1 <<< (c % 2 ^ 6)), ?_, ?_, ?_, ?_⟩
  · rw [Policy.setBit, List.getElem?_eq_getElem hlt, hplace]
    rfl
  · rw [List.length_set, h.length]
  · intro word hword
    rcases List.mem_or_eq_of_mem_set hword with hold | rfl
    · exact h.bounded word hold
    · have hbit : 1 <<< (c % 2 ^ 6) < 2 ^ 64 := by
        rw [Nat.one_shiftLeft]
        exact Nat.pow_lt_pow_right (by decide) (Nat.mod_lt c (by decide))
      exact Nat.or_lt_two_pow (h.bounded _ (List.getElem_mem hlt)) hbit
  · intro c'
    rw [wordBit_set hlt, h.bit]
    simp

/-- **A run of bits**: as long as every code point has a word, no index
leaves the bitmap and exactly its bit is set. -/
theorem bitmap_of_codepoints (size : Nat) {codepoints : List Nat}
    (h : ∀ c ∈ codepoints, c >>> 6 < size) :
    ∃ words, codepoints.foldlM setBit (List.replicate size 0) = some words ∧
      Bitmap size codepoints words := by
  induction codepoints using List.reverseRecOn with
  | nil => exact ⟨_, rfl, .empty size⟩
  | append_singleton codepoints c ih =>
      obtain ⟨words, hwords, hbitmap⟩ := ih fun c' hc' => h c' (by simp [hc'])
      obtain ⟨words', hset, hbitmap'⟩ := hbitmap.setBit (h c (by simp))
      refine ⟨words', ?_, hbitmap'⟩
      rw [List.foldlM_append, hwords]
      simpa using hset

/-- The code points of some intervals. -/
theorem mem_codepoints {ranges : List (Nat × Nat)} {c : Nat} :
    c ∈ ranges.flatMap (fun r => List.range' r.1 (r.2 + 1 - r.1)) ↔ Covered ranges c := by
  rw [List.mem_flatMap]
  refine exists_congr fun r => and_congr_right fun _ => ?_
  rw [List.mem_range'_1]
  omega

/-- The words of the bitmap are as many as the kernel was compiled with, and
every code point has one. -/
theorem word_in_bitmap {c : Nat} (hc : c ≤ maxUnicode) : c >>> 6 < unicodeWordBitmapWords := by
  rw [Nat.shiftRight_eq_div_pow]
  unfold maxUnicode at hc
  unfold unicodeWordBitmapWords
  omega

theorem wordBitmap_ok {ranges : List (Nat × Nat)} (h : ∀ c, Covered ranges c → c ≤ maxUnicode) :
    ∃ words, wordBitmap ranges = some words ∧ words.length = unicodeWordBitmapWords ∧
      (∀ word ∈ words, word < 2 ^ 64) ∧
      ∀ c, bitmapLookup words c = true ↔ Covered ranges c := by
  obtain ⟨words, hwords, hbitmap⟩ := bitmap_of_codepoints unicodeWordBitmapWords
    fun c hc => word_in_bitmap (h c (mem_codepoints.mp hc))
  refine ⟨words, ?_, hbitmap.length, hbitmap.bounded, fun c => ?_⟩
  · rw [foldlM_flatMap] at hwords
    exact hwords
  · rw [bitmapLookup_eq, hbitmap.bit, decide_eq_true_iff, mem_codepoints]

/-! ## All three representations -/

/-- The runs, the search over them and the bitmap hold the predicate
`isalnum` on all code points, and so does the kernel's lookup beyond ASCII
when it is compiled with that bitmap. -/
structure WordTables (isalnum : Nat → Bool) (words : List Nat) : Prop where
  separated : Separated (wordRanges isalnum)
  within : ∀ r ∈ wordRanges isalnum, r.2 ≤ maxUnicode
  search : ∀ c, contains (wordRanges isalnum) c = true ↔ c ≤ maxUnicode ∧ isalnum c = true
  built : wordBitmap (wordRanges isalnum) = some words
  length : words.length = unicodeWordBitmapWords
  bounded : ∀ word ∈ words, word < 2 ^ 64
  indexed : ∀ c ≤ maxUnicode, c >>> 6 < words.length
  lookup : ∀ c ≤ maxUnicode, bitmapLookup words c = isalnum c
  kernel : ∀ m : JaccardMaps, m.wordBitmap = (fun i => words.getD i 0) →
    ∀ c, 128 ≤ c → jaccardWordChar m c = (decide (c ≤ maxUnicode) && isalnum c)

/-- **Word-character tables agree**, whatever the predicate. -/
theorem word_tables_agree (isalnum : Nat → Bool) : ∃ words, WordTables isalnum words := by
  obtain ⟨hseparated, hcovered⟩ := (scanned_range isalnum (maxUnicode + 1)).close
  change Separated (wordRanges isalnum) at hseparated
  change ∀ c, Covered (wordRanges isalnum) c ↔ _ at hcovered
  obtain ⟨words, hbuilt, hlength, hbounded, hbits⟩ :=
    wordBitmap_ok fun c hc => ((hcovered c).mp hc).1
  have hindexed : ∀ c ≤ maxUnicode, c >>> 6 < words.length := fun c hc =>
    hlength.symm ▸ word_in_bitmap hc
  have hlookup : ∀ c ≤ maxUnicode, bitmapLookup words c = isalnum c := by
    intro c hc
    rw [Bool.eq_iff_iff, hbits, hcovered]
    exact and_iff_right hc
  refine ⟨words, hseparated, ?_, ?_, hbuilt, hlength, hbounded, hindexed, hlookup, ?_⟩
  · intro r hr
    exact ((hcovered r.2).mp ⟨r, hr, hseparated.nonempty r hr, le_rfl⟩).1
  · intro c
    rw [contains_iff hseparated, hcovered]
  · intro m hm c hc
    have hmax : unicodeWordMax = maxUnicode := rfl
    rw [jaccardWordChar, if_neg (by omega)]
    by_cases hle : c ≤ maxUnicode
    · rw [if_neg (by omega), decide_eq_true hle, Bool.true_and, ← hlookup c hle]
      have hword := word_in_bitmap hle
      rw [if_neg (by omega), hm]
      rfl
    · rw [if_pos (by omega), decide_eq_false hle, Bool.false_and]

end Xsr.Policy
