import Xsr.Policy.UnicodeWord
import Xsr.Signals.TextMarks

/-!
# Folding — case and word characters of a text

The reference lower-cases a word as a whole; the matcher folds one code
point at a time, and only to characters of the keywords. The two texts
differ in characters that no keyword contains, which no shared trigram can
tell apart. Where a word ends is decided before folding by the one and
after folding by the other.
-/

namespace Xsr.Signals

open Control Kernel Lib Policy

variable {u : Unicode}

/-! ## The case folds of a header -/

/-- The entries found are those of the code points below the last one. -/
theorem casefoldEntries_ok {texts : List (List Char)} {entries : List (Nat × Nat)}
    (h : casefoldEntries u texts = .ok entries) :
    entries = (List.range (maxUnicode + 1)).filterMap
      (casefoldEntry u (texts.flatMap u.lowerText)) := by
  unfold casefoldEntries raiseIf at h
  obtain ⟨_, -, h⟩ := bind_ok h
  exact (Except.ok.inj h).symm

theorem casefoldEntry_fst {targets : List Char} {c : Nat} {entry : Nat × Nat}
    (h : casefoldEntry u targets c = some entry) : entry.1 = c := by
  unfold casefoldEntry at h
  split_ifs at h
  split at h
  · split_ifs at h
    cases h
    rfl
  · cases h

/-- **The map of the case folds** has the entry of each code point. -/
theorem casefolds_loaded {header : JaccardHeader} {wordBitmap : Nat → Nat} {m : JaccardMaps}
    (h : populateJaccardPolicy header wordBitmap = some m) {texts : List (List Char)}
    (hentries : casefoldEntries u texts = .ok header.casefolds) {c : Nat} (hc : c ≤ maxUnicode) :
    m.casefolds c = (casefoldEntry u (texts.flatMap u.lowerText) c).map Prod.snd := by
  have hheader := casefoldEntries_ok hentries
  generalize texts.flatMap u.lowerText = targets at hheader ⊢
  unfold populateJaccardPolicy at h
  obtain ⟨rules, -, h⟩ := Option.bind_eq_some_iff.mp h
  obtain ⟨keywords, -, h⟩ := Option.bind_eq_some_iff.mp h
  obtain ⟨grams, -, h⟩ := Option.bind_eq_some_iff.mp h
  obtain ⟨casefolds, hcasefolds, h⟩ := Option.bind_eq_some_iff.mp h
  cases h
  have hdistinct : (header.casefolds.map Prod.fst).Nodup := by
    rw [hheader, List.map_filterMap]
    refine List.nodup_range.filterMap fun a b x ha hb => ?_
    obtain ⟨entry, hentry, rfl⟩ := Option.map_eq_some_iff.mp ha
    obtain ⟨entry', hentry', hfst⟩ := Option.map_eq_some_iff.mp hb
    rw [← casefoldEntry_fst hentry, ← casefoldEntry_fst hentry', hfst]
  have hmem : ∀ entry, entry ∈ header.casefolds → casefoldEntry u targets entry.1 = some entry := by
    intro entry hentry
    rw [hheader] at hentry
    obtain ⟨c', -, hc'⟩ := List.mem_filterMap.mp hentry
    rwa [casefoldEntry_fst hc']
  show casefolds.map c = _
  rw [show casefolds.map = _ from HashTable.load_map hdistinct hcasefolds]
  dsimp only
  cases hfind : header.casefolds.find? (fun entry => entry.1 = c) with
  | some entry =>
      have hkey := List.find?_some hfind
      obtain rfl : entry.1 = c := of_decide_eq_true hkey
      rw [hmem entry (List.mem_of_find?_eq_some hfind)]
  | none =>
      cases hentry : casefoldEntry u targets c with
      | none => rfl
      | some entry =>
          have hin : entry ∈ header.casefolds := by
            rw [hheader]
            exact List.mem_filterMap.mpr ⟨c, List.mem_range.mpr (Nat.lt_succ_of_le hc), hentry⟩
          exact absurd (decide_eq_true (casefoldEntry_fst hentry))
            (List.find?_eq_none.mp hfind entry hin)

/-! ## One character -/

theorem toNat_le_maxUnicode (c : Char) : c.toNat ≤ maxUnicode := by
  have hvalid : c.toNat.isValidChar := c.valid
  unfold Nat.isValidChar at hvalid
  unfold maxUnicode
  omega

/-- A character as the matcher compares it when case is no matter. -/
def foldChar (u : Unicode) (targets : List Char) (c : Char) : Char :=
  if c.toNat < 128 then c.toLower
  else match u.lowerText [c] with
    | [lower] => if targets.contains lower then lower else c
    | _ => c

theorem toNat_toLower {c : Char} (h : c.toNat < 128) :
    c.toLower.toNat = if 65 ≤ c.toNat ∧ c.toNat ≤ 90 then c.toNat + 32 else c.toNat :=
  Unicode.forall_ascii
    (P := fun c => c.toLower.toNat = if 65 ≤ c.toNat ∧ c.toNat ≤ 90 then c.toNat + 32 else c.toNat)
    (by decide) h

theorem lowerText_lt {text : List Char} (h : ∀ c ∈ text, c.toNat < 128) :
    ∀ c ∈ u.lowerText text, c.toNat < 128 := by
  rw [u.lowerText_ascii h]
  intro c hc
  obtain ⟨c', hc', rfl⟩ := List.mem_map.mp hc
  have := h c' hc'
  rw [toNat_toLower this]
  split_ifs <;> omega

/-- An ASCII text in lower case stays. -/
theorem lowerText_lowerText {text : List Char} (h : ∀ c ∈ text, c.toNat < 128) :
    u.lowerText (u.lowerText text) = u.lowerText text := by
  rw [u.lowerText_ascii (lowerText_lt h), u.lowerText_ascii h, List.map_map]
  refine List.map_congr_left fun c hc => ?_
  exact Unicode.forall_ascii (P := fun c => c.toLower.toLower = c.toLower) (by decide) (h c hc)

/-- `xdp_jaccard_lower` folds characters. -/
theorem jaccardLower_char {m : JaccardMaps} {targets : List Char} {c : Char}
    (h : m.casefolds c.toNat = (casefoldEntry u targets c.toNat).map Prod.snd) :
    jaccardLower m c.toNat = (foldChar u targets c).toNat := by
  unfold jaccardLower foldChar
  have hvalid : c.toNat.isValidChar := c.valid
  have hchar : Char.ofNat c.toNat = c := Char.ofNat_toNat c
  by_cases hascii : c.toNat < 128
  · have hlower := toNat_toLower hascii
    rw [if_pos hascii, hlower]
    split_ifs with hupper
    · rfl
    · -- an ASCII letter in lower case is its own fold
      rw [if_neg hupper] at hlower
      have hsame : c.toLower = c := Char.toNat_inj.mp hlower
      have hlower : u.lowerText [c] = [c.toLower] :=
        u.lowerText_ascii fun d hd => (List.mem_singleton.mp hd).symm ▸ hascii
      have hnone : casefoldEntry u targets c.toNat = none := by
        rw [casefoldEntry, if_pos hvalid, hchar, hlower]
        simp [hsame]
      rw [h, hnone]
      rfl
  · rw [if_neg hascii, if_neg (by omega), h, casefoldEntry, if_pos hvalid, hchar]
    match u.lowerText [c] with
    | [] => rfl
    | [lower] =>
        by_cases hmem : lower ∈ targets
        · by_cases heq : c = lower
          · simp [← heq]
          · simp [hmem, heq]
        · simp [hmem]
    | _ :: _ :: _ => rfl

/-- A character that lower-casing keeps one character of the same kind. Case
folding of ASCII is built in, and neither small sigma is in a keyword. -/
def Foldable (u : Unicode) (c : Char) : Prop :=
  c.toNat < 128 ∨ c = Unicode.capitalSigma ∨
    ∃ lower, u.lower c = [lower] ∧ lower ≠ ' ' ∧ wordPart u lower = wordPart u c

theorem lowerText_singleton {c : Char} (h : c ≠ Unicode.capitalSigma) :
    u.lowerText [c] = u.lower c := by
  rw [Unicode.lowerText, Unicode.lowerFrom, Unicode.lowerFrom, Unicode.lowerAt, if_neg h,
    List.append_nil]

theorem lowerText_sigma : u.lowerText [Unicode.capitalSigma] = [Unicode.smallSigma] := rfl

section Fold
variable {targets : List Char} (hascii : ∀ t ∈ targets, t.toNat < 128)
include hascii

/-- The fold of a capital sigma: none. -/
theorem foldChar_sigma : foldChar u targets Unicode.capitalSigma = Unicode.capitalSigma := by
  have hnot : targets.contains Unicode.smallSigma = false := by
    rw [List.contains_eq_mem, decide_eq_false_iff_not]
    exact fun hmem => absurd (hascii _ hmem) (by decide)
  have hbig : ¬Unicode.capitalSigma.toNat < 128 := by decide
  rw [foldChar, if_neg hbig, lowerText_sigma]
  dsimp only
  rw [hnot]
  rfl

/-- Two characters that no keyword tells apart. -/
def Alike (targets : List Char) (a b : Char) : Prop :=
  a = b ∨ a ∉ ' ' :: targets ∧ b ∉ ' ' :: targets

theorem not_target {c : Char} (h : ¬c.toNat < 128) : c ∉ ' ' :: targets := by
  rw [List.mem_cons, not_or]
  refine ⟨?_, fun hmem => h (hascii c hmem)⟩
  rintro rfl
  exact h (by decide)

/-- **A character of a text**, folded by both. -/
theorem alike_lowerAt {c : Char} (h : Foldable u c) (before after : List Char) :
    ∃ lower, u.lowerAt before c after = [lower] ∧ Alike targets (foldChar u targets c) lower := by
  by_cases hc : c.toNat < 128
  · refine ⟨_, u.lowerAt_ascii hc before after, .inl ?_⟩
    rw [foldChar, if_pos hc]
  rcases h with hc' | rfl | ⟨lower, hlower, hspace, -⟩
  · exact absurd hc' hc
  · rw [foldChar_sigma hascii, Unicode.lowerAt, if_pos rfl]
    split_ifs
    · exact ⟨_, rfl, .inr ⟨not_target hascii hc, not_target hascii (by decide)⟩⟩
    · exact ⟨_, rfl, .inr ⟨not_target hascii hc, not_target hascii (by decide)⟩⟩
  · by_cases hsigma : c = Unicode.capitalSigma
    · subst hsigma
      rw [foldChar_sigma hascii, Unicode.lowerAt, if_pos rfl]
      split_ifs
      · exact ⟨_, rfl, .inr ⟨not_target hascii hc, not_target hascii (by decide)⟩⟩
      · exact ⟨_, rfl, .inr ⟨not_target hascii hc, not_target hascii (by decide)⟩⟩
    · refine ⟨lower, by rw [Unicode.lowerAt, if_neg hsigma, hlower], ?_⟩
      rw [foldChar, if_neg hc, lowerText_singleton hsigma, hlower]
      dsimp only
      by_cases hmem : targets.contains lower = true
      · rw [if_pos hmem]
        exact .inl rfl
      · rw [if_neg hmem]
        refine .inr ⟨not_target hascii hc, ?_⟩
        rw [List.mem_cons, not_or]
        exact ⟨hspace, by simpa using hmem⟩

/-- **A text**, folded by the matcher and lower-cased by the reference. -/
theorem alike_lowerText {text : List Char} (h : ∀ c ∈ text, Foldable u c) :
    List.Forall₂ (Alike targets) (text.map (foldChar u targets)) (u.lowerText text) := by
  have hfrom : ∀ before, List.Forall₂ (Alike targets) (text.map (foldChar u targets))
      (u.lowerFrom before text) := by
    induction text with
    | nil => exact fun _ => .nil
    | cons c cs ih =>
        intro before
        obtain ⟨lower, hlower, halike⟩ := alike_lowerAt hascii (h c (by simp)) before cs
        rw [List.map_cons, Unicode.lowerFrom, hlower]
        exact .cons halike (ih (fun d hd => h d (by simp [hd])) (c :: before))
  exact hfrom []

/-- Folding leaves word characters word characters. -/
theorem wordPart_foldChar {c : Char} (h : Foldable u c) :
    wordPart u (foldChar u targets c) = wordPart u c := by
  by_cases hc : c.toNat < 128
  · have hkind : (c.toLower.isAlphanum || c.toLower == '_' || c.toLower == '-')
        = (c.isAlphanum || c == '_' || c == '-') :=
      Unicode.forall_ascii (P := fun c => (c.toLower.isAlphanum || c.toLower == '_'
        || c.toLower == '-') = (c.isAlphanum || c == '_' || c == '-')) (by decide) hc
    have hlt : c.toLower.toNat < 128 := by
      rw [toNat_toLower hc]
      split_ifs <;> omega
    rw [foldChar, if_pos hc, wordPart, wordPart, Unicode.wordChar, Unicode.wordChar,
      u.alnum_ascii _ hlt, u.alnum_ascii c hc, hkind]
  rcases h with hc' | rfl | ⟨lower, hlower, -, hpart⟩
  · exact absurd hc' hc
  · rw [foldChar_sigma hascii]
  · by_cases hsigma : c = Unicode.capitalSigma
    · rw [hsigma, foldChar_sigma hascii]
    · rw [foldChar, if_neg hc, lowerText_singleton hsigma, hlower]
      dsimp only
      split_ifs
      · exact hpart
      · rfl

end Fold

/-! ## Word characters -/

/-- `chr(codepoint).isalnum()`. A surrogate is no character. -/
def isalnumAt (u : Unicode) (codepoint : Nat) : Bool :=
  decide codepoint.isValidChar && u.alnum (Char.ofNat codepoint)

/-- A matcher compiled with the word characters of the interpreter. -/
def SameWordChars (u : Unicode) (m : JaccardMaps) : Prop :=
  ∀ c : Char, 128 ≤ c.toNat → jaccardWordChar m c.toNat = u.alnum c

/-- **The generated bitmap** gives the matcher the word characters. -/
theorem sameWordChars_generated {words : List Nat}
    (hbuilt : wordBitmap (wordRanges (isalnumAt u)) = some words) {m : JaccardMaps}
    (hm : m.wordBitmap = fun i => words.getD i 0) : SameWordChars u m := by
  obtain ⟨-, hcovered⟩ := (scanned_range (isalnumAt u) (maxUnicode + 1)).close
  change ∀ c, Covered (wordRanges (isalnumAt u)) c ↔ _ at hcovered
  obtain ⟨words', hbuilt', -, -, hbits⟩ := wordBitmap_ok fun c hc => ((hcovered c).mp hc).1
  obtain rfl := Option.some.inj (hbuilt.symm.trans hbuilt')
  intro c hc
  have hle := toNat_le_maxUnicode c
  have hvalid : c.toNat.isValidChar := c.valid
  have hword := word_in_bitmap hle
  have hmax : unicodeWordMax = maxUnicode := rfl
  have hlookup : bitmapLookup words c.toNat = isalnumAt u c.toNat := by
    rw [Bool.eq_iff_iff, hbits, hcovered]
    exact and_iff_right hle
  -- no character is above the table, so both bound checks pass
  rw [jaccardWordChar, if_neg (by omega), if_neg (by omega)]
  dsimp only
  rw [if_neg (by omega), hm]
  change bitmapLookup words c.toNat = _
  rw [hlookup, isalnumAt, decide_eq_true hvalid, Bool.true_and, Char.ofNat_toNat]

/-- `xdp_jaccard_word_char` is the class the reference splits at. -/
theorem wordChar_eq {m : JaccardMaps} (h : SameWordChars u m) (c : Char) :
    jaccardWordChar m c.toNat = wordPart u c := by
  rw [wordPart, Unicode.wordChar]
  by_cases hc : c.toNat < 128
  · -- the ASCII class is spelled out in the matcher
    rw [jaccardWordChar, if_pos hc, u.alnum_ascii c hc]
    exact Unicode.forall_ascii (P := fun c => ((97 ≤ c.toNat && c.toNat ≤ 122)
      || (65 ≤ c.toNat && c.toNat ≤ 90) || (48 ≤ c.toNat && c.toNat ≤ 57) || c.toNat == 95
      || c.toNat == 45) = (c.isAlphanum || c == '_' || c == '-')) (by decide) hc
  · have hunderscore : (c == '_') = false := by
      rw [beq_eq_false_iff_ne]
      rintro rfl
      exact hc (by decide)
    have hdash : (c == '-') = false := by
      rw [beq_eq_false_iff_ne]
      rintro rfl
      exact hc (by decide)
    rw [h c (by omega), hunderscore, hdash, Bool.or_false, Bool.or_false]

end Xsr.Signals
