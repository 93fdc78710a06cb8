import Xsr.Signals.Oracle
import Xsr.Signals.Resynchronisation
import Xsr.Signals.Tracking

/-!
# RuleResults — the rules of a streamed text

Read code point by code point, a text leaves every rule with the result of
`rule_matches`. The exception is a single character, as a word or as the
text: the matcher counts two of its three trigrams, so its similarity to a
keyword comes out wrong.
-/

namespace Xsr.Signals

open Control Extraction Kernel Lib Policy

/-! ## A streamed text -/

section Streamed
variable (m : JaccardMaps) (g : QueryGrams) (text : List Char)

/-- `xdp_jaccard_score_codepoint` on every code point of a text, then
`xdp_jaccard_finish`. -/
def streamed : QueryGrams × JaccardState :=
  let init := jaccardInit m g
  let read := jaccardScoreCodepoints m init.1 init.2 (text.map Char.toNat)
  jaccardFinish m read.1 read.2

variable {m g text}

/-- A streamed text and its bytes leave the same matches. -/
theorem streamed_found (ha : Accounted g) (hd : TokensDistinct (streamed m g text).1) :
    (streamed m g text).2.toJaccardMatches = foundOf m text := by
  have hread : TokensDistinct
      (jaccardScoreCodepoints m (jaccardInit m g).1 (jaccardInit m g).2 (text.map Char.toNat)).1 :=
    hd.earlier (Later.finish m _ _)
  have hinit := Tracks.init ha (hread.earlier (Later.scoreCodepoints m _ _ _))
  obtain ⟨htracks, -, hutf8⟩ := hinit.codepoints _ hread
  have hbytes :=
    BytesTracked.finish (b := ⟨(jaccardInit m g).2.toUtf8Scan, _⟩) ⟨htracks, hutf8⟩ hd
  rw [streamed, hbytes.1, foundOf, finish_encodeUtf8, ByteMatch.finish,
    if_pos (jaccardInit_remaining m g)]

end Streamed

/-! ## Texts without single characters -/

/-- Lower-casing keeps a character that becomes one character what it is: it
turns into no blank, and into a word character just when it is one. -/
def LowersInKind (u : Unicode) : Prop :=
  ∀ c lower, u.lower c = [lower] → 128 ≤ c.toNat → lower ≠ ' ' ∧ wordPart u lower = wordPart u c

theorem LowersInKind.foldable {u : Unicode} (h : LowersInKind u) {c : Char}
    (hc : (u.lowerText [c]).length = 1) : Foldable u c := by
  by_cases hascii : c.toNat < 128
  · exact .inl hascii
  · by_cases hsigma : c = Unicode.capitalSigma
    · exact .inr (.inl hsigma)
    · rw [lowerText_singleton hsigma] at hc
      obtain ⟨lower, hlower⟩ := List.length_eq_one_iff.mp hc
      exact .inr (.inr ⟨lower, hlower, h c lower hlower (not_lt.mp hascii)⟩)

section Results
variable {u : Unicode} (P : JaccardPolicy u)

/-- A single character, as a word or as the text, has no trigram of a
keyword. -/
def SinglesApart (text : List Char) : Prop :=
  ∀ piece ∈ text :: words u text, piece.length = 1 →
    ∀ entry ∈ P.routes, ∀ keyword ∈ entry.keywords,
      Counter.same (wordGrams u piece jaccardArity P.caseSensitive)
        (wordGrams u keyword.toList jaccardArity P.caseSensitive) = 0

instance (text : List Char) : Decidable (SinglesApart P text) := by
  unfold SinglesApart
  infer_instance

/-- The matches a text should leave: every rule has the result of
`rule_matches`, and a keyword is marked when it matches a word or the
text. -/
structure FollowsReference (found : JaccardMatches) (text : List Char) : Prop where
  rules : ∀ (i : Nat) (entry : ValidRoute) rule, P.routes[i]? = some entry →
    P.maps.rules i = some rule → jaccardRuleTest found i rule = ruleMatches u P.caseSensitive text entry
  keywords : ∀ (i : Nat) (entry : ValidRoute) row, P.routes[i]? = some entry →
    P.header.rules[i]? = some row → ∀ keyword ∈ entry.keywords, ∀ k, KeywordFor P row k keyword →
      (Marked found k ↔ textMatches u P.caseSensitive row.thresholdMilli text keyword = true)

variable {P}

/-- A piece of a short text is compared alike when it is no single
character. -/
theorem SinglesApart.comparable {text piece : List Char} (h : SinglesApart P text)
    (hpiece : piece ∈ text :: words u text) (hne : piece ≠ []) {limit : Nat}
    (hlimit : piece.length + 2 ≤ limit)
    (hfoldable : P.caseSensitive = false → ∀ c ∈ piece, Foldable u c) {entry : ValidRoute}
    (hentry : entry ∈ P.routes) {keyword : String} (hkeyword : keyword ∈ entry.keywords)
    (threshold : Int) :
    Comparable limit threshold (wordGrams u piece jaccardArity P.caseSensitive)
      (wordGrams u keyword.toList jaccardArity P.caseSensitive) := by
  by_cases hone : piece.length = 1
  · exact .inl (h piece hpiece hone entry hentry keyword hkeyword)
  · have hpos := List.length_pos_iff.mpr hne
    have hlength := length_wordGrams_foldable hfoldable
    exact .inr ⟨by omega, .inl (by omega)⟩

/-- **The rules of a streamed text.** Under every policy both tools accept,
loaded with the word characters of the interpreter, a text of at most 126
characters in words of at most 30 leaves the results of `rule_matches`, when
no single character in it shares a trigram with a keyword. -/
theorem rules_follow_unless_single (hwords : SameWordChars u P.maps) (hkind : LowersInKind u)
    {text : List Char} (hne : text ≠ []) (htext : text.length ≤ 126)
    (hword : ∀ word ∈ words u text, word.length ≤ 30)
    (hlower : ∀ c ∈ text, (u.lowerText [c]).length = 1) (hsingles : SinglesApart P text)
    {g : QueryGrams} (ha : Accounted g) (hd : TokensDistinct (streamed P.maps g text).1) :
    FollowsReference P (streamed P.maps g text).2.toJaccardMatches text := by
  have hfoldable : ∀ c ∈ text, Foldable u c := fun c hc => hkind.foldable (hlower c hc)
  have hcompares : Compares P text := by
    refine ⟨fun _ => hfoldable, fun entry hentry keyword hkeyword threshold _ word hmem => ?_,
      fun entry hentry keyword hkeyword threshold _ => ?_⟩
    · have hnonempty : word ≠ [] := by
        have := (List.mem_filter.mp hmem).2
        rintro rfl
        cases this
      exact hsingles.comparable (List.mem_cons_of_mem _ hmem) hnonempty
        (Nat.add_le_add_right (hword word hmem) 2)
        (fun _ c hc => hfoldable c (mem_of_mem_words hmem hc)) hentry hkeyword threshold
    · exact hsingles.comparable List.mem_cons_self hne (Nat.add_le_add_right htext 2)
        (fun _ => hfoldable) hentry hkeyword threshold
  rw [streamed_found ha hd]
  constructor
  · intro i entry rule hentry hrule
    obtain ⟨row, hrow, hentryRow⟩ := entryRow P hentry
    obtain rfl := Option.some.inj ((P.at_place hrow).1.symm.trans hrule)
    exact ruleTest_oracle P hwords hcompares hentry hrow hentryRow
  · intro i entry row hentry hrow keyword hkeyword k hfor
    obtain ⟨row', hrow', hentryRow⟩ := entryRow P hentry
    obtain rfl := Option.some.inj (hrow'.symm.trans hrow)
    exact marked_iff P hwords hcompares (List.mem_of_getElem? hentry) hentryRow.threshold
      hkeyword hfor

end Results

/-! ## A text with a single character -/

/-- A map just loaded, whose random source counts. -/
def countingGrams : QueryGrams := ⟨fun _ => none, fun i => (0, UInt32.ofNat i), 0⟩

/-- Its first 16 tokens are distinct. -/
theorem counting_distinct {g : QueryGrams} (hlater : Later countingGrams g)
    (hdrawn : g.drawn ≤ 16) : TokensDistinct g := by
  have htokens : ∀ j < 16, ∀ i < j,
      queryToken countingGrams.prandom i ≠ queryToken countingGrams.prandom j := by decide
  intro i j hij hj
  rw [hlater.prandom]
  exact htokens j (hj.trans_le hdrawn) i hij

/-- The token map a streamed text leaves is a later one. -/
theorem Later.streamed (m : JaccardMaps) (g : QueryGrams) (text : List Char) :
    Later g (streamed m g text).1 :=
  ((Later.init m g).trans (.scoreCodepoints m _ _ _)).trans (.finish m _ _)

theorem ascii_lowersInKind : LowersInKind Unicode.asciiTables := by
  intro c lower hlower hc
  have hsame : c.toLower = c := by
    rw [Char.toLower, dif_neg]
    rintro ⟨-, hle⟩
    have hle : c.toNat ≤ 90 := hle
    omega
  obtain rfl : c = lower := by
    have := List.cons.inj hlower
    rw [← this.1, hsame]
  refine ⟨?_, rfl⟩
  rintro rfl
  exact absurd hc (by decide)

theorem ascii_lower_single (c : Char) : (Unicode.asciiTables.lowerText [c]).length = 1 := by
  rw [Unicode.lowerText, Unicode.lowerFrom, Unicode.lowerFrom, Unicode.lowerAt]
  split_ifs <;> rfl

/-- A letter that is no part of the keyword, before the keyword. -/
theorem rules_follow_unless_single_compose :
    FollowsReference composing
        (streamed composing.maps countingGrams "i compose".toList).2.toJaccardMatches
        "i compose".toList ∧
      jaccardRuleTest (streamed composing.maps countingGrams "i compose".toList).2.toJaccardMatches
        0 (jaccardRule (plainRule 0 .coding)) = true :=
  ⟨rules_follow_unless_single (sameWordChars_ascii rfl) ascii_lowersInKind (by decide) (by decide)
      (by decide +kernel) (fun c _ => ascii_lower_single c) (by decide +kernel)
      (.of_empty fun _ => rfl)
      (counting_distinct (.streamed _ _ _) (by decide +kernel)),
    by decide +kernel⟩

/-- One signal for the word `a`, which has to match exactly. -/
def letterPolicy : Dict :=
  [("routes", .list [.dict [("name", .str "letter"), ("route", .str "coding"),
    ("method", .str "ngram"), ("keywords", .list [.str "a"]), ("case_sensitive", .bool true),
    ("ngram_threshold", .float ⟨"1.0", some 1, true⟩)]])]

/-- The header of `letterPolicy`. -/
def letterHeader : JaccardHeader :=
  ⟨[⟨1000, 0, .coding, .or, 3, true, 1⟩],
    [⟨0, [[32, 32, 97], [32, 97, 32], [97, 32, 32]], [1, 1, 1], 3⟩], []⟩

theorem letter_parsed :
    parseJaccard Unicode.asciiTables letterPolicy false = .ok letterHeader := by
  have hloop : [PyVal.dict [("name", .str "letter"), ("route", .str "coding"),
      ("method", .str "ngram"), ("keywords", .list [.str "a"]), ("case_sensitive", .bool true),
      ("ngram_threshold", .float ⟨"1.0", some 1, true⟩)]].foldlM
      (parseSignal Unicode.asciiTables false ⟨[], []⟩) ⟨[], [], [], none⟩ =
      .ok ⟨letterHeader.rules, letterHeader.keywords, [], some true⟩ := rfl
  exact parseJaccard_of rfl rfl hloop (casefoldEntries_nil _)

/-- The policy of the letter, loaded. -/
def letter : JaccardPolicy Unicode.asciiTables where
  policy := letterPolicy
  caseSensitive := true
  routes := [⟨"coding", 0, ["a"], "OR", "ngram", 3, .float ⟨"1.0", some 1, true⟩,
    .float ⟨"0.1", some 0, true⟩⟩]
  header := letterHeader
  wordBitmap := fun _ => 0
  maps := (populateJaccardPolicy letterHeader fun _ => 0).get rfl
  validated := rfl
  parsed := letter_parsed
  loaded := (Option.some_get _).symm

/-- **A single letter is missed**: the text `a` is the keyword, but the
matcher counts two of its three trigrams. -/
theorem rules_follow_fails :
    SameWordChars Unicode.asciiTables letter.maps ∧ LowersInKind Unicode.asciiTables ∧
      Accounted countingGrams ∧ TokensDistinct (streamed letter.maps countingGrams ['a']).1 ∧
      ¬ FollowsReference letter (streamed letter.maps countingGrams ['a']).2.toJaccardMatches
        ['a'] := by
  refine ⟨sameWordChars_ascii rfl, ascii_lowersInKind, .of_empty fun _ => rfl,
    counting_distinct (.streamed _ _ _) (by decide +kernel), fun h => ?_⟩
  have hrule := h.rules 0 _ (jaccardRule ⟨1000, 0, .coding, .or, 3, true, 1⟩) rfl rfl
  exact absurd hrule (by decide +kernel)

end Xsr.Signals
