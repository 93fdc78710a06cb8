import Xsr.Policy.KeywordBlocks
import Xsr.Policy.Operators
import Xsr.Policy.Precedence
import Xsr.Signals.Similarity

/-!
# Oracle — the route of a text under an n-gram policy

The oracle matches the words of a text and then the text itself against the
keywords of every entry, and walks the entries by priority. The kernel
counts the keywords it has marked for each rule and scans its rule table. A
text whose words both compare alike gets the same route from both.
-/

namespace Xsr.Signals

open Control Extraction Kernel Lib Policy

/-! ## The oracle's results -/

/-- `rule_matches` of `jaccard_reference.py` for an entry. The set `matched`
is a list without repetitions. -/
def ruleMatches (u : Unicode) (caseSensitive : Bool) (text : List Char) (entry : ValidRoute) :
    Bool :=
  match referenceThreshold u entry.ngramThreshold with
  | .error _ => false
  | .ok threshold =>
      let isMatch (piece : List Char) (keyword : String) :=
        wordMatches u piece keyword.toList entry.ngramArity.toNat threshold caseSensitive
      let matched := entry.keywords.dedup.filter fun keyword =>
        (words u text).any fun word => isMatch word keyword
      let matched :=
        -- the whole text is tried only for the keywords no word has matched
        if matched.length < entry.keywords.length then
          matched ++ entry.keywords.dedup.filter fun keyword =>
            !matched.contains keyword && isMatch text keyword
        else matched
      let operator := pyUpper u entry.operator
      (operator == "OR" && !matched.isEmpty)
        || (operator == "AND" && matched.length == entry.keywords.length)
        || (operator == "NOR" && matched.isEmpty)

/-- A keyword matches by a word of the text or by the text. -/
def textMatches (u : Unicode) (caseSensitive : Bool) (threshold : Int) (text : List Char)
    (keyword : String) : Bool :=
  (words u text).any (fun word =>
      wordMatches u word keyword.toList jaccardArity threshold caseSensitive)
    || wordMatches u text keyword.toList jaccardArity threshold caseSensitive

/-- **Matching in two stages** finds what matches at either. -/
theorem matched_perm {keywords : List String} (hnodup : keywords.Nodup)
    (first second : String → Bool) :
    (if (keywords.dedup.filter first).length < keywords.length then
        keywords.dedup.filter first ++ keywords.dedup.filter fun keyword =>
          !(keywords.dedup.filter first).contains keyword && second keyword
      else keywords.dedup.filter first).Perm
      (keywords.filter fun keyword => first keyword || second keyword) := by
  rw [hnodup.dedup]
  split_ifs with hsome
  · have hrest : keywords.filter (fun keyword =>
          !(keywords.filter first).contains keyword && second keyword)
        = (keywords.filter fun keyword => first keyword || second keyword).filter
          fun keyword => !first keyword := by
      rw [List.filter_filter]
      refine List.filter_congr fun keyword hkeyword => ?_
      have hcontains : (keywords.filter first).contains keyword = first keyword := by
        rw [List.contains_eq_mem, Bool.eq_iff_iff, decide_eq_true_eq, List.mem_filter]
        exact and_iff_right hkeyword
      rw [hcontains]
      cases first keyword <;> cases second keyword <;> rfl
    have hfirst : keywords.filter first
        = (keywords.filter fun keyword => first keyword || second keyword).filter first := by
      rw [List.filter_filter]
      refine List.filter_congr fun keyword _ => ?_
      cases first keyword <;> cases second keyword <;> rfl
    rw [hrest, hfirst]
    exact List.filter_append_perm _ _
  · -- everything matched at the first stage
    have hall : ∀ keyword ∈ keywords, first keyword = true :=
      List.length_filter_eq_length_iff.mp
        (Nat.le_antisymm (List.length_filter_le _ _) (Nat.le_of_not_lt hsome))
    refine List.Perm.of_eq (List.filter_congr fun keyword hkeyword => ?_)
    rw [hall keyword hkeyword, Bool.true_or]

/-- The results of the oracle by operator. -/
theorem ruleMatches_eq {u : Unicode} {caseSensitive : Bool} {text : List Char} {entry : ValidRoute}
    {threshold : Int} {operator : Operator}
    (hthreshold : referenceThreshold u entry.ngramThreshold = .ok threshold)
    (harity : entry.ngramArity = jaccardArity)
    (hoperator : operatorConstant entry.operator = some operator)
    (hnodup : entry.keywords.Nodup) :
    ruleMatches u caseSensitive text entry
      = operator.results entry.keywords (textMatches u caseSensitive threshold text) := by
  have hperm := matched_perm hnodup
    (fun keyword => (words u text).any fun word =>
      wordMatches u word keyword.toList jaccardArity threshold caseSensitive)
    fun keyword => wordMatches u text keyword.toList jaccardArity threshold caseSensitive
  have harity' : entry.ngramArity.toNat = jaccardArity := by
    rw [harity]
    rfl
  unfold ruleMatches
  rw [hthreshold, operatorConstant_name hoperator]
  dsimp only
  rw [pyUpper_operatorName, harity', hperm.isEmpty_eq, hperm.length_eq]
  have hor : ∀ b c : Bool, ((("OR" : String) == "OR" && !b) || (("OR" : String) == "AND" && c)
      || (("OR" : String) == "NOR" && b)) = !b := by decide
  have hand : ∀ b c : Bool, ((("AND" : String) == "OR" && !b) || (("AND" : String) == "AND" && c)
      || (("AND" : String) == "NOR" && b)) = c := by decide
  have hnor : ∀ b c : Bool, ((("NOR" : String) == "OR" && !b) || (("NOR" : String) == "AND" && c)
      || (("NOR" : String) == "NOR" && b)) = b := by decide
  rw [operator.results_filter]
  cases operator with
  | or => exact hor _ _
  | and => exact hand _ _
  | nor => exact hnor _ _

/-! ## The rule test -/

/-- **The rule test** looks at the marks of the rule's keywords. -/
theorem ruleTest_marks {u : Unicode} (p : LoadedPolicy u) {i : Nat} {row : RuleRow}
    (hi : i < jaccardMaxRules) (hcount : (ruleKeywords p.header i).length = row.keywordCount)
    {s : JaccardMatches} (h : Matching p.maps s) :
    jaccardRuleTest s i (jaccardRule row)
      = row.operator.results (ruleKeywords p.header i) fun k => decide (Marked s k) := by
  -- the byte of the rule has room for every keyword it counts
  have hbyte := (h.counts p).byte p.keywords_le hi
  have hnodup : (ruleKeywords p.header i).Nodup := List.nodup_range.filter _
  have hmarked : markedCount (ruleOf p.header) p.header.keywords.length s i
      = ((ruleKeywords p.header i).filter fun k => decide (Marked s k)).length := by
    rw [← List.toFinset_card_of_nodup (hnodup.filter _), markedCount]
    refine congrArg Finset.card (Finset.ext fun k => ?_)
    rw [Finset.mem_filter, Finset.mem_range, List.mem_toFinset, List.mem_filter, ruleKeywords,
      List.mem_filter, List.mem_range, decide_eq_true_eq, decide_eq_true_eq, and_assoc]
  have hle : row.keywordCount ≤ 16 := by
    rw [← hcount]
    refine (List.length_filter_le _ _).trans ?_
    rw [List.length_range]
    exact p.keywords_le
  have hfield : (jaccardRule row).keywordCount = row.keywordCount := by
    show cU8 row.keywordCount = _
    unfold cU8
    omega
  have hoperator : (jaccardRule row).operator = row.operator := rfl
  rw [row.operator.results_filter]
  unfold jaccardRuleTest
  dsimp only
  rw [hbyte, hmarked, hfield, hoperator, hcount]
  generalize (ruleKeywords p.header i).filter (fun k => decide (Marked s k)) = marked
  cases row.operator with
  | or => cases marked <;> rfl
  | and => rfl
  | nor => cases marked <;> rfl

/-! ## Entries and rules -/

section Entries
variable {u : Unicode} (P : JaccardPolicy u)

/-- What the loader and the matcher see of the policy. -/
def loadedOf : LoadedPolicy u :=
  ⟨P.policy, false, P.header, P.parsed, P.wordBitmap, P.maps, P.loaded⟩

/-- Number `k` is a keyword of the rule `row` with this text. -/
def KeywordFor (row : RuleRow) (k : Nat) (keyword : String) : Prop :=
  ∃ K : KeywordAt u P.header k, K.rule = row ∧ K.normalized = keyword.toList

/-- An entry of the oracle and the rule at its place. -/
structure EntryRow (i : Nat) (entry : ValidRoute) (row : RuleRow) : Prop where
  threshold : referenceThreshold u entry.ngramThreshold = .ok row.thresholdMilli
  arity : entry.ngramArity = jaccardArity
  operator : operatorConstant entry.operator = some row.operator
  distinct : entry.keywords.Nodup
  count : (ruleKeywords P.header i).length = row.keywordCount
  numbered : ∀ k ∈ ruleKeywords P.header i, ∃ keyword ∈ entry.keywords, KeywordFor P row k keyword
  texts : ∀ keyword ∈ entry.keywords, ∃ k ∈ ruleKeywords P.header i, KeywordFor P row k keyword

/-- The row of a keyword, from its text. -/
theorem keywordFor {caseSensitive : Bool} {i k : Nat} {rule : RuleRow} {value : PyVal}
    {keyword : String} {row : KeywordRow} (hrule : P.header.rules[i]? = some rule)
    (hcase : rule.caseSensitive = caseSensitive) (hrow : P.header.keywords[k]? = some row)
    (hclean : Cleaned u caseSensitive value keyword)
    (hkeyword : KeywordOf u caseSensitive i value row) : KeywordFor P rule k keyword := by
  subst hcase
  have hid := gramCounts_ruleId hkeyword.grams
  obtain ⟨normalized, hnormalized, -, -⟩ := gramCounts_ok hkeyword.grams
  refine ⟨⟨row, rule, (value.text u).toList, normalized, hrow, ⟨?_, ?_, ?_⟩, hnormalized⟩, rfl, ?_⟩
  · rw [hid]
    exact hrule
  · exact fun hnil => hkeyword.nonempty (String.toList_inj.mp hnil)
  · rw [hid]
    exact hkeyword.grams
  · show normalized = keyword.toList
    rw [normalize_ok hnormalized, hclean.normalized]
    split_ifs
    · rfl
    · rw [pyLower, String.toList_ofList]

/-- **Entry by entry.** -/
theorem entryRow {i : Nat} {entry : ValidRoute} (hentry : P.routes[i]? = some entry) :
    ∃ row, P.header.rules[i]? = some row ∧ EntryRow P i entry row := by
  obtain ⟨signals, d, hvalid, hparsed⟩ := P.signals_of
  obtain ⟨blocks, hblocks⟩ := parseJaccard_blocks hvalid.read P.parsed
  -- the entry and the rule come from one signal, the keyword rows from its block
  obtain ⟨signal, hsignal, hentryOf⟩ := forall₂_getElem? hvalid.validated hentry
  obtain ⟨row, hrow, hruleOf⟩ := forall₂_getElem?_left hparsed.ruleOf hsignal
  have hlt : i < blocks.length := hblocks.count.symm ▸ (List.getElem?_eq_some_iff.mp hsignal).1
  have hblock := List.getElem?_eq_getElem hlt
  obtain ⟨values, hvalues, hrows⟩ := hblocks.block i signal _ hsignal hblock
  obtain ⟨values', hvalues', hclean⟩ := hentryOf.keywords
  obtain rfl := Option.some.inj (hvalues.symm.trans hvalues')
  obtain ⟨values', hvalues', hcount⟩ := hruleOf.keywordCount
  obtain rfl := Option.some.inj (hvalues.symm.trans hvalues')
  have hmem : signal ∈ signals := List.mem_of_getElem? hsignal
  have harity := hblocks.arity signal hmem
  rw [hentryOf.arity] at harity
  -- the keyword at a place of the block
  have hplace : ∀ (j : Nat) (hj : j < blocks[i].length), ∃ keyword,
      entry.keywords[j]? = some keyword ∧
        KeywordFor P row ((blocks.take i).flatten.length + j) keyword := by
    intro j hj
    obtain ⟨value, hvalue, hkeyword⟩ := forall₂_getElem? hrows (List.getElem?_eq_getElem hj)
    obtain ⟨keyword, hat, hcleaned⟩ := forall₂_getElem?_left hclean hvalue
    exact ⟨keyword, hat, keywordFor P hrow hruleOf.caseSensitive (hblocks.row_at hblock hj)
      hcleaned hkeyword⟩
  refine ⟨row, hrow, ?threshold, Except.ok.inj harity, ?operator, ?distinct, ?count, ?numbered,
    ?texts⟩
  case threshold =>
    rw [hentryOf.threshold]
    exact thresholdMilli_reference hruleOf.threshold
  case operator =>
    rw [hentryOf.operator]
    exact hruleOf.operator
  case distinct =>
    exact (List.nodup_flatMap.mp hvalid.distinct).1 entry (List.mem_of_getElem? hentry)
  case count => rw [hblocks.length_ruleKeywords hblock, ← hrows.length_eq, hcount]
  case numbered =>
    intro k hk
    obtain ⟨j, hj, rfl⟩ := (hblocks.mem_ruleKeywords hblock k).mp hk
    obtain ⟨keyword, hat, hfor⟩ := hplace j hj
    exact ⟨keyword, List.mem_of_getElem? hat, hfor⟩
  case texts =>
    intro keyword hkeyword
    obtain ⟨j, hj, hat⟩ := List.mem_iff_getElem.mp hkeyword
    have hj' : j < blocks[i].length := by
      rw [← hrows.length_eq, hclean.length_eq]
      exact hj
    obtain ⟨keyword', hat', hfor⟩ := hplace j hj'
    rw [List.getElem?_eq_getElem hj, hat] at hat'
    obtain rfl := Option.some.inj hat'
    exact ⟨_, (hblocks.mem_ruleKeywords hblock _).mpr ⟨j, hj', rfl⟩, hfor⟩

/-! ## The folds of a policy -/

/-- The matcher of the policy folds to `targets`, which the keywords are
made of. -/
structure Folds (targets : List Char) : Prop where
  ascii : ∀ t ∈ targets, t.toNat < 128
  fold : ∀ c : Char, foldCodepoint P.maps c.toNat
    = (if P.caseSensitive then c else foldChar u targets c).toNat
  keywords : P.caseSensitive = false → ∀ entry ∈ P.routes, ∀ keyword ∈ entry.keywords,
    (∀ c ∈ keyword.toList, c ∈ targets) ∧ u.lowerText keyword.toList = keyword.toList

theorem policyCaseSensitive_eq : policyCaseSensitive P.maps = P.caseSensitive := by
  obtain ⟨signals, d, hvalid, hparsed⟩ := P.signals_of
  have hconfig := (populateJaccard_rules P.loaded).1
  rw [policyCaseSensitive, hconfig]
  show (jaccardConfig P.header).caseSensitive = _
  rw [jaccardConfig]
  dsimp only
  cases hrules : P.header.rules with
  | nil =>
      -- a validated policy has a signal, and so a rule
      have hlen := hparsed.ruleOf.length_eq
      rw [hrules, List.length_nil] at hlen
      exact absurd (List.length_eq_zero_iff.mp hlen) hvalid.nonempty
  | cons rule rules =>
      have hrule : P.header.rules[0]? = some rule := by rw [hrules]; rfl
      obtain ⟨signal, hsignal, hruleOf⟩ := forall₂_getElem? hparsed.ruleOf hrule
      dsimp only
      rw [hruleOf.caseSensitive]
      exact hvalid.sameCase signal (List.mem_of_getElem? hsignal)

omit P in
theorem cleaned_small {caseSensitive : Bool} {value : PyVal} {keyword : String}
    (h : Cleaned u caseSensitive value keyword) : ∀ c ∈ (value.text u).toList, c.toNat < 128 :=
  fun c hc => (h.ascii c hc).2.trans_lt (by decide)

/-- **The case folds of an accepted policy.** -/
theorem folds : ∃ targets, Folds P targets := by
  obtain ⟨signals, d, hvalid, hparsed⟩ := P.signals_of
  obtain ⟨blocks, hblocks⟩ := parseJaccard_blocks hvalid.read P.parsed
  refine ⟨(signals.flatMap (foldedTexts u)).flatMap u.lowerText, ?_, ?_, ?_⟩
  · -- only case-insensitive signals add texts, and their keywords are ASCII
    intro t ht
    obtain ⟨text, htext, ht⟩ := List.mem_flatMap.mp ht
    obtain ⟨signal, hsignal, htext⟩ := List.mem_flatMap.mp htext
    obtain ⟨i, hi⟩ := List.mem_iff_getElem?.mp hsignal
    obtain ⟨entry, -, hentryOf⟩ := forall₂_getElem?_left hvalid.validated hi
    obtain ⟨values, hvalues, hclean⟩ := hentryOf.keywords
    rw [foldedTexts, hvalues] at htext
    split_ifs at htext
    · cases htext
    · obtain ⟨value, hvalue, rfl⟩ := List.mem_map.mp htext
      obtain ⟨j, hj⟩ := List.mem_iff_getElem?.mp (show value ∈ values from hvalue)
      obtain ⟨keyword, -, hcleaned⟩ := forall₂_getElem?_left hclean hj
      exact lowerText_lt (cleaned_small hcleaned) t ht
  · intro c
    rw [foldCodepoint, policyCaseSensitive_eq]
    split_ifs
    · rfl
    · exact jaccardLower_char (casefolds_loaded P.loaded hblocks.casefolds (toNat_le_maxUnicode c))
  · intro hcase entry hentry keyword hkeyword
    obtain ⟨i, hi⟩ := List.mem_iff_getElem?.mp hentry
    obtain ⟨signal, hsignal, hentryOf⟩ := forall₂_getElem? hvalid.validated hi
    obtain ⟨values, hvalues, hclean⟩ := hentryOf.keywords
    obtain ⟨j, hj⟩ := List.mem_iff_getElem?.mp hkeyword
    obtain ⟨value, hvalue, hcleaned⟩ := forall₂_getElem? hclean hj
    have hmem : signal ∈ signals := List.mem_of_getElem? hsignal
    have hinsensitive : signalCaseSensitive signal = false :=
      (hvalid.sameCase signal hmem).trans hcase
    have htext : keyword.toList = u.lowerText (value.text u).toList := by
      rw [hcleaned.normalized, hinsensitive, pyLower]
      exact String.toList_ofList
    rw [htext]
    refine ⟨fun c hc => List.mem_flatMap.mpr ⟨(value.text u).toList, ?_, hc⟩,
      lowerText_lowerText (cleaned_small hcleaned)⟩
    refine List.mem_flatMap.mpr ⟨signal, hmem, ?_⟩
    rw [foldedTexts, hinsensitive, hvalues]
    exact List.mem_map_of_mem (List.mem_of_getElem? hvalue)

/-! ## Words and text -/

/-- A text the matcher of the policy compares like the reference: folding
keeps its characters, and its words and the text itself have the right size
for every keyword they share a trigram with. -/
structure Compares (text : List Char) : Prop where
  foldable : P.caseSensitive = false → ∀ c ∈ text, Foldable u c
  words : ∀ entry ∈ P.routes, ∀ keyword ∈ entry.keywords, ∀ threshold,
    referenceThreshold u entry.ngramThreshold = .ok threshold → ∀ word ∈ words u text,
      Comparable jaccardMaxGrams threshold (wordGrams u word jaccardArity P.caseSensitive)
        (wordGrams u keyword.toList jaccardArity P.caseSensitive)
  whole : ∀ entry ∈ P.routes, ∀ keyword ∈ entry.keywords, ∀ threshold,
    referenceThreshold u entry.ngramThreshold = .ok threshold →
      Comparable jaccardMaxTextGrams threshold (wordGrams u text jaccardArity P.caseSensitive)
        (wordGrams u keyword.toList jaccardArity P.caseSensitive)

omit P in
theorem mem_of_mem_words {text word : List Char} (hword : word ∈ words u text) {c : Char}
    (hc : c ∈ word) : c ∈ text := by
  have hpart := List.mem_of_mem_filter hword
  rw [splitOnP_eq_splitRun] at hpart
  exact (mem_splitRun hpart hc).1

omit P in
theorem length_wordGrams_foldable {caseSensitive : Bool} {piece : List Char}
    (h : caseSensitive = false → ∀ c ∈ piece, Foldable u c) :
    (wordGrams u piece jaccardArity caseSensitive).length = piece.length + 2 := by
  rw [wordGrams, length_paddedGrams (by decide)]
  cases caseSensitive with
  | true => rfl
  | false =>
      have halike := alike_lowerText (fun t (ht : t ∈ []) => absurd ht List.not_mem_nil) (h rfl)
      have hlength := halike.length_eq
      rw [List.length_map] at hlength
      exact congrArg (· + 2) hlength.symm

variable {P} in
/-- **Short texts** compare alike: up to 126 characters, in words of two to
30 characters. -/
theorem Compares.of_short {text : List Char}
    (hfoldable : P.caseSensitive = false → ∀ c ∈ text, Foldable u c)
    (hwords : ∀ word ∈ Signals.words u text, 2 ≤ word.length ∧ word.length ≤ 30)
    (htext : 2 ≤ text.length ∧ text.length ≤ 126) : Compares P text := by
  have hcomparable : ∀ {piece : List Char} {limit : Nat} (keyword : String) (threshold : Int),
      (∀ c ∈ piece, c ∈ text) → 2 ≤ piece.length → piece.length + 2 ≤ limit →
        Comparable limit threshold (wordGrams u piece jaccardArity P.caseSensitive)
          (wordGrams u keyword.toList jaccardArity P.caseSensitive) := by
    intro piece limit keyword threshold hin htwo hlimit
    have hlength := length_wordGrams_foldable fun hcase c hc => hfoldable hcase c (hin c hc)
    refine .inr ⟨?_, .inl ?_⟩
    · rw [hlength]
      exact Nat.add_le_add_right htwo 2
    · rw [hlength]
      exact hlimit
  refine ⟨hfoldable, fun _ _ keyword _ threshold _ word hword => ?_,
    fun _ _ keyword _ threshold _ => ?_⟩
  · obtain ⟨htwo, hthirty⟩ := hwords word hword
    exact hcomparable keyword threshold (fun c hc => mem_of_mem_words hword hc) htwo
      (Nat.add_le_add_right hthirty 2)
  · exact hcomparable keyword threshold (fun c hc => hc) htext.1 (Nat.add_le_add_right htext.2 2)

variable {P} in
/-- **A stretch of the text** marks the keywords it matches. -/
theorem Folds.marks_iff {targets : List Char} (h : Folds P targets) {entry : ValidRoute}
    (hentry : entry ∈ P.routes) {keyword : String} (hkeyword : keyword ∈ entry.keywords) {k : Nat}
    (K : KeywordAt u P.header k) (hnormal : K.normalized = keyword.toList) {limit : Nat}
    (hlimit : jaccardMaxGrams ≤ limit) {piece : List Char}
    (hfoldable : P.caseSensitive = false → ∀ c ∈ piece, Foldable u c)
    (hcompare : Comparable limit K.rule.thresholdMilli
      (wordGrams u piece jaccardArity P.caseSensitive)
      (wordGrams u keyword.toList jaccardArity P.caseSensitive)) :
    K.Marks limit (piece.map fun c => foldCodepoint P.maps c.toNat) ↔
      wordMatches u piece keyword.toList jaccardArity K.rule.thresholdMilli P.caseSensitive
        = true := by
  have hfold : piece.map (fun c => foldCodepoint P.maps c.toNat)
      = (piece.map fun c =>
          if P.caseSensitive then c else foldChar u targets c).map Char.toNat := by
    rw [List.map_map]
    exact List.map_congr_left fun c _ => h.fold c
  rw [hfold, wordMatches]
  cases hcase : P.caseSensitive with
  | true =>
      rw [hcase] at hcompare
      have hid : (piece.map fun c => if true = true then c else foldChar u targets c) = piece := by
        simp
      rw [hid]
      have hwhole : ∀ text : List Char, wordGrams u text jaccardArity true
          = paddedGrams 3 ' ' text := fun text => rfl
      rw [hwhole, hwhole, ← hnormal] at hcompare ⊢
      have halike : List.Forall₂ (Alike K.normalized) piece piece :=
        List.forall₂_same.mpr fun c _ => .inl rfl
      exact Signals.marks_iff K hlimit halike (fun c hc => List.mem_cons_of_mem _ hc) hcompare
  | false =>
      rw [hcase] at hcompare
      obtain ⟨htargets, hlower⟩ := h.keywords hcase entry hentry keyword hkeyword
      have hwhole : ∀ text : List Char, wordGrams u text jaccardArity false
          = paddedGrams 3 ' ' (u.lowerText text) := fun text => rfl
      rw [hwhole, hwhole, hlower, ← hnormal] at hcompare ⊢
      have hid : (piece.map fun c => if false = true then c else foldChar u targets c)
          = piece.map (foldChar u targets) := by
        simp
      rw [hid]
      refine Signals.marks_iff K hlimit (alike_lowerText h.ascii (hfoldable hcase)) ?_ hcompare
      rw [hnormal]
      exact fun c hc => List.mem_cons_of_mem _ (htargets c hc)

/-- The words the matcher closes are those of the reference, folded. -/
theorem Folds.words_eq {P : JaccardPolicy u} {targets : List Char} (h : Folds P targets)
    (hwords : SameWordChars u P.maps) {text : List Char}
    (hfoldable : P.caseSensitive = false → ∀ c ∈ text, Foldable u c) :
    (text.map fun c => foldCodepoint P.maps c.toNat).splitOnP (separates P.maps)
      = (text.splitOnP fun c => !wordPart u c).map
          (List.map fun c => foldCodepoint P.maps c.toNat) := by
  refine splitOnP_map fun c hc => ?_
  rw [separates, h.fold, wordChar_eq hwords]
  split_ifs with hcase
  · rfl
  · rw [wordPart_foldChar h.ascii (hfoldable (by simpa using hcase) c hc)]

/-- The match results after a text. -/
def foundOf (m : JaccardMaps) (text : List Char) : JaccardMatches :=
  (((encodeUtf8 text).foldl (ByteMatch.byte m) .empty).finish m).found

/-- **The marks of a text** are the keywords it matches. -/
theorem marked_iff (hwords : SameWordChars u P.maps) {text : List Char} (h : Compares P text)
    {entry : ValidRoute} (hentry : entry ∈ P.routes) {row : RuleRow}
    (hthreshold : referenceThreshold u entry.ngramThreshold = .ok row.thresholdMilli)
    {keyword : String} (hkeyword : keyword ∈ entry.keywords) {k : Nat}
    (hfor : KeywordFor P row k keyword) :
    Marked (foundOf P.maps text) k ↔
      textMatches u P.caseSensitive row.thresholdMilli text keyword = true := by
  obtain ⟨targets, hfolds⟩ := folds P
  obtain ⟨K, rfl, hnormal⟩ := hfor
  have hmarks := (text_marks (loadedOf P) (text.map Char.toNat)).marked k K
  rw [foundOf, finish_encodeUtf8]
  change Marked _ k ↔ _ at hmarks
  have hmap : (text.map Char.toNat).map (foldCodepoint (loadedOf P).maps)
      = text.map fun c => foldCodepoint P.maps c.toNat := List.map_map
  rw [hmap] at hmarks
  refine hmarks.trans ?_
  rw [textMatches, Bool.or_eq_true, List.any_eq_true]
  refine or_congr ?_ ?_
  · -- the same words on both sides, where the matcher also closes empty ones
    have hsplit := hfolds.words_eq hwords h.foldable
    change (text.map fun c => foldCodepoint P.maps c.toNat).splitOnP
      (separates (loadedOf P).maps) = _ at hsplit
    rw [hsplit]
    have hword : ∀ word ∈ words u text,
        (K.Marks jaccardMaxGrams (word.map fun c => foldCodepoint P.maps c.toNat) ↔
          wordMatches u word keyword.toList jaccardArity K.rule.thresholdMilli P.caseSensitive
            = true) := fun word hmem =>
      hfolds.marks_iff hentry hkeyword K hnormal le_rfl
        (fun hcase c hc => h.foldable hcase c (mem_of_mem_words hmem hc))
        (h.words entry hentry keyword hkeyword _ hthreshold word hmem)
    constructor
    · rintro ⟨w, hw, hmark⟩
      obtain ⟨word, hmem, rfl⟩ := List.mem_map.mp hw
      have hne : word ≠ [] := by
        rintro rfl
        exact K.not_marks_nil _ hmark
      have hmem' : word ∈ words u text := List.mem_filter.mpr ⟨hmem, by simpa using hne⟩
      exact ⟨word, hmem', (hword word hmem').mp hmark⟩
    · rintro ⟨word, hmem, hmatch⟩
      exact ⟨_, List.mem_map_of_mem (List.mem_of_mem_filter hmem), (hword word hmem).mpr hmatch⟩
  · -- the whole text is one more stretch
    exact hfolds.marks_iff hentry hkeyword K hnormal (by decide) h.foldable
      (h.whole entry hentry keyword hkeyword _ hthreshold)

/-! ## Rules and routes -/

/-- **The result of a rule** is that of its entry. -/
theorem ruleTest_oracle (hwords : SameWordChars u P.maps) {text : List Char}
    (h : Compares P text) {i : Nat} {entry : ValidRoute} {row : RuleRow}
    (hentry : P.routes[i]? = some entry) (hrow : P.header.rules[i]? = some row)
    (hentryRow : EntryRow P i entry row) :
    jaccardRuleTest (foundOf P.maps text) i (jaccardRule row)
      = ruleMatches u P.caseSensitive text entry := by
  have hmem : entry ∈ P.routes := List.mem_of_getElem? hentry
  have hi : i < jaccardMaxRules :=
    (List.getElem?_eq_some_iff.mp hrow).1.trans_le (loadedOf P).rules_le
  have hmatching : Matching (loadedOf P).maps (foundOf P.maps text) := by
    rw [foundOf, finish_encodeUtf8]
    exact (text_marks (loadedOf P) (text.map Char.toNat)).matching
  -- the mark of a keyword is its match, so the operators see the same results
  have hmarked : ∀ {k : Nat} {keyword : String}, keyword ∈ entry.keywords →
      KeywordFor P row k keyword → decide (Marked (foundOf P.maps text) k)
        = textMatches u P.caseSensitive row.thresholdMilli text keyword := by
    intro k keyword hkeyword hfor
    rw [Bool.eq_iff_iff, decide_eq_true_eq]
    exact marked_iff P hwords h hmem hentryRow.threshold hkeyword hfor
  have hcount : (ruleKeywords (loadedOf P).header i).length = row.keywordCount := hentryRow.count
  rw [ruleTest_marks (loadedOf P) hi hcount hmatching, ruleMatches_eq hentryRow.threshold
    hentryRow.arity hentryRow.operator hentryRow.distinct]
  refine Operator.results_congr ?_ ?_
  · intro k hk
    obtain ⟨keyword, hkeyword, hfor⟩ := hentryRow.numbered k hk
    exact ⟨keyword, hkeyword, hmarked hkeyword hfor⟩
  · intro keyword hkeyword
    obtain ⟨k, hk, hfor⟩ := hentryRow.texts keyword hkeyword
    exact ⟨k, hk, hmarked hkeyword hfor⟩

/-- **The route of a text.** Under an n-gram policy that ranks its signals
alike for both, a text that both compare alike gets the route of the oracle
from the kernel. -/
theorem route_text (hranks : RanksAgree u P.policy) (hwords : SameWordChars u P.maps)
    {text : List Char} (h : Compares P text) (bm25Matches : ValidRoute → Bool) :
    expectedRoute u (ruleMatches u P.caseSensitive text) bm25Matches P.walk
      = .ok (routeName (jaccardRoutePriority P.maps (foundOf P.maps text)).2) := by
  refine ((P.agrees_iff.mpr hranks) _ _ bm25Matches fun i entry rule hentry hrule => ?_).1
  obtain ⟨row, hrow, hentryRow⟩ := entryRow P hentry
  obtain rfl := Option.some.inj ((P.at_place hrow).1.symm.trans hrule)
  exact ruleTest_oracle P hwords h hentry hrow hentryRow

end Entries

/-! ## One keyword -/

/-- One plain signal with the keyword `compose`. -/
def composingPolicy : Dict := [("routes", .list [plainSignal "code" "coding" "compose"])]

/-- The header of `composingPolicy`, nine different trigrams. -/
def composingHeader : JaccardHeader :=
  ⟨[plainRule 0 .coding],
    [⟨0, [[32, 32, 99], [32, 99, 111], [99, 111, 109], [111, 109, 112], [109, 112, 111],
      [112, 111, 115], [111, 115, 101], [115, 101, 32], [101, 32, 32]],
      [1, 1, 1, 1, 1, 1, 1, 1, 1], 9⟩], []⟩

theorem composing_parsed :
    parseJaccard Unicode.asciiTables composingPolicy false = .ok composingHeader := by
  have hloop : [plainSignal "code" "coding" "compose"].foldlM
      (parseSignal Unicode.asciiTables false ⟨[], []⟩) ⟨[], [], [], none⟩ =
      .ok ⟨composingHeader.rules, composingHeader.keywords, [], some true⟩ := rfl
  exact parseJaccard_of rfl rfl hloop (casefoldEntries_nil _)

/-- The policy of `compose`, loaded. -/
def composing : JaccardPolicy Unicode.asciiTables where
  policy := composingPolicy
  caseSensitive := true
  routes := [plainEntry "coding" "compose"]
  header := composingHeader
  wordBitmap := fun _ => 0
  maps := (populateJaccardPolicy composingHeader fun _ => 0).get rfl
  validated := rfl
  parsed := composing_parsed
  loaded := (Option.some_get _).symm

/-- Without a bitmap no character outside ASCII is one of a word. -/
theorem sameWordChars_ascii {m : JaccardMaps} (hm : m.wordBitmap = fun _ => 0) :
    SameWordChars Unicode.asciiTables m := by
  intro c hc
  have halnum : Unicode.asciiTables.alnum c = false := by
    have hZ : 'Z'.toNat = 90 := rfl
    have hz : 'z'.toNat = 122 := rfl
    have h9 : '9'.toNat = 57 := rfl
    have hval : c.val.toNat = c.toNat := rfl
    show c.isAlphanum = false
    simp only [Char.isAlphanum, Char.isAlpha, Char.isUpper, Char.isLower, Char.isDigit,
      UInt32.le_iff_toNat_le, ge_iff_le, Bool.or_eq_false_iff, Bool.and_eq_false_iff,
      decide_eq_false_iff_not, Char.toNat_val, not_le]
    omega
  rw [halnum, jaccardWordChar, hm, if_neg (by omega)]
  dsimp only
  split_ifs <;> simp

/-- The prompt `compose` is compared alike. -/
theorem composing_compares : RanksAgree Unicode.asciiTables composing.policy ∧
    SameWordChars Unicode.asciiTables composing.maps ∧
      Compares composing "compose".toList := by
  exact ⟨.single rfl, sameWordChars_ascii rfl, .of_short (fun hcase => absurd hcase (by decide))
    (by decide +kernel) (by decide)⟩

end Xsr.Signals
