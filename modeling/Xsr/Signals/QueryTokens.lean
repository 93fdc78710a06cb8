import Xsr.Signals.Grams

/-!
# QueryTokens — the shared gram map carries nothing between queries

All queries of all connections count their grams in one map, each under a
random token. As long as no token repeats, a live matcher state `Tracks`
the token-free `TextMatch` of the code points it has read, whatever other
queries left in the map (`Tracks.codepoint`), and it moves nobody else's
counts (`Moves`). `TokensDistinct` is the assumption about
`bpf_get_prandom_u32`; it speaks of the resets made so far, since no stream
of 64-bit values is injective.
-/

namespace Xsr.Signals

open Kernel

/-- The tokens drawn so far are pairwise distinct. -/
def TokensDistinct (g : QueryGrams) : Prop :=
  ∀ i j, i < j → j < g.drawn → queryToken g.prandom i ≠ queryToken g.prandom j

/-- `g'` is the map at a later time: the same source of tokens, more drawn. -/
structure Later (g g' : QueryGrams) : Prop where
  prandom : g'.prandom = g.prandom
  drawn : g.drawn ≤ g'.drawn

theorem Later.refl (g : QueryGrams) : Later g g := ⟨rfl, Nat.le_refl _⟩

theorem Later.trans {g g' g'' : QueryGrams} (h : Later g g') (h' : Later g' g'') :
    Later g g'' :=
  ⟨h'.prandom.trans h.prandom, h.drawn.trans h'.drawn⟩

theorem Later.reset (g : QueryGrams) : Later g (jaccardResetQuery g).1 :=
  ⟨rfl, Nat.le_succ _⟩

/-- The assumption at a later time covers the present. -/
theorem TokensDistinct.earlier {g g' : QueryGrams} (h : TokensDistinct g') (hl : Later g g') :
    TokensDistinct g := by
  intro i j hij hj
  rw [← hl.prandom]
  exact h i j hij (Nat.lt_of_lt_of_le hj hl.drawn)

/-- A token some reset has drawn. -/
def Issued (g : QueryGrams) (token : UInt64) : Prop :=
  ∃ i, i < g.drawn ∧ token = queryToken g.prandom i

/-- Every gram in the map is counted under a drawn token. -/
def Accounted (g : QueryGrams) : Prop :=
  ∀ key, g.counts key ≠ none → Issued g key.token

/-- The map as it is loaded. -/
theorem Accounted.of_empty {g : QueryGrams} (h : ∀ key, g.counts key = none) : Accounted g :=
  fun key hkey => absurd (h key) hkey

theorem Issued.later {g g' : QueryGrams} {token : UInt64} (h : Issued g token)
    (hl : Later g g') : Issued g' token := by
  obtain ⟨i, hi, rfl⟩ := h
  exact ⟨i, Nat.lt_of_lt_of_le hi hl.drawn, by rw [hl.prandom]⟩

theorem Issued.reset (g : QueryGrams) :
    Issued (jaccardResetQuery g).1 (jaccardResetQuery g).2.token :=
  ⟨g.drawn, Nat.lt_succ_self _, rfl⟩

/-- A reset draws a token nobody has. -/
theorem Issued.ne_reset {g : QueryGrams} {token : UInt64} (h : Issued g token)
    (hd : TokensDistinct (jaccardResetQuery g).1) :
    token ≠ (jaccardResetQuery g).2.token := by
  obtain ⟨i, hi, rfl⟩ := h
  exact hd i g.drawn hi (Nat.lt_succ_self _)

theorem Accounted.later {g g' : QueryGrams} (h : Accounted g) (hl : Later g g')
    (hc : g'.counts = g.counts) : Accounted g' := by
  intro key hkey
  rw [hc] at hkey
  exact (h key hkey).later hl

/-! ## What a step of one matcher may do to the map -/

/-- The two live tokens of a matcher state. -/
def Owns (s : JaccardState) (token : UInt64) : Prop :=
  token = s.word.token ∨ token = s.full.token

/-- A step from `s` to `s'` with its effect on the map: time goes on,
counts under tokens drawn earlier and not owned by `s` stay, and a token
that `s'` gained is a new one. -/
structure Moves (g : QueryGrams) (s : JaccardState) (g' : QueryGrams) (s' : JaccardState) :
    Prop extends Later g g' where
  frame : ∀ key, Issued g key.token → ¬ Owns s key.token → g'.counts key = g.counts key
  fresh : ∀ token, Owns s' token → Issued g token → Owns s token

theorem Moves.refl (g : QueryGrams) (s : JaccardState) : Moves g s g s :=
  ⟨.refl g, fun _ _ _ => rfl, fun _ h _ => h⟩

theorem Moves.trans {g g' g'' : QueryGrams} {s s' s'' : JaccardState}
    (h : Moves g s g' s') (h' : Moves g' s' g'' s'') : Moves g s g'' s'' := by
  refine ⟨h.toLater.trans h'.toLater, ?_, ?_⟩
  · intro key hissued hown
    rw [h'.frame key (hissued.later h.toLater) fun ho => hown (h.fresh _ ho hissued)]
    exact h.frame key hissued hown
  · intro token ho hissued
    exact h.fresh token (h'.fresh token ho (hissued.later h.toLater)) hissued

/-! ## One gram -/

/-- The count the map holds for a gram of a query given `grams`. -/
def gramCount (grams : List JaccardGram) (gram : JaccardGram) : Option Nat :=
  if grams.count gram = 0 then none else some (grams.count gram)

theorem nextOccurrence_gramCount {grams : List JaccardGram} (gram : JaccardGram)
    (h : grams.length < 255) :
    nextOccurrence (gramCount grams gram) = grams.count gram + 1 := by
  have hle : grams.count gram ≤ grams.length := List.count_le_length
  by_cases hzero : grams.count gram = 0
  · simp [gramCount, hzero, nextOccurrence]
  · simp only [gramCount, hzero, if_false, nextOccurrence]
    rw [if_pos (by omega)]

/-- A live query stands for the list of grams it was given. -/
structure Counts (m : JaccardMaps) (limit : Nat) (g : QueryGrams) (q : JaccardQuery)
    (grams : List JaccardGram) : Prop where
  query : q = { gramQuery m limit grams with token := q.token }
  counts : ∀ gram, g.counts ⟨q.token, gram⟩ = gramCount (grams.take limit) gram

section AddGram
variable (m : JaccardMaps) (g : QueryGrams) (q : JaccardQuery) (gram : JaccardGram) (limit : Nat)

@[simp] theorem addVector_token (v : Option GramVector) : (q.addVector v).token = q.token := by
  cases v <;> rfl

theorem addGram_token : (jaccardAddGram m g q gram limit).2.token = q.token := by
  simp only [jaccardAddGram]
  split_ifs
  · rfl
  · exact addVector_token q _

theorem addGram_source :
    (jaccardAddGram m g q gram limit).1.prandom = g.prandom ∧
    (jaccardAddGram m g q gram limit).1.drawn = g.drawn := by
  simp only [jaccardAddGram]
  split_ifs <;> exact ⟨rfl, rfl⟩

theorem addGram_later : Later g (jaccardAddGram m g q gram limit).1 :=
  ⟨(addGram_source m g q gram limit).1, Nat.le_of_eq (addGram_source m g q gram limit).2.symm⟩

/-- Other queries' counts are untouched. -/
theorem addGram_frame {key : QueryKey} (h : key.token ≠ q.token) :
    (jaccardAddGram m g q gram limit).1.counts key = g.counts key := by
  simp only [jaccardAddGram]
  split_ifs
  · rfl
  · refine BpfMap.update_ne _ _ ?_
    rintro rfl
    exact h rfl

theorem addGram_accounted (ha : Accounted g) (hq : Issued g q.token) :
    Accounted (jaccardAddGram m g q gram limit).1 := by
  intro key hkey
  refine Issued.later ?_ (addGram_later m g q gram limit)
  by_cases ht : key.token = q.token
  · exact ht ▸ hq
  · rw [addGram_frame m g q gram limit ht] at hkey
    exact ha key hkey

end AddGram

/-- **One gram.** Counting a gram appends it to the list the query stands
for. -/
theorem Counts.addGram {m : JaccardMaps} {limit : Nat} {g : QueryGrams} {q : JaccardQuery}
    {grams : List JaccardGram} (h : Counts m limit g q grams) (hlimit : limit ≤ 128)
    (gram : JaccardGram) :
    Counts m limit (jaccardAddGram m g q gram limit).1 (jaccardAddGram m g q gram limit).2
      (grams ++ [gram]) := by
  have htotal : q.total = min grams.length limit := by rw [h.query]; rfl
  by_cases hlt : grams.length < limit
  · have htake : grams.take limit = grams := List.take_of_length_le (Nat.le_of_lt hlt)
    have hnext : nextOccurrence (g.counts ⟨q.token, gram⟩) = grams.count gram + 1 := by
      rw [h.counts, htake]
      exact nextOccurrence_gramCount gram (by omega)
    have hroom : ¬ limit ≤ q.total := by omega
    constructor
    · rw [addGram_token, gramQuery_snoc_of_lt m gram hlt (by omega)]
      simp only [jaccardAddGram, hroom, if_false, hnext]
      rw [h.query]
      cases m.gramMasks ⟨gram, grams.count gram + 1⟩ <;> rfl
    · intro x
      rw [addGram_token, List.take_of_length_le (by simp; omega)]
      simp only [jaccardAddGram, hroom, if_false, hnext]
      by_cases hx : x = gram
      · subst hx
        simp [gramCount, List.count_append]
      · rw [BpfMap.update_ne _ _ (by simpa using hx), h.counts, htake]
        simp [gramCount, List.count_append, Ne.symm hx]
  · have hfull : limit ≤ q.total := by omega
    constructor
    · rw [addGram_token, gramQuery_snoc_of_ge m gram (by omega)]
      simp only [jaccardAddGram, hfull, if_true]
      rw [h.query]
    · intro x
      rw [List.take_append_of_le_length (by omega), ← h.counts]
      simp only [jaccardAddGram, hfull, if_true]

/-- A query whose counts nobody else touched. -/
theorem Counts.frame {m : JaccardMaps} {limit : Nat} {g g' : QueryGrams} {q : JaccardQuery}
    {grams : List JaccardGram} (h : Counts m limit g q grams)
    (hframe : ∀ gram, g'.counts ⟨q.token, gram⟩ = g.counts ⟨q.token, gram⟩) :
    Counts m limit g' q grams :=
  ⟨h.query, fun gram => (hframe gram).trans (h.counts gram)⟩

/-- Matching a query does not look at its token. -/
theorem Counts.match_eq {m : JaccardMaps} {limit : Nat} {g : QueryGrams} {q : JaccardQuery}
    {grams : List JaccardGram} (h : Counts m limit g q grams) (s : JaccardMatches) :
    jaccardMatchQuery m s q = jaccardMatchQuery m s (gramQuery m limit grams) := by
  rw [h.query]
  rfl

/-- The query after a reset. -/
theorem Counts.reset {m : JaccardMaps} {limit : Nat} {g : QueryGrams} (ha : Accounted g)
    (hd : TokensDistinct (jaccardResetQuery g).1) :
    Counts m limit (jaccardResetQuery g).1 (jaccardResetQuery g).2 [] := by
  constructor
  · simp [jaccardResetQuery, JaccardQuery.zero]
  · intro gram
    have hnone : g.counts ⟨(jaccardResetQuery g).2.token, gram⟩ = none := by
      by_contra hne
      exact (ha _ hne).ne_reset hd rfl
    show g.counts _ = _
    rw [hnone]
    simp [gramCount]

end Xsr.Signals
