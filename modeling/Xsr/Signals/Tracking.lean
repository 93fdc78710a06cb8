import Xsr.Signals.QueryTokens

/-!
# Tracking — the streaming matcher computes the token-free one

`Tracks` relates a live matcher state and the shared map to a `TextMatch`.
Each operation of the matcher is shown to keep it and to be one of the
`Moves`; the end of a text gives `TextMatch.finish`.
-/

namespace Xsr.Signals

open Kernel

/-! ## The window of a text -/

/-- The window the matcher keeps of the code points `cs`. -/
structure Windowed (cs : List Nat) (w : GramWindow) : Prop where
  length : w.length = min cs.length 65535
  last : cs ≠ [] → w.last = (lastTwo cs).2
  previous : 2 ≤ cs.length → w.previous = (lastTwo cs).1

theorem Windowed.nil (previous last : Nat) : Windowed [] ⟨previous, last, 0⟩ :=
  ⟨rfl, fun h => absurd rfl h, fun h => by simp at h⟩

theorem Windowed.length_eq_zero {cs : List Nat} {w : GramWindow} (h : Windowed cs w) :
    w.length = 0 ↔ cs = [] := by
  have hlen := h.length
  rw [← List.length_eq_zero_iff]
  omega

theorem Windowed.length_eq_one {cs : List Nat} {w : GramWindow} (h : Windowed cs w) :
    w.length = 1 ↔ cs.length = 1 := by
  have hlen := h.length
  omega

theorem lastTwo_of_length_one {cs : List Nat} (h : cs.length = 1) : (lastTwo cs).1 = space := by
  obtain ⟨c, rfl⟩ := List.length_eq_one_iff.mp h
  rfl

/-- The window after one more code point. -/
def nextWindow (w : GramWindow) (c : Nat) : GramWindow :=
  if w.length = 0 then { w with last := c, length := 1 }
  else { previous := w.last, last := c,
         length := if w.length < 65535 then w.length + 1 else w.length }

theorem Windowed.next {cs : List Nat} {w : GramWindow} (h : Windowed cs w) (c : Nat) :
    Windowed (cs ++ [c]) (nextWindow w c) := by
  have hlen := h.length
  have hzero := h.length_eq_zero
  by_cases hcs : cs = []
  · subst hcs
    have hw : w.length = 0 := hzero.mpr rfl
    constructor <;> simp [nextWindow, hw, lastTwo]
  · have hw : w.length ≠ 0 := fun h0 => hcs (hzero.mp h0)
    constructor
    · simp only [nextWindow, hw, if_false, List.length_append, List.length_singleton]
      split_ifs <;> omega
    · simp [nextWindow, hw]
    · intro _
      simp [nextWindow, hw, h.last hcs]

/-- A push counts the next gram of the text and moves the window. -/
theorem push_eq (m : JaccardMaps) (g : QueryGrams) (q : JaccardQuery) {cs : List Nat}
    {w : GramWindow} (h : Windowed cs w) (c limit : Nat) :
    jaccardPush m g q w c limit =
      ((jaccardAddGram m g q ⟨(lastTwo cs).1, (lastTwo cs).2, c⟩ limit).1,
       (jaccardAddGram m g q ⟨(lastTwo cs).1, (lastTwo cs).2, c⟩ limit).2, nextWindow w c) := by
  have hzero := h.length_eq_zero
  by_cases hcs : cs = []
  · subst hcs
    have hw : w.length = 0 := hzero.mpr rfl
    simp [jaccardPush, nextWindow, hw, lastTwo]
  · have hw : w.length ≠ 0 := fun h0 => hcs (hzero.mp h0)
    rw [← h.last hcs]
    by_cases hone : w.length = 1
    · rw [lastTwo_of_length_one (h.length_eq_one.mp hone)]
      simp [jaccardPush, nextWindow, hone]
    · have hlen := h.length
      rw [← h.previous (by omega)]
      simp [jaccardPush, nextWindow, hw, hone]

/-- The closing grams of the window, as `xdp_jaccard_finish_word` and
`xdp_jaccard_finish` both count them. -/
def closeQuery (m : JaccardMaps) (g : QueryGrams) (q : JaccardQuery) (w : GramWindow)
    (limit : Nat) : QueryGrams × JaccardQuery :=
  if w.length = 1 then jaccardAddGram m g q ⟨w.last, space, space⟩ limit
  else
    let r := jaccardAddGram m g q ⟨w.previous, w.last, space⟩ limit
    jaccardAddGram m r.1 r.2 ⟨w.last, space, space⟩ limit

/-! ## What counting does to the map -/

/-- Some grams were counted for `q`, giving `q'`. -/
structure Charges (g : QueryGrams) (q : JaccardQuery) (g' : QueryGrams) (q' : JaccardQuery) :
    Prop extends Later g g' where
  token : q'.token = q.token
  frame : ∀ key, key.token ≠ q.token → g'.counts key = g.counts key
  accounted : Accounted g → Issued g q.token → Accounted g'

theorem Charges.addGram (m : JaccardMaps) (g : QueryGrams) (q : JaccardQuery)
    (gram : JaccardGram) (limit : Nat) :
    Charges g q (jaccardAddGram m g q gram limit).1 (jaccardAddGram m g q gram limit).2 :=
  ⟨addGram_later m g q gram limit, addGram_token m g q gram limit,
    fun _ h => addGram_frame m g q gram limit h, addGram_accounted m g q gram limit⟩

theorem Charges.trans {g g' g'' : QueryGrams} {q q' q'' : JaccardQuery}
    (h : Charges g q g' q') (h' : Charges g' q' g'' q'') : Charges g q g'' q'' := by
  refine ⟨h.toLater.trans h'.toLater, h'.token.trans h.token, ?_, ?_⟩
  · intro key hkey
    rw [h'.frame key (by rwa [h.token]), h.frame key hkey]
  · intro ha hq
    exact h'.accounted (h.accounted ha hq) (by rw [h.token]; exact hq.later h.toLater)

theorem Charges.close (m : JaccardMaps) (g : QueryGrams) (q : JaccardQuery) (w : GramWindow)
    (limit : Nat) :
    Charges g q (closeQuery m g q w limit).1 (closeQuery m g q w limit).2 := by
  unfold closeQuery
  split_ifs
  · exact .addGram m g q _ limit
  · exact (Charges.addGram m g q _ limit).trans (.addGram m _ _ _ limit)

/-- Counts of another query survive. -/
theorem Counts.of_charges {m : JaccardMaps} {limit : Nat} {g g' : QueryGrams}
    {p q q' : JaccardQuery} {grams : List JaccardGram} (h : Counts m limit g p grams)
    (hc : Charges g q g' q') (hne : p.token ≠ q.token) : Counts m limit g' p grams :=
  h.frame fun _ => hc.frame _ hne

/-- Closing a text counts all its grams. -/
theorem Counts.close {m : JaccardMaps} {limit : Nat} {g : QueryGrams} {q : JaccardQuery}
    {cs : List Nat} {w : GramWindow} (h : Counts m limit g q (readGrams cs))
    (hw : Windowed cs w) (hcs : cs ≠ []) (hlimit : limit ≤ 128) :
    Counts m limit (closeQuery m g q w limit).1 (closeQuery m g q w limit).2
      (givenGrams cs) := by
  match cs, hcs with
  | [c], _ =>
      have hlast : w.last = c := hw.last (by simp)
      have hone : w.length = 1 := hw.length_eq_one.mpr rfl
      simp only [closeQuery, hone, if_true, hlast]
      exact h.addGram hlimit _
  | c :: d :: cs, _ =>
      have hone : w.length ≠ 1 := fun h1 => by simpa using hw.length_eq_one.mp h1
      simp only [closeQuery, hone, if_false, hw.last (by simp), hw.previous (by simp)]
      have := (h.addGram hlimit ⟨(lastTwo (c :: d :: cs)).1, (lastTwo (c :: d :: cs)).2,
        space⟩).addGram hlimit ⟨(lastTwo (c :: d :: cs)).2, space, space⟩
      rwa [List.append_assoc] at this

/-! ## The matcher state -/

/-- A live matcher state that has read the text `t` knows. -/
structure Tracks (m : JaccardMaps) (g : QueryGrams) (s : JaccardState) (t : TextMatch) :
    Prop where
  accounted : Accounted g
  wordIssued : Issued g s.word.token
  fullIssued : Issued g s.full.token
  apart : s.word.token ≠ s.full.token
  word : Counts m jaccardMaxGrams g s.word (readGrams t.word)
  full : Counts m jaccardMaxTextGrams g s.full (readGrams t.text)
  wordWindow : Windowed t.word ⟨s.wordPrevious, s.wordLast, s.wordLen⟩
  fullWindow : Windowed t.text ⟨s.fullPrevious, s.fullLast, s.fullLen⟩
  found : s.toJaccardMatches = t.found
  caseSensitive : s.caseSensitive = policyCaseSensitive m

/-- A matcher nobody else disturbs keeps its text. -/
theorem Tracks.frame {m : JaccardMaps} {g g' : QueryGrams} {s : JaccardState} {t : TextMatch}
    (h : Tracks m g s t) (ha : Accounted g') (hl : Later g g')
    (hframe : ∀ key, Owns s key.token → g'.counts key = g.counts key) :
    Tracks m g' s t :=
  { h with
    accounted := ha
    wordIssued := h.wordIssued.later hl
    fullIssued := h.fullIssued.later hl
    word := h.word.frame fun _ => hframe _ (.inl rfl)
    full := h.full.frame fun _ => hframe _ (.inr rfl) }

theorem Later.init (m : JaccardMaps) (g : QueryGrams) : Later g (jaccardInit m g).1 :=
  (Later.reset g).trans (Later.reset _)

/-- The initial state: two new tokens and nothing read. -/
theorem Tracks.init {m : JaccardMaps} {g : QueryGrams} (ha : Accounted g)
    (hd : TokensDistinct (jaccardInit m g).1) :
    Tracks m (jaccardInit m g).1 (jaccardInit m g).2 .empty := by
  have hd' : TokensDistinct (jaccardResetQuery g).1 := hd.earlier (.reset _)
  have ha' : Accounted (jaccardResetQuery g).1 := ha.later (.reset g) rfl
  have hword : Counts m jaccardMaxGrams (jaccardInit m g).1 (jaccardInit m g).2.word [] :=
    (Counts.reset ha hd').frame fun _ => rfl
  have hfull : Counts m jaccardMaxTextGrams (jaccardInit m g).1 (jaccardInit m g).2.full [] :=
    Counts.reset ha' hd
  refine ⟨ha'.later (.reset _) rfl, (Issued.reset g).later (.reset _), Issued.reset _,
    (Issued.reset g).ne_reset hd, hword, hfull, ?_, ?_, ?_, ?_⟩
  all_goals cases hconfig : m.config <;>
    simp [jaccardInit, jaccardResetQuery, JaccardState.zero, TextMatch.empty, hconfig,
      policyCaseSensitive, Windowed.nil]

/-- The initial state takes nothing from a state that was there before. -/
theorem Moves.init (m : JaccardMaps) {g : QueryGrams} (s : JaccardState)
    (hd : TokensDistinct (jaccardInit m g).1) :
    Moves g s (jaccardInit m g).1 (jaccardInit m g).2 := by
  refine ⟨.init m g, fun _ _ _ => rfl, ?_⟩
  rintro token (ho | ho) hissued
  · exact absurd ho (hissued.ne_reset (hd.earlier (.reset _)))
  · exact absurd ho ((hissued.later (.reset g)).ne_reset hd)

/-! ## One code point -/

/-- The full-text half of a code point: one push. -/
def readFull (m : JaccardMaps) (g : QueryGrams) (s : JaccardState) (c : Nat) :
    QueryGrams × JaccardState :=
  let r := jaccardPush m g s.full ⟨s.fullPrevious, s.fullLast, s.fullLen⟩ c jaccardMaxTextGrams
  (r.1, { s with full := r.2.1, fullPrevious := r.2.2.previous, fullLast := r.2.2.last,
                 fullLen := r.2.2.length })

/-- The word half of a word character: one push. -/
def readWord (m : JaccardMaps) (g : QueryGrams) (s : JaccardState) (c : Nat) :
    QueryGrams × JaccardState :=
  let r := jaccardPush m g s.word ⟨s.wordPrevious, s.wordLast, s.wordLen⟩ c jaccardMaxGrams
  (r.1, { s with word := r.2.1, wordPrevious := r.2.2.previous, wordLast := r.2.2.last,
                 wordLen := r.2.2.length })

/-- The word half of any other code point: close the word, start over. -/
def breakWord (m : JaccardMaps) (g : QueryGrams) (s : JaccardState) :
    QueryGrams × JaccardState :=
  let r := jaccardFinishWord m g s
  ((jaccardResetQuery r.1).1, { r.2 with word := (jaccardResetQuery r.1).2, wordLen := 0 })

/-- A code point after case folding. -/
def readCodepoint (m : JaccardMaps) (g : QueryGrams) (s : JaccardState) (c : Nat) :
    QueryGrams × JaccardState :=
  let r := readFull m g s c
  if jaccardWordChar m c then readWord m r.1 r.2 c else breakWord m r.1 r.2

theorem jaccardScoreCodepoint_eq (m : JaccardMaps) (g : QueryGrams) (s : JaccardState) (c : Nat) :
    jaccardScoreCodepoint m g s c
      = readCodepoint m g s (if s.caseSensitive then c else jaccardLower m c) := rfl

theorem jaccardFinishWord_eq (m : JaccardMaps) (g : QueryGrams) (s : JaccardState) :
    jaccardFinishWord m g s =
      if s.wordLen = 0 then (g, s)
      else
        let r := closeQuery m g s.word ⟨s.wordPrevious, s.wordLast, s.wordLen⟩ jaccardMaxGrams
        (r.1, { s with
          word := r.2
          toJaccardMatches := jaccardMatchQuery m s.toJaccardMatches r.2 }) := rfl

theorem Later.push (m : JaccardMaps) (g : QueryGrams) (q : JaccardQuery) (w : GramWindow)
    (c limit : Nat) : Later g (jaccardPush m g q w c limit).1 := by
  unfold jaccardPush
  split_ifs <;> exact addGram_later m g q _ limit

theorem Later.finishWord (m : JaccardMaps) (g : QueryGrams) (s : JaccardState) :
    Later g (jaccardFinishWord m g s).1 := by
  rw [jaccardFinishWord_eq]
  split_ifs
  · exact .refl g
  · exact (Charges.close m g s.word _ _).toLater

theorem Later.readCodepoint (m : JaccardMaps) (g : QueryGrams) (s : JaccardState) (c : Nat) :
    Later g (readCodepoint m g s c).1 := by
  have hfull : Later g (readFull m g s c).1 := Later.push m g s.full _ c _
  unfold Signals.readCodepoint
  split_ifs
  · exact hfull.trans (Later.push m _ _ _ c _)
  · exact hfull.trans ((Later.finishWord m _ _).trans (.reset _))

/-- Reading into the full text. -/
theorem Tracks.readFull {m : JaccardMaps} {g : QueryGrams} {s : JaccardState} {t : TextMatch}
    (h : Tracks m g s t) (c : Nat) :
    Tracks m (readFull m g s c).1 (readFull m g s c).2 { t with text := t.text ++ [c] } ∧
    Moves g s (readFull m g s c).1 (readFull m g s c).2 := by
  have hpush := push_eq m g s.full h.fullWindow c jaccardMaxTextGrams
  have hc := Charges.addGram m g s.full ⟨(lastTwo t.text).1, (lastTwo t.text).2, c⟩
    jaccardMaxTextGrams
  have hcounts := h.full.addGram (by decide) ⟨(lastTwo t.text).1, (lastTwo t.text).2, c⟩
  rw [← readGrams_snoc] at hcounts
  simp only [Signals.readFull, hpush]
  constructor
  · exact {
      accounted := hc.accounted h.accounted h.fullIssued
      wordIssued := h.wordIssued.later hc.toLater
      fullIssued := by rw [hc.token]; exact h.fullIssued.later hc.toLater
      apart := by rw [hc.token]; exact h.apart
      word := h.word.of_charges hc h.apart
      full := hcounts
      wordWindow := h.wordWindow
      fullWindow := h.fullWindow.next c
      found := h.found
      caseSensitive := h.caseSensitive }
  · refine ⟨hc.toLater, fun key _ hown => hc.frame key fun hk => hown (.inr hk), ?_⟩
    rintro token (ho | ho) -
    · exact .inl ho
    · exact .inr (ho.trans hc.token)

/-- Reading a word character into the open word. -/
theorem Tracks.readWord {m : JaccardMaps} {g : QueryGrams} {s : JaccardState} {t : TextMatch}
    (h : Tracks m g s t) (c : Nat) :
    Tracks m (readWord m g s c).1 (readWord m g s c).2 { t with word := t.word ++ [c] } ∧
    Moves g s (readWord m g s c).1 (readWord m g s c).2 := by
  have hpush := push_eq m g s.word h.wordWindow c jaccardMaxGrams
  have hc := Charges.addGram m g s.word ⟨(lastTwo t.word).1, (lastTwo t.word).2, c⟩
    jaccardMaxGrams
  have hcounts := h.word.addGram (by decide) ⟨(lastTwo t.word).1, (lastTwo t.word).2, c⟩
  rw [← readGrams_snoc] at hcounts
  simp only [Signals.readWord, hpush]
  constructor
  · exact {
      accounted := hc.accounted h.accounted h.wordIssued
      wordIssued := by rw [hc.token]; exact h.wordIssued.later hc.toLater
      fullIssued := h.fullIssued.later hc.toLater
      apart := by rw [hc.token]; exact h.apart
      word := hcounts
      full := h.full.of_charges hc h.apart.symm
      wordWindow := h.wordWindow.next c
      fullWindow := h.fullWindow
      found := h.found
      caseSensitive := h.caseSensitive }
  · refine ⟨hc.toLater, fun key _ hown => hc.frame key fun hk => hown (.inl hk), ?_⟩
    rintro token (ho | ho) -
    · exact .inl (ho.trans hc.token)
    · exact .inr ho

/-- What closing the open word leaves: the word query has been charged, its
keywords have been matched, and nothing else has changed. -/
structure Closed (m : JaccardMaps) (g : QueryGrams) (s : JaccardState) (t : TextMatch)
    (g' : QueryGrams) (s' : JaccardState) : Prop where
  charges : Charges g s.word g' s'.word
  found : s'.toJaccardMatches = (t.closeWord m).found
  full : s'.full = s.full
  fullPrevious : s'.fullPrevious = s.fullPrevious
  fullLast : s'.fullLast = s.fullLast
  fullLen : s'.fullLen = s.fullLen
  utf8 : s'.toUtf8Scan = s.toUtf8Scan
  caseSensitive : s'.caseSensitive = s.caseSensitive

theorem Tracks.finishWord {m : JaccardMaps} {g : QueryGrams} {s : JaccardState} {t : TextMatch}
    (h : Tracks m g s t) :
    Closed m g s t (jaccardFinishWord m g s).1 (jaccardFinishWord m g s).2 := by
  have hzero := h.wordWindow.length_eq_zero
  rw [jaccardFinishWord_eq]
  by_cases hcs : t.word = []
  · have hlen : s.wordLen = 0 := hzero.mpr hcs
    simp only [hlen, if_true]
    refine ⟨⟨.refl g, rfl, fun _ _ => rfl, fun ha _ => ha⟩, ?_, rfl, rfl, rfl, rfl, rfl, rfl⟩
    simp only [TextMatch.closeWord, hcs, if_true, h.found]
  · have hlen : s.wordLen ≠ 0 := fun h0 => hcs (hzero.mp h0)
    simp only [hlen, if_false]
    refine ⟨Charges.close m g s.word _ _, ?_, rfl, rfl, rfl, rfl, rfl, rfl⟩
    simp only [TextMatch.closeWord, hcs, if_false, ← h.found]
    exact (h.word.close h.wordWindow hcs (by decide)).match_eq _

/-- Any other code point ends the open word. -/
theorem Tracks.breakWord {m : JaccardMaps} {g : QueryGrams} {s : JaccardState} {t : TextMatch}
    (h : Tracks m g s t) (hd : TokensDistinct (breakWord m g s).1) :
    Tracks m (breakWord m g s).1 (breakWord m g s).2 { t.closeWord m with word := [] } ∧
    Moves g s (breakWord m g s).1 (breakWord m g s).2 := by
  have hc := h.finishWord
  have ha : Accounted (jaccardFinishWord m g s).1 :=
    hc.charges.accounted h.accounted h.wordIssued
  have hfullIssued : Issued (jaccardFinishWord m g s).1 s.full.token :=
    h.fullIssued.later hc.charges.toLater
  have htext : (t.closeWord m).text = t.text := by
    unfold TextMatch.closeWord; split_ifs <;> rfl
  have hfull : Counts m jaccardMaxTextGrams (jaccardFinishWord m g s).1 s.full
      (readGrams t.text) := h.full.of_charges hc.charges h.apart.symm
  simp only [Signals.breakWord] at hd ⊢
  constructor
  · exact {
      accounted := ha.later (.reset _) rfl
      wordIssued := .reset _
      fullIssued := by simpa only [hc.full] using hfullIssued.later (.reset _)
      apart := by simpa only [hc.full] using (hfullIssued.ne_reset hd).symm
      word := .reset ha hd
      full := by
        have hfull' : Counts m jaccardMaxTextGrams
            (jaccardResetQuery (jaccardFinishWord m g s).1).1 s.full (readGrams t.text) :=
          hfull.frame fun _ => rfl
        simpa only [hc.full, htext] using hfull'
      wordWindow := .nil _ _
      fullWindow := by
        simpa only [hc.fullPrevious, hc.fullLast, hc.fullLen, htext] using h.fullWindow
      found := hc.found
      caseSensitive := by simpa only [hc.caseSensitive] using h.caseSensitive }
  · refine ⟨hc.charges.toLater.trans (.reset _), ?_, ?_⟩
    · exact fun key _ hown => hc.charges.frame key fun hk => hown (.inl hk)
    · rintro token (ho | ho) hissued
      · exact absurd ho ((hissued.later hc.charges.toLater).ne_reset hd)
      · exact .inr (by simpa only [hc.full] using ho)

/-- **One code point.** The matcher goes on tracking the text, and moves no
other query's counts. -/
theorem Tracks.codepoint {m : JaccardMaps} {g : QueryGrams} {s : JaccardState} {t : TextMatch}
    (h : Tracks m g s t) (c : Nat) (hd : TokensDistinct (jaccardScoreCodepoint m g s c).1) :
    Tracks m (jaccardScoreCodepoint m g s c).1 (jaccardScoreCodepoint m g s c).2
      (t.codepoint m c) ∧
    Moves g s (jaccardScoreCodepoint m g s c).1 (jaccardScoreCodepoint m g s c).2 := by
  have heq : jaccardScoreCodepoint m g s c = readCodepoint m g s (foldCodepoint m c) := by
    rw [jaccardScoreCodepoint_eq, h.caseSensitive]; rfl
  rw [heq] at hd ⊢
  obtain ⟨hfull, hmoves⟩ := h.readFull (foldCodepoint m c)
  simp only [Signals.readCodepoint, TextMatch.codepoint] at hd ⊢
  split_ifs at hd ⊢
  · obtain ⟨hword, hmoves'⟩ := hfull.readWord (foldCodepoint m c)
    exact ⟨hword, hmoves.trans hmoves'⟩
  · obtain ⟨hbreak, hmoves'⟩ := hfull.breakWord hd
    exact ⟨hbreak, hmoves.trans hmoves'⟩

/-! ## Bytes, and the end of the text -/

/-- Scoring a code point leaves the decoder alone. -/
theorem jaccardScoreCodepoint_utf8 (m : JaccardMaps) (g : QueryGrams) (s : JaccardState)
    (c : Nat) : (jaccardScoreCodepoint m g s c).2.toUtf8Scan = s.toUtf8Scan := by
  rw [jaccardScoreCodepoint_eq, Signals.readCodepoint]
  split_ifs
  · rfl
  · simp only [Signals.breakWord, jaccardFinishWord_eq]
    split_ifs <;> rfl
  · rfl
  · simp only [Signals.breakWord, jaccardFinishWord_eq]
    split_ifs <;> rfl

theorem Later.scoreCodepoint (m : JaccardMaps) (g : QueryGrams) (s : JaccardState) (c : Nat) :
    Later g (jaccardScoreCodepoint m g s c).1 := by
  rw [jaccardScoreCodepoint_eq]
  exact Later.readCodepoint m g s _

theorem Later.scoreCodepoints (m : JaccardMaps) (g : QueryGrams) (s : JaccardState)
    (cs : List Nat) : Later g (jaccardScoreCodepoints m g s cs).1 := by
  induction cs generalizing g s with
  | nil => exact .refl g
  | cons c cs ih => exact (Later.scoreCodepoint m g s c).trans (ih _ _)

theorem Tracks.codepoints {m : JaccardMaps} {g : QueryGrams} {s : JaccardState} {t : TextMatch}
    (h : Tracks m g s t) (cs : List Nat)
    (hd : TokensDistinct (jaccardScoreCodepoints m g s cs).1) :
    Tracks m (jaccardScoreCodepoints m g s cs).1 (jaccardScoreCodepoints m g s cs).2
      (cs.foldl (TextMatch.codepoint m) t) ∧
    Moves g s (jaccardScoreCodepoints m g s cs).1 (jaccardScoreCodepoints m g s cs).2 ∧
    (jaccardScoreCodepoints m g s cs).2.toUtf8Scan = s.toUtf8Scan := by
  induction cs generalizing g s t with
  | nil => exact ⟨h, .refl g s, rfl⟩
  | cons c cs ih =>
      obtain ⟨h1, hm1⟩ := h.codepoint c (hd.earlier (Later.scoreCodepoints m _ _ cs))
      obtain ⟨h2, hm2, hu⟩ := ih h1 hd
      exact ⟨h2, hm1.trans hm2, hu.trans (jaccardScoreCodepoint_utf8 m g s c)⟩

/-- A matcher state that has read the bytes `b` knows. -/
structure BytesTracked (m : JaccardMaps) (g : QueryGrams) (s : JaccardState) (b : ByteMatch) :
    Prop where
  text : Tracks m g s b.text
  utf8 : s.toUtf8Scan = b.utf8

theorem Tracks.setUtf8 {m : JaccardMaps} {g : QueryGrams} {s : JaccardState} {t : TextMatch}
    (h : Tracks m g s t) (u : Utf8Scan) : Tracks m g { s with toUtf8Scan := u } t :=
  { h with }

theorem Moves.of_setUtf8 {g g' : QueryGrams} {s s' : JaccardState} {u : Utf8Scan}
    (h : Moves g { s with toUtf8Scan := u } g' s') : Moves g s g' s' :=
  ⟨h.toLater, h.frame, h.fresh⟩

theorem Later.scoreChar (m : JaccardMaps) (g : QueryGrams) (s : JaccardState) (c : UInt8) :
    Later g (jaccardScoreChar m g s c).1 :=
  Later.scoreCodepoints m g _ _

/-- **One byte.** -/
theorem BytesTracked.byte {m : JaccardMaps} {g : QueryGrams} {s : JaccardState} {b : ByteMatch}
    (h : BytesTracked m g s b) (c : UInt8) (hd : TokensDistinct (jaccardScoreChar m g s c).1) :
    BytesTracked m (jaccardScoreChar m g s c).1 (jaccardScoreChar m g s c).2 (b.byte m c) ∧
    Moves g s (jaccardScoreChar m g s c).1 (jaccardScoreChar m g s c).2 := by
  obtain ⟨htext, hmoves, hu⟩ :=
    (h.text.setUtf8 (utf8Byte s.toUtf8Scan c).1).codepoints (utf8Byte s.toUtf8Scan c).2 hd
  refine ⟨⟨?_, ?_⟩, hmoves.of_setUtf8⟩
  · rw [ByteMatch.byte, ← h.utf8]
    exact htext
  · rw [ByteMatch.byte, ← h.utf8]
    exact hu

/-- The full text closed and matched, after the open word. -/
def finishFull (m : JaccardMaps) (g : QueryGrams) (s : JaccardState) :
    QueryGrams × JaccardState :=
  if s.fullLen = 0 then (g, s)
  else
    let r := closeQuery m g s.full ⟨s.fullPrevious, s.fullLast, s.fullLen⟩ jaccardMaxTextGrams
    (r.1, { s with
      full := r.2
      toJaccardMatches := jaccardMatchQuery m s.toJaccardMatches r.2 })

/-- The state whose words and text `xdp_jaccard_finish` closes. -/
def finishUtf8 (m : JaccardMaps) (g : QueryGrams) (s : JaccardState) :
    QueryGrams × JaccardState :=
  if s.utf8Remaining = 0 then (g, s)
  else jaccardScoreCodepoint m g { s with utf8Remaining := 0 } space

theorem jaccardFinish_eq (m : JaccardMaps) (g : QueryGrams) (s : JaccardState) :
    jaccardFinish m g s =
      let r := finishUtf8 m g s
      let r := jaccardFinishWord m r.1 r.2
      finishFull m r.1 r.2 := rfl

theorem Later.finishFull (m : JaccardMaps) (g : QueryGrams) (s : JaccardState) :
    Later g (finishFull m g s).1 := by
  unfold Signals.finishFull
  split_ifs
  · exact .refl g
  · exact (Charges.close m g s.full _ _).toLater

theorem Later.finishUtf8 (m : JaccardMaps) (g : QueryGrams) (s : JaccardState) :
    Later g (finishUtf8 m g s).1 := by
  unfold Signals.finishUtf8
  split_ifs
  · exact .refl g
  · exact Later.scoreCodepoint m g _ _

theorem Later.finish (m : JaccardMaps) (g : QueryGrams) (s : JaccardState) :
    Later g (jaccardFinish m g s).1 := by
  rw [jaccardFinish_eq]
  exact ((Later.finishUtf8 m g s).trans (.finishWord m _ _)).trans (.finishFull m _ _)

/-- **The end of the text.** The matches are those of the token-free
matcher, and the map stays accounted for. -/
theorem Tracks.finish {m : JaccardMaps} {g : QueryGrams} {s : JaccardState} {t : TextMatch}
    (h : Tracks m g s t) :
    (finishFull m (jaccardFinishWord m g s).1 (jaccardFinishWord m g s).2).2.toJaccardMatches
      = (t.finish m).found ∧
    Accounted (finishFull m (jaccardFinishWord m g s).1 (jaccardFinishWord m g s).2).1 ∧
    Moves g s (finishFull m (jaccardFinishWord m g s).1 (jaccardFinishWord m g s).2).1
      (finishFull m (jaccardFinishWord m g s).1 (jaccardFinishWord m g s).2).2 := by
  have hc := h.finishWord
  have ha : Accounted (jaccardFinishWord m g s).1 :=
    hc.charges.accounted h.accounted h.wordIssued
  have hmoves : Moves g s (jaccardFinishWord m g s).1 (jaccardFinishWord m g s).2 := by
    refine ⟨hc.charges.toLater, fun key _ hown => hc.charges.frame key fun hk => hown (.inl hk), ?_⟩
    rintro token (ho | ho) -
    · exact .inl (ho.trans hc.charges.token)
    · exact .inr (by simpa only [hc.full] using ho)
  -- closing the last word left the query of the full text alone
  have hfull : Counts m jaccardMaxTextGrams (jaccardFinishWord m g s).1
      (jaccardFinishWord m g s).2.full (readGrams t.text) := by
    rw [hc.full]; exact h.full.of_charges hc.charges h.apart.symm
  have hwindow : Windowed t.text ⟨(jaccardFinishWord m g s).2.fullPrevious,
      (jaccardFinishWord m g s).2.fullLast, (jaccardFinishWord m g s).2.fullLen⟩ := by
    rw [hc.fullPrevious, hc.fullLast, hc.fullLen]; exact h.fullWindow
  have hissued : Issued (jaccardFinishWord m g s).1 (jaccardFinishWord m g s).2.full.token := by
    rw [hc.full]; exact h.fullIssued.later hc.charges.toLater
  have htext : (t.closeWord m).text = t.text := by
    unfold TextMatch.closeWord; split_ifs <;> rfl
  have hzero := hwindow.length_eq_zero
  by_cases hcs : t.text = []
  · have hlen : (jaccardFinishWord m g s).2.fullLen = 0 := hzero.mpr hcs
    simp only [Signals.finishFull, TextMatch.finish, htext, hcs, hlen, if_true]
    exact ⟨hc.found, ha, hmoves⟩
  · have hlen : (jaccardFinishWord m g s).2.fullLen ≠ 0 := fun h0 => hcs (hzero.mp h0)
    simp only [Signals.finishFull, TextMatch.finish, htext, hcs, hlen, if_false]
    have hclose := Charges.close m (jaccardFinishWord m g s).1 (jaccardFinishWord m g s).2.full
      ⟨(jaccardFinishWord m g s).2.fullPrevious, (jaccardFinishWord m g s).2.fullLast,
        (jaccardFinishWord m g s).2.fullLen⟩ jaccardMaxTextGrams
    refine ⟨?_, hclose.accounted ha hissued, hmoves.trans ?_⟩
    · rw [hc.found]
      exact (hfull.close hwindow hcs (by decide)).match_eq _
    · refine ⟨hclose.toLater, fun key _ hown => hclose.frame key fun hk => hown (.inr hk), ?_⟩
      rintro token (ho | ho) -
      · exact .inl ho
      · exact .inr (ho.trans hclose.token)

theorem BytesTracked.finish {m : JaccardMaps} {g : QueryGrams} {s : JaccardState}
    {b : ByteMatch} (h : BytesTracked m g s b) (hd : TokensDistinct (jaccardFinish m g s).1) :
    (jaccardFinish m g s).2.toJaccardMatches = (b.finish m).found ∧
    Accounted (jaccardFinish m g s).1 ∧
    Moves g s (jaccardFinish m g s).1 (jaccardFinish m g s).2 := by
  rw [jaccardFinish_eq] at hd ⊢
  have hremaining : s.utf8Remaining = b.utf8.utf8Remaining := by rw [← h.utf8]
  by_cases hzero : s.utf8Remaining = 0
  · simp only [Signals.finishUtf8, hzero, if_true, ByteMatch.finish, ← hremaining]
    exact h.text.finish
  · simp only [Signals.finishUtf8, hzero, if_false, ByteMatch.finish, ← hremaining] at hd ⊢
    obtain ⟨htext, hmoves⟩ := (h.text.setUtf8 { s.toUtf8Scan with utf8Remaining := 0 }).codepoint
      space (hd.earlier ((Later.finishWord m _ _).trans (.finishFull m _ _)))
    obtain ⟨hfound, ha, hmoves'⟩ := htext.finish
    exact ⟨hfound, ha, hmoves.of_setUtf8.trans hmoves'⟩

end Xsr.Signals
