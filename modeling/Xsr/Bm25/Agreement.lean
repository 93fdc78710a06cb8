import Xsr.Bm25.Trace

/-!
# Agreement — where the two tokenizers split alike

The scorer joins runs over any connector that stands alone, whatever the
connector before it was, and over a dot between two digits; the pattern has
one alternative for each connector. `tokens_agree_iff`: they give the same
tokens exactly when every chain of the text is uniform. The induction goes
from one maximal chain to the next.
-/

namespace Xsr.Bm25

open Kernel Lib Regex Bm25Trace

/-- No letter in upper case. -/
def Lowered (s : List UInt8) : Prop := ∀ c ∈ s, isUpper c = false

theorem Lowered.append {a b : List UInt8} (h : Lowered (a ++ b)) : Lowered a ∧ Lowered b :=
  ⟨fun c hc => h c (by simp [hc]), fun c hc => h c (by simp [hc])⟩

theorem wordChar_eq {c : UInt8} (h : isUpper c = false) : bm25WordChar c = alnum c := by
  simp [bm25WordChar, alnum, h]

/-- Between two words. -/
structure Idle (t : Bm25Trace) : Prop where
  inWord : t.state.inWord = false
  pending : t.state.pendingConnector = 0
  token : t.token = []

/-- Inside a word whose last character is `a`. -/
structure Open (a : UInt8) (t : Bm25Trace) : Prop where
  inWord : t.state.inWord = true
  pending : t.state.pendingConnector = 0
  previous : t.state.previousChar = a

section Steps
variable {m : Bm25Maps} {t : Bm25Trace} {a c : UInt8}

theorem idle_init : Idle init := ⟨rfl, rfl, rfl⟩

theorem Idle.finish (h : Idle t) : t.finishWord m = t := by
  rw [finishWord, if_neg (by rw [h.inWord]; decide)]

/-- Finishing an open word closes its token. -/
theorem Open.finish (h : Open a t) :
    Idle (t.finishWord m) ∧ (t.finishWord m).closed = t.closed ++ [t.token] := by
  obtain ⟨-, hin, hpending⟩ := bm25FinishWord_reset m t.state h.inWord
  rw [finishWord, if_pos h.inWord]
  exact ⟨⟨hin, hpending, rfl⟩, rfl⟩

/-- A pending connector does not change how a word ends. -/
theorem Open.finish_pending (h : Open a t) (k : UInt8) :
    (t.setPending k).finishWord m = t.finishWord m := by
  have hstate : bm25FinishWord m { t.state with pendingConnector := k }
      = bm25FinishWord m t.state := by
    simp only [bm25FinishWord, h.inWord]
    rfl
  have hin : (t.setPending k).state.inWord = true := h.inWord
  rw [finishWord, if_pos hin, finishWord, if_pos h.inWord]
  exact congrArg (fun s => (⟨s, [], t.closed ++ [t.token]⟩ : Bm25Trace)) hstate

/-- A character that is neither a letter nor a digit, outside a word. -/
theorem Idle.skip (h : Idle t) (hc : bm25WordChar c = false) : t.scoreLower m c = t := by
  rw [scoreLower, if_neg (by rw [hc]; decide), if_neg (by simp [h.inWord]), h.finish]

/-- Taking a byte leaves the rest of the state. -/
theorem takeByte_frame (s : Bm25State) (c : UInt8) :
    (bm25TakeByte s c).pendingConnector = s.pendingConnector ∧
    (bm25TakeByte s c).inWord = s.inWord ∧ (bm25TakeByte s c).previousChar = s.previousChar := by
  simp only [bm25TakeByte, bm25AppendTokenByte]
  split_ifs <;> exact ⟨rfl, rfl, rfl⟩

/-- A letter or digit with no connector pending. -/
theorem scoreLower_letter (hpending : t.state.pendingConnector = 0) (hc : bm25WordChar c = true) :
    Open c (t.scoreLower m c) ∧ (t.scoreLower m c).token = t.token ++ [c] ∧
    (t.scoreLower m c).closed = t.closed := by
  have hstep : t.scoreLower m c = { t.takeByte c with
      state := { (t.takeByte c).state with inWord := true, previousChar := c } } := by
    rw [scoreLower, if_pos hc, if_neg (not_not.mpr hpending)]
  rw [hstep]
  exact ⟨⟨rfl, (takeByte_frame t.state c).1.trans hpending, rfl⟩, rfl, rfl⟩

/-- A connector in a word is held back. -/
theorem Open.connector (h : Open a t) {k : UInt8} (hk : bm25Connector k = true)
    (hword : bm25WordChar k = false) : t.scoreLower m k = t.setPending k := by
  rw [scoreLower, if_neg (by rw [hword]; decide), if_pos]
  simp [hk, h.inWord, h.pending]

/-- **A joint**: the connector and the character behind it are taken. -/
theorem Open.joint (h : Open a t) {k : UInt8} (hk : joins a k c = true)
    (hword : bm25WordChar k = false) (hc : bm25WordChar c = true) :
    Open c ((t.scoreLower m k).scoreLower m c) ∧
    ((t.scoreLower m k).scoreLower m c).token = t.token ++ [k, c] ∧
    ((t.scoreLower m k).scoreLower m c).closed = t.closed := by
  obtain ⟨-, hconn, -, hdot⟩ := joins_iff.mp hk
  have hne : k ≠ 0 := fun h0 => by rw [h0] at hconn; exact absurd hconn (by decide)
  have hvalid : bm25ConnectorValid (t.setPending k).state c = true := by
    have hprevious : (t.setPending k).state.previousChar = a := h.previous
    have hpending : (t.setPending k).state.pendingConnector = k := rfl
    rw [bm25ConnectorValid, hprevious, hpending]
    by_cases hd : k = dot
    · obtain ⟨ha, hcd⟩ := hdot hd
      simp [ha, hcd]
    · simp [hd]
  have hstep : (t.scoreLower m k).scoreLower m c
      = { (((t.setPending k).takeByte k).setPending 0).takeByte c with
          state := { ((((t.setPending k).takeByte k).setPending 0).takeByte c).state with
            inWord := true, previousChar := c } } := by
    have hne' : (t.setPending k).state.pendingConnector ≠ 0 := hne
    rw [h.connector hconn hword, scoreLower, if_pos hc, if_pos hne', if_pos hvalid]
    rfl
  rw [hstep]
  exact ⟨⟨rfl, (takeByte_frame _ c).1, rfl⟩, by simp [takeByte, setPending], rfl⟩

/-- **A connector that joins nothing** ends the word, and the character
behind it starts the next. -/
theorem Open.no_joint (h : Open a t) {k : UInt8} (hk : joins a k c = false)
    (hconn : bm25Connector k = true) (ha : alnum a = true) (hword : bm25WordChar k = false)
    (hc : bm25WordChar c = true) (hcl : alnum c = true) :
    (t.scoreLower m k).scoreLower m c = (t.finishWord m).scoreLower m c := by
  have hne : k ≠ 0 := fun h0 => by rw [h0] at hconn; exact absurd hconn (by decide)
  have hinvalid : ¬ bm25ConnectorValid (t.setPending k).state c = true := by
    intro hvalid
    have hprevious : (t.setPending k).state.previousChar = a := h.previous
    have hpending : (t.setPending k).state.pendingConnector = k := rfl
    rw [bm25ConnectorValid, hprevious, hpending] at hvalid
    simp only [Bool.or_eq_true, Bool.and_eq_true, decide_eq_true_eq] at hvalid
    have : joins a k c = true :=
      joins_iff.mpr ⟨ha, hconn, hcl, fun hd => hvalid.resolve_left (not_not.mpr hd)⟩
    rw [this] at hk
    cases hk
  have hidle := (h.finish (m := m)).1
  have hreset : (t.finishWord m).setPending 0 = t.finishWord m := by
    have := hidle.pending
    unfold setPending
    rw [← this]
  have hne' : (t.setPending k).state.pendingConnector ≠ 0 := hne
  rw [h.connector hconn hword, scoreLower, if_pos hc, if_pos hne', if_neg hinvalid,
    h.finish_pending, hreset, scoreLower, if_pos hc, if_neg (not_not.mpr hidle.pending)]

/-- Any other character ends an open word. -/
theorem scoreLower_other (hc : bm25WordChar c = false) (hconn : bm25Connector c = false) :
    t.scoreLower m c = t.finishWord m := by
  rw [scoreLower, if_neg (by rw [hc]; decide), if_neg (by simp [hconn])]

/-- So does any character but a letter or digit behind a connector. -/
theorem Open.pending_other (h : Open a t) {k : UInt8} (hconn : bm25Connector k = true)
    (hword : bm25WordChar k = false) (hc : bm25WordChar c = false) :
    (t.scoreLower m k).scoreLower m c = t.finishWord m := by
  have hne : k ≠ 0 := fun h0 => by rw [h0] at hconn; exact absurd hconn (by decide)
  have hpending : (t.setPending k).state.pendingConnector = k := rfl
  rw [h.connector hconn hword, scoreLower, if_neg (by rw [hc]; decide), if_neg (by simp [hpending, hne]),
    h.finish_pending]

end Steps

/-! ## Chains -/

section Chains
variable {m : Bm25Maps}

/-- **A chain** is read into one token. -/
theorem Open.chain {a : UInt8} {w : List UInt8} (h : Chained (a :: w)) : ∀ {t : Bm25Trace},
    Open a t → Lowered w →
    Open (w.getLastD a) (w.foldl (scoreLower m) t) ∧
    (w.foldl (scoreLower m) t).token = t.token ++ w ∧
    (w.foldl (scoreLower m) t).closed = t.closed := by
  generalize hv : a :: w = v at h
  induction h generalizing a w with
  | single _ => intro t ht _; cases hv; exact ⟨ht, by simp, rfl⟩
  | @run a' b w' _ hb _ ih =>
      intro t ht hlow
      cases hv
      have hword : bm25WordChar b = true := by rw [wordChar_eq (hlow b (by simp))]; exact hb
      obtain ⟨hopen, htoken, hclosed⟩ := scoreLower_letter (m := m) ht.pending hword
      obtain ⟨hlast, htoken', hclosed'⟩ := ih rfl hopen fun c hc => hlow c (by simp [hc])
      rw [List.foldl_cons, List.getLastD_cons]
      exact ⟨hlast, by rw [htoken', htoken]; simp, hclosed'.trans hclosed⟩
  | @joint a' k b w' hk _ ih =>
      intro t ht hlow
      cases hv
      obtain ⟨-, hconn, hb, -⟩ := joins_iff.mp hk
      have hnot : bm25WordChar k = false := by
        rw [wordChar_eq (hlow k (by simp))]; exact connector_not_alnum hconn
      have hword : bm25WordChar b = true := by rw [wordChar_eq (hlow b (by simp))]; exact hb
      obtain ⟨hopen, htoken, hclosed⟩ := ht.joint (m := m) hk hnot hword
      obtain ⟨hlast, htoken', hclosed'⟩ := ih rfl hopen fun c hc => hlow c (by simp [hc])
      rw [List.foldl_cons, List.foldl_cons, List.getLastD_cons, List.getLastD_cons]
      exact ⟨hlast, by rw [htoken', htoken]; simp, hclosed'.trans hclosed⟩

/-- **The end of a chain**: from there on it is as if the word had been
finished before. -/
theorem Open.stop {a : UInt8} {t : Bm25Trace} (h : Open a t) (ha : alnum a = true)
    {rest : List UInt8} (hstops : Stops a rest) (hlow : Lowered rest) :
    (rest.foldl (scoreLower m) t).finishWord m
      = (rest.foldl (scoreLower m) (t.finishWord m)).finishWord m := by
  have hidle := (h.finish (m := m)).1
  cases rest with
  | nil => exact hidle.finish.symm
  | cons s rest =>
      obtain ⟨hs, hnext⟩ := hstops s rest rfl
      have hnot : bm25WordChar s = false := by rw [wordChar_eq (hlow s (by simp))]; exact hs
      rw [List.foldl_cons, List.foldl_cons, hidle.skip hnot]
      cases hconn : bm25Connector s with
      | false => rw [scoreLower_other hnot hconn]
      | true =>
          cases rest with
          | nil =>
              rw [h.connector hconn hnot]
              exact (h.finish_pending s).trans hidle.finish.symm
          | cons c rest =>
              have hc := wordChar_eq (hlow c (by simp))
              rw [List.foldl_cons, List.foldl_cons]
              cases hcl : alnum c with
              | true =>
                  rw [h.no_joint (hnext c rest rfl) hconn ha hnot (hc.trans hcl) hcl]
              | false =>
                  rw [h.pending_other hconn hnot (hc.trans hcl), hidle.skip (hc.trans hcl)]

/-- Closed tokens stay. -/
theorem closed_prefix_finishWord (t : Bm25Trace) : t.closed <+: (t.finishWord m).closed := by
  unfold finishWord
  split_ifs
  · exact List.prefix_append _ _
  · exact List.prefix_refl _

theorem closed_prefix_scoreLower (t : Bm25Trace) (c : UInt8) :
    t.closed <+: (t.scoreLower m c).closed := by
  have hfinish : ∀ t : Bm25Trace, t.closed <+: (t.finishWord m).closed := closed_prefix_finishWord
  unfold scoreLower
  split_ifs
  · exact List.prefix_refl _
  · exact hfinish t
  · exact List.prefix_refl _
  · exact List.prefix_refl _
  · exact hfinish t

/-- The tokens closed by the rest of a text and the final finish. -/
def closedFrom (m : Bm25Maps) (t : Bm25Trace) (s : List UInt8) : List (List UInt8) :=
  ((s.foldl (scoreLower m) t).finishWord m).closed

theorem closed_prefix (s : List UInt8) : ∀ t : Bm25Trace, t.closed <+: closedFrom m t s := by
  induction s with
  | nil => exact closed_prefix_finishWord
  | cons c s ih => exact fun t => (closed_prefix_scoreLower t c).trans (ih (t.scoreLower m c))

/-- **The scorer's next token** is the next maximal chain. -/
theorem closedFrom_chain {t : Bm25Trace} (ht : Idle t) {a : UInt8} {w rest : List UInt8}
    (hchain : Chained (a :: w)) (hstops : Stops (w.getLastD a) rest)
    (hlow : Lowered (a :: (w ++ rest))) :
    ∃ t', Idle t' ∧ t'.closed = t.closed ++ [a :: w] ∧
      closedFrom m t (a :: (w ++ rest)) = closedFrom m t' rest := by
  have hword : bm25WordChar a = true := by
    rw [wordChar_eq (hlow a (by simp))]; exact hchain.head
  obtain ⟨hloww, hlowrest⟩ :=
    Lowered.append (a := w) (b := rest) fun c hc => hlow c (List.mem_cons_of_mem _ hc)
  obtain ⟨hopen, htoken, hclosed⟩ := scoreLower_letter (m := m) ht.pending hword
  obtain ⟨hlast, htoken', hclosed'⟩ := hopen.chain hchain hloww
  obtain ⟨hidle, hclosed''⟩ := hlast.finish (m := m)
  refine ⟨_, hidle, ?_, ?_⟩
  · rw [hclosed'', hclosed', hclosed, htoken', htoken, ht.token]
    rfl
  · rw [closedFrom, List.foldl_cons, List.foldl_append, hlast.stop hchain.last hstops hlowrest]
    rfl

end Chains

/-! ## The texts -/

/-- Every chain of a text is uniform. -/
def AllUniform (s : List UInt8) : Prop := ∀ w, w <:+: s → Chained w → Uniform w

theorem Uniform.infix {v w : List UInt8} (h : Uniform w) (hv : v <:+: w) : Uniform v :=
  ⟨fun k hk k' hk' => h.1 k (hv.mem hk) k' (hv.mem hk'),
    fun hdot c hc => h.2 (hv.mem hdot) c (hv.mem hc)⟩

theorem allUniform_skip {c : UInt8} {s : List UInt8} (hc : alnum c = false) :
    AllUniform (c :: s) ↔ AllUniform s := by
  constructor
  · exact fun h w hw => h w (hw.trans (List.suffix_cons c s).isInfix)
  · intro h w hw hchained
    rcases List.infix_cons_iff.mp hw with hprefix | hinfix
    · cases w with
      | nil => exact absurd rfl hchained.ne_nil
      | cons d w =>
          obtain ⟨rfl, -⟩ := List.cons_prefix_cons.mp hprefix
          rw [hchained.head] at hc
          cases hc
    · exact h w hinfix hchained

theorem allUniform_chain {a : UInt8} {w rest : List UInt8} (hchain : Chained (a :: w))
    (hstops : Stops (w.getLastD a) rest) :
    AllUniform (a :: (w ++ rest)) ↔ Uniform (a :: w) ∧ AllUniform rest := by
  constructor
  · intro h
    exact ⟨h _ (List.prefix_append (a :: w) rest).isInfix hchain,
      fun v hv => h v (hv.trans (List.suffix_append (a :: w) rest).isInfix)⟩
  · rintro ⟨hu, hrest⟩ v hv hchained
    rcases chained_infix_append hstops hchained hv with hv | hv
    · exact hu.infix hv
    · exact hrest v hv hchained

/-- **Agreement** on a normalised text, from between two words. -/
theorem closedFrom_iff (m : Bm25Maps) (n : Nat) : ∀ (s : List UInt8) (t : Bm25Trace),
    s.length ≤ n → Lowered s → Idle t →
    (closedFrom m t s = t.closed ++ findall asciiWord s ↔ AllUniform s) := by
  induction n using Nat.strong_induction_on with
  | _ n ih =>
      intro s t hn hlow ht
      cases s with
      | nil =>
          have hall : AllUniform [] := fun w hw hchained =>
            absurd (List.infix_nil.mp hw) hchained.ne_nil
          refine ⟨fun _ => hall, fun _ => ?_⟩
          rw [closedFrom, List.foldl_nil, ht.finish, findall_nil, List.append_nil]
      | cons c s =>
          simp only [List.length_cons] at hn
          -- either a separator is skipped, or a whole chain is read at once
          cases hc : alnum c with
          | false =>
              have hskip : closedFrom m t (c :: s) = closedFrom m t s := by
                rw [closedFrom, List.foldl_cons,
                  ht.skip (by rw [wordChar_eq (hlow c (by simp))]; exact hc)]
                rfl
              rw [hskip, findall_skip (first_asciiWord_none hc s), allUniform_skip hc]
              exact ih s.length (by omega) s t (Nat.le_refl _)
                (fun d hd => hlow d (by simp [hd])) ht
          | true =>
              obtain ⟨w, rest, rfl, hchain, hstops⟩ := exists_chain s.length c s (Nat.le_refl _) hc
              obtain ⟨t', hidle, hclosed, hkernel⟩ := closedFrom_chain (m := m) ht hchain hstops hlow
              obtain ⟨word, behind, hword⟩ := first_asciiWord_some hc (w ++ rest)
              rw [hkernel, findall_match hword (by simp), allUniform_chain hchain hstops]
              by_cases hu : Uniform (c :: w)
              · -- one word for the whole chain: go on behind it
                rw [first_uniform hchain hstops hu] at hword
                cases hword
                have hrest := ih rest.length (by rw [List.length_append] at hn; omega) rest t'
                  (Nat.le_refl _) (fun d hd => hlow d (by simp [hd])) hidle
                rw [hclosed, List.append_assoc, List.singleton_append] at hrest
                rw [hrest]
                simp [hu]
              · -- the pattern stops inside the chain
                refine ⟨fun heq => absurd ?_ hu, fun h => absurd h.1 hu⟩
                obtain ⟨tail, htail⟩ := closed_prefix (m := m) rest t'
                rw [hclosed, List.append_assoc] at htail
                rw [← htail] at heq
                have hhead := (List.cons.inj (List.append_cancel_left heq)).1
                rw [hhead]
                exact uniform_of_first hword

/-! ## Bytes -/

theorem lower_other {b : UInt8} (h : 128 ≤ b.toNat) :
    bm25WordChar (lower b) = false ∧ bm25Connector (lower b) = false :=
  forall_uint8 (P := fun b => 128 ≤ b.toNat →
    bm25WordChar (lower b) = false ∧ bm25Connector (lower b) = false) (by decide +kernel) b h

theorem queryText_lowered (text : List Char) : Lowered (queryText text) := by
  intro c hc
  obtain ⟨d, -, rfl⟩ := List.mem_map.mp hc
  exact forall_uint8 (P := fun b => isUpper (lower b) = false) (by decide +kernel) _

theorem finishWord_finishWord (m : Bm25Maps) (t : Bm25Trace) :
    (t.finishWord m).finishWord m = t.finishWord m := by
  cases hin : t.state.inWord with
  | true =>
      have hreset := (bm25FinishWord_reset m t.state hin).2.1
      rw [finishWord, if_neg]
      rw [finishWord, if_pos hin, hreset]
      decide
  | false => rw [show t.finishWord m = t from if_neg (by rw [hin]; decide)]; exact if_neg (by rw [hin]; decide)

/-- The bytes of a code point that is not ASCII only end a word. -/
theorem foldl_scoreChar_other (m : Bm25Maps) (bytes : List UInt8) : ∀ t : Bm25Trace, bytes ≠ [] →
    (∀ b ∈ bytes, 128 ≤ b.toNat) → bytes.foldl (scoreChar m) t = t.finishWord m := by
  induction bytes with
  | nil => intro t h _; exact absurd rfl h
  | cons b bytes ih =>
      intro t _ hbytes
      obtain ⟨hword, hconn⟩ := lower_other (hbytes b (by simp))
      rw [List.foldl_cons, scoreChar, scoreLower_other hword hconn]
      cases bytes with
      | nil => rfl
      | cons b' bytes =>
          rw [ih (t.finishWord m) (by simp) fun d hd => hbytes d (by simp [hd]),
            finishWord_finishWord]

/-- **The bytes of a text** are scored as its normalisation. -/
theorem foldl_encodeUtf8 (m : Bm25Maps) (text : List Char) : ∀ t : Bm25Trace,
    (encodeUtf8 text).foldl (scoreChar m) t = (queryText text).foldl (scoreLower m) t := by
  induction text with
  | nil => exact fun _ => rfl
  | cons c text ih =>
      intro t
      rw [encodeUtf8, List.flatMap_cons, List.foldl_append, queryText, List.map_cons, List.foldl_cons,
        ← encodeUtf8, ← queryText]
      by_cases hascii : c.toNat < 128
      · rw [utf8EncodeChar_ascii hascii, if_pos hascii]
        exact ih _
      · obtain ⟨hne, hbytes⟩ := utf8EncodeChar_other hascii
        have hblank : t.scoreLower m (lower blank) = t.finishWord m :=
          scoreLower_other (by decide) (by decide)
        rw [foldl_scoreChar_other m _ t hne hbytes, if_neg hascii, hblank]
        exact ih _

/-- A uniform text is cut alike. -/
theorem closedTokens_uniform (m : Bm25Maps) {text : List Char} (h : AllUniform (queryText text)) :
    closedTokens m (encodeUtf8 text) = findall asciiWord (queryText text) := by
  rw [closedTokens, foldl_encodeUtf8]
  exact (closedFrom_iff m (queryText text).length (queryText text) .init (Nat.le_refl _)
    (queryText_lowered text) idle_init).mpr h

/-- **Agreement of the tokenizers.** For any text, the scorer closes the
tokens the pattern finds exactly when in every stretch of the text made of
alphanumeric runs joined by connectors all connectors are the same, and
around a dot there are only digits. -/
theorem tokens_agree_iff (m : Bm25Maps) (text : List Char) :
    closedTokens m (encodeUtf8 text) = findall asciiWord (queryText text)
      ↔ AllUniform (queryText text) := by
  rw [closedTokens, foldl_encodeUtf8]
  exact closedFrom_iff m (queryText text).length (queryText text) .init (Nat.le_refl _)
    (queryText_lowered text) idle_init

/-- **The tokenizers disagree** on `foo_bar's`: one token for the scorer, the
words `foo_bar` and `s` for the pattern. -/
theorem tokens_disagree :
    closedTokens ⟨none, fun _ => none, fun _ => none⟩ (encodeUtf8 "foo_bar's".toList)
      ≠ findall asciiWord (queryText "foo_bar's".toList) := by
  decide

end Xsr.Bm25
