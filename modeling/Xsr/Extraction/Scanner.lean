import Xsr.Extraction.Codepoints
import Xsr.Signals.Classification

/-!
# Scanner — the content scanner over a text

`contentRun` feeds the bytes of a body to `scan_content_callback` and
collects what it scores. Between the characters of a text the scanner is in
one of three kinds of states: it searches for the key, it waits for the
opening quote, or it is inside the string. `Passes` and `Stops` say what a
piece of text does to it, and compose.
-/

namespace Xsr.Extraction

open Kernel Lib Signals

/-! ## Runs -/

/-- `scan_content_callback` over the bytes of a body, up to its `return 1`. -/
def contentRun (flow : ContentScan) : List UInt8 → ContentStep
  | [] => ⟨flow, [], false⟩
  | c :: cs =>
      let r := contentByte flow c
      if r.stop then r
      else
        let t := contentRun r.flow cs
        ⟨t.flow, r.scored ++ t.scored, t.stop⟩

theorem contentRun_stop {flow : ContentScan} {c : UInt8} (h : (contentByte flow c).stop = true)
    (cs : List UInt8) : contentRun flow (c :: cs) = contentByte flow c := by
  rw [contentRun, if_pos h]

theorem contentRun_go {flow : ContentScan} {c : UInt8} (h : (contentByte flow c).stop = false)
    (cs : List UInt8) :
    contentRun flow (c :: cs) =
      ⟨(contentRun (contentByte flow c).flow cs).flow,
        (contentByte flow c).scored ++ (contentRun (contentByte flow c).flow cs).scored,
        (contentRun (contentByte flow c).flow cs).stop⟩ := by
  rw [contentRun, if_neg (by rw [h]; exact Bool.false_ne_true)]

/-- The bytes scored over a body, as the classification sees them. -/
theorem scoredBytes_eq (body : List UInt8) :
    scoredBytes body = (contentRun .initial body).scored := by
  have hscan : ∀ (flow : ContentScan) (scored : List UInt8),
      (scan contentStep (flow, scored) body).1.2 = scored ++ (contentRun flow body).scored := by
    induction body with
    | nil => exact fun _ scored => (List.append_nil scored).symm
    | cons c cs ih =>
        intro flow scored
        cases hstop : (contentByte flow c).stop with
        | true =>
            rw [scan_cons_stop cs (show (contentStep (flow, scored) c).2 = true from hstop),
              contentRun_stop hstop]
            rfl
        | false =>
            rw [scan_cons_go cs (show (contentStep (flow, scored) c).2 = false from hstop),
              contentRun_go hstop, ← List.append_assoc]
            exact ih _ _
  rw [scoredBytes, hscan, List.nil_append]

/-- **What the body scan does to the classifier**: it scores these bytes. -/
theorem bodyScan_eq (m : ClassifierMaps) (b : BodyScan) (body : List UInt8) :
    (scan (bodyByte m) b body).1 =
      ⟨(contentRun b.content body).flow,
        (classifierScoreChars m b.grams b.classifier (contentRun b.content body).scored).2,
        (classifierScoreChars m b.grams b.classifier (contentRun b.content body).scored).1⟩ := by
  have happend : ∀ (g : QueryGrams) (s : ClassifierState) (cs cs' : List UInt8),
      classifierScoreChars m g s (cs ++ cs') =
        classifierScoreChars m (classifierScoreChars m g s cs).1
          (classifierScoreChars m g s cs).2 cs' := by
    intro g s cs cs'
    induction cs generalizing g s with
    | nil => rfl
    | cons c cs ih => exact ih _ _
  induction body generalizing b with
  | nil => rfl
  | cons c cs ih =>
      cases hstop : (contentByte b.content c).stop with
      | true =>
          rw [scan_cons_stop cs (show (bodyByte m b c).2 = true from hstop),
            contentRun_stop hstop]
          rfl
      | false =>
          rw [scan_cons_go cs (show (bodyByte m b c).2 = false from hstop), contentRun_go hstop,
            ih, happend]
          rfl

/-! ## Pieces of text -/

/-- The text takes the scanner from one state to another, and it goes on. -/
def Passes (flow : ContentScan) (text : List Char) (flow' : ContentScan) (scored : List UInt8) :
    Prop :=
  contentRun flow (encodeUtf8 text) = ⟨flow', scored, false⟩

/-- The scanner stops inside the text. -/
structure Stops (flow : ContentScan) (text : List Char) (scored : List UInt8) : Prop where
  stop : (contentRun flow (encodeUtf8 text)).stop = true
  scored : (contentRun flow (encodeUtf8 text)).scored = scored

theorem encodeUtf8_append (cs cs' : List Char) :
    encodeUtf8 (cs ++ cs') = encodeUtf8 cs ++ encodeUtf8 cs' := List.flatMap_append

theorem contentRun_append {flow flow' : ContentScan} {bs out : List UInt8}
    (h : contentRun flow bs = ⟨flow', out, false⟩) (bs' : List UInt8) :
    contentRun flow (bs ++ bs') =
      ⟨(contentRun flow' bs').flow, out ++ (contentRun flow' bs').scored,
        (contentRun flow' bs').stop⟩ := by
  induction bs generalizing flow out with
  | nil =>
      cases h
      rfl
  | cons c cs ih =>
      cases hstop : (contentByte flow c).stop with
      | true =>
          rw [contentRun_stop hstop] at h
          rw [h] at hstop
          cases hstop
      | false =>
          rw [contentRun_go hstop] at h
          injection h with hflow hscored hgo
          have hrest : contentRun (contentByte flow c).flow cs =
              ⟨flow', (contentRun (contentByte flow c).flow cs).scored, false⟩ := by
            rw [← hflow, ← hgo]
          rw [List.cons_append, contentRun_go hstop, ih hrest, ← hscored, List.append_assoc]

theorem contentRun_stopped {flow : ContentScan} {bs : List UInt8}
    (h : (contentRun flow bs).stop = true) (bs' : List UInt8) :
    contentRun flow (bs ++ bs') = contentRun flow bs := by
  induction bs generalizing flow with
  | nil => cases h
  | cons c cs ih =>
      cases hstop : (contentByte flow c).stop with
      | true => rw [List.cons_append, contentRun_stop hstop, contentRun_stop hstop]
      | false =>
          rw [contentRun_go hstop] at h
          rw [List.cons_append, contentRun_go hstop, contentRun_go hstop, ih h]

section Compose
variable {flow flow' flow'' : ContentScan} {text text' : List Char} {scored scored' : List UInt8}

theorem Passes.nil (flow : ContentScan) : Passes flow [] flow [] := rfl

theorem Passes.append (h : Passes flow text flow' scored) (h' : Passes flow' text' flow'' scored') :
    Passes flow (text ++ text') flow'' (scored ++ scored') := by
  rw [Passes, encodeUtf8_append, contentRun_append h, h']

theorem Passes.stops (h : Passes flow text flow' scored) (h' : Stops flow' text' scored') :
    Stops flow (text ++ text') (scored ++ scored') := by
  constructor
  · rw [encodeUtf8_append, contentRun_append h]
    exact h'.stop
  · rw [encodeUtf8_append, contentRun_append h]
    exact congrArg _ h'.scored

theorem Stops.append (h : Stops flow text scored) (text' : List Char) :
    Stops flow (text ++ text') scored := by
  constructor
  · rw [encodeUtf8_append, contentRun_stopped h.stop]
    exact h.stop
  · rw [encodeUtf8_append, contentRun_stopped h.stop]
    exact h.scored

/-- Text that scores nothing may be left out. -/
theorem Passes.silent (h : Passes flow text flow' []) (h' : Passes flow' text' flow'' scored) :
    Passes flow (text ++ text') flow'' scored := h.append h'

theorem Passes.silent_stops (h : Passes flow text flow' []) (h' : Stops flow' text' scored) :
    Stops flow (text ++ text') scored := h.stops h'

end Compose

/-! ## The states between characters -/

/-- Searching for the key, `pos` of its characters read. -/
def searching (pos : Nat) : ContentScan := { ContentScan.initial with contentKeyPos := pos }

/-- Waiting for the opening quote. -/
def waiting : ContentScan := { ContentScan.initial with waitingForQuote := true }

/-- Inside the string, `high` a high surrogate that waits for its partner. -/
def inside (high : Nat) : ContentScan :=
  { ContentScan.initial with inContent := true, unicodeHighSurrogate := high }

/-- The byte of an ASCII character. -/
def asciiByte (c : Char) : UInt8 := UInt8.ofNat c.toNat

theorem asciiByte_inj {c d : Char} (hc : c.toNat < 128) (hd : d.toNat < 128) :
    asciiByte c = asciiByte d ↔ c = d := by
  refine ⟨fun h => ?_, fun h => by rw [h]⟩
  have hnat := congrArg UInt8.toNat h
  rw [asciiByte, asciiByte, UInt8.toNat_ofNat', UInt8.toNat_ofNat', Nat.mod_eq_of_lt (by omega),
    Nat.mod_eq_of_lt (by omega)] at hnat
  exact Char.toNat_inj.mp hnat

theorem encodeUtf8_ascii {c : Char} (h : c.toNat < 128) : encodeUtf8 [c] = [asciiByte c] := by
  rw [encodeUtf8, List.flatMap_singleton, utf8EncodeChar_ascii h, asciiByte]

/-- An ASCII character is one step of the scanner. -/
theorem passes_ascii {flow : ContentScan} {c : Char} (hc : c.toNat < 128)
    {r : ContentStep} (h : contentByte flow (asciiByte c) = r) (hstop : r.stop = false) :
    Passes flow [c] r.flow r.scored := by
  rw [Passes, encodeUtf8_ascii hc, contentRun_go (by rw [h]; exact hstop), h]
  simp only [contentRun, List.append_nil]

/-- The characters of `"content":`. -/
def keyText : List Char := ['"', 'c', 'o', 'n', 't', 'e', 'n', 't', '"', ':']

/-- The position after one more character. -/
def keyNext (pos : Nat) (c : Char) : Nat :=
  if keyText[pos]? = some c then pos + 1 else if c = '"' then 1 else 0

theorem contentKeyChar_eq : ∀ pos < 10, ∃ d : Char, keyText[pos]? = some d ∧ d.toNat < 128 ∧
    contentKeyChar pos = asciiByte d := by
  intro pos hpos
  have hchar : ∀ pos : Fin 10, contentKeyChar pos = asciiByte (keyText.get pos) ∧
      (keyText.get pos).toNat < 128 := by
    decide
  exact ⟨keyText.get ⟨pos, hpos⟩, List.getElem?_eq_getElem hpos, (hchar ⟨pos, hpos⟩).2,
    (hchar ⟨pos, hpos⟩).1⟩

/-- Bytes of a character that is not ASCII end the search for the moment. -/
theorem searching_high {bs : List UInt8} (hne : bs ≠ []) (h : ∀ b ∈ bs, 128 ≤ b.toNat)
    {pos : Nat} (hpos : pos < 10) : contentRun (searching pos) bs = ⟨searching 0, [], false⟩ := by
  have hstep : ∀ {b : UInt8} {pos : Nat}, 128 ≤ b.toNat → pos < 10 →
      contentByte (searching pos) b = ⟨searching 0, [], false⟩ := by
    intro b pos hb hpos
    obtain ⟨d, -, hd, hkey⟩ := contentKeyChar_eq pos hpos
    have hlt : (asciiByte d).toNat < 128 := by
      rw [asciiByte, UInt8.toNat_ofNat']
      omega
    have hmiss : b ≠ contentKeyChar pos := by
      rintro rfl
      rw [hkey] at hb
      omega
    have hquote : b ≠ quote := by
      rintro rfl
      exact absurd hb (by decide)
    simp only [contentByte, searching, ContentScan.initial, Bool.false_eq_true, if_false, hmiss,
      hquote]
  induction bs generalizing pos with
  | nil => exact absurd rfl hne
  | cons b bs ih =>
      have hb := hstep (h b (by simp)) hpos
      rw [contentRun_go (by rw [hb]), hb]
      by_cases hbs : bs = []
      · subst hbs
        rfl
      · rw [ih hbs (fun b' hb' => h b' (by simp [hb'])) (Nat.zero_lt_succ 9)]
        rfl

/-- **One character of the search.** -/
theorem search_char {pos : Nat} (hpos : pos < 9) (c : Char) :
    Passes (searching pos) [c] (searching (keyNext pos c)) [] := by
  obtain ⟨d, hd, hdlt, hkey⟩ := contentKeyChar_eq pos (by omega)
  by_cases hc : c.toNat < 128
  · refine passes_ascii hc (r := ⟨searching (keyNext pos c), [], false⟩) ?_ rfl
    have hmatch : asciiByte c = contentKeyChar pos ↔ c = d := by
      rw [hkey, asciiByte_inj hc hdlt]
    have hquote : asciiByte c = quote ↔ c = '"' :=
      asciiByte_inj hc (show ('"' : Char).toNat < 128 by decide)
    simp only [contentByte, searching, ContentScan.initial, Bool.false_eq_true, if_false, hmatch,
      hquote, keyNext, hd, Option.some.injEq, @eq_comm _ d c, show pos + 1 ≠ 10 by omega]
    split_ifs <;> rfl
  · have hmiss : c ≠ d := by
      rintro rfl
      exact hc hdlt
    have hquote : c ≠ '"' := by
      rintro rfl
      exact hc (by decide)
    obtain ⟨hne, hhigh⟩ := utf8EncodeChar_other hc
    rw [Passes, encodeUtf8, List.flatMap_singleton, searching_high hne hhigh (by omega), keyNext,
      hd, if_neg (fun h => hmiss (Option.some.inj h).symm), if_neg hquote]

theorem search_miss {c : Char} (hc : c.toNat < 128) (hcolon : c ≠ ':') (hquote : c ≠ '"') :
    Passes (searching 9) [c] (searching 0) [] := by
  refine passes_ascii hc (r := ⟨searching 0, [], false⟩) ?_ rfl
  have hcolon : asciiByte c ≠ contentKeyChar 9 := fun h =>
    hcolon ((asciiByte_inj hc (show (':' : Char).toNat < 128 by decide)).mp h)
  have hquote : asciiByte c ≠ quote := fun h =>
    hquote ((asciiByte_inj hc (show ('"' : Char).toNat < 128 by decide)).mp h)
  simp only [contentByte, searching, ContentScan.initial, Bool.false_eq_true, if_false, hcolon,
    hquote]

/-! ## Waiting -/

theorem wait_blank {c : Char} (h : c = ' ' ∨ c = '\t') : Passes waiting [c] waiting [] := by
  rcases h with rfl | rfl <;> rfl

theorem wait_quote : Passes waiting ['"'] (inside 0) [] := rfl

theorem wait_other {c : Char} (hc : c.toNat < 128) (hblank : c ≠ ' ') (htab : c ≠ '\t')
    (hquote : c ≠ '"') : Passes waiting [c] (searching 0) [] := by
  refine passes_ascii hc (r := ⟨searching 0, [], false⟩) ?_ rfl
  have hne : ∀ {d : Char}, d.toNat < 128 → c ≠ d → asciiByte c ≠ asciiByte d := fun hd h heq =>
    h ((asciiByte_inj hc hd).mp heq)
  have hblank : asciiByte c ≠ blank := hne (by decide) hblank
  have htab : asciiByte c ≠ tab := hne (by decide) htab
  have hquote : asciiByte c ≠ quote := hne (by decide) hquote
  simp only [contentByte, waiting, ContentScan.initial, Bool.false_eq_true, if_false, if_true,
    hquote, ne_eq, hblank, htab, not_false_eq_true, and_self]
  rfl

end Xsr.Extraction
