import Xsr.Lib.Decimal
import Xsr.Lib.Search
import Xsr.Parsing.HeaderRun

/-!
# LengthField — which bytes of a header block count as its length

The automaton looks for `content-length:` anywhere in a line and reads the
rest of that line. `lengthText` is the text a line contributes, whatever
part of the line the name stood in; `Counted` says what the automaton has
made of the texts of the lines so far. `LineStart.line` is the step, one
line, and `LineStart.close` the end of the block.
-/

namespace Xsr.Parsing

open Kernel Lib

/-- What a line contributes: the text after its first `content-length:`. -/
def lengthText (line : List UInt8) : List UInt8 := (after lower contentLengthName line).getD []

/-- The digits of a text; the automaton skips what is between them. -/
def countedDigits (text : List UInt8) : List UInt8 := text.filter isDigit

/-- A byte that is neither a digit nor a blank. -/
def Stray (text : List UInt8) : Prop := ∃ c ∈ text, isDigit c = false ∧ c ≠ blank ∧ c ≠ tab

/-- The first length the digit guard refuses. -/
def guardedLength : Nat := 262140

/-- What the automaton has made of the texts read so far. -/
structure Counted (text : List UInt8) (h : HeaderScan) : Prop where
  value : decimal (countedDigits text) < guardedLength →
    h.contentLength = decimal (countedDigits text)
  invalid : h.invalid = true ↔ Stray text ∨ guardedLength ≤ decimal (countedDigits text)

theorem countedDigits_append (a b : List UInt8) :
    countedDigits (a ++ b) = countedDigits a ++ countedDigits b := List.filter_append _ _

theorem stray_snoc {text : List UInt8} {c : UInt8} :
    Stray (text ++ [c]) ↔ Stray text ∨ (isDigit c = false ∧ c ≠ blank ∧ c ≠ tab) := by
  constructor
  · rintro ⟨d, hd, hstray⟩
    rcases List.mem_append.mp hd with hd | hd
    · exact .inl ⟨d, hd, hstray⟩
    · rw [List.mem_singleton.mp hd] at hstray
      exact .inr hstray
  · rintro (⟨d, hd, hstray⟩ | hstray)
    · exact ⟨d, by simp [hd], hstray⟩
    · exact ⟨c, by simp, hstray⟩

theorem isDigit_iff {c : UInt8} : isDigit c = true ↔ 48 ≤ c.toNat ∧ c.toNat ≤ 57 := by
  simp [isDigit, UInt8.le_iff_toNat_le]

theorem allDigits_countedDigits (text : List UInt8) : AllDigits (countedDigits text) :=
  fun _ hd => isDigit_iff.mp (List.mem_filter.mp hd).2

/-- Only the length and the verdict on it matter. -/
theorem Counted.congr {text : List UInt8} {h h' : HeaderScan} (hc : Counted text h)
    (hlength : h'.contentLength = h.contentLength) (hinvalid : h'.invalid = h.invalid) :
    Counted text h' :=
  ⟨fun hlt => hlength.trans (hc.value hlt), by rw [hinvalid]; exact hc.invalid⟩

/-- A digit: the guard refuses the number it would make, or it is made. -/
theorem Counted.digit {text : List UInt8} {flow : HeaderScan} (h : Counted text flow) {c : UInt8}
    (hd : isDigit c = true) : Counted (text ++ [c]) (readLengthByte flow c) := by
  obtain ⟨hvalue, hinvalid⟩ := h
  obtain ⟨hlow, hhigh⟩ := isDigit_iff.mp hd
  have hdigits : countedDigits (text ++ [c]) = countedDigits text ++ [c] := by
    rw [countedDigits_append]; simp [countedDigits, hd]
  have hstray : Stray (text ++ [c]) ↔ Stray text := by rw [stray_snoc]; simp [hd]
  have hnext := decimal_snoc (countedDigits text) c
  rw [← hdigits] at hnext
  have hguard : (maxRequest - 9) / 10 = 26213 := by decide
  have hguarded : guardedLength = 262140 := rfl
  unfold readLengthByte
  rw [if_pos hd, hguard]
  by_cases hbig : guardedLength ≤ decimal (countedDigits text)
  · -- refused already
    have hbig' : guardedLength ≤ decimal (countedDigits (text ++ [c])) := by omega
    have hset := hinvalid.mpr (.inr hbig)
    split_ifs
    · exact ⟨fun hlt => by omega, by simp only [true_iff]; exact .inr hbig'⟩
    · exact ⟨fun hlt => by omega, by simp only [hset, true_iff]; exact .inr hbig'⟩
  · rw [hvalue (by omega)]
    split_ifs with htrip
    · have hbig' : guardedLength ≤ decimal (countedDigits (text ++ [c])) := by omega
      exact ⟨fun hlt => by omega, by simp only [true_iff]; exact .inr hbig'⟩
    · have hsmall : ¬ guardedLength ≤ decimal (countedDigits (text ++ [c])) := by omega
      refine ⟨fun _ => ?_, by rw [hinvalid, hstray]; simp only [hbig, hsmall]⟩
      show u32 _ = _
      rw [u32_of_lt (by omega)]
      omega

/-- Any other byte of a length. -/
theorem Counted.other {text : List UInt8} {flow : HeaderScan} (h : Counted text flow) {c : UInt8}
    (hd : isDigit c = false) (hc : c ≠ cr) : Counted (text ++ [c]) (readLengthByte flow c) := by
  have hdigits : countedDigits (text ++ [c]) = countedDigits text := by
    rw [countedDigits_append]; simp [countedDigits, hd]
  unfold readLengthByte
  rw [if_neg (by simp [hd]), if_neg hc]
  split_ifs with hother
  · exact ⟨by rw [hdigits]; exact h.value, by simp [stray_snoc, hd, hother]⟩
  · refine ⟨by rw [hdigits]; exact h.value, ?_⟩
    rw [hdigits, stray_snoc, h.invalid]
    simp only [hd, true_and, hother, or_false]

/-- **One byte of a length.** -/
theorem Counted.byte {text : List UInt8} {flow : HeaderScan} (h : Counted text flow) {c : UInt8}
    (hc : c ≠ cr) : Counted (text ++ [c]) (readLengthByte flow c) := by
  cases hd : isDigit c with
  | true => exact h.digit hd
  | false => exact h.other hd hc

theorem readLengthByte_readingLength (flow : HeaderScan) {c : UInt8} (hc : c ≠ cr) :
    (readLengthByte flow c).readingLength = flow.readingLength := by
  unfold readLengthByte
  rw [if_neg hc]
  split_ifs <;> rfl

/-! ## The name -/

theorem contentLengthName_once : ∀ i, 0 < i → i < contentLengthName.length →
    contentLengthName[i]? ≠ contentLengthName.head? := by
  have hall : ∀ i, i < contentLengthName.length → 0 < i →
      contentLengthName[i]? ≠ contentLengthName.head? := by decide
  exact fun i hpos hlt => hall i hlt hpos

theorem contentLengthChar_eq {pos : Nat} (h : pos < 15) (c : UInt8) :
    c = contentLengthChar pos ↔ contentLengthName[pos]? = some c := by
  have hlen : pos < contentLengthName.length := h
  rw [contentLengthChar, if_pos h, List.getD_eq_getElem?_getD, List.getElem?_eq_getElem hlen]
  simp [eq_comm]

/-- One byte of the search for the name. -/
theorem matchKeyByte_eq {flow : HeaderScan} (h : flow.keyPos < 15) (c : UInt8) :
    (matchKeyByte flow c).keyPos = searchStep contentLengthName flow.keyPos (lower c) ∧
    (matchKeyByte flow c).readingLength
      = (flow.readingLength || searchStep contentLengthName flow.keyPos (lower c) == 15) ∧
    (matchKeyByte flow c).contentLength = flow.contentLength ∧
    (matchKeyByte flow c).invalid = flow.invalid := by
  have hhead : contentLengthName.head? = some (lower c) ↔ lower c = 99 := by
    simp [contentLengthName, eq_comm]
  unfold matchKeyByte searchStep
  simp only [contentLengthChar_eq h, hhead]
  by_cases hmatch : contentLengthName[flow.keyPos]? = some (lower c)
  · simp only [hmatch, if_true]
    by_cases hfull : flow.keyPos + 1 = 15
    · simp [hfull]
    · have hnot : (flow.keyPos + 1 == 15) = false := beq_eq_false_iff_ne.mpr hfull
      simp only [hfull, if_false, hnot, Bool.or_false, and_self]
  · simp only [hmatch, if_false]
    by_cases hc : lower c = 99 <;> simp [hc]

/-! ## One line -/

/-- The automaton has read `p` and not stopped. -/
structure Going (p : List UInt8) : Prop where
  scanning : Scanning p (headerRun p)
  going : (scan headerStep .initial p).2 = false

theorem Going.step {p : List UInt8} (h : Going p) (hlen : p.length < maxHeader) {c : UInt8}
    (hc : nextHeaderMatch (headerRun p).headerMatch c ≠ 4) :
    Going (p ++ [c]) ∧ headerRun (p ++ [c]) = (headerStep (headerRun p) c).1 := by
  have hrun : scan headerStep .initial (p ++ [c]) = scan headerStep (headerRun p) [c] :=
    scan_append_go _ h.going
  obtain ⟨hgo, hnext⟩ := h.scanning.go hlen hc
  rw [scan_cons_go _ hgo, scan_nil] at hrun
  have heq : headerRun (p ++ [c]) = (headerStep (headerRun p) c).1 := by
    rw [headerRun, hrun]
  exact ⟨⟨heq ▸ hnext, by rw [hrun]⟩, heq⟩

/-- The automaton inside a line: it searches for the name, or it reads. -/
structure InLine (p text : List UInt8) (reading : Bool) : Prop where
  going : Going p
  readingLength : (headerRun p).readingLength = reading
  searching : reading = false → (headerRun p).keyPos < 15
  counted : Counted text (headerRun p)

/-- The automaton with the byte counted and the terminator matched. -/
def advance (flow : HeaderScan) (c : UInt8) : HeaderScan :=
  { flow with
    headerScanned := u32 (flow.headerScanned + 1)
    headerMatch := nextHeaderMatch flow.headerMatch c }

@[simp] theorem advance_keyPos (flow : HeaderScan) (c : UInt8) :
    (advance flow c).keyPos = flow.keyPos := rfl

@[simp] theorem advance_readingLength (flow : HeaderScan) (c : UInt8) :
    (advance flow c).readingLength = flow.readingLength := rfl

theorem Counted.advance {text : List UInt8} {flow : HeaderScan} (h : Counted text flow)
    (c : UInt8) : Counted text (advance flow c) := h.congr rfl rfl

/-- A byte inside a line. -/
theorem headerStep_line {flow : HeaderScan} {c : UInt8} (hlf : c ≠ lf)
    (hc : nextHeaderMatch flow.headerMatch c ≠ 4) :
    (headerStep flow c).1 = if flow.readingLength then readLengthByte (advance flow c) c
      else matchKeyByte (advance flow c) c := by
  simp only [headerStep, headerByte, hc, if_false, hlf]
  rfl

theorem nextHeaderMatch_ne_of_ne_lf {p : List UInt8} (h : Going p) {c : UInt8} (hlf : c ≠ lf) :
    nextHeaderMatch (headerRun p).headerMatch c ≠ 4 := fun h4 =>
  hlf ((nextHeaderMatch_spec h.scanning.matchLe c).1.mp h4).1.symm

/-- A byte while reading a length. -/
theorem InLine.read {p text : List UInt8} (h : InLine p text true) (hlen : p.length < maxHeader)
    {c : UInt8} (hcr : c ≠ cr) (hlf : c ≠ lf) : InLine (p ++ [c]) (text ++ [c]) true := by
  obtain ⟨hgoing, hrun⟩ := h.going.step hlen (nextHeaderMatch_ne_of_ne_lf h.going hlf)
  rw [headerStep_line hlf (nextHeaderMatch_ne_of_ne_lf h.going hlf)] at hrun
  rw [if_pos h.readingLength] at hrun
  refine ⟨hgoing, ?_, fun hr => (by cases hr), ?_⟩
  · rw [hrun, readLengthByte_readingLength _ hcr]
    exact h.readingLength
  · rw [hrun]
    exact (h.counted.advance c).byte hcr

/-- A byte while searching for the name. -/
theorem InLine.search {p text : List UInt8} (h : InLine p text false)
    (hlen : p.length < maxHeader) {c : UInt8} (hlf : c ≠ lf) :
    InLine (p ++ [c]) text (searchStep contentLengthName (headerRun p).keyPos (lower c) == 15) ∧
    (headerRun (p ++ [c])).keyPos
      = searchStep contentLengthName (headerRun p).keyPos (lower c) := by
  obtain ⟨hgoing, hrun⟩ := h.going.step hlen (nextHeaderMatch_ne_of_ne_lf h.going hlf)
  rw [headerStep_line hlf (nextHeaderMatch_ne_of_ne_lf h.going hlf)] at hrun
  rw [if_neg (by simp [h.readingLength])] at hrun
  have hpos : (advance (headerRun p) c).keyPos < 15 := h.searching rfl
  obtain ⟨hkey, hread, hlength, hinvalid⟩ := matchKeyByte_eq hpos c
  rw [advance_keyPos] at hkey hread
  rw [advance_readingLength] at hread
  rw [← hrun] at hkey hread hlength hinvalid
  have hle : searchStep contentLengthName (headerRun p).keyPos (lower c) ≤ 15 := by
    have := h.searching rfl
    unfold searchStep
    split_ifs <;> omega
  refine ⟨⟨hgoing, ?_, fun hr => ?_, h.counted.congr hlength hinvalid⟩, hkey⟩
  · rw [hread, h.readingLength, Bool.false_or]
  · have hne := beq_eq_false_iff_ne.mp hr
    omega

/-- A stretch of a line while reading. -/
theorem InLine.read_all (bytes : List UInt8) : ∀ {p text : List UInt8}, InLine p text true →
    (p ++ bytes).length ≤ maxHeader → (∀ c ∈ bytes, c ≠ cr ∧ c ≠ lf) →
    InLine (p ++ bytes) (text ++ bytes) true := by
  induction bytes with
  | nil => intro p text h _ _; simpa using h
  | cons c bytes ih =>
      intro p text h hlen hbytes
      have hc := hbytes c (by simp)
      have hstep := h.read (by simp only [List.length_append, List.length_cons] at hlen; omega)
        hc.1 hc.2
      have := ih hstep (by simpa using hlen) fun d hd => hbytes d (by simp [hd])
      simpa using this

/-- A stretch of a line while searching: what follows the name is read. -/
theorem InLine.search_all (bytes : List UInt8) : ∀ {p text : List UInt8}, InLine p text false →
    (p ++ bytes).length ≤ maxHeader → (∀ c ∈ bytes, c ≠ cr ∧ c ≠ lf) →
    ∃ reading, InLine (p ++ bytes)
      (text ++ (searchFrom lower contentLengthName (headerRun p).keyPos bytes).getD []) reading := by
  induction bytes with
  | nil => intro p text h _ _; exact ⟨false, by simpa [searchFrom] using h⟩
  | cons c bytes ih =>
      intro p text h hlen hbytes
      have hc := hbytes c (by simp)
      have hlt : p.length < maxHeader := by
        simp only [List.length_append, List.length_cons] at hlen; omega
      have hrest : ∀ d ∈ bytes, d ≠ cr ∧ d ≠ lf := fun d hd => hbytes d (by simp [hd])
      have hlen' : ((p ++ [c]) ++ bytes).length ≤ maxHeader := by simpa using hlen
      obtain ⟨hstep, hkey⟩ := h.search hlt hc.2
      have hname : contentLengthName.length = 15 := rfl
      rw [show p ++ c :: bytes = (p ++ [c]) ++ bytes by simp, searchFrom, hname]
      by_cases hfull : searchStep contentLengthName (headerRun p).keyPos (lower c) = 15
      · rw [if_pos hfull]
        rw [hfull] at hstep
        exact ⟨true, hstep.read_all bytes hlen' hrest⟩
      · rw [if_neg hfull, ← hkey]
        rw [beq_eq_false_iff_ne.mpr hfull] at hstep
        exact ih hstep hlen' hrest

/-! ## Lines -/

/-- The automaton at the start of a line; `text` is what the lines before it
contributed. -/
structure LineStart (p text : List UInt8) : Prop where
  line : InLine p text false
  keyPos : (headerRun p).keyPos = 0

theorem lineStart_nil : LineStart [] [] where
  line :=
    { going := ⟨scanning_nil, rfl⟩
      readingLength := rfl
      searching := fun _ => by decide
      counted := ⟨fun _ => rfl, by simp [headerRun, HeaderScan.initial, Stray, countedDigits,
        guardedLength, decimal_nil]⟩ }
  keyPos := rfl

/-- The carriage return ends reading. -/
theorem InLine.carriageReturn {p text : List UInt8} {reading : Bool} (h : InLine p text reading)
    (hlen : p.length < maxHeader) :
    Going (p ++ [cr]) ∧ (headerRun (p ++ [cr])).readingLength = false ∧
    Counted text (headerRun (p ++ [cr])) := by
  have hlf : cr ≠ lf := by decide
  cases reading with
  | true =>
      obtain ⟨hgoing, hrun⟩ := h.going.step hlen (nextHeaderMatch_ne_of_ne_lf h.going hlf)
      rw [headerStep_line hlf (nextHeaderMatch_ne_of_ne_lf h.going hlf)] at hrun
      rw [if_pos h.readingLength] at hrun
      rw [readLengthByte, if_neg (by decide), if_pos rfl] at hrun
      exact ⟨hgoing, by rw [hrun], by rw [hrun]; exact h.counted.congr rfl rfl⟩
  | false =>
      obtain ⟨hstep, -⟩ := h.search hlen hlf
      have hpos : ∀ pos : Fin 15, searchStep contentLengthName pos.val (lower cr) = 0 := by decide
      rw [hpos ⟨_, h.searching rfl⟩] at hstep
      exact ⟨hstep.going, hstep.readingLength, hstep.counted⟩

theorem lineFeed_ne_contentLengthChar (pos : Nat) : lower lf ≠ contentLengthChar pos := by
  have hin : ∀ pos : Fin 15, lower lf ≠ contentLengthChar pos.val := by decide
  rcases Nat.lt_or_ge pos 15 with hlt | hge
  · exact hin ⟨pos, hlt⟩
  · rw [contentLengthChar, if_neg (by omega)]
    decide

/-- A line feed that does not end the block starts the search anew. -/
theorem headerStep_lineFeed {flow : HeaderScan} (hreading : flow.readingLength = false)
    (hc : nextHeaderMatch flow.headerMatch lf ≠ 4) :
    (headerStep flow lf).1.readingLength = false ∧ (headerStep flow lf).1.keyPos = 0 ∧
    (headerStep flow lf).1.contentLength = flow.contentLength ∧
    (headerStep flow lf).1.invalid = flow.invalid := by
  simp [headerStep, headerByte, hc, hreading, matchKeyByte, lineFeed_ne_contentLengthChar]

/-- **One line.** It contributes its `lengthText`. -/
theorem LineStart.next {p text : List UInt8} (h : LineStart p text) {line : List UInt8}
    (hline : ∀ c ∈ line, c ≠ cr ∧ c ≠ lf) (hblank : p = [] ∨ line ≠ [])
    (hlen : (p ++ line ++ [cr, lf]).length ≤ maxHeader) :
    LineStart (p ++ line ++ [cr, lf]) (text ++ lengthText line) := by
  simp only [List.length_append, List.length_cons, List.length_nil] at hlen
  obtain ⟨reading, hread⟩ := h.line.search_all line
    (by rw [List.length_append]; omega) hline
  have hsearch := searchFrom_eq (f := lower) contentLengthName_once line []
    (by decide) rfl
  rw [List.length_nil, List.nil_append] at hsearch
  rw [h.keyPos, hsearch, ← lengthText] at hread
  obtain ⟨hgoing, hstop, hcounted⟩ := hread.carriageReturn (by rw [List.length_append]; omega)
  -- the line feed does not end the block: the line is not blank, or it is the first
  have hmatch : nextHeaderMatch (headerRun (p ++ line ++ [cr])).headerMatch lf ≠ 4 := by
    intro h4
    have hend := (hgoing.scanning.ends_iff lf).mp h4
    have hend' : [cr, lf] <:+ p ++ line :=
      (suffix_snoc [cr, lf] cr).mp ((suffix_snoc [cr, lf, cr] lf).mp hend).2 |>.2
    rcases List.eq_nil_or_concat' line with rfl | ⟨init, c, rfl⟩
    · rcases hblank with rfl | hne
      · exact absurd hend'.length_le (by decide)
      · exact hne rfl
    · rw [← List.append_assoc] at hend'
      have := (suffix_snoc [cr] lf).mp hend'
      exact (hline c (by simp)).2 this.1.symm
  obtain ⟨hgoing', hrun⟩ := hgoing.step
    (by simp only [List.length_append, List.length_singleton]; omega) hmatch
  obtain ⟨hreading, hkey, hlength, hinvalid⟩ := headerStep_lineFeed hstop hmatch
  rw [← hrun] at hreading hkey hlength hinvalid
  rw [show p ++ line ++ [cr, lf] = p ++ line ++ [cr] ++ [lf] by simp]
  exact ⟨⟨hgoing', hreading, fun _ => by rw [hkey]; decide, hcounted.congr hlength hinvalid⟩, hkey⟩

/-- **The end of the block**: a blank line after the last one. -/
theorem LineStart.close {p text : List UInt8} (h : LineStart p text) (hend : [cr, lf] <:+ p)
    (hlen : (p ++ [cr, lf]).length ≤ maxHeader) :
    (scan headerStep .initial (p ++ [cr, lf])).2 = true ∧
    Terminated (p ++ [cr, lf]) (headerRun (p ++ [cr, lf])) ∧
    Counted text (headerRun (p ++ [cr, lf])) := by
  simp only [List.length_append, List.length_cons, List.length_nil] at hlen
  obtain ⟨hgoing, -, hcounted⟩ := h.line.carriageReturn (by omega)
  have hmatch : nextHeaderMatch (headerRun (p ++ [cr])).headerMatch lf = 4 :=
    (hgoing.scanning.ends_iff lf).mpr
      ((suffix_snoc [cr, lf, cr] lf).mpr ⟨rfl, (suffix_snoc [cr, lf] cr).mpr ⟨rfl, hend⟩⟩)
  obtain ⟨hstop, hterminated⟩ := hgoing.scanning.stop
    (by simp only [List.length_append, List.length_singleton]; omega) hmatch
  have hrun : scan headerStep .initial (p ++ [cr] ++ [lf])
      = scan headerStep (headerRun (p ++ [cr])) [lf] := scan_append_go _ hgoing.going
  rw [scan_cons_stop _ hstop] at hrun
  have hheader : headerRun (p ++ [cr] ++ [lf]) = (headerStep (headerRun (p ++ [cr])) lf).1 := by
    rw [headerRun, hrun]
  rw [show p ++ [cr, lf] = p ++ [cr] ++ [lf] by simp]
  refine ⟨by rw [hrun], by rw [hheader]; exact hterminated, ?_⟩
  rw [hheader, headerStep, headerByte_stop hmatch]
  exact hcounted.congr rfl rfl

end Xsr.Parsing
