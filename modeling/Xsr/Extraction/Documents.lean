import Xsr.Extraction.Surrogates
import Xsr.Lib.JsonTree

/-!
# Documents — the content scanner over JSON texts

The scanner knows no JSON; over a JSON text it still stops at a member, the
first one with a string value whose key and colon are spelled the one way it
looks for (`tree_reads`). `Extracts` compares the bytes scored with the string
that JSON gives the first `content` of the document, and `extracts_iff` is in
terms of how the two members are written.
-/

namespace Xsr.Extraction

open Kernel Lib Json Signals

/-! ## Members -/

/-- The blanks the scanner skips before the opening quote. -/
def skipped (ws : List Blank) : Bool := ws.all fun w => w = .space || w = .tab

/-- After the colon of the member the scanner waits for a quote. -/
def awaited (key : List Item) (beforeColon afterColon : List Blank) : Bool :=
  spellsContent key && beforeColon.isEmpty && skipped afterColon

/-- The spelling the scanner looks for: a key that ends in `"content"`, the
colon right after it, and at most spaces and tabs before a string. -/
def matched (m : Member) : Bool := awaited m.key m.beforeColon m.afterColon && m.value.isSome

/-- A member whose decoded key is `content` and whose value is a string. -/
def isContent (m : Member) : Bool :=
  points m.key = "content".toList.map Char.toNat && m.value.isSome

/-- The string a member holds, in UTF-8, an unpaired surrogate being one
space. -/
def valueBytes (m : Member) : List UInt8 := m.value.elim [] spacedBytes

/-- The same with the unpaired high surrogates of the value moved. -/
def movedBytes (m : Member) : List UInt8 :=
  m.value.elim [] fun items => spacedBytes (moveHighs none items)

/-! ## Outside of strings -/

/-- The positions the search can be left in between the tokens of a text. -/
def Between (pos : Nat) : Prop := pos = 0 ∨ pos = 1 ∨ pos = 9

/-- A character that resets the search from there. -/
def Resets (c : Char) : Prop := c.toNat < 128 ∧ c ≠ '"' ∧ c ≠ ':' ∧ c ≠ 'c'

instance (c : Char) : Decidable (Resets c) := inferInstanceAs (Decidable (_ ∧ _))

theorem resets_passes {c : Char} (h : Resets c) {pos : Nat} (hpos : Between pos) :
    Passes (searching pos) [c] (searching 0) [] := by
  obtain ⟨hlt, hquote, hcolon, hc⟩ := h
  rcases hpos with rfl | rfl | rfl
  · exact search_zero hquote
  · have hne : keyText[1]? ≠ some c := fun he => hc (Option.some.inj he).symm
    have hpass := search_char (show 1 < 9 by decide) c
    rwa [keyNext, if_neg hne, if_neg hquote] at hpass
  · exact search_miss hlt hcolon hquote

theorem blank_resets (w : Blank) : Resets w.char := by cases w <;> decide

/-- Text without quotes does not start the key. -/
theorem bare_passes {text : List Char} (h : ∀ c ∈ text, c ≠ '"') :
    Passes (searching 0) text (searching 0) [] := by
  induction text with
  | nil => exact .nil _
  | cons c cs ih => exact (search_zero (h c (by simp))).silent (ih fun d hd => h d (by simp [hd]))

theorem blanks_passes (ws : List Blank) : Passes (searching 0) (blanks ws) (searching 0) [] := by
  refine bare_passes fun c hc => ?_
  obtain ⟨w, -, rfl⟩ := List.mem_map.mp hc
  exact (blank_resets w).2.1

theorem blanks_between (ws : List Blank) {pos : Nat} (hpos : Between pos) :
    ∃ pos', Between pos' ∧ Passes (searching pos) (blanks ws) (searching pos') [] := by
  cases ws with
  | nil => exact ⟨pos, hpos, .nil _⟩
  | cons w ws =>
      exact ⟨0, .inl rfl, (resets_passes (blank_resets w) hpos).silent (blanks_passes ws)⟩

/-- Blanks and the character after them. -/
theorem blanks_then {c : Char} (h : Resets c) (ws : List Blank) {pos : Nat} (hpos : Between pos) :
    Passes (searching pos) (blanks ws ++ [c]) (searching 0) [] := by
  obtain ⟨pos', hpos', hblanks⟩ := blanks_between ws hpos
  exact hblanks.silent (resets_passes h hpos')

/-! ## Waiting for the string -/

theorem blanks_wait (ws : List Blank) :
    Passes waiting (blanks ws) (if skipped ws then waiting else searching 0) [] := by
  induction ws with
  | nil => exact .nil _
  | cons w ws ih =>
      have hstep : (w = .space ∨ w = .tab) ∨ (w = .lf ∨ w = .cr) := by cases w <;> simp
      rcases hstep with hskip | hend
      · have hblank : Passes waiting [w.char] waiting [] :=
          wait_blank (by rcases hskip with rfl | rfl <;> decide)
        have hall : skipped (w :: ws) = skipped ws := by
          rcases hskip with rfl | rfl <;> rfl
        rw [hall]
        exact hblank.silent ih
      · have hblank : Passes waiting [w.char] (searching 0) [] := by
          rcases hend with rfl | rfl <;> rfl
        have hall : skipped (w :: ws) = false := by
          rcases hend with rfl | rfl <;> rfl
        rw [hall]
        exact hblank.silent (blanks_passes ws)

/-- A bare character ends the waiting, and the rest is read as if the scanner
had been searching. -/
theorem waiting_eq {c : Char} (h : Bare c) (cs : List Char) :
    contentRun waiting (encodeUtf8 (c :: cs)) = contentRun (searching 0) (encodeUtf8 (c :: cs)) := by
  obtain ⟨hlt, hblank, htab, hquote⟩ := h
  rw [← List.singleton_append, encodeUtf8_append,
    contentRun_append (wait_other hlt hblank htab hquote), contentRun_append (search_zero hquote)]

/-- The colon, with the blanks before it. -/
theorem colon_text_passes (spelled : Bool) (beforeColon : List Blank) :
    Passes (searching (if spelled then 9 else 1)) (blanks beforeColon ++ [':'])
      (if spelled && beforeColon.isEmpty then waiting else searching 0) [] := by
  cases beforeColon with
  | nil => cases spelled <;> rfl
  | cons w ws =>
      have hpos : Between (if spelled then 9 else 1) := by cases spelled <;> simp [Between]
      rw [List.isEmpty_cons, Bool.and_false]
      exact ((resets_passes (blank_resets w) hpos).silent (blanks_passes ws)).silent
        (search_zero (by decide))

/-- **The key of a member**: where the scanner stands at the value. -/
theorem memberHead_passes (before : List Blank) (key : List Item)
    (beforeColon afterColon : List Blank) :
    Passes (searching 0) (memberHead before key beforeColon afterColon)
      (if awaited key beforeColon afterColon then waiting else searching 0) [] := by
  have hkey := (blanks_passes before).silent
    ((search_literal key).silent (colon_text_passes (spellsContent key) beforeColon))
  have hafter : Passes (if spellsContent key && beforeColon.isEmpty then waiting else searching 0)
      (blanks afterColon) (if awaited key beforeColon afterColon then waiting else searching 0)
      [] := by
    rw [awaited]
    cases spellsContent key && beforeColon.isEmpty with
    | true => exact blanks_wait afterColon
    | false => exact blanks_passes afterColon
  have hall := hkey.silent hafter
  simp only [List.append_assoc, List.singleton_append] at hall
  exact hall

/-! ## Trees -/

/-- What a piece of text with these members does: the scanner stops at the
first member it looks for, or passes. -/
def Reads (flow : ContentScan) (text : List Char) (ms : List Member) : Prop :=
  match ms.find? matched with
  | some m => Stops flow text (movedBytes m)
  | none => ∃ pos, Between pos ∧ Passes flow text (searching pos) []

theorem Reads.append {flow : ContentScan} {text text' : List Char} {ms ms' : List Member}
    (h : Reads flow text ms) (h' : ∀ pos, Between pos → Reads (searching pos) text' ms') :
    Reads flow (text ++ text') (ms ++ ms') := by
  unfold Reads at h h' ⊢
  rw [List.find?_append]
  cases hfind : ms.find? matched with
  | some m =>
      rw [hfind] at h
      exact h.append text'
  | none =>
      rw [hfind] at h
      obtain ⟨pos, hpos, hpass⟩ := h
      have hrest := h' pos hpos
      rw [Option.none_or]
      cases hfind' : ms'.find? matched with
      | some m =>
          rw [hfind'] at hrest
          exact hpass.silent_stops hrest
      | none =>
          rw [hfind'] at hrest
          obtain ⟨pos', hpos', hpass'⟩ := hrest
          exact ⟨pos', hpos', hpass.silent hpass'⟩

theorem Reads.after {flow flow' : ContentScan} {text text' : List Char} {ms : List Member}
    (h : Passes flow text flow' []) (h' : Reads flow' text' ms) : Reads flow (text ++ text') ms := by
  unfold Reads at h' ⊢
  cases hfind : ms.find? matched with
  | some m =>
      rw [hfind] at h'
      exact h.silent_stops h'
  | none =>
      rw [hfind] at h'
      obtain ⟨pos, hpos, hpass⟩ := h'
      exact ⟨pos, hpos, h.silent hpass⟩

theorem Reads.congr {flow flow' : ContentScan} {text : List Char} {ms : List Member}
    (h : Reads flow text ms)
    (heq : contentRun flow' (encodeUtf8 text) = contentRun flow (encodeUtf8 text)) :
    Reads flow' text ms := by
  unfold Reads at h ⊢
  cases hfind : ms.find? matched with
  | some m =>
      rw [hfind] at h
      exact ⟨heq ▸ h.stop, heq ▸ h.scored⟩
  | none =>
      rw [hfind] at h
      obtain ⟨pos, hpos, hpass⟩ := h
      exact ⟨pos, hpos, heq.trans hpass⟩

theorem Passes.reads {flow : ContentScan} {text : List Char} {pos : Nat} (hpos : Between pos)
    (h : Passes flow text (searching pos) []) : Reads flow text [] := ⟨pos, hpos, h⟩

theorem Reads.close {flow : ContentScan} {text : List Char} {ms : List Member}
    (h : Reads flow text ms) {text' : List Char}
    (h' : ∀ pos, Between pos → ∃ pos', Between pos' ∧
      Passes (searching pos) text' (searching pos') []) : Reads flow (text ++ text') ms := by
  have hall : Reads flow (text ++ text') (ms ++ []) := h.append fun pos hpos => h' pos hpos
  rwa [List.append_nil] at hall

/-- **A member**: it is read when it is spelled as the scanner wants it, and
otherwise its value is searched. -/
theorem member_reads (before : List Blank) (key : List Item) (beforeColon afterColon : List Blank)
    {v : Tree .value} (hv : Reads (searching 0) v.chars v.members) :
    Reads (searching 0) (memberHead before key beforeColon afterColon ++ v.chars)
      (⟨key, beforeColon, afterColon, v.string?⟩ :: v.members) := by
  have hhead := memberHead_passes before key beforeColon afterColon
  have hskip : ∀ {flow : ContentScan} {text : List Char} {m : Member} {ms : List Member},
      matched m = false → Reads flow text ms → Reads flow text (m :: ms) := by
    intro flow text m ms hm h
    unfold Reads at h ⊢
    rwa [List.find?_cons_of_neg (by rw [hm]; exact Bool.false_ne_true)]
  cases hawait : awaited key beforeColon afterColon with
  | false =>
      rw [hawait, if_neg Bool.false_ne_true] at hhead
      exact hskip (by rw [matched, hawait, Bool.false_and]) (Reads.after hhead hv)
  | true =>
      rw [hawait, if_pos rfl] at hhead
      cases hstring : v.string? with
      | none =>
          obtain ⟨c, cs, hchars, hbare⟩ := v.chars_bare hstring
          rw [hchars] at hv ⊢
          exact hskip (by rw [matched, hawait]; rfl)
            (Reads.after hhead (hv.congr (waiting_eq hbare cs)))
      | some items =>
          obtain rfl : v = .string items := v.eq_string hstring
          unfold Reads
          rw [List.find?_cons_of_pos (by rw [matched, hawait]; rfl)]
          have hstops := wait_quote.silent_stops (inside_literal items [])
          rw [literalBytes_moveHighs] at hstops
          exact hhead.silent_stops hstops

/-- **The induction over the grammar.** -/
theorem tree_reads {k : Kind} (t : Tree k) : Reads (searching 0) t.chars t.members := by
  induction t with
  | word w => exact (bare_passes fun c hc => (w.bare c hc).2.2.2).reads (.inl rfl)
  | number n => exact (bare_passes fun c hc => (n.bare c hc).2.2.2).reads (.inl rfl)
  | string items =>
      refine (search_literal items).reads ?_
      cases spellsContent items <;> simp [Between]
  | emptyArray inner =>
      have hopen : Passes (searching 0) ['['] (searching 0) [] := rfl
      exact (hopen.silent (blanks_then (by decide) inner (.inl rfl))).reads (.inl rfl)
  | array elements ih =>
      have hopen : Passes (searching 0) ['['] (searching 0) [] := rfl
      exact Reads.after hopen (ih.close fun pos hpos =>
        ⟨0, .inl rfl, resets_passes (by decide) hpos⟩)
  | emptyObject inner =>
      have hopen : Passes (searching 0) ['\x7b'] (searching 0) [] := rfl
      exact (hopen.silent (blanks_then (by decide) inner (.inl rfl))).reads (.inl rfl)
  | object members ih =>
      have hopen : Passes (searching 0) ['\x7b'] (searching 0) [] := rfl
      exact Reads.after hopen (ih.close fun pos hpos =>
        ⟨0, .inl rfl, resets_passes (by decide) hpos⟩)
  | lastElement before v after ih =>
      exact Reads.after (blanks_passes before) (ih.close fun pos hpos => blanks_between after hpos)
  | element before v after rest ih ihrest =>
      refine Reads.after (blanks_passes before) (ih.append fun pos hpos => ?_)
      have hcomma := blanks_then (c := ',') (by decide) after hpos
      have hrest := Reads.after hcomma ihrest
      rwa [List.append_assoc] at hrest
  | lastMember before key beforeColon afterColon v after ih =>
      have hall := (member_reads before key beforeColon afterColon ih).close fun pos hpos =>
        blanks_between after hpos
      rwa [List.append_assoc] at hall
  | member before key beforeColon afterColon v after rest ih ihrest =>
      have hall := (member_reads before key beforeColon afterColon ih).append fun pos hpos =>
        Reads.after (blanks_then (c := ',') (by decide) after hpos) ihrest
      rw [List.append_assoc, List.append_assoc, List.singleton_append] at hall
      exact hall

/-! ## Documents -/

/-- The bytes the scanner scores over a document. -/
def scoredOf (doc : Document) : List UInt8 := scoredBytes (encodeUtf8 doc.chars)

/-- The string of the first `content` of the document, empty when there is
none. -/
def contentBytes (doc : Document) : List UInt8 := (doc.members.find? isContent).elim [] valueBytes

/-- **What the scanner scores over a JSON text.** -/
theorem scoredOf_eq (doc : Document) :
    scoredOf doc = (doc.members.find? matched).elim [] movedBytes := by
  have hreads : Reads (searching 0) doc.chars doc.members :=
    Reads.after (blanks_passes doc.before) ((tree_reads doc.root).close fun pos hpos =>
      blanks_between doc.after hpos)
  rw [scoredOf, scoredBytes_eq]
  unfold Reads at hreads
  cases hfind : doc.members.find? matched with
  | some m =>
      rw [hfind] at hreads
      exact hreads.scored
  | none =>
      rw [hfind] at hreads
      obtain ⟨pos, -, hpass⟩ := hreads
      exact congrArg ContentStep.scored hpass

/-- The scanner scores the first `content` of the document, in UTF-8 when it
is a text. -/
structure Extracts (doc : Document) : Prop where
  string : scoredOf doc = contentBytes doc
  text : ∀ m items cs, doc.members.find? isContent = some m → m.value = some items →
    text items = some cs → scoredOf doc = encodeUtf8 cs

/-- The first member spelled the way the scanner looks for is the first
`content`: its key has no escape, no blank comes before the colon, no line
break after it, and no string member before it has a key that ends in an
escaped quote and `content`. -/
def FirstSpelled (doc : Document) : Prop :=
  doc.members.find? matched = doc.members.find? isContent

/-- The high surrogates of the first `content` are in place. -/
def ContentInPlace (doc : Document) : Prop :=
  ∀ m ∈ doc.members.find? isContent, ∀ items ∈ m.value, HighsInPlace items

/-- The first member spelled the way the scanner looks for happens to hold the
string of the first `content`, once its unpaired high surrogates are moved;
where there is no such member, the string counts as empty. -/
def SameString (doc : Document) : Prop :=
  (doc.members.find? matched).elim [] movedBytes = contentBytes doc

theorem movedBytes_eq_iff {m : Member} :
    movedBytes m = valueBytes m ↔ ∀ items ∈ m.value, HighsInPlace items := by
  cases hvalue : m.value with
  | none => simp [movedBytes, valueBytes, hvalue]
  | some items =>
      have hplace : literalBytes items = spacedBytes items ↔ HighsInPlace items :=
        (agrees items).ready.trans (highsInPlace_iff items)
      rw [literalBytes_moveHighs] at hplace
      simp [movedBytes, valueBytes, hvalue, hplace]

/-- **Which document is read right**: one whose first `content` is written the
way the scanner looks for, before any other member that is, and with its high
surrogates in place; or one where another member happens to hold the same
string. -/
theorem extracts_iff (doc : Document) :
    Extracts doc ↔
      FirstSpelled doc ∧ ContentInPlace doc ∨ ¬ FirstSpelled doc ∧ SameString doc := by
  have htexts : scoredOf doc = contentBytes doc → Extracts doc := by
    intro h
    refine ⟨h, fun m items cs hfind hvalue htext => ?_⟩
    rw [h, contentBytes, hfind, Option.elim_some, valueBytes, hvalue, Option.elim_some,
      spacedBytes_text htext]
  have hstring : Extracts doc ↔ SameString doc :=
    ⟨fun h => (scoredOf_eq doc).symm.trans h.string, fun h => htexts ((scoredOf_eq doc).trans h)⟩
  by_cases hfirst : FirstSpelled doc
  · have hplace : SameString doc ↔ ContentInPlace doc := by
      rw [SameString, contentBytes, hfirst, ContentInPlace]
      cases doc.members.find? isContent with
      | none => simp
      | some m => simp [movedBytes_eq_iff]
    simp [hfirst, hstring, hplace]
  · simp [hfirst, hstring]

/-- `{key: value}` with the given blanks around the colon. -/
def oneMember (key : List Item) (beforeColon afterColon : List Blank) (value : List Item) :
    Document where
  before := []
  root := .object (.lastMember [] key beforeColon afterColon (.string value) [])
  after := []
  object := rfl

/-- **A blank before the colon** or a line break after it hides the content, a
key that ends in an escaped quote and `content` is taken for it, and the space
of an unpaired high surrogate is lost. -/
theorem extracts_fails :
    ¬ Extracts (oneMember contentItems [.space] [] [.raw 'x' rfl]) ∧
    ¬ Extracts (oneMember contentItems [] [.cr, .lf] [.raw 'x' rfl]) ∧
    ¬ Extracts (oneMember (.raw 'a' rfl :: .escape .quote :: contentItems) [] [] [.raw 'x' rfl]) ∧
    ¬ Extracts (oneMember contentItems [] [] highThenLetter) := by
  have hfails : ∀ {doc : Document},
      (doc.members.find? matched).elim [] movedBytes ≠ contentBytes doc → ¬ Extracts doc :=
    fun hne h => hne ((scoredOf_eq _).symm.trans h.string)
  exact ⟨hfails (by decide +kernel), hfails (by decide +kernel), hfails (by decide +kernel),
    hfails (by decide +kernel)⟩

end Xsr.Extraction
