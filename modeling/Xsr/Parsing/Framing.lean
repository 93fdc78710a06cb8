import Xsr.Parsing.LengthField
import Xsr.Parsing.Segmentation

/-!
# Framing — where the parser ends a request

A header block is a request line and `name: value` fields. The parser adds
to the block's length the number written by every digit it counted, and it
counts wherever a line contains `content-length:`. `framing_iff` says for
which blocks that is the length the block's Content-Length fields state.
-/

namespace Xsr.Parsing

open Kernel Lib Signals

/-- `':'` -/
def colon : UInt8 := 58

/-- A `name: value` field; a blank after the colon belongs to the value. -/
structure FieldLine where
  name : List UInt8
  value : List UInt8
  name_ok : ∀ c ∈ name, c ≠ colon ∧ c ≠ cr ∧ c ≠ lf
  value_ok : ∀ c ∈ value, c ≠ cr ∧ c ≠ lf

/-- The field as a line. -/
def FieldLine.line (f : FieldLine) : List UInt8 := f.name ++ colon :: f.value

/-- A header block: the request line and the fields. -/
structure HeaderBlock where
  requestLine : List UInt8
  fields : List FieldLine
  requestLine_ok : ∀ c ∈ requestLine, c ≠ cr ∧ c ≠ lf

/-- The lines of a block. -/
def HeaderBlock.lines (b : HeaderBlock) : List (List UInt8) :=
  b.requestLine :: b.fields.map FieldLine.line

/-- The bytes of a block: each line ended by CRLF, then a blank line. -/
def HeaderBlock.bytes (b : HeaderBlock) : List UInt8 :=
  b.lines.flatMap (· ++ [cr, lf]) ++ [cr, lf]

/-! ## What a block's fields state -/

/-- `content-length` -/
def contentLengthField : List UInt8 := contentLengthName.dropLast

/-- The whole name is `content-length`, in any case. -/
def FieldLine.IsContentLength (f : FieldLine) : Prop := f.name.map lower = contentLengthField

instance (f : FieldLine) : Decidable f.IsContentLength := inferInstanceAs (Decidable (_ = _))

/-- Only blanks. -/
def Blanks (text : List UInt8) : Prop := ∀ c ∈ text, c = blank ∨ c = tab

/-- The value is the number `n`, with blanks around it. -/
def FieldLine.States (f : FieldLine) (n : Nat) : Prop :=
  ∃ before digits behind, f.value = before ++ digits ++ behind ∧ Blanks before ∧ Blanks behind ∧
    digits ≠ [] ∧ AllDigits digits ∧ decimal digits = n

/-- The value has blanks between digits. -/
def FieldLine.Split (f : FieldLine) : Prop :=
  ∃ before d blanks e behind, f.value = before ++ d :: blanks ++ e :: behind ∧
    isDigit d = true ∧ blanks ≠ [] ∧ Blanks blanks ∧ isDigit e = true

/-- The body length `n` follows the Content-Length fields of a block. -/
structure Follows (b : HeaderBlock) (n : Nat) : Prop where
  absent : (∀ f ∈ b.fields, ¬ f.IsContentLength) → n = 0
  stated : (∃ f ∈ b.fields, f.IsContentLength) → ∃ f ∈ b.fields, f.IsContentLength ∧ f.States n
  unsplit : ∀ f ∈ b.fields, f.IsContentLength → ¬ f.Split

/-! ## What the parser counts -/

/-- The digits counted in some lines. -/
def lineDigits (lines : List (List UInt8)) : List UInt8 := countedDigits (lines.flatMap lengthText)

/-- The body length the parser computes for a block. -/
def HeaderBlock.counted (b : HeaderBlock) : Nat := decimal (lineDigits b.lines)

/-- The parser never completes the request: a length has a byte that is
neither digit nor blank, or the request is too long. -/
def HeaderBlock.Refused (b : HeaderBlock) : Prop :=
  Stray (b.lines.flatMap lengthText) ∨ maxRequest < b.bytes.length + b.counted

/-- The automaton over some lines. -/
theorem LineStart.lines (lines : List (List UInt8)) : ∀ {p text : List UInt8}, LineStart p text →
    (∀ line ∈ lines, line ≠ [] ∧ ∀ c ∈ line, c ≠ cr ∧ c ≠ lf) →
    (p ++ lines.flatMap (· ++ [cr, lf])).length ≤ maxHeader →
    LineStart (p ++ lines.flatMap (· ++ [cr, lf])) (text ++ lines.flatMap lengthText) := by
  induction lines with
  | nil => intro p text h _ _; simpa using h
  | cons line lines ih =>
      intro p text h hlines hlen
      obtain ⟨hne, hline⟩ := hlines line (by simp)
      rw [List.flatMap_cons, List.flatMap_cons, ← List.append_assoc, ← List.append_assoc,
        ← List.append_assoc] at *
      exact ih (h.next hline (.inr hne) (by
          simp only [List.length_append] at hlen ⊢; omega))
        (fun l hl => hlines l (by simp [hl])) hlen

theorem FieldLine.line_ok (f : FieldLine) : f.line ≠ [] ∧ ∀ c ∈ f.line, c ≠ cr ∧ c ≠ lf := by
  refine ⟨by simp [FieldLine.line], fun c hc => ?_⟩
  rcases List.mem_append.mp hc with hc | hc
  · exact (f.name_ok c hc).2
  · rcases List.mem_cons.mp hc with rfl | hc
    · decide
    · exact f.value_ok c hc

/-- **The header run over a block.** -/
theorem HeaderBlock.run (b : HeaderBlock) (hlen : b.bytes.length ≤ maxHeader) :
    (scan headerStep .initial b.bytes).2 = true ∧ Terminated b.bytes (headerRun b.bytes) ∧
    Counted (b.lines.flatMap lengthText) (headerRun b.bytes) := by
  have hbytes : b.bytes = b.requestLine ++ [cr, lf]
      ++ (b.fields.map FieldLine.line).flatMap (· ++ [cr, lf]) ++ [cr, lf] := by
    simp [HeaderBlock.bytes, HeaderBlock.lines]
  have htext : b.lines.flatMap lengthText
      = lengthText b.requestLine ++ (b.fields.map FieldLine.line).flatMap lengthText := by
    simp [HeaderBlock.lines]
  rw [hbytes] at hlen ⊢
  rw [htext]
  have hlen' := hlen
  rw [List.length_append] at hlen'
  have hfirst := lineStart_nil.next b.requestLine_ok (.inl rfl) (by
    simp only [List.nil_append, List.length_append] at hlen' ⊢
    omega)
  rw [List.nil_append, List.nil_append] at hfirst
  have hall := hfirst.lines (b.fields.map FieldLine.line)
    (fun line hline => by
      obtain ⟨f, -, rfl⟩ := List.mem_map.mp hline
      exact f.line_ok)
    (by omega)
  refine hall.close ?_ hlen
  rcases List.eq_nil_or_concat' b.fields with hnil | ⟨init, f, hfields⟩
  · simp [hnil]
  · rw [hfields]
    simp only [List.map_append, List.map_cons, List.map_nil, List.flatMap_append, List.flatMap_cons,
      List.flatMap_nil, List.append_nil]
    rw [← List.append_assoc, ← List.append_assoc]
    exact List.suffix_append _ _

/-! ## The parser's result -/

/-- A client's world between two calls on prefixes of `stream`: the flow, if
it is there, has the header state of some prefix. -/
structure Resumed (stream : List UInt8) (cookie : UInt64) (w : World) : Prop where
  client : IsClient w cookie
  flow : ∀ flow, w.flows cookie = some flow →
    ∃ k, k ≤ maxHeader ∧ flow.header = headerRun (stream.take k)

section Result
variable (pol : Policy) {stream : List UInt8} {cookie : UInt64} {w : World}

/-- The header state of a call. -/
theorem Resumed.scanned (h : Resumed stream cookie w) (m : Nat) :
    ∃ k, min m maxHeader ≤ k ∧ k ≤ maxHeader ∧
      (scannedFlow pol w cookie (stream.take m)).header = headerRun (stream.take k) := by
  unfold scannedFlow openedFlow
  cases hflow : w.flows cookie with
  | some flow =>
      obtain ⟨k, hk, hheader⟩ := h.flow flow hflow
      refine ⟨max k (min m maxHeader), by omega, by omega, ?_⟩
      show scanHeaders _ flow.header = _
      rw [hheader]
      exact scanHeaders_headerRun stream hk m
  | none =>
      refine ⟨max 0 (min m maxHeader), by omega, by omega, ?_⟩
      exact scanHeaders_headerRun stream (Nat.zero_le _) m

/-- A call that returns `0` can be resumed again. -/
theorem Resumed.pending (h : Resumed stream cookie w) {m : Nat}
    (hp : requestPending (scannedFlow pol w cookie (stream.take m)).header
      (stream.take m).length = true) :
    Resumed stream cookie (skRouterParser pol w cookie (stream.take m)).1 := by
  obtain ⟨-, hflow, -, -, hothers⟩ := parser_pending pol h.client hp
  refine ⟨?_, fun flow hflow' => ?_⟩
  · unfold IsClient
    rw [hothers.routes]
    exact h.client
  · rw [hflow] at hflow'
    cases hflow'
    obtain ⟨k, -, hk, hheader⟩ := h.scanned pol m
    exact ⟨k, hk, hheader⟩

/-- What a call returns. -/
theorem parser_result (h : Resumed stream cookie w) (m : Nat) :
    (skRouterParser pol w cookie (stream.take m)).2
      = if requestPending (scannedFlow pol w cookie (stream.take m)).header (stream.take m).length
        then 0 else (scannedFlow pol w cookie (stream.take m)).header.requestLen := by
  cases hp : requestPending (scannedFlow pol w cookie (stream.take m)).header
      (stream.take m).length with
  | true => exact (parser_pending pol h.client hp).1
  | false => exact (parser_complete pol h.client hp).1

end Result

section Block
variable {b : HeaderBlock}

/-- A block that counts anything has room for the name. -/
theorem HeaderBlock.room (h : b.counted ≠ 0) : 15 ≤ b.bytes.length := by
  have hne : b.lines.flatMap lengthText ≠ [] := by
    intro hnil
    refine h ?_
    rw [HeaderBlock.counted, lineDigits, hnil]
    rfl
  obtain ⟨line, hline, htext⟩ : ∃ line ∈ b.lines, lengthText line ≠ [] := by
    by_contra hnone
    push Not at hnone
    exact hne (List.flatMap_eq_nil_iff.mpr hnone)
  obtain ⟨text, hafter⟩ : ∃ text, after lower contentLengthName line = some text := by
    cases hafter : after lower contentLengthName line with
    | none => exact absurd (by rw [lengthText, hafter]; rfl) htext
    | some text => exact ⟨text, rfl⟩
  have hroom := (length_after hafter).1
  have hname : contentLengthName.length = 15 := rfl
  have hsub : (line ++ [cr, lf]).Sublist (b.lines.flatMap (· ++ [cr, lf])) :=
    List.sublist_flatten_of_mem (List.mem_map_of_mem hline)
  have hle := hsub.length_le
  rw [HeaderBlock.bytes, List.length_append]
  rw [List.length_append] at hle
  omega

/-- What the automaton made of a block that is not refused. -/
theorem HeaderBlock.accepted (hlen : b.bytes.length ≤ maxHeader) :
    ((headerRun b.bytes).invalid = false ∧ (headerRun b.bytes).requestLen ≤ maxRequest ↔
      ¬ b.Refused) ∧
    (¬ b.Refused → (headerRun b.bytes).requestLen = b.bytes.length + b.counted) := by
  obtain ⟨-, hterminated, hcounted⟩ := b.run hlen
  have hrequest := hterminated.requestLen
  have hguarded : guardedLength = 262140 := rfl
  have hmax : maxRequest = 262144 := rfl
  have hmaxHeader : maxHeader = 2000 := rfl
  have hvalue : b.counted < guardedLength →
      (headerRun b.bytes).requestLen = b.bytes.length + b.counted := by
    intro hlt
    rw [hrequest, hcounted.value hlt]
    exact u32_of_lt (by unfold HeaderBlock.counted lineDigits at hlt; omega)
  have hsmall : ¬ b.Refused → b.counted < guardedLength := by
    intro hok
    by_contra hbig
    have := b.room (by omega)
    exact hok (.inr (by omega))
  refine ⟨⟨?_, ?_⟩, fun hok => hvalue (hsmall hok)⟩
  · rintro ⟨hvalid, hle⟩ hrefused
    have hnot : ¬ (Stray (b.lines.flatMap lengthText) ∨ guardedLength ≤ b.counted) := by
      intro h
      rw [hcounted.invalid.mpr h] at hvalid
      cases hvalid
    rcases hrefused with hstray | hlong
    · exact hnot (.inl hstray)
    · rw [hvalue (by omega)] at hle
      omega
  · intro hok
    refine ⟨Bool.eq_false_iff.mpr fun hinvalid => ?_, ?_⟩
    · rcases hcounted.invalid.mp hinvalid with hstray | hbig
      · exact hok (.inl hstray)
      · exact absurd hbig (Nat.not_le.mpr (hsmall hok))
    · rw [hvalue (hsmall hok)]
      exact Nat.not_lt.mp fun hlong => hok (.inr hlong)

variable (pol : Policy) {rest : List UInt8} {cookie : UInt64} {w : World} {m : Nat}

/-- A positive result is the block's length and what was counted. -/
theorem HeaderBlock.result_pos (hlen : b.bytes.length ≤ maxHeader)
    (h : Resumed (b.bytes ++ rest) cookie w)
    (hpos : 0 < (skRouterParser pol w cookie ((b.bytes ++ rest).take m)).2) :
    ¬ b.Refused ∧
    (skRouterParser pol w cookie ((b.bytes ++ rest).take m)).2 = b.bytes.length + b.counted := by
  obtain ⟨k, -, hk, hheader⟩ := h.scanned pol m
  rw [parser_result pol h, hheader] at hpos ⊢
  split_ifs at hpos ⊢ with hp
  · exact absurd hpos (Nat.lt_irrefl 0)
  · simp only [requestPending, Bool.or_eq_true, decide_eq_true_eq, not_or, Bool.not_eq_true] at hp
    obtain ⟨⟨⟨⟨hend, hvalid⟩, -⟩, -⟩, hfits⟩ := hp
    have hbehind : b.bytes.length ≤ k := by
      by_contra hbefore
      exact hend ((b.run hlen).2.1.headerLen_before hlen rest (by omega))
    rw [headerRun_behind (b.run hlen).1 rest hbehind] at hvalid hfits ⊢
    obtain ⟨hiff, heq⟩ := HeaderBlock.accepted hlen
    have hok := hiff.mp ⟨hvalid, Nat.not_lt.mp hfits⟩
    exact ⟨hok, heq hok⟩

/-- A block that is not refused gets its result once the bytes are there. -/
theorem HeaderBlock.result_reached (hlen : b.bytes.length ≤ maxHeader)
    (h : Resumed (b.bytes ++ rest) cookie w) (hok : ¬ b.Refused) (hrest : b.counted ≤ rest.length)
    (hm : b.bytes.length + b.counted ≤ m) :
    (skRouterParser pol w cookie ((b.bytes ++ rest).take m)).2 = b.bytes.length + b.counted := by
  obtain ⟨k, hmin, hk, hheader⟩ := h.scanned pol m
  obtain ⟨hiff, heq⟩ := HeaderBlock.accepted hlen
  obtain ⟨hvalid, hfits⟩ := hiff.mpr hok
  have hterminated := (b.run hlen).2.1
  have hpos := hterminated.pos
  have hskb : b.bytes.length + b.counted ≤ ((b.bytes ++ rest).take m).length := by
    rw [List.length_take, List.length_append]; omega
  rw [parser_result pol h, hheader, headerRun_behind (b.run hlen).1 rest (by omega), if_neg, heq hok]
  simp only [requestPending, hvalid, hterminated.headerLen, Bool.or_eq_true, decide_eq_true_eq,
    heq hok, Bool.false_eq_true, or_false]
  rw [heq hok] at hfits
  omega

end Block

/-! ## What the fields state, and what is counted -/

theorem countedDigits_blanks {text : List UInt8} (h : Blanks text) : countedDigits text = [] := by
  refine List.filter_eq_nil_iff.mpr fun c hc => ?_
  rcases h c hc with rfl | rfl <;> decide

theorem countedDigits_digits {text : List UInt8} (h : AllDigits text) : countedDigits text = text :=
  List.filter_eq_self.mpr fun c hc => isDigit_iff.mpr (h c hc)

/-- A stated number is what the automaton counts in the value. -/
theorem FieldLine.States.counted {f : FieldLine} {n : Nat} (h : f.States n) :
    countedDigits f.value ≠ [] ∧ decimal (countedDigits f.value) = n := by
  obtain ⟨before, digits, behind, hvalue, hbefore, hbehind, hne, hdigits, rfl⟩ := h
  have hcounted : countedDigits f.value = digits := by
    rw [hvalue, countedDigits_append, countedDigits_append, countedDigits_blanks hbefore,
      countedDigits_blanks hbehind, countedDigits_digits hdigits, List.nil_append, List.append_nil]
  rw [hcounted]
  exact ⟨hne, rfl⟩

/-- The other way round where no byte is stray and no digits are split. -/
theorem FieldLine.states_of_counted {f : FieldLine} (hclean : ¬ Stray f.value) (hsplit : ¬ f.Split)
    (hne : countedDigits f.value ≠ []) : f.States (decimal (countedDigits f.value)) := by
  have hblank : ∀ {text : List UInt8}, (∀ c ∈ text, c ∈ f.value) →
      (∀ c ∈ text, isDigit c = false) → Blanks text := by
    intro text hmem hnone c hc
    by_contra hother
    push Not at hother
    exact hclean ⟨c, hmem c hc, hnone c hc, hother.1, hother.2⟩
  rcases filter_together_or_gap isDigit f.value with
    ⟨before, behind, hvalue, hbefore, hbehind⟩ | ⟨before, d, gap, e, behind, hvalue, hd, hgap, hnone, he⟩
  · refine ⟨before, countedDigits f.value, behind, hvalue, hblank (fun c hc => ?_) hbefore,
      hblank (fun c hc => ?_) hbehind, hne, allDigits_countedDigits _, rfl⟩
    · rw [hvalue]; simp [hc]
    · rw [hvalue]; simp [hc]
  · refine absurd ⟨before, d, gap, e, behind, hvalue, hd, hgap, hblank (fun c hc => ?_) hnone, he⟩
      hsplit
    rw [hvalue]; simp [hc]

/-- A Content-Length field contributes its value. -/
theorem FieldLine.lengthText_line {f : FieldLine} (h : f.IsContentLength) :
    lengthText f.line = f.value := by
  have hlen : f.name.length = 14 := by
    have := congrArg List.length h
    rwa [List.length_map] at this
  have hprefix : contentLengthName <+: f.line.map lower := by
    refine ⟨f.value.map lower, ?_⟩
    rw [FieldLine.line, List.map_append, h, List.map_cons]
    rfl
  rw [lengthText, after_of_prefix (by decide) hprefix, Option.getD_some, FieldLine.line,
    List.append_cons, List.drop_left']
  rw [List.length_append, hlen]
  rfl

/-! ## The condition -/

/-- No Content-Length field, and every digit counted elsewhere is a zero. -/
def HeaderBlock.Unstated (b : HeaderBlock) : Prop :=
  (∀ f ∈ b.fields, ¬ f.IsContentLength) ∧ b.counted = 0

/-- One Content-Length field has digits, only zeros are counted before it,
and nothing after it unless all is zero; in no Content-Length field are
digits split. -/
def HeaderBlock.StatedOnce (b : HeaderBlock) : Prop :=
  (∀ f ∈ b.fields, f.IsContentLength → ¬ f.Split) ∧
  ∃ before f behind, b.fields = before ++ f :: behind ∧ f.IsContentLength ∧
    countedDigits f.value ≠ [] ∧
    decimal (lineDigits (b.requestLine :: before.map FieldLine.line)) = 0 ∧
    (lineDigits (behind.map FieldLine.line) = [] ∨
      (decimal (countedDigits f.value) = 0 ∧
        decimal (lineDigits (behind.map FieldLine.line)) = 0))

theorem lineDigits_append (a b : List (List UInt8)) :
    lineDigits (a ++ b) = lineDigits a ++ lineDigits b := by
  rw [lineDigits, List.flatMap_append, countedDigits_append]
  rfl

/-- The digits counted in a block, around one Content-Length field. -/
theorem HeaderBlock.lineDigits_lines {b : HeaderBlock} {before behind : List FieldLine}
    {f : FieldLine} (hfields : b.fields = before ++ f :: behind) (hf : f.IsContentLength) :
    lineDigits b.lines = lineDigits (b.requestLine :: before.map FieldLine.line)
      ++ countedDigits f.value ++ lineDigits (behind.map FieldLine.line) := by
  have hlines : b.lines = (b.requestLine :: before.map FieldLine.line) ++ [f.line]
      ++ behind.map FieldLine.line := by
    simp [HeaderBlock.lines, hfields]
  have hone : lineDigits [f.line] = countedDigits f.value := by
    simp [lineDigits, FieldLine.lengthText_line hf]
  rw [hlines, lineDigits_append, lineDigits_append, hone]

/-- **What the fields state**, for a block that is not refused. -/
theorem HeaderBlock.follows_iff {b : HeaderBlock} (hok : ¬ b.Refused) :
    Follows b b.counted ↔ b.Unstated ∨ b.StatedOnce := by
  have hclean : ∀ f ∈ b.fields, f.IsContentLength → ¬ Stray f.value := by
    rintro f hmem hf ⟨c, hc, hstray⟩
    refine hok (.inl ⟨c, List.mem_flatMap.mpr ⟨f.line, ?_, ?_⟩, hstray⟩)
    · exact List.mem_cons_of_mem _ (List.mem_map_of_mem hmem)
    · rw [FieldLine.lengthText_line hf]; exact hc
  constructor
  · intro h
    by_cases hsome : ∃ f ∈ b.fields, f.IsContentLength
    · obtain ⟨f, hmem, hf, hstates⟩ := h.stated hsome
      obtain ⟨hne, hcounted⟩ := hstates.counted
      obtain ⟨before, behind, hfields⟩ := List.append_of_mem hmem
      rw [HeaderBlock.counted, HeaderBlock.lineDigits_lines hfields hf] at hcounted
      obtain ⟨hbefore, hbehind⟩ :=
        (decimal_middle (allDigits_countedDigits f.value)).mp hcounted.symm
      exact .inr ⟨h.unsplit, before, f, behind, hfields, hf, hne, hbefore, hbehind⟩
    · have hnone : ∀ f ∈ b.fields, ¬ f.IsContentLength := fun f hmem hf => hsome ⟨f, hmem, hf⟩
      exact .inl ⟨hnone, h.absent hnone⟩
  · rintro (⟨hnone, hzero⟩ | ⟨hunsplit, before, f, behind, hfields, hf, hne, hbefore, hbehind⟩)
    · exact ⟨fun _ => hzero, fun ⟨f, hmem, hf⟩ => absurd hf (hnone f hmem),
        fun f hmem hf => absurd hf (hnone f hmem)⟩
    · have hmem : f ∈ b.fields := by rw [hfields]; simp
      have hstates := FieldLine.states_of_counted (hclean f hmem hf) (hunsplit f hmem hf) hne
      rw [← (decimal_middle (allDigits_countedDigits f.value)).mpr ⟨hbefore, hbehind⟩,
        ← HeaderBlock.lineDigits_lines hfields hf] at hstates
      exact ⟨fun hnone => absurd hf (hnone f hmem), fun _ => ⟨f, hmem, hf, hstates⟩, hunsplit⟩

/-- Every positive result on a stream that starts with the block is the
block's length and a body length its Content-Length fields state. -/
def FramesByField (pol : Policy) (cookie : UInt64) (b : HeaderBlock) : Prop :=
  ∀ (rest : List UInt8) (w : World) (m : Nat), Resumed (b.bytes ++ rest) cookie w →
    0 < (skRouterParser pol w cookie ((b.bytes ++ rest).take m)).2 →
    ∃ n, (skRouterParser pol w cookie ((b.bytes ++ rest).take m)).2 = b.bytes.length + n ∧
      Follows b n

theorem idleWorld_resumed (stream : List UInt8) (cookie : UInt64) :
    Resumed stream cookie idleWorld :=
  ⟨by simp [IsClient, idleWorld], fun _ h => by cases h⟩

/-- **Framing.** The parser frames requests by the Content-Length field of a
block exactly when it never completes them, or the block has no such field
and counts only zeros, or one such field is all that counts. -/
theorem framing_iff (pol : Policy) (cookie : UInt64) (b : HeaderBlock)
    (hlen : b.bytes.length ≤ maxHeader) :
    FramesByField pol cookie b ↔ b.Refused ∨ b.Unstated ∨ b.StatedOnce := by
  constructor
  · intro h
    by_cases hok : b.Refused
    · exact .inl hok
    · have hresult := HeaderBlock.result_reached pol hlen
        (idleWorld_resumed (b.bytes ++ List.replicate b.counted 0) cookie) hok
        (by rw [List.length_replicate]) (Nat.le_refl _)
      have hpos := (b.run hlen).2.1.pos
      obtain ⟨n, hn, hfollows⟩ := h (List.replicate b.counted 0) idleWorld
        (b.bytes.length + b.counted) (idleWorld_resumed _ cookie) (by rw [hresult]; omega)
      obtain rfl : n = b.counted := by rw [hresult] at hn; omega
      exact .inr ((HeaderBlock.follows_iff hok).mp hfollows)
  · rintro hcond rest w m hw hpos
    obtain ⟨hok, hresult⟩ := HeaderBlock.result_pos pol hlen hw hpos
    exact ⟨b.counted, hresult, (HeaderBlock.follows_iff hok).mpr (hcond.resolve_left hok)⟩

/-! ## A field that only ends in the name -/

/-- `P` with the field `X-Content-Length: 5`. -/
def suffixBlock : HeaderBlock where
  requestLine := [80]
  fields :=
    [{ name := [88, 45, 67, 111, 110, 116, 101, 110, 116, 45, 76, 101, 110, 103, 116, 104]
       value := [32, 53]
       name_ok := by decide +kernel
       value_ok := by decide +kernel }]
  requestLine_ok := by decide +kernel

/-- The condition, for a block with that field. -/
theorem framing_iff_suffix : FramesByField ngramOnly 7 suffixBlock ↔
    suffixBlock.Refused ∨ suffixBlock.Unstated ∨ suffixBlock.StatedOnce :=
  framing_iff ngramOnly 7 suffixBlock (by decide)

/-- **Framing fails** there: the parser takes five bytes of body for a block
that has no Content-Length field. -/
theorem framing_fails : ¬ FramesByField ngramOnly 7 suffixBlock := by
  intro h
  have hresult : (skRouterParser ngramOnly idleWorld 7
      ((suffixBlock.bytes ++ [97, 97, 97, 97, 97]).take 31)).2 = suffixBlock.bytes.length + 5 := by
    decide
  obtain ⟨n, hn, hfollows⟩ := h [97, 97, 97, 97, 97] idleWorld 31 (idleWorld_resumed _ 7)
    (by rw [hresult]; omega)
  obtain rfl : n = 5 := by rw [hresult] at hn; omega
  exact absurd (hfollows.absent (by decide)) (by decide)

end Xsr.Parsing
