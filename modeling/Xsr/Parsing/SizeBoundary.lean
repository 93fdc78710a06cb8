import Xsr.Parsing.Framing

/-!
# SizeBoundary — which sizes the parser accepts

The digit guard keeps every length below `SK_ROUTER_MAX_REQUEST`, and the
header limit keeps every sum within 32 bits. A positive result is the sum
of the block's length and the length read. In the other direction, a block
that holds the name once, in front of a number, is accepted up to the
limit: `StatedBlock.run` follows the automaton through its parts.
-/

namespace Xsr.Parsing

open Kernel Lib Signals

/-! ## Bounds -/

/-- The largest length the digit guard lets through. -/
def maxContentLength : Nat := 262139

/-- The bounds of a flow's header state. -/
structure Bounded (h : HeaderScan) : Prop where
  scanned : h.headerScanned ≤ maxHeader
  length : h.contentLength ≤ maxContentLength
  unwrapped : h.headerLen + h.contentLength < 4294967296

theorem readLengthByte_bounded {flow : HeaderScan} (h : flow.contentLength ≤ maxContentLength)
    (c : UInt8) : (readLengthByte flow c).contentLength ≤ maxContentLength := by
  have hguard : (maxRequest - 9) / 10 = 26213 := by decide
  have hmax : maxContentLength = 262139 := rfl
  unfold readLengthByte
  rw [hguard]
  split_ifs with hd hbig
  · exact h
  · obtain ⟨-, hhigh⟩ := isDigit_iff.mp hd
    show u32 _ ≤ _
    rw [u32_of_lt (by omega)]
    omega
  all_goals exact h

theorem matchKeyByte_contentLength (flow : HeaderScan) (c : UInt8) :
    (matchKeyByte flow c).contentLength = flow.contentLength := by
  simp only [matchKeyByte]
  split_ifs <;> rfl

theorem headerStep_bounded {flow : HeaderScan} (h : flow.contentLength ≤ maxContentLength)
    (c : UInt8) : (headerStep flow c).1.contentLength ≤ maxContentLength := by
  by_cases hc : nextHeaderMatch flow.headerMatch c = 4
  · rw [headerStep, headerByte_stop hc]
    exact h
  · have hstep : (headerStep flow c).1.contentLength =
        (if flow.readingLength then readLengthByte (advance flow c) c
          else matchKeyByte (advance flow c) c).contentLength := by
      simp only [headerStep, headerByte, hc, if_false]
      by_cases hlf : c = lf
      · rw [if_pos hlf]
        rfl
      · rw [if_neg hlf]
        rfl
    have hadvance : (advance flow c).contentLength ≤ maxContentLength := h
    rw [hstep]
    cases flow.readingLength with
    | true => exact readLengthByte_bounded hadvance c
    | false =>
        rw [if_neg Bool.false_ne_true, matchKeyByte_contentLength]
        exact hadvance

/-- **The bounds** hold after every part of a stream the parser scans. -/
theorem headerRun_bounded {p : List UInt8} (hlen : p.length ≤ maxHeader) :
    Bounded (headerRun p) := by
  have hlength : (headerRun p).contentLength ≤ maxContentLength :=
    scan_induction (P := fun flow : HeaderScan => flow.contentLength ≤ maxContentLength)
      (Nat.zero_le _) fun flow h c _ => headerStep_bounded h c
  have hmax : maxContentLength = 262139 := rfl
  have hmaxHeader : maxHeader = 2000 := rfl
  rcases headerRun_spec p hlen with ⟨-, hs⟩ | ⟨-, q, hq, ht⟩
  · have hscanned := hs.scanned
    have hheader := hs.headerLen
    exact ⟨by omega, hlength, by omega⟩
  · have hscanned := ht.scanned
    have hheader := ht.headerLen
    have hle := hq.length_le
    exact ⟨by omega, hlength, by omega⟩

/-! ## What a positive result says -/

/-- The block that a scan of a prefix has ended at. -/
theorem headerRun_block {stream : List UInt8} {k : Nat} (hk : k ≤ maxHeader)
    (hend : (headerRun (stream.take k)).headerLen ≠ 0) :
    ∃ block, block <+: stream.take k ∧ headerRun block = headerRun (stream.take k) ∧
      Terminated block (headerRun (stream.take k)) ∧
      (headerRun (stream.take k)).requestLen =
        block.length + (headerRun (stream.take k)).contentLength := by
  have hlen : (stream.take k).length ≤ maxHeader := (List.length_take_le _ _).trans hk
  rcases headerRun_spec _ hlen with ⟨-, hs⟩ | ⟨-, block, hblock, ht⟩
  · exact absurd hs.headerLen hend
  · refine ⟨block, hblock, ?_, ht, ?_⟩
    · rcases headerRun_spec _ (hblock.length_le.trans hlen) with ⟨-, hs⟩ | ⟨hstop, -⟩
      · exact absurd ht.ends (hs.unended _ (List.prefix_refl _))
      · obtain ⟨rest, hrest⟩ := hblock
        rw [← hrest]
        exact (headerRun_append_of_stop rest hstop).symm
    · have hwrap := (headerRun_bounded hlen).unwrapped
      rw [ht.headerLen] at hwrap
      rw [ht.requestLen, u32_of_lt hwrap]

/-- No shorter prefix than the block ends in a terminator. -/
theorem Terminated.first_take {stream block : List UInt8} {h : HeaderScan}
    (ht : Terminated block h) (hblock : block <+: stream) {j : Nat} (hj : j < block.length) :
    ¬ crlfcrlf <:+ stream.take j := by
  intro hearly
  have hprefix : stream.take j <+: block := by
    rw [List.prefix_iff_eq_take.mp hblock]
    exact List.take_prefix_take_left hj.le
  have hle : (stream.take j).length ≤ j := List.length_take_le _ _
  rw [ht.first _ hprefix hearly] at hle
  omega

/-- The number the parser returns delimits a request of the stream: `header`
is the header state of the flow. -/
structure Delimits (stream : List UInt8) (buffered result : Nat) (header : HeaderScan) : Prop where
  sum : result = header.headerLen + header.contentLength
  within : result ≤ (stream.take buffered).length
  fits : result ≤ maxRequest
  ends : crlfcrlf <:+ stream.take header.headerLen
  first : ∀ k, k < header.headerLen → ¬ crlfcrlf <:+ stream.take k

/-- **What is cut is a complete request.** -/
theorem CompleteRequest.of_scan {stream : List UInt8} {k n : Nat} (hk : k ≤ maxHeader)
    (hp : requestPending (headerRun (stream.take k)) n = false) (hn : n ≤ stream.length) :
    CompleteRequest (stream.take (headerRun (stream.take k)).requestLen)
      (headerRun (stream.take k)).headerLen := by
  simp only [requestPending, Bool.or_eq_false_iff, decide_eq_false_iff_not] at hp
  obtain ⟨⟨⟨⟨hend, hvalid⟩, -⟩, hbuffered⟩, hfits⟩ := hp
  obtain ⟨block, hblock, hrun, ht, hsum⟩ := headerRun_block hk hend
  have hstream := hblock.trans (List.take_prefix k stream)
  have htake : (stream.take (headerRun (stream.take k)).requestLen).take
      (headerRun (stream.take k)).headerLen = block := by
    rw [List.take_take, ht.headerLen, Nat.min_eq_left (hsum ▸ Nat.le_add_right _ _)]
    exact (List.prefix_iff_eq_take.mp hstream).symm
  have hlength : (stream.take (headerRun (stream.take k)).requestLen).length =
      (headerRun (stream.take k)).requestLen :=
    List.length_take_of_le ((Nat.not_lt.mp hbuffered).trans hn)
  refine ⟨htake ▸ ht.ends, fun j hj => ?_, ?_, ?_, ?_, ?_, hlength.trans_le (Nat.not_lt.mp hfits)⟩
  · rw [ht.headerLen] at hj
    rw [List.take_take, Nat.min_eq_left (by omega)]
    exact ht.first_take hstream hj
  · rw [ht.headerLen]
    exact hblock.length_le.trans ((List.length_take_le _ _).trans hk)
  · rw [hlength, hsum, ht.headerLen]
    exact Nat.le_add_right _ _
  · rw [htake, hrun, hvalid]
  · rw [htake, hrun, hlength, hsum, ht.headerLen]

section Result
variable (pol : Policy) {stream : List UInt8} {cookie : UInt64} {w : World}

/-- The flow a call leaves has the header state of its scan. -/
theorem parser_header (hc : IsClient w cookie) (skb : List UInt8) :
    ((skRouterParser pol w cookie skb).1.flows cookie).map HttpFlowState.header =
      some (scannedFlow pol w cookie skb).header := by
  cases hp : requestPending (scannedFlow pol w cookie skb).header skb.length with
  | true => rw [(parser_pending pol hc hp).2.1, Option.map_some]
  | false =>
      rw [(parser_complete pol hc hp).2.2.2.1, Option.map_some]
      rfl

/-- A client stays one. -/
theorem parser_client (hc : IsClient w cookie) (skb : List UInt8) :
    IsClient (skRouterParser pol w cookie skb).1 cookie := by
  unfold IsClient at hc ⊢
  rw [parser_routes]
  exact hc

/-- Whatever a call returns, the next one can resume. -/
theorem Resumed.call (h : Resumed stream cookie w) (m : Nat) :
    Resumed stream cookie (skRouterParser pol w cookie (stream.take m)).1 := by
  refine ⟨parser_client pol h.client _, fun flow hflow => ?_⟩
  have hheader := parser_header pol h.client (stream.take m)
  rw [hflow, Option.map_some, Option.some.injEq] at hheader
  obtain ⟨k, -, hk, hscanned⟩ := h.scanned pol m
  exact ⟨k, hk, hheader.trans hscanned⟩

/-- **A positive result** delimits a request. -/
theorem Resumed.delimits (h : Resumed stream cookie w) {m : Nat}
    (hpos : 0 < (skRouterParser pol w cookie (stream.take m)).2) :
    Delimits stream m (skRouterParser pol w cookie (stream.take m)).2
      (scannedFlow pol w cookie (stream.take m)).header := by
  obtain ⟨k, -, hk, hheader⟩ := h.scanned pol m
  rw [parser_result pol h, hheader] at hpos ⊢
  split_ifs at hpos ⊢ with hp
  · exact absurd hpos (Nat.lt_irrefl 0)
  · simp only [requestPending, Bool.or_eq_true, decide_eq_true_eq, not_or, Bool.not_eq_true] at hp
    obtain ⟨⟨⟨⟨hend, -⟩, -⟩, hbuffered⟩, hfits⟩ := hp
    obtain ⟨block, hblock, -, ht, hsum⟩ := headerRun_block hk hend
    have hstream := hblock.trans (List.take_prefix k stream)
    rw [← ht.headerLen] at hsum
    refine ⟨hsum, Nat.not_lt.mp hbuffered, Nat.not_lt.mp hfits, ?_, fun j hj => ?_⟩
    · rw [ht.headerLen, ← List.prefix_iff_eq_take.mp hstream]
      exact ht.ends
    · rw [ht.headerLen] at hj
      exact ht.first_take hstream hj

/-- **A positive result** is the length of a complete request. -/
theorem Resumed.complete (h : Resumed stream cookie w) {m : Nat} (hm : m ≤ stream.length)
    (hpos : 0 < (skRouterParser pol w cookie (stream.take m)).2) :
    ∃ headerLen, CompleteRequest
      (stream.take (skRouterParser pol w cookie (stream.take m)).2) headerLen := by
  obtain ⟨k, -, hk, hheader⟩ := h.scanned pol m
  rw [parser_result pol h, hheader] at hpos ⊢
  split_ifs at hpos ⊢ with hp
  · exact absurd hpos (Nat.lt_irrefl 0)
  · rw [List.length_take_of_le hm, Bool.not_eq_true] at hp
    exact ⟨_, .of_scan hk hp hm⟩

end Result

/-! ## A block with one stated length -/

/-- The parts of a header block around `content-length:` and a number. -/
structure LengthParts where
  before : List UInt8
  name : List UInt8
  blanks : List UInt8
  digits : List UInt8
  blanksBehind : List UInt8
  behind : List UInt8

namespace LengthParts

/-- The bytes up to and with the name. -/
def head (b : LengthParts) : List UInt8 := b.before ++ b.name

/-- The text the automaton reads as a length. -/
def text (b : LengthParts) : List UInt8 := b.blanks ++ b.digits ++ b.blanksBehind

/-- The bytes up to and with the carriage return behind the number. -/
def line (b : LengthParts) : List UInt8 := b.head ++ b.text ++ [cr]

def bytes (b : LengthParts) : List UInt8 := b.line ++ b.behind

end LengthParts

/-- A header block that contains `content-length:`, in any case, exactly
once, there followed by blanks, a number, blanks and a carriage return. -/
structure StatedBlock extends LengthParts where
  name_eq : name.map lower = contentLengthName
  once : ∀ a found b, toLengthParts.bytes = a ++ found ++ b →
    found.map lower = contentLengthName → a = before
  blanks_ok : Blanks blanks
  blanksBehind_ok : Blanks blanksBehind
  digits_ne : digits ≠ []
  digits_ok : AllDigits digits
  ends : crlfcrlf <:+ toLengthParts.bytes
  first : ∀ p, p <+: toLengthParts.bytes → crlfcrlf <:+ p → p = toLengthParts.bytes

namespace StatedBlock
variable {b : StatedBlock}

/-- The number stated. -/
def stated (b : StatedBlock) : Nat := decimal b.digits

theorem name_length (b : StatedBlock) : b.name.length = 15 := by
  have hlen := congrArg List.length b.name_eq
  rwa [List.length_map] at hlen

/-- The name ends some part of the block only right behind `before`. -/
theorem head_of_suffix {p : List UInt8} (hp : p <+: b.bytes)
    (hname : contentLengthName <:+ p.map lower) : p = b.head := by
  obtain ⟨front, hfront⟩ := hname
  have hlen : front.length + 15 = p.length := by
    have hlen := congrArg List.length hfront
    rwa [List.length_append, List.length_map] at hlen
  obtain ⟨rest, hrest⟩ := hp
  have hsplit : p = p.take front.length ++ p.drop front.length := (List.take_append_drop _ _).symm
  have hfound : (p.drop front.length).map lower = contentLengthName := by
    rw [List.map_drop, ← hfront, List.drop_left]
  have hbefore := b.once (p.take front.length) (p.drop front.length) rest
    (by rw [← hrest]; exact congrArg (· ++ rest) hsplit) hfound
  have hlenBefore : b.before.length = front.length := by
    rw [← hbefore, List.length_take]
    omega
  have hhead : b.head <+: b.bytes := by
    rw [LengthParts.bytes, LengthParts.line]
    simp only [List.append_assoc]
    exact List.prefix_append _ _
  have hlenHead : b.head.length = p.length := by
    rw [LengthParts.head, List.length_append, b.name_length]
    omega
  have hprefix : p <+: b.bytes := ⟨rest, hrest⟩
  rw [List.prefix_iff_eq_take.mp hprefix, List.prefix_iff_eq_take.mp hhead, hlenHead]

/-- Short of the whole block no byte ends it. -/
theorem goes_on {p : List UInt8} {c : UInt8} (h : Going p) (hp : p ++ [c] <+: b.bytes)
    (hne : p ++ [c] ≠ b.bytes) : nextHeaderMatch (headerRun p).headerMatch c ≠ 4 := fun h4 =>
  hne (b.first _ hp ((h.scanning.ends_iff c).mp h4))

end StatedBlock

/-! ## The automaton through the parts -/

/-- A byte while searching for the name, whatever it is. -/
theorem InLine.search_any {p text : List UInt8} (h : InLine p text false)
    (hlen : p.length < maxHeader) {c : UInt8}
    (hc : nextHeaderMatch (headerRun p).headerMatch c ≠ 4) :
    InLine (p ++ [c]) text (searchStep contentLengthName (headerRun p).keyPos (lower c) == 15) ∧
    (headerRun (p ++ [c])).keyPos
      = searchStep contentLengthName (headerRun p).keyPos (lower c) := by
  by_cases hlf : c = lf
  · subst hlf
    obtain ⟨hgoing, hrun⟩ := h.going.step hlen hc
    obtain ⟨hreading, hkey, hlength, hinvalid⟩ := headerStep_lineFeed h.readingLength hc
    rw [← hrun] at hreading hkey hlength hinvalid
    have hzero : ∀ pos : Fin 15, searchStep contentLengthName pos.val (lower lf) = 0 := by decide
    rw [hzero ⟨_, h.searching rfl⟩]
    exact ⟨⟨hgoing, hreading, fun _ => by rw [hkey]; decide, h.counted.congr hlength hinvalid⟩, hkey⟩
  · exact h.search hlen hlf

/-- The automaton before the name is complete: its position is the part of
the name that the bytes end in. -/
structure Matching (p : List UInt8) : Prop where
  line : InLine p [] false
  position : ∀ k, 0 < k → k < contentLengthName.length →
    (contentLengthName.take k <:+ p.map lower ↔ (headerRun p).keyPos = k)

theorem matching_nil : Matching [] where
  line := lineStart_nil.line
  position := by
    intro k hk hlt
    refine iff_of_false (fun h => ?_) (by rw [lineStart_nil.keyPos]; omega)
    have hle := h.length_le
    rw [List.length_take, List.length_map, List.length_nil] at hle
    omega

theorem Matching.step {p : List UInt8} (h : Matching p) (hlen : p.length < maxHeader) {c : UInt8}
    (hc : nextHeaderMatch (headerRun p).headerMatch c ≠ 4) :
    InLine (p ++ [c]) [] (searchStep contentLengthName (headerRun p).keyPos (lower c) == 15) ∧
    ∀ k, 0 < k → k ≤ contentLengthName.length →
      (contentLengthName.take k <:+ (p ++ [c]).map lower ↔ (headerRun (p ++ [c])).keyPos = k) := by
  obtain ⟨hline, hkey⟩ := h.line.search_any hlen hc
  have hpos := searchStep_suffix contentLengthName_once (h.line.searching rfl) h.position (lower c)
  rw [hkey, List.map_append, List.map_cons, List.map_nil]
  exact ⟨hline, hpos⟩

theorem readLengthByte_keyPos (flow : HeaderScan) (c : UInt8) :
    (readLengthByte flow c).keyPos = flow.keyPos := by
  unfold readLengthByte
  split_ifs <;> rfl

/-- The automaton behind the name: it reads, and the name stays matched. -/
structure Reading (p text : List UInt8) : Prop where
  line : InLine p text true
  keyPos : (headerRun p).keyPos = 15

/-- A byte while reading moves no key. -/
theorem Reading.keyPos_next {p text : List UInt8} (h : Reading p text) (hlen : p.length < maxHeader)
    {c : UInt8} (hlf : c ≠ lf) : (headerRun (p ++ [c])).keyPos = 15 := by
  have hc := nextHeaderMatch_ne_of_ne_lf h.line.going hlf
  obtain ⟨-, hrun⟩ := h.line.going.step hlen hc
  rw [headerStep_line hlf hc, if_pos h.line.readingLength] at hrun
  rw [hrun, readLengthByte_keyPos]
  exact h.keyPos

/-- A stretch of a length. -/
theorem Reading.all (bytes : List UInt8) : ∀ {p text : List UInt8}, Reading p text →
    (p ++ bytes).length ≤ maxHeader → (∀ c ∈ bytes, c ≠ cr ∧ c ≠ lf) →
    Reading (p ++ bytes) (text ++ bytes) := by
  induction bytes with
  | nil => intro p text h _ _; simpa using h
  | cons c bytes ih =>
      intro p text h hlen hbytes
      obtain ⟨hcr, hlf⟩ := hbytes c (by simp)
      have hlt : p.length < maxHeader := by
        simp only [List.length_append, List.length_cons] at hlen
        omega
      have hnext : Reading (p ++ [c]) (text ++ [c]) :=
        ⟨h.line.read hlt hcr hlf, h.keyPos_next hlt hlf⟩
      have hall := ih hnext (by simpa using hlen) fun d hd => hbytes d (by simp [hd])
      simpa using hall

/-- The automaton behind the number: it searches again, and its position is
at most the part of the name that the bytes `q` since then end in. -/
structure Searching (p q text : List UInt8) : Prop where
  going : Going (p ++ q)
  readingLength : (headerRun (p ++ q)).readingLength = false
  counted : Counted text (headerRun (p ++ q))
  position : (headerRun (p ++ q)).keyPos < 15 →
    contentLengthName.take (headerRun (p ++ q)).keyPos <:+ q.map lower

/-- The carriage return behind a number. -/
theorem Reading.carriageReturn {p text : List UInt8} (h : Reading p text)
    (hlen : p.length < maxHeader) : Searching (p ++ [cr]) [] text := by
  obtain ⟨hgoing, hreading, hcounted⟩ := h.line.carriageReturn hlen
  have hkey := h.keyPos_next hlen (show cr ≠ lf by decide)
  rw [← List.append_nil (p ++ [cr])] at hgoing hreading hcounted hkey
  exact ⟨hgoing, hreading, hcounted, fun hlt => by omega⟩

/-- One byte behind the number: the search finds the name only where the
bytes since then end in it. -/
theorem matchKeyByte_searching (flow : HeaderScan) {q : List UInt8}
    (hread : flow.readingLength = false)
    (hpos : flow.keyPos < 15 → contentLengthName.take flow.keyPos <:+ q.map lower) (c : UInt8)
    (hnone : ¬ contentLengthName <:+ (q ++ [c]).map lower) :
    (matchKeyByte flow c).readingLength = false ∧
    ((matchKeyByte flow c).keyPos < 15 →
      contentLengthName.take (matchKeyByte flow c).keyPos <:+ (q ++ [c]).map lower) := by
  have hmap : (q ++ [c]).map lower = q.map lower ++ [lower c] := by simp
  have hfirst : contentLengthName.take 1 = [] ++ [(99 : UInt8)] := rfl
  have hrestart : contentLengthName.take (if lower c = 99 then 1 else 0) <:+ (q ++ [c]).map lower := by
    split_ifs with h
    · rw [hfirst, hmap, suffix_snoc]
      exact ⟨h.symm, List.nil_suffix⟩
    · exact List.nil_suffix
  by_cases hlt : flow.keyPos < 15
  · have hlen : flow.keyPos < contentLengthName.length := hlt
    by_cases hmatch : lower c = contentLengthChar flow.keyPos
    · have hget := (contentLengthChar_eq hlt (lower c)).mp hmatch
      have hat : contentLengthName[flow.keyPos] = lower c := by
        rw [List.getElem?_eq_getElem hlen] at hget
        exact Option.some.inj hget
      have hsuffix : contentLengthName.take (flow.keyPos + 1) <:+ (q ++ [c]).map lower := by
        rw [List.take_succ_eq_append_getElem hlen, hmap, suffix_snoc]
        exact ⟨hat, hpos hlt⟩
      have hfull : flow.keyPos + 1 ≠ 15 := by
        intro hfull
        rw [hfull] at hsuffix
        exact hnone hsuffix
      simp only [matchKeyByte, hmatch, if_true, hfull, if_false]
      exact ⟨hread, fun _ => hsuffix⟩
    · simp only [matchKeyByte, hmatch, if_false]
      exact ⟨hread, fun _ => hrestart⟩
  · -- The position of the old match: only a NUL moves it on.
    by_cases hmatch : lower c = contentLengthChar flow.keyPos
    · have hfull : flow.keyPos + 1 ≠ 15 := by omega
      simp only [matchKeyByte, hmatch, if_true, hfull, if_false]
      exact ⟨hread, fun h => absurd h (by omega)⟩
    · simp only [matchKeyByte, hmatch, if_false]
      exact ⟨hread, fun _ => hrestart⟩

theorem Searching.step {p q text : List UInt8} (h : Searching p q text)
    (hlen : (p ++ q).length < maxHeader) {c : UInt8}
    (hc : nextHeaderMatch (headerRun (p ++ q)).headerMatch c ≠ 4)
    (hnone : ¬ contentLengthName <:+ (q ++ [c]).map lower) : Searching p (q ++ [c]) text := by
  obtain ⟨hgoing, hrun⟩ := h.going.step hlen hc
  rw [List.append_assoc] at hgoing hrun
  by_cases hlf : c = lf
  · subst hlf
    obtain ⟨hreading, hkey, hlength, hinvalid⟩ := headerStep_lineFeed h.readingLength hc
    rw [← hrun] at hreading hkey hlength hinvalid
    exact ⟨hgoing, hreading, h.counted.congr hlength hinvalid, fun _ => by
      rw [hkey]; exact List.nil_suffix⟩
  · rw [headerStep_line hlf hc, h.readingLength, if_neg Bool.false_ne_true] at hrun
    obtain ⟨hread, hpos⟩ := matchKeyByte_searching (advance (headerRun (p ++ q)) c)
      h.readingLength h.position c hnone
    have hinvalid : ∀ flow : HeaderScan, (matchKeyByte flow c).invalid = flow.invalid := by
      intro flow
      simp only [matchKeyByte]
      split_ifs <;> rfl
    refine ⟨hgoing, by rw [hrun]; exact hread, ?_, by rw [hrun]; exact hpos⟩
    rw [hrun]
    exact (h.counted.advance c).congr (matchKeyByte_contentLength _ _) (hinvalid _)

namespace StatedBlock
variable {b : StatedBlock}

theorem head_length_lt (b : StatedBlock) : b.head.length + b.text.length < b.line.length := by
  rw [LengthParts.line, List.length_append, List.length_append, List.length_singleton]
  omega

theorem line_prefix (b : StatedBlock) : b.line <+: b.bytes := List.prefix_append _ _

theorem head_prefix (b : StatedBlock) : b.head <+: b.bytes := by
  refine List.IsPrefix.trans ?_ b.line_prefix
  rw [LengthParts.line, List.append_assoc]
  exact List.prefix_append _ _

/-- Before the name is complete. -/
theorem matching (hlen : b.bytes.length ≤ maxHeader) (p : List UInt8) (hp : p <+: b.head)
    (hne : p ≠ b.head) : Matching p := by
  induction p using List.reverseRecOn with
  | nil => exact matching_nil
  | append_singleton p c ih =>
      have hpHead : p <+: b.head := (List.prefix_append p [c]).trans hp
      have hle := hp.length_le
      have hleBytes := (hp.trans b.head_prefix).length_le
      rw [List.length_append, List.length_singleton] at hle hleBytes
      have hlt := b.head_length_lt
      have hline := b.line_prefix.length_le
      have hneHead : p ≠ b.head := by
        rintro rfl
        omega
      have hneBytes : p ++ [c] ≠ b.bytes := by
        intro heq
        have hlenEq := congrArg List.length heq
        rw [List.length_append, List.length_singleton] at hlenEq
        omega
      have hmatching := ih hpHead hneHead
      have hc := goes_on hmatching.line.going (hp.trans b.head_prefix) hneBytes
      obtain ⟨hinline, hposition⟩ := hmatching.step (by omega) hc
      have hnotfull : (headerRun (p ++ [c])).keyPos ≠ 15 := by
        intro hfull
        refine hne (head_of_suffix (hp.trans b.head_prefix) ?_)
        exact (hposition 15 (by decide) (Nat.le_refl _)).mpr hfull
      have hkey := (hmatching.line.search_any (by omega) hc).2
      rw [← hkey, beq_eq_false_iff_ne.mpr hnotfull] at hinline
      exact ⟨hinline, fun k hk hlt' => hposition k hk (Nat.le_of_lt hlt')⟩

/-- Where the name is complete. -/
theorem reading (hlen : b.bytes.length ≤ maxHeader) : Reading b.head [] := by
  have hnameLen := b.name_length
  obtain ⟨init, c, hhead⟩ : ∃ init c, b.head = init ++ [c] := by
    rcases List.eq_nil_or_concat' b.head with hnil | h
    · have hlenHead := congrArg List.length hnil
      rw [LengthParts.head, List.length_append, List.length_nil] at hlenHead
      omega
    · exact h
  have hprefix : init <+: b.head := ⟨[c], hhead.symm⟩
  have hlenHead : init.length + 1 = b.head.length := by
    rw [hhead, List.length_append, List.length_singleton]
  have hlt := b.head_length_lt
  have hline := b.line_prefix.length_le
  have hmatching := matching hlen init hprefix (by rintro rfl; omega)
  have hneBytes : init ++ [c] ≠ b.bytes := by
    rw [← hhead]
    intro heq
    have hlenEq := congrArg List.length heq
    omega
  have hc := goes_on hmatching.line.going (hhead ▸ b.head_prefix) hneBytes
  obtain ⟨hinline, hposition⟩ := hmatching.step (by omega) hc
  have hkey := (hmatching.line.search_any (by omega) hc).2
  have hsuffix : contentLengthName <:+ (init ++ [c]).map lower := by
    rw [← hhead, LengthParts.head, List.map_append, b.name_eq]
    exact List.suffix_append _ _
  have hfull := (hposition 15 (by decide) (Nat.le_refl _)).mp hsuffix
  rw [← hkey, hfull] at hinline
  rw [hhead]
  exact ⟨hinline, hfull⟩

theorem text_plain (b : StatedBlock) : ∀ c ∈ b.text, c ≠ cr ∧ c ≠ lf := by
  have hblank : ∀ c, c = blank ∨ c = tab → c ≠ cr ∧ c ≠ lf := by
    rintro c (rfl | rfl) <;> decide
  have hdigit : ∀ c : UInt8, 48 ≤ c.toNat → c ≠ cr ∧ c ≠ lf := by
    intro c hc
    constructor
    · rintro rfl
      exact absurd hc (by decide)
    · rintro rfl
      exact absurd hc (by decide)
  intro c hc
  rw [LengthParts.text] at hc
  rcases List.mem_append.mp hc with hc | hc
  · rcases List.mem_append.mp hc with hc | hc
    · exact hblank c (b.blanks_ok c hc)
    · exact hdigit c (b.digits_ok c hc).1
  · exact hblank c (b.blanksBehind_ok c hc)

/-- Behind the number. -/
theorem searching (hlen : b.bytes.length ≤ maxHeader) (q : List UInt8) (hq : q <+: b.behind)
    (hne : q ≠ b.behind) : Searching b.line q b.text := by
  have hlt := b.head_length_lt
  have hline := b.line_prefix.length_le
  have hlineLen : b.line.length = b.head.length + b.text.length + 1 := by
    rw [LengthParts.line, List.length_append, List.length_append, List.length_singleton]
  induction q using List.reverseRecOn with
  | nil =>
      have hread := (reading hlen).all b.text (by rw [List.length_append]; omega) b.text_plain
      exact hread.carriageReturn (by rw [List.length_append]; omega)
  | append_singleton q c ih =>
      have hqBehind : q <+: b.behind := (List.prefix_append q [c]).trans hq
      have hle := hq.length_le
      rw [List.length_append, List.length_singleton] at hle
      have hneq : q ≠ b.behind := by
        rintro rfl
        omega
      have hprefix : b.line ++ (q ++ [c]) <+: b.bytes :=
        (List.prefix_append_right_inj b.line).mpr hq
      have hneBytes : b.line ++ (q ++ [c]) ≠ b.bytes := fun heq =>
        hne (List.append_cancel_left heq)
      have hsearching := ih hqBehind hneq
      have hlenBytes := hprefix.length_le
      rw [List.length_append, List.length_append, List.length_singleton] at hlenBytes
      rw [← List.append_assoc] at hprefix hneBytes
      refine hsearching.step (by rw [List.length_append]; omega)
        (goes_on hsearching.going hprefix hneBytes) fun hname => ?_
      -- A second name would end behind the first.
      have hsuffix : contentLengthName <:+ (b.line ++ q ++ [c]).map lower := by
        rw [List.append_assoc, List.map_append]
        exact hname.trans (List.suffix_append _ _)
      have hhead := congrArg List.length (head_of_suffix hprefix hsuffix)
      rw [List.length_append, List.length_append] at hhead
      omega

/-- **The automaton at the end of the block** has read the number. -/
theorem run (hlen : b.bytes.length ≤ maxHeader) :
    (scan headerStep .initial b.bytes).2 = true ∧ Terminated b.bytes (headerRun b.bytes) ∧
    Counted b.text (headerRun b.bytes) := by
  obtain ⟨q, c, hbehind⟩ : ∃ q c, b.behind = q ++ [c] := by
    rcases List.eq_nil_or_concat' b.behind with hnil | h
    · have hends := b.ends
      rw [LengthParts.bytes, hnil, List.append_nil, LengthParts.line] at hends
      exact absurd ((suffix_snoc [cr, lf, cr] lf).mp hends).1 (by decide)
    · exact h
  have hbytes : b.bytes = b.line ++ q ++ [c] := by
    rw [LengthParts.bytes, hbehind, List.append_assoc]
  have hneq : q ≠ b.behind := by
    intro heq
    have hlenEq := congrArg List.length (heq.trans hbehind)
    rw [List.length_append, List.length_singleton] at hlenEq
    omega
  have hsearching := searching hlen q ⟨[c], hbehind.symm⟩ hneq
  have hmatch : nextHeaderMatch (headerRun (b.line ++ q)).headerMatch c = 4 :=
    (hsearching.going.scanning.ends_iff c).mpr (hbytes ▸ b.ends)
  have hlt : (b.line ++ q).length < maxHeader := by
    rw [hbytes, List.length_append, List.length_singleton] at hlen
    omega
  obtain ⟨hstop, hterminated⟩ := hsearching.going.scanning.stop hlt hmatch
  have hrun : scan headerStep .initial (b.line ++ q ++ [c])
      = scan headerStep (headerRun (b.line ++ q)) [c] := scan_append_go _ hsearching.going.going
  rw [scan_cons_stop _ hstop] at hrun
  have hheader : headerRun (b.line ++ q ++ [c]) = (headerStep (headerRun (b.line ++ q)) c).1 := by
    rw [headerRun, hrun]
  rw [hbytes]
  refine ⟨by rw [hrun], by rw [hheader]; exact hterminated, ?_⟩
  rw [hheader, headerStep, headerByte_stop hmatch]
  exact hsearching.counted.congr rfl rfl

end StatedBlock

/-! ## Every call -/

namespace StatedBlock
variable {b : StatedBlock}

/-- What the automaton made of a block within the limits. -/
theorem accepted (hlen : b.bytes.length ≤ maxHeader)
    (hfits : b.bytes.length + b.stated ≤ maxRequest) :
    (headerRun b.bytes).invalid = false ∧
    (headerRun b.bytes).requestLen = b.bytes.length + b.stated := by
  obtain ⟨-, hterminated, hcounted⟩ := run hlen
  have hguarded : guardedLength = 262140 := rfl
  have hmax : maxRequest = 262144 := rfl
  have hroom : 15 ≤ b.bytes.length := by
    have hle := b.head_prefix.length_le
    rw [LengthParts.head, List.length_append, b.name_length] at hle
    omega
  have hdigits : countedDigits b.text = b.digits := by
    rw [LengthParts.text, countedDigits_append, countedDigits_append,
      countedDigits_blanks b.blanks_ok, countedDigits_blanks b.blanksBehind_ok,
      countedDigits_digits b.digits_ok, List.nil_append, List.append_nil]
  have hstated : decimal (countedDigits b.text) = b.stated := by rw [hdigits, stated]
  have hclean : ¬ Stray b.text := by
    have hblank : ∀ c, c = blank ∨ c = tab → ¬ (isDigit c = false ∧ c ≠ blank ∧ c ≠ tab) := by
      rintro c (rfl | rfl) h
      · exact h.2.1 rfl
      · exact h.2.2 rfl
    rintro ⟨c, hc, hstray⟩
    rw [LengthParts.text] at hc
    rcases List.mem_append.mp hc with hc | hc
    · rcases List.mem_append.mp hc with hc | hc
      · exact hblank c (b.blanks_ok c hc) hstray
      · rw [isDigit_iff.mpr (b.digits_ok c hc)] at hstray
        cases hstray.1
    · exact hblank c (b.blanksBehind_ok c hc) hstray
  constructor
  · refine Bool.eq_false_iff.mpr fun hinvalid => ?_
    rcases hcounted.invalid.mp hinvalid with hstray | hbig
    · exact hclean hstray
    · omega
  · rw [hterminated.requestLen, hcounted.value (by omega), hstated]
    exact u32_of_lt (by omega)

/-- **Accepted as soon as it is there.** -/
theorem result (pol : Policy) (hlen : b.bytes.length ≤ maxHeader)
    (hfits : b.bytes.length + b.stated ≤ maxRequest) {rest : List UInt8} {cookie : UInt64}
    {w : World} (h : Resumed (b.bytes ++ rest) cookie w) (m : Nat) :
    (skRouterParser pol w cookie ((b.bytes ++ rest).take m)).2 =
      if b.bytes.length + b.stated ≤ ((b.bytes ++ rest).take m).length
      then b.bytes.length + b.stated else 0 := by
  obtain ⟨hstop, hterminated, -⟩ := run hlen
  obtain ⟨hvalid, hrequest⟩ := accepted hlen hfits
  obtain ⟨k, hmin, -, hheader⟩ := h.scanned pol m
  have hpos := hterminated.pos
  rw [parser_result pol h, hheader]
  by_cases hk : b.bytes.length ≤ k
  · rw [headerRun_behind hstop rest hk]
    have hpending : requestPending (headerRun b.bytes) ((b.bytes ++ rest).take m).length = true ↔
        ¬ b.bytes.length + b.stated ≤ ((b.bytes ++ rest).take m).length := by
      simp only [requestPending, hterminated.headerLen, hvalid, hrequest, Bool.or_false,
        Bool.or_eq_true, decide_eq_true_eq]
      omega
    by_cases hbuffered : b.bytes.length + b.stated ≤ ((b.bytes ++ rest).take m).length
    · rw [if_pos hbuffered, if_neg fun hp => hpending.mp hp hbuffered, hrequest]
    · rw [if_neg hbuffered, if_pos (hpending.mpr hbuffered)]
  · have hearly := hterminated.headerLen_before hlen rest (Nat.not_le.mp hk)
    have hlt : ((b.bytes ++ rest).take m).length ≤ m := List.length_take_le _ _
    rw [if_pos (by simp [requestPending, hearly]), if_neg (by omega)]

end StatedBlock

/-- A run of the parser for one client: the bytes buffered, the result, and
the header state of the flow it leaves. -/
structure ParserCall where
  buffered : Nat
  result : Nat
  header : Option HeaderScan

/-- A call on a prefix of the stream. Before it the flow may be evicted, and
anything else may have changed. -/
def CalledOn (pol : Policy) (stream : List UInt8) (cookie : UInt64) (w : World) (call : ParserCall)
    (w' : World) : Prop :=
  ∃ v, IsClient v cookie ∧ (v.flows cookie = w.flows cookie ∨ v.flows cookie = none) ∧
    skRouterParser pol v cookie (stream.take call.buffered) = (w', call.result) ∧
    (w'.flows cookie).map HttpFlowState.header = call.header

/-- The sizes of one call: its flow is within the bounds, a positive result
delimits a request, and a block with one stated length within the limits is
accepted once it is buffered with its body. -/
structure SizesExact (stream : List UInt8) (call : ParserCall) : Prop where
  bounded : ∀ header ∈ call.header, Bounded header
  delimits : 0 < call.result →
    ∃ header ∈ call.header, Delimits stream call.buffered call.result header
  accepted : ∀ (b : StatedBlock) (rest : List UInt8), stream = b.bytes ++ rest →
    b.bytes.length ≤ maxHeader → b.bytes.length + b.stated ≤ maxRequest →
    call.result = if b.bytes.length + b.stated ≤ (stream.take call.buffered).length
      then b.bytes.length + b.stated else 0

theorem Resumed.sizes (pol : Policy) {stream : List UInt8} {cookie : UInt64} {v : World}
    (h : Resumed stream cookie v) {call : ParserCall} {w' : World}
    (hcall : skRouterParser pol v cookie (stream.take call.buffered) = (w', call.result))
    (hheader : (w'.flows cookie).map HttpFlowState.header = call.header) :
    SizesExact stream call := by
  have hresult : (skRouterParser pol v cookie (stream.take call.buffered)).2 = call.result := by
    rw [hcall]
  have hleft := parser_header pol h.client (stream.take call.buffered)
  rw [hcall, hheader] at hleft
  refine ⟨fun header hmem => ?_, fun hpos => ?_, ?_⟩
  · rw [hleft] at hmem
    obtain rfl := Option.some.inj hmem
    obtain ⟨k, -, hk, hscanned⟩ := h.scanned pol call.buffered
    rw [hscanned]
    exact headerRun_bounded (by rw [List.length_take]; omega)
  · rw [← hresult] at hpos
    exact ⟨_, hleft, hresult ▸ h.delimits pol hpos⟩
  · rintro b rest rfl hlen hfits
    rw [← hresult]
    exact StatedBlock.result pol hlen hfits h call.buffered

/-- **The request-size boundary is exact**, on every stream and in every
schedule of calls. -/
theorem request_size_boundary (pol : Policy) (stream : List UInt8) (cookie : UInt64)
    {w w' : World} {calls : List ParserCall} (hnew : w.flows cookie = none)
    (run : Run (CalledOn pol stream cookie) w calls w') :
    ∀ call ∈ calls, SizesExact stream call := by
  have htrace := run.trace
    (I := fun w : World => ∀ flow, w.flows cookie = some flow →
      ∃ k, k ≤ maxHeader ∧ flow.header = headerRun (stream.take k))
    (P := SizesExact stream) (fun flow hflow => by rw [hnew] at hflow; cases hflow) ?_
  · exact htrace.2
  · rintro w call w' hw ⟨v, hclient, hkept, hcall, hheader⟩
    have hresumed : Resumed stream cookie v := by
      refine ⟨hclient, fun flow hflow => ?_⟩
      rcases hkept with hkept | hkept
      · exact hw flow (hkept ▸ hflow)
      · rw [hkept] at hflow
        cases hflow
    have hnext := (hresumed.call pol call.buffered).flow
    rw [hcall] at hnext
    exact ⟨hnext, hresumed.sizes pol hcall hheader⟩

/-- `P\r\nCONTENT-length: 005 \r\n\r\n` -/
def zerosParts : LengthParts where
  before := [80, 13, 10]
  name := [67, 79, 78, 84, 69, 78, 84, 45, 108, 101, 110, 103, 116, 104, 58]
  blanks := [32]
  digits := [48, 48, 53]
  blanksBehind := [32]
  behind := [10, 13, 10]

def zerosBlock : StatedBlock where
  toLengthParts := zerosParts
  name_eq := by decide
  once a found b hsplit hfound := by
    have hlen : found.length = 15 := by
      have hlen := congrArg List.length hfound
      rwa [List.length_map] at hlen
    have hwhere : ∀ n ≤ 27, ((zerosParts.bytes.drop n).take 15).map lower = contentLengthName →
        zerosParts.bytes.take n = [80, 13, 10] := by decide
    have hle := congrArg List.length hsplit
    rw [List.append_assoc, List.length_append] at hle
    have hat := hwhere a.length (by rw [show zerosParts.bytes.length = 27 from rfl] at hle; omega)
    rw [hsplit, List.append_assoc, List.drop_left, ← hlen, List.take_left, List.take_left] at hat
    exact hat hfound
  blanks_ok := fun _ hc => .inl (List.mem_singleton.mp hc)
  blanksBehind_ok := fun _ hc => .inl (List.mem_singleton.mp hc)
  digits_ne := by decide
  digits_ok := show ∀ d ∈ ([48, 48, 53] : List UInt8), 48 ≤ d.toNat ∧ d.toNat ≤ 57 by simp
  ends := by decide
  first p hp hend := by
    have hwhere : ∀ n ≤ 27, crlfcrlf <:+ zerosParts.bytes.take n →
        zerosParts.bytes.take n = zerosParts.bytes := by decide
    rw [List.prefix_iff_eq_take.mp hp] at hend ⊢
    exact hwhere p.length hp.length_le hend

/-- The block with its body and one byte more. -/
def zerosStream : List UInt8 := zerosBlock.bytes ++ [97, 98, 99, 100, 101, 102]

/-- Two leading zeros: the request ends five bytes behind its header. -/
theorem request_size_boundary_zeros :
    (skRouterParser ngramOnly idleWorld 7 (zerosStream.take 33)).2 = 32 := by
  have hexact : SizesExact zerosStream
      ⟨33, (skRouterParser ngramOnly idleWorld 7 (zerosStream.take 33)).2,
        ((skRouterParser ngramOnly idleWorld 7 (zerosStream.take 33)).1.flows 7).map
          HttpFlowState.header⟩ :=
    request_size_boundary ngramOnly zerosStream 7 (w := idleWorld) rfl
      (.single ⟨idleWorld, by decide, .inl rfl, rfl, rfl⟩) _ (List.mem_singleton_self _)
  exact hexact.accepted zerosBlock _ rfl (by decide +kernel) (by decide +kernel)

end Xsr.Parsing
