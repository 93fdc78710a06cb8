import Xsr.Kernel.Header
import Xsr.Lib.Search

/-!
# HeaderRun — the header scan as a function of the bytes seen

One call of the parser scans the bytes it has not seen; here all calls
together are one scan from the initial automaton. `Scanning` is what holds
while the block has not ended, `Terminated` what holds once its first
`\r\n\r\n` is in.
-/

namespace Xsr.Parsing

open Kernel Lib

/-- `headerByte` at the offset the automaton keeps itself. -/
def headerStep (flow : HeaderScan) (c : UInt8) : HeaderScan × Bool :=
  headerByte flow.headerScanned flow c

/-- The automaton after the given bytes of a stream. -/
def headerRun (bytes : List UInt8) : HeaderScan := (scan headerStep .initial bytes).1

/-- The end of a header block. -/
def crlfcrlf : List UInt8 := [cr, lf, cr, lf]

/-- The state while no terminator has been seen: `p` is what was read. -/
structure Scanning (p : List UInt8) (h : HeaderScan) : Prop where
  scanned : h.headerScanned = p.length
  headerLen : h.headerLen = 0
  requestLen : h.requestLen = 0
  matchLe : h.headerMatch ≤ 3
  endsCr : (h.headerMatch = 1 ∨ h.headerMatch = 3) ↔ [cr] <:+ p
  endsCrLf : h.headerMatch = 2 ↔ [cr, lf] <:+ p
  endsCrLfCr : h.headerMatch = 3 ↔ [cr, lf, cr] <:+ p
  unended : ∀ q, q <+: p → ¬ crlfcrlf <:+ q

/-- The state at the terminator: `p` is the whole header block. -/
structure Terminated (p : List UInt8) (h : HeaderScan) : Prop where
  scanned : h.headerScanned = p.length
  headerLen : h.headerLen = p.length
  requestLen : h.requestLen = u32 (p.length + h.contentLength)
  ends : crlfcrlf <:+ p
  first : ∀ q, q <+: p → crlfcrlf <:+ q → q = p

/-- The automaton's other branches leave the terminator fields alone. -/
theorem readLengthByte_frame (flow : HeaderScan) (c : UInt8) :
    (readLengthByte flow c).headerScanned = flow.headerScanned ∧
    (readLengthByte flow c).headerLen = flow.headerLen ∧
    (readLengthByte flow c).requestLen = flow.requestLen ∧
    (readLengthByte flow c).headerMatch = flow.headerMatch := by
  unfold readLengthByte
  split_ifs <;> simp

theorem matchKeyByte_frame (flow : HeaderScan) (c : UInt8) :
    (matchKeyByte flow c).headerScanned = flow.headerScanned ∧
    (matchKeyByte flow c).headerLen = flow.headerLen ∧
    (matchKeyByte flow c).requestLen = flow.requestLen ∧
    (matchKeyByte flow c).headerMatch = flow.headerMatch := by
  simp only [matchKeyByte]
  split_ifs <;> exact ⟨rfl, rfl, rfl, rfl⟩

/-- The terminator automaton, state by state: `4` is the end of the block,
and short of it the state says which part of a terminator is at the end. -/
theorem nextHeaderMatch_spec {m : Nat} (hm : m ≤ 3) (c : UInt8) :
    (nextHeaderMatch m c = 4 ↔ lf = c ∧ m = 3) ∧
    (nextHeaderMatch m c ≠ 4 → nextHeaderMatch m c ≤ 3 ∧
      ((nextHeaderMatch m c = 1 ∨ nextHeaderMatch m c = 3) ↔ cr = c) ∧
      (nextHeaderMatch m c = 2 ↔ lf = c ∧ (m = 1 ∨ m = 3)) ∧
      (nextHeaderMatch m c = 3 ↔ cr = c ∧ m = 2)) := by
  have hcase : m = 0 ∨ m = 1 ∨ m = 2 ∨ m = 3 := by omega
  by_cases hcr : cr = c
  · subst hcr
    rcases hcase with rfl | rfl | rfl | rfl <;> decide
  · have hcr' : ¬ c = cr := fun h => hcr h.symm
    by_cases hlf : lf = c
    · subst hlf
      rcases hcase with rfl | rfl | rfl | rfl <;> decide
    · have hlf' : ¬ c = lf := fun h => hlf h.symm
      rcases hcase with rfl | rfl | rfl | rfl <;>
        simp [nextHeaderMatch, hcr, hcr', hlf, hlf']

/-- What a byte that does not end the block does to the terminator fields. -/
theorem headerByte_go (off : Nat) {flow : HeaderScan} {c : UInt8}
    (h : nextHeaderMatch flow.headerMatch c ≠ 4) :
    (headerByte off flow c).2 = false ∧
    (headerByte off flow c).1.headerScanned = u32 (off + 1) ∧
    (headerByte off flow c).1.headerLen = flow.headerLen ∧
    (headerByte off flow c).1.requestLen = flow.requestLen ∧
    (headerByte off flow c).1.headerMatch = nextHeaderMatch flow.headerMatch c := by
  simp only [headerByte, h, if_false]
  split_ifs <;> simp [readLengthByte_frame, matchKeyByte_frame]

/-- What the byte that ends the block does. -/
theorem headerByte_stop {off : Nat} {flow : HeaderScan} {c : UInt8}
    (h : nextHeaderMatch flow.headerMatch c = 4) :
    headerByte off flow c =
      ({ flow with
          headerScanned := u32 (off + 1)
          headerMatch := 4
          headerLen := u32 (off + 1)
          requestLen := u32 (u32 (off + 1) + flow.contentLength) }, true) := by
  simp [headerByte, h]

theorem u32_succ_of_lt_maxHeader {n : Nat} (h : n < maxHeader) : u32 (n + 1) = n + 1 :=
  u32_of_lt (by unfold maxHeader at h; omega)

/-- The byte after `p` ends the block exactly when it completes a terminator. -/
theorem Scanning.ends_iff {p : List UInt8} {h : HeaderScan} (hs : Scanning p h) (c : UInt8) :
    nextHeaderMatch h.headerMatch c = 4 ↔ crlfcrlf <:+ p ++ [c] := by
  rw [(nextHeaderMatch_spec hs.matchLe c).1, hs.endsCrLfCr]
  exact (suffix_snoc [cr, lf, cr] lf).symm

/-- One byte that does not end the block keeps the invariant. -/
theorem Scanning.go {p : List UInt8} {h : HeaderScan} (hs : Scanning p h)
    (hlen : p.length < maxHeader) {c : UInt8} (hc : nextHeaderMatch h.headerMatch c ≠ 4) :
    (headerStep h c).2 = false ∧ Scanning (p ++ [c]) (headerStep h c).1 := by
  obtain ⟨h1, h2, h3, h4, h5⟩ := headerByte_go h.headerScanned hc
  obtain ⟨hle, hendsCr, hendsCrLf, hendsCrLfCr⟩ := (nextHeaderMatch_spec hs.matchLe c).2 hc
  rw [← h5] at hle hendsCr hendsCrLf hendsCrLfCr
  refine ⟨h1, ?_, h3.trans hs.headerLen, h4.trans hs.requestLen, hle, ?_, ?_, ?_, ?_⟩
  · show (headerByte _ h c).1.headerScanned = _
    rw [h2, hs.scanned, u32_succ_of_lt_maxHeader hlen]
    simp
  · refine hendsCr.trans (Iff.trans ?_ (suffix_snoc [] cr).symm)
    simp
  · rw [hs.endsCr] at hendsCrLf
    exact hendsCrLf.trans (suffix_snoc [cr] lf).symm
  · rw [hs.endsCrLf] at hendsCrLfCr
    exact hendsCrLfCr.trans (suffix_snoc [cr, lf] cr).symm
  · intro q hq hend
    rcases prefix_snoc.mp hq with rfl | hq
    · exact hc ((hs.ends_iff c).mpr hend)
    · exact hs.unended q hq hend

/-- The byte that ends the block. -/
theorem Scanning.stop {p : List UInt8} {h : HeaderScan} (hs : Scanning p h)
    (hlen : p.length < maxHeader) {c : UInt8} (hc : nextHeaderMatch h.headerMatch c = 4) :
    (headerStep h c).2 = true ∧ Terminated (p ++ [c]) (headerStep h c).1 := by
  have hoff : u32 (h.headerScanned + 1) = (p ++ [c]).length := by
    rw [hs.scanned, u32_succ_of_lt_maxHeader hlen]; simp
  simp only [headerStep, headerByte_stop hc, true_and]
  refine ⟨hoff, hoff, ?_, (hs.ends_iff c).mp hc, ?_⟩
  · simp only [hoff]
  · intro q hq hend
    rcases prefix_snoc.mp hq with rfl | hq
    · rfl
    · exact absurd hend (hs.unended q hq)

theorem scanning_nil : Scanning [] .initial := by
  constructor <;> simp [HeaderScan.initial, cr, crlfcrlf]

/-- **The header run.** Over at most `maxHeader` bytes the automaton has
either not stopped and is `Scanning` them all, or it stopped at the first
terminator and is `Terminated` there. -/
theorem headerRun_spec (p : List UInt8) (hlen : p.length ≤ maxHeader) :
    ((scan headerStep .initial p).2 = false ∧ Scanning p (headerRun p)) ∨
    ((scan headerStep .initial p).2 = true ∧ ∃ q, q <+: p ∧ Terminated q (headerRun p)) := by
  induction p using List.reverseRecOn with
  | nil => exact .inl ⟨rfl, scanning_nil⟩
  | append_singleton p c ih =>
      simp only [List.length_append, List.length_singleton] at hlen
      unfold headerRun
      rcases ih (by omega) with ⟨hgo, hs⟩ | ⟨hstop, q, hq, ht⟩
      · rw [scan_append_go _ hgo]
        change Scanning p (scan headerStep .initial p).1 at hs
        by_cases hc : nextHeaderMatch (scan headerStep .initial p).1.headerMatch c = 4
        · obtain ⟨hb, ht⟩ := hs.stop (by omega) hc
          rw [scan_cons_stop _ hb]
          exact .inr ⟨rfl, _, List.prefix_refl _, ht⟩
        · obtain ⟨hb, hs'⟩ := hs.go (by omega) hc
          rw [scan_cons_go _ hb]
          exact .inl ⟨rfl, hs'⟩
      · rw [scan_append_stop _ hstop]
        exact .inr ⟨hstop, q, hq.trans (List.prefix_append p [c]), ht⟩

/-! ## Resuming -/

theorem Terminated.pos {p : List UInt8} {h : HeaderScan} (ht : Terminated p h) : 0 < p.length :=
  Nat.lt_of_lt_of_le (by decide) ht.ends.length_le

/-- Once terminated, more bytes change nothing. -/
theorem headerRun_append_of_stop {p : List UInt8} (q : List UInt8)
    (h : (scan headerStep .initial p).2 = true) : headerRun (p ++ q) = headerRun p := by
  rw [headerRun, scan_append_stop _ h, headerRun]

/-- Short of the end of a block no terminator has been seen. -/
theorem Terminated.headerLen_before {block : List UInt8} (ht : Terminated block (headerRun block))
    (hlen : block.length ≤ maxHeader) (rest : List UInt8) {k : Nat} (hk : k < block.length) :
    (headerRun ((block ++ rest).take k)).headerLen = 0 := by
  rw [List.take_append_of_le_length (Nat.le_of_lt hk)]
  rcases headerRun_spec (block.take k) (by rw [List.length_take]; omega) with
    ⟨-, hs⟩ | ⟨-, q, hq, hearly⟩
  · exact hs.headerLen
  · have hwhole := ht.first q (hq.trans (List.take_prefix _ _)) hearly.ends
    have hle := hq.length_le
    rw [hwhole, List.length_take] at hle
    omega

/-- From there on the header state is the block's. -/
theorem headerRun_behind {block : List UInt8} (h : (scan headerStep .initial block).2 = true)
    (rest : List UInt8) {k : Nat} (hk : block.length ≤ k) :
    headerRun ((block ++ rest).take k) = headerRun block := by
  rw [List.take_append, List.take_of_length_le hk]
  exact headerRun_append_of_stop _ h

/-- What a call's loop reads: the bytes past the scanned ones, up to the
limit. -/
def unscanned (skb : List UInt8) (start : Nat) : List UInt8 :=
  (skb.drop start).take (min (skb.length - start) (maxHeader - start))

/-- The loop of one call is the scan of the bytes it has not seen. -/
theorem scanHeaders_scanning {skb : List UInt8} {p : List UInt8} {h : HeaderScan}
    (hs : Scanning p h) (hlen : p.length ≤ maxHeader) :
    scanHeaders skb h = (scan headerStep h (unscanned skb p.length)).1 := by
  have hmax : maxHeader < 4294967296 := by decide
  have hlimit : (if subU32 maxHeader p.length < (if p.length < skb.length then
        skb.length - p.length else 0)
      then subU32 maxHeader p.length
      else if p.length < skb.length then skb.length - p.length else 0)
      = min (skb.length - p.length) (maxHeader - p.length) := by
    rw [subU32_of_le hlen hmax]
    split_ifs <;> omega
  simp only [scanHeaders, hs.headerLen, hs.scanned, ne_eq, not_true_eq_false, if_false, hlimit]
  have hget : ∀ j, (unscanned skb p.length)[j]? =
      if j < min (skb.length - p.length) (maxHeader - p.length) then skb[p.length + j]?
      else none := by
    intro j
    simp only [unscanned, List.getElem?_take, List.getElem?_drop]
  -- between two bytes the automaton stands at the offset the loop loads next
  rw [boundedLoop_eq_scan headerStep (unscanned skb p.length)
    (P := fun j t => t.headerScanned = p.length + j)]
  · rw [List.drop_zero, List.take_of_length_le]
    simp only [unscanned, List.length_take]
    omega
  · intro j t x ht hx
    rw [hget] at hx
    split_ifs at hx with hj
    have hoff : u32 (p.length + j) = p.length + j := u32_of_lt (by omega)
    simp only [scanHeadersCallback, hoff, hx, headerStep, ht]
    rw [if_neg (by omega)]
  · intro j t hx
    rw [hget] at hx
    split_ifs at hx with hj
    · have hlen' := List.getElem?_eq_none_iff.mp hx
      omega
    · simp only [scanHeadersCallback]
      rw [if_pos (by omega)]
  · intro j t x ht hx hgo
    rw [hget] at hx
    split_ifs at hx with hj
    by_cases hc : nextHeaderMatch t.headerMatch x = 4
    · simp [headerStep, headerByte_stop hc] at hgo
    · show (headerByte _ t x).1.headerScanned = _
      rw [(headerByte_go _ hc).2.1, ht, u32_of_lt (by omega)]
      omega
  · rw [hs.scanned, Nat.add_zero]

theorem take_append_unscanned (stream : List UInt8) (k m : Nat) (hk : k ≤ maxHeader) :
    stream.take k ++ unscanned (stream.take m) (stream.take k).length
      = stream.take (max k (min m maxHeader)) := by
  unfold unscanned
  rw [List.drop_take, List.take_take]
  generalize hs : (stream.take k).length = s
  have hs' : s = min k stream.length := by rw [← hs, List.length_take]
  have hlen : (stream.take m).length = min m stream.length := List.length_take
  rw [show stream.take k = stream.take s from
      List.take_eq_take_iff.mpr (by omega),
    ← List.take_add, List.take_eq_take_iff, hlen]
  omega

/-- **A call resumes the run.** Whatever prefixes the earlier calls saw, the
header state after a call on `m` bytes is the run over the longest prefix
seen so far, cut at `maxHeader`. -/
theorem scanHeaders_headerRun (stream : List UInt8) {k : Nat} (hk : k ≤ maxHeader) (m : Nat) :
    scanHeaders (stream.take m) (headerRun (stream.take k))
      = headerRun (stream.take (max k (min m maxHeader))) := by
  have hlen : (stream.take k).length ≤ maxHeader := by rw [List.length_take]; omega
  rw [← take_append_unscanned stream k m hk]
  rcases headerRun_spec _ hlen with ⟨hgo, hs⟩ | ⟨hstop, q, -, ht⟩
  · rw [scanHeaders_scanning hs hlen, headerRun, headerRun, scan_append_go _ hgo]
  · rw [headerRun_append_of_stop _ hstop, scanHeaders, if_pos]
    rw [ht.headerLen]
    exact Nat.pos_iff_ne_zero.mp ht.pos

end Xsr.Parsing
