import Xsr.Kernel.Word
import Xsr.Lib.Loop

/-!
# Header — the resumable header automaton

`scan_headers_callback` of `sk_router.bpf.c`: one byte at a time it looks
for the end of the header block, for the text `content-length:` and for
the digits after it. All its state lives in the flow entry, so a scan can
stop at the end of the available bytes and go on in a later call.
-/

namespace Xsr.Kernel

/-- `SK_ROUTER_MAX_HEADER` -/
def maxHeader : Nat := 2000

/-- `SK_ROUTER_MAX_REQUEST`, which is `XDP_MAX_STREAM_REQUEST_BYTES`. -/
def maxRequest : Nat := 262144

/-- The fields of `struct sk_http_flow_state` that the header automaton
owns. -/
structure HeaderScan where
  headerScanned : Nat
  headerLen : Nat
  contentLength : Nat
  requestLen : Nat
  keyPos : Nat
  headerMatch : Nat
  lineStart : Bool
  readingLength : Bool
  invalid : Bool

/-- The automaton of a fresh flow: `memset`, then `line_start = 1`. -/
def HeaderScan.initial : HeaderScan := ⟨0, 0, 0, 0, 0, 0, true, false, false⟩

/-- The characters of `content-length:`. -/
def contentLengthName : List UInt8 :=
  [99, 111, 110, 116, 101, 110, 116, 45, 108, 101, 110, 103, 116, 104, 58]

/-- `content_length_char` -/
def contentLengthChar (pos : Nat) : UInt8 :=
  if pos < 15 then contentLengthName.getD pos 0 else 0

/-- The terminator automaton: how much of `\r\n\r\n` the last bytes match. -/
def nextHeaderMatch (headerMatch : Nat) (c : UInt8) : Nat :=
  if c = (if headerMatch = 0 ∨ headerMatch = 2 then cr else lf) then headerMatch + 1
  else if c = cr then 1 else 0

/-- The `flow->reading_length` branch: one byte of a length value. -/
def readLengthByte (flow : HeaderScan) (c : UInt8) : HeaderScan :=
  if isDigit c then
    if (maxRequest - 9) / 10 < flow.contentLength then { flow with invalid := true }
    else { flow with contentLength := u32 (flow.contentLength * 10 + c.toNat - 48) }
  else if c = cr then { flow with readingLength := false }
  else if c ≠ blank ∧ c ≠ tab then { flow with invalid := true }
  else flow

/-- The other branch: one byte while looking for `content-length:`. -/
def matchKeyByte (flow : HeaderScan) (c : UInt8) : HeaderScan :=
  if lower c = contentLengthChar flow.keyPos then
    let flow := { flow with keyPos := flow.keyPos + 1 }
    if flow.keyPos = 15 then { flow with readingLength := true } else flow
  else { flow with keyPos := if lower c = 99 then 1 else 0 }

/-- One byte `c` of the header block at offset `off`; the flag is the
callback's `return 1`. -/
def headerByte (off : Nat) (flow : HeaderScan) (c : UInt8) : HeaderScan × Bool :=
  let flow := { flow with
    headerScanned := u32 (off + 1)
    headerMatch := nextHeaderMatch flow.headerMatch c }
  if flow.headerMatch = 4 then
    ({ flow with
        headerLen := u32 (off + 1)
        requestLen := u32 (u32 (off + 1) + flow.contentLength) }, true)
  else
    let flow := if flow.readingLength then readLengthByte flow c else matchKeyByte flow c
    (if c = lf then { flow with lineStart := true, keyPos := 0 } else flow, false)

/-- `scan_headers_callback`: `start` and `scanLen` are the context's fields,
`skb` the bytes `bpf_skb_load_bytes` reads. -/
def scanHeadersCallback (skb : List UInt8) (start scanLen : Nat) (i : Nat)
    (flow : HeaderScan) : HeaderScan × Bool :=
  let off := u32 (start + i)
  if scanLen ≤ i then (flow, true)
  else match skb[off]? with
    | none => (flow, true)
    | some c => headerByte off flow c

/-- The header part of `sk_router_parser`: nothing once `header_len` is set,
else the scan of the bytes not yet seen, up to `SK_ROUTER_MAX_HEADER`. -/
def scanHeaders (skb : List UInt8) (flow : HeaderScan) : HeaderScan :=
  if flow.headerLen ≠ 0 then flow
  else
    let start := flow.headerScanned
    let scanLen := if start < skb.length then skb.length - start else 0
    let scanLen := if subU32 maxHeader start < scanLen then subU32 maxHeader start else scanLen
    Lib.boundedLoop (scanHeadersCallback skb start scanLen) maxHeader 0 flow

end Xsr.Kernel
