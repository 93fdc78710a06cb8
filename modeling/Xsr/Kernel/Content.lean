import Xsr.Kernel.Classifier

/-!
# Content — the JSON content scanner

`scan_content_callback` of `sk_router.bpf.c`: it looks for `"content":` in
the body, then for the opening quote of a string, and then decodes that
string up to its closing quote. Each byte of the body makes it hand some
bytes to `xdp_classifier_score_char`; `ContentStep.scored` lists them in
order.
-/

namespace Xsr.Kernel

/-- The fields of `struct sk_http_flow_state` that the content scanner owns. -/
structure ContentScan where
  contentKeyPos : Nat
  waitingForQuote : Bool
  inContent : Bool
  escaped : Bool
  unicodeRemaining : Nat
  unicodeValue : Nat
  unicodeHighSurrogate : Nat

/-- The scanner of a fresh flow. -/
def ContentScan.initial : ContentScan := ⟨0, false, false, false, 0, 0, 0⟩

/-- What one body byte does: the new scanner, the bytes handed to the
classifier, and the callback's `return 1`. -/
structure ContentStep where
  flow : ContentScan
  scored : List UInt8
  stop : Bool

/-- `content_key_char`: the characters of `"content":`. -/
def contentKeyChar (pos : Nat) : UInt8 :=
  [34, 99, 111, 110, 116, 101, 110, 116, 34, 58].getD pos 0

/-- `content_hex_value`; `none` is the source's `-1`. -/
def contentHexValue (c : UInt8) : Option Nat :=
  if isDigit c then some (c.toNat - 48)
  else if 97 ≤ c ∧ c ≤ 102 then some (c.toNat - 97 + 10)
  else if 65 ≤ c ∧ c ≤ 70 then some (c.toNat - 65 + 10)
  else none

/-- `sk_score_codepoint`: the bytes it scores. -/
def scoreCodepoint (value : Nat) : List UInt8 :=
  if value ≤ 0x7f then [UInt8.ofNat value]
  else if value ≤ 0x7ff then
    [UInt8.ofNat (0xc0 ||| (value >>> 6)), UInt8.ofNat (0x80 ||| (value &&& 0x3f))]
  else if value ≤ 0xffff then
    [UInt8.ofNat (0xe0 ||| (value >>> 12)), UInt8.ofNat (0x80 ||| ((value >>> 6) &&& 0x3f)),
     UInt8.ofNat (0x80 ||| (value &&& 0x3f))]
  else if value ≤ 0x10ffff then
    [UInt8.ofNat (0xf0 ||| (value >>> 18)), UInt8.ofNat (0x80 ||| ((value >>> 12) &&& 0x3f)),
     UInt8.ofNat (0x80 ||| ((value >>> 6) &&& 0x3f)), UInt8.ofNat (0x80 ||| (value &&& 0x3f))]
  else [blank]

/-- A complete `\uXXXX` escape: a high surrogate waits for its partner, any
other value flushes one that waits. -/
def unicodeEscape (flow : ContentScan) (value : Nat) : ContentScan × List UInt8 :=
  let high := flow.unicodeHighSurrogate
  if 0xd800 ≤ value ∧ value ≤ 0xdbff then
    ({ flow with unicodeHighSurrogate := value, unicodeValue := 0 },
      if high ≠ 0 then [blank] else [])
  else if 0xdc00 ≤ value ∧ value ≤ 0xdfff ∧ high ≠ 0 then
    ({ flow with unicodeHighSurrogate := 0, unicodeValue := 0 },
      scoreCodepoint (u32 (0x10000 + (subU32 high 0xd800 <<< 10) + (value - 0xdc00))))
  else
    ({ flow with unicodeHighSurrogate := 0, unicodeValue := 0 },
      (if high ≠ 0 then [blank] else [])
        ++ if 0xdc00 ≤ value ∧ value ≤ 0xdfff then [blank] else scoreCodepoint value)

/-- One byte of a `\uXXXX` escape. -/
def unicodeByte (flow : ContentScan) (c : UInt8) : ContentStep :=
  match contentHexValue c with
  | none => ⟨{ flow with unicodeRemaining := 0, unicodeValue := 0 }, [blank], false⟩
  | some hex =>
      let flow := { flow with
        unicodeValue := u16 ((flow.unicodeValue <<< 4) ||| hex)
        unicodeRemaining := flow.unicodeRemaining - 1 }
      if flow.unicodeRemaining ≠ 0 then ⟨flow, [], false⟩
      else
        let (flow, scored) := unicodeEscape flow flow.unicodeValue
        ⟨flow, scored, false⟩

/-- The byte after a backslash, other than `u`. -/
def simpleEscape (c : UInt8) : UInt8 :=
  if c = quote ∨ c = backslash ∨ c = 47 then c
  else if c = 98 then 8
  else if c = 102 then 12
  else if c = 110 then lf
  else if c = 114 then cr
  else if c = 116 then tab
  else blank

/-- `scan_content_callback` on one loaded byte. -/
def contentByte (flow : ContentScan) (c : UInt8) : ContentStep :=
  if flow.inContent then
    if flow.unicodeRemaining ≠ 0 then unicodeByte flow c
    else if flow.escaped then
      if c = 117 then
        ⟨{ flow with escaped := false, unicodeRemaining := 4, unicodeValue := 0 }, [], false⟩
      else ⟨{ flow with escaped := false }, [simpleEscape c], false⟩
    else if c = backslash then ⟨{ flow with escaped := true }, [], false⟩
    else if c = quote then ⟨flow, [], true⟩
    else ⟨flow, [c], false⟩
  else if flow.waitingForQuote then
    if c = quote then ⟨{ flow with inContent := true, waitingForQuote := false }, [], false⟩
    -- anything but a blank in front of the value gives the member up
    else if c ≠ blank ∧ c ≠ tab then ⟨{ flow with waitingForQuote := false }, [], false⟩
    else ⟨flow, [], false⟩
  else if c = contentKeyChar flow.contentKeyPos then
    if flow.contentKeyPos + 1 = 10 then
      ⟨{ flow with contentKeyPos := 0, waitingForQuote := true }, [], false⟩
    else ⟨{ flow with contentKeyPos := flow.contentKeyPos + 1 }, [], false⟩
  else ⟨{ flow with contentKeyPos := if c = quote then 1 else 0 }, [], false⟩

/-- What the body scan works on: the scanner, the classifier, and the query
grams the classifier shares. -/
structure BodyScan where
  content : ContentScan
  classifier : ClassifierState
  grams : QueryGrams

/-- `scan_content_callback` on one loaded byte, with the classifier run. -/
def bodyByte (m : ClassifierMaps) (b : BodyScan) (c : UInt8) : BodyScan × Bool :=
  let r := contentByte b.content c
  let (grams, classifier) := classifierScoreChars m b.grams b.classifier r.scored
  (⟨r.flow, classifier, grams⟩, r.stop)

/-- `scan_content_callback` -/
def scanContentCallback (m : ClassifierMaps) (skb : List UInt8) (start scanLen : Nat) (i : Nat)
    (b : BodyScan) : BodyScan × Bool :=
  if scanLen ≤ i then (b, true)
  else match skb[u32 (start + i)]? with
    | none => (b, true)
    | some c => bodyByte m b c

end Xsr.Kernel
