import Xsr.Signals.Tracking
import Xsr.Kernel.Router

/-!
# Classification — the route of a request is a function of its body

`requestRoute` is that function, with no shared map in it. The last result
connects it to the parser: when a primed flow is finished over a complete
request, the classifier's route is `requestRoute` of the body.
-/

namespace Xsr.Signals

open Kernel Lib

/-! ## The classifier without tokens -/

/-- What the three signals know of a prompt. -/
structure Prompt where
  distill : DistillState
  ngram : ByteMatch
  bm25 : Bm25State

/-- Before the first byte. -/
def Prompt.initial (m : ClassifierMaps) : Prompt where
  distill := if m.modules.distill then distillInit m.distill .zero else .zero
  ngram := .empty
  bm25 := if m.modules.bm25 then bm25Init else .zero

/-- One prompt byte. -/
def Prompt.byte (m : ClassifierMaps) (p : Prompt) (c : UInt8) : Prompt where
  distill := if m.modules.distill then distillScoreChar m.distill p.distill c else p.distill
  ngram := p.ngram.byte m.jaccard c
  bm25 := if m.modules.bm25 then bm25ScoreChar m.bm25 p.bm25 c else p.bm25

/-- The classifier state a finished prompt amounts to. -/
def Prompt.finished (m : ClassifierMaps) (p : Prompt) : ClassifierState where
  distill := p.distill
  jaccard := { JaccardState.zero with toJaccardMatches := (p.ngram.finish m.jaccard).found }
  bm25 := if m.modules.bm25 then bm25FinishWord m.bm25 p.bm25 else p.bm25

/-- The route of a prompt. -/
def promptRoute (m : ClassifierMaps) (prompt : List UInt8) : Route :=
  classifierRoute m ((prompt.foldl (Prompt.byte m) (.initial m)).finished m)

/-- A classifier state that has read the bytes `p` knows. -/
structure Reads (m : ClassifierMaps) (g : QueryGrams) (s : ClassifierState) (p : Prompt) :
    Prop where
  accounted : Accounted g
  distill : s.distill = p.distill
  ngram : m.modules.ngram = true → BytesTracked m.jaccard g s.jaccard p.ngram
  bm25 : s.bm25 = p.bm25

/-- The route looks at the match results only. -/
theorem classifierRoute_congr (m : ClassifierMaps) {s t : ClassifierState}
    (hdistill : s.distill = t.distill)
    (hngram : m.modules.ngram = true → s.jaccard.toJaccardMatches = t.jaccard.toJaccardMatches)
    (hbm25 : s.bm25 = t.bm25) : classifierRoute m s = classifierRoute m t := by
  unfold classifierRoute
  rw [hdistill, hbm25]
  cases hm : m.modules.ngram with
  | true => rw [hngram hm]
  | false => rfl

section Later
variable (m : ClassifierMaps) (g : QueryGrams) (s : ClassifierState)

theorem Later.classifierInit : Later g (classifierInit m g s).1 := by
  simp only [Kernel.classifierInit]
  split_ifs
  · exact Later.init m.jaccard g
  · exact .refl g

theorem Later.classifierScoreChar (c : UInt8) : Later g (classifierScoreChar m g s c).1 := by
  simp only [Kernel.classifierScoreChar]
  split_ifs
  · exact Later.scoreChar m.jaccard g s.jaccard c
  · exact .refl g

theorem Later.classifierScoreChars (cs : List UInt8) :
    Later g (classifierScoreChars m g s cs).1 := by
  induction cs generalizing g s with
  | nil => exact .refl g
  | cons c cs ih => exact (Later.classifierScoreChar m g s c).trans (ih _ _)

theorem Later.classifierFinish : Later g (classifierFinish m g s).1 := by
  simp only [Kernel.classifierFinish]
  split_ifs
  · exact Later.finish m.jaccard g s.jaccard
  · exact .refl g

end Later

section Steps
variable {m : ClassifierMaps} {g : QueryGrams} {s : ClassifierState} {p : Prompt}

/-- A fresh classifier has read nothing, and its tokens are new. -/
theorem Reads.init (ha : Accounted g) (old : JaccardState)
    (hd : TokensDistinct (classifierInit m g .zero).1) :
    Reads m (classifierInit m g .zero).1 (classifierInit m g .zero).2 (.initial m) ∧
    (m.modules.ngram = true →
      Moves g old (classifierInit m g .zero).1 (classifierInit m g .zero).2.jaccard) := by
  cases hn : m.modules.ngram with
  | false =>
      simp only [Kernel.classifierInit, hn] at hd ⊢
      exact ⟨⟨ha, rfl, by simp [hn], rfl⟩, by simp⟩
  | true =>
      simp only [Kernel.classifierInit, hn] at hd ⊢
      have htracks := Tracks.init (m := m.jaccard) ha hd
      refine ⟨⟨htracks.accounted, rfl, fun _ => ⟨htracks, ?_⟩, rfl⟩,
        fun _ => Moves.init m.jaccard old hd⟩
      cases hc : m.jaccard.config <;>
        simp [jaccardInit, hc, Prompt.initial, ByteMatch.empty, JaccardState.zero]

/-- **One prompt byte**, whichever modules are compiled in. -/
theorem Reads.byte (h : Reads m g s p) (c : UInt8)
    (hd : TokensDistinct (classifierScoreChar m g s c).1) :
    Reads m (classifierScoreChar m g s c).1 (classifierScoreChar m g s c).2 (p.byte m c) ∧
    Moves g s.jaccard (classifierScoreChar m g s c).1
      (classifierScoreChar m g s c).2.jaccard := by
  cases hn : m.modules.ngram with
  | false =>
      simp only [Kernel.classifierScoreChar, hn]
      refine ⟨⟨h.accounted, ?_, by simp [hn], ?_⟩, .refl g _⟩
      · simp only [Prompt.byte, h.distill]
      · simp only [Prompt.byte, h.bm25]
  | true =>
      simp only [Kernel.classifierScoreChar, hn] at hd ⊢
      obtain ⟨hbytes, hmoves⟩ := (h.ngram hn).byte c hd
      refine ⟨⟨hbytes.text.accounted, ?_, fun _ => hbytes, ?_⟩, hmoves⟩
      · simp only [Prompt.byte, h.distill]
      · simp only [Prompt.byte, h.bm25]

theorem Reads.bytes (h : Reads m g s p) (cs : List UInt8)
    (hd : TokensDistinct (classifierScoreChars m g s cs).1) :
    Reads m (classifierScoreChars m g s cs).1 (classifierScoreChars m g s cs).2
      (cs.foldl (Prompt.byte m) p) ∧
    Moves g s.jaccard (classifierScoreChars m g s cs).1
      (classifierScoreChars m g s cs).2.jaccard := by
  induction cs generalizing g s p with
  | nil => exact ⟨h, .refl g _⟩
  | cons c cs ih =>
      obtain ⟨h1, hm1⟩ := h.byte c (hd.earlier (Later.classifierScoreChars m _ _ cs))
      obtain ⟨h2, hm2⟩ := ih h1 hd
      exact ⟨h2, hm1.trans hm2⟩

/-- **The end of the prompt**: the route is that of the bytes read. -/
theorem Reads.finish (h : Reads m g s p) (hd : TokensDistinct (classifierFinish m g s).1) :
    classifierRoute m (classifierFinish m g s).2 = classifierRoute m (p.finished m) ∧
    Accounted (classifierFinish m g s).1 ∧
    Moves g s.jaccard (classifierFinish m g s).1 (classifierFinish m g s).2.jaccard := by
  cases hn : m.modules.ngram with
  | false =>
      simp only [Kernel.classifierFinish, hn]
      refine ⟨classifierRoute_congr m h.distill (by simp [hn]) ?_, h.accounted, .refl g _⟩
      simp only [Prompt.finished, h.bm25]
  | true =>
      simp only [Kernel.classifierFinish, hn] at hd ⊢
      obtain ⟨hfound, ha, hmoves⟩ := (h.ngram hn).finish hd
      refine ⟨classifierRoute_congr m h.distill (fun _ => hfound) ?_, ha, hmoves⟩
      simp only [Prompt.finished, h.bm25]

end Steps

/-! ## The body of a request -/

/-- The content scanner with the bytes it has handed on. -/
def contentStep (b : ContentScan × List UInt8) (c : UInt8) : (ContentScan × List UInt8) × Bool :=
  let r := contentByte b.1 c
  ((r.flow, b.2 ++ r.scored), r.stop)

/-- The prompt in a request body: everything handed to the classifier. -/
def scoredBytes (body : List UInt8) : List UInt8 := (scan contentStep (.initial, []) body).1.2

/-- The route of a request with the given body. -/
def requestRoute (m : ClassifierMaps) (body : List UInt8) : Route :=
  promptRoute m (scoredBytes body)

/-- A body scan that has handed on the bytes `b.2`. -/
structure BodyReads (m : ClassifierMaps) (s : BodyScan) (b : ContentScan × List UInt8) : Prop where
  content : s.content = b.1
  reads : Reads m s.grams s.classifier (b.2.foldl (Prompt.byte m) (.initial m))

theorem Later.bodyScan (m : ClassifierMaps) (s : BodyScan) (body : List UInt8) :
    Later s.grams (scan (bodyByte m) s body).1.grams :=
  scan_induction (P := fun t : BodyScan => Later s.grams t.grams) (.refl _)
    fun t ht _ _ => ht.trans (Later.classifierScoreChars m t.grams t.classifier _)

theorem BodyReads.byte {m : ClassifierMaps} {s : BodyScan} {b : ContentScan × List UInt8}
    (h : BodyReads m s b) (c : UInt8) (hd : TokensDistinct (bodyByte m s c).1.grams) :
    BodyReads m (bodyByte m s c).1 (contentStep b c).1 ∧
    (bodyByte m s c).2 = (contentStep b c).2 ∧
    Moves s.grams s.classifier.jaccard (bodyByte m s c).1.grams
      (bodyByte m s c).1.classifier.jaccard := by
  obtain ⟨hreads, hmoves⟩ := h.reads.bytes (contentByte s.content c).scored hd
  refine ⟨⟨?_, ?_⟩, ?_, hmoves⟩
  · simp only [bodyByte, contentStep, h.content]
  · simp only [contentStep, List.foldl_append, ← h.content]
    exact hreads
  · simp only [bodyByte, contentStep, h.content]

theorem BodyReads.scan {m : ClassifierMaps} {s : BodyScan} {b : ContentScan × List UInt8}
    (h : BodyReads m s b) (body : List UInt8)
    (hd : TokensDistinct (Lib.scan (bodyByte m) s body).1.grams) :
    BodyReads m (Lib.scan (bodyByte m) s body).1 (Lib.scan contentStep b body).1 ∧
    Moves s.grams s.classifier.jaccard (Lib.scan (bodyByte m) s body).1.grams
      (Lib.scan (bodyByte m) s body).1.classifier.jaccard := by
  induction body generalizing s b with
  | nil => exact ⟨h, .refl _ _⟩
  | cons c cs ih =>
      cases hstop : (bodyByte m s c).2 with
      | true =>
          rw [scan_cons_stop cs hstop] at hd ⊢
          obtain ⟨h1, hb, hm1⟩ := h.byte c hd
          rw [scan_cons_stop cs (hb ▸ hstop)]
          exact ⟨h1, hm1⟩
      | false =>
          rw [scan_cons_go cs hstop] at hd ⊢
          obtain ⟨h1, hb, hm1⟩ := h.byte c (hd.earlier (Later.bodyScan m _ cs))
          obtain ⟨h2, hm2⟩ := ih h1 hd
          rw [scan_cons_go cs (hb ▸ hstop)]
          exact ⟨h2, hm1.trans hm2⟩

/-! ## The parser's body scan -/

/-- The body of a request of `requestLen` bytes after `headerLen` bytes of
header. -/
def bodyOf (skb : List UInt8) (headerLen requestLen : Nat) : List UInt8 :=
  (skb.take requestLen).drop headerLen

/-- The body loop of one call is the scan of the body. -/
theorem bodyLoop_eq_scan (m : ClassifierMaps) (skb : List UInt8) {headerLen requestLen : Nat}
    (hle : headerLen ≤ requestLen) (hlen : requestLen ≤ skb.length)
    (hmax : requestLen ≤ maxRequest) (b : BodyScan) :
    boundedLoop (scanContentCallback m skb headerLen (subU32 requestLen headerLen))
        (subU32 requestLen headerLen) 0 b
      = (scan (bodyByte m) b (bodyOf skb headerLen requestLen)).1 := by
  have hmax' : requestLen < 4294967296 := Nat.lt_of_le_of_lt hmax (by decide)
  have hsub : subU32 requestLen headerLen = requestLen - headerLen := subU32_of_le hle hmax'
  have hbody : (bodyOf skb headerLen requestLen).length = requestLen - headerLen := by
    simp [bodyOf, Nat.min_eq_left hlen]
  rw [hsub, boundedLoop_eq_scan (bodyByte m) (bodyOf skb headerLen requestLen)
    (P := fun _ _ => True)]
  · rw [List.drop_zero, List.take_of_length_le (Nat.le_of_eq hbody)]
  · intro j t x _ hx
    obtain ⟨hj, -⟩ := List.getElem?_eq_some_iff.mp hx
    rw [hbody] at hj
    have hoff : u32 (headerLen + j) = headerLen + j := u32_of_lt (by omega)
    simp only [bodyOf, List.getElem?_drop, List.getElem?_take] at hx
    rw [if_pos (by omega)] at hx
    simp only [scanContentCallback, hoff, hx]
    rw [if_neg (by omega)]
  · intro j t hx
    have hj := List.getElem?_eq_none_iff.mp hx
    rw [hbody] at hj
    simp only [scanContentCallback]
    rw [if_pos hj]
  · exact fun _ _ _ _ _ _ => trivial
  · trivial

/-- A flow whose classifier and scanner are fresh. -/
structure Primed (m : ClassifierMaps) (g : QueryGrams) (flow : HttpFlowState) : Prop where
  content : flow.content = .initial
  reads : Reads m g flow.classifier (.initial m)

theorem Later.scanBody (m : ClassifierMaps) (skb : List UInt8) (flow : HttpFlowState)
    (g : QueryGrams) : Later g (scanBody m skb flow g).1 := by
  refine Later.trans ?_ (Later.classifierFinish m _ _)
  refine boundedLoop_induction (P := fun t : BodyScan => Later g t.grams) ?_ _ _ _ (.refl g)
  intro i t ht
  unfold scanContentCallback
  split_ifs
  · exact ht
  · split
    · exact ht
    · exact ht.trans (Later.classifierScoreChars m t.grams t.classifier _)

/-- **The parser's body scan** of a complete request on a primed flow
routes by the body alone. -/
theorem Primed.scanBody {m : ClassifierMaps} {g : QueryGrams} {flow : HttpFlowState}
    (h : Primed m g flow) (skb : List UInt8) (hle : flow.header.headerLen ≤ flow.header.requestLen)
    (hlen : flow.header.requestLen ≤ skb.length) (hmax : flow.header.requestLen ≤ maxRequest)
    (hd : TokensDistinct (scanBody m skb flow g).1) :
    classifierRoute m (scanBody m skb flow g).2.classifier
      = requestRoute m (bodyOf skb flow.header.headerLen flow.header.requestLen) ∧
    Accounted (scanBody m skb flow g).1 ∧
    Moves g flow.classifier.jaccard (scanBody m skb flow g).1
      (scanBody m skb flow g).2.classifier.jaccard := by
  simp only [Kernel.scanBody, bodyLoop_eq_scan m skb hle hlen hmax] at hd ⊢
  have hstart : BodyReads m ⟨flow.content, flow.classifier, g⟩ (.initial, []) :=
    ⟨h.content, h.reads⟩
  obtain ⟨hbody, hmoves⟩ := hstart.scan (bodyOf skb flow.header.headerLen flow.header.requestLen)
    (hd.earlier (Later.classifierFinish m _ _))
  obtain ⟨hroute, ha, hmoves'⟩ := hbody.reads.finish hd
  exact ⟨hroute, ha, hmoves.trans hmoves'⟩

end Xsr.Signals
