import Xsr.Lib.Run
import Xsr.Parsing.ParserCall

/-!
# Segmentation — the parser does not see how the stream arrives

The parser is called on growing prefixes of a stream, with other work and
evictions between the calls. `Ready` is what holds between two calls: the
flow entry, if it is still there, has the header state of some prefix and a
classifier that has read nothing. From it every call's result follows.
-/

namespace Xsr.Parsing

open Kernel Lib Signals

/-- A complete request: the header block is the first `headerLen` bytes, it
ends at the first terminator, within the limit and not invalid, and the
`Content-Length` read from it accounts for the rest. -/
structure CompleteRequest (request : List UInt8) (headerLen : Nat) : Prop where
  ends : crlfcrlf <:+ request.take headerLen
  first : ∀ k, k < headerLen → ¬ crlfcrlf <:+ request.take k
  within : headerLen ≤ maxHeader
  covered : headerLen ≤ request.length
  valid : (headerRun (request.take headerLen)).invalid = false
  length : request.length = headerLen + (headerRun (request.take headerLen)).contentLength
  fits : request.length ≤ maxRequest

section Request
variable {request : List UInt8} {headerLen : Nat}

/-- The header run at the end of the block. -/
theorem CompleteRequest.stopped (h : CompleteRequest request headerLen) :
    (scan headerStep .initial (request.take headerLen)).2 = true ∧
    Terminated (request.take headerLen) (headerRun (request.take headerLen)) := by
  have hlen : (request.take headerLen).length ≤ maxHeader := by
    rw [List.length_take]; exact Nat.le_trans (Nat.min_le_left _ _) h.within
  rcases headerRun_spec _ hlen with ⟨-, hs⟩ | ⟨hstop, q, hq, ht⟩
  · exact absurd h.ends (hs.unended _ (List.prefix_refl _))
  · obtain rfl : q = request.take headerLen := by
      have hq' : q = request.take q.length := by
        rw [List.prefix_iff_eq_take.mp (hq.trans (List.take_prefix _ _))]
        simp
      have hle : q.length ≤ headerLen :=
        hq.length_le.trans (List.length_take_le _ _)
      rcases Nat.lt_or_ge q.length headerLen with hlt | hge
      · exact absurd (hq' ▸ ht.ends) (h.first _ hlt)
      · rw [hq', Nat.le_antisymm hle hge]
    exact ⟨hstop, ht⟩

/-- The scan at the end of the block, whatever follows it in the stream. -/
theorem CompleteRequest.header (h : CompleteRequest request headerLen) (rest : List UInt8)
    {k : Nat} (hk : headerLen ≤ k) :
    headerRun ((request ++ rest).take k) = headerRun (request.take headerLen) := by
  rw [← List.take_append_drop headerLen ((request ++ rest).take k), List.take_take,
    Nat.min_eq_left hk, List.take_append_of_le_length h.covered]
  exact headerRun_append_of_stop _ h.stopped.1

theorem CompleteRequest.headerLen_eq (h : CompleteRequest request headerLen) :
    (headerRun (request.take headerLen)).headerLen = headerLen := by
  rw [h.stopped.2.headerLen, List.length_take, Nat.min_eq_left h.covered]

theorem CompleteRequest.requestLen_eq (h : CompleteRequest request headerLen) :
    (headerRun (request.take headerLen)).requestLen = request.length := by
  rw [h.stopped.2.requestLen, List.length_take, Nat.min_eq_left h.covered, ← h.length]
  exact u32_of_lt (Nat.lt_of_le_of_lt h.fits (by decide))

theorem CompleteRequest.pos (h : CompleteRequest request headerLen) : 0 < headerLen := by
  have hpos := h.stopped.2.pos
  rw [List.length_take] at hpos
  omega

/-- Before the end of the block no terminator has been seen. -/
theorem CompleteRequest.scanning (h : CompleteRequest request headerLen) (rest : List UInt8)
    {k : Nat} (hk : k < headerLen) :
    (headerRun ((request ++ rest).take k)).headerLen = 0 := by
  have hreq : (request ++ rest).take k = request.take k :=
    List.take_append_of_le_length (Nat.le_of_lt (Nat.lt_of_lt_of_le hk h.covered))
  have hlen : (request.take k).length ≤ maxHeader := by
    have := h.within
    rw [List.length_take]; omega
  rw [hreq]
  rcases headerRun_spec _ hlen with ⟨-, hs⟩ | ⟨-, q, hq, ht⟩
  · exact hs.headerLen
  · have hq' : q = request.take q.length := by
      rw [List.prefix_iff_eq_take.mp (hq.trans (List.take_prefix _ _))]
      simp
    have hle : q.length ≤ k := hq.length_le.trans (List.length_take_le _ _)
    exact absurd (hq' ▸ ht.ends) (h.first _ (Nat.lt_of_le_of_lt hle hk))

/-- **When a call finds the request pending**: exactly when the bytes seen
by it, or by an earlier call for the header, do not cover it. -/
theorem CompleteRequest.pending_iff (h : CompleteRequest request headerLen) (rest : List UInt8)
    {k m : Nat} (hk : k ≤ maxHeader) :
    requestPending (scanHeaders ((request ++ rest).take m) (headerRun ((request ++ rest).take k)))
      ((request ++ rest).take m).length = true ↔ m < request.length := by
  rw [scanHeaders_headerRun _ hk]
  have hlen : ((request ++ rest).take m).length = min m (request.length + rest.length) := by simp
  have hcov := h.covered
  have hwithin := h.within
  have hpos := h.pos
  rcases Nat.lt_or_ge (max k (min m maxHeader)) headerLen with hlt | hge
  · simp only [requestPending, h.scanning rest hlt]
    have : m < request.length := by omega
    simpa using this
  · have hfits := h.fits
    rw [h.header rest hge]
    simp only [requestPending, h.headerLen_eq, h.valid, h.requestLen_eq, hlen,
      Bool.or_false, Bool.or_eq_true, decide_eq_true_eq]
    omega

/-- Two complete requests at the front of the same bytes are as long. -/
theorem CompleteRequest.length_unique {other x y : List UInt8} {otherLen : Nat}
    (h : CompleteRequest request headerLen) (h' : CompleteRequest other otherLen)
    (heq : request ++ x = other ++ y) : request.length = other.length := by
  have hheader := h.header x (Nat.le_max_left headerLen otherLen)
  have hheader' := h'.header y (Nat.le_max_right headerLen otherLen)
  rw [heq, hheader'] at hheader
  rw [← h.requestLen_eq, ← h'.requestLen_eq, hheader]

end Request

/-! ## Between two calls -/

/-- What holds between two calls on prefixes of `stream`. -/
structure Ready (pol : Policy) (stream : List UInt8) (cookie : UInt64) (w : World) : Prop where
  accounted : Accounted w.grams
  flow : ∀ flow, w.flows cookie = some flow →
    (∃ k, k ≤ maxHeader ∧ flow.header = headerRun (stream.take k)) ∧
    Primed pol.classifier w.grams flow

/-- A world in which the cookie has no flow. -/
structure Fresh (cookie : UInt64) (w : World) : Prop where
  accounted : Accounted w.grams
  noFlow : w.flows cookie = none

theorem Fresh.ready {cookie : UInt64} {w : World} (h : Fresh cookie w) (pol : Policy)
    (stream : List UInt8) : Ready pol stream cookie w :=
  ⟨h.accounted, fun flow hflow => by rw [h.noFlow] at hflow; cases hflow⟩

/-- What may happen between two calls for `cookie`: its flow entry stays or
is evicted, tokens are drawn and other queries' grams change, and while the
flow is there its own grams stay. Everything else is arbitrary. -/
structure Interlude (pol : Policy) (cookie : UInt64) (w w' : World) : Prop where
  client : IsClient w' cookie
  flow : w'.flows cookie = w.flows cookie ∨ w'.flows cookie = none
  later : Later w.grams w'.grams
  accounted : Accounted w'.grams
  grams : ∀ flow, w'.flows cookie = some flow → pol.classifier.modules.ngram = true →
    ∀ key, Owns flow.classifier.jaccard key.token → w'.grams.counts key = w.grams.counts key

theorem Reads.frame {m : ClassifierMaps} {g g' : QueryGrams} {s : ClassifierState} {p : Prompt}
    (h : Reads m g s p) (ha : Accounted g') (hl : Later g g')
    (hframe : m.modules.ngram = true →
      ∀ key, Owns s.jaccard key.token → g'.counts key = g.counts key) :
    Reads m g' s p :=
  ⟨ha, h.distill, fun hn => ⟨(h.ngram hn).text.frame ha hl (hframe hn), (h.ngram hn).utf8⟩,
    h.bm25⟩

theorem Ready.interlude {pol : Policy} {stream : List UInt8} {cookie : UInt64} {w w' : World}
    (h : Ready pol stream cookie w) (hi : Interlude pol cookie w w') :
    Ready pol stream cookie w' := by
  refine ⟨hi.accounted, fun flow hflow => ?_⟩
  rcases hi.flow with heq | hnone
  · obtain ⟨hk, hprimed⟩ := h.flow flow (heq ▸ hflow)
    exact ⟨hk, hprimed.content, Reads.frame hprimed.reads hi.accounted hi.later
      (hi.grams flow hflow)⟩
  · rw [hnone] at hflow; cases hflow

/-- The flow a call opens has the header state of some prefix. -/
theorem opened_header {m : ClassifierMaps} {stream : List UInt8} {cookie : UInt64} {w : World}
    (h : ∀ flow, w.flows cookie = some flow →
      ∃ k, k ≤ maxHeader ∧ flow.header = headerRun (stream.take k)) :
    ∃ k, k ≤ maxHeader ∧ (openedFlow m w cookie).2.header = headerRun (stream.take k) := by
  unfold openedFlow
  cases hflow : w.flows cookie with
  | some flow => exact h flow hflow
  | none => exact ⟨0, Nat.zero_le _, rfl⟩

theorem Ready.opened_header {pol : Policy} {stream : List UInt8} {cookie : UInt64} {w : World}
    (h : Ready pol stream cookie w) :
    ∃ k, k ≤ maxHeader ∧
      (openedFlow pol.classifier w cookie).2.header = headerRun (stream.take k) :=
  Parsing.opened_header fun flow hflow => (h.flow flow hflow).1

/-- The flow a call opens has read nothing. -/
theorem Ready.opened_primed {pol : Policy} {stream : List UInt8} {cookie : UInt64} {w : World}
    (h : Ready pol stream cookie w)
    (hd : TokensDistinct (openedFlow pol.classifier w cookie).1) :
    Primed pol.classifier (openedFlow pol.classifier w cookie).1
      (openedFlow pol.classifier w cookie).2 := by
  unfold openedFlow at hd ⊢
  cases hflow : w.flows cookie with
  | some flow => exact (h.flow flow hflow).2
  | none =>
      simp only [hflow] at hd
      exact ⟨rfl, (Reads.init h.accounted .zero hd).1⟩

section Call
variable {pol : Policy} {request rest : List UInt8} {headerLen : Nat} {cookie : UInt64}
  {w : World} {m : Nat}

/-- The header state of a call before the request is there, and once it is. -/
theorem CompleteRequest.scanned (hreq : CompleteRequest request headerLen) {k : Nat}
    (hk : k ≤ maxHeader) (hheader : (openedFlow pol.classifier w cookie).2.header =
      headerRun ((request ++ rest).take k)) (m : Nat) :
    (m < request.length →
      requestPending (scannedFlow pol w cookie ((request ++ rest).take m)).header
        ((request ++ rest).take m).length = true) ∧
    (request.length ≤ m →
      requestPending (scannedFlow pol w cookie ((request ++ rest).take m)).header
        ((request ++ rest).take m).length = false ∧
      (scannedFlow pol w cookie ((request ++ rest).take m)).header
        = headerRun (request.take headerLen)) := by
  have hiff := hreq.pending_iff rest (m := m) hk
  rw [← hheader] at hiff
  refine ⟨hiff.mpr, fun hm => ⟨?_, ?_⟩⟩
  · exact Bool.eq_false_iff.mpr fun hp => absurd (hiff.mp hp) (Nat.not_lt.mpr hm)
  · have hcov := hreq.covered
    have hwithin := hreq.within
    rw [scannedFlow, hheader]
    exact (scanHeaders_headerRun _ hk m).trans (hreq.header rest (by omega))

theorem Ready.scanned (h : Ready pol (request ++ rest) cookie w)
    (hreq : CompleteRequest request headerLen) (m : Nat) :
    (m < request.length →
      requestPending (scannedFlow pol w cookie ((request ++ rest).take m)).header
        ((request ++ rest).take m).length = true) ∧
    (request.length ≤ m →
      requestPending (scannedFlow pol w cookie ((request ++ rest).take m)).header
        ((request ++ rest).take m).length = false ∧
      (scannedFlow pol w cookie ((request ++ rest).take m)).header
        = headerRun (request.take headerLen)) := by
  obtain ⟨k, hk, hheader⟩ := h.opened_header
  exact hreq.scanned hk hheader m

/-- A call before the request is there. -/
theorem Ready.call_short (h : Ready pol (request ++ rest) cookie w)
    (hreq : CompleteRequest request headerLen) (hc : IsClient w cookie) (hm : m < request.length)
    (hd : TokensDistinct (skRouterParser pol w cookie ((request ++ rest).take m)).1.grams) :
    (skRouterParser pol w cookie ((request ++ rest).take m)).2 = 0 ∧
    Ready pol (request ++ rest) cookie
      (skRouterParser pol w cookie ((request ++ rest).take m)).1 := by
  obtain ⟨hzero, hflow, hgrams, -, -⟩ := parser_pending pol hc ((h.scanned hreq m).1 hm)
  rw [hgrams] at hd
  have hprimed := h.opened_primed hd
  refine ⟨hzero, by rw [hgrams]; exact hprimed.reads.accounted, fun flow hflow' => ?_⟩
  rw [hflow] at hflow'
  cases hflow'
  obtain ⟨k, hk, hheader⟩ := h.opened_header
  refine ⟨⟨max k (min m maxHeader), by omega, ?_⟩, hprimed.content, ?_⟩
  · rw [scannedFlow, hheader]
    exact scanHeaders_headerRun _ hk m
  · rw [hgrams]; exact hprimed.reads

/-- A call once the request is there: its result, its route, and what its
body scan does to the map. -/
theorem Ready.call_complete (h : Ready pol (request ++ rest) cookie w)
    (hreq : CompleteRequest request headerLen) (hc : IsClient w cookie) (hm : request.length ≤ m)
    (hd : TokensDistinct (skRouterParser pol w cookie ((request ++ rest).take m)).1.grams) :
    (skRouterParser pol w cookie ((request ++ rest).take m)).2 = request.length ∧
    (skRouterParser pol w cookie ((request ++ rest).take m)).1.decisions cookie =
      some (requestRoute pol.classifier (request.drop headerLen)) ∧
    Accounted (skRouterParser pol w cookie ((request ++ rest).take m)).1.grams ∧
    ∃ flow,
      (skRouterParser pol w cookie ((request ++ rest).take m)).1.flows cookie = some flow ∧
      Moves (openedFlow pol.classifier w cookie).1
        (openedFlow pol.classifier w cookie).2.classifier.jaccard
        (skRouterParser pol w cookie ((request ++ rest).take m)).1.grams flow.classifier.jaccard := by
  obtain ⟨hpending, hfull⟩ := (h.scanned hreq m).2 hm
  obtain ⟨hret, hroute, hgrams, hflow, -⟩ := parser_complete pol hc hpending
  have hbody : bodyOf ((request ++ rest).take m) headerLen request.length
      = request.drop headerLen := by
    rw [bodyOf, List.take_take, Nat.min_eq_left hm, List.take_append_of_le_length (Nat.le_refl _),
      List.take_length]
  have hle : (scannedFlow pol w cookie ((request ++ rest).take m)).header.headerLen
      ≤ (scannedFlow pol w cookie ((request ++ rest).take m)).header.requestLen := by
    rw [hfull, hreq.headerLen_eq, hreq.requestLen_eq]; exact hreq.covered
  have hlen : (scannedFlow pol w cookie ((request ++ rest).take m)).header.requestLen
      ≤ ((request ++ rest).take m).length := by
    rw [hfull, hreq.requestLen_eq]
    simp only [List.length_take, List.length_append]; omega
  have hmax : (scannedFlow pol w cookie ((request ++ rest).take m)).header.requestLen
      ≤ maxRequest := by
    rw [hfull, hreq.requestLen_eq]; exact hreq.fits
  rw [hgrams] at hd ⊢
  have hprimed := h.opened_primed (hd.earlier (Later.scanBody pol.classifier _ _ _))
  have hscanned : Primed pol.classifier (openedFlow pol.classifier w cookie).1
      (scannedFlow pol w cookie ((request ++ rest).take m)) :=
    ⟨hprimed.content, hprimed.reads⟩
  obtain ⟨hbodyroute, ha, hmoves⟩ := hscanned.scanBody _ hle hlen hmax hd
  rw [hret, hroute, hbodyroute, hfull, hreq.headerLen_eq, hreq.requestLen_eq, hbody]
  exact ⟨rfl, rfl, ha, _, hflow, hmoves⟩

end Call

/-! ## Runs -/

/-- A call for one cookie on a prefix of one stream, after an interlude: the
label is the prefix length with the result. -/
def CallStep (pol : Policy) (stream : List UInt8) (cookie : UInt64) (w : World)
    (call : Nat × Nat) (w' : World) : Prop :=
  ∃ v, Interlude pol cookie w v ∧
    skRouterParser pol v cookie (stream.take call.1) = (w', call.2)

theorem CallStep.later {pol : Policy} {stream : List UInt8} {cookie : UInt64} {w w' : World}
    {call : Nat × Nat} (h : CallStep pol stream cookie w call w') : Later w.grams w'.grams := by
  obtain ⟨v, gap, hcall⟩ := h
  have hparser := Later.parser pol v cookie (stream.take call.1)
  rw [hcall] at hparser
  exact gap.later.trans hparser

/-- A run whose prefixes are all too short returns only zeros and stays ready. -/
theorem Ready.calls {pol : Policy} {request rest : List UInt8} {headerLen : Nat}
    {cookie : UInt64} {w w' : World} {calls : List (Nat × Nat)}
    (h : Ready pol (request ++ rest) cookie w) (hreq : CompleteRequest request headerLen)
    (run : Run (CallStep pol (request ++ rest) cookie) w calls w')
    (hshort : ∀ call ∈ calls, call.1 < request.length) (hd : TokensDistinct w'.grams) :
    (∀ call ∈ calls, call.2 = 0) ∧ Ready pol (request ++ rest) cookie w' := by
  induction run with
  | nil => exact ⟨by simp, h⟩
  | @snoc calls w₁ w₂ call run last ih =>
      obtain ⟨hzeros, hready⟩ := ih (fun call hcall => hshort call (by simp [hcall]))
        (hd.earlier last.later)
      obtain ⟨v, gap, hcall⟩ := last
      have hcallShort := (hready.interlude gap).call_short hreq gap.client
        (hshort call (by simp))
      rw [hcall] at hcallShort
      obtain ⟨hzero, hready'⟩ := hcallShort hd
      refine ⟨fun c hc => ?_, hready'⟩
      rcases List.mem_append.mp hc with hc | hc
      · exact hzeros c hc
      · rw [List.mem_singleton.mp hc]; exact hzero

/-- **Segmentation independence.** Whatever the schedule of prefix lengths
and whatever is evicted in between, calls on prefixes shorter than the
request return `0`; the first call on a longer one returns the request's
length and stores the route that one call on the request alone stores. The
bytes `rest` after the request change neither. -/
theorem parser_segmentation_independent (pol : Policy) {request : List UInt8} {headerLen : Nat}
    (hreq : CompleteRequest request headerLen) (rest : List UInt8) {cookie : UInt64}
    {w w₁ w₂ : World} {calls : List (Nat × Nat)} {m : Nat} (hfresh : Fresh cookie w)
    (run : Run (CallStep pol (request ++ rest) cookie) w calls w₁)
    (hshort : ∀ call ∈ calls, call.1 < request.length)
    (gap : Interlude pol cookie w₁ w₂) (hm : request.length ≤ m)
    (htokens : TokensDistinct (skRouterParser pol w₂ cookie ((request ++ rest).take m)).1.grams)
    (alone : World) (halone : Fresh cookie alone) (hclient : IsClient alone cookie)
    (htokens' : TokensDistinct (skRouterParser pol alone cookie request).1.grams) :
    (∀ call ∈ calls, call.2 = 0) ∧
    (skRouterParser pol w₂ cookie ((request ++ rest).take m)).2 = request.length ∧
    ∃ route, (skRouterParser pol w₂ cookie ((request ++ rest).take m)).1.decisions cookie
        = some route ∧
      (skRouterParser pol alone cookie request).1.decisions cookie = some route := by
  have hlater := gap.later.trans (Later.parser pol w₂ cookie ((request ++ rest).take m))
  obtain ⟨hzeros, hready⟩ := (hfresh.ready pol _).calls hreq run hshort (htokens.earlier hlater)
  obtain ⟨hlen, hroute, -⟩ :=
    (hready.interlude gap).call_complete hreq gap.client hm htokens
  have hskb : (request ++ []).take request.length = request := by simp
  rw [← hskb] at htokens'
  obtain ⟨-, hroute', -⟩ := (halone.ready pol (request ++ [])).call_complete hreq hclient
    (Nat.le_refl _) htokens'
  rw [hskb] at hroute'
  exact ⟨hzeros, hlen, _, hroute, hroute'⟩

/-! ## A run -/

instance (g : QueryGrams) : Decidable (TokensDistinct g) :=
  decidable_of_iff (∀ j, j < g.drawn → ∀ i, i < j →
      queryToken g.prandom i ≠ queryToken g.prandom j)
    ⟨fun h i j hij hj => h j hj i hij, fun h j hj i hij => h i j hij hj⟩

instance (w : World) (cookie : UInt64) : Decidable (IsClient w cookie) :=
  inferInstanceAs (Decidable (_ ≠ _))

/-- The n-gram signal alone, with no policy loaded. -/
def ngramOnly : Policy where
  classifier :=
    { modules := ⟨false, true, false⟩
      distill := ⟨none, fun _ => none⟩
      jaccard := ⟨none, fun _ => none, fun _ => none, fun _ => none, fun _ => none, fun _ => 0⟩
      bm25 := ⟨none, fun _ => none, fun _ => none⟩ }
  decisionRules := fun _ => none

/-- A world without connections, whose random source counts. -/
def idleWorld : World where
  flows := fun _ => none
  decisions := fun _ => none
  routes := fun _ => none
  lifecycle := fun _ => none
  grams := ⟨fun _ => none, fun i => (0, UInt32.ofNat i), 0⟩

/-- `P\r\nContent-Length: 13\r\n\r\n"content":"a"` -/
def askRequest : List UInt8 :=
  [80, 13, 10, 67, 111, 110, 116, 101, 110, 116, 45, 76, 101, 110, 103, 116, 104, 58, 32, 49, 51,
   13, 10, 13, 10, 34, 99, 111, 110, 116, 101, 110, 116, 34, 58, 34, 97, 34]

/-- The request cut inside its header, the flow evicted, then the request
with more bytes after it. -/
theorem parser_segmentation_independent_ask :
    (skRouterParser ngramOnly idleWorld 7 ((askRequest ++ [80]).take 9)).2 = 0 ∧
    ∃ route,
      (skRouterParser ngramOnly
          { (skRouterParser ngramOnly idleWorld 7 ((askRequest ++ [80]).take 9)).1 with
            flows := fun _ => none } 7 ((askRequest ++ [80]).take 39)).1.decisions 7 = some route ∧
      (skRouterParser ngramOnly idleWorld 7 askRequest).1.decisions 7 = some route := by
  have hfresh : Fresh 7 idleWorld := ⟨.of_empty fun _ => rfl, rfl⟩
  have hreq : CompleteRequest askRequest 25 := by constructor <;> decide
  have gap : Interlude ngramOnly 7 idleWorld idleWorld :=
    ⟨by decide, .inl rfl, .refl _, hfresh.accounted, fun _ h => by cases h⟩
  have gap' : Interlude ngramOnly 7 (skRouterParser ngramOnly idleWorld 7 ((askRequest ++ [80]).take 9)).1
      { (skRouterParser ngramOnly idleWorld 7 ((askRequest ++ [80]).take 9)).1 with
        flows := fun _ => none } :=
    ⟨by decide, .inr rfl, .refl _, .of_empty fun _ => rfl, fun _ h => by cases h⟩
  obtain ⟨hzero, -, hroute⟩ := parser_segmentation_independent ngramOnly hreq [80] hfresh
    (.single (e := (9, _)) ⟨idleWorld, gap, rfl⟩) (by decide) gap' (m := 39) (by decide)
    (by decide) idleWorld hfresh (by decide) (by decide)
  exact ⟨hzero _ (List.mem_singleton_self _), hroute⟩

end Xsr.Parsing
