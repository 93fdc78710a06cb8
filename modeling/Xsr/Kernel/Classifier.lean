import Xsr.Kernel.Jaccard
import Xsr.Kernel.Bm25

/-!
# Classifier — the selected signals, run together

`xdp_classifier.bpf.h`. Which signals are compiled in is the build's
choice (`XDP_SIGNAL_ENABLE_*`), so it is a parameter here; the state of a
signal that is not compiled in is never touched.
-/

namespace Xsr.Kernel

/-- `XDP_SIGNAL_ENABLE_DISTILL`, `…_NGRAM` and `…_BM25`. -/
structure SignalModules where
  distill : Bool
  ngram : Bool
  bm25 : Bool

/-- Everything a classification reads and never writes: the modules
compiled in and the policy and model maps. -/
structure ClassifierMaps where
  modules : SignalModules
  distill : DistillMaps
  jaccard : JaccardMaps
  bm25 : Bm25Maps

/-- `struct xdp_classifier_state` -/
structure ClassifierState where
  distill : DistillState
  jaccard : JaccardState
  bm25 : Bm25State

/-- The state as `memset` leaves it. -/
def ClassifierState.zero : ClassifierState := ⟨.zero, .zero, .zero⟩

/-- `xdp_classifier_init`, on a state cleared by `memset`. -/
def classifierInit (m : ClassifierMaps) (g : QueryGrams) (s : ClassifierState) :
    QueryGrams × ClassifierState :=
  let (g, jaccard) := if m.modules.ngram then jaccardInit m.jaccard g else (g, s.jaccard)
  (g, { distill := if m.modules.distill then distillInit m.distill s.distill else s.distill
        jaccard := jaccard
        bm25 := if m.modules.bm25 then bm25Init else s.bm25 })

/-- `xdp_classifier_score_char` -/
def classifierScoreChar (m : ClassifierMaps) (g : QueryGrams) (s : ClassifierState)
    (c : UInt8) : QueryGrams × ClassifierState :=
  let (g, jaccard) :=
    if m.modules.ngram then jaccardScoreChar m.jaccard g s.jaccard c else (g, s.jaccard)
  (g, { distill := if m.modules.distill then distillScoreChar m.distill s.distill c
                   else s.distill
        jaccard := jaccard
        bm25 := if m.modules.bm25 then bm25ScoreChar m.bm25 s.bm25 c else s.bm25 })

/-- `xdp_classifier_score_char` on each of a run of bytes. -/
def classifierScoreChars (m : ClassifierMaps) :
    QueryGrams → ClassifierState → List UInt8 → QueryGrams × ClassifierState
  | g, s, [] => (g, s)
  | g, s, c :: cs =>
      let (g, s) := classifierScoreChar m g s c
      classifierScoreChars m g s cs

/-- `xdp_classifier_finish` -/
def classifierFinish (m : ClassifierMaps) (g : QueryGrams) (s : ClassifierState) :
    QueryGrams × ClassifierState :=
  let (g, jaccard) := if m.modules.ngram then jaccardFinish m.jaccard g s.jaccard
    else (g, s.jaccard)
  (g, { s with
    jaccard := jaccard
    bm25 := if m.modules.bm25 then bm25FinishWord m.bm25 s.bm25 else s.bm25 })

/-- `xdp_classifier_route` -/
def classifierRoute (m : ClassifierMaps) (s : ClassifierState) : Route :=
  let distill := if m.modules.distill then distillRoute m.distill s.distill else (false, .general)
  if distill.1 ∧ distill.2 ≠ .general then distill.2
  else
    let best := if m.modules.ngram then jaccardRoutePriority m.jaccard s.jaccard.toJaccardMatches
      else (0, .general)
    if m.modules.bm25 then
      let bm25 := bm25RoutePriority m.bm25 s.bm25
      if bm25.2 ≠ .general ∧ best.1 ≤ bm25.1 then bm25.2 else best.2
    else best.2

end Xsr.Kernel
