import Xsr.Parsing.HeaderRun
import Xsr.Signals.Classification

/-!
# ParserCall — what one run of the stream parser does

The parser opens a flow, resumes its header scan, and either leaves the
request pending or scans its body and records a route. `parser_pending`
and `parser_complete` are the two outcomes for a client socket; every
property of runs of the parser starts from them.
-/

namespace Xsr.Parsing

open Kernel Lib Signals

section Lifecycle
variable (w : World) (cookie : UInt64) (f : LifecycleState → LifecycleState)

@[simp] theorem updateLifecycle_flows : (w.updateLifecycle cookie f).flows = w.flows := by
  unfold World.updateLifecycle
  cases w.lifecycle cookie <;> rfl

@[simp] theorem updateLifecycle_decisions :
    (w.updateLifecycle cookie f).decisions = w.decisions := by
  unfold World.updateLifecycle
  cases w.lifecycle cookie <;> rfl

@[simp] theorem updateLifecycle_routes : (w.updateLifecycle cookie f).routes = w.routes := by
  unfold World.updateLifecycle
  cases w.lifecycle cookie <;> rfl

@[simp] theorem updateLifecycle_grams : (w.updateLifecycle cookie f).grams = w.grams := by
  unfold World.updateLifecycle
  cases w.lifecycle cookie <;> rfl

end Lifecycle

/-- The cookie is not marked as a backend's. -/
def IsClient (w : World) (cookie : UInt64) : Prop :=
  ((w.routes cookie).map RouteEntry.backend) ≠ some true

/-- The flow a call on `cookie` works on, with the map after opening it. -/
def openedFlow (m : ClassifierMaps) (w : World) (cookie : UInt64) : QueryGrams × HttpFlowState :=
  match w.flows cookie with
  | some flow => (w.grams, flow)
  | none => initialFlow m w.grams

/-- Opening a flow, after the lifecycle entry was touched. -/
theorem openFlow_eq (m : ClassifierMaps) (w : World) (cookie : UInt64)
    (f : LifecycleState → LifecycleState) :
    ((w.updateLifecycle cookie f).openFlow m cookie).2 = (openedFlow m w cookie).2 ∧
    ((w.updateLifecycle cookie f).openFlow m cookie).1.grams = (openedFlow m w cookie).1 ∧
    ((w.updateLifecycle cookie f).openFlow m cookie).1.decisions = w.decisions ∧
    ((w.updateLifecycle cookie f).openFlow m cookie).1.routes = w.routes ∧
    ∀ other, other ≠ cookie →
      ((w.updateLifecycle cookie f).openFlow m cookie).1.flows other = w.flows other := by
  unfold World.openFlow openedFlow
  rw [updateLifecycle_flows, updateLifecycle_grams]
  cases w.flows cookie with
  | some flow => simp
  | none => exact ⟨rfl, rfl, by simp, by simp, fun other h => BpfMap.update_ne _ _ h⟩

theorem Later.openedFlow (m : ClassifierMaps) (w : World) (cookie : UInt64) :
    Later w.grams (openedFlow m w cookie).1 := by
  unfold Parsing.openedFlow
  cases w.flows cookie with
  | some flow => exact .refl _
  | none => exact Later.classifierInit m w.grams .zero

/-- The flow of a call after its header scan. -/
def scannedFlow (pol : Policy) (w : World) (cookie : UInt64) (skb : List UInt8) : HttpFlowState :=
  let flow := (openedFlow pol.classifier w cookie).2
  { flow with header := scanHeaders skb flow.header }

/-- What a call leaves alone: the routes, and everything of other cookies. -/
structure OthersKept (w w' : World) (cookie : UInt64) : Prop where
  routes : w'.routes = w.routes
  flows : ∀ other, other ≠ cookie → w'.flows other = w.flows other
  decisions : ∀ other, other ≠ cookie → w'.decisions other = w.decisions other

section Call
variable (pol : Policy) {w : World} {cookie : UInt64} {skb : List UInt8}

/-- **A pending request**: `0`, and the flow is kept with its header state. -/
theorem parser_pending (hc : IsClient w cookie)
    (hp : requestPending (scannedFlow pol w cookie skb).header skb.length = true) :
    (skRouterParser pol w cookie skb).2 = 0 ∧
    (skRouterParser pol w cookie skb).1.flows cookie = some (scannedFlow pol w cookie skb) ∧
    (skRouterParser pol w cookie skb).1.grams = (openedFlow pol.classifier w cookie).1 ∧
    (skRouterParser pol w cookie skb).1.decisions = w.decisions ∧
    OthersKept w (skRouterParser pol w cookie skb).1 cookie := by
  obtain ⟨hflow, hgrams, hdec, hroutes, hflows⟩ := openFlow_eq pol.classifier w cookie
    fun l => { l with requestIncomplete := false }
  simp only [scannedFlow] at hp ⊢
  simp only [skRouterParser, if_neg hc, hflow, hp, if_true, updateLifecycle_flows,
    updateLifecycle_decisions, updateLifecycle_grams, BpfMap.update_self, hgrams, hdec, true_and]
  refine ⟨by simp [hroutes], fun other hother => ?_, by simp⟩
  simp [hother, hflows other hother]

/-- **A complete request**: its length, and the route of its signals. -/
theorem parser_complete (hc : IsClient w cookie)
    (hp : requestPending (scannedFlow pol w cookie skb).header skb.length = false) :
    (skRouterParser pol w cookie skb).2 = (scannedFlow pol w cookie skb).header.requestLen ∧
    (skRouterParser pol w cookie skb).1.decisions cookie =
      some (classifierRoute pol.classifier (scanBody pol.classifier skb
        (scannedFlow pol w cookie skb) (openedFlow pol.classifier w cookie).1).2.classifier) ∧
    (skRouterParser pol w cookie skb).1.grams =
      (scanBody pol.classifier skb (scannedFlow pol w cookie skb)
        (openedFlow pol.classifier w cookie).1).1 ∧
    (skRouterParser pol w cookie skb).1.flows cookie =
      some (scanBody pol.classifier skb (scannedFlow pol w cookie skb)
        (openedFlow pol.classifier w cookie).1).2 ∧
    OthersKept w (skRouterParser pol w cookie skb).1 cookie := by
  obtain ⟨hflow, hgrams, hdec, hroutes, hflows⟩ := openFlow_eq pol.classifier w cookie
    fun l => { l with requestIncomplete := false }
  simp only [scannedFlow] at hp ⊢
  simp only [skRouterParser, if_neg hc, hflow, hgrams, hp, Bool.false_eq_true, if_false,
    BpfMap.update_self, true_and]
  refine ⟨rfl, ⟨hroutes, fun other hother => ?_, fun other hother => ?_⟩⟩
  · simp [hother, hflows other hother]
  · simp [hother, hdec]

/-- Every call only draws tokens. -/
theorem Later.parser (w : World) (cookie : UInt64) (skb : List UInt8) :
    Later w.grams (skRouterParser pol w cookie skb).1.grams := by
  by_cases hc : IsClient w cookie
  · cases hp : requestPending (scannedFlow pol w cookie skb).header skb.length with
    | true =>
        rw [(parser_pending pol hc hp).2.2.1]
        exact Later.openedFlow pol.classifier w cookie
    | false =>
        rw [(parser_complete pol hc hp).2.2.1]
        exact (Later.openedFlow pol.classifier w cookie).trans (Later.scanBody _ _ _ _)
  · rw [skRouterParser, if_pos (not_not.mp hc)]
    exact .refl _

/-- No call changes the routes. -/
theorem parser_routes (w : World) (cookie : UInt64) (skb : List UInt8) :
    (skRouterParser pol w cookie skb).1.routes = w.routes := by
  by_cases hc : IsClient w cookie
  · cases hp : requestPending (scannedFlow pol w cookie skb).header skb.length with
    | true => exact (parser_pending pol hc hp).2.2.2.2.routes
    | false => exact (parser_complete pol hc hp).2.2.2.2.routes
  · rw [skRouterParser, if_pos (not_not.mp hc)]

/-- A call on a backend socket takes what is there and changes nothing. -/
theorem parser_backend {w : World} {cookie : UInt64} {entry : RouteEntry}
    (hroute : w.routes cookie = some entry) (hbackend : entry.backend = true)
    (skb : List UInt8) : skRouterParser pol w cookie skb = (w, skb.length) := by
  rw [skRouterParser, if_pos (by simp [hroute, hbackend])]

end Call

end Xsr.Parsing
