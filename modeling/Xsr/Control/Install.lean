import Xsr.Kernel.Router

/-!
# Install — what the control process puts into the maps

`populate_decision_rules` and the route entries of `add_connection_set`
(`sk_router.c`). The decision rules send each signal domain to the model of
the same name, so the verdict of a client entry is a slot for every route.
-/

namespace Xsr.Control

open Kernel

/-- The table of `populate_decision_rules`. -/
def decisionRuleTable : List DecisionRule :=
  [⟨1 <<< 0, 0, 0, 1, true⟩, ⟨1 <<< 2, 0, 0, 2, true⟩, ⟨1 <<< 1, 0, 0, 3, true⟩,
   ⟨1 <<< 3, 0, 0, 4, true⟩, ⟨1 <<< 4, 0, 0, 5, true⟩]

/-- The readback of one rule. -/
def decisionRuleChecks (rules : BpfMap Nat DecisionRule) (i : Nat) (rule : DecisionRule) : Bool :=
  match rules i with
  | some check =>
      check.enabled && check.modelId == rule.modelId && check.requireAny == rule.requireAny
  | none => false

/-- `populate_decision_rules`, on a map whose updates succeed: the rules are
written in order and read back. -/
def populateDecisionRules (rules : BpfMap Nat DecisionRule) : Option (BpfMap Nat DecisionRule) :=
  let rules := decisionRuleTable.zipIdx.foldl (fun rules r => rules.update r.2 r.1) rules
  if decisionRuleTable.zipIdx.all fun r => decisionRuleChecks rules r.2 r.1 then some rules
  else none

instance neZero_members : NeZero 6 := ⟨by decide⟩

/-- `client_entry` of `add_connection_set`. -/
def clientEntry (clientCookie : UInt64) (slots : Fin 6 → Nat) : RouteEntry where
  clientCookie := clientCookie
  clientSlot := slots 0
  codingSlot := slots 1
  mathSlot := slots 2
  othersSlot := slots 3
  qaSlot := slots 4
  writingSlot := slots 5
  backend := false

/-- `backend_entry` of `add_connection_set`. -/
def backendEntry (clientCookie : UInt64) (slots : Fin 6 → Nat) : RouteEntry :=
  { clientEntry clientCookie slots with backend := true }

/-- The slot of a route in an entry. -/
def routeSlot (entry : RouteEntry) : Route → Nat
  | .coding => entry.codingSlot
  | .general => entry.othersSlot
  | .math => entry.mathSlot
  | .qa => entry.qaSlot
  | .writing => entry.writingSlot

/-- **Installed rules leave no route without a slot**, whatever was in the
map before. -/
theorem modelSlot_installed {rules rules' : BpfMap Nat DecisionRule}
    (h : populateDecisionRules rules = some rules') (entry : RouteEntry) (route : Route) :
    entry.modelSlot (modelForRoute rules' route) = some (routeSlot entry route) := by
  simp only [populateDecisionRules] at h
  split_ifs at h
  obtain rfl := Option.some.inj h
  -- the five installed keys come first and one of them matches each domain bit
  cases route <;> rfl

end Xsr.Control
