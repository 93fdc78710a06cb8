import Xsr.Parsing.Segmentation
import Xsr.Control.Install

/-!
# Isolation — a request is routed by its own bytes

Many connections share the flow, decision and gram maps. A `Node` is the
kernel's maps with the unread bytes of every client socket; its steps are
the parser and verdict runs of any socket in any order, and evictions of
entries no request needs any more. In every run each verdict's slot is
`requestSlot` of the request's bytes and the client's own entry.
-/

namespace Xsr.System

open Kernel Lib Signals Parsing Control

/-- The unread bytes of a client socket, and the length the parser answered
when a message waits for its verdict. -/
structure Connection where
  unread : List UInt8
  framed : Option Nat

/-- The maps and the client sockets. -/
structure Node where
  world : World
  conns : UInt64 → Option Connection

/-- What a verdict on a client socket did: the message and the slot. -/
structure Redirect where
  cookie : UInt64
  request : List UInt8
  target : Option Nat

/-- Evictions and changes of entries no request needs: a flow may go before
its request is parsed or after, a decision only when no verdict waits for
it, and grams only when no open flow counts them. -/
structure Evicts (pol : Policy) (node : Node) (w' : World) : Prop where
  routes : w'.routes = node.world.routes
  later : Later node.world.grams w'.grams
  accounted : Accounted w'.grams
  flows : ∀ cookie, w'.flows cookie = node.world.flows cookie ∨ w'.flows cookie = none
  decisions : ∀ cookie unread n, node.conns cookie = some ⟨unread, some n⟩ →
    w'.decisions cookie = node.world.decisions cookie
  grams : ∀ cookie flow, w'.flows cookie = some flow → pol.classifier.modules.ngram = true →
    ∀ key, Owns flow.classifier.jaccard key.token →
      w'.grams.counts key = node.world.grams.counts key

/-- The node after the parser ran on the first `m` unread bytes. -/
def Node.parse (pol : Policy) (node : Node) (cookie : UInt64) (unread : List UInt8) (m : Nat) :
    Node :=
  let r := skRouterParser pol node.world cookie (unread.take m)
  ⟨r.1, Function.update node.conns cookie
    (some ⟨unread, if r.2 = 0 then none else some r.2⟩)⟩

/-- The node after the verdict on a message of `n` bytes. -/
def Node.verdict (pol : Policy) (node : Node) (cookie : UInt64) (unread : List UInt8) (n : Nat)
    (redirect : Nat → Bool) : Node :=
  ⟨(skRouterVerdict pol node.world redirect cookie n).1,
    Function.update node.conns cookie (some ⟨unread.drop n, none⟩)⟩

/-- One step of the system; a verdict on a client socket is its label. -/
inductive Step (pol : Policy) : Node → Option Redirect → Node → Prop where
  | parse {node : Node} {cookie : UInt64} {unread : List UInt8} (m : Nat)
      (waiting : node.conns cookie = some ⟨unread, none⟩) (data : unread ≠ []) :
      Step pol node none (node.parse pol cookie unread m)
  | verdict {node : Node} {cookie : UInt64} {unread : List UInt8} {n : Nat}
      (framed : node.conns cookie = some ⟨unread, some n⟩) (redirect : Nat → Bool) :
      Step pol node
        (some ⟨cookie, unread.take n,
          (skRouterVerdict pol node.world redirect cookie n).2.target⟩)
        (node.verdict pol cookie unread n redirect)
  | backendParse {node : Node} {cookie : UInt64} {entry : RouteEntry}
      (route : node.world.routes cookie = some entry) (backend : entry.backend = true)
      (skb : List UInt8) :
      Step pol node none ⟨(skRouterParser pol node.world cookie skb).1, node.conns⟩
  | backendVerdict {node : Node} {cookie : UInt64} {entry : RouteEntry}
      (route : node.world.routes cookie = some entry) (backend : entry.backend = true)
      (redirect : Nat → Bool) (skbLen : Nat) :
      Step pol node none ⟨(skRouterVerdict pol node.world redirect cookie skbLen).1, node.conns⟩
  | evict {node : Node} {w' : World} (evicts : Evicts pol node w') :
      Step pol node none ⟨w', node.conns⟩

/-- A complete request, with its header length read off. -/
def IsRequest (request : List UInt8) : Prop :=
  ∃ headerLen, CompleteRequest request headerLen

/-- The slot of a request: its body's route in the client's entry. -/
def requestSlot (pol : Policy) (entry : RouteEntry) (request : List UInt8) : Nat :=
  routeSlot entry (requestRoute pol.classifier (request.drop (headerRun request).headerLen))

theorem requestSlot_eq {request : List UInt8} {headerLen : Nat}
    (h : CompleteRequest request headerLen) (pol : Policy) (entry : RouteEntry) :
    requestSlot pol entry request
      = routeSlot entry (requestRoute pol.classifier (request.drop headerLen)) := by
  have hrun := h.header [] (Nat.le_of_eq rfl |>.trans h.covered)
  simp only [List.append_nil, List.take_length] at hrun
  rw [requestSlot, hrun, h.headerLen_eq]

/-! ## The invariant -/

/-- The tokens of the flow of a cookie. -/
def Holds (w : World) (cookie : UInt64) (token : UInt64) : Prop :=
  ∃ flow, w.flows cookie = some flow ∧ Owns flow.classifier.jaccard token

/-- The cookie's connection has a request the parser still waits for. -/
def Waiting (node : Node) (cookie : UInt64) : Prop :=
  ∃ unread, node.conns cookie = some ⟨unread, none⟩

/-- What holds in every state: `todo` lists the requests each connection has
left. -/
structure Invariant (pol : Policy) (todo : UInt64 → List (List UInt8)) (node : Node) : Prop where
  accounted : Accounted node.world.grams
  entry : ∀ cookie conn, node.conns cookie = some conn →
    ∃ slots, node.world.routes cookie = some (clientEntry cookie slots)
  unread : ∀ cookie conn, node.conns cookie = some conn → conn.unread = (todo cookie).flatten
  requests : ∀ cookie, ∀ request ∈ todo cookie, IsRequest request
  waiting : ∀ cookie unread, node.conns cookie = some ⟨unread, none⟩ →
    Ready pol unread cookie node.world
  framed : ∀ cookie unread n, node.conns cookie = some ⟨unread, some n⟩ →
    ∃ request rest headerLen, todo cookie = request :: rest ∧
      CompleteRequest request headerLen ∧ n = request.length ∧
      node.world.decisions cookie
        = some (requestRoute pol.classifier (request.drop headerLen))
  apart : pol.classifier.modules.ngram = true → ∀ cookie other, cookie ≠ other →
    Waiting node cookie → Waiting node other →
    ∀ token, Holds node.world cookie token → ¬ Holds node.world other token

/-! ## What a parser run does to the shared maps -/

/-- The effect of a parser run on a client's request, as its neighbours see
it: only the cookie's own entries change, counts under tokens of others
stay, and tokens it gained are new. -/
structure ParseEffect (pol : Policy) (w w' : World) (cookie : UInt64) : Prop where
  kept : OthersKept w w' cookie
  later : Later w.grams w'.grams
  accounted : Accounted w'.grams
  frame : pol.classifier.modules.ngram = true → ∀ key, Issued w.grams key.token →
    ¬ Holds w cookie key.token → w'.grams.counts key = w.grams.counts key
  fresh : pol.classifier.modules.ngram = true → ∀ token, Holds w' cookie token →
    Issued w.grams token → Holds w cookie token

/-- Some matcher state does not own a given token. -/
theorem exists_not_owns (token : UInt64) : ∃ s : JaccardState, ¬ Owns s token := by
  refine ⟨{ JaccardState.zero with
    word := { JaccardQuery.zero with token := if token = 0 then 1 else 0 }
    full := { JaccardQuery.zero with token := if token = 0 then 1 else 0 } }, ?_⟩
  unfold Owns
  by_cases h : token = 0
  · subst h; decide
  · simp [h]

/-- Opening a flow brings new tokens only, and changes no count. -/
theorem opened_effect {pol : Policy} {w : World} {cookie : UInt64} (ha : Accounted w.grams)
    (hn : pol.classifier.modules.ngram = true)
    (hd : TokensDistinct (openedFlow pol.classifier w cookie).1) :
    (∀ token, Owns (openedFlow pol.classifier w cookie).2.classifier.jaccard token →
      Issued w.grams token → Holds w cookie token) ∧
    (∀ key, Issued w.grams key.token →
      (openedFlow pol.classifier w cookie).1.counts key = w.grams.counts key) := by
  unfold openedFlow at hd ⊢
  cases hflow : w.flows cookie with
  | some flow => exact ⟨fun token ho _ => ⟨flow, hflow, ho⟩, fun _ _ => rfl⟩
  | none =>
      simp only [hflow] at hd
      refine ⟨fun token ho hissued => ?_, fun key hissued => ?_⟩
      · obtain ⟨old, hold⟩ := exists_not_owns token
        exact absurd (((Reads.init ha old hd).2 hn).fresh token ho hissued) hold
      · obtain ⟨old, hold⟩ := exists_not_owns key.token
        exact ((Reads.init ha old hd).2 hn).frame key hissued hold

section Parse
variable {pol : Policy} {request rest : List UInt8} {headerLen : Nat} {cookie : UInt64}
  {w : World} {m : Nat}

/-- **A parser run disturbs nobody.** -/
theorem parse_effect (h : Ready pol (request ++ rest) cookie w)
    (hreq : CompleteRequest request headerLen) (hc : IsClient w cookie)
    (hd : TokensDistinct (skRouterParser pol w cookie ((request ++ rest).take m)).1.grams) :
    ParseEffect pol w (skRouterParser pol w cookie ((request ++ rest).take m)).1 cookie := by
  have hlater := Later.parser pol w cookie ((request ++ rest).take m)
  rcases Nat.lt_or_ge m request.length with hm | hm
  · obtain ⟨-, hready⟩ := h.call_short hreq hc hm hd
    obtain ⟨-, hflow, hgrams, -, hkept⟩ := parser_pending pol hc ((h.scanned hreq m).1 hm)
    refine ⟨hkept, hlater, hready.accounted, fun hn key hissued _ => ?_,
      fun hn token ho hissued => ?_⟩ <;> rw [hgrams] at hd
    · rw [hgrams]
      exact (opened_effect h.accounted hn hd).2 key hissued
    · obtain ⟨flow, hflow', ho⟩ := ho
      rw [hflow] at hflow'
      cases hflow'
      exact (opened_effect h.accounted hn hd).1 token ho hissued
  · obtain ⟨-, -, ha, flow, hflow, hmoves⟩ := h.call_complete hreq hc hm hd
    obtain ⟨-, -, -, -, hkept⟩ := parser_complete pol hc ((h.scanned hreq m).2 hm).1
    have hopened := hd.earlier hmoves.toLater
    have hopen := Later.openedFlow pol.classifier w cookie
    refine ⟨hkept, hlater, ha, fun hn key hissued hholds => ?_, fun hn token ho hissued => ?_⟩
    · obtain ⟨hnew, hcounts⟩ := opened_effect h.accounted hn hopened
      rw [hmoves.frame key (hissued.later hopen) fun ho => hholds (hnew _ ho hissued)]
      exact hcounts key hissued
    · obtain ⟨flow', hflow', ho⟩ := ho
      rw [hflow] at hflow'
      cases hflow'
      exact (opened_effect h.accounted hn hopened).1 token
        (hmoves.fresh token ho (hissued.later hopen)) hissued

end Parse

/-- The tokens of a flow that waits for its request have been drawn. -/
theorem Ready.issued {pol : Policy} {stream : List UInt8} {cookie : UInt64} {w : World}
    (h : Ready pol stream cookie w) (hn : pol.classifier.modules.ngram = true) {token : UInt64}
    (ht : Holds w cookie token) : Issued w.grams token := by
  obtain ⟨flow, hflow, ho⟩ := ht
  obtain ⟨-, hprimed⟩ := h.flow flow hflow
  have htracks := (hprimed.reads.ngram hn).text
  rcases ho with rfl | rfl
  · exact htracks.wordIssued
  · exact htracks.fullIssued

/-! ## One step -/

section Steps
variable {pol : Policy} {node : Node} {todo : UInt64 → List (List UInt8)}

theorem Invariant.client (h : Invariant pol todo node) {cookie : UInt64} {conn : Connection}
    (hconn : node.conns cookie = some conn) : IsClient node.world cookie := by
  obtain ⟨slots, hentry⟩ := h.entry cookie conn hconn
  simp [IsClient, hentry, clientEntry]

/-- What a waiting connection reads next. -/
theorem Invariant.next (h : Invariant pol todo node) {cookie : UInt64} {unread : List UInt8}
    (hconn : node.conns cookie = some ⟨unread, none⟩) (hdata : unread ≠ []) :
    ∃ request rest headerLen, todo cookie = request :: rest ∧
      unread = request ++ rest.flatten ∧ CompleteRequest request headerLen := by
  have hunread := h.unread cookie _ hconn
  cases htodo : todo cookie with
  | nil => rw [htodo] at hunread; exact absurd hunread hdata
  | cons request rest =>
      obtain ⟨headerLen, hreq⟩ := h.requests cookie request (by simp [htodo])
      exact ⟨request, rest, headerLen, rfl, by rw [htodo] at hunread; exact hunread, hreq⟩

/-- A connection not touched by a step whose effect on the maps is known. -/
theorem Ready.neighbour {cookie other : UInt64} {stream : List UInt8} {w w' : World}
    (h : Ready pol stream other w) (he : ParseEffect pol w w' cookie) (hne : other ≠ cookie)
    (hclient : IsClient w other)
    (hapart : pol.classifier.modules.ngram = true →
      ∀ token, Holds w other token → ¬ Holds w cookie token) :
    Ready pol stream other w' := by
  refine h.interlude ⟨?_, .inl (he.kept.flows other hne), he.later, he.accounted, ?_⟩
  · unfold IsClient
    rw [he.kept.routes]
    exact hclient
  · intro flow hflow hn key ho
    rw [he.kept.flows other hne] at hflow
    have hholds : Holds w other key.token := ⟨flow, hflow, ho⟩
    exact he.frame hn key (Ready.issued h hn hholds) (hapart hn _ hholds)

/-- A connection after a parser run is the parsed one, framed or not by what
it was given, or an old one. -/
theorem parse_conns {request rest : List UInt8} {cookie : UInt64} {m : Nat}
    (hpos : 0 < request.length)
    (hshort : m < request.length →
      (skRouterParser pol node.world cookie ((request ++ rest).take m)).2 = 0)
    (hcomplete : request.length ≤ m →
      (skRouterParser pol node.world cookie ((request ++ rest).take m)).2 = request.length)
    {other : UInt64} {conn : Connection}
    (hother : (node.parse pol cookie (request ++ rest) m).conns other = some conn) :
    (other = cookie ∧ conn.unread = request ++ rest ∧
      (m < request.length ∧ conn.framed = none ∨
        request.length ≤ m ∧ conn.framed = some request.length)) ∨
    (other ≠ cookie ∧ node.conns other = some conn) := by
  simp only [Node.parse] at hother
  by_cases heq : other = cookie
  · subst heq
    rw [Function.update_self] at hother
    obtain rfl := Option.some.inj hother
    refine .inl ⟨rfl, rfl, ?_⟩
    rcases Nat.lt_or_ge m request.length with hm | hm
    · exact .inl ⟨hm, by simp [hshort hm]⟩
    · refine .inr ⟨hm, ?_⟩
      simp only [hcomplete hm]
      rw [if_neg (Nat.pos_iff_ne_zero.mp hpos)]
  · rw [Function.update_of_ne heq] at hother
    exact .inr ⟨heq, hother⟩

/-- Tokens stay apart under a step on one cookie that gains new tokens only. -/
theorem Invariant.apart_step (h : Invariant pol todo node) {cookie : UInt64} {node' : Node}
    (hn : pol.classifier.modules.ngram = true)
    (hflows : ∀ other, other ≠ cookie → node'.world.flows other = node.world.flows other)
    (hfresh : ∀ token, Holds node'.world cookie token → Issued node.world.grams token →
      Holds node.world cookie token)
    (hwaiting : ∀ other, Waiting node' other → Waiting node other)
    {c₁ c₂ : UInt64} (hne : c₁ ≠ c₂) (hw₁ : Waiting node' c₁) (hw₂ : Waiting node' c₂)
    {token : UInt64} (ht₁ : Holds node'.world c₁ token) : ¬ Holds node'.world c₂ token := by
  intro ht₂
  -- a token held by a neighbour was drawn before, so the flow held it before too
  have hback : ∀ other, other ≠ cookie → Waiting node' other → Holds node'.world other token →
      Holds node.world other token ∧ Issued node.world.grams token := by
    rintro other hother hw ⟨flow, hflow, ho⟩
    obtain ⟨unread, hconn⟩ := hwaiting other hw
    rw [hflows other hother] at hflow
    exact ⟨⟨flow, hflow, ho⟩, Ready.issued (h.waiting other unread hconn) hn ⟨flow, hflow, ho⟩⟩
  have hapart := h.apart hn c₁ c₂ hne (hwaiting c₁ hw₁) (hwaiting c₂ hw₂) token
  by_cases h₁ : c₁ = cookie
  · subst h₁
    obtain ⟨hh₂, hissued⟩ := hback c₂ hne.symm hw₂ ht₂
    exact hapart (hfresh token ht₁ hissued) hh₂
  · obtain ⟨hh₁, hissued⟩ := hback c₁ h₁ hw₁ ht₁
    by_cases h₂ : c₂ = cookie
    · subst h₂
      exact hapart hh₁ (hfresh token ht₂ hissued)
    · exact hapart hh₁ (hback c₂ h₂ hw₂ ht₂).1

/-- **The parser step.** -/
theorem Invariant.parse (h : Invariant pol todo node) {cookie : UInt64} {unread : List UInt8}
    (m : Nat) (hconn : node.conns cookie = some ⟨unread, none⟩) (hdata : unread ≠ [])
    (hd : TokensDistinct (node.parse pol cookie unread m).world.grams) :
    Invariant pol todo (node.parse pol cookie unread m) := by
  obtain ⟨request, rest, headerLen, htodo, rfl, hreq⟩ := h.next hconn hdata
  have hclient := h.client hconn
  have hready := h.waiting cookie _ hconn
  have he : ParseEffect pol node.world (node.parse pol cookie _ m).world cookie :=
    parse_effect hready hreq hclient hd
  have hshort := fun hm => hready.call_short hreq hclient (m := m) hm hd
  have hcomplete := fun hm => hready.call_complete hreq hclient (m := m) hm hd
  have hcases := @parse_conns pol node request rest.flatten cookie m
    (Nat.lt_of_lt_of_le hreq.pos hreq.covered)
    (fun hm => (hshort hm).1) (fun hm => (hcomplete hm).1)
  -- the run may end the wait of this connection and begin none
  have hwaiting : ∀ other, Waiting (node.parse pol cookie (request ++ rest.flatten) m) other →
      Waiting node other := by
    rintro other ⟨unread', hother⟩
    rcases hcases hother with ⟨rfl, -⟩ | ⟨-, hold⟩
    · exact ⟨_, hconn⟩
    · exact ⟨_, hold⟩
  refine ⟨he.accounted, ?entries, ?unread, h.requests, ?waiting, ?framed, ?apart⟩
  case entries =>
    intro other conn hother
    rw [he.kept.routes]
    rcases hcases hother with ⟨rfl, -⟩ | ⟨-, hold⟩
    · exact h.entry other _ hconn
    · exact h.entry other conn hold
  case unread =>
    intro other conn hother
    rcases hcases hother with ⟨rfl, hunread, -⟩ | ⟨-, hold⟩
    · rw [hunread, htodo]; rfl
    · exact h.unread other conn hold
  case waiting =>
    intro other unread' hother
    rcases hcases hother with ⟨rfl, hunread, hframed⟩ | ⟨hne, hold⟩
    · rcases hframed with ⟨hm, -⟩ | ⟨-, hframed⟩
      · obtain rfl : unread' = request ++ rest.flatten := hunread
        exact (hshort hm).2
      · cases hframed
    · exact Ready.neighbour (h.waiting other unread' hold) he hne (h.client hold)
        fun hn => h.apart hn other cookie hne ⟨_, hold⟩ ⟨_, hconn⟩
  case framed =>
    intro other unread' n hother
    rcases hcases hother with ⟨rfl, -, hframed⟩ | ⟨hne, hold⟩
    · rcases hframed with ⟨-, hframed⟩ | ⟨hm, hframed⟩
      · cases hframed
      · exact ⟨request, rest, headerLen, htodo, hreq, Option.some.inj hframed, (hcomplete hm).2.1⟩
    · rw [he.kept.decisions other hne]
      exact h.framed other unread' n hold
  case apart =>
    intro hn c₁ c₂ hne hw₁ hw₂ token ht₁
    exact h.apart_step hn he.kept.flows (he.fresh hn) hwaiting hne hw₁ hw₂ ht₁

/-- The verdict on a client's framed request: its slot, and what is left. -/
theorem verdict_client (pol : Policy) {rules : BpfMap Nat DecisionRule}
    (hrules : populateDecisionRules rules = some pol.decisionRules) {w : World} {cookie : UInt64}
    {slots : Fin 6 → Nat} (hentry : w.routes cookie = some (clientEntry cookie slots))
    (redirect : Nat → Bool) (n : Nat) :
    (skRouterVerdict pol w redirect cookie n).2.target
      = some (routeSlot (clientEntry cookie slots) (classifyRequest w cookie)) ∧
    (skRouterVerdict pol w redirect cookie n).1.flows = w.flows.delete cookie ∧
    (skRouterVerdict pol w redirect cookie n).1.decisions = w.decisions.delete cookie ∧
    (skRouterVerdict pol w redirect cookie n).1.routes = w.routes ∧
    (skRouterVerdict pol w redirect cookie n).1.grams = w.grams := by
  have hslot := modelSlot_installed hrules (clientEntry cookie slots) (classifyRequest w cookie)
  have hclient : (clientEntry cookie slots).backend = false := rfl
  simp only [skRouterVerdict, hentry, hclient, Bool.false_eq_true, if_false, hslot]
  split_ifs <;> simp

/-- A verdict on a client's message takes its flow away. -/
theorem verdict_flow {pol : Policy} {rules : BpfMap Nat DecisionRule}
    (hrules : populateDecisionRules rules = some pol.decisionRules) {w : World}
    {cookie : UInt64} {entry : RouteEntry} (hroute : w.routes cookie = some entry)
    (hclient : entry.backend = false) (redirect : Nat → Bool) (n : Nat) :
    (skRouterVerdict pol w redirect cookie n).1.flows cookie = none := by
  have hslot := modelSlot_installed hrules entry (classifyRequest w cookie)
  simp only [skRouterVerdict, hroute, hclient, Bool.false_eq_true, if_false, hslot]
  split_ifs <;> simp

/-- A connection whose flow and grams a step left alone. -/
theorem Ready.unchanged {stream : List UInt8} {cookie : UInt64} {w w' : World}
    (h : Ready pol stream cookie w) (hflows : w'.flows cookie = w.flows cookie)
    (hgrams : w'.grams = w.grams) : Ready pol stream cookie w' := by
  refine ⟨hgrams ▸ h.accounted, fun flow hflow => ?_⟩
  rw [hflows] at hflow
  rw [hgrams]
  exact h.flow flow hflow

/-- **The verdict step**: the request it was for is done. -/
theorem Invariant.verdict (h : Invariant pol todo node) {rules : BpfMap Nat DecisionRule}
    (hrules : populateDecisionRules rules = some pol.decisionRules) {cookie : UInt64}
    {unread : List UInt8} {n : Nat} (hconn : node.conns cookie = some ⟨unread, some n⟩)
    (redirect : Nat → Bool) :
    ∃ request rest slots, todo cookie = request :: rest ∧ unread.take n = request ∧
      node.world.routes cookie = some (clientEntry cookie slots) ∧
      (skRouterVerdict pol node.world redirect cookie n).2.target
        = some (requestSlot pol (clientEntry cookie slots) request) ∧
      Invariant pol (Function.update todo cookie rest)
        (node.verdict pol cookie unread n redirect) := by
  obtain ⟨slots, hentry⟩ := h.entry cookie _ hconn
  obtain ⟨request, rest, headerLen, htodo, hreq, rfl, hdecision⟩ := h.framed cookie unread n hconn
  have hunread : unread = request ++ rest.flatten := by
    have := h.unread cookie _ hconn
    rwa [htodo] at this
  obtain ⟨htarget, hflows, hdecisions, hroutes, hgrams⟩ :=
    verdict_client pol hrules hentry redirect request.length
  refine ⟨request, rest, slots, htodo, by rw [hunread]; simp, hentry, ?_, ?_⟩
  · rw [htarget, requestSlot_eq hreq, classifyRequest, hdecision]
    rfl
  -- a connection after the verdict is the one judged, or it is unchanged
  have hcases : ∀ other conn,
      (node.verdict pol cookie unread request.length redirect).conns other = some conn →
      (other = cookie ∧ conn = ⟨rest.flatten, none⟩) ∨
      (other ≠ cookie ∧ node.conns other = some conn) := by
    intro other conn hother
    simp only [Node.verdict, hunread, List.drop_left] at hother
    by_cases heq : other = cookie
    · subst heq
      rw [Function.update_self] at hother
      exact .inl ⟨rfl, (Option.some.inj hother).symm⟩
    · rw [Function.update_of_ne heq] at hother
      exact .inr ⟨heq, hother⟩
  have hnone : (skRouterVerdict pol node.world redirect cookie request.length).1.flows cookie
      = none := by rw [hflows, BpfMap.delete_self]
  have hkept : ∀ other, other ≠ cookie →
      (skRouterVerdict pol node.world redirect cookie request.length).1.flows other
        = node.world.flows other := by
    intro other hne
    rw [hflows, BpfMap.delete_ne _ hne]
  refine ⟨hgrams ▸ h.accounted, ?entries, ?unread, ?requests, ?waiting, ?framed, ?apart⟩
  case entries =>
    intro other conn hother
    simp only [Node.verdict, hroutes]
    rcases hcases other conn hother with ⟨rfl, -⟩ | ⟨-, hold⟩
    · exact h.entry other _ hconn
    · exact h.entry other conn hold
  case unread =>
    intro other conn hother
    rcases hcases other conn hother with ⟨rfl, rfl⟩ | ⟨hne, hold⟩
    · rw [Function.update_self]
    · rw [Function.update_of_ne hne]
      exact h.unread other conn hold
  case requests =>
    intro other r hr
    by_cases heq : other = cookie
    · subst heq
      rw [Function.update_self] at hr
      exact h.requests other r (by simp [htodo, hr])
    · rw [Function.update_of_ne heq] at hr
      exact h.requests other r hr
  case waiting =>
    intro other unread' hother
    rcases hcases other _ hother with ⟨rfl, -⟩ | ⟨hne, hold⟩
    · exact Fresh.ready ⟨hgrams ▸ h.accounted, hnone⟩ pol unread'
    · exact Ready.unchanged (h.waiting other unread' hold) (hkept other hne) hgrams
  case framed =>
    intro other unread' n' hother
    rcases hcases other _ hother with ⟨rfl, hbad⟩ | ⟨hne, hold⟩
    · cases hbad
    · simp only [Node.verdict, hdecisions, BpfMap.delete_ne _ hne, Function.update_of_ne hne]
      exact h.framed other unread' n' hold
  case apart =>
    rintro hn c₁ c₂ hne ⟨u₁, hw₁⟩ ⟨u₂, hw₂⟩ token ⟨flow₁, hflow₁, ho₁⟩ ⟨flow₂, hflow₂, ho₂⟩
    simp only [Node.verdict] at hflow₁ hflow₂
    rcases hcases c₁ _ hw₁ with ⟨rfl, -⟩ | ⟨hne₁, hold₁⟩
    · rw [hnone] at hflow₁; cases hflow₁
    rcases hcases c₂ _ hw₂ with ⟨rfl, -⟩ | ⟨hne₂, hold₂⟩
    · rw [hnone] at hflow₂; cases hflow₂
    rw [hkept c₁ hne₁] at hflow₁
    rw [hkept c₂ hne₂] at hflow₂
    exact h.apart hn c₁ c₂ hne ⟨u₁, hold₁⟩ ⟨u₂, hold₂⟩ token ⟨flow₁, hflow₁, ho₁⟩
      ⟨flow₂, hflow₂, ho₂⟩

/-- **The eviction step.** -/
theorem Invariant.evict (h : Invariant pol todo node) {w' : World} (he : Evicts pol node w') :
    Invariant pol todo ⟨w', node.conns⟩ := by
  have hback : ∀ cookie token, Holds w' cookie token → Holds node.world cookie token := by
    rintro cookie token ⟨flow, hflow, ho⟩
    rcases he.flows cookie with heq | hnone
    · exact ⟨flow, heq ▸ hflow, ho⟩
    · rw [hnone] at hflow; cases hflow
  refine ⟨he.accounted, ?_, h.unread, h.requests, ?_, ?_, ?_⟩
  · intro cookie conn hconn
    simp only [he.routes]
    exact h.entry cookie conn hconn
  · intro cookie unread hconn
    refine (h.waiting cookie unread hconn).interlude
      ⟨?_, he.flows cookie, he.later, he.accounted, he.grams cookie⟩
    unfold IsClient
    rw [he.routes]
    exact h.client hconn
  · intro cookie unread n hconn
    simp only [he.decisions cookie unread n hconn]
    exact h.framed cookie unread n hconn
  · intro hn c₁ c₂ hne hw₁ hw₂ token ht₁ ht₂
    exact h.apart hn c₁ c₂ hne hw₁ hw₂ token (hback c₁ token ht₁) (hback c₂ token ht₂)

/-- The maps the invariant speaks of, unchanged. -/
theorem Invariant.unchanged (h : Invariant pol todo node) {w' : World}
    (hflows : w'.flows = node.world.flows) (hdecisions : w'.decisions = node.world.decisions)
    (hroutes : w'.routes = node.world.routes) (hgrams : w'.grams = node.world.grams) :
    Invariant pol todo ⟨w', node.conns⟩ :=
  h.evict ⟨hroutes, hgrams ▸ .refl _, hgrams ▸ h.accounted, fun _ => .inl (by rw [hflows]),
    fun _ _ _ _ => by rw [hdecisions], fun _ _ _ _ _ _ => by rw [hgrams]⟩

end Steps

/-- A verdict that treats its request as its own bytes, the policy and the
client's entry say. -/
def Redirect.Isolated (pol : Policy) (routes : BpfMap UInt64 RouteEntry) (r : Redirect) : Prop :=
  ∃ entry, routes r.cookie = some entry ∧ r.target = some (requestSlot pol entry r.request)

/-- The requests redirected for a cookie, in order. -/
def redirected (out : List (Option Redirect)) (cookie : UInt64) : List (List UInt8) :=
  out.filterMap fun o => o.bind fun r => if r.cookie = cookie then some r.request else none

/-- No verdict changes the routes or the grams. -/
theorem verdict_frame (pol : Policy) (w : World) (redirect : Nat → Bool) (cookie : UInt64)
    (n : Nat) :
    (skRouterVerdict pol w redirect cookie n).1.routes = w.routes ∧
    (skRouterVerdict pol w redirect cookie n).1.grams = w.grams := by
  unfold skRouterVerdict
  cases w.routes cookie with
  | none => exact ⟨rfl, rfl⟩
  | some entry =>
      simp only
      split_ifs
      · simp
      · exact ⟨rfl, rfl⟩
      · split
        · exact ⟨rfl, rfl⟩
        · split_ifs <;> simp

/-- A verdict on a backend socket only counts response bytes. -/
theorem verdict_backend (pol : Policy) {w : World} {cookie : UInt64} {entry : RouteEntry}
    (hroute : w.routes cookie = some entry) (hbackend : entry.backend = true)
    (redirect : Nat → Bool) (n : Nat) :
    (skRouterVerdict pol w redirect cookie n).1.flows = w.flows ∧
    (skRouterVerdict pol w redirect cookie n).1.decisions = w.decisions := by
  simp only [skRouterVerdict, hroute, hbackend, if_true]
  split_ifs <;> simp

theorem Step.later {pol : Policy} {node node' : Node} {out : Option Redirect}
    (h : Step pol node out node') :
    Later node.world.grams node'.world.grams ∧ node'.world.routes = node.world.routes := by
  cases h with
  | parse m => exact ⟨Later.parser pol _ _ _, parser_routes pol _ _ _⟩
  | verdict framed redirect =>
      obtain ⟨hroutes, hgrams⟩ := verdict_frame pol node.world redirect _ _
      exact ⟨by simp only [Node.verdict, hgrams]; exact .refl _, hroutes⟩
  | backendParse route backend skb =>
      exact ⟨Later.parser pol _ _ _, parser_routes pol _ _ _⟩
  | backendVerdict route backend redirect skbLen =>
      obtain ⟨hroutes, hgrams⟩ := verdict_frame pol node.world redirect _ skbLen
      exact ⟨by simp only [hgrams]; exact .refl _, hroutes⟩
  | evict evicts => exact ⟨evicts.later, evicts.routes⟩

/-- **One step** keeps the invariant, and its verdict is isolated. -/
theorem Invariant.step {pol : Policy} {rules : BpfMap Nat DecisionRule}
    (hrules : populateDecisionRules rules = some pol.decisionRules) {node node' : Node}
    {todo : UInt64 → List (List UInt8)} {out : Option Redirect} (h : Invariant pol todo node)
    (hstep : Step pol node out node') (hd : TokensDistinct node'.world.grams) :
    (∀ r, out = some r → r.Isolated pol node.world.routes) ∧
    ∃ todo', Invariant pol todo' node' ∧
      ∀ cookie, todo cookie = redirected [out] cookie ++ todo' cookie := by
  cases hstep with
  | parse m waiting data =>
      exact ⟨by simp, todo, h.parse m waiting data hd, fun _ => rfl⟩
  | @verdict cookie unread n framed redirect =>
      obtain ⟨request, rest, slots, htodo, hrequest, hentry, htarget, hinv⟩ :=
        h.verdict hrules framed redirect
      refine ⟨?_, _, hinv, fun other => ?_⟩
      · intro r hr
        obtain rfl := Option.some.inj hr
        exact ⟨_, hentry, hrequest ▸ htarget⟩
      · by_cases heq : other = cookie
        · subst heq
          simp [redirected, htodo, hrequest]
        · simp [redirected, heq, Ne.symm heq]
  | backendParse route backend skb =>
      have heq := parser_backend pol route backend skb
      exact ⟨by simp, todo, h.unchanged (by rw [heq]) (by rw [heq]) (by rw [heq]) (by rw [heq]),
        fun _ => rfl⟩
  | backendVerdict route backend redirect skbLen =>
      obtain ⟨hflows, hdecisions⟩ := verdict_backend pol route backend redirect skbLen
      obtain ⟨hroutes, hgrams⟩ := verdict_frame pol node.world redirect _ skbLen
      exact ⟨by simp, todo, h.unchanged hflows hdecisions hroutes hgrams, fun _ => rfl⟩
  | evict evicts => exact ⟨by simp, todo, h.evict evicts, fun _ => rfl⟩

/-! ## Runs -/

/-- The start of a run: every connection has its whole sequence of requests
unread, no flow, and the entry `add_connection_set` gave it. -/
structure Opened (requests : UInt64 → List (List UInt8)) (node : Node) : Prop where
  accounted : Accounted node.world.grams
  complete : ∀ cookie, ∀ request ∈ requests cookie, IsRequest request
  unread : ∀ cookie conn, node.conns cookie = some conn →
    conn = ⟨(requests cookie).flatten, none⟩
  noFlow : ∀ cookie conn, node.conns cookie = some conn → node.world.flows cookie = none
  entry : ∀ cookie conn, node.conns cookie = some conn →
    ∃ slots, node.world.routes cookie = some (clientEntry cookie slots)

theorem Opened.invariant {requests : UInt64 → List (List UInt8)} {node : Node}
    (h : Opened requests node) (pol : Policy) : Invariant pol requests node := by
  refine ⟨h.accounted, h.entry, ?_, h.complete, ?_, ?_, ?_⟩
  · intro cookie conn hconn
    rw [h.unread cookie conn hconn]
  · intro cookie unread hconn
    exact Fresh.ready ⟨h.accounted, h.noFlow cookie _ hconn⟩ pol unread
  · intro cookie unread n hconn
    cases h.unread cookie _ hconn
  · rintro - c₁ c₂ - ⟨u₁, hw₁⟩ - token ⟨flow, hflow, -⟩
    rw [h.noFlow c₁ _ hw₁] at hflow
    cases hflow

theorem Opened.run {pol : Policy} {rules : BpfMap Nat DecisionRule}
    (hrules : populateDecisionRules rules = some pol.decisionRules)
    {requests : UInt64 → List (List UInt8)} {node node' : Node} {out : List (Option Redirect)}
    (h : Opened requests node) (run : Run (Step pol) node out node')
    (hd : TokensDistinct node'.world.grams) :
    node'.world.routes = node.world.routes ∧
    (∀ r, some r ∈ out → r.Isolated pol node.world.routes) ∧
    ∃ todo, Invariant pol todo node' ∧
      ∀ cookie, requests cookie = redirected out cookie ++ todo cookie := by
  induction run with
  | nil => exact ⟨rfl, by simp, requests, h.invariant pol, fun _ => rfl⟩
  | snoc _ last ih =>
      obtain ⟨hlater, hsame⟩ := last.later
      obtain ⟨hroutes, hisolated, todo, hinv, htodo⟩ := ih (hd.earlier hlater)
      obtain ⟨hlast, todo', hinv', htodo'⟩ := hinv.step hrules last hd
      refine ⟨hsame.trans hroutes, fun r hr => ?_, todo', hinv', fun cookie => ?_⟩
      · rcases List.mem_append.mp hr with hr | hr
        · exact hisolated r hr
        · rw [← hroutes]
          exact hlast r (List.mem_singleton.mp hr).symm
      · rw [htodo cookie, htodo' cookie, ← List.append_assoc]
        simp [redirected]

/-- **Request isolation.** Take any two runs under one policy: other
connections, other requests before and around, other redirect results and
evictions. Two verdicts on the same request bytes under the same entry go
to the same slot, the one the request's own body selects; and what is
redirected for a connection are its requests, in order and uncut. -/
theorem request_isolation {pol : Policy} {rules : BpfMap Nat DecisionRule}
    (hrules : populateDecisionRules rules = some pol.decisionRules)
    {requests₁ requests₂ : UInt64 → List (List UInt8)} {start₁ end₁ start₂ end₂ : Node}
    {out₁ out₂ : List (Option Redirect)}
    (hopen₁ : Opened requests₁ start₁) (hopen₂ : Opened requests₂ start₂)
    (run₁ : Run (Step pol) start₁ out₁ end₁) (run₂ : Run (Step pol) start₂ out₂ end₂)
    (htokens₁ : TokensDistinct end₁.world.grams) (htokens₂ : TokensDistinct end₂.world.grams) :
    (∀ r₁ r₂, some r₁ ∈ out₁ → some r₂ ∈ out₂ → r₁.request = r₂.request →
      start₁.world.routes r₁.cookie = start₂.world.routes r₂.cookie →
      r₁.target = r₂.target ∧ r₁.Isolated pol start₁.world.routes) ∧
    ∀ cookie, redirected out₁ cookie <+: requests₁ cookie := by
  obtain ⟨-, hisolated₁, todo, -, htodo⟩ := hopen₁.run hrules run₁ htokens₁
  obtain ⟨-, hisolated₂, -⟩ := hopen₂.run hrules run₂ htokens₂
  refine ⟨fun r₁ r₂ h₁ h₂ hrequest hentry => ?_, fun cookie => ⟨todo cookie, (htodo cookie).symm⟩⟩
  obtain ⟨entry₁, he₁, ht₁⟩ := hisolated₁ r₁ h₁
  obtain ⟨entry₂, he₂, ht₂⟩ := hisolated₂ r₂ h₂
  obtain rfl : entry₁ = entry₂ := by
    rw [he₁, he₂] at hentry
    exact Option.some.inj hentry
  exact ⟨by rw [ht₁, ht₂, hrequest], entry₁, he₁, ht₁⟩

/-- The n-gram signal alone, under the rules the control process installs. -/
def installedPolicy : Policy :=
  { ngramOnly with
    decisionRules := (populateDecisionRules fun _ => none).getD fun _ => none }

/-- `P\r\n\r\n` -/
def pingRequest : List UInt8 := [80, 13, 10, 13, 10]

/-- Client 7 before its first byte is read. -/
def oneClient (requests : List (List UInt8)) : Node where
  world := { idleWorld with
    routes := fun cookie => if cookie = 7 then some (clientEntry 7 fun i => i.val) else none }
  conns := fun cookie => if cookie = 7 then some ⟨requests.flatten, none⟩ else none

theorem oneClient_opened {requests : List (List UInt8)}
    (h : ∀ request ∈ requests, IsRequest request) :
    Opened (fun cookie => if cookie = 7 then requests else []) (oneClient requests) := by
  refine ⟨.of_empty fun _ => rfl, fun cookie request hr => ?_, fun cookie conn hconn => ?_,
    fun _ _ _ => rfl, fun cookie conn hconn => ?_⟩
  · by_cases hc : cookie = 7
    · simp only [hc, if_true] at hr; exact h request hr
    · simp [hc] at hr
  · by_cases hc : cookie = 7
    · simp only [oneClient, hc, if_true, Option.some.injEq] at hconn ⊢; exact hconn.symm
    · simp [oneClient, hc] at hconn
  · by_cases hc : cookie = 7
    · exact ⟨fun i => i.val, by simp [oneClient, hc]⟩
    · simp [oneClient, hc] at hconn

/-- One request alone, and the same request after another one whose redirect
fails. -/
theorem request_isolation_ask :
    (skRouterVerdict installedPolicy
        ((oneClient [askRequest]).parse installedPolicy 7 askRequest 38).world
        (fun _ => true) 7 38).2.target
      = (skRouterVerdict installedPolicy
        ((((oneClient [pingRequest, askRequest]).parse installedPolicy 7
          (pingRequest ++ askRequest) 5).verdict installedPolicy 7 (pingRequest ++ askRequest) 5
          fun _ => false).parse installedPolicy 7 askRequest 38).world
        (fun _ => true) 7 38).2.target := by
  have hask : IsRequest askRequest := ⟨25, by constructor <;> decide⟩
  have hping : IsRequest pingRequest := ⟨5, by constructor <;> decide⟩
  have hrules : populateDecisionRules (fun _ => none) = some installedPolicy.decisionRules := rfl
  have parse₁ := @Step.parse installedPolicy (oneClient [askRequest]) 7 askRequest 38 rfl
    (by decide)
  have parse₂ := @Step.parse installedPolicy (oneClient [pingRequest, askRequest]) 7
    (pingRequest ++ askRequest) 5 rfl (by decide)
  have verdict₂ := @Step.verdict installedPolicy ((oneClient [pingRequest, askRequest]).parse
    installedPolicy 7 (pingRequest ++ askRequest) 5) 7 (pingRequest ++ askRequest) 5 rfl
    fun _ => false
  have parse₃ := @Step.parse installedPolicy (((oneClient [pingRequest, askRequest]).parse
    installedPolicy 7 (pingRequest ++ askRequest) 5).verdict installedPolicy 7
      (pingRequest ++ askRequest) 5 fun _ => false) 7 askRequest 38 rfl (by decide)
  have run₁ := (Run.single parse₁).snoc
    (@Step.verdict installedPolicy _ 7 askRequest 38 rfl fun _ => true)
  have run₂ := (((Run.single parse₂).snoc verdict₂).snoc parse₃).snoc
    (@Step.verdict installedPolicy _ 7 askRequest 38 rfl fun _ => true)
  exact ((request_isolation hrules (oneClient_opened (by simpa using hask))
    (oneClient_opened (by simp [hask, hping])) run₁ run₂ (by decide) (by decide)).1
    ⟨7, askRequest, _⟩ ⟨7, askRequest, _⟩ (List.mem_append_right _ (List.mem_singleton_self _))
    (List.mem_append_right _ (List.mem_singleton_self _)) rfl rfl).1

end Xsr.System
