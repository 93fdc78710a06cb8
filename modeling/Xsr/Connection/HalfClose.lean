import Xsr.Connection.Enrolment
import Xsr.Connection.Routability
import Xsr.Parsing.SizeBoundary

/-!
# HalfClose — the requests a half-closed client is served

The parser cuts what a client sends into messages and each gets one verdict,
while the timer looks at a flag that the first forwarded request sets for
good. So the backends are shut down when a request was forwarded, which is
every request of a client that has sent one, and not of one that has sent
more.
-/

namespace Xsr.Connection

open Kernel Lib Parsing Control Xsr.System

/-! ## The bytes of the sockets -/

/-- The system with the bytes its sockets have received, and the length of
the message that the parser has cut for each and no verdict has taken, or
`0`. -/
structure Wire where
  drain : Drain
  bytes : UInt64 → List UInt8
  message : UInt64 → Nat

/-- Maps just loaded, and no bytes. -/
def Wire.initial (grams : QueryGrams) : Wire := ⟨.initial grams, fun _ => [], fun _ => 0⟩

/-- The bytes of a socket that no verdict has taken. -/
def Wire.unread (w : Wire) (socket : UInt64) : List UInt8 :=
  (w.bytes socket).drop (w.drain.streams socket).taken

/-- Bytes arrive. -/
def Wire.receive (w : Wire) (socket : UInt64) (bs : List UInt8) : Wire :=
  { w with
    drain := w.drain.arrive socket bs.length
    bytes := Function.update w.bytes socket (w.bytes socket ++ bs) }

/-- The parser is called on the first `n` bytes that are unread; what it
returns is the length of the message. -/
def Wire.parse (pol : Policy) (w : Wire) (socket : UInt64) (n : Nat) : Wire :=
  let p := skRouterParser pol w.drain.router.world socket ((w.unread socket).take n)
  { w with
    drain := { w.drain with router := { w.drain.router with world := p.1 } }
    message := Function.update w.message socket p.2 }

/-- The verdict on the message. -/
def Wire.verdict (pol : Policy) (w : Wire) (redirect : Nat → Bool) (socket : UInt64) : Wire :=
  { w with
    drain := w.drain.verdict pol redirect socket (w.message socket)
    message := Function.update w.message socket 0 }

/-- What can happen next. -/
inductive Act where
  | receive (socket : UInt64) (bs : List UInt8)
  | parse (socket : UInt64) (n : Nat)
  | verdict (socket : UInt64) (redirect : Nat → Bool)
  | move (m : Move)

/-- The moves that touch no bytes and run no program. -/
def Move.IsOther : Move → Prop
  | .arrive .. | .event (.parse ..) | .event (.verdict ..) => False
  | _ => True

/-- One act. The parser is called while no message waits, the verdict once
the whole message is there. -/
inductive WireStep (pol : Policy) (w : Wire) : Act → Wire → Prop where
  | receive {socket : UInt64} (bs : List UInt8) (live : (w.drain.streams socket).ended = false) :
      WireStep pol w (.receive socket bs) (w.receive socket bs)
  | parse {socket : UInt64} {slot : Nat} (n : Nat) (idle : w.message socket = 0)
      (attached : w.drain.router.sockMap slot = some socket) :
      WireStep pol w (.parse socket n) (w.parse pol socket n)
  | verdict {socket : UInt64} {slot : Nat} {redirect : Nat → Bool} (pos : 0 < w.message socket)
      (whole : w.message socket ≤ (w.unread socket).length)
      (attached : w.drain.router.sockMap slot = some socket)
      (occupied : ∀ target, redirect target = true →
        (w.drain.router.sockMap target).isSome = true) :
      WireStep pol w (.verdict socket redirect) (w.verdict pol redirect socket)
  | move {m : Move} {d : Drain} (other : m.IsOther) (step : DrainStep pol w.drain m d) :
      WireStep pol w (.move m) { w with drain := d }

/-- The moves of others leave the counts of all sockets alone. -/
theorem DrainStep.counts {pol : Policy} {d d' : Drain} {m : Move} (other : m.IsOther)
    (hstep : DrainStep pol d m d') (c : UInt64) :
    (d'.streams c).arrived = (d.streams c).arrived ∧
      (d'.streams c).taken = (d.streams c).taken ∧
      (d'.streams c).passed = (d.streams c).passed := by
  have hstream : ∀ {socket : UInt64} {f : Stream → Stream}, (∀ t, (f t).arrived = t.arrived ∧
      (f t).taken = t.taken ∧ (f t).passed = t.passed) →
      ((d.stream socket f).streams c).arrived = (d.streams c).arrived ∧
        ((d.stream socket f).streams c).taken = (d.streams c).taken ∧
        ((d.stream socket f).streams c).passed = (d.streams c).passed := by
    intro socket f hf
    rcases eq_or_ne c socket with rfl | hne
    · rw [d.stream_self]
      exact hf _
    · rw [d.stream_of_ne f hne]
      exact ⟨rfl, rfl, rfl⟩
  cases hstep with
  | arrive n live => exact other.elim
  | fin socket => exact hstream fun _ => ⟨rfl, rfl, rfl⟩
  | fail socket => exact hstream fun _ => ⟨rfl, rfl, rfl⟩
  | verdict pos room step => exact other.elim
  | _ => exact ⟨rfl, rfl, rfl⟩

/-- The counts of a socket are those of its bytes, and the drain has run. -/
structure Sound (w : Wire) : Prop where
  flowing : Flowing w.drain
  counted : ∀ c, (w.drain.streams c).arrived = (w.bytes c).length

/-- Every act is a move of the drain. -/
theorem WireStep.drain {pol : Policy} {w w' : Wire} {a : Act} (h : Sound w)
    (hstep : WireStep pol w a w') : ∃ m, DrainStep pol w.drain m w'.drain := by
  cases hstep with
  | receive bs live => exact ⟨_, .arrive bs.length live⟩
  | parse n idle attached =>
      exact ⟨_, @DrainStep.traffic _ _ (.parse _ _) _ trivial (Step.parse _ attached)⟩
  | @verdict socket slot redirect pos whole attached occupied =>
      refine ⟨_, .verdict pos ?_ (Step.verdict _ attached occupied)⟩
      rw [Wire.unread, List.length_drop, ← h.counted] at whole
      omega
  | move other step => exact ⟨_, step⟩

theorem Sound.step {pol : Policy} {w w' : Wire} {a : Act} (h : Sound w)
    (hstep : WireStep pol w a w') : Sound w' := by
  obtain ⟨m, hmove⟩ := hstep.drain h
  refine ⟨h.flowing.step hmove, fun c => ?_⟩
  cases hstep with
  | @receive socket bs live =>
      dsimp only [Wire.receive, Drain.arrive]
      rcases eq_or_ne c socket with rfl | hne
      · rw [w.drain.stream_self, Function.update_self, List.length_append, h.counted]
      · rw [w.drain.stream_of_ne _ hne, Function.update_of_ne hne, h.counted]
  | parse n idle attached => exact h.counted c
  | @verdict socket slot redirect pos whole attached occupied =>
      refine Eq.trans ?_ (h.counted c)
      dsimp only [Wire.verdict, Drain.verdict]
      rcases eq_or_ne c socket with rfl | hne
      · rw [w.drain.stream_self]
      · rw [w.drain.stream_of_ne _ hne]
  | move other step => exact (step.counts other c).1.trans (h.counted c)

/-! ## The flow of a client -/

/-- The flow of a socket, if it is there, has the header state of a prefix. -/
def HeaderOf (stream : List UInt8) (c : UInt64) (w : World) : Prop :=
  ∀ flow, w.flows c = some flow →
    ∃ k, k ≤ maxHeader ∧ flow.header = headerRun (stream.take k)

/-- Whatever a call returns, the flow it leaves has the header state of a
prefix. -/
theorem HeaderOf.after {pol : Policy} {stream : List UInt8} {c : UInt64} {w : World}
    (h : HeaderOf stream c w) (hc : IsClient w c) (m : Nat) :
    HeaderOf stream c (skRouterParser pol w c (stream.take m)).1 :=
  (Resumed.call pol ⟨hc, h⟩ m).flow

/-- A call on a prefix that does not cover the request returns `0`, one that
covers it the length of the request. -/
theorem HeaderOf.call {pol : Policy} {request rest : List UInt8} {headerLen : Nat} {c : UInt64}
    {w : World} (h : HeaderOf (request ++ rest) c w) (hreq : CompleteRequest request headerLen)
    (hc : IsClient w c) (m : Nat) :
    (skRouterParser pol w c ((request ++ rest).take m)).2 =
      if m < request.length then 0 else request.length := by
  obtain ⟨k, hk, hheader⟩ := opened_header (m := pol.classifier) h
  obtain ⟨hshort, hfull⟩ := hreq.scanned hk hheader m
  rw [parser_result pol ⟨hc, h⟩ m]
  split_ifs with hpending hm hm
  · rfl
  · rw [(hfull (Nat.not_lt.mp hm)).1] at hpending
    cases hpending
  · exact absurd (hshort hm) hpending
  · rw [(hfull (Nat.not_lt.mp hm)).2, hreq.requestLen_eq]

/-- No complete request is at the front of the bytes. -/
def NoRequest (bytes : List UInt8) : Prop :=
  ∀ request rest, IsRequest request → bytes ≠ request ++ rest

/-- Nothing is cut of bytes that begin with no complete request. -/
theorem HeaderOf.call_none {pol : Policy} {stream : List UInt8} {c : UInt64} {w : World}
    (h : HeaderOf stream c w) (hnone : NoRequest stream) (hc : IsClient w c) {m : Nat}
    (hm : m ≤ stream.length) : (skRouterParser pol w c (stream.take m)).2 = 0 := by
  by_contra hne
  have hrequest := Resumed.complete pol ⟨hc, h⟩ hm (Nat.pos_of_ne_zero hne)
  exact hnone _ _ hrequest (List.take_append_drop _ stream).symm

/-- The flows are among those of `flows`. -/
def FlowsWithin (flows : BpfMap UInt64 HttpFlowState) (s : Router) : Prop :=
  ∀ c flow, s.world.flows c = some flow → flows c = some flow

section Flows
variable {flows : BpfMap UInt64 HttpFlowState}

theorem keeps_flows (i : SetIndex) : Keeps i (FlowsWithin flows) where
  record _ h := h
  dropSlot _ _ _ h := h
  clearRoute _ _ _ h := h
  dropRoute _ _ h := h
  clearLifecycle _ _ h := h
  dropLifecycle _ h := h
  dropFlow _ h c flow hflow := h c flow (BpfMap.delete_some hflow)
  dropDecision _ h := h
  close s unlinks m h := by
    rcases closeMember_cases s i m unlinks with ⟨-, heq⟩ | ⟨fd, -, heq⟩ <;> rw [heq]
    · exact h
    · intro c flow hflow
      rw [modify_world, close_world] at hflow
      exact h c flow hflow

theorem stable_flows : Stable (FlowsWithin flows) where
  reap _ i calls h := reap_keeps keeps_flows (fun _ _ h => h) h i calls
  mark _ _ _ _ h := h
  count _ _ _ h := h

theorem setupKeeps_flows (calls : AddCalls) (i : SetIndex) :
    SetupKeeps calls i (FlowsWithin flows) where
  refuse _ _ _ h := h
  connect _ _ _ _ _ _ h := h
  learnCookie _ _ _ _ h := h
  note _ _ h := h
  placeLifecycle _ h := h
  placeRoute _ _ h := h
  placeSlot _ _ _ h := h

/-- An accept makes no flow. -/
theorem add_flows {s : Router} (haccounted : Connection.Accounted s.manager)
    (h : FlowsWithin flows s) (calls : AddCalls) (clientFd : Nat) :
    FlowsWithin flows (addConnectionSet calls clientFd s).1 := by
  rcases add_cases calls s clientFd with ⟨-, heq⟩ | ⟨hpos, htop⟩ | ⟨i, -, -, hcases⟩
  · rw [heq]
    intro c flow hflow
    rw [close_world] at hflow
    exact h c flow hflow
  · exact absurd (haccounted.top_lt hpos) (Nat.not_lt.mpr htop)
  · have hsetup := (setupKeeps_flows calls i).setup (s.allocate i clientFd) h
    rcases hcases with ⟨-, heq⟩ | ⟨-, heq⟩ <;> rw [heq]
    · exact hsetup
    · exact stable_flows.reap _ i calls.reap hsetup

end Flows

/-- The moves of others make no flow. -/
theorem DrainStep.flows {pol : Policy} {d d' : Drain} {m : Move} (hs : Settled d.router)
    (other : m.IsOther) (hstep : DrainStep pol d m d') :
    FlowsWithin d.router.world.flows d'.router := by
  have hsame : FlowsWithin d.router.world.flows d.router := fun _ _ h => h
  cases hstep with
  | arrive n live => exact other.elim
  | traffic he step =>
      cases step with
      | parse skb attached => exact other.elim
      | unlink slot => exact hsame
      | age grams kept => exact kept
      | _ => exact he.elim
  | verdict pos room step => exact other.elim
  | control idle he step =>
      cases step with
      | @accept client calls fresh =>
          exact add_flows (s := d.router.openSocket client.1 client.2) hs.accounted hsame calls
            client.1
      | reap i calls => exact stable_flows.reap _ i calls hsame
      | check calls active => exact stable_flows.checkSet hsame calls
      | destroy calls =>
          dsimp only
          exact stable_flows.destroy hsame calls
      | _ => exact he.elim
  | look idle active drains => exact stable_flows.beginDrain (stable_flows.notePeerClosed hsame)
  | settle turn polled read => exact stable_flows.settle hsame _
  | _ => exact hsame

/-! ## Who a socket belongs to -/

/-- No set in use has client `c`, nor will one. -/
def Lost (c : UInt64) (s : Router) : Prop := Enrolled c (fun set => set.allocated = false) s

theorem lasting_lost : Lasting fun set => set.allocated = false := by
  intro set set' hretains h
  cases ha : set'.allocated with
  | false => rfl
  | true => exact absurd (h.symm.trans (hretains.allocated ha)) Bool.false_ne_true

section Lost
variable {s : Router} (hs : Settled s) {c : UInt64}

include hs

/-- A known cookie was given out. -/
theorem Settled.cookie_used {i : SetIndex} {m : Member} (h0 : (s.set i).cookies m ≠ 0) :
    (s.set i).cookies m ∈ s.used := by
  rcases hs.clean.opened.accounted (i, m) h0 with hfd | hclosed
  · obtain ⟨fd, hfd⟩ := Option.ne_none_iff_exists'.mp hfd
    obtain ⟨-, k, hk, hcookie⟩ := hs.clean.opened.held (i, m) fd hfd
    have hsocket : (s.set i).cookies m = k := hcookie.resolve_left h0
    rw [hsocket]
    exact (hs.clean.opened.live fd k hk).2.1
  · exact hs.clean.opened.closed_used _ hclosed

/-- A backend is no client. -/
theorem Settled.lost_of_backend {entry : RouteEntry} (hentry : s.world.routes c = some entry)
    (hbackend : entry.backend = true) : Lost c s := by
  obtain ⟨⟨j, m⟩, hcookie, hrouted, rfl⟩ := hs.clean.owned.routes c entry hentry
  have h0 : (s.set j).cookies m ≠ 0 := hs.clean.owned.seated (j, m) (.inr hrouted)
  obtain rfl : (s.set j).cookies m = c := hcookie
  refine ⟨h0, hs.cookie_used h0, fun i hi => ?_⟩
  have hseat : (i, (0 : Member)) = (j, m) :=
    hs.clean.owned.unique (i, 0) (j, m) hi (hi.trans_ne h0)
  obtain rfl : 0 = m := congrArg Prod.snd hseat
  exact absurd ((route_backend (s.set j) 0).mp hbackend) (by decide)

/-- A socket in a slot without a route is that of no set in use. -/
theorem Settled.lost_of_unrouted {slot : Nat} (attached : s.sockMap slot = some c)
    (hnone : s.world.routes c = none) : Lost c s := by
  obtain ⟨⟨j, m⟩, -, hplaced, hcookie⟩ := hs.clean.owned.slots slot c attached
  have h0 : (s.set j).cookies m ≠ 0 := hs.clean.owned.seated (j, m) (.inl hplaced)
  obtain rfl : c = (s.set j).cookies m := hcookie
  refine ⟨h0, hs.cookie_used h0, fun i hi => ?_⟩
  cases ha : (s.set i).allocated with
  | false => rfl
  | true =>
      have hroute := (hs.complete i ha).route 0
      rw [show s.holdings.cookie (i, 0) = (s.set j).cookies m from hi, hnone] at hroute
      cases hroute

end Lost

/-! ## One request -/

/-- A verdict makes no flow. -/
theorem verdict_flows (pol : Policy) (u : World) (redirect : Nat → Bool) (socket : UInt64)
    (n : Nat) :
    (skRouterVerdict pol u redirect socket n).1.flows = u.flows ∨
      (skRouterVerdict pol u redirect socket n).1.flows = u.flows.delete socket := by
  rw [skRouterVerdict]
  cases u.routes socket with
  | none => exact .inl rfl
  | some entry =>
      dsimp only
      split_ifs
      · exact .inl (updateLifecycle_flows ..)
      · exact .inl rfl
      · split
        · exact .inl rfl
        · split_ifs <;> exact .inr (updateLifecycle_flows ..)

/-- How far a client's first request has come: it is not cut yet, the message
waits for its verdict, or the verdict has taken it. -/
inductive Reading (first second : List UInt8) (c : UInt64) (w : Wire) : Prop where
  | arriving (request : IsRequest first) (taken : (w.drain.streams c).taken = 0)
      (passed : (w.drain.streams c).passed = 0) (message : w.message c = 0)
      (header : HeaderOf (first ++ second) c w.drain.router.world)
  | cut (request : IsRequest first) (taken : (w.drain.streams c).taken = 0)
      (passed : (w.drain.streams c).passed = 0) (message : w.message c = first.length)
  | judged (taken : (w.drain.streams c).taken = first.length)
      (passed : (w.drain.streams c).passed = 0 ∨ (w.drain.streams c).passed = first.length)
      (message : w.message c = 0) (header : HeaderOf second c w.drain.router.world)

section Reading
variable {first second : List UInt8} {c : UInt64} {w w' : Wire}

theorem HeaderOf.within {stream : List UInt8} {u u' : World} (h : HeaderOf stream c u)
    (flows : ∀ flow, u'.flows c = some flow → u.flows c = some flow) : HeaderOf stream c u' :=
  fun flow hflow => h flow (flows flow hflow)

/-- An act that leaves the socket's counts and its message alone, and makes
no flow for it. -/
theorem Reading.congr (h : Reading first second c w)
    (counts : (w'.drain.streams c).taken = (w.drain.streams c).taken ∧
      (w'.drain.streams c).passed = (w.drain.streams c).passed)
    (message : w'.message c = w.message c)
    (flows : ∀ flow, w'.drain.router.world.flows c = some flow →
      w.drain.router.world.flows c = some flow) : Reading first second c w' := by
  obtain ⟨htaken, hpassed⟩ := counts
  cases h with
  | arriving request taken passed hmessage header =>
      exact .arriving request (htaken.trans taken) (hpassed.trans passed) (message.trans hmessage)
        (header.within flows)
  | cut request taken passed hmessage =>
      exact .cut request (htaken.trans taken) (hpassed.trans passed) (message.trans hmessage)
  | judged taken passed hmessage header =>
      exact .judged (htaken.trans taken) (passed.imp hpassed.trans hpassed.trans)
        (message.trans hmessage) (header.within flows)

/-- The bytes only grow. -/
theorem WireStep.bytes {pol : Policy} {a : Act} (hstep : WireStep pol w a w') (c : UInt64) :
    w.bytes c <+: w'.bytes c := by
  cases hstep with
  | @receive socket bs live =>
      dsimp only [Wire.receive]
      rcases eq_or_ne c socket with rfl | hne
      · rw [Function.update_self]
        exact List.prefix_append _ _
      · rw [Function.update_of_ne hne]
  | _ => exact List.prefix_refl _

/-- The verdict on the first request takes it, or its client has lost its
set. -/
theorem Reading.verdict {pol : Policy} {rules : BpfMap Nat DecisionRule}
    (installed : populateDecisionRules rules = some pol.decisionRules)
    (hs : Settled w.drain.router) (h : Reading first second c w) (pos : 0 < w.message c)
    {slot : Nat} (attached : w.drain.router.sockMap slot = some c) (redirect : Nat → Bool) :
    Lost c w.drain.router ∨ Reading first second c (w.verdict pol redirect c) := by
  cases h with
  | arriving request taken passed message header => omega
  | judged taken passed message header => omega
  | cut request taken passed message =>
      -- without a client's route the socket is no longer that of a set in use
      cases hroute : w.drain.router.world.routes c with
      | none => exact .inl (hs.lost_of_unrouted attached hroute)
      | some entry =>
          cases hbackend : entry.backend with
          | true => exact .inl (hs.lost_of_backend hroute hbackend)
          | false =>
              refine .inr (.judged ?_ ?_ (Function.update_self ..) fun flow hflow => ?_)
              · dsimp only [Wire.verdict, Drain.verdict]
                rw [w.drain.stream_self, taken, message, Nat.zero_add]
              · dsimp only [Wire.verdict, Drain.verdict]
                rw [w.drain.stream_self, passed, message, Nat.zero_add]
                split_ifs
                · exact .inr rfl
                · exact .inl rfl
              · have hnone := verdict_flow installed hroute hbackend redirect (w.message c)
                exact absurd (hnone.symm.trans hflow) (Option.some_ne_none flow).symm

variable {pol : Policy} (hnone : NoRequest second)

include hnone

/-- A parser run on a client cuts nothing but its first request. -/
theorem Reading.parse (h : Reading first second c w) (within : w.bytes c <+: first ++ second)
    (idle : w.message c = 0) (hc : IsClient w.drain.router.world c) (n : Nat) :
    Reading first second c (w.parse pol c n) := by
  -- the bytes received so far are a prefix, and so is what the parser sees
  have hbytes := List.prefix_iff_eq_take.mp within
  have hle := within.length_le
  rw [List.length_append] at hle
  generalize (w.bytes c).length = len at hbytes hle
  cases h with
  | arriving request taken passed message header =>
      obtain ⟨headerLen, hfirst⟩ := request
      have hskb : (w.unread c).take n = (first ++ second).take (min n len) := by
        rw [Wire.unread, taken, List.drop_zero, hbytes, List.take_take]
      have hcall := @HeaderOf.call pol _ _ _ _ _ header hfirst hc (min n len)
      split_ifs at hcall
      · refine .arriving ⟨headerLen, hfirst⟩ taken passed ?_ ?_ <;> dsimp only [Wire.parse] <;>
          rw [hskb]
        · rw [Function.update_self, hcall]
        · exact header.after hc _
      · refine .cut ⟨headerLen, hfirst⟩ taken passed ?_
        dsimp only [Wire.parse]
        rw [hskb, Function.update_self, hcall]
  | cut request taken passed message =>
      obtain ⟨headerLen, hfirst⟩ := request
      have hpos := hfirst.pos.trans_le hfirst.covered
      omega
  | judged taken passed message header =>
      have hskb : (w.unread c).take n = second.take (min n (len - first.length)) := by
        rw [Wire.unread, taken, hbytes, List.drop_take, List.drop_left, List.take_take]
      refine .judged taken passed ?_ ?_ <;> dsimp only [Wire.parse] <;> rw [hskb]
      · rw [Function.update_self]
        exact header.call_none hnone hc (by omega)
      · exact header.after hc _

/-- **The act lemma**: as long as nothing behind the first request is one, that
request is followed, or its client has lost its set. -/
theorem Reading.step {rules : BpfMap Nat DecisionRule}
    (installed : populateDecisionRules rules = some pol.decisionRules) (hw : Sound w) {a : Act}
    (within : w.bytes c <+: first ++ second) (h : Reading first second c w)
    (hstep : WireStep pol w a w') : Lost c w'.drain.router ∨ Reading first second c w' := by
  have hs := hw.flowing.settled
  cases hstep with
  | @receive socket bs live =>
      refine .inr (h.congr ?_ rfl fun _ hflow => hflow)
      dsimp only [Wire.receive, Drain.arrive]
      rcases eq_or_ne c socket with rfl | hne
      · rw [w.drain.stream_self]
        exact ⟨rfl, rfl⟩
      · rw [w.drain.stream_of_ne _ hne]
        exact ⟨rfl, rfl⟩
  | @parse socket slot n idle attached =>
      rcases eq_or_ne c socket with rfl | hne
      · by_cases hc : IsClient w.drain.router.world c
        · exact .inr (h.parse hnone within idle hc n)
        · obtain ⟨entry, hroute, hbackend⟩ := Option.map_eq_some_iff.mp (not_not.mp hc)
          have hlost := hs.lost_of_backend hroute hbackend
          exact .inl ⟨hlost.nonzero, hlost.used, hlost.kept⟩
      · refine .inr (h.congr ⟨rfl, rfl⟩ (Function.update_of_ne hne ..) fun flow hflow => ?_)
        exact ((parser_others pol _).flows c hne).symm.trans hflow
  | @verdict socket slot redirect pos whole attached occupied =>
      rcases eq_or_ne c socket with rfl | hne
      · refine (h.verdict installed hs pos attached redirect).imp (fun hlost => ?_) id
        exact ⟨hlost.nonzero, hlost.used, hlost.kept⟩
      · refine .inr (h.congr ?_ (Function.update_of_ne hne ..) fun flow hflow => ?_)
        · dsimp only [Wire.verdict, Drain.verdict]
          rw [w.drain.stream_of_ne _ hne]
          exact ⟨rfl, rfl⟩
        · dsimp only [Wire.verdict, Drain.verdict] at hflow
          rcases verdict_flows pol w.drain.router.world redirect socket (w.message socket) with
            heq | heq <;> rw [heq] at hflow
          · exact hflow
          · exact BpfMap.delete_some hflow
  | move other step =>
      exact .inr (h.congr (step.counts other c).2 rfl (step.flows hs other c))

end Reading

/-! ## The turn of the timer -/

/-- The turn of the timer is on a set in use whose backends it has shut
down. -/
def Turned (d : Drain) : Prop :=
  ∀ t, d.turn = some t → (d.router.set t.set).allocated = true ∧
    (d.router.set t.set).backendWritesShutdown = true

theorem notePeerClosed_allocated (i : SetIndex) (s : Router) :
    ((notePeerClosed i s).set i).allocated = (s.set i).allocated := by
  rw [notePeerClosed]
  split_ifs
  · rfl
  · let f : ConnectionSet → ConnectionSet := fun set => { set with peerWriteClosed := true }
    have hset := congrArg ConnectionSet.allocated (modify_set_self s i f)
    exact hset

theorem beginDrain_shut (i : SetIndex) (s : Router) :
    ((beginDrain i s).set i).allocated = (s.set i).allocated ∧
      ((beginDrain i s).set i).backendWritesShutdown = true := by
  rw [beginDrain]
  split_ifs with hshut
  · exact ⟨rfl, hshut⟩
  · rw [shutdownBackendWrites, modify_set_self]
    exact ⟨rfl, rfl⟩

theorem Turned.step {pol : Policy} {d d' : Drain} {m : Move} (hs : Settled d.router)
    (h : Turned d) (hstep : DrainStep pol d m d') : Turned d' := by
  cases hstep with
  | traffic he step =>
      cases step with
      | parse skb attached => exact h
      | unlink slot => exact h
      | age grams kept => exact h
      | _ => exact he.elim
  | verdict pos room step => exact h
  | control idle he step =>
      exact fun t ht => absurd (idle.symm.trans ht) (Option.some_ne_none t).symm
  | @look i calls info lifecycle idle active drains =>
      rintro t ⟨rfl⟩
      obtain ⟨hallocated, hshut⟩ := beginDrain_shut i (notePeerClosed i d.router)
      refine ⟨?_, hshut⟩
      dsimp only
      rw [hallocated, notePeerClosed_allocated]
      exact hs.accounted.pool.active_allocated i active
  | @poll t m ms turn next report =>
      rintro t' ⟨rfl⟩
      exact h t turn
  | @read t m ms turn polled next report =>
      rintro t' ⟨rfl⟩
      exact h t turn
  | settle turn polled read => exact fun t ht => by cases ht
  | _ => exact h

/-- The backends of set `i` are shut down, or the timer is about to reap it as
drained. -/
inductive Ending (d : Drain) (i : SetIndex) : Prop where
  | shut (used : (d.router.set i).allocated = true)
      (shut : (d.router.set i).backendWritesShutdown = true)
  | reap {t : Turn} (turn : d.turn = some t) (set : t.set = i) (reaps : t.reaps d.router = true)

/-- Then a request of its client was passed on. -/
theorem Ending.passed {d : Drain} {i : SetIndex} (h : Ending d i) (hd : Flowing d)
    (hturned : Turned d) : (d.router.set i).allocated = true ∧ 0 < (d.member i 0).passed := by
  obtain ⟨used, shut⟩ : (d.router.set i).allocated = true ∧
      (d.router.set i).backendWritesShutdown = true := by
    cases h with
    | shut used shut => exact ⟨used, shut⟩
    | reap turn set reaps => exact set ▸ hturned _ turn
  exact ⟨used, hd.credited.shutdown i ((hd.settled.complete i used).cookie 0) shut⟩

/-! ## Runs -/

/-- The bytes do not begin with two complete requests. -/
def SendsOne (bytes : List UInt8) : Prop :=
  ∀ first second rest, IsRequest first → IsRequest second → bytes ≠ first ++ (second ++ rest)

/-- Every complete request that a socket has received was passed on. -/
def Served (w : Wire) (c : UInt64) : Prop :=
  ∀ (requests : List (List UInt8)) (rest : List UInt8),
    (∀ request ∈ requests, IsRequest request) → w.bytes c = requests.flatten ++ rest →
    requests.flatten.length ≤ (w.drain.streams c).passed

/-- There is no other request than the first. -/
theorem served_of_first {w : Wire} {c : UInt64} {first second : List UInt8}
    (hfirst : IsRequest first) (one : SendsOne (w.bytes c)) (hbytes : w.bytes c = first ++ second)
    (passed : (w.drain.streams c).passed = first.length) : Served w c := by
  intro requests rest hrequests hrest
  -- two requests at the front are excluded, one is the first
  match requests, hrequests with
  | [], _ => exact Nat.zero_le _
  | [request], hrequests =>
      obtain ⟨n, hfirst⟩ := hfirst
      obtain ⟨m, hrequest⟩ := hrequests request List.mem_cons_self
      rw [List.flatten_singleton] at hrest ⊢
      rw [passed, hrequest.length_unique hfirst (hrest.symm.trans hbytes)]
  | request :: next :: others, hrequests =>
      refine absurd ?_ (one request next (others.flatten ++ rest)
        (hrequests request List.mem_cons_self)
        (hrequests next (List.mem_cons_of_mem _ List.mem_cons_self)))
      rw [hrest, List.flatten_cons, List.flatten_cons, List.append_assoc, List.append_assoc]

section Runs
variable {pol : Policy} {grams : QueryGrams} {acts : List Act} {w : Wire}

/-- A client that has sent `first` and `second`, of which nothing behind the
first is a request. -/
theorem reading_run {rules : BpfMap Nat DecisionRule}
    (installed : populateDecisionRules rules = some pol.decisionRules)
    (run : Run (WireStep pol) (Wire.initial grams) acts w) {c : UInt64} {first second : List UInt8}
    (hbytes : w.bytes c <+: first ++ second) (hnone : NoRequest second)
    (hstart : first = [] ∨ IsRequest first) :
    Lost c w.drain.router ∨ Reading first second c w := by
  have hlast := run.invariant (I := fun w => Sound w ∧
      (w.bytes c <+: first ++ second → Lost c w.drain.router ∨ Reading first second c w))
    ⟨⟨initial_flowing grams, fun _ => rfl⟩, fun _ => .inr ?_⟩
    fun w a w' h hstep => by
      obtain ⟨m, hmove⟩ := hstep.drain h.1
      have hs := h.1.flowing.settled
      refine ⟨h.1.step hstep, fun within => ?_⟩
      have hearlier := (hstep.bytes c).trans within
      rcases h.2 hearlier with hlost | hreading
      · exact .inl (hlost.step lasting_lost hs hmove)
      · exact hreading.step hnone installed h.1 hearlier hstep
  · exact hlast.2 hbytes
  · have hheader : ∀ stream, HeaderOf stream c (Wire.initial grams).drain.router.world :=
      fun _ _ hflow => by cases hflow
    rcases hstart with rfl | hfirst
    · exact .judged rfl (.inl rfl) rfl (hheader second)
    · exact .arriving hfirst rfl rfl rfl (hheader _)

/-- **A half-close cuts off no request of a client that has sent one**: in
every state of every run in which the backends of a set are shut down or the
set is about to be reaped as drained, every complete request that its client
has sent was passed to a backend. -/
theorem half_close_serves {rules : BpfMap Nat DecisionRule}
    (installed : populateDecisionRules rules = some pol.decisionRules)
    (run : Run (WireStep pol) (Wire.initial grams) acts w) {i : SetIndex}
    (ending : Ending w.drain i) (one : SendsOne (w.bytes ((w.drain.router.set i).cookies 0))) :
    Served w ((w.drain.router.set i).cookies 0) := by
  have hlast := run.invariant (I := fun w => Sound w ∧ Turned w.drain)
    ⟨⟨initial_flowing grams, fun _ => rfl⟩, fun _ ht => by cases ht⟩
    fun w a w' h hstep => by
      obtain ⟨m, hmove⟩ := hstep.drain h.1
      exact ⟨h.1.step hstep, h.2.step h.1.flowing.settled hmove⟩
  obtain ⟨used, hpassed⟩ := ending.passed hlast.1.flowing hlast.2
  rw [Drain.member] at hpassed
  generalize hc : (w.drain.router.set i).cookies 0 = c at one hpassed ⊢
  have hkept : ¬ Lost c w.drain.router := fun hlost =>
    absurd ((hlost.kept i hc).symm.trans used) Bool.false_ne_true
  -- either no request was received at all, or exactly one
  by_cases hnone : NoRequest (w.bytes c)
  · have hread : Lost c w.drain.router ∨ Reading [] (w.bytes c) c w :=
      reading_run installed run (List.prefix_refl _) hnone (.inl rfl)
    cases hread.resolve_left hkept with
    | judged taken passed message header =>
        rcases passed with hzero | hzero <;> exact absurd hzero hpassed.ne'
    | _ => omega
  · simp only [NoRequest, not_forall, not_not] at hnone
    obtain ⟨first, second, hfirst, hbytes⟩ := hnone
    have hsecond : NoRequest second := fun next rest hnext hrest =>
      one first next rest hfirst hnext (hrest ▸ hbytes)
    have hread : Lost c w.drain.router ∨ Reading first second c w :=
      reading_run installed run (hbytes.symm ▸ List.prefix_refl _) hsecond (.inr hfirst)
    refine served_of_first hfirst one hbytes ?_
    cases hread.resolve_left hkept with
    | judged taken passed message header => exact passed.resolve_left hpassed.ne'
    | _ => omega

end Runs

/-! ## Two requests -/

/-- Bytes arrive, the parser sees all that is unread, and what it cuts is
judged. -/
def Wire.ask (pol : Policy) (w : Wire) (socket : UInt64) (bytes : List UInt8)
    (redirect : Nat → Bool) : Wire :=
  ((w.receive socket bytes).parse pol socket bytes.length).verdict pol redirect socket

/-- A FIN arrives. -/
def Wire.close (w : Wire) (socket : UInt64) : Wire := { w with drain := w.drain.close socket }

/-- The timer looks at a set. -/
def Wire.look (w : Wire) (i : SetIndex) (calls : CheckCalls) (info : TcpInfo)
    (lifecycle : LifecycleState) : Wire :=
  { w with
    drain := { w.drain with
      router := beginDrain i (notePeerClosed i w.drain.router)
      turn := some ⟨i, calls, info, lifecycle, backends, backends⟩ } }

section Steps
variable {pol : Policy} {w : Wire} {socket : UInt64} {bytes : List UInt8} {slot : Nat}

theorem Wire.ask_run (redirect : Nat → Bool)
    (live : (w.drain.streams socket).ended = false) (idle : w.message socket = 0)
    (attached : w.drain.router.sockMap slot = some socket)
    (occupied : ∀ target, redirect target = true → (w.drain.router.sockMap target).isSome = true)
    (pos : 0 < ((w.receive socket bytes).parse pol socket bytes.length).message socket)
    (whole : ((w.receive socket bytes).parse pol socket bytes.length).message socket ≤
      (((w.receive socket bytes).parse pol socket bytes.length).unread socket).length) :
    ∃ acts, Run (WireStep pol) w acts (w.ask pol socket bytes redirect) := by
  have hparse : WireStep pol (w.receive socket bytes) (.parse socket bytes.length)
      ((w.receive socket bytes).parse pol socket bytes.length) := .parse _ idle attached
  have hverdict : WireStep pol ((w.receive socket bytes).parse pol socket bytes.length)
      (.verdict socket redirect) (w.ask pol socket bytes redirect) :=
    .verdict pos whole attached occupied
  exact ⟨_, ((Run.single (.receive bytes live)).snoc hparse).snoc hverdict⟩

theorem Wire.close_step (w : Wire) (socket : UInt64) :
    WireStep pol w (.move (.fin socket)) (w.close socket) :=
  @WireStep.move pol w (.fin socket) _ trivial (.fin socket)

theorem Wire.look_step {i : SetIndex} {calls : CheckCalls} {info : TcpInfo}
    {lifecycle : LifecycleState} (idle : w.drain.turn = none)
    (active : (w.drain.router.set i).active = true)
    (drains : Drains calls i w.drain.router info lifecycle) :
    WireStep pol w (.move (.look i)) (w.look i calls info lifecycle) :=
  @WireStep.move pol w (.look i) _ trivial (.look idle active drains)

end Steps

/-- One accepted client. -/
def acceptedWire : Wire := { Wire.initial idleWorld.grams with drain := acceptedDrain }

/-- It sends `bytes`, what the parser cuts of them is passed to a backend, and
it closes its side. -/
def closedWire (bytes : List UInt8) : Wire :=
  (acceptedWire.ask installedPolicy 100 bytes (· == 3)).close 100

/-- What the timer is told. -/
def closedCalls (bytes : List UInt8) : CheckCalls :=
  { drainedCalls with clientInfo := some ⟨bytes.length + 1, 0, 0⟩ }

/-- The timer looks at the client. -/
def lookedWire (bytes : List UInt8) : Wire :=
  (closedWire bytes).look firstSet (closedCalls bytes) ⟨bytes.length + 1, 0, 0⟩
    ⟨0, 0, true, false, false⟩

theorem closed_run {bytes : List UInt8}
    (pos : 0 < ((acceptedWire.receive 100 bytes).parse installedPolicy 100
      bytes.length).message 100)
    (whole : ((acceptedWire.receive 100 bytes).parse installedPolicy 100
      bytes.length).message 100 ≤ (((acceptedWire.receive 100 bytes).parse installedPolicy 100
        bytes.length).unread 100).length) :
    ∃ acts, Run (WireStep installedPolicy) (Wire.initial idleWorld.grams) acts
      (closedWire bytes) := by
  have haccept : WireStep installedPolicy (Wire.initial idleWorld.grams)
      (.move (.event (.accept (10, 100) openCalls))) acceptedWire :=
    @WireStep.move installedPolicy (Wire.initial idleWorld.grams) _ _ trivial accepted_step
  have hclient : acceptedWire.drain.router.sockMap 0 = some 100 := by decide +kernel
  have hbackend : (acceptedWire.drain.router.sockMap 3).isSome = true := by decide +kernel
  obtain ⟨acts, run⟩ := Wire.ask_run (· == 3) rfl rfl hclient
    (occupied_of_eq hbackend) pos whole
  exact ⟨_, ((Run.single haccept).append run).snoc (Wire.close_step _ 100)⟩

theorem looked_step {bytes : List UInt8}
    (idle : (closedWire bytes).drain.turn = none)
    (active : ((closedWire bytes).drain.router.set firstSet).active = true)
    (found : lookupLifecycle (closedCalls bytes) firstSet
      (notePeerClosed firstSet (closedWire bytes).drain.router) =
        some ⟨0, 0, true, false, false⟩) (sent : bytes ≠ []) :
    WireStep installedPolicy (closedWire bytes) (.move (.look firstSet)) (lookedWire bytes) := by
  refine Wire.look_step idle active ⟨rfl, rfl, rfl, ?_, found, rfl⟩
  have hpos := List.length_pos_of_ne_nil sent
  rw [TcpInfo.requestBytes, if_pos (Nat.succ_pos _)]
  exact hpos.ne'

theorem ping_isRequest : IsRequest pingRequest := ⟨5, by constructor <;> decide⟩

/-- A request, and the first byte of another one. -/
def startedBytes : List UInt8 := pingRequest ++ [80]

theorem startedBytes_one : SendsOne startedBytes := by
  rintro first second rest ⟨n, hfirst⟩ ⟨m, hsecond⟩ hbytes
  obtain ⟨k, hping⟩ := ping_isRequest
  have hlen := hping.length_unique hfirst hbytes
  -- one byte is left for the second, which ends its header with four
  have hfour : 4 ≤ (second.take m).length := hsecond.ends.length_le
  have hle : (second.take m).length ≤ second.length := List.length_take_le' m second
  have htotal := congrArg List.length hbytes
  simp only [startedBytes, List.length_append, List.length_singleton] at htotal
  omega

/-- The backends are shut down behind one request and the beginning of
another: the request was passed on. -/
theorem half_close_serves_one :
    ((lookedWire startedBytes).drain.router.set firstSet).backendWritesShutdown = true ∧
      Served (lookedWire startedBytes) 100 := by
  have hclient : ((lookedWire startedBytes).drain.router.set firstSet).cookies 0 = 100 := by
    decide +kernel
  have hbytes : (lookedWire startedBytes).bytes 100 = startedBytes := by decide +kernel
  have hshut : ((lookedWire startedBytes).drain.router.set firstSet).backendWritesShutdown =
      true := by decide +kernel
  obtain ⟨acts, run⟩ := @closed_run startedBytes (by decide +kernel) (by decide +kernel)
  have hlook := @looked_step startedBytes rfl (by decide +kernel) (by decide +kernel) (by decide)
  have hinstalled : populateDecisionRules (fun _ => none) =
      some installedPolicy.decisionRules := rfl
  have hserved := half_close_serves hinstalled (run.snoc hlook) (.shut (by decide +kernel) hshut)
  rw [hclient, hbytes] at hserved
  exact ⟨hshut, hserved startedBytes_one⟩

/-- Of two requests the first is passed on, and the backends are shut down
before the second is. -/
theorem half_close_fails :
    (∃ acts, Run (WireStep installedPolicy) (Wire.initial idleWorld.grams) acts
      (closedWire (pingRequest ++ pingRequest))) ∧
    WireStep installedPolicy (closedWire (pingRequest ++ pingRequest)) (.move (.look firstSet))
      (lookedWire (pingRequest ++ pingRequest)) ∧
    ((closedWire (pingRequest ++ pingRequest)).drain.router.set
      firstSet).backendWritesShutdown = false ∧
    ((lookedWire (pingRequest ++ pingRequest)).drain.router.set
      firstSet).backendWritesShutdown = true ∧
    ((closedWire (pingRequest ++ pingRequest)).drain.router.set firstSet).cookies 0 = 100 ∧
    ¬ Served (closedWire (pingRequest ++ pingRequest)) 100 := by
  refine ⟨closed_run (by decide +kernel) (by decide +kernel),
    looked_step rfl (by decide +kernel) (by decide +kernel) (by decide), by decide +kernel,
    by decide +kernel, by decide +kernel, fun hserved => ?_⟩
  have hbytes : (closedWire (pingRequest ++ pingRequest)).bytes 100 =
      [pingRequest, pingRequest].flatten ++ [] := by decide +kernel
  have hpassed := hserved [pingRequest, pingRequest] [] (by simp [ping_isRequest]) hbytes
  have hfirst : ((closedWire (pingRequest ++ pingRequest)).drain.streams 100).passed = 5 := by
    decide +kernel
  rw [hfirst] at hpassed
  exact absurd hpassed (by decide)

end Xsr.Connection
