import Mathlib
import Xsr.Lib.Run
import Xsr.Connection.ConnectionSet

/-!
# Lifecycle — the timer, the start and the end, and what runs in between

`poll_connection_lifecycle`, `initialize_connection_manager` and
`destroy_connection_manager` of `sk_router.c`, and the steps of the whole
system: the control process takes one event at a time while the two programs
run on any socket that is in `sk_sock_map`.
-/

namespace Xsr.Connection

open Kernel Lib

/-! ## `poll_connection_lifecycle` -/

/-- The `revents` bits the timer looks at. -/
structure Revents where
  rdhup : Bool
  hup : Bool
  err : Bool
  nval : Bool

/-- `revents & (POLLHUP | POLLERR | POLLNVAL)` -/
def Revents.broken (r : Revents) : Bool := r.hup || r.err || r.nval

/-- `revents & (POLLRDHUP | POLLHUP | POLLERR | POLLNVAL)` -/
def Revents.any (r : Revents) : Bool := r.rdhup || r.broken

/-- The fields of `struct tcp_info` read for the client. -/
structure TcpInfo where
  bytesReceived : Nat
  unacked : Nat
  notsentBytes : Nat

/-- The kernel's answers about one polled set. `backendRevents` is `none`
when the inner `poll` fails. -/
structure CheckCalls where
  revents : Revents
  clientInfo : Option TcpInfo
  lookupFault : Bool
  backendRevents : Option (Member → Revents)
  bytesReceived : Member → Option Nat
  reap : ReapCalls

/-- `a - b` on `__u64`. -/
def subU64 (a b : Nat) : Nat := (a + 18446744073709551616 - b) % 18446744073709551616

/-- `shutdown_backend_writes`; a failing `shutdown` only prints a warning. -/
def shutdownBackendWrites (i : SetIndex) (s : Router) : Router :=
  s.modify i fun set => { set with backendWritesShutdown := true }

/-- `backend_responses_complete`: the number of backends that sent a FIN,
once every backend has ended. -/
def backendResponsesComplete (revents : Option (Member → Revents)) : Option Nat :=
  revents.bind fun r => backends.foldlM
    (fun fins m => if !(r m).any then none else some (if (r m).rdhup then fins + 1 else fins)) 0

/-- `tcpi_bytes_received` without the FIN. -/
def TcpInfo.requestBytes (info : TcpInfo) : Nat :=
  if 0 < info.bytesReceived then info.bytesReceived - 1 else 0

/-- The test that all responses are on their way to the client. -/
def drained (calls : CheckCalls) (info : TcpInfo) (set : ConnectionSet)
    (lifecycle : LifecycleState) : Bool :=
  match backendResponsesComplete calls.backendRevents, backendBytesReceived calls.bytesReceived with
  | some fins, some received =>
      u64 (set.initialBackendBytesReceived + fins) ≤ received &&
        subU64 (subU64 received set.initialBackendBytesReceived) fins
          ≤ lifecycle.responseBytesForwarded &&
        info.unacked == 0 && info.notsentBytes == 0
  | _, _ => false

/-- `if (!set->backend_writes_shutdown) shutdown_backend_writes(set)` -/
def beginDrain (i : SetIndex) (s : Router) : Router :=
  if (s.set i).backendWritesShutdown then s else shutdownBackendWrites i s

/-- `poll_connection_lifecycle` past the request test: the backends are shut
down, and the set is reaped when it was found drained twice in a row. -/
def drainSet (calls : CheckCalls) (info : TcpInfo) (lifecycle : LifecycleState) (i : SetIndex)
    (s : Router) : Router :=
  let s := beginDrain i s
  if drained calls info (s.set i) lifecycle then
    if (s.set i).drainConfirmed then (reapConnectionSet calls.reap i s).1
    else s.modify i fun set => { set with drainConfirmed := true }
  else s.modify i fun set => { set with drainConfirmed := false }

/-- `peer_write_closed` and `half_close_total`. -/
def notePeerClosed (i : SetIndex) (s : Router) : Router :=
  if (s.set i).peerWriteClosed then s
  else
    let s := s.modify i fun set => { set with peerWriteClosed := true }
    { s with manager := { s.manager with halfCloseTotal := s.manager.halfCloseTotal + 1 } }

/-- The lookup of the client's lifecycle entry, which can fail. -/
def lookupLifecycle (calls : CheckCalls) (i : SetIndex) (s : Router) : Option LifecycleState :=
  if calls.lookupFault then none else s.world.lifecycle ((s.set i).cookies 0)

/-- The body of the loop of `poll_connection_lifecycle`, for a set whose
`revents` are not empty. -/
def checkSet (calls : CheckCalls) (i : SetIndex) (s : Router) : Router :=
  if calls.revents.broken then (reapConnectionSet calls.reap i s).1
  else if !calls.revents.rdhup then s
  else
    let s := notePeerClosed i s
    match calls.clientInfo with
    | none => (reapConnectionSet calls.reap i s).1
    | some info =>
        if info.requestBytes = 0 then (reapConnectionSet calls.reap i s).1
        else match lookupLifecycle calls i s with
          | none => (reapConnectionSet calls.reap i s).1
          | some lifecycle =>
              -- set by the first request that was redirected, and never cleared
              if lifecycle.requestForwarded then drainSet calls info lifecycle i s
              else if lifecycle.redirectFailed then (reapConnectionSet calls.reap i s).1
              else if lifecycle.requestIncomplete ∧
                  info.requestBytes ≤ lifecycle.requestBytesProcessed then
                (reapConnectionSet calls.reap i s).1
              else s

/-- The kernel's answers to one timer tick: what `read` and `poll` return,
and the answers about each set. -/
structure PollCalls where
  expirations : Option Nat
  ready : Int
  check : SetIndex → CheckCalls

/-- The loop over the polled sets; `ready` counts down. -/
def pollLoop (calls : PollCalls) : List SetIndex → Int → Router → Router
  | [], _, s => s
  | i :: is, ready, s =>
      if ready ≤ 0 then s
      else if (calls.check i).revents.any then
        pollLoop calls is (ready - 1) (checkSet (calls.check i) i s)
      else pollLoop calls is ready s

/-- The sets the timer polls. -/
def activeSets (s : Router) : List SetIndex :=
  (List.finRange maxConnectionSets).filter fun i => (s.set i).active

/-- `poll_connection_lifecycle` -/
def pollConnectionLifecycle (calls : PollCalls) (s : Router) : Router :=
  match calls.expirations with
  | none => s
  | some n =>
      let m := { s.manager with lifecyclePollTotal := s.manager.lifecyclePollTotal + n }
      let s := { s with manager := m }
      if calls.ready < 0 then s else pollLoop calls (activeSets s) calls.ready s

/-! ## Start and end -/

/-- A set as `initialize_connection_manager` leaves it. -/
def ConnectionSet.initial (i : SetIndex) : ConnectionSet where
  fds := fun _ => none
  slots := fun m => i * socksPerConnection + m
  cookies := fun _ => 0
  initialBackendBytesReceived := 0
  allocated := false
  active := false
  peerWriteClosed := false
  backendWritesShutdown := false
  drainConfirmed := false
  lifecycleInstalled := false
  sockmapInstalled := fun _ => false
  routeInstalled := fun _ => false

/-- The manager `initialize_connection_manager` returns when it returns 0. -/
def Manager.initial : Manager where
  sets := .initial
  freeSets := fun i => maxConnectionSets - i - 1
  freeCount := maxConnectionSets
  activeCount := 0
  quarantinedCount := 0
  sockmapEntryCount := 0
  acceptedTotal := 0
  reapedTotal := 0
  halfCloseTotal := 0
  lifecyclePollTotal := 0
  retired := fun _ => false
  fault := false

/-- `initialize_connection_manager`, over maps that were just loaded. -/
def initializeConnectionManager (grams : QueryGrams) : Router where
  manager := .initial
  world := ⟨fun _ => none, fun _ => none, fun _ => none, fun _ => none, grams⟩
  sockMap := fun _ => none
  descriptors := fun _ => none
  closed := []
  used := []
  points := []

/-- The loop of `destroy_connection_manager`. -/
def destroyConnectionManager (calls : SetIndex → ReapCalls) (s : Router) : Router :=
  (List.finRange maxConnectionSets).foldl
    (fun s i => if (s.set i).allocated then (reapConnectionSet (calls i) i s).1 else s) s

/-! ## The system -/

/-- The sockets a setup may open: the accepted client and the backends. -/
def AddCalls.sockets (calls : AddCalls) (client : Nat × UInt64) : Member → Option (Nat × UInt64) :=
  Function.update calls.socket 0 (some client)

/-- New sockets come with descriptors that are not open and with cookies
that were never used. -/
structure Fresh (s : Router) (sockets : Member → Option (Nat × UInt64)) : Prop where
  cookie : ∀ m fd socket, sockets m = some (fd, socket) → socket ≠ 0 ∧ socket ∉ s.used
  descriptor : ∀ m fd socket, sockets m = some (fd, socket) → s.descriptors fd = none
  apart : ∀ m k fd socket fd' socket', m ≠ k → sockets m = some (fd, socket) →
    sockets k = some (fd', socket') → fd ≠ fd' ∧ socket ≠ socket'

/-- What can happen next. `check` is one turn of the timer's loop on its
own. -/
inductive Event where
  | accept (client : Nat × UInt64) (calls : AddCalls)
  | reap (i : SetIndex) (calls : ReapCalls)
  | check (i : SetIndex) (calls : CheckCalls)
  | poll (calls : PollCalls)
  | destroy (calls : SetIndex → ReapCalls)
  | parse (cookie : UInt64) (skb : List UInt8)
  | verdict (cookie : UInt64) (skbLen : Nat) (redirect : Nat → Bool)
  | unlink (slot : Nat)
  | age (flows : BpfMap UInt64 HttpFlowState) (grams : QueryGrams)

/-- One event. The programs run on sockets that are in `sk_sock_map`, and a
redirect passes only to a slot that is occupied; the kernel may take a socket
out of its slot, and the LRU maps may lose entries. -/
inductive Step (pol : Policy) (s : Router) : Event → Router → Prop where
  | accept {client : Nat × UInt64} {calls : AddCalls} (fresh : Fresh s (calls.sockets client)) :
      Step pol s (.accept client calls)
        (addConnectionSet calls client.1 (s.openSocket client.1 client.2)).1
  | reap (i : SetIndex) (calls : ReapCalls) :
      Step pol s (.reap i calls) (reapConnectionSet calls i s).1
  | check {i : SetIndex} (calls : CheckCalls) (active : (s.set i).active = true) :
      Step pol s (.check i calls) (checkSet calls i s)
  | poll (calls : PollCalls) : Step pol s (.poll calls) (pollConnectionLifecycle calls s)
  | destroy (calls : SetIndex → ReapCalls) :
      Step pol s (.destroy calls) (destroyConnectionManager calls s)
  | parse {cookie : UInt64} {slot : Nat} (skb : List UInt8)
      (attached : s.sockMap slot = some cookie) :
      Step pol s (.parse cookie skb) { s with world := (skRouterParser pol s.world cookie skb).1 }
  | verdict {cookie : UInt64} {slot : Nat} (skbLen : Nat) {redirect : Nat → Bool}
      (attached : s.sockMap slot = some cookie)
      (occupied : ∀ target, redirect target = true → (s.sockMap target).isSome = true) :
      Step pol s (.verdict cookie skbLen redirect)
        { s with world := (skRouterVerdict pol s.world redirect cookie skbLen).1 }
  | unlink (slot : Nat) : Step pol s (.unlink slot) { s with sockMap := s.sockMap.delete slot }
  | age {flows : BpfMap UInt64 HttpFlowState} (grams : QueryGrams)
      (kept : ∀ cookie flow, flows cookie = some flow → s.world.flows cookie = some flow) :
      Step pol s (.age flows grams) { s with world := { s.world with flows, grams } }

/-! ## A kernel that refuses nothing -/

/-- No deletion fails and a close empties the slots. -/
def cleanReap : ReapCalls :=
  let faults : PassFaults := ⟨fun _ => false, fun _ => false, false, false, false⟩
  ⟨faults, faults, fun _ => true⟩

/-- The client comes on descriptor 10 and the backends on 11 to 15. -/
def openCalls : AddCalls where
  socket := fun m => some (10 + m.val, UInt64.ofNat (100 + m.val))
  cookieFault := fun _ => false
  bytesReceived := fun _ => some 0
  lifecycleFault := false
  routeFault := fun _ => false
  slotFault := fun _ => false
  reap := cleanReap

theorem openCalls_fresh (grams : QueryGrams) :
    Fresh (initializeConnectionManager grams) (openCalls.sockets (10, 100)) := by
  have hsockets : openCalls.sockets (10, 100) =
      fun m => some (10 + m.val, UInt64.ofNat (100 + m.val)) := by
    funext m
    revert m
    decide
  have hcookie : ∀ m : Member, UInt64.ofNat (100 + m.val) ≠ 0 := by decide
  have hapart : ∀ m k : Member, m ≠ k →
      10 + m.val ≠ 10 + k.val ∧ UInt64.ofNat (100 + m.val) ≠ UInt64.ofNat (100 + k.val) := by
    decide
  rw [hsockets]
  constructor
  · intro m fd socket h
    obtain ⟨-, rfl⟩ := Prod.mk.inj (Option.some.inj h)
    exact ⟨hcookie m, List.not_mem_nil⟩
  · exact fun _ _ _ _ => rfl
  · intro m k fd socket fd' socket' hne h h'
    obtain ⟨rfl, rfl⟩ := Prod.mk.inj (Option.some.inj h)
    obtain ⟨rfl, rfl⟩ := Prod.mk.inj (Option.some.inj h')
    exact hapart m k hne

/-- The set of that client. -/
def firstSet : SetIndex := ⟨0, by decide⟩

/-- That client accepted. -/
def acceptedRouter (grams : QueryGrams) : Router :=
  (addConnectionSet openCalls 10 ((initializeConnectionManager grams).openSocket 10 100)).1

theorem accepted_run (pol : Policy) (grams : QueryGrams) :
    Run (Step pol) (initializeConnectionManager grams) [.accept (10, 100) openCalls]
      (acceptedRouter grams) :=
  .single (@Step.accept pol _ (10, 100) openCalls (openCalls_fresh grams))

/-! ## One refusal -/

/-- The update that puts the client into its slot fails. -/
def refusedCalls : AddCalls := { openCalls with slotFault := fun m => m == 0 }

/-- The same client with its setup refused. -/
def refusedRouter (grams : QueryGrams) : Router :=
  (addConnectionSet refusedCalls 10 ((initializeConnectionManager grams).openSocket 10 100)).1

theorem refused_step (pol : Policy) (grams : QueryGrams) :
    Step pol (initializeConnectionManager grams) (.accept (10, 100) refusedCalls)
      (refusedRouter grams) :=
  @Step.accept pol _ (10, 100) refusedCalls (openCalls_fresh grams)

/-- Neither pass can delete the route of the client. -/
def stuckReap : ReapCalls :=
  let faults := { cleanReap.first with route := fun m => m == 0 }
  ⟨faults, faults, fun _ => true⟩

end Xsr.Connection
