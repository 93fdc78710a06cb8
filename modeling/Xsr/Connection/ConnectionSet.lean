import Xsr.Control.Install
import Xsr.Lib.Program

/-!
# ConnectionSet — the slots, cookies and descriptors of one client

`struct connection_set` and `struct connection_manager` of `sk_router.c`,
with the maps and the descriptor table the control process works on. What
the kernel answers to a call is an argument: a connection can be refused, a
cookie unreadable, and every map operation can fail.

Three fields have no counterpart in the source and are never read by it:
`retired` and `fault` of the manager, and the logs of `Router`.
-/

namespace Xsr.Connection

open Kernel Lib

/-! ## The data -/

/-- `MAX_SOCK_SLOTS` -/
def maxSockSlots : Nat := 16384
/-- `SOCKS_PER_CONNECTION` -/
def socksPerConnection : Nat := 6
/-- `MAX_CONNECTION_SETS` -/
def maxConnectionSets : Nat := maxSockSlots / socksPerConnection

/-- An index of `manager->sets`. -/
abbrev SetIndex := Fin maxConnectionSets

/-- `enum connection_member`: the client is `0`, the backends follow. -/
abbrev Member := Fin 6

/-- `for (member = 0; …)` -/
def members : List Member := [0, 1, 2, 3, 4, 5]

/-- `for (member = 1; …)` -/
def backends : List Member := [1, 2, 3, 4, 5]

/-- `struct connection_set`; `none` is the descriptor `-1`. -/
structure ConnectionSet where
  fds : Member → Option Nat
  slots : Member → Nat
  cookies : Member → UInt64
  initialBackendBytesReceived : Nat
  allocated : Bool
  active : Bool
  peerWriteClosed : Bool
  backendWritesShutdown : Bool
  drainConfirmed : Bool
  lifecycleInstalled : Bool
  sockmapInstalled : Member → Bool
  routeInstalled : Member → Bool

/-- `reset_connection_set`; the slots are the set's for good. -/
def ConnectionSet.reset (set : ConnectionSet) : ConnectionSet where
  fds := fun _ => none
  slots := set.slots
  cookies := fun _ => 0
  initialBackendBytesReceived := 0
  allocated := false
  active := false
  peerWriteClosed := false
  backendWritesShutdown := false
  drainConfirmed := false
  lifecycleInstalled := false
  sockmapInstalled := fun _ => false
  routeInstalled := fun _ => false

/-- The entry `add_connection_set` installs for a member. -/
def ConnectionSet.route (set : ConnectionSet) (m : Member) : RouteEntry :=
  if m = 0 then Control.clientEntry (set.cookies 0) set.slots
  else Control.backendEntry (set.cookies 0) set.slots

/-- `struct connection_manager`, without the descriptors that stay open.
The totals, `__u64` in the source, are numbers here: a real run would have to
accept or poll 2^64 times before one wrapped. `retired` marks the sets a
failed reap has quarantined, `fault` an index outside its array or a counter
decremented at zero. -/
structure Manager where
  sets : SetIndex → ConnectionSet
  freeSets : Nat → Nat
  freeCount : Nat
  activeCount : Nat
  quarantinedCount : Nat
  sockmapEntryCount : Nat
  acceptedTotal : Nat
  reapedTotal : Nat
  halfCloseTotal : Nat
  lifecyclePollTotal : Nat
  retired : SetIndex → Bool
  fault : Bool

/-- The maps between two updates, as far as a redirect depends on them. -/
structure Point where
  sets : SetIndex → ConnectionSet
  routes : BpfMap UInt64 RouteEntry
  sockMap : BpfMap Nat UInt64

/-- The control process and the maps it shares with the two programs. A
socket is named by its cookie: `sockMap` and `descriptors` say which socket a
slot and a descriptor hold. `closed` lists the sockets in the order their
descriptors were closed, `used` the cookies given out so far, and `points` the
maps after each update made here. -/
structure Router where
  manager : Manager
  world : World
  sockMap : BpfMap Nat UInt64
  descriptors : BpfMap Nat UInt64
  closed : List UInt64
  used : List UInt64
  points : List Point

/-- `manager->sets[i]` -/
def Router.set (s : Router) (i : SetIndex) : ConnectionSet := s.manager.sets i

/-- A write through `set = &manager->sets[i]`. -/
def Manager.modify (m : Manager) (i : SetIndex) (f : ConnectionSet → ConnectionSet) : Manager :=
  { m with sets := Function.update m.sets i (f (m.sets i)) }

@[inherit_doc Manager.modify]
def Router.modify (s : Router) (i : SetIndex) (f : ConnectionSet → ConnectionSet) : Router :=
  { s with manager := s.manager.modify i f }

/-- A map was updated: the next point begins. -/
def Router.record (s : Router) : Router :=
  { s with points := s.points ++ [⟨s.manager.sets, s.world.routes, s.sockMap⟩] }

/-! ## Map operations -/

/-- The errors the deletions tell apart. -/
inductive Errno where
  | noent
  | inval
  | other
  deriving DecidableEq

section Deletion
variable {κ ν : Type} [DecidableEq κ]

/-- `bpf_map_delete_elem`: `absent` is the error for a key that is not
there, `fault` any other failure. -/
def deleteElem (fault : Bool) (absent : Errno) (m : BpfMap κ ν) (k : κ) :
    BpfMap κ ν × Option Errno :=
  if fault then (m, some .other)
  else match m k with
    | some _ => (m.delete k, none)
    | none => (m, some absent)

/-- `delete_map_key`; the flag is `return 0`. -/
def deleteMapKey (fault : Bool) (m : BpfMap κ ν) (k : κ) : BpfMap κ ν × Bool :=
  let (m, errno) := deleteElem fault .noent m k
  (m, errno == none || errno == some .noent)

/-- `delete_sockmap_slot`; the flag is `return 0`. -/
def deleteSockmapSlot (fault : Bool) (m : BpfMap κ ν) (k : κ) : BpfMap κ ν × Bool :=
  let (m, errno) := deleteElem fault .inval m k
  (m, errno == none || errno == some .inval)

end Deletion

/-! ## Descriptors -/

/-- A new socket behind a descriptor. -/
def Router.openSocket (s : Router) (fd : Nat) (socket : UInt64) : Router :=
  { s with descriptors := s.descriptors.update fd socket, used := socket :: s.used }

/-- The kernel takes a closed socket out of the slots that hold it. -/
def unlinkSocket (sockMap : BpfMap Nat UInt64) (socket : UInt64) : BpfMap Nat UInt64 :=
  fun slot => if sockMap slot = some socket then none else sockMap slot

/-- `close(fd)`; `unlinks` says whether the slots are empty when it returns. -/
def Router.close (s : Router) (fd : Nat) (unlinks : Bool) : Router :=
  match s.descriptors fd with
  | none => s
  | some socket =>
      { s with
        descriptors := s.descriptors.delete fd
        closed := s.closed ++ [socket]
        sockMap := if unlinks then unlinkSocket s.sockMap socket else s.sockMap }

/-! ## `reap_connection_set` -/

/-- Which deletions of one cleanup pass fail. -/
structure PassFaults where
  slot : Member → Bool
  route : Member → Bool
  flow : Bool
  lifecycle : Bool
  decision : Bool

/-- The kernel's answers to one reap: the two passes and the closes between
them. -/
structure ReapCalls where
  first : PassFaults
  second : PassFaults
  unlinks : Member → Bool

/-- `set->active = 0; manager->active_count--` -/
def Manager.deactivate (m : Manager) (i : SetIndex) : Manager :=
  { m.modify i fun set => { set with active := false } with
    activeCount := m.activeCount - 1
    fault := m.fault || m.activeCount == 0 }

/-- `set->sockmap_installed[member] = 0; manager->sockmap_entry_count--` -/
def Manager.dropSlot (m : Manager) (i : SetIndex) (member : Member) : Manager :=
  { m.modify i fun set =>
      { set with sockmapInstalled := Function.update set.sockmapInstalled member false } with
    sockmapEntryCount := m.sockmapEntryCount - 1
    fault := m.fault || m.sockmapEntryCount == 0 }

/-- The slot of one member, with `cleanup_failed`. -/
def releaseSlot (faults : PassFaults) (i : SetIndex) (p : Router × Bool) (member : Member) :
    Router × Bool :=
  if (p.1.set i).sockmapInstalled member then
    let d := deleteSockmapSlot (faults.slot member) p.1.sockMap ((p.1.set i).slots member)
    let s := { p.1 with sockMap := d.1 }.record
    if d.2 then ({ s with manager := s.manager.dropSlot i member }, p.2) else (s, true)
  else p

/-- `set->route_installed[member] = 0` -/
def Router.clearRoute (s : Router) (i : SetIndex) (member : Member) : Router :=
  s.modify i fun set =>
    { set with routeInstalled := Function.update set.routeInstalled member false }

/-- The route of one member, with `cleanup_failed`. -/
def releaseRoute (faults : PassFaults) (i : SetIndex) (p : Router × Bool) (member : Member) :
    Router × Bool :=
  if (p.1.set i).routeInstalled member then
    let d := deleteMapKey (faults.route member) p.1.world.routes ((p.1.set i).cookies member)
    let s := { p.1 with world := { p.1.world with routes := d.1 } }.record
    if d.2 then (s.clearRoute i member, p.2) else (s, true)
  else (p.1.clearRoute i member, p.2)

/-- `delete_map_key(manager->http_flows_fd, …)` for the client. -/
def deleteFlow (faults : PassFaults) (i : SetIndex) (s : Router) : Router × Bool :=
  let d := deleteMapKey faults.flow s.world.flows ((s.set i).cookies 0)
  ({ s with world := { s.world with flows := d.1 } }.record, d.2)

/-- `delete_map_key(manager->route_decisions_fd, …)` for the client. -/
def deleteDecision (faults : PassFaults) (i : SetIndex) (s : Router) : Router × Bool :=
  let d := deleteMapKey faults.decision s.world.decisions ((s.set i).cookies 0)
  ({ s with world := { s.world with decisions := d.1 } }.record, d.2)

/-- `set->lifecycle_installed = 0` -/
def Router.clearLifecycle (s : Router) (i : SetIndex) : Router :=
  s.modify i fun set => { set with lifecycleInstalled := false }

/-- The lifecycle entry of the client, with `cleanup_failed`. -/
def releaseLifecycle (faults : PassFaults) (i : SetIndex) (p : Router × Bool) : Router × Bool :=
  if (p.1.set i).lifecycleInstalled then
    let d := deleteMapKey faults.lifecycle p.1.world.lifecycle ((p.1.set i).cookies 0)
    let s := { p.1 with world := { p.1.world with lifecycle := d.1 } }.record
    if d.2 then (s.clearLifecycle i, p.2) else (s, true)
  else (p.1.clearLifecycle i, p.2)

/-- The three entries of the client, in the first pass: each deletion is
tried. -/
def firstClient (faults : PassFaults) (i : SetIndex) (p : Router × Bool) : Router × Bool :=
  if (p.1.set i).cookies 0 ≠ 0 then
    let flow := deleteFlow faults i p.1
    let lifecycle := releaseLifecycle faults i (flow.1, p.2 || !flow.2)
    let decision := deleteDecision faults i lifecycle.1
    (decision.1, lifecycle.2 || !decision.2)
  else p

/-- The first pass: all slots, then all routes, then the client. -/
def firstPass (faults : PassFaults) (i : SetIndex) (s : Router) : Router × Bool :=
  firstClient faults i <|
    members.foldl (releaseRoute faults i) <| members.foldl (releaseSlot faults i) (s, false)

/-- The close of one member. -/
def closeMember (unlinks : Member → Bool) (i : SetIndex) (s : Router) (member : Member) : Router :=
  match (s.set i).fds member with
  | none => s
  | some fd => (s.close fd (unlinks member)).modify i fun set =>
      { set with fds := Function.update set.fds member none }

/-- The slot and the route of one member, in the second pass. -/
def releaseMember (faults : PassFaults) (i : SetIndex) (p : Router × Bool) (member : Member) :
    Router × Bool :=
  releaseRoute faults i (releaseSlot faults i p member) member

/-- The flow and the decision of the client, in the second pass: the
decision is only tried when the flow is gone. -/
def secondClient (faults : PassFaults) (i : SetIndex) (p : Router × Bool) : Router × Bool :=
  if (p.1.set i).cookies 0 ≠ 0 then
    let flow := deleteFlow faults i p.1
    if flow.2 then
      let decision := deleteDecision faults i flow.1
      (decision.1, p.2 || !decision.2)
    else (flow.1, true)
  else p

/-- The second pass, after the descriptors are closed. -/
def secondPass (faults : PassFaults) (i : SetIndex) (s : Router) : Router × Bool :=
  releaseLifecycle faults i <| secondClient faults i <|
    members.foldl (releaseMember faults i) (s, false)

/-- `manager->quarantined_count++; set->allocated = 0` -/
def Manager.quarantine (m : Manager) (i : SetIndex) : Manager :=
  { m.modify i fun set => { set with allocated := false } with
    quarantinedCount := m.quarantinedCount + 1
    retired := Function.update m.retired i true }

/-- `manager->free_sets[manager->free_count++] = set_index`, behind
`reset_connection_set`. -/
def Manager.recycle (m : Manager) (i : SetIndex) : Manager :=
  { m.modify i ConnectionSet.reset with
    freeSets := Function.update m.freeSets m.freeCount i
    freeCount := m.freeCount + 1
    fault := m.fault || decide (maxConnectionSets ≤ m.freeCount) }

/-- `reap_connection_set` up to its outcome, with the last
`cleanup_failed`. -/
def cleanup (calls : ReapCalls) (i : SetIndex) (s : Router) : Router × Bool :=
  let first := firstPass calls.first i s
  let closed := members.foldl (closeMember calls.unlinks i) first.1
  if first.2 then secondPass calls.second i closed else (closed, false)

/-- `was_active` is noted and the set no longer active. -/
def beginReap (i : SetIndex) (s : Router) : Router :=
  { s with manager := if (s.set i).active then s.manager.deactivate i else s.manager }

/-- The set goes back to the free stack; `reaped_total` counts it when it was
active. -/
def Manager.giveBack (m : Manager) (i : SetIndex) (wasActive : Bool) : Manager :=
  let m := m.recycle i
  if wasActive then { m with reapedTotal := m.reapedTotal + 1 } else m

/-- `reap_connection_set`; the flag is `return 0`. -/
def reapConnectionSet (calls : ReapCalls) (i : SetIndex) (s : Router) : Router × Bool :=
  if !(s.set i).allocated then (s, true)
  else
    let c := cleanup calls i (beginReap i s)
    if c.2 then ({ c.1 with manager := c.1.manager.quarantine i }, false)
    else ({ c.1 with manager := c.1.manager.giveBack i (s.set i).active }, true)

/-! ## `add_connection_set` -/

/-- The kernel's answers to one setup. `socket m` is what `connect_backend`
returns for member `m`, with the cookie of the new socket;
`bytesReceived m` is the field of its `tcp_info`. -/
structure AddCalls where
  socket : Member → Option (Nat × UInt64)
  cookieFault : Member → Bool
  bytesReceived : Member → Option Nat
  lifecycleFault : Bool
  routeFault : Member → Bool
  slotFault : Member → Bool
  reap : ReapCalls

/-- `set_index = manager->free_sets[--manager->free_count]` and the writes
that follow it. -/
def Manager.allocate (m : Manager) (i : SetIndex) (clientFd : Nat) : Manager :=
  { m.modify i fun set =>
      { set.reset with
        allocated := true
        fds := Function.update set.reset.fds 0 (some clientFd) } with
    freeCount := m.freeCount - 1 }

/-- `set->fds[member] = connect_backend(…)` -/
def connectMember (calls : AddCalls) (i : SetIndex) (member : Member) : Program Router := fun s =>
  match calls.socket member with
  | none =>
      (s.modify i fun set => { set with fds := Function.update set.fds member none }, false)
  | some (fd, socket) =>
      ((s.openSocket fd socket).modify i fun set =>
        { set with fds := Function.update set.fds member (some fd) }, true)

/-- `get_socket_cookie(set->fds[member], &set->cookies[member])` -/
def readCookie (calls : AddCalls) (i : SetIndex) (member : Member) : Program Router := fun s =>
  match ((s.set i).fds member).bind s.descriptors with
  | none => (s, false)
  | some socket =>
      if calls.cookieFault member then (s, false)
      else (s.modify i fun set =>
        { set with cookies := Function.update set.cookies member socket }, true)

/-- `backend_bytes_received`, on the fields of the `tcp_info` it reads. -/
def backendBytesReceived (bytesReceived : Member → Option Nat) : Option Nat :=
  backends.foldlM (fun total m => (bytesReceived m).map fun n => u64 (total + n)) 0

/-- `backend_bytes_received(set, &set->initial_backend_bytes_received)` -/
def readInitialBytes (calls : AddCalls) (i : SetIndex) : Program Router := fun s =>
  match backendBytesReceived calls.bytesReceived with
  | none => (s, false)
  | some total => (s.modify i fun set => { set with initialBackendBytesReceived := total }, true)

/-- `struct sk_lifecycle_state lifecycle = {}` -/
def emptyLifecycle : LifecycleState := ⟨0, 0, false, false, false⟩

/-- The lifecycle entry of the client, put there with `BPF_NOEXIST`. -/
def installLifecycle (calls : AddCalls) (i : SetIndex) : Program Router := fun s =>
  let cookie := (s.set i).cookies 0
  if calls.lifecycleFault ∨ s.world.lifecycle cookie ≠ none then (s, false)
  else
    let lifecycle := s.world.lifecycle.update cookie emptyLifecycle
    let s := { s with world := { s.world with lifecycle := lifecycle } }.record
    (s.modify i fun set => { set with lifecycleInstalled := true }, true)

/-- `update_route` for one member. -/
def installRoute (calls : AddCalls) (i : SetIndex) (member : Member) : Program Router := fun s =>
  if calls.routeFault member then (s, false)
  else
    let routes := s.world.routes.update ((s.set i).cookies member) ((s.set i).route member)
    let s := { s with world := { s.world with routes := routes } }.record
    (s.modify i fun set =>
      { set with routeInstalled := Function.update set.routeInstalled member true }, true)

/-- `set->sockmap_installed[member] = 1; manager->sockmap_entry_count++` -/
def Manager.takeSlot (m : Manager) (i : SetIndex) (member : Member) : Manager :=
  { m.modify i fun set =>
      { set with sockmapInstalled := Function.update set.sockmapInstalled member true } with
    sockmapEntryCount := m.sockmapEntryCount + 1 }

/-- `update_sock_map` for one member. -/
def installSlot (calls : AddCalls) (i : SetIndex) (member : Member) : Program Router := fun s =>
  match ((s.set i).fds member).bind s.descriptors with
  | none => (s, false)
  | some socket =>
      if calls.slotFault member then (s, false)
      else
        let sockMap := s.sockMap.update ((s.set i).slots member) socket
        let s := { s with sockMap := sockMap }.record
        ({ s with manager := s.manager.takeSlot i member }, true)

/-- `add_connection_set` between the allocation and `set->active = 1`. -/
def setup (calls : AddCalls) (i : SetIndex) : Program Router :=
  (Program.each (connectMember calls i) backends).andThen <|
  (Program.each (readCookie calls i) members).andThen <|
  (readInitialBytes calls i).andThen <|
  (installLifecycle calls i).andThen <|
  (Program.each (installRoute calls i) members).andThen <|
  Program.each (installSlot calls i) members

/-- `set->active = 1; manager->active_count++; … manager->accepted_total++` -/
def Manager.activate (m : Manager) (i : SetIndex) : Manager :=
  { m.modify i fun set => { set with active := true } with
    activeCount := m.activeCount + 1
    acceptedTotal := m.acceptedTotal + 1 }

/-- `add_connection_set`; the flag is `return 0`. -/
def addConnectionSet (calls : AddCalls) (clientFd : Nat) (s : Router) : Router × Bool :=
  if s.manager.freeCount = 0 then (s.close clientFd false, false)
  else if h : s.manager.freeSets (s.manager.freeCount - 1) < maxConnectionSets then
    let i : SetIndex := ⟨s.manager.freeSets (s.manager.freeCount - 1), h⟩
    match setup calls i { s with manager := s.manager.allocate i clientFd } with
    | (s, true) => ({ s with manager := s.manager.activate i }, true)
    | (s, false) => ((reapConnectionSet calls.reap i s).1, false)
  else ({ s with manager := { s.manager with fault := true } }, false)

end Xsr.Connection
