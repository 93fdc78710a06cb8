import Xsr.Connection.Setup
import Xsr.Lib.SlotPool

/-!
# Holdings — what the sets hold, member by member

The members of all sets form one family of seats. `Holdings` lists what the
manager says each seat holds; the theorems say what each step of the two
operations does to the list.
-/

namespace Xsr.Connection

open Kernel Lib

/-- A member of a set. -/
abbrev Seat := SetIndex × Member

/-! ## One write -/

section Update
variable {α : Type} (sets : SetIndex → ConnectionSet) (i : SetIndex) (set : ConnectionSet)

/-- A field of the sets after one of them was written. -/
theorem field_update (field : ConnectionSet → α) :
    (fun j => field (Function.update sets i set j)) =
      Function.update (fun j => field (sets j)) i (field set) := by
  funext j
  rcases eq_or_ne j i with rfl | hj
  · simp
  · simp [hj]

theorem field_update_same (field : ConnectionSet → α) (h : field set = field (sets i)) :
    (fun j => field (Function.update sets i set j)) = fun j => field (sets j) := by
  rw [field_update, h]
  exact Function.update_eq_self ..

/-- A field of the members after one member of one set was written. -/
theorem seat_update (field : ConnectionSet → Member → α) {k : Member} {a : α}
    (h : field set = Function.update (field (sets i)) k a) :
    (fun x : Seat => field (Function.update sets i set x.1) x.2) =
      Function.update (fun x : Seat => field (sets x.1) x.2) (i, k) a := by
  funext ⟨j, l⟩
  rcases eq_or_ne j i with rfl | hj
  · rw [Function.update_self, h]
    rcases eq_or_ne l k with rfl | hl
    · simp
    · simp [hl]
  · simp [hj]

theorem seat_update_same (field : ConnectionSet → Member → α) (h : field set = field (sets i)) :
    (fun x : Seat => field (Function.update sets i set x.1) x.2) =
      fun x => field (sets x.1) x.2 := by
  funext ⟨j, l⟩
  rcases eq_or_ne j i with rfl | hj
  · rw [Function.update_self, h]
  · simp [hj]

theorem seat_update_all (field : ConnectionSet → Member → α) :
    (fun x : Seat => field (Function.update sets i set x.1) x.2) =
      fun x => if x.1 = i then field set x.2 else field (sets x.1) x.2 := by
  funext ⟨j, l⟩
  rcases eq_or_ne j i with rfl | hj
  · simp
  · simp [hj]

theorem seat_update_blank (field : ConnectionSet → Member → Bool) (h : field set = fun _ => false) :
    (fun x : Seat => field (Function.update sets i set x.1) x.2) =
      SlotPool.blank (fun x : Seat => field (sets x.1) x.2) i := by
  rw [seat_update_all, h]
  rfl

end Update

/-- The write of one slot flag. -/
def ConnectionSet.flag (set : ConnectionSet) (k : Member) (b : Bool) : ConnectionSet :=
  { set with sockmapInstalled := Function.update set.sockmapInstalled k b }

/-- A set as `add_connection_set` takes it. -/
def ConnectionSet.taken (set : ConnectionSet) (clientFd : Nat) : ConnectionSet :=
  { set.reset with
    allocated := true
    fds := Function.update set.reset.fds 0 (some clientFd) }

/-! ## The list -/

/-- What the manager says each seat holds. -/
@[ext] structure Holdings where
  slot : Seat → Nat
  cookie : Seat → UInt64
  fd : Seat → Option Nat
  placed : Seat → Bool
  routed : Seat → Bool
  route : Seat → RouteEntry
  tracked : SetIndex → Bool
  allocated : SetIndex → Bool
  retired : SetIndex → Bool

/-- The holdings of a family of sets. -/
def holdingsOf (sets : SetIndex → ConnectionSet) (retired : SetIndex → Bool) : Holdings where
  slot x := (sets x.1).slots x.2
  cookie x := (sets x.1).cookies x.2
  fd x := (sets x.1).fds x.2
  placed x := (sets x.1).sockmapInstalled x.2
  routed x := (sets x.1).routeInstalled x.2
  route x := (sets x.1).route x.2
  tracked i := (sets i).lifecycleInstalled
  allocated i := (sets i).allocated
  retired := retired

@[inherit_doc holdingsOf]
def Router.holdings (s : Router) : Holdings := holdingsOf s.manager.sets s.manager.retired

/-- The seats that may have left a flow or a decision: clients, and all
members of a quarantined set. -/
def Holdings.heard (h : Holdings) (x : Seat) : Bool :=
  h.retired x.1 || (h.allocated x.1 && x.2 == 0)

/-- Set `i` holds nothing but the descriptors `fd`, and is free or taken. -/
def Holdings.blanked (h : Holdings) (i : SetIndex) (fd : Member → Option Nat)
    (route : Member → RouteEntry) (allocated : Bool) : Holdings :=
  { h with
    cookie := fun x => if x.1 = i then 0 else h.cookie x
    fd := fun x => if x.1 = i then fd x.2 else h.fd x
    placed := fun x => if x.1 = i then false else h.placed x
    routed := fun x => if x.1 = i then false else h.routed x
    route := fun x => if x.1 = i then route x.2 else h.route x
    tracked := Function.update h.tracked i false
    allocated := Function.update h.allocated i allocated }

section Write
variable (sets : SetIndex → ConnectionSet) (retired : SetIndex → Bool) (i : SetIndex)
  (set : ConnectionSet)

/-- The fields a holding is read from. -/
structure SameHoldings (set set' : ConnectionSet) : Prop where
  slots : set'.slots = set.slots
  cookies : set'.cookies = set.cookies
  fds : set'.fds = set.fds
  placed : set'.sockmapInstalled = set.sockmapInstalled
  routed : set'.routeInstalled = set.routeInstalled
  tracked : set'.lifecycleInstalled = set.lifecycleInstalled
  allocated : set'.allocated = set.allocated

theorem ConnectionSet.route_congr {set set' : ConnectionSet} (hs : set'.slots = set.slots)
    (hc : set'.cookies 0 = set.cookies 0) : set'.route = set.route := by
  funext m
  rw [ConnectionSet.route, ConnectionSet.route, hs, hc]

theorem holdingsOf_update_same (h : SameHoldings (sets i) set) :
    holdingsOf (Function.update sets i set) retired = holdingsOf sets retired := by
  have hroute := ConnectionSet.route_congr h.slots (congrFun h.cookies 0)
  exact Holdings.ext (seat_update_same sets i set ConnectionSet.slots h.slots)
    (seat_update_same sets i set ConnectionSet.cookies h.cookies)
    (seat_update_same sets i set ConnectionSet.fds h.fds)
    (seat_update_same sets i set ConnectionSet.sockmapInstalled h.placed)
    (seat_update_same sets i set ConnectionSet.routeInstalled h.routed)
    (seat_update_same sets i set ConnectionSet.route hroute)
    (field_update_same sets i set ConnectionSet.lifecycleInstalled h.tracked)
    (field_update_same sets i set ConnectionSet.allocated h.allocated) rfl

/-- A write of one slot flag. -/
theorem holdingsOf_flag (k : Member) (b : Bool) :
    holdingsOf (Function.update sets i ((sets i).flag k b)) retired =
      { holdingsOf sets retired with
        placed := Function.update (holdingsOf sets retired).placed (i, k) b } :=
  Holdings.ext (seat_update_same sets i _ ConnectionSet.slots rfl)
    (seat_update_same sets i _ ConnectionSet.cookies rfl)
    (seat_update_same sets i _ ConnectionSet.fds rfl)
    (seat_update sets i _ ConnectionSet.sockmapInstalled rfl)
    (seat_update_same sets i _ ConnectionSet.routeInstalled rfl)
    (seat_update_same sets i _ ConnectionSet.route rfl)
    (field_update_same sets i _ ConnectionSet.lifecycleInstalled rfl)
    (field_update_same sets i _ ConnectionSet.allocated rfl) rfl

/-- A write of one route flag. -/
theorem holdingsOf_routed (k : Member) (b : Bool) :
    holdingsOf (Function.update sets i { sets i with
        routeInstalled := Function.update (sets i).routeInstalled k b }) retired =
      { holdingsOf sets retired with
        routed := Function.update (holdingsOf sets retired).routed (i, k) b } :=
  Holdings.ext (seat_update_same sets i _ ConnectionSet.slots rfl)
    (seat_update_same sets i _ ConnectionSet.cookies rfl)
    (seat_update_same sets i _ ConnectionSet.fds rfl)
    (seat_update_same sets i _ ConnectionSet.sockmapInstalled rfl)
    (seat_update sets i _ ConnectionSet.routeInstalled rfl)
    (seat_update_same sets i _ ConnectionSet.route rfl)
    (field_update_same sets i _ ConnectionSet.lifecycleInstalled rfl)
    (field_update_same sets i _ ConnectionSet.allocated rfl) rfl

/-- A write of the lifecycle flag. -/
theorem holdingsOf_tracked (b : Bool) :
    holdingsOf (Function.update sets i { sets i with lifecycleInstalled := b }) retired =
      { holdingsOf sets retired with
        tracked := Function.update (holdingsOf sets retired).tracked i b } :=
  Holdings.ext (seat_update_same sets i _ ConnectionSet.slots rfl)
    (seat_update_same sets i _ ConnectionSet.cookies rfl)
    (seat_update_same sets i _ ConnectionSet.fds rfl)
    (seat_update_same sets i _ ConnectionSet.sockmapInstalled rfl)
    (seat_update_same sets i _ ConnectionSet.routeInstalled rfl)
    (seat_update_same sets i _ ConnectionSet.route rfl)
    (field_update sets i _ ConnectionSet.lifecycleInstalled)
    (field_update_same sets i _ ConnectionSet.allocated rfl) rfl

/-- A write of one descriptor. -/
theorem holdingsOf_fd (k : Member) (fd : Option Nat) :
    holdingsOf (Function.update sets i { sets i with
        fds := Function.update (sets i).fds k fd }) retired =
      { holdingsOf sets retired with
        fd := Function.update (holdingsOf sets retired).fd (i, k) fd } :=
  Holdings.ext (seat_update_same sets i _ ConnectionSet.slots rfl)
    (seat_update_same sets i _ ConnectionSet.cookies rfl)
    (seat_update sets i _ ConnectionSet.fds rfl)
    (seat_update_same sets i _ ConnectionSet.sockmapInstalled rfl)
    (seat_update_same sets i _ ConnectionSet.routeInstalled rfl)
    (seat_update_same sets i _ ConnectionSet.route rfl)
    (field_update_same sets i _ ConnectionSet.lifecycleInstalled rfl)
    (field_update_same sets i _ ConnectionSet.allocated rfl) rfl

/-- A write of one cookie. -/
theorem holdingsOf_cookie (k : Member) (c : UInt64) :
    holdingsOf (Function.update sets i { sets i with
        cookies := Function.update (sets i).cookies k c }) retired =
      { holdingsOf sets retired with
        cookie := Function.update (holdingsOf sets retired).cookie (i, k) c
        route := fun x => if x.1 = i then
            ({ sets i with cookies := Function.update (sets i).cookies k c } :
              ConnectionSet).route x.2
          else (sets x.1).route x.2 } :=
  Holdings.ext (seat_update_same sets i _ ConnectionSet.slots rfl)
    (seat_update sets i _ ConnectionSet.cookies rfl)
    (seat_update_same sets i _ ConnectionSet.fds rfl)
    (seat_update_same sets i _ ConnectionSet.sockmapInstalled rfl)
    (seat_update_same sets i _ ConnectionSet.routeInstalled rfl)
    (seat_update_all sets i _ ConnectionSet.route)
    (field_update_same sets i _ ConnectionSet.lifecycleInstalled rfl)
    (field_update_same sets i _ ConnectionSet.allocated rfl) rfl

/-- A quarantine. -/
theorem holdingsOf_quarantine :
    holdingsOf (Function.update sets i { sets i with allocated := false })
        (Function.update retired i true) =
      { holdingsOf sets retired with
        allocated := Function.update (holdingsOf sets retired).allocated i false
        retired := Function.update retired i true } :=
  Holdings.ext (seat_update_same sets i _ ConnectionSet.slots rfl)
    (seat_update_same sets i _ ConnectionSet.cookies rfl)
    (seat_update_same sets i _ ConnectionSet.fds rfl)
    (seat_update_same sets i _ ConnectionSet.sockmapInstalled rfl)
    (seat_update_same sets i _ ConnectionSet.routeInstalled rfl)
    (seat_update_same sets i _ ConnectionSet.route rfl)
    (field_update_same sets i _ ConnectionSet.lifecycleInstalled rfl)
    (field_update sets i _ ConnectionSet.allocated) rfl

/-- A set is written that holds nothing but perhaps descriptors. -/
theorem holdingsOf_blank (hs : set.slots = (sets i).slots) (hc : set.cookies = fun _ => 0)
    (hp : set.sockmapInstalled = fun _ => false) (hr : set.routeInstalled = fun _ => false)
    (ht : set.lifecycleInstalled = false) :
    holdingsOf (Function.update sets i set) retired =
      (holdingsOf sets retired).blanked i set.fds set.route set.allocated := by
  refine Holdings.ext (seat_update_same sets i set ConnectionSet.slots hs)
    ((seat_update_all sets i set ConnectionSet.cookies).trans ?_)
    (seat_update_all sets i set ConnectionSet.fds)
    ((seat_update_all sets i set ConnectionSet.sockmapInstalled).trans ?_)
    ((seat_update_all sets i set ConnectionSet.routeInstalled).trans ?_)
    (seat_update_all sets i set ConnectionSet.route)
    ((field_update sets i set ConnectionSet.lifecycleInstalled).trans ?_)
    (field_update sets i set ConnectionSet.allocated) rfl
  · rw [hc]
    rfl
  · rw [hp]
    rfl
  · rw [hr]
    rfl
  · rw [ht]
    rfl

end Write

/-! ## The steps -/

section Steps
variable (s : Router) (i : SetIndex) (m : Member)

variable {s i} in
/-- A write of fields no holding is read from. -/
theorem modify_holdings {f : ConnectionSet → ConnectionSet}
    (h : SameHoldings (s.set i) (f (s.set i))) : (s.modify i f).holdings = s.holdings :=
  holdingsOf_update_same s.manager.sets s.manager.retired i (f (s.set i)) h

@[simp] theorem record_holdings : s.record.holdings = s.holdings := rfl

@[simp] theorem dropSlot_holdings : (s.dropSlot i m).holdings =
    { s.holdings with placed := Function.update s.holdings.placed (i, m) false } :=
  holdingsOf_flag ..

@[simp] theorem clearRoute_holdings : (s.clearRoute i m).holdings =
    { s.holdings with routed := Function.update s.holdings.routed (i, m) false } :=
  holdingsOf_routed ..

@[simp] theorem dropRoute_holdings : (s.dropRoute i m).holdings =
    { s.holdings with routed := Function.update s.holdings.routed (i, m) false } :=
  holdingsOf_routed ..

@[simp] theorem clearLifecycle_holdings : (s.clearLifecycle i).holdings =
    { s.holdings with tracked := Function.update s.holdings.tracked i false } :=
  holdingsOf_tracked ..

@[simp] theorem dropLifecycle_holdings : (s.dropLifecycle i).holdings =
    { s.holdings with tracked := Function.update s.holdings.tracked i false } :=
  holdingsOf_tracked ..

@[simp] theorem dropFlow_holdings : (s.dropFlow i).holdings = s.holdings := rfl

@[simp] theorem dropDecision_holdings : (s.dropDecision i).holdings = s.holdings := rfl

@[simp] theorem close_holdings (fd : Nat) (unlinks : Bool) :
    (s.close fd unlinks).holdings = s.holdings := by
  rw [Router.holdings, close_manager]
  rfl

@[simp] theorem placeSlot_holdings (socket : UInt64) : (s.placeSlot i m socket).holdings =
    { s.holdings with placed := Function.update s.holdings.placed (i, m) true } :=
  holdingsOf_flag ..

@[simp] theorem placeRoute_holdings : (s.placeRoute i m).holdings =
    { s.holdings with routed := Function.update s.holdings.routed (i, m) true } :=
  holdingsOf_routed ..

@[simp] theorem placeLifecycle_holdings : (s.placeLifecycle i).holdings =
    { s.holdings with tracked := Function.update s.holdings.tracked i true } :=
  holdingsOf_tracked ..

end Steps

/-! ## The timer and the end -/

/-- A mark of the timer on a set. -/
structure Marks (f : ConnectionSet → ConnectionSet) : Prop where
  holdings : ∀ set, SameHoldings set (f set)
  active : ∀ set, (f set).active = set.active
  baseline : ∀ set, (f set).initialBackendBytesReceived = set.initialBackendBytesReceived

theorem marks_peerWriteClosed : Marks fun set => { set with peerWriteClosed := true } :=
  ⟨fun _ => ⟨rfl, rfl, rfl, rfl, rfl, rfl, rfl⟩, fun _ => rfl, fun _ => rfl⟩

theorem marks_backendWritesShutdown :
    Marks fun set => { set with backendWritesShutdown := true } :=
  ⟨fun _ => ⟨rfl, rfl, rfl, rfl, rfl, rfl, rfl⟩, fun _ => rfl, fun _ => rfl⟩

theorem marks_drainConfirmed (confirmed : Bool) :
    Marks fun set => { set with drainConfirmed := confirmed } :=
  ⟨fun _ => ⟨rfl, rfl, rfl, rfl, rfl, rfl, rfl⟩, fun _ => rfl, fun _ => rfl⟩

/-- What a reap keeps and what does not depend on the marks and the counters
of the timer. -/
structure Stable (P : Router → Prop) : Prop where
  reap : ∀ s i calls, P s → P (reapConnectionSet calls i s).1
  mark : ∀ s i f, Marks f → P s → P (s.modify i f)
  count : ∀ s halfCloses polls, P s → P { s with
    manager := { s.manager with halfCloseTotal := halfCloses, lifecyclePollTotal := polls } }

section Timer
variable {P : Router → Prop} (stable : Stable P) {s : Router} {i : SetIndex}

include stable

theorem Stable.notePeerClosed (h : P s) : P (notePeerClosed i s) := by
  rw [Connection.notePeerClosed]
  split
  · exact h
  · exact stable.count _ _ s.manager.lifecyclePollTotal (stable.mark s i _ marks_peerWriteClosed h)

theorem Stable.beginDrain (h : P s) : P (beginDrain i s) := by
  rw [Connection.beginDrain]
  split
  · exact h
  · exact stable.mark s i _ marks_backendWritesShutdown h

theorem Stable.drainSet (h : P s) (calls : CheckCalls) (info : TcpInfo)
    (lifecycle : LifecycleState) : P (drainSet calls info lifecycle i s) := by
  have hshut := stable.beginDrain (i := i) h
  rw [Connection.drainSet]
  split_ifs
  · exact stable.reap _ i calls.reap hshut
  · exact stable.mark _ i _ (marks_drainConfirmed true) hshut
  · exact stable.mark _ i _ (marks_drainConfirmed false) hshut

/-- One turn of the timer's loop. -/
theorem Stable.checkSet (h : P s) (calls : CheckCalls) : P (checkSet calls i s) := by
  have hnoted := stable.notePeerClosed (i := i) h
  have hreap := fun {t : Router} (ht : P t) => stable.reap t i calls.reap ht
  rw [Connection.checkSet]
  split_ifs
  · exact hreap h
  · exact h
  · dsimp only
    split
    · exact hreap hnoted
    · split_ifs
      · exact hreap hnoted
      · split
        · exact hreap hnoted
        · split_ifs
          · exact stable.drainSet hnoted ..
          · exact hreap hnoted
          · exact hreap hnoted
          · exact hnoted

theorem Stable.pollLoop (calls : PollCalls) (is : List SetIndex) :
    ∀ {ready : Int} {s : Router}, P s → P (pollLoop calls is ready s) := by
  induction is with
  | nil => exact fun h => h
  | cons i is ih =>
      intro ready s h
      rw [Connection.pollLoop]
      split_ifs
      · exact h
      · exact ih (stable.checkSet h _)
      · exact ih h

theorem Stable.poll (h : P s) (calls : PollCalls) : P (pollConnectionLifecycle calls s) := by
  rw [pollConnectionLifecycle]
  split
  · exact h
  · have hticked := fun n => stable.count s s.manager.halfCloseTotal
      (s.manager.lifecyclePollTotal + n) h
    dsimp only
    split_ifs
    · exact hticked _
    · exact stable.pollLoop calls _ (hticked _)

theorem Stable.destroy (h : P s) (calls : SetIndex → ReapCalls) :
    P (destroyConnectionManager calls s) := by
  refine List.foldlRecOn (motive := P) _ _ h fun s hs i _ => ?_
  split_ifs
  · exact stable.reap s i _ hs
  · exact hs

end Timer

end Xsr.Connection
