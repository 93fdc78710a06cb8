import Xsr.Connection.Recycling

/-!
# Routability — when a client is in the map before its backends

`add_connection_set` fills the slots in member order, the client's first. At
that point a verdict for the client has no backend to redirect to. A run
shows no such point exactly when none of its setups gets that far.
-/

namespace Xsr.Connection

open Kernel Lib Parsing

/-- A client in its slot has a route, and behind every slot a verdict can
pick for it there is a backend of its own set. -/
def Point.Routable (p : Point) : Prop :=
  ∀ i, p.sockMap ((p.sets i).slots 0) = some ((p.sets i).cookies 0) →
    ∃ entry, p.routes ((p.sets i).cookies 0) = some entry ∧
      ∀ modelId slot, entry.modelSlot modelId = some slot →
        ∃ m ∈ backends, p.sockMap slot = some ((p.sets i).cookies m)

/-- The kernel refuses nothing a setup asks for before the slots. -/
structure AddCalls.ReachesSlots (calls : AddCalls) : Prop where
  connected : ∀ m ∈ backends, calls.socket m ≠ none
  named : ∀ m ∈ members, calls.cookieFault m = false
  counted : backendBytesReceived calls.bytesReceived ≠ none
  tracked : calls.lifecycleFault = false
  routed : ∀ m ∈ members, calls.routeFault m = false

/-- A set is free, and the kernel refuses nothing until the client is in its
slot. -/
def PutsClient (s : Router) : Event → Prop
  | .accept _ calls =>
      s.manager.freeCount ≠ 0 ∧ calls.ReachesSlots ∧ calls.slotFault 0 = false
  | _ => False

/-! ## A setup up to its slots -/

section Setup
variable (calls : AddCalls) (i : SetIndex)

/-- `setup` before the slots. -/
def connection : Program Router :=
  (Program.each (connectMember calls i) backends).andThen <|
  (Program.each (readCookie calls i) members).andThen <|
  (readInitialBytes calls i).andThen <|
  (installLifecycle calls i).andThen <|
  Program.each (installRoute calls i) members

theorem setup_eq : setup calls i =
    (connection calls i).andThen (Program.each (installSlot calls i) members) := by
  simp only [setup, connection, Program.andThen_assoc]

variable {calls i}

theorem connection_stage :
    Program.Spec (Connecting calls i backends) (connection calls i) (Placing i) (Growing i) := by
  have hconnect := Program.Spec.each (connectMember_stage (i := i) calls) backends
  have hcookies := Program.Spec.each (readCookie_stage (i := i) calls) members
  have hroutes := Program.Spec.each (installRoute_stage (i := i) calls) members
  exact (hconnect.mono (fun _ => id) fun _ => Connecting.naming calls).andThen <|
    hcookies.andThen <| (readInitialBytes_stage calls).andThen <|
    (installLifecycle_stage calls).andThen <|
    hroutes.mono (fun _ => id) fun _ => Routing.placing

theorem connectMember_ends (m : Member) (todo : List Member) :
    Program.EndsWhen (Connecting calls i (m :: todo)) (connectMember calls i m)
      (calls.socket m ≠ none) := by
  intro s _
  rcases connectMember_cases calls i m s with ⟨hnone, heq⟩ | ⟨fd, socket, hsome, heq⟩
  · simp [heq, hnone]
  · simp [heq, hsome]

theorem readCookie_ends (m : Member) (todo : List Member) :
    Program.EndsWhen (Naming i (m :: todo)) (readCookie calls i m)
      (calls.cookieFault m = false) := by
  intro s h
  obtain ⟨fd, hfd⟩ := Option.ne_none_iff_exists'.mp (h.fd m)
  obtain ⟨-, c, hc, -⟩ := h.growing.clean.opened.held (i, m) fd hfd
  have hsocket : s.socketOf i m = some c := Option.bind_eq_some_iff.mpr ⟨fd, hfd, hc⟩
  rcases readCookie_cases calls i m s with ⟨hfault, heq⟩ | ⟨socket, -, hfault, heq⟩
  · rw [hsocket] at hfault
    simp [heq, hfault.resolve_left (Option.some_ne_none c)]
  · simp [heq, hfault]

theorem readInitialBytes_ends : Program.EndsWhen (Naming i []) (readInitialBytes calls i)
    (backendBytesReceived calls.bytesReceived ≠ none) := by
  intro s _
  rcases readInitialBytes_cases calls i s with ⟨hnone, heq⟩ | ⟨total, hsome, heq⟩
  · simp [heq, hnone]
  · simp [heq, hsome]

theorem installLifecycle_ends : Program.EndsWhen (Naming i []) (installLifecycle calls i)
    (calls.lifecycleFault = false) := by
  intro s h
  have hempty : s.world.lifecycle ((s.set i).cookies 0) = none :=
    h.growing.clean.owned.lifecycle_empty (x := (i, 0)) fun _ => h.untracked
  rcases installLifecycle_cases calls i s with ⟨hfault, heq⟩ | ⟨hfault, -, heq⟩
  · simp [heq, hfault.resolve_right (not_not.mpr hempty)]
  · simp [heq, hfault]

theorem installRoute_ends (m : Member) (todo : List Member) :
    Program.EndsWhen (Routing i (m :: todo)) (installRoute calls i m)
      (calls.routeFault m = false) := by
  intro s _
  rcases installRoute_cases calls i m s with ⟨hfault, heq⟩ | ⟨hfault, heq⟩ <;> simp [heq, hfault]

/-- A setup reaches its slots exactly when the kernel refuses nothing. -/
theorem connection_ends :
    Program.EndsWhen (Connecting calls i backends) (connection calls i) calls.ReachesSlots := by
  have hconnect := Program.Spec.each (connectMember_stage (i := i) calls) backends
  have hcookies := Program.Spec.each (readCookie_stage (i := i) calls) members
  have hends := (Program.EndsWhen.each connectMember_ends (connectMember_stage (i := i) calls)
      backends).andThen
    ((Program.EndsWhen.each readCookie_ends (readCookie_stage calls) members).andThen
      (readInitialBytes_ends.andThen
        (installLifecycle_ends.andThen
          (Program.EndsWhen.each installRoute_ends (installRoute_stage calls) members)
          (installLifecycle_stage calls))
        (readInitialBytes_stage calls))
      hcookies)
    (hconnect.mono (fun _ => id) fun _ => Connecting.naming calls)
  intro s h
  rw [connection, hends s h]
  exact ⟨fun ⟨h1, h2, h3, h4, h5⟩ => ⟨h1, h2, h3, h4, h5⟩,
    fun ⟨h1, h2, h3, h4, h5⟩ => ⟨h1, h2, h3, h4, h5⟩⟩

end Setup

/-! ## The points of a run -/

/-- No slot is occupied, nor was at any point before. -/
structure Idle (s : Router) : Prop where
  now : ∀ slot, s.sockMap slot = none
  before : ∀ p ∈ s.points, ∀ slot, p.sockMap slot = none

theorem Idle.step {s s' : Router} (h : Idle s)
    (sockMap : ∀ slot, s.sockMap slot = none → s'.sockMap slot = none)
    (points : ∀ p ∈ s'.points, p ∈ s.points ∨ p.sockMap = s'.sockMap) : Idle s' := by
  refine ⟨fun slot => sockMap slot (h.now slot), fun p hp slot => ?_⟩
  rcases points p hp with hold | hnew
  · exact h.before p hold slot
  · rw [hnew]
    exact sockMap slot (h.now slot)

/-- The point a map update begins. -/
theorem mem_record {s : Router} {p : Point} (hp : p ∈ s.record.points) :
    p ∈ s.points ∨ p.sockMap = s.sockMap := by
  refine (List.mem_append.mp hp).imp_right fun hp => ?_
  rw [List.mem_singleton.mp hp]

theorem close_points (s : Router) (fd : Nat) (unlinks : Bool) :
    (s.close fd unlinks).points = s.points := by
  rw [Router.close]
  cases s.descriptors fd <;> rfl

theorem close_sockMap_none (s : Router) (fd : Nat) (unlinks : Bool) {slot : Nat}
    (h : s.sockMap slot = none) : (s.close fd unlinks).sockMap slot = none := by
  cases hopen : s.descriptors fd with
  | none => rw [Router.close, hopen]; exact h
  | some c =>
      by_contra hne
      obtain ⟨v, hv⟩ := Option.ne_none_iff_exists'.mp hne
      rw [close_sockMap unlinks hopen hv] at h
      cases h

theorem keeps_idle (i : SetIndex) : Keeps i Idle where
  record s h := h.step (fun _ => id) fun _ => mem_record
  dropSlot s m _ h := h.step (fun _ => BpfMap.delete_of_eq_none) fun _ => mem_record
  clearRoute s m _ h := h.step (fun _ => id) fun _ => .inl
  dropRoute s m h := h.step (fun _ => id) fun _ => mem_record
  clearLifecycle s _ h := h.step (fun _ => id) fun _ => .inl
  dropLifecycle s h := h.step (fun _ => id) fun _ => mem_record
  dropFlow s h := h.step (fun _ => id) fun _ => mem_record
  dropDecision s h := h.step (fun _ => id) fun _ => mem_record
  close s unlinks m h := by
    rcases closeMember_cases s i m unlinks with ⟨-, heq⟩ | ⟨fd, -, heq⟩
    · rw [heq]; exact h
    · rw [heq]
      refine h.step (fun slot => close_sockMap_none s fd (unlinks m)) fun p hp => .inl ?_
      change p ∈ (s.close fd (unlinks m)).points at hp
      rwa [close_points] at hp

/-- A point stays on record. -/
theorem keeps_point (i : SetIndex) (p : Point) : Keeps i fun s => p ∈ s.points where
  record _ h := List.mem_append_left _ h
  dropSlot _ _ _ h := List.mem_append_left _ h
  clearRoute _ _ _ h := h
  dropRoute _ _ h := List.mem_append_left _ h
  clearLifecycle _ _ h := h
  dropLifecycle _ h := List.mem_append_left _ h
  dropFlow _ h := List.mem_append_left _ h
  dropDecision _ h := List.mem_append_left _ h
  close s unlinks m h := by
    rcases closeMember_cases s i m unlinks with ⟨-, heq⟩ | ⟨fd, -, heq⟩
    · rw [heq]; exact h
    · rw [heq]
      show p ∈ (s.close fd (unlinks m)).points
      rw [close_points]
      exact h

/-- What depends on the maps and their history only, and the cleanups of all
sets keep, a reap keeps. -/
theorem reap_keeps {P : Router → Prop} (keeps : ∀ i, Keeps i P)
    (manager : ∀ s m, P s → P { s with manager := m }) {s : Router} (h : P s) (i : SetIndex)
    (calls : ReapCalls) : P (reapConnectionSet calls i s).1 := by
  have hbegun : P (beginReap i s) := manager s _ h
  have hcleaned := (keeps i).cleanup calls hbegun
  cases ha : (s.set i).allocated with
  | false => rw [reap_of_not_allocated calls ha]; exact h
  | true =>
      rcases reap_cases calls ha with ⟨-, heq⟩ | ⟨-, heq⟩ <;> rw [heq]
      · exact manager _ _ hcleaned
      · exact manager _ _ hcleaned

theorem Idle.manager {s : Router} (h : Idle s) (m : Manager) : Idle { s with manager := m } :=
  ⟨h.now, h.before⟩

theorem Idle.reap {s : Router} (h : Idle s) (i : SetIndex) (calls : ReapCalls) :
    Idle (reapConnectionSet calls i s).1 :=
  reap_keeps keeps_idle (fun _ m h => h.manager m) h i calls

theorem stable_idle : Stable Idle where
  reap _ i calls h := h.reap i calls
  mark _ _ _ _ h := h.manager _
  count _ _ _ h := h.manager _

theorem point_reap {p : Point} {s : Router} (h : p ∈ s.points) (i : SetIndex) (calls : ReapCalls) :
    p ∈ (reapConnectionSet calls i s).1.points :=
  reap_keeps (P := fun s => p ∈ s.points) (keeps_point · p) (fun _ _ h => h) h i calls

theorem stable_point (p : Point) : Stable fun s => p ∈ s.points where
  reap _ i calls h := point_reap h i calls
  mark _ _ _ _ h := h
  count _ _ _ h := h

/-- The steps of a setup before its slots keep what no map but these slots
matters to. -/
theorem connection_keeps {P : Router → Prop} {i : SetIndex} {calls : AddCalls}
    (manager : ∀ s m, P s → P { s with manager := m })
    (sockets : ∀ s fd socket, P s → P (s.openSocket fd socket))
    (world : ∀ s w, P s → P { s with world := w }.record) :
    ∀ s, P s → P (connection calls i s).1 := by
  refine Program.andThen_keeps (Program.each_keeps (fun m s h => ?_) _) <|
    Program.andThen_keeps (Program.each_keeps (fun m s h => ?_) _) <|
    Program.andThen_keeps (fun s h => ?_) <| Program.andThen_keeps (fun s h => ?_) <|
    Program.each_keeps (fun m s h => ?_) _
  · rcases connectMember_cases calls i m s with ⟨-, heq⟩ | ⟨fd, socket, -, heq⟩ <;> rw [heq]
    · exact manager s _ h
    · exact manager _ _ (sockets s fd socket h)
  · rcases readCookie_cases calls i m s with ⟨-, heq⟩ | ⟨socket, -, -, heq⟩ <;> rw [heq]
    · exact h
    · exact manager s _ h
  · rcases readInitialBytes_cases calls i s with ⟨-, heq⟩ | ⟨total, -, heq⟩ <;> rw [heq]
    · exact h
    · exact manager s _ h
  · rcases installLifecycle_cases calls i s with ⟨-, heq⟩ | ⟨-, -, heq⟩ <;> rw [heq]
    · exact h
    · exact manager _ _ (world s _ h)
  · rcases installRoute_cases calls i m s with ⟨-, heq⟩ | ⟨-, heq⟩ <;> rw [heq]
    · exact h
    · exact manager _ _ (world s _ h)

theorem connection_idle {i : SetIndex} {calls : AddCalls} {s : Router} (h : Idle s) :
    Idle (connection calls i s).1 :=
  connection_keeps (fun _ m h => h.manager m) (fun _ _ _ h => ⟨h.now, h.before⟩)
    (fun _ _ h => h.step (fun _ => id) fun _ => mem_record) s h

theorem connection_point {p : Point} {i : SetIndex} {calls : AddCalls} {s : Router}
    (h : p ∈ s.points) : p ∈ (connection calls i s).1.points :=
  connection_keeps (P := fun s => p ∈ s.points) (fun _ _ h => h) (fun _ _ _ h => h)
    (fun _ _ h => List.mem_append_left _ h) s h

theorem slots_point {p : Point} {i : SetIndex} {calls : AddCalls} (ms : List Member) (s : Router)
    (h : p ∈ s.points) : p ∈ (Program.each (installSlot calls i) ms s).1.points := by
  refine Program.each_keeps (P := fun s => p ∈ s.points) (fun m s h => ?_) ms s h
  rcases installSlot_cases calls i m s with ⟨-, heq⟩ | ⟨socket, -, -, heq⟩ <;> rw [heq]
  · exact h
  · exact List.mem_append_left _ h

/-! ## An accept -/

section Accept
variable {s : Router} (h : Settled s) {client : Nat × UInt64} {calls : AddCalls}
  (fresh : Fresh s (calls.sockets client))

include h fresh

/-- The point at which the client is in its slot shows no backend. -/
theorem client_exposed {i : SetIndex} (free : s.holdings.allocated i = false)
    (hr : s.holdings.retired i = false) (hreach : calls.ReachesSlots)
    (hslot : calls.slotFault 0 = false) :
    ∃ p ∈ (setup calls i ((s.openSocket client.1 client.2).allocate i client.1)).1.points,
      ¬ p.Routable := by
  have hstart := accept_connecting h fresh free hr
  have hdone := (connection_ends _ hstart).mpr hreach
  obtain ⟨hgrowing, hwhole⟩ := connection_stage.done _ hstart hdone
  have hsockMap : (connection calls i
      ((s.openSocket client.1 client.2).allocate i client.1)).1.sockMap = s.sockMap :=
    connection_keeps (P := fun t => t.sockMap = s.sockMap) (fun _ _ h => h) (fun _ _ _ h => h)
      (fun _ _ h => h) _ rfl
  rw [setup_eq, Program.andThen_of_done hdone]
  generalize (connection calls i _).1 = t at *
  obtain ⟨fd, hfd⟩ := Option.ne_none_iff_exists'.mp (hwhole.fd 0)
  obtain ⟨-, c, hc, hknown⟩ := hgrowing.clean.opened.held (i, 0) fd hfd
  have hcookie : (t.set i).cookies 0 = c := hknown.resolve_left (hwhole.cookie 0)
  have hplaced : installSlot calls i 0 t = (t.placeSlot i 0 c, true) := by
    have hsocket : t.socketOf i 0 = some c := Option.bind_eq_some_iff.mpr ⟨fd, hfd, hc⟩
    rcases installSlot_cases calls i 0 t with ⟨hfault, -⟩ | ⟨socket, hsome, -, heq⟩
    · rw [hsocket, hslot] at hfault
      simp at hfault
    · rw [hsocket] at hsome
      rw [heq, ← Option.some.inj hsome]
  refine ⟨⟨t.manager.sets, t.world.routes, t.sockMap.update ((t.set i).slots 0) c⟩, ?_, ?_⟩
  · rw [members, Program.each, Program.andThen_of_done (by rw [hplaced]), hplaced]
    exact slots_point _ _ (List.mem_append_right _ (List.mem_singleton.mpr rfl))
  · intro hroutable
    obtain ⟨entry, hentry, hslots⟩ := hroutable i (by rw [← hcookie]; exact BpfMap.update_self ..)
    obtain rfl : (t.set i).route 0 = entry := Option.some.inj ((hwhole.route 0).symm.trans hentry)
    obtain ⟨m, -, hm⟩ := hslots 1 ((t.set i).slots 1) rfl
    -- the slot of the first backend is still as it was before the accept
    have hslot1 : (t.set i).slots 1 = s.holdings.slot (i, 1) :=
      (hgrowing.clean.owned.slot_number (i, 1)).trans (h.clean.owned.slot_number (i, 1)).symm
    have hne : (t.set i).slots 1 ≠ (t.set i).slots 0 := by
      intro heq
      have := slot_injective (x := (i, 1)) (y := (i, 0)) <|
        (hgrowing.clean.owned.slot_number (i, 1)).symm.trans
          (heq.trans (hgrowing.clean.owned.slot_number (i, 0)))
      have h10 : (1 : Member) = 0 := congrArg Prod.snd this
      exact absurd h10 (by decide)
    have hempty := h.clean.owned.slot_empty (h.clean.owned.blank (i, 1) free hr).2.1
    change t.sockMap.update ((t.set i).slots 0) c ((t.set i).slots 1) = some _ at hm
    rw [BpfMap.update_ne _ _ hne, hsockMap, hslot1, hempty] at hm
    cases hm

/-- A setup that does not get to the client's slot leaves `sk_sock_map`
alone. -/
theorem setup_idle (hidle : Idle s) {i : SetIndex} (free : s.holdings.allocated i = false)
    (hr : s.holdings.retired i = false)
    (hstop : ¬ (calls.ReachesSlots ∧ calls.slotFault 0 = false)) :
    (setup calls i ((s.openSocket client.1 client.2).allocate i client.1)).2 = false ∧
      Idle (setup calls i ((s.openSocket client.1 client.2).allocate i client.1)).1 := by
  have hstart := accept_connecting h fresh free hr
  have hconnected : Idle (connection calls i
      ((s.openSocket client.1 client.2).allocate i client.1)).1 :=
    connection_idle ⟨hidle.now, hidle.before⟩
  rw [setup_eq]
  cases hdone : (connection calls i
      ((s.openSocket client.1 client.2).allocate i client.1)).2 with
  | false =>
      rw [Program.andThen_of_failed hdone]
      exact ⟨rfl, hconnected⟩
  | true =>
      have hfault : calls.slotFault 0 = true := by
        cases hslot : calls.slotFault 0 with
        | true => rfl
        | false => exact absurd ⟨(connection_ends _ hstart).mp hdone, hslot⟩ hstop
      rw [Program.andThen_of_done hdone]
      generalize (connection calls i _).1 = t at *
      have hstopped : installSlot calls i 0 t = (t, false) := by
        rcases installSlot_cases calls i 0 t with ⟨-, heq⟩ | ⟨socket, -, hnone, -⟩
        · exact heq
        · rw [hfault] at hnone
          cases hnone
      rw [members, Program.each, Program.andThen_of_failed (by rw [hstopped]), hstopped]
      exact ⟨rfl, hconnected⟩

/-- **An accept** shows the client without its backends exactly when it gets
to the client's slot. -/
theorem accept_exposes (puts : PutsClient s (.accept client calls)) :
    ∃ p ∈ (addConnectionSet calls client.1 (s.openSocket client.1 client.2)).1.points,
      ¬ p.Routable := by
  have haccounted : Accounted (s.openSocket client.1 client.2).manager := h.accounted
  obtain ⟨hfree, hreach, hslot⟩ := puts
  rcases add_cases calls (s.openSocket client.1 client.2) client.1 with
    ⟨hzero, -⟩ | ⟨hpos, htop⟩ | ⟨i, hpos, htop, hcases⟩
  · exact absurd hzero hfree
  · exact absurd (haccounted.top_lt hpos) (Nat.not_lt.mpr htop)
  · obtain ⟨ha, hr⟩ := haccounted.pool.top_free (Nat.pos_of_ne_zero hpos) htop
    obtain ⟨p, hp, hbad⟩ := client_exposed h fresh ha hr hreach hslot
    refine ⟨p, ?_, hbad⟩
    rcases hcases with ⟨-, heq⟩ | ⟨-, heq⟩ <;> rw [heq]
    · exact hp
    · exact point_reap hp i calls.reap

@[inherit_doc accept_exposes]
theorem accept_idle (hidle : Idle s) (stops : ¬ PutsClient s (.accept client calls)) :
    Idle (addConnectionSet calls client.1 (s.openSocket client.1 client.2)).1 := by
  have haccounted : Accounted (s.openSocket client.1 client.2).manager := h.accounted
  rcases add_cases calls (s.openSocket client.1 client.2) client.1 with
    ⟨-, heq⟩ | ⟨hpos, htop⟩ | ⟨i, hpos, htop, hcases⟩
  · rw [heq]
    refine hidle.step (fun slot => close_sockMap_none (s.openSocket client.1 client.2) _ _)
      fun p hp => .inl ?_
    rwa [close_points] at hp
  · exact absurd (haccounted.top_lt hpos) (Nat.not_lt.mpr htop)
  · obtain ⟨ha, hr⟩ := haccounted.pool.top_free (Nat.pos_of_ne_zero hpos) htop
    obtain ⟨hfailed, hset⟩ := setup_idle h fresh hidle ha hr fun hputs => stops ⟨hpos, hputs⟩
    rcases hcases with ⟨hdone, -⟩ | ⟨-, heq⟩
    · rw [hfailed] at hdone
      cases hdone
    · rw [heq]
      exact hset.reap i calls.reap

end Accept

/-! ## Runs -/

section Runs
variable {pol : Policy} {s s' : Router} {e : Event}

theorem add_point {p : Point} {s : Router} (h : p ∈ s.points) (calls : AddCalls) (clientFd : Nat) :
    p ∈ (addConnectionSet calls clientFd s).1.points := by
  rw [addConnectionSet]
  split_ifs with hfree htop
  · rw [close_points]
    exact h
  · have hset : p ∈ (setup calls ⟨_, htop⟩ (s.allocate ⟨_, htop⟩ clientFd)).1.points := by
      rw [setup_eq]
      exact Program.andThen_keeps (P := fun s : Router => p ∈ s.points)
        (fun _ => connection_point)
        (slots_point members) _ h
    dsimp only
    split
    · rename_i heq
      rw [Router.allocate, heq] at hset
      exact hset
    · rename_i heq
      rw [Router.allocate, heq] at hset
      exact point_reap hset _ _
  · exact h

theorem Step.point (hstep : Step pol s e s') {p : Point} (hp : p ∈ s.points) : p ∈ s'.points := by
  cases hstep with
  | @accept client calls fresh =>
      exact add_point (s := s.openSocket client.1 client.2) hp calls client.1
  | reap i calls => exact point_reap hp i calls
  | check calls active => exact (stable_point p).checkSet hp calls
  | poll calls => exact (stable_point p).poll hp calls
  | destroy calls => exact (stable_point p).destroy hp calls
  | parse skb attached => exact hp
  | verdict skbLen attached occupied => exact hp
  | unlink slot => exact hp
  | age grams kept => exact hp

theorem Step.idle (h : Settled s) (hidle : Idle s) (hstep : Step pol s e s')
    (stops : ¬ PutsClient s e) : Idle s' := by
  cases hstep with
  | accept fresh => exact accept_idle h fresh hidle stops
  | reap i calls => exact hidle.reap i calls
  | check calls active => exact stable_idle.checkSet hidle calls
  | poll calls => exact stable_idle.poll hidle calls
  | destroy calls => exact stable_idle.destroy hidle calls
  | parse skb attached => exact ⟨hidle.now, hidle.before⟩
  | verdict skbLen attached occupied => exact ⟨hidle.now, hidle.before⟩
  | unlink slot => exact hidle.step (fun _ => BpfMap.delete_of_eq_none) fun _ => .inl
  | age grams kept => exact ⟨hidle.now, hidle.before⟩

/-- **Every point between two map updates of a run is routable exactly when
no setup of the run gets to its client's slot.** -/
theorem routable_iff {grams : QueryGrams} {es : List Event}
    (run : Run (Step pol) (initializeConnectionManager grams) es s) :
    (∀ p ∈ s.points, p.Routable) ↔
      Run (fun s e s' => Step pol s e s' ∧ ¬ PutsClient s e)
        (initializeConnectionManager grams) es s := by
  constructor
  · intro hroutable
    induction run with
    | nil => exact .nil
    | @snoc es t u e run last ih =>
        refine .snoc (ih fun p hp => hroutable p (last.point hp)) ⟨last, fun puts => ?_⟩
        have h := run.invariant (initial_settled grams) fun _ _ _ h hstep => hstep.settled h
        cases last with
        | accept fresh =>
            obtain ⟨p, hp, hbad⟩ := accept_exposes h fresh puts
            exact hbad (hroutable p hp)
        | _ => exact puts
  · intro quiet p hp i hi
    have hidle := quiet.invariant (I := fun s => Settled s ∧ Idle s)
      ⟨initial_settled grams, fun _ => rfl, fun p hp => absurd hp List.not_mem_nil⟩
      fun _ _ _ h hstep => ⟨hstep.1.settled h.1, hstep.1.idle h.1 h.2 hstep.2⟩
    rw [hidle.2.before p hp] at hi
    cases hi

end Runs

/-- A setup the kernel refuses nothing gets to its client's slot. -/
theorem openCalls_puts (grams : QueryGrams) :
    PutsClient (initializeConnectionManager grams) (.accept (10, 100) openCalls) := by
  refine ⟨show maxConnectionSets ≠ 0 by decide, ⟨?_, ?_, ?_, rfl, ?_⟩, rfl⟩
  · exact fun _ _ => Option.some_ne_none _
  · exact fun _ _ => rfl
  · decide
  · exact fun _ _ => rfl

/-- The first accepted client is in the map before its backends. -/
theorem routable_counterexample :
    ∃ s, Run (Step ngramOnly) (initializeConnectionManager idleWorld.grams)
        [.accept (10, 100) openCalls] s ∧ ¬ ∀ p ∈ s.points, p.Routable := by
  refine ⟨_, .single (.accept (openCalls_fresh _)), fun hroutable => ?_⟩
  obtain ⟨p, hp, hbad⟩ := accept_exposes (initial_settled idleWorld.grams)
    (openCalls_fresh _) (openCalls_puts _)
  exact hbad (hroutable p hp)

/-- A setup refused at the client's slot updates the maps sixteen times, and
the client is at none of those points without a backend. -/
theorem routable_iff_refused : (refusedRouter idleWorld.grams).points.length = 16 ∧
    ∀ p ∈ (refusedRouter idleWorld.grams).points, p.Routable := by
  have hstep := refused_step ngramOnly idleWorld.grams
  refine ⟨by decide +kernel, (routable_iff (.single hstep)).mpr (.single ⟨hstep, fun puts => ?_⟩)⟩
  exact absurd puts.2.2 (by decide)

end Xsr.Connection
