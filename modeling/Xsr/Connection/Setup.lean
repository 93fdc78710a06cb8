import Xsr.Connection.Cleanup

/-!
# Setup — what each step of an accept does

Every step of `add_connection_set` fails and leaves the maps as they were,
or does one of the writes below.
-/

namespace Xsr.Connection

open Kernel Lib

/-- A socket is opened for a member. -/
def Router.connect (s : Router) (i : SetIndex) (m : Member) (fd : Nat) (socket : UInt64) : Router :=
  (s.openSocket fd socket).modify i fun set =>
    { set with fds := Function.update set.fds m (some fd) }

/-- The cookie of a member is known. -/
def Router.learnCookie (s : Router) (i : SetIndex) (m : Member) (socket : UInt64) : Router :=
  s.modify i fun set => { set with cookies := Function.update set.cookies m socket }

/-- The lifecycle entry of the client is installed. -/
def Router.placeLifecycle (s : Router) (i : SetIndex) : Router :=
  let lifecycle := s.world.lifecycle.update ((s.set i).cookies 0) emptyLifecycle
  { s with world := { s.world with lifecycle := lifecycle } }.record.modify i fun set =>
    { set with lifecycleInstalled := true }

/-- The route of a member is installed. -/
def Router.placeRoute (s : Router) (i : SetIndex) (m : Member) : Router :=
  let routes := s.world.routes.update ((s.set i).cookies m) ((s.set i).route m)
  { s with world := { s.world with routes := routes } }.record.modify i fun set =>
    { set with routeInstalled := Function.update set.routeInstalled m true }

/-- The socket of a member is put into its slot. -/
def Router.placeSlot (s : Router) (i : SetIndex) (m : Member) (socket : UInt64) : Router :=
  let s := { s with sockMap := s.sockMap.update ((s.set i).slots m) socket }.record
  { s with manager := s.manager.takeSlot i m }

section Steps
variable (calls : AddCalls) (i : SetIndex) (m : Member) (s : Router)

theorem connectMember_cases :
    (calls.socket m = none ∧ connectMember calls i m s =
      (s.modify i fun set => { set with fds := Function.update set.fds m none }, false)) ∨
    ∃ fd socket, calls.socket m = some (fd, socket) ∧
      connectMember calls i m s = (s.connect i m fd socket, true) := by
  cases h : calls.socket m with
  | none => exact .inl ⟨rfl, by simp [connectMember, h]⟩
  | some p => exact .inr ⟨p.1, p.2, rfl, by simp [connectMember, h, Router.connect]⟩

/-- The socket behind the descriptor of a member. -/
def Router.socketOf (s : Router) (i : SetIndex) (m : Member) : Option UInt64 :=
  ((s.set i).fds m).bind s.descriptors

theorem readCookie_cases :
    ((s.socketOf i m = none ∨ calls.cookieFault m = true) ∧
      readCookie calls i m s = (s, false)) ∨
    ∃ socket, s.socketOf i m = some socket ∧ calls.cookieFault m = false ∧
      readCookie calls i m s = (s.learnCookie i m socket, true) := by
  cases h : s.socketOf i m with
  | none =>
      rw [Router.socketOf] at h
      exact .inl ⟨.inl rfl, by simp [readCookie, h]⟩
  | some socket =>
      rw [Router.socketOf] at h
      cases hfault : calls.cookieFault m with
      | true => exact .inl ⟨.inr rfl, by simp [readCookie, h, hfault]⟩
      | false =>
          exact .inr ⟨socket, rfl, rfl, by simp [readCookie, h, hfault, Router.learnCookie]⟩

theorem readInitialBytes_cases :
    (backendBytesReceived calls.bytesReceived = none ∧ readInitialBytes calls i s = (s, false)) ∨
    ∃ total, backendBytesReceived calls.bytesReceived = some total ∧
      readInitialBytes calls i s =
        (s.modify i fun set => { set with initialBackendBytesReceived := total }, true) := by
  cases h : backendBytesReceived calls.bytesReceived with
  | none => exact .inl ⟨rfl, by simp [readInitialBytes, h]⟩
  | some total => exact .inr ⟨total, rfl, by simp [readInitialBytes, h]⟩

theorem installLifecycle_cases :
    ((calls.lifecycleFault = true ∨ s.world.lifecycle ((s.set i).cookies 0) ≠ none) ∧
      installLifecycle calls i s = (s, false)) ∨
    (calls.lifecycleFault = false ∧ s.world.lifecycle ((s.set i).cookies 0) = none ∧
      installLifecycle calls i s = (s.placeLifecycle i, true)) := by
  by_cases h : calls.lifecycleFault = true ∨ s.world.lifecycle ((s.set i).cookies 0) ≠ none
  · exact .inl ⟨h, by rw [installLifecycle, if_pos h]⟩
  · obtain ⟨hfault, hnone⟩ := not_or.mp h
    refine .inr ⟨Bool.not_eq_true _ ▸ hfault, not_not.mp hnone, ?_⟩
    rw [installLifecycle, if_neg h]
    rfl

theorem installRoute_cases :
    (calls.routeFault m = true ∧ installRoute calls i m s = (s, false)) ∨
    (calls.routeFault m = false ∧ installRoute calls i m s = (s.placeRoute i m, true)) := by
  cases h : calls.routeFault m with
  | true => exact .inl ⟨rfl, by simp [installRoute, h]⟩
  | false => exact .inr ⟨rfl, by simp [installRoute, h, Router.placeRoute]⟩

theorem installSlot_cases :
    ((s.socketOf i m = none ∨ calls.slotFault m = true) ∧
      installSlot calls i m s = (s, false)) ∨
    ∃ socket, s.socketOf i m = some socket ∧ calls.slotFault m = false ∧
      installSlot calls i m s = (s.placeSlot i m socket, true) := by
  cases h : s.socketOf i m with
  | none =>
      rw [Router.socketOf] at h
      exact .inl ⟨.inl rfl, by simp [installSlot, h]⟩
  | some socket =>
      rw [Router.socketOf] at h
      cases hfault : calls.slotFault m with
      | true => exact .inl ⟨.inr rfl, by simp [installSlot, h, hfault]⟩
      | false => exact .inr ⟨socket, rfl, rfl, by simp [installSlot, h, hfault, Router.placeSlot]⟩

end Steps

/-! ## What a setup keeps -/

theorem placeSlot_set (s : Router) (i : SetIndex) (m : Member) (socket : UInt64) :
    (s.placeSlot i m socket).set i = { s.set i with
      sockmapInstalled := Function.update (s.set i).sockmapInstalled m true } :=
  Function.update_self ..

/-- The steps after the baseline is read. -/
def installs (calls : AddCalls) (i : SetIndex) : Program Router :=
  (installLifecycle calls i).andThen <|
  (Program.each (installRoute calls i) members).andThen <|
  Program.each (installSlot calls i) members

/-- What the installations of a setup keep. -/
structure InstallsKeep (i : SetIndex) (P : Router → Prop) : Prop where
  placeLifecycle : ∀ s, P s → P (s.placeLifecycle i)
  placeRoute : ∀ s m, P s → P (s.placeRoute i m)
  placeSlot : ∀ s m socket, P s → P (s.placeSlot i m socket)

/-- What every step of a setup keeps. -/
structure SetupKeeps (calls : AddCalls) (i : SetIndex) (P : Router → Prop) : Prop
    extends InstallsKeep i P where
  refuse : ∀ s, ∀ m ∈ backends, P s →
    P (s.modify i fun set => { set with fds := Function.update set.fds m none })
  connect : ∀ s, ∀ m ∈ backends, ∀ fd socket, calls.socket m = some (fd, socket) → P s →
    P (s.connect i m fd socket)
  learnCookie : ∀ s m socket, s.socketOf i m = some socket → P s → P (s.learnCookie i m socket)
  note : ∀ s total, P s →
    P (s.modify i fun set => { set with initialBackendBytesReceived := total })

section Keeps
variable {calls : AddCalls} {i : SetIndex} {P : Router → Prop}

theorem InstallsKeep.installs (keeps : InstallsKeep i P) :
    ∀ s, P s → P (installs calls i s).1 := by
  refine Program.andThen_keeps (fun s h => ?_) <| Program.andThen_keeps
    (Program.each_keeps (fun m s h => ?_) members) <| Program.each_keeps (fun m s h => ?_) members
  · rcases installLifecycle_cases calls i s with ⟨-, heq⟩ | ⟨-, -, heq⟩ <;> rw [heq]
    · exact h
    · exact keeps.placeLifecycle s h
  · rcases installRoute_cases calls i m s with ⟨-, heq⟩ | ⟨-, heq⟩ <;> rw [heq]
    · exact h
    · exact keeps.placeRoute s m h
  · rcases installSlot_cases calls i m s with ⟨-, heq⟩ | ⟨socket, -, -, heq⟩ <;> rw [heq]
    · exact h
    · exact keeps.placeSlot s m socket h

/-- **The setup rule**: what every step keeps, a setup keeps, wherever it
stops. -/
theorem SetupKeeps.setup (keeps : SetupKeeps calls i P) : ∀ s, P s → P (setup calls i s).1 := by
  refine Program.andThen_keeps (Program.each_keeps_mem fun m hm s h => ?_) <|
    Program.andThen_keeps (Program.each_keeps (fun m s h => ?_) members) <|
    Program.andThen_keeps (fun s h => ?_) keeps.installs
  · rcases connectMember_cases calls i m s with ⟨-, heq⟩ | ⟨fd, socket, hsocket, heq⟩ <;> rw [heq]
    · exact keeps.refuse s m hm h
    · exact keeps.connect s m hm fd socket hsocket h
  · rcases readCookie_cases calls i m s with ⟨-, heq⟩ | ⟨socket, hsocket, -, heq⟩ <;> rw [heq]
    · exact h
    · exact keeps.learnCookie s m socket hsocket h
  · rcases readInitialBytes_cases calls i s with ⟨-, heq⟩ | ⟨total, -, heq⟩ <;> rw [heq]
    · exact h
    · exact keeps.note s total h

end Keeps

section Steps
variable (calls : AddCalls) (i : SetIndex) (m : Member) (s : Router)

/-- The set is taken off the free stack. -/
def Router.allocate (s : Router) (i : SetIndex) (clientFd : Nat) : Router :=
  { s with manager := s.manager.allocate i clientFd }

/-- An accept finds no set, or sets one up: then it activates the set, or
reaps it where the setup stopped. -/
theorem add_cases (clientFd : Nat) :
    (s.manager.freeCount = 0 ∧ addConnectionSet calls clientFd s = (s.close clientFd false, false)) ∨
    (s.manager.freeCount ≠ 0 ∧
      maxConnectionSets ≤ s.manager.freeSets (s.manager.freeCount - 1)) ∨
    ∃ i : SetIndex, s.manager.freeCount ≠ 0 ∧
      s.manager.freeSets (s.manager.freeCount - 1) = i ∧
      (((setup calls i (s.allocate i clientFd)).2 = true ∧ addConnectionSet calls clientFd s =
        ({ (setup calls i (s.allocate i clientFd)).1 with
            manager := (setup calls i (s.allocate i clientFd)).1.manager.activate i }, true)) ∨
      ((setup calls i (s.allocate i clientFd)).2 = false ∧ addConnectionSet calls clientFd s =
        ((reapConnectionSet calls.reap i (setup calls i (s.allocate i clientFd)).1).1, false))) := by
  by_cases hfree : s.manager.freeCount = 0
  · exact .inl ⟨hfree, by rw [addConnectionSet, if_pos hfree]⟩
  · by_cases htop : s.manager.freeSets (s.manager.freeCount - 1) < maxConnectionSets
    · refine .inr (.inr ⟨⟨_, htop⟩, hfree, rfl, ?_⟩)
      rw [addConnectionSet, if_neg hfree, dif_pos htop]
      have hstart : ({ s with manager := s.manager.allocate ⟨_, htop⟩ clientFd } : Router) =
          s.allocate ⟨_, htop⟩ clientFd := rfl
      dsimp only
      rw [hstart]
      rcases hsetup : setup calls ⟨_, htop⟩ (s.allocate ⟨_, htop⟩ clientFd) with ⟨t, _ | _⟩
      · exact .inr ⟨rfl, rfl⟩
      · exact .inl ⟨rfl, rfl⟩
    · exact .inr (.inl ⟨hfree, Nat.le_of_not_lt htop⟩)

end Steps

end Xsr.Connection
