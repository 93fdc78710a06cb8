import Xsr.Connection.Lifecycle

/-!
# Cleanup — what the two passes of a reap do

Each deletion of a pass either fails and leaves everything but the map
history as it was, or empties its key and clears the flag. `Cleanup` is what
no deletion and no close touches; `Released` is what a pass that reports no
failure has achieved.
-/

namespace Xsr.Connection

open Kernel Lib

/-! ## One step -/

section Frame
variable (s : Router) (i : SetIndex) (f : ConnectionSet → ConnectionSet)

@[simp] theorem record_manager : s.record.manager = s.manager := rfl
@[simp] theorem record_world : s.record.world = s.world := rfl
@[simp] theorem record_sockMap : s.record.sockMap = s.sockMap := rfl
@[simp] theorem record_descriptors : s.record.descriptors = s.descriptors := rfl
@[simp] theorem record_closed : s.record.closed = s.closed := rfl
@[simp] theorem record_used : s.record.used = s.used := rfl
@[simp] theorem record_set (j : SetIndex) : s.record.set j = s.set j := rfl

@[simp] theorem modify_world : (s.modify i f).world = s.world := rfl
@[simp] theorem modify_sockMap : (s.modify i f).sockMap = s.sockMap := rfl
@[simp] theorem modify_descriptors : (s.modify i f).descriptors = s.descriptors := rfl
@[simp] theorem modify_closed : (s.modify i f).closed = s.closed := rfl
@[simp] theorem modify_used : (s.modify i f).used = s.used := rfl

@[simp] theorem Manager.modify_self (m : Manager) : (m.modify i f).sets i = f (m.sets i) :=
  Function.update_self ..

theorem Manager.modify_of_ne (m : Manager) {j : SetIndex} (h : j ≠ i) :
    (m.modify i f).sets j = m.sets j :=
  Function.update_of_ne h ..

@[simp] theorem modify_set_self : (s.modify i f).set i = f (s.set i) :=
  Manager.modify_self ..

theorem modify_set_of_ne {j : SetIndex} (h : j ≠ i) : (s.modify i f).set j = s.set j :=
  Manager.modify_of_ne i f s.manager h

end Frame

section Deletion
variable {κ ν : Type} [DecidableEq κ]

theorem BpfMap.delete_of_none {m : BpfMap κ ν} {k : κ} (h : m k = none) : m.delete k = m := by
  rw [BpfMap.delete, ← h, Function.update_eq_self]

/-- A key that is not there counts as deleted. -/
theorem deleteMapKey_eq (fault : Bool) (m : BpfMap κ ν) (k : κ) :
    deleteMapKey fault m k = (if fault then m else m.delete k, !fault) := by
  cases fault with
  | true => rfl
  | false =>
      cases hk : m k with
      | none => simp [deleteMapKey, deleteElem, hk, BpfMap.delete_of_none hk]
      | some v => simp [deleteMapKey, deleteElem, hk]

@[inherit_doc deleteMapKey_eq]
theorem deleteSockmapSlot_eq (fault : Bool) (m : BpfMap κ ν) (k : κ) :
    deleteSockmapSlot fault m k = (if fault then m else m.delete k, !fault) := by
  cases fault with
  | true => rfl
  | false =>
      cases hk : m k with
      | none => simp [deleteSockmapSlot, deleteElem, hk, BpfMap.delete_of_none hk]
      | some v => simp [deleteSockmapSlot, deleteElem, hk]

theorem BpfMap.delete_eq_some {m : BpfMap κ ν} {k k' : κ} {v : ν} (h : m.delete k k' = some v) :
    k' ≠ k ∧ m k' = some v := by
  by_cases hk : k' = k
  · subst hk
    rw [BpfMap.delete_self] at h
    cases h
  · rw [BpfMap.delete_ne m hk] at h
    exact ⟨hk, h⟩

end Deletion

/-- The slot of a member is emptied and its flag cleared. -/
def Router.dropSlot (s : Router) (i : SetIndex) (m : Member) : Router :=
  let s := { s with sockMap := s.sockMap.delete ((s.set i).slots m) }.record
  { s with manager := s.manager.dropSlot i m }

/-- The route of a member is deleted and its flag cleared. -/
def Router.dropRoute (s : Router) (i : SetIndex) (m : Member) : Router :=
  let routes := s.world.routes.delete ((s.set i).cookies m)
  { s with world := { s.world with routes := routes } }.record.clearRoute i m

/-- The lifecycle entry is deleted and its flag cleared. -/
def Router.dropLifecycle (s : Router) (i : SetIndex) : Router :=
  let lifecycle := s.world.lifecycle.delete ((s.set i).cookies 0)
  { s with world := { s.world with lifecycle := lifecycle } }.record.clearLifecycle i

/-- The flow of the client is deleted. -/
def Router.dropFlow (s : Router) (i : SetIndex) : Router :=
  { s with world := { s.world with flows := s.world.flows.delete ((s.set i).cookies 0) } }.record

/-- The decision of the client is deleted. -/
def Router.dropDecision (s : Router) (i : SetIndex) : Router :=
  let decisions := s.world.decisions.delete ((s.set i).cookies 0)
  { s with world := { s.world with decisions := decisions } }.record

section Steps
variable (faults : PassFaults) (i : SetIndex) (s : Router) (failed : Bool) (m : Member)

theorem releaseSlot_cases :
    ((s.set i).sockmapInstalled m = false ∧ releaseSlot faults i (s, failed) m = (s, failed)) ∨
    releaseSlot faults i (s, failed) m = (s.record, true) ∨
    ((s.set i).sockmapInstalled m = true ∧
      releaseSlot faults i (s, failed) m = (s.dropSlot i m, failed)) := by
  cases hflag : (s.set i).sockmapInstalled m with
  | false => exact .inl ⟨rfl, by simp [releaseSlot, hflag]⟩
  | true =>
      cases hfault : faults.slot m with
      | true =>
          refine .inr (.inl ?_)
          simp only [releaseSlot, hflag, deleteSockmapSlot_eq, hfault, if_true]
          rfl
      | false =>
          refine .inr (.inr ⟨rfl, ?_⟩)
          simp only [releaseSlot, hflag, deleteSockmapSlot_eq, hfault, if_true]
          rfl

theorem releaseRoute_cases :
    ((s.set i).routeInstalled m = false ∧
      releaseRoute faults i (s, failed) m = (s.clearRoute i m, failed)) ∨
    releaseRoute faults i (s, failed) m = (s.record, true) ∨
    releaseRoute faults i (s, failed) m = (s.dropRoute i m, failed) := by
  cases hflag : (s.set i).routeInstalled m with
  | false => exact .inl ⟨rfl, by simp [releaseRoute, hflag, Router.clearRoute]⟩
  | true =>
      cases hfault : faults.route m with
      | true =>
          refine .inr (.inl ?_)
          simp only [releaseRoute, hflag, deleteMapKey_eq, hfault, if_true]
          rfl
      | false =>
          refine .inr (.inr ?_)
          simp only [releaseRoute, hflag, deleteMapKey_eq, hfault, if_true]
          rfl

theorem releaseLifecycle_cases :
    ((s.set i).lifecycleInstalled = false ∧
      releaseLifecycle faults i (s, failed) = (s.clearLifecycle i, failed)) ∨
    releaseLifecycle faults i (s, failed) = (s.record, true) ∨
    releaseLifecycle faults i (s, failed) = (s.dropLifecycle i, failed) := by
  cases hflag : (s.set i).lifecycleInstalled with
  | false => exact .inl ⟨rfl, by simp [releaseLifecycle, hflag, Router.clearLifecycle]⟩
  | true =>
      cases hfault : faults.lifecycle with
      | true =>
          refine .inr (.inl ?_)
          simp only [releaseLifecycle, hflag, deleteMapKey_eq, hfault, if_true]
          rfl
      | false =>
          refine .inr (.inr ?_)
          simp only [releaseLifecycle, hflag, deleteMapKey_eq, hfault, if_true]
          rfl

theorem deleteFlow_cases :
    deleteFlow faults i s = (s.record, false) ∨ deleteFlow faults i s = (s.dropFlow i, true) := by
  cases hfault : faults.flow with
  | true => exact .inl (by simp [deleteFlow, deleteMapKey_eq, hfault])
  | false => exact .inr (by simp [deleteFlow, deleteMapKey_eq, hfault, Router.dropFlow])

theorem deleteDecision_cases :
    deleteDecision faults i s = (s.record, false) ∨
      deleteDecision faults i s = (s.dropDecision i, true) := by
  cases hfault : faults.decision with
  | true => exact .inl (by simp [deleteDecision, deleteMapKey_eq, hfault])
  | false => exact .inr (by simp [deleteDecision, deleteMapKey_eq, hfault, Router.dropDecision])

end Steps

/-! ## The fields after a step -/

section Fields
variable (s : Router) (i : SetIndex) (m : Member)

@[simp] theorem dropSlot_set : (s.dropSlot i m).set i =
    { s.set i with
      sockmapInstalled := Function.update (s.set i).sockmapInstalled m false } :=
  Function.update_self ..

@[simp] theorem clearRoute_set : (s.clearRoute i m).set i =
    { s.set i with routeInstalled := Function.update (s.set i).routeInstalled m false } :=
  modify_set_self ..

@[simp] theorem dropRoute_set : (s.dropRoute i m).set i =
    { s.set i with routeInstalled := Function.update (s.set i).routeInstalled m false } :=
  modify_set_self ..

@[simp] theorem clearLifecycle_set : (s.clearLifecycle i).set i =
    { s.set i with lifecycleInstalled := false } :=
  modify_set_self ..

@[simp] theorem dropLifecycle_set : (s.dropLifecycle i).set i =
    { s.set i with lifecycleInstalled := false } :=
  modify_set_self ..

@[simp] theorem dropFlow_set (j : SetIndex) : (s.dropFlow i).set j = s.set j := rfl
@[simp] theorem dropDecision_set (j : SetIndex) : (s.dropDecision i).set j = s.set j := rfl

variable {i} in
theorem dropSlot_set_of_ne {j : SetIndex} (h : j ≠ i) : (s.dropSlot i m).set j = s.set j :=
  Function.update_of_ne h ..

variable {i} in
theorem clearRoute_set_of_ne {j : SetIndex} (h : j ≠ i) : (s.clearRoute i m).set j = s.set j :=
  modify_set_of_ne _ i _ h

variable {i} in
theorem dropRoute_set_of_ne {j : SetIndex} (h : j ≠ i) : (s.dropRoute i m).set j = s.set j :=
  modify_set_of_ne _ i _ h

variable {i} in
theorem clearLifecycle_set_of_ne {j : SetIndex} (h : j ≠ i) :
    (s.clearLifecycle i).set j = s.set j :=
  modify_set_of_ne _ i _ h

variable {i} in
theorem dropLifecycle_set_of_ne {j : SetIndex} (h : j ≠ i) :
    (s.dropLifecycle i).set j = s.set j :=
  modify_set_of_ne _ i _ h

/-- A close is one of a descriptor the member holds, or nothing. -/
theorem closeMember_cases (unlinks : Member → Bool) :
    ((s.set i).fds m = none ∧ closeMember unlinks i s m = s) ∨
    ∃ fd, (s.set i).fds m = some fd ∧ closeMember unlinks i s m =
      (s.close fd (unlinks m)).modify i fun set =>
        { set with fds := Function.update set.fds m none } := by
  cases hfd : (s.set i).fds m with
  | none => exact .inl ⟨rfl, by simp [closeMember, hfd]⟩
  | some fd => exact .inr ⟨fd, rfl, by simp [closeMember, hfd]⟩

@[simp] theorem close_manager (fd : Nat) (unlinks : Bool) :
    (s.close fd unlinks).manager = s.manager := by
  rw [Router.close]
  cases s.descriptors fd <;> rfl

@[simp] theorem close_world (fd : Nat) (unlinks : Bool) :
    (s.close fd unlinks).world = s.world := by
  rw [Router.close]
  cases s.descriptors fd <;> rfl

@[simp] theorem close_set (fd : Nat) (unlinks : Bool) (j : SetIndex) :
    (s.close fd unlinks).set j = s.set j := by
  rw [Router.set, close_manager]
  rfl

end Fields

/-! ## What every step keeps -/

/-- The steps of a cleanup of set `i` keep `P`. -/
structure Keeps (i : SetIndex) (P : Router → Prop) : Prop where
  record : ∀ s, P s → P s.record
  dropSlot : ∀ s m, (s.set i).sockmapInstalled m = true → P s → P (s.dropSlot i m)
  clearRoute : ∀ s m, (s.set i).routeInstalled m = false → P s → P (s.clearRoute i m)
  dropRoute : ∀ s m, P s → P (s.dropRoute i m)
  clearLifecycle : ∀ s, (s.set i).lifecycleInstalled = false → P s → P (s.clearLifecycle i)
  dropLifecycle : ∀ s, P s → P (s.dropLifecycle i)
  dropFlow : ∀ s, P s → P (s.dropFlow i)
  dropDecision : ∀ s, P s → P (s.dropDecision i)
  close : ∀ s unlinks m, P s → P (closeMember unlinks i s m)

section Passes
variable {i : SetIndex} {P : Router → Prop} (keeps : Keeps i P) (faults : PassFaults)

include keeps

theorem Keeps.releaseSlot {p : Router × Bool} (m : Member) (h : P p.1) :
    P (releaseSlot faults i p m).1 := by
  rcases releaseSlot_cases faults i p.1 p.2 m with ⟨-, heq⟩ | heq | ⟨hflag, heq⟩
  · rw [heq]; exact h
  · rw [heq]; exact keeps.record _ h
  · rw [heq]; exact keeps.dropSlot _ m hflag h

theorem Keeps.releaseRoute {p : Router × Bool} (m : Member) (h : P p.1) :
    P (releaseRoute faults i p m).1 := by
  rcases releaseRoute_cases faults i p.1 p.2 m with ⟨hflag, heq⟩ | heq | heq
  · rw [heq]; exact keeps.clearRoute _ m hflag h
  · rw [heq]; exact keeps.record _ h
  · rw [heq]; exact keeps.dropRoute _ m h

theorem Keeps.releaseLifecycle {p : Router × Bool} (h : P p.1) :
    P (releaseLifecycle faults i p).1 := by
  rcases releaseLifecycle_cases faults i p.1 p.2 with ⟨hflag, heq⟩ | heq | heq
  · rw [heq]; exact keeps.clearLifecycle _ hflag h
  · rw [heq]; exact keeps.record _ h
  · rw [heq]; exact keeps.dropLifecycle _ h

theorem Keeps.deleteFlow {s : Router} (h : P s) : P (deleteFlow faults i s).1 := by
  rcases deleteFlow_cases faults i s with heq | heq
  · rw [heq]; exact keeps.record _ h
  · rw [heq]; exact keeps.dropFlow _ h

theorem Keeps.deleteDecision {s : Router} (h : P s) : P (deleteDecision faults i s).1 := by
  rcases deleteDecision_cases faults i s with heq | heq
  · rw [heq]; exact keeps.record _ h
  · rw [heq]; exact keeps.dropDecision _ h

theorem Keeps.slots {p : Router × Bool} (ms : List Member) (h : P p.1) :
    P (ms.foldl (Connection.releaseSlot faults i) p).1 :=
  List.foldlRecOn (motive := fun p : Router × Bool => P p.1) ms _ h
    fun _ hp m _ => keeps.releaseSlot faults m hp

theorem Keeps.routes {p : Router × Bool} (ms : List Member) (h : P p.1) :
    P (ms.foldl (Connection.releaseRoute faults i) p).1 :=
  List.foldlRecOn (motive := fun p : Router × Bool => P p.1) ms _ h
    fun _ hp m _ => keeps.releaseRoute faults m hp

theorem Keeps.both {p : Router × Bool} (ms : List Member) (h : P p.1) :
    P (ms.foldl (releaseMember faults i) p).1 :=
  List.foldlRecOn (motive := fun p : Router × Bool => P p.1) ms _ h
    fun _ hp m _ => keeps.releaseRoute faults m (keeps.releaseSlot faults m hp)

theorem Keeps.firstPass {s : Router} (h : P s) : P (firstPass faults i s).1 := by
  have hmembers := keeps.routes faults members (keeps.slots faults (p := (s, false)) members h)
  rw [Connection.firstPass, firstClient]
  split
  · have hflow := keeps.deleteFlow faults hmembers
    exact keeps.deleteDecision faults (keeps.releaseLifecycle faults (p := (_, _)) hflow)
  · exact hmembers

theorem Keeps.closes {s : Router} (unlinks : Member → Bool) (h : P s) :
    P (members.foldl (closeMember unlinks i) s) :=
  List.foldlRecOn (motive := P) members _ h fun _ hs m _ => keeps.close _ unlinks m hs

theorem Keeps.secondClient {p : Router × Bool} (h : P p.1) : P (secondClient faults i p).1 := by
  have hflow := keeps.deleteFlow faults h
  rw [Connection.secondClient]
  split
  · dsimp only
    split
    · exact keeps.deleteDecision faults hflow
    · exact hflow
  · exact h

theorem Keeps.secondPass {s : Router} (h : P s) : P (secondPass faults i s).1 :=
  keeps.releaseLifecycle faults
    (keeps.secondClient faults (keeps.both faults (p := (s, false)) members h))

theorem Keeps.cleanup {s : Router} (calls : ReapCalls) (h : P s) : P (cleanup calls i s).1 := by
  have hclosed := keeps.closes calls.unlinks (keeps.firstPass calls.first h)
  rw [Connection.cleanup]
  split
  · exact keeps.secondPass calls.second hclosed
  · exact hclosed

end Passes

theorem Keeps.all {ι : Sort*} {i : SetIndex} {P : ι → Router → Prop} (h : ∀ x, Keeps i (P x)) :
    Keeps i fun s => ∀ x, P x s where
  record s hs x := (h x).record s (hs x)
  dropSlot s m hflag hs x := (h x).dropSlot s m hflag (hs x)
  clearRoute s m hflag hs x := (h x).clearRoute s m hflag (hs x)
  dropRoute s m hs x := (h x).dropRoute s m (hs x)
  clearLifecycle s hflag hs x := (h x).clearLifecycle s hflag (hs x)
  dropLifecycle s hs x := (h x).dropLifecycle s (hs x)
  dropFlow s hs x := (h x).dropFlow s (hs x)
  dropDecision s hs x := (h x).dropDecision s (hs x)
  close s unlinks m hs x := (h x).close s unlinks m (hs x)

/-! ## What a pass without a failure achieves -/

section Kept
variable (i : SetIndex) (m : Member)

theorem keeps_slot : Keeps i fun s => (s.set i).sockmapInstalled m = false where
  record _ h := h
  dropSlot s k _ h := by
    rcases eq_or_ne m k with rfl | hk
    · simp
    · simpa [hk] using h
  clearRoute s k _ h := by simpa using h
  dropRoute s k h := by simpa using h
  clearLifecycle s _ h := by simpa using h
  dropLifecycle s h := by simpa using h
  dropFlow s h := h
  dropDecision s h := h
  close s unlinks k h := by
    rcases closeMember_cases s i k unlinks with ⟨-, heq⟩ | ⟨fd, -, heq⟩
    · rw [heq]; exact h
    · rw [heq]; simpa using h

theorem keeps_route : Keeps i fun s => (s.set i).routeInstalled m = false where
  record _ h := h
  dropSlot s k _ h := by simpa using h
  clearRoute s k _ h := by
    rcases eq_or_ne m k with rfl | hk
    · simp
    · simpa [hk] using h
  dropRoute s k h := by
    rcases eq_or_ne m k with rfl | hk
    · simp
    · simpa [hk] using h
  clearLifecycle s _ h := by simpa using h
  dropLifecycle s h := by simpa using h
  dropFlow s h := h
  dropDecision s h := h
  close s unlinks k h := by
    rcases closeMember_cases s i k unlinks with ⟨-, heq⟩ | ⟨fd, -, heq⟩
    · rw [heq]; exact h
    · rw [heq]; simpa using h

/-- The client's cookie is `c` and has no flow. -/
def NoFlow (c : UInt64) (s : Router) : Prop :=
  (s.set i).cookies 0 = c ∧ s.world.flows c = none

/-- The client's cookie is `c` and has no decision. -/
def NoDecision (c : UInt64) (s : Router) : Prop :=
  (s.set i).cookies 0 = c ∧ s.world.decisions c = none

theorem BpfMap.delete_of_eq_none {κ ν : Type} [DecidableEq κ] {m : BpfMap κ ν} {k k' : κ}
    (h : m k' = none) : m.delete k k' = none := by
  by_contra hsome
  obtain ⟨v, hv⟩ := Option.ne_none_iff_exists'.mp hsome
  rw [(BpfMap.delete_eq_some hv).2] at h
  cases h

theorem keeps_noFlow (c : UInt64) : Keeps i (NoFlow i c) where
  record _ h := h
  dropSlot s k _ h := ⟨by simpa using h.1, h.2⟩
  clearRoute s k _ h := ⟨by simpa using h.1, h.2⟩
  dropRoute s k h := ⟨by simpa using h.1, h.2⟩
  clearLifecycle s _ h := ⟨by simpa using h.1, h.2⟩
  dropLifecycle s h := ⟨by simpa using h.1, h.2⟩
  dropFlow s h := ⟨h.1, BpfMap.delete_of_eq_none h.2⟩
  dropDecision s h := h
  close s unlinks k h := by
    rcases closeMember_cases s i k unlinks with ⟨-, heq⟩ | ⟨fd, -, heq⟩
    · rw [heq]; exact h
    · rw [heq]; exact ⟨by simpa using h.1, by simpa using h.2⟩

theorem keeps_noDecision (c : UInt64) : Keeps i (NoDecision i c) where
  record _ h := h
  dropSlot s k _ h := ⟨by simpa using h.1, h.2⟩
  clearRoute s k _ h := ⟨by simpa using h.1, h.2⟩
  dropRoute s k h := ⟨by simpa using h.1, h.2⟩
  clearLifecycle s _ h := ⟨by simpa using h.1, h.2⟩
  dropLifecycle s h := ⟨by simpa using h.1, h.2⟩
  dropFlow s h := h
  dropDecision s h := ⟨h.1, BpfMap.delete_of_eq_none h.2⟩
  close s unlinks k h := by
    rcases closeMember_cases s i k unlinks with ⟨-, heq⟩ | ⟨fd, -, heq⟩
    · rw [heq]; exact h
    · rw [heq]; exact ⟨by simpa using h.1, by simpa using h.2⟩

theorem keeps_lifecycle : Keeps i fun s => (s.set i).lifecycleInstalled = false where
  record _ h := h
  dropSlot s k _ h := by simpa using h
  clearRoute s k _ h := by simpa using h
  dropRoute s k h := by simpa using h
  clearLifecycle s _ h := by simp
  dropLifecycle s h := by simp
  dropFlow s h := h
  dropDecision s h := h
  close s unlinks k h := by
    rcases closeMember_cases s i k unlinks with ⟨-, heq⟩ | ⟨fd, -, heq⟩
    · rw [heq]; exact h
    · rw [heq]; simpa using h

theorem keeps_cookie (c : UInt64) : Keeps i fun s => (s.set i).cookies m = c where
  record _ h := h
  dropSlot s k _ h := by simpa using h
  clearRoute s k _ h := by simpa using h
  dropRoute s k h := by simpa using h
  clearLifecycle s _ h := by simpa using h
  dropLifecycle s h := by simpa using h
  dropFlow s h := h
  dropDecision s h := h
  close s unlinks k h := by
    rcases closeMember_cases s i k unlinks with ⟨-, heq⟩ | ⟨fd, -, heq⟩
    · rw [heq]; exact h
    · rw [heq]; simpa using h

end Kept

/-- Everything the flags and the client's cookie account for is gone. -/
structure Released (i : SetIndex) (c : UInt64) (s : Router) : Prop where
  slot : ∀ m, (s.set i).sockmapInstalled m = false
  route : ∀ m, (s.set i).routeInstalled m = false
  lifecycle : c ≠ 0 → (s.set i).lifecycleInstalled = false
  flow : c ≠ 0 → s.world.flows c = none
  decision : c ≠ 0 → s.world.decisions c = none

section Released
variable (faults : PassFaults) (i : SetIndex) {p : Router × Bool} (m : Member)

theorem releaseSlot_done (h : (releaseSlot faults i p m).2 = false) :
    p.2 = false ∧ ((releaseSlot faults i p m).1.set i).sockmapInstalled m = false := by
  rcases releaseSlot_cases faults i p.1 p.2 m with ⟨hflag, heq⟩ | heq | ⟨-, heq⟩
  · rw [heq] at h ⊢; exact ⟨h, hflag⟩
  · rw [heq] at h; cases h
  · rw [heq] at h ⊢; exact ⟨h, by simp⟩

theorem releaseRoute_done (h : (releaseRoute faults i p m).2 = false) :
    p.2 = false ∧ ((releaseRoute faults i p m).1.set i).routeInstalled m = false := by
  rcases releaseRoute_cases faults i p.1 p.2 m with ⟨-, heq⟩ | heq | heq
  · rw [heq] at h ⊢; exact ⟨h, by simp⟩
  · rw [heq] at h; cases h
  · rw [heq] at h ⊢; exact ⟨h, by simp⟩

theorem releaseLifecycle_done (h : (releaseLifecycle faults i p).2 = false) :
    p.2 = false ∧ ((releaseLifecycle faults i p).1.set i).lifecycleInstalled = false := by
  rcases releaseLifecycle_cases faults i p.1 p.2 with ⟨-, heq⟩ | heq | heq
  · rw [heq] at h ⊢; exact ⟨h, by simp⟩
  · rw [heq] at h; cases h
  · rw [heq] at h ⊢; exact ⟨h, by simp⟩

theorem deleteFlow_done {s : Router} {c : UInt64} (hc : (s.set i).cookies 0 = c)
    (h : (deleteFlow faults i s).2 = true) : NoFlow i c (deleteFlow faults i s).1 := by
  rcases deleteFlow_cases faults i s with heq | heq
  · rw [heq] at h; cases h
  · rw [heq]
    exact ⟨hc, by rw [← hc]; exact BpfMap.delete_self ..⟩

theorem deleteDecision_done {s : Router} {c : UInt64} (hc : (s.set i).cookies 0 = c)
    (h : (deleteDecision faults i s).2 = true) : NoDecision i c (deleteDecision faults i s).1 := by
  rcases deleteDecision_cases faults i s with heq | heq
  · rw [heq] at h; cases h
  · rw [heq]
    exact ⟨hc, by rw [← hc]; exact BpfMap.delete_self ..⟩

theorem mem_members : m ∈ members := by
  revert m
  decide

theorem slots_done (h : (members.foldl (releaseSlot faults i) p).2 = false) :
    p.2 = false ∧
      ((members.foldl (releaseSlot faults i) p).1.set i).sockmapInstalled m = false := by
  have hflags := foldl_establishes (f := releaseSlot faults i)
    (D := fun q k => q.2 = false → (q.1.set i).sockmapInstalled k = false)
    (fun q k hq => (releaseSlot_done faults i k hq).2)
    (fun q k l hk hq => (keeps_slot i l).releaseSlot faults k (hk (releaseSlot_done faults i k hq).1))
    members p m (mem_members m) h
  refine ⟨?_, hflags⟩
  exact List.foldlRecOn (motive := fun q : Router × Bool => q.2 = false → p.2 = false) members
    _ id (fun q hq k _ hk => hq (releaseSlot_done faults i k hk).1) h

theorem routes_done (h : (members.foldl (releaseRoute faults i) p).2 = false) :
    p.2 = false ∧
      ((members.foldl (releaseRoute faults i) p).1.set i).routeInstalled m = false := by
  have hflags := foldl_establishes (f := releaseRoute faults i)
    (D := fun q k => q.2 = false → (q.1.set i).routeInstalled k = false)
    (fun q k hq => (releaseRoute_done faults i k hq).2)
    (fun q k l hk hq =>
      (keeps_route i l).releaseRoute faults k (hk (releaseRoute_done faults i k hq).1))
    members p m (mem_members m) h
  refine ⟨?_, hflags⟩
  exact List.foldlRecOn (motive := fun q : Router × Bool => q.2 = false → p.2 = false) members
    _ id (fun q hq k _ hk => hq (releaseRoute_done faults i k hk).1) h

theorem both_done (h : (members.foldl (releaseMember faults i) p).2 = false) :
    ((members.foldl (releaseMember faults i) p).1.set i).sockmapInstalled m = false ∧
      ((members.foldl (releaseMember faults i) p).1.set i).routeInstalled m = false := by
  refine foldl_establishes (f := releaseMember faults i)
    (D := fun q k => q.2 = false →
      (q.1.set i).sockmapInstalled k = false ∧ (q.1.set i).routeInstalled k = false)
    ?_ ?_ members p m (mem_members m) h
  · intro q k hq
    obtain ⟨hslot, hroute⟩ := releaseRoute_done faults i k hq
    exact ⟨(keeps_slot i k).releaseRoute faults k (releaseSlot_done faults i k hslot).2, hroute⟩
  · intro q k l hk hq
    have hslot := (releaseRoute_done faults i k hq).1
    obtain ⟨h1, h2⟩ := hk (releaseSlot_done faults i k hslot).1
    exact ⟨(keeps_slot i l).releaseRoute faults k ((keeps_slot i l).releaseSlot faults k h1),
      (keeps_route i l).releaseRoute faults k ((keeps_route i l).releaseSlot faults k h2)⟩

end Released

theorem secondClient_done {faults : PassFaults} {i : SetIndex} {p : Router × Bool} {c : UInt64}
    (hc : (p.1.set i).cookies 0 = c) (h : (secondClient faults i p).2 = false) :
    p.2 = false ∧ (c ≠ 0 → NoFlow i c (secondClient faults i p).1 ∧
      NoDecision i c (secondClient faults i p).1) := by
  rw [secondClient, hc] at h ⊢
  split_ifs at h ⊢ with hne
  · cases hflow : (deleteFlow faults i p.1).2 with
    | false => simp [hflow] at h
    | true =>
        simp only [hflow, if_true, Bool.or_eq_false_iff, Bool.not_eq_false'] at h ⊢
        have hflowDone := deleteFlow_done faults i hc hflow
        exact ⟨h.1, fun _ => ⟨(keeps_noFlow i c).deleteDecision faults hflowDone,
          deleteDecision_done faults i hflowDone.1 h.2⟩⟩
  · exact ⟨h, fun h => absurd h hne⟩

theorem Released.of_noLifecycle {i : SetIndex} {c : UInt64} {s : Router}
    (slot : ∀ m, (s.set i).sockmapInstalled m = false)
    (route : ∀ m, (s.set i).routeInstalled m = false)
    (lifecycle : c ≠ 0 → (s.set i).lifecycleInstalled = false) (flow : c ≠ 0 → NoFlow i c s)
    (decision : c ≠ 0 → NoDecision i c s) : Released i c s :=
  ⟨slot, route, lifecycle, fun h => (flow h).2, fun h => (decision h).2⟩

section Passes
variable (faults : PassFaults) {i : SetIndex} {s : Router} {c : UInt64}

/-- A first pass without a failure releases everything. -/
theorem firstPass_released (hc : (s.set i).cookies 0 = c) (h : (firstPass faults i s).2 = false) :
    Released i c (firstPass faults i s).1 := by
  have hcookie : ((members.foldl (releaseRoute faults i)
      (members.foldl (releaseSlot faults i) (s, false))).1.set i).cookies 0 = c :=
    (keeps_cookie i 0 c).routes faults members
      ((keeps_cookie i 0 c).slots faults (p := (s, false)) members hc)
  rw [firstPass, firstClient, hcookie] at h ⊢
  split_ifs at h ⊢ with hne
  · simp only [Bool.or_eq_false_iff, Bool.not_eq_false'] at h
    obtain ⟨hlifecycle, hdecision⟩ := h
    obtain ⟨hflow, hgone⟩ := releaseLifecycle_done faults i hlifecycle
    simp only [Bool.or_eq_false_iff, Bool.not_eq_false'] at hflow
    obtain ⟨hmembers, hflow⟩ := hflow
    have hslots := (routes_done faults i 0 hmembers).1
    -- the flags stay cleared through the rest of the pass
    have hrest : ∀ {P : Router → Prop}, Keeps i P → ∀ q : Router × Bool, P q.1 →
        P (deleteDecision faults i (releaseLifecycle faults i ((deleteFlow faults i q.1).1,
          q.2 || !(deleteFlow faults i q.1).2)).1).1 := fun keeps q hq =>
      keeps.deleteDecision faults
        (keeps.releaseLifecycle faults (p := (_, _)) (keeps.deleteFlow faults hq))
    have hflowDone := deleteFlow_done faults i hcookie hflow
    refine .of_noLifecycle (fun m => hrest (keeps_slot i m) _ ?_)
      (fun m => hrest (keeps_route i m) _ (routes_done faults i m hmembers).2) (fun _ => ?_)
      (fun _ => ?_) (fun _ => ?_)
    · exact (keeps_slot i m).routes faults members (slots_done faults i m hslots).2
    · exact (keeps_lifecycle i).deleteDecision faults hgone
    · exact (keeps_noFlow i c).deleteDecision faults
        ((keeps_noFlow i c).releaseLifecycle faults (p := (_, _)) hflowDone)
    · refine deleteDecision_done faults i ?_ hdecision
      exact (keeps_cookie i 0 c).releaseLifecycle faults (p := (_, _)) hflowDone.1
  · have hslots := (routes_done faults i 0 h).1
    refine ⟨fun m => ?_, fun m => (routes_done faults i m h).2, fun h => absurd h hne,
      fun h => absurd h hne, fun h => absurd h hne⟩
    exact (keeps_slot i m).routes faults members (slots_done faults i m hslots).2

/-- A second pass without a failure releases everything, and the lifecycle
entry whatever the client's cookie is. -/
theorem secondPass_released (hc : (s.set i).cookies 0 = c)
    (h : (secondPass faults i s).2 = false) : Released i c (secondPass faults i s).1 := by
  have hcookie : ((members.foldl (releaseMember faults i) (s, false)).1.set i).cookies 0 = c :=
    (keeps_cookie i 0 c).both faults (p := (s, false)) members hc
  rw [secondPass] at h ⊢
  obtain ⟨hclient, hgone⟩ := releaseLifecycle_done faults i h
  obtain ⟨hmembers, hentries⟩ := secondClient_done hcookie hclient
  have hrest : ∀ {P : Router → Prop}, Keeps i P →
      P (members.foldl (releaseMember faults i) (s, false)).1 → P _ := fun keeps hq =>
    keeps.releaseLifecycle faults (keeps.secondClient faults hq)
  exact .of_noLifecycle (fun m => hrest (keeps_slot i m) (both_done faults i m hmembers).1)
    (fun m => hrest (keeps_route i m) (both_done faults i m hmembers).2) (fun _ => hgone)
    (fun hne => (keeps_noFlow i c).releaseLifecycle faults (hentries hne).1)
    (fun hne => (keeps_noDecision i c).releaseLifecycle faults (hentries hne).2)

/-- **A reap that reports no failure has released everything.** -/
theorem cleanup_released (calls : ReapCalls) (h : (cleanup calls i s).2 = false) :
    Released i ((s.set i).cookies 0) (cleanup calls i s).1 := by
  have hcookie := (keeps_cookie i 0 _).closes calls.unlinks
    ((keeps_cookie i 0 _).firstPass calls.first (rfl : (s.set i).cookies 0 = _))
  rw [cleanup] at h ⊢
  split_ifs at h ⊢ with hfirst
  · exact secondPass_released calls.second hcookie h
  · have hreleased := firstPass_released calls.first rfl (Bool.not_eq_true _ ▸ hfirst)
    exact ⟨fun m => (keeps_slot i m).closes _ (hreleased.slot m),
      fun m => (keeps_route i m).closes _ (hreleased.route m),
      fun hne => (keeps_lifecycle i).closes _ (hreleased.lifecycle hne),
      fun hne => ((keeps_noFlow i _).closes _
        ⟨(keeps_cookie i 0 _).firstPass calls.first rfl, hreleased.flow hne⟩).2,
      fun hne => ((keeps_noDecision i _).closes _
        ⟨(keeps_cookie i 0 _).firstPass calls.first rfl, hreleased.decision hne⟩).2⟩

end Passes

/-! ## What a cleanup leaves alone -/

/-- The other sets, and of set `i` and the manager all but the flags, the
descriptors and the entry count. -/
structure Frame (i : SetIndex) (s s' : Router) : Prop where
  other : ∀ j, j ≠ i → s'.set j = s.set j
  slots : (s'.set i).slots = (s.set i).slots
  cookies : (s'.set i).cookies = (s.set i).cookies
  baseline : (s'.set i).initialBackendBytesReceived = (s.set i).initialBackendBytesReceived
  allocated : (s'.set i).allocated = (s.set i).allocated
  active : (s'.set i).active = (s.set i).active
  freeSets : s'.manager.freeSets = s.manager.freeSets
  freeCount : s'.manager.freeCount = s.manager.freeCount
  activeCount : s'.manager.activeCount = s.manager.activeCount
  quarantinedCount : s'.manager.quarantinedCount = s.manager.quarantinedCount
  acceptedTotal : s'.manager.acceptedTotal = s.manager.acceptedTotal
  reapedTotal : s'.manager.reapedTotal = s.manager.reapedTotal
  retired : s'.manager.retired = s.manager.retired
  used : s'.used = s.used

theorem Frame.refl (i : SetIndex) (s : Router) : Frame i s s := by
  constructor <;> first | rfl | exact fun _ _ => rfl

/-- A step that changes only flags and descriptors of set `i`, and maps. -/
theorem Frame.step {i : SetIndex} {s t t' : Router} (h : Frame i s t)
    (other : ∀ j, j ≠ i → t'.set j = t.set j)
    (own : (t'.set i).slots = (t.set i).slots ∧ (t'.set i).cookies = (t.set i).cookies ∧
      (t'.set i).initialBackendBytesReceived = (t.set i).initialBackendBytesReceived ∧
      (t'.set i).allocated = (t.set i).allocated ∧ (t'.set i).active = (t.set i).active)
    (manager : ∃ sets n fault, t'.manager =
      { t.manager with sets := sets, sockmapEntryCount := n, fault := fault })
    (used : t'.used = t.used) : Frame i s t' := by
  obtain ⟨sets, n, fault, hm⟩ := manager
  obtain ⟨h1, h2, h3, h4, h5⟩ := own
  constructor
  case other => exact fun j hj => (other j hj).trans (h.other j hj)
  case slots => exact h1.trans h.slots
  case cookies => exact h2.trans h.cookies
  case baseline => exact h3.trans h.baseline
  case allocated => exact h4.trans h.allocated
  case active => exact h5.trans h.active
  case freeSets => rw [hm]; exact h.freeSets
  case freeCount => rw [hm]; exact h.freeCount
  case activeCount => rw [hm]; exact h.activeCount
  case quarantinedCount => rw [hm]; exact h.quarantinedCount
  case acceptedTotal => rw [hm]; exact h.acceptedTotal
  case reapedTotal => rw [hm]; exact h.reapedTotal
  case retired => rw [hm]; exact h.retired
  case used => exact used.trans h.used

@[simp] theorem close_used (s : Router) (fd : Nat) (unlinks : Bool) :
    (s.close fd unlinks).used = s.used := by
  rw [Router.close]
  cases s.descriptors fd <;> rfl

theorem keeps_frame (i : SetIndex) (s : Router) : Keeps i (Frame i s) where
  record t h := h.step (fun _ _ => rfl) ⟨rfl, rfl, rfl, rfl, rfl⟩ ⟨_, _, _, rfl⟩ rfl
  dropSlot t m _ h := h.step (fun j hj => dropSlot_set_of_ne t m hj) (by simp) ⟨_, _, _, rfl⟩ rfl
  clearRoute t m _ h :=
    h.step (fun j hj => clearRoute_set_of_ne t m hj) (by simp) ⟨_, _, _, rfl⟩ rfl
  dropRoute t m h :=
    h.step (fun j hj => dropRoute_set_of_ne t m hj) (by simp) ⟨_, _, _, rfl⟩ rfl
  clearLifecycle t _ h :=
    h.step (fun j hj => clearLifecycle_set_of_ne t hj) (by simp) ⟨_, _, _, rfl⟩ rfl
  dropLifecycle t h :=
    h.step (fun j hj => dropLifecycle_set_of_ne t hj) (by simp) ⟨_, _, _, rfl⟩ rfl
  dropFlow t h := h.step (fun _ _ => rfl) ⟨rfl, rfl, rfl, rfl, rfl⟩ ⟨_, _, _, rfl⟩ rfl
  dropDecision t h := h.step (fun _ _ => rfl) ⟨rfl, rfl, rfl, rfl, rfl⟩ ⟨_, _, _, rfl⟩ rfl
  close t unlinks m h := by
    rcases closeMember_cases t i m unlinks with ⟨-, heq⟩ | ⟨fd, -, heq⟩
    · rw [heq]; exact h
    · rw [heq]
      refine h.step (fun j hj => ?_) (by simp) ?_ (by simp)
      · rw [modify_set_of_ne _ _ _ hj, close_set]
      · rw [Router.modify, close_manager]
        exact ⟨_, _, _, rfl⟩

theorem cleanup_frame (calls : ReapCalls) (i : SetIndex) (s : Router) :
    Frame i s (cleanup calls i s).1 :=
  (keeps_frame i s).cleanup calls (.refl i s)

/-! ## The outcome of a reap -/

section Reap
variable (calls : ReapCalls) {i : SetIndex} {s : Router}

theorem reap_of_not_allocated (h : (s.set i).allocated = false) :
    reapConnectionSet calls i s = (s, true) := by
  simp [reapConnectionSet, h]

/-- A reap of an allocated set recycles it or quarantines it, as its cleanup
went. -/
theorem reap_cases (h : (s.set i).allocated = true) :
    ((cleanup calls i (beginReap i s)).2 = true ∧ reapConnectionSet calls i s =
      ({ (cleanup calls i (beginReap i s)).1 with
          manager := (cleanup calls i (beginReap i s)).1.manager.quarantine i }, false)) ∨
    ((cleanup calls i (beginReap i s)).2 = false ∧ reapConnectionSet calls i s =
      ({ (cleanup calls i (beginReap i s)).1 with
          manager := (cleanup calls i (beginReap i s)).1.manager.giveBack i (s.set i).active },
        true)) := by
  cases hc : (cleanup calls i (beginReap i s)).2 with
  | true => exact .inl ⟨rfl, by simp [reapConnectionSet, h, hc]⟩
  | false => exact .inr ⟨rfl, by simp [reapConnectionSet, h, hc]⟩

@[simp] theorem beginReap_set : (beginReap i s).set i = { s.set i with active := false } := by
  rw [beginReap]
  cases hactive : (s.set i).active with
  | false =>
      show s.set i = _
      rw [← hactive]
  | true => exact Function.update_self ..

theorem beginReap_set_of_ne {j : SetIndex} (h : j ≠ i) : (beginReap i s).set j = s.set j := by
  rw [beginReap]
  cases hactive : (s.set i).active with
  | false => rfl
  | true => exact Function.update_of_ne h ..

end Reap

end Xsr.Connection
