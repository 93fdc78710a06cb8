import Xsr.Connection.Holdings
import Xsr.Lib.SlotPool
import Xsr.Parsing.Segmentation

/-!
# Accounting — the counters say what the sets are

The manager as a slot pool: its sets are the slots, and what a set holds are
its occupied slots in `sk_sock_map`. Each write of the two operations is the
operation of the pool it is meant to be, so the pool is well formed at every
point; the bounds on the lifetime counters hold between two operations.
-/

namespace Xsr.Connection

open Kernel Lib Parsing

/-- What the free stack and the counters are about. -/
def Manager.pool (m : Manager) : SlotPool maxConnectionSets Member where
  stack := m.freeSets
  depth := m.freeCount
  allocated := fun i => (m.sets i).allocated
  active := fun i => (m.sets i).active
  retired := m.retired
  held := fun x => (m.sets x.1).sockmapInstalled x.2
  activeCount := m.activeCount
  retiredCount := m.quarantinedCount
  heldCount := m.sockmapEntryCount
  fault := m.fault

/-! ## The writes are the operations -/

section Refine
variable (m : Manager) (i : SetIndex) (k : Member)

theorem modify_pool {f : ConnectionSet → ConnectionSet}
    (hf : ∀ set, (f set).allocated = set.allocated ∧ (f set).active = set.active ∧
      (f set).sockmapInstalled = set.sockmapInstalled) : (m.modify i f).pool = m.pool := by
  obtain ⟨h1, h2, h3⟩ := hf (m.sets i)
  have hallocated := field_update_same m.sets i _ ConnectionSet.allocated h1
  have hactive := field_update_same m.sets i _ ConnectionSet.active h2
  have hheld := seat_update_same m.sets i _ ConnectionSet.sockmapInstalled h3
  exact SlotPool.ext rfl rfl hallocated hactive rfl hheld rfl rfl rfl rfl

variable {m i} in
/-- A write that leaves the three flags of the set alone. -/
theorem modify_wellFormed {f : ConnectionSet → ConnectionSet} (h : m.pool.WellFormed)
    (hf : ∀ set, (f set).allocated = set.allocated ∧ (f set).active = set.active ∧
      (f set).sockmapInstalled = set.sockmapInstalled) : (m.modify i f).pool.WellFormed := by
  rw [modify_pool m i hf]
  exact h

theorem deactivate_pool : (m.deactivate i).pool = m.pool.deactivate i := by
  have hallocated := field_update_same m.sets i { m.sets i with active := false }
    ConnectionSet.allocated rfl
  have hactive := field_update m.sets i { m.sets i with active := false } ConnectionSet.active
  have hheld := seat_update_same m.sets i { m.sets i with active := false }
    ConnectionSet.sockmapInstalled rfl
  exact SlotPool.ext rfl rfl hallocated hactive rfl hheld rfl rfl rfl rfl

theorem activate_pool : (m.activate i).pool = m.pool.activate i := by
  have hallocated := field_update_same m.sets i { m.sets i with active := true }
    ConnectionSet.allocated rfl
  have hactive := field_update m.sets i { m.sets i with active := true } ConnectionSet.active
  have hheld := seat_update_same m.sets i { m.sets i with active := true }
    ConnectionSet.sockmapInstalled rfl
  exact SlotPool.ext rfl rfl hallocated hactive rfl hheld rfl rfl rfl rfl

theorem flag_sockmapInstalled (set : ConnectionSet) (k : Member) (b : Bool) :
    (set.flag k b).sockmapInstalled = Function.update set.sockmapInstalled k b := rfl

theorem dropSlot_pool : (m.dropSlot i k).pool = m.pool.drop i k := by
  have hallocated := field_update_same m.sets i ((m.sets i).flag k false)
    ConnectionSet.allocated rfl
  have hactive := field_update_same m.sets i ((m.sets i).flag k false) ConnectionSet.active rfl
  have hheld := seat_update m.sets i ((m.sets i).flag k false)
    ConnectionSet.sockmapInstalled rfl
  exact SlotPool.ext rfl rfl hallocated hactive rfl hheld rfl rfl rfl rfl

theorem takeSlot_pool : (m.takeSlot i k).pool = m.pool.hold i k := by
  have hallocated := field_update_same m.sets i ((m.sets i).flag k true)
    ConnectionSet.allocated rfl
  have hactive := field_update_same m.sets i ((m.sets i).flag k true) ConnectionSet.active rfl
  have hheld := seat_update m.sets i ((m.sets i).flag k true)
    ConnectionSet.sockmapInstalled rfl
  exact SlotPool.ext rfl rfl hallocated hactive rfl hheld rfl rfl rfl rfl

theorem quarantine_pool : (m.quarantine i).pool = m.pool.retire i := by
  have hallocated := field_update m.sets i { m.sets i with allocated := false }
    ConnectionSet.allocated
  have hactive := field_update_same m.sets i { m.sets i with allocated := false }
    ConnectionSet.active rfl
  have hheld := seat_update_same m.sets i { m.sets i with allocated := false }
    ConnectionSet.sockmapInstalled rfl
  exact SlotPool.ext rfl rfl hallocated hactive rfl hheld rfl rfl rfl rfl

theorem recycle_pool : (m.recycle i).pool = m.pool.recycle i := by
  have hallocated := field_update m.sets i (m.sets i).reset ConnectionSet.allocated
  have hactive := field_update m.sets i (m.sets i).reset ConnectionSet.active
  have hheld := seat_update_blank m.sets i (m.sets i).reset ConnectionSet.sockmapInstalled rfl
  exact SlotPool.ext rfl rfl hallocated hactive rfl hheld rfl rfl rfl rfl

theorem giveBack_pool (wasActive : Bool) : (m.giveBack i wasActive).pool = m.pool.recycle i := by
  rw [← recycle_pool]
  cases wasActive <;> rfl

theorem giveBack_counters (wasActive : Bool) :
    (m.giveBack i wasActive).activeCount = m.activeCount ∧
    (m.giveBack i wasActive).quarantinedCount = m.quarantinedCount ∧
    (m.giveBack i wasActive).acceptedTotal = m.acceptedTotal ∧
    (m.giveBack i wasActive).reapedTotal = m.reapedTotal + if wasActive then 1 else 0 := by
  cases wasActive <;> exact ⟨rfl, rfl, rfl, rfl⟩

theorem allocate_pool (clientFd : Nat) : (m.allocate i clientFd).pool = m.pool.take i := by
  have hallocated := field_update m.sets i ((m.sets i).taken clientFd) ConnectionSet.allocated
  have hactive := field_update m.sets i ((m.sets i).taken clientFd) ConnectionSet.active
  have hheld := seat_update_blank m.sets i ((m.sets i).taken clientFd)
    ConnectionSet.sockmapInstalled rfl
  exact SlotPool.ext rfl rfl hallocated hactive rfl hheld rfl rfl rfl rfl

end Refine

/-- The bounds on the lifetime counters. -/
structure Totals (m : Manager) : Prop where
  lower : m.reapedTotal + m.activeCount ≤ m.acceptedTotal
  upper : m.acceptedTotal ≤ m.reapedTotal + m.activeCount + m.quarantinedCount

/-! ## A reap -/

/-- The cleanup keeps the pool well formed. -/
theorem keeps_pool (i : SetIndex) : Keeps i fun s => s.manager.pool.WellFormed where
  record _ h := h
  dropSlot s m hflag h := by
    show (s.manager.dropSlot i m).pool.WellFormed
    rw [dropSlot_pool]
    exact h.drop hflag
  clearRoute s m _ h := modify_wellFormed h fun _ => ⟨rfl, rfl, rfl⟩
  dropRoute s m h := modify_wellFormed h fun _ => ⟨rfl, rfl, rfl⟩
  clearLifecycle s _ h := modify_wellFormed h fun _ => ⟨rfl, rfl, rfl⟩
  dropLifecycle s h := modify_wellFormed h fun _ => ⟨rfl, rfl, rfl⟩
  dropFlow _ h := h
  dropDecision _ h := h
  close s unlinks m h := by
    rcases closeMember_cases s i m unlinks with ⟨-, heq⟩ | ⟨fd, -, heq⟩
    · rw [heq]; exact h
    · rw [heq, Router.modify, close_manager]
      exact modify_wellFormed h fun _ => ⟨rfl, rfl, rfl⟩

/-- The counters of a manager, between two operations. -/
structure Accounted (m : Manager) : Prop where
  pool : m.pool.WellFormed
  totals : Totals m

theorem Accounted.modify {m : Manager} (h : Accounted m) {i : SetIndex}
    {f : ConnectionSet → ConnectionSet}
    (hf : ∀ set, (f set).allocated = set.allocated ∧ (f set).active = set.active ∧
      (f set).sockmapInstalled = set.sockmapInstalled) : Accounted (m.modify i f) :=
  ⟨modify_wellFormed h.pool hf, h.totals.lower, h.totals.upper⟩

section Reap
variable {s : Router} {i : SetIndex}

theorem beginReap_pool (h : s.manager.pool.WellFormed) :
    (beginReap i s).manager.pool.WellFormed := by
  rw [beginReap]
  cases hactive : (s.set i).active with
  | false => exact h
  | true =>
      simp only [if_true, deactivate_pool]
      exact h.deactivate hactive

/-- The counters of a started reap, with one set less active when it was. -/
theorem beginReap_counters (h : s.manager.pool.WellFormed) :
    (beginReap i s).manager.activeCount + (if (s.set i).active then 1 else 0) =
      s.manager.activeCount ∧
    (beginReap i s).manager.quarantinedCount = s.manager.quarantinedCount ∧
    (beginReap i s).manager.acceptedTotal = s.manager.acceptedTotal ∧
    (beginReap i s).manager.reapedTotal = s.manager.reapedTotal := by
  rw [beginReap]
  cases hactive : (s.set i).active with
  | false => exact ⟨rfl, rfl, rfl, rfl⟩
  | true =>
      refine ⟨?_, rfl, rfl, rfl⟩
      have hpos : 0 < s.manager.activeCount := by
        rw [show s.manager.activeCount = _ from h.active_count]
        exact count_pos (p := s.manager.pool.active) hactive
      show s.manager.activeCount - 1 + 1 = s.manager.activeCount
      omega

/-- **A reap keeps the accounts**, clean or not, whatever the kernel
answers. -/
theorem reap_accounted (h : Accounted s.manager) (calls : ReapCalls) :
    Accounted (reapConnectionSet calls i s).1.manager := by
  cases ha : (s.set i).allocated with
  | false => rw [reap_of_not_allocated calls ha]; exact h
  | true =>
      have hpool := (keeps_pool i).cleanup calls (beginReap_pool (i := i) h.pool)
      have hframe := cleanup_frame calls i (beginReap i s)
      have hallocated := hframe.allocated
      have hinactive := hframe.active
      rw [beginReap_set] at hallocated hinactive
      obtain ⟨hactive, hquarantined, haccepted, hreaped⟩ := beginReap_counters (i := i) h.pool
      obtain ⟨hlower, hupper⟩ := h.totals
      rcases reap_cases calls ha with ⟨-, heq⟩ | ⟨hclean, heq⟩
      · rw [heq]
        constructor
        · dsimp only
          rw [quarantine_pool]
          exact hpool.retire (hallocated.trans ha) hinactive
        · constructor <;> dsimp only [Manager.quarantine, Manager.modify] <;>
            rw [hframe.reapedTotal, hframe.activeCount, hframe.acceptedTotal]
          · omega
          · rw [hframe.quarantinedCount]
            split at hactive <;> omega
      · rw [heq]
        have hempty := (cleanup_released calls hclean).slot
        obtain ⟨h1, h2, h3, h4⟩ := giveBack_counters (cleanup calls i (beginReap i s)).1.manager i
          (s.set i).active
        constructor
        · dsimp only
          rw [giveBack_pool]
          exact hpool.recycle (hallocated.trans ha) hinactive hempty
        · constructor <;> dsimp only <;>
            rw [h4, h1, h3, hframe.reapedTotal, hframe.activeCount, hframe.acceptedTotal]
          · omega
          · rw [h2, hframe.quarantinedCount]
            omega

end Reap

/-! ## A setup -/

/-- A set between its allocation and its activation: the pool is well
formed and the lifetime counters are still those of `m`. -/
structure Pending (i : SetIndex) (m : Manager) (s : Router) : Prop where
  pool : s.manager.pool.WellFormed
  allocated : (s.set i).allocated = true
  inactive : (s.set i).active = false
  activeCount : s.manager.activeCount = m.activeCount
  quarantinedCount : s.manager.quarantinedCount = m.quarantinedCount
  acceptedTotal : s.manager.acceptedTotal = m.acceptedTotal
  reapedTotal : s.manager.reapedTotal = m.reapedTotal

/-- No slot of the set is occupied yet. -/
def Unplaced (i : SetIndex) (s : Router) : Prop := ∀ k, (s.set i).sockmapInstalled k = false

/-- A step that writes at most a field of set `i` that is none of the three
flags. -/
def Quiet (i : SetIndex) (p : Program Router) : Prop :=
  ∀ s, ∃ f : ConnectionSet → ConnectionSet, (p s).1.manager = s.manager.modify i f ∧
    ∀ set, (f set).allocated = set.allocated ∧ (f set).active = set.active ∧
      (f set).sockmapInstalled = set.sockmapInstalled

section Setup
variable {i : SetIndex} {m : Manager}

theorem modify_id (m : Manager) (i : SetIndex) : m = m.modify i id := by
  rw [Manager.modify, id, Function.update_eq_self]

theorem modify_manager (s : Router) (i : SetIndex) (f : ConnectionSet → ConnectionSet) :
    (s.modify i f).manager = s.manager.modify i f := rfl

theorem Quiet.pending {p : Program Router} (hp : Quiet i p) {s : Router}
    (h : Pending i m s ∧ Unplaced i s) : Pending i m (p s).1 ∧ Unplaced i (p s).1 := by
  obtain ⟨⟨hpool, hallocated, hinactive, h1, h2, h3, h4⟩, hfree⟩ := h
  obtain ⟨f, heq, hf⟩ := hp s
  have hset : (p s).1.set i = f (s.set i) := by
    rw [Router.set, heq, Manager.modify_self]
    rfl
  obtain ⟨hf1, hf2, hf3⟩ := hf (s.set i)
  refine ⟨⟨?pool, ?allocated, ?inactive, ?activeCount, ?quarantinedCount, ?acceptedTotal,
    ?reapedTotal⟩, ?unplaced⟩
  case pool => rw [heq]; exact modify_wellFormed hpool hf
  case allocated => rw [hset, hf1]; exact hallocated
  case inactive => rw [hset, hf2]; exact hinactive
  case activeCount => rw [heq]; exact h1
  case quarantinedCount => rw [heq]; exact h2
  case acceptedTotal => rw [heq]; exact h3
  case reapedTotal => rw [heq]; exact h4
  case unplaced =>
    intro k
    rw [hset, hf3]
    exact hfree k

theorem Quiet.spec {p : Program Router} (hp : Quiet i p) :
    Program.Spec (fun s => Pending i m s ∧ Unplaced i s) p
      (fun s => Pending i m s ∧ Unplaced i s) (Pending i m) :=
  ⟨fun _ h _ => hp.pending h, fun _ h _ => (hp.pending h).1⟩

theorem connectMember_quiet (calls : AddCalls) (k : Member) :
    Quiet i (connectMember calls i k) := by
  intro s
  rcases connectMember_cases calls i k s with ⟨-, heq⟩ | ⟨fd, socket, -, heq⟩ <;> rw [heq] <;>
    refine ⟨_, modify_manager .., fun _ => ?_⟩ <;> exact ⟨rfl, rfl, rfl⟩

theorem readCookie_quiet (calls : AddCalls) (k : Member) : Quiet i (readCookie calls i k) := by
  intro s
  rcases readCookie_cases calls i k s with ⟨-, heq⟩ | ⟨socket, -, -, heq⟩ <;> rw [heq]
  · exact ⟨id, modify_id .., fun _ => ⟨rfl, rfl, rfl⟩⟩
  · refine ⟨_, modify_manager .., fun _ => ?_⟩
    exact ⟨rfl, rfl, rfl⟩

theorem readInitialBytes_quiet (calls : AddCalls) : Quiet i (readInitialBytes calls i) := by
  intro s
  rcases readInitialBytes_cases calls i s with ⟨-, heq⟩ | ⟨total, -, heq⟩ <;> rw [heq]
  · exact ⟨id, modify_id .., fun _ => ⟨rfl, rfl, rfl⟩⟩
  · refine ⟨_, modify_manager .., fun _ => ?_⟩
    exact ⟨rfl, rfl, rfl⟩

theorem installLifecycle_quiet (calls : AddCalls) : Quiet i (installLifecycle calls i) := by
  intro s
  rcases installLifecycle_cases calls i s with ⟨-, heq⟩ | ⟨-, -, heq⟩ <;> rw [heq]
  · exact ⟨id, modify_id .., fun _ => ⟨rfl, rfl, rfl⟩⟩
  · refine ⟨_, modify_manager .., fun _ => ?_⟩
    exact ⟨rfl, rfl, rfl⟩

theorem installRoute_quiet (calls : AddCalls) (k : Member) : Quiet i (installRoute calls i k) := by
  intro s
  rcases installRoute_cases calls i k s with ⟨-, heq⟩ | ⟨-, heq⟩ <;> rw [heq]
  · exact ⟨id, modify_id .., fun _ => ⟨rfl, rfl, rfl⟩⟩
  · refine ⟨_, modify_manager .., fun _ => ?_⟩
    exact ⟨rfl, rfl, rfl⟩

/-- `todo` are the members whose slot is still to be taken. -/
theorem installSlot_spec (calls : AddCalls) (k : Member) (todo : List Member) :
    Program.Spec
      (fun s => Pending i m s ∧ (k :: todo).Nodup ∧
        ∀ l ∈ k :: todo, (s.set i).sockmapInstalled l = false)
      (installSlot calls i k)
      (fun s => Pending i m s ∧ todo.Nodup ∧ ∀ l ∈ todo, (s.set i).sockmapInstalled l = false)
      (Pending i m) := by
  constructor
  · rintro s ⟨h, hnodup, hfree⟩ hdone
    rcases installSlot_cases calls i k s with ⟨-, heq⟩ | ⟨socket, -, -, heq⟩
    · rw [heq] at hdone
      cases hdone
    · rw [heq]
      obtain ⟨hk, htodo⟩ := List.nodup_cons.mp hnodup
      have hset : (s.placeSlot i k socket).set i = (s.set i).flag k true :=
        Function.update_self ..
      have hpool : (s.placeSlot i k socket).manager.pool = s.manager.pool.hold i k :=
        takeSlot_pool ..
      refine ⟨⟨?_, ?_, ?_, h.activeCount, h.quarantinedCount, h.acceptedTotal, h.reapedTotal⟩,
        htodo, fun l hl => ?_⟩
      · rw [hpool]
        exact h.pool.hold h.allocated (hfree k (by simp))
      · rw [hset]; exact h.allocated
      · rw [hset]; exact h.inactive
      · have hne : l ≠ k := by
          rintro rfl
          exact hk hl
        rw [hset, flag_sockmapInstalled, Function.update_of_ne hne]
        exact hfree l (by simp [hl])
  · rintro s ⟨h, -, -⟩ hfailed
    rcases installSlot_cases calls i k s with ⟨-, heq⟩ | ⟨socket, -, -, heq⟩
    · rw [heq]; exact h
    · rw [heq] at hfailed
      cases hfailed

theorem setup_spec (calls : AddCalls) :
    Program.Spec (fun s => Pending i m s ∧ Unplaced i s) (setup calls i) (Pending i m)
      (Pending i m) := by
  have hconnect := Program.Spec.each (I := fun _ s => Pending i m s ∧ Unplaced i s)
    (fun k _ => (connectMember_quiet calls k).spec) backends
  have hcookies := Program.Spec.each (I := fun _ s => Pending i m s ∧ Unplaced i s)
    (fun k _ => (readCookie_quiet calls k).spec) members
  have hroutes := Program.Spec.each (I := fun _ s => Pending i m s ∧ Unplaced i s)
    (fun k _ => (installRoute_quiet calls k).spec) members
  have hslots := Program.Spec.each
    (I := fun todo s => Pending i m s ∧ todo.Nodup ∧
      ∀ l ∈ todo, (s.set i).sockmapInstalled l = false)
    (installSlot_spec (i := i) (m := m) calls) members
  exact hconnect.andThen <| hcookies.andThen <| (readInitialBytes_quiet calls).spec.andThen <|
    (installLifecycle_quiet calls).spec.andThen <| hroutes.andThen <|
    hslots.mono (fun _ h => ⟨h.1, by decide, fun l _ => h.2 l⟩) fun _ h => h.1

/-- The counters of a set-up that is not over are still those before it. -/
theorem Pending.accounted {s : Router} (h : Pending i m s) (ht : Totals m) : Accounted s.manager := by
  refine ⟨h.pool, ?_, ?_⟩
  · rw [h.reapedTotal, h.activeCount, h.acceptedTotal]
    exact ht.lower
  · rw [h.reapedTotal, h.activeCount, h.acceptedTotal, h.quarantinedCount]
    exact ht.upper

theorem allocate_pending {s : Router} (h : Accounted s.manager) (hpos : s.manager.freeCount ≠ 0)
    (hi : s.manager.freeSets (s.manager.freeCount - 1) = i) (clientFd : Nat) :
    Pending i s.manager (s.allocate i clientFd) ∧ Unplaced i (s.allocate i clientFd) := by
  have hpos' : 0 < s.manager.pool.depth := Nat.pos_of_ne_zero hpos
  have hset : (s.allocate i clientFd).set i = (s.set i).taken clientFd := Function.update_self ..
  refine ⟨⟨?_, ?_, ?_, rfl, rfl, rfl, rfl⟩, fun k => ?_⟩
  · show (s.manager.allocate i clientFd).pool.WellFormed
    rw [allocate_pool]
    exact h.pool.take hpos' hi
  all_goals rw [hset]; rfl

/-- The top of the stack is the index of a set. -/
theorem Accounted.top_lt {m : Manager} (h : Accounted m) (hpos : m.freeCount ≠ 0) :
    m.freeSets (m.freeCount - 1) < maxConnectionSets :=
  h.pool.in_range _ (Nat.sub_lt (Nat.pos_of_ne_zero hpos) Nat.one_pos)

/-- **An accept keeps the accounts**, at whatever step its setup fails. -/
theorem add_accounted {s : Router} (h : Accounted s.manager) (calls : AddCalls)
    (clientFd : Nat) : Accounted (addConnectionSet calls clientFd s).1.manager := by
  rcases add_cases calls s clientFd with ⟨-, heq⟩ | ⟨hpos, htop⟩ | ⟨i, hpos, hi, hcases⟩
  · rw [heq, close_manager]
    exact h
  · exact absurd (h.top_lt hpos) (Nat.not_lt.mpr htop)
  · have hstart := allocate_pending h hpos hi clientFd
    rcases hcases with ⟨hdone, heq⟩ | ⟨hfailed, heq⟩
    · have hp := (setup_spec (i := i) (m := s.manager) calls).done _ hstart hdone
      rw [heq]
      constructor
      · dsimp only
        rw [activate_pool]
        exact hp.pool.activate hp.allocated hp.inactive
      · obtain ⟨hlower, hupper⟩ := h.totals
        constructor <;> dsimp only [Manager.activate, Manager.modify] <;>
          rw [hp.reapedTotal, hp.activeCount, hp.acceptedTotal]
        · omega
        · rw [hp.quarantinedCount]
          omega
    · have hp := (setup_spec (i := i) (m := s.manager) calls).failed _ hstart hfailed
      rw [heq]
      exact reap_accounted (hp.accounted h.totals) calls.reap

end Setup

/-! ## Whole runs -/

theorem stable_accounted : Stable fun s => Accounted s.manager where
  reap _ _ calls h := reap_accounted h calls
  mark _ _ _ hf h := h.modify fun set =>
    ⟨(hf.holdings set).allocated, hf.active set, (hf.holdings set).placed⟩
  count _ _ _ h := ⟨h.pool, h.totals.lower, h.totals.upper⟩

theorem initial_accounted : Accounted Manager.initial := by
  constructor
  · constructor
    · intro k hk
      have hk' : k < maxConnectionSets := hk
      show maxConnectionSets - k - 1 < maxConnectionSets
      omega
    · intro k hk l hl heq
      have hk' : k < maxConnectionSets := hk
      have hl' : l < maxConnectionSets := hl
      have heq' : maxConnectionSets - k - 1 = maxConnectionSets - l - 1 := heq
      omega
    · intro i
      refine iff_of_true ⟨maxConnectionSets - i - 1, ?_, ?_⟩ ⟨rfl, rfl⟩
      · show maxConnectionSets - i - 1 < maxConnectionSets
        omega
      · show maxConnectionSets - (maxConnectionSets - i - 1) - 1 = i
        omega
    · intro i hi
      cases hi
    · intro i hi
      cases hi
    · intro i k hk
      cases hk
    · exact count_false.symm
    · exact count_false.symm
    · exact count_false.symm
    · rfl
  · exact ⟨Nat.le_refl _, Nat.le_refl _⟩

theorem Step.accounted {pol : Policy} {s s' : Router} {e : Event} (h : Accounted s.manager)
    (hstep : Step pol s e s') : Accounted s'.manager := by
  cases hstep with
  | @accept client _ fresh => exact add_accounted (s := s.openSocket client.1 client.2) h _ _
  | reap i calls => exact reap_accounted h calls
  | check calls active => exact stable_accounted.checkSet h calls
  | poll calls => exact stable_accounted.poll h calls
  | destroy calls => exact stable_accounted.destroy h calls
  | parse skb attached => exact h
  | verdict skbLen attached occupied => exact h
  | unlink slot => exact h
  | age grams kept => exact h

/-- What the counters and the free stack are meant to say. -/
structure Balanced (m : Manager) : Prop where
  /-- `free_sets[0..free_count)` -/
  free : ∃ free : List SetIndex, free.map Fin.val = (List.range m.freeCount).map m.freeSets ∧
    free.Nodup ∧ ∀ i ∈ free, (m.sets i).allocated = false ∧ m.retired i = false
  sum : m.freeCount + (count fun i => (m.sets i).allocated) + m.quarantinedCount =
    maxConnectionSets
  active : m.activeCount = count fun i => (m.sets i).active
  active_allocated : ∀ i, (m.sets i).active = true → (m.sets i).allocated = true
  entries : m.sockmapEntryCount =
    count fun x : SetIndex × Member => (m.sets x.1).sockmapInstalled x.2
  totals : m.reapedTotal + m.activeCount ≤ m.acceptedTotal ∧
    m.acceptedTotal ≤ m.reapedTotal + m.activeCount + m.quarantinedCount
  no_fault : m.fault = false

theorem Accounted.balanced {m : Manager} (h : Accounted m) : Balanced m := by
  obtain ⟨free, -, hnodup, hmap, hmem⟩ := h.pool.free_list
  exact ⟨⟨free, hmap, hnodup, fun i hi => (hmem i).mp hi⟩, h.pool.total, h.pool.active_count,
    h.pool.active_allocated, h.pool.held_count, ⟨h.totals.lower, h.totals.upper⟩, h.pool.no_fault⟩

/-- **The slot pool is accounted for in every reachable state**, through
failing setups, quarantines, polls and shutdowns. -/
theorem accounts_balance {pol : Policy} {grams : QueryGrams} {es : List Event} {s : Router}
    (run : Run (Step pol) (initializeConnectionManager grams) es s) : Balanced s.manager :=
  (run.invariant (I := fun s => Accounted s.manager) initial_accounted
    fun _ _ _ h hstep => hstep.accounted h).balanced

/-- A setup that fails gives its set back; a client whose route stays leaves
its set quarantined. -/
theorem accounts_balance_refused :
    (Balanced (refusedRouter idleWorld.grams).manager ∧
      (refusedRouter idleWorld.grams).manager.freeCount = maxConnectionSets) ∧
    Balanced (reapConnectionSet stuckReap firstSet (acceptedRouter idleWorld.grams)).1.manager ∧
      (reapConnectionSet stuckReap firstSet
        (acceptedRouter idleWorld.grams)).1.manager.quarantinedCount = 1 :=
  ⟨⟨accounts_balance (.single (refused_step ngramOnly _)), by decide +kernel⟩,
    accounts_balance ((accepted_run ngramOnly _).snoc (.reap firstSet stuckReap)),
    by decide +kernel⟩

end Xsr.Connection
