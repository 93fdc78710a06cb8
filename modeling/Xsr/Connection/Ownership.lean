import Xsr.Lib.Tracked
import Xsr.Connection.Holdings

/-!
# Ownership — every entry belongs to one use of one set

`Owned` says whose every map entry is, `Opened` whose every descriptor is.
Both hold at every point of the two operations: a flag is set only after its
entry is there and cleared only after it is gone.
-/

namespace Xsr.Connection

open Kernel Lib

/-- Every entry of the five maps is that of a seat. -/
structure Owned (h : Holdings) (w : World) (sockMap : BpfMap Nat UInt64) : Prop where
  slot_number : ∀ x, h.slot x = x.1 * socksPerConnection + x.2
  exclusive : ∀ i, h.allocated i = true → h.retired i = false
  blank : ∀ x : Seat, h.allocated x.1 = false → h.retired x.1 = false →
    h.cookie x = 0 ∧ h.placed x = false ∧ h.routed x = false ∧ h.tracked x.1 = false
  seated : ∀ x, h.placed x = true ∨ h.routed x = true → h.cookie x ≠ 0
  client_seated : ∀ i, h.tracked i = true → h.cookie (i, 0) ≠ 0
  unique : ∀ x y, h.cookie x = h.cookie y → h.cookie x ≠ 0 → x = y
  slots : Tracked sockMap h.slot h.placed fun x c => c = h.cookie x
  routes : Tracked w.routes h.cookie h.routed fun x e => e = h.route x
  lifecycle : Tracked w.lifecycle (fun i => h.cookie (i, 0)) h.tracked fun _ _ => True
  flows : Tracked w.flows h.cookie h.heard fun _ _ => True
  decisions : Tracked w.decisions h.cookie h.heard fun _ _ => True
  no_flow : w.flows 0 = none
  no_decision : w.decisions 0 = none

/-- Every descriptor of a set is open on a socket of its own, and closed
sockets stay closed. -/
structure Opened (h : Holdings) (descriptors : BpfMap Nat UInt64) (closed used : List UInt64) :
    Prop where
  held : ∀ x fd, h.fd x = some fd → h.allocated x.1 = true ∧
    ∃ c, descriptors fd = some c ∧ (h.cookie x = 0 ∨ h.cookie x = c)
  apart : ∀ x y fd, h.fd x = some fd → h.fd y = some fd → x = y
  single : ∀ fd fd' c, descriptors fd = some c → descriptors fd' = some c → fd = fd'
  live : ∀ fd c, descriptors fd = some c → c ≠ 0 ∧ c ∈ used ∧ c ∉ closed
  closed_used : ∀ c ∈ closed, c ∈ used
  once : closed.Nodup
  accounted : ∀ x, h.cookie x ≠ 0 → h.fd x ≠ none ∨ h.cookie x ∈ closed

/-- Both, of a state. -/
structure Clean (s : Router) : Prop where
  owned : Owned s.holdings s.world s.sockMap
  opened : Opened s.holdings s.descriptors s.closed s.used

/-! ## Updates of the maps -/

theorem of_update_false {ι : Type} [DecidableEq ι] {f : ι → Bool} {x y : ι}
    (h : Function.update f x false y = true) : f y = true := by
  by_cases hy : y = x
  · rw [hy, Function.update_self] at h
    cases h
  · rwa [Function.update_of_ne hy] at h

theorem update_false_of {ι : Type} [DecidableEq ι] {f : ι → Bool} {x y : ι}
    (h : f y = false) : Function.update f x false y = false := by
  by_cases hy : y = x
  · rw [hy, Function.update_self]
  · rwa [Function.update_of_ne hy]

theorem of_update_none {ι α : Type} [DecidableEq ι] {f : ι → Option α} {x y : ι} {a : α}
    (h : Function.update f x none y = some a) : y ≠ x ∧ f y = some a := by
  rcases eq_or_ne y x with rfl | hy
  · rw [Function.update_self] at h
    cases h
  · rw [Function.update_of_ne hy] at h
    exact ⟨hy, h⟩

section Owned
variable {h : Holdings} {w w' : World} {sockMap sockMap' : BpfMap Nat UInt64}
  (o : Owned h w sockMap)

include o

/-- Entries may go. -/
theorem Owned.shrink (slots : ∀ k v, sockMap' k = some v → sockMap k = some v)
    (routes : ∀ k v, w'.routes k = some v → w.routes k = some v)
    (lifecycle : ∀ k, w.lifecycle k = none → w'.lifecycle k = none)
    (flows : ∀ k, w.flows k = none → w'.flows k = none)
    (decisions : ∀ k, w.decisions k = none → w'.decisions k = none) : Owned h w' sockMap' where
  slot_number := o.slot_number
  exclusive := o.exclusive
  blank := o.blank
  seated := o.seated
  client_seated := o.client_seated
  unique := o.unique
  slots := o.slots.thin slots
  routes := o.routes.thin routes
  lifecycle := o.lifecycle.any lifecycle
  flows := o.flows.any flows
  decisions := o.decisions.any decisions
  no_flow := flows 0 o.no_flow
  no_decision := decisions 0 o.no_decision

/-- Descriptors do not matter to the maps. -/
theorem Owned.fd (fd : Seat → Option Nat) : Owned { h with fd } w sockMap where
  slot_number := o.slot_number
  exclusive := o.exclusive
  blank := o.blank
  seated := o.seated
  client_seated := o.client_seated
  unique := o.unique
  slots := o.slots
  routes := o.routes
  lifecycle := o.lifecycle
  flows := o.flows
  decisions := o.decisions
  no_flow := o.no_flow
  no_decision := o.no_decision

theorem Owned.dropSlot (x : Seat) :
    Owned { h with placed := Function.update h.placed x false } w (sockMap.delete (h.slot x)) where
  slot_number := o.slot_number
  exclusive := o.exclusive
  blank y ha hr := by
    obtain ⟨hc, hp, hroute, ht⟩ := o.blank y ha hr
    exact ⟨hc, update_false_of hp, hroute, ht⟩
  seated y hy := o.seated y (hy.imp_left of_update_false)
  client_seated := o.client_seated
  unique := o.unique
  slots := o.slots.drop x
  routes := o.routes
  lifecycle := o.lifecycle
  flows := o.flows
  decisions := o.decisions
  no_flow := o.no_flow
  no_decision := o.no_decision

theorem Owned.clearRoute {x : Seat} (hx : w.routes (h.cookie x) = none ∨ h.routed x = false) :
    Owned { h with routed := Function.update h.routed x false } w sockMap where
  slot_number := o.slot_number
  exclusive := o.exclusive
  blank y ha hr := by
    obtain ⟨hc, hp, hroute, ht⟩ := o.blank y ha hr
    exact ⟨hc, hp, update_false_of hroute, ht⟩
  seated y hy := o.seated y (hy.imp_right of_update_false)
  client_seated := o.client_seated
  unique := o.unique
  slots := o.slots
  routes := o.routes.clear hx
  lifecycle := o.lifecycle
  flows := o.flows
  decisions := o.decisions
  no_flow := o.no_flow
  no_decision := o.no_decision

theorem Owned.clearLifecycle {i : SetIndex}
    (hi : w.lifecycle (h.cookie (i, 0)) = none ∨ h.tracked i = false) :
    Owned { h with tracked := Function.update h.tracked i false } w sockMap where
  slot_number := o.slot_number
  exclusive := o.exclusive
  blank y ha hr := by
    obtain ⟨hc, hp, hroute, ht⟩ := o.blank y ha hr
    exact ⟨hc, hp, hroute, update_false_of ht⟩
  seated := o.seated
  client_seated j hj := o.client_seated j (of_update_false hj)
  unique := o.unique
  slots := o.slots
  routes := o.routes
  lifecycle := o.lifecycle.clear hi
  flows := o.flows
  decisions := o.decisions
  no_flow := o.no_flow
  no_decision := o.no_decision

end Owned

theorem BpfMap.delete_some {κ ν : Type} [DecidableEq κ] {m : BpfMap κ ν} {k k' : κ} {v : ν}
    (h : m.delete k k' = some v) : m k' = some v :=
  (BpfMap.delete_eq_some h).2

/-! ## Descriptors -/

section Opened
variable {h h' : Holdings} {descriptors : BpfMap Nat UInt64} {closed used : List UInt64}
  (o : Opened h descriptors closed used)

include o

/-- Only these holdings matter to the descriptors. -/
theorem Opened.congr (fd : h'.fd = h.fd) (cookie : h'.cookie = h.cookie)
    (allocated : h'.allocated = h.allocated) : Opened h' descriptors closed used where
  held x f hf := by
    rw [fd] at hf
    rw [cookie, allocated]
    exact o.held x f hf
  apart x y f hx hy := by
    rw [fd] at hx hy
    exact o.apart x y f hx hy
  single := o.single
  live := o.live
  closed_used := o.closed_used
  once := o.once
  accounted x hx := by
    rw [cookie] at hx ⊢
    rw [fd]
    exact o.accounted x hx

/-- A descriptor is closed, and the seat that held it, if any, lets go. -/
theorem Opened.close {fds : Seat → Option Nat} {fd : Nat} {c : UInt64}
    (hfd : descriptors fd = some c) (gone : ∀ y, fds y ≠ some fd)
    (kept : ∀ y, fds y = h.fd y ∨ (fds y = none ∧ h.fd y = some fd)) :
    Opened { h with fd := fds } (descriptors.delete fd) (closed ++ [c]) used := by
  have hold : ∀ y f, fds y = some f → f ≠ fd ∧ h.fd y = some f := by
    intro y f hy
    refine ⟨fun hf => gone y (hf ▸ hy), ?_⟩
    rcases kept y with heq | ⟨hnone, -⟩
    · rw [← heq]; exact hy
    · rw [hnone] at hy; cases hy
  constructor
  case held =>
    intro y f hf
    obtain ⟨hne, hy⟩ := hold y f hf
    obtain ⟨ha, d, hd, hcookie⟩ := o.held y f hy
    exact ⟨ha, d, by rw [BpfMap.delete_ne _ hne]; exact hd, hcookie⟩
  case apart => exact fun y z f hy hz => o.apart y z f (hold y f hy).2 (hold z f hz).2
  case single =>
    exact fun f f' d hf hf' => o.single f f' d (BpfMap.delete_some hf) (BpfMap.delete_some hf')
  case live =>
    intro f d hf
    obtain ⟨hne, hf⟩ := BpfMap.delete_eq_some hf
    obtain ⟨h0, hused, hclosed⟩ := o.live f d hf
    refine ⟨h0, hused, ?_⟩
    rw [List.mem_append, List.mem_singleton]
    rintro (hin | rfl)
    · exact hclosed hin
    · exact hne (o.single f fd d hf hfd)
  case closed_used =>
    intro d hd
    rcases List.mem_append.mp hd with hd | hd
    · exact o.closed_used d hd
    · rw [List.mem_singleton.mp hd]
      exact (o.live fd c hfd).2.1
  case once =>
    refine List.nodup_append'.mpr ⟨o.once, List.nodup_singleton c, ?_⟩
    rw [List.disjoint_singleton]
    exact (o.live fd c hfd).2.2
  case accounted =>
    intro y hy
    rcases o.accounted y hy with hopen | hclosed
    · rcases kept y with heq | ⟨-, hsome⟩
      · exact .inl (heq.trans_ne hopen)
      · obtain ⟨-, d, hd, hcookie⟩ := o.held y fd hsome
        rw [hfd] at hd
        obtain rfl := Option.some.inj hd
        exact .inr (List.mem_append_right _ (List.mem_singleton.mpr (hcookie.resolve_left hy)))
    · exact .inr (List.mem_append_left _ hclosed)

end Opened

section Close
variable {s : Router} {fd : Nat} {c : UInt64} (unlinks : Bool)

theorem close_open (h : s.descriptors fd = some c) : s.close fd unlinks =
    { s with
      descriptors := s.descriptors.delete fd
      closed := s.closed ++ [c]
      sockMap := if unlinks then unlinkSocket s.sockMap c else s.sockMap } := by
  rw [Router.close, h]

theorem close_sockMap {k : Nat} {v : UInt64} (h : s.descriptors fd = some c)
    (hk : (s.close fd unlinks).sockMap k = some v) : s.sockMap k = some v := by
  rw [close_open unlinks h] at hk
  cases unlinks with
  | false => exact hk
  | true =>
      simp only [if_true, unlinkSocket] at hk
      split at hk
      · cases hk
      · exact hk

end Close

/-! ## The cleanup -/

/-- **Every step of a cleanup keeps both**: its flags stay truthful wherever
it stops. -/
theorem keeps_clean (i : SetIndex) : Keeps i Clean where
  record s h := ⟨h.owned, h.opened⟩
  dropSlot s m _ h := by
    constructor
    · rw [dropSlot_holdings]
      exact h.owned.dropSlot (i, m)
    · rw [dropSlot_holdings]
      exact h.opened.congr rfl rfl rfl
  clearRoute s m hm h := by
    constructor
    · rw [clearRoute_holdings]
      exact h.owned.clearRoute (.inr hm)
    · rw [clearRoute_holdings]
      exact h.opened.congr rfl rfl rfl
  dropRoute s m h := by
    have hshrunk : Owned s.holdings
        { s.world with routes := s.world.routes.delete (s.holdings.cookie (i, m)) } s.sockMap :=
      h.owned.shrink (fun _ _ => id) (fun _ _ => BpfMap.delete_some) (fun _ => id) (fun _ => id)
        fun _ => id
    constructor
    · rw [dropRoute_holdings]
      exact hshrunk.clearRoute (x := (i, m)) (.inl (BpfMap.delete_self ..))
    · rw [dropRoute_holdings]
      exact h.opened.congr rfl rfl rfl
  clearLifecycle s hi h := by
    constructor
    · rw [clearLifecycle_holdings]
      exact h.owned.clearLifecycle (.inr hi)
    · rw [clearLifecycle_holdings]
      exact h.opened.congr rfl rfl rfl
  dropLifecycle s h := by
    have hshrunk : Owned s.holdings
        { s.world with lifecycle := s.world.lifecycle.delete (s.holdings.cookie (i, 0)) }
        s.sockMap :=
      h.owned.shrink (fun _ _ => id) (fun _ _ => id) (fun _ => BpfMap.delete_of_eq_none)
        (fun _ => id) fun _ => id
    constructor
    · rw [dropLifecycle_holdings]
      exact hshrunk.clearLifecycle (i := i) (.inl (BpfMap.delete_self ..))
    · rw [dropLifecycle_holdings]
      exact h.opened.congr rfl rfl rfl
  dropFlow s h :=
    ⟨h.owned.shrink (fun _ _ => id) (fun _ _ => id) (fun _ => id)
      (fun _ => BpfMap.delete_of_eq_none) fun _ => id, h.opened⟩
  dropDecision s h :=
    ⟨h.owned.shrink (fun _ _ => id) (fun _ _ => id) (fun _ => id) (fun _ => id)
      fun _ => BpfMap.delete_of_eq_none, h.opened⟩
  close s unlinks m h := by
    rcases closeMember_cases s i m unlinks with ⟨-, heq⟩ | ⟨fd, hfd, heq⟩
    · rw [heq]; exact h
    · obtain ⟨-, c, hc, -⟩ := h.opened.held (i, m) fd hfd
      have hholdings : (closeMember unlinks i s m).holdings =
          { s.holdings with fd := Function.update s.holdings.fd (i, m) none } := by
        rw [heq, ← close_holdings s fd (unlinks m)]
        exact holdingsOf_fd ..
      constructor
      · rw [hholdings, heq, modify_world, modify_sockMap, close_world]
        exact (h.owned.shrink (fun _ _ => close_sockMap _ hc) (fun _ _ => id) (fun _ => id)
          (fun _ => id) fun _ => id).fd _
      · rw [hholdings, heq, modify_descriptors, modify_closed, modify_used, close_open _ hc]
        refine h.opened.close hc (fun y hy => ?_) fun y => ?_
        · obtain ⟨hne, hy⟩ := of_update_none hy
          exact hne (h.opened.apart y (i, m) fd hy hfd)
        · rcases eq_or_ne y (i, m) with rfl | hne
          · exact .inr ⟨Function.update_self .., hfd⟩
          · exact .inl (Function.update_of_ne hne ..)

/-! ## Sets that are set up -/

/-- Every member of a set has its descriptor, its cookie and its route. -/
structure Whole (h : Holdings) (w : World) (i : SetIndex) : Prop where
  fd : ∀ m, h.fd (i, m) ≠ none
  cookie : ∀ m, h.cookie (i, m) ≠ 0
  route : ∀ m, w.routes (h.cookie (i, m)) = some (h.route (i, m))

/-- The allocated sets but `i` are set up. -/
def Others (i : SetIndex) (s : Router) : Prop :=
  ∀ j, j ≠ i → s.holdings.allocated j = true → Whole s.holdings s.world j

/-- All allocated sets are set up: so it is between two operations. -/
def Complete (s : Router) : Prop :=
  ∀ i, s.holdings.allocated i = true → Whole s.holdings s.world i

theorem Complete.others {s : Router} (h : Complete s) (i : SetIndex) : Others i s :=
  fun j _ hj => h j hj

theorem Others.complete {s : Router} {i : SetIndex} (h : Others i s)
    (hi : s.holdings.allocated i = false) : Complete s := by
  intro j hj
  refine h j ?_ hj
  rintro rfl
  rw [hi] at hj
  cases hj

theorem Whole.congr {h h' : Holdings} {w w' : World} {j : SetIndex} (hw : Whole h w j)
    (fd : ∀ m, h'.fd (j, m) = h.fd (j, m)) (cookie : ∀ m, h'.cookie (j, m) = h.cookie (j, m))
    (route : ∀ m, h'.route (j, m) = h.route (j, m))
    (routes : ∀ m, w'.routes (h.cookie (j, m)) = w.routes (h.cookie (j, m))) : Whole h' w' j where
  fd m := by rw [fd]; exact hw.fd m
  cookie m := by rw [cookie]; exact hw.cookie m
  route m := by rw [cookie, routes, route]; exact hw.route m

/-- A step that leaves the other sets and their routes alone. -/
theorem Others.of_set {s s' : Router} {i : SetIndex} (h : Others i s)
    (other : ∀ j, j ≠ i → s'.set j = s.set j)
    (routes : ∀ j m, j ≠ i → s.holdings.cookie (j, m) ≠ 0 →
      s'.world.routes (s.holdings.cookie (j, m)) = s.world.routes (s.holdings.cookie (j, m))) :
    Others i s' := by
  intro j hj ha
  have hset := other j hj
  have hw := h j hj ((congrArg ConnectionSet.allocated hset).symm.trans ha)
  exact hw.congr (fun m => congrArg (fun set => set.fds m) hset)
    (fun m => congrArg (fun set => set.cookies m) hset)
    (fun m => congrArg (fun set => set.route m) hset) fun m => routes j m hj (hw.cookie m)

theorem keeps_others (i : SetIndex) : Keeps i fun s => Clean s ∧ Others i s where
  record s h := ⟨(keeps_clean i).record s h.1, h.2⟩
  dropSlot s m hm h := ⟨(keeps_clean i).dropSlot s m hm h.1,
    h.2.of_set (fun _ => dropSlot_set_of_ne s m) fun _ _ _ _ => rfl⟩
  clearRoute s m hm h := ⟨(keeps_clean i).clearRoute s m hm h.1,
    h.2.of_set (fun _ => clearRoute_set_of_ne s m) fun _ _ _ _ => rfl⟩
  dropRoute s m h := by
    refine ⟨(keeps_clean i).dropRoute s m h.1,
      h.2.of_set (fun _ => dropRoute_set_of_ne s m) fun j k hj hk => BpfMap.delete_ne _ ?_⟩
    intro heq
    exact hj (congrArg Prod.fst (h.1.owned.unique (j, k) (i, m) heq hk))
  clearLifecycle s hi h := ⟨(keeps_clean i).clearLifecycle s hi h.1,
    h.2.of_set (fun _ => clearLifecycle_set_of_ne s) fun _ _ _ _ => rfl⟩
  dropLifecycle s h := ⟨(keeps_clean i).dropLifecycle s h.1,
    h.2.of_set (fun _ => dropLifecycle_set_of_ne s) fun _ _ _ _ => rfl⟩
  dropFlow s h := ⟨(keeps_clean i).dropFlow s h.1,
    h.2.of_set (fun _ _ => rfl) fun _ _ _ _ => rfl⟩
  dropDecision s h := ⟨(keeps_clean i).dropDecision s h.1,
    h.2.of_set (fun _ _ => rfl) fun _ _ _ _ => rfl⟩
  close s unlinks m h := by
    refine ⟨(keeps_clean i).close s unlinks m h.1, ?_⟩
    rcases closeMember_cases s i m unlinks with ⟨-, heq⟩ | ⟨fd, -, heq⟩
    · rw [heq]; exact h.2
    · rw [heq]
      refine h.2.of_set (fun j hj => ?_) fun _ _ _ _ => ?_
      · rw [modify_set_of_ne _ _ _ hj, close_set]
      · rw [modify_world, close_world]

/-! ## After a cleanup -/

theorem keeps_fd (i : SetIndex) (m : Member) : Keeps i fun s => (s.set i).fds m = none where
  record _ h := h
  dropSlot s k _ h := by simpa using h
  clearRoute s k _ h := by simpa using h
  dropRoute s k h := by simpa using h
  clearLifecycle s _ h := by simpa using h
  dropLifecycle s h := by simpa using h
  dropFlow s h := h
  dropDecision s h := h
  close s unlinks k h := by
    rcases closeMember_cases s i k unlinks with ⟨-, heq⟩ | ⟨fd, -, heq⟩
    · rw [heq]; exact h
    · rw [heq, modify_set_self, close_set]
      rcases eq_or_ne m k with rfl | hk
      · simp
      · simpa [hk] using h

/-- Whichever way the cleanup goes, the set has no descriptor left. -/
theorem cleanup_fd (calls : ReapCalls) (i : SetIndex) (s : Router) (m : Member) :
    ((cleanup calls i s).1.set i).fds m = none := by
  have hclosed := foldl_establishes (f := closeMember calls.unlinks i)
    (D := fun t k => (t.set i).fds k = none)
    (fun t k => by
      rcases closeMember_cases t i k calls.unlinks with ⟨hfd, heq⟩ | ⟨fd, -, heq⟩
      · rw [heq]; exact hfd
      · rw [heq, modify_set_self]; simp)
    (fun t k l h => (keeps_fd i l).close t calls.unlinks k h)
    members (firstPass calls.first i s).1 m (mem_members m)
  rw [cleanup]
  split
  · exact (keeps_fd i m).secondPass calls.second hclosed
  · exact hclosed

/-- The socket `c` behind descriptor `fd` of a member is open, or closed for
good. -/
def Closing (i : SetIndex) (m : Member) (fd : Nat) (c : UInt64) (s : Router) : Prop :=
  ((s.set i).fds m = some fd ∧ s.descriptors fd = some c) ∨
    (s.descriptors fd = none ∧ c ∈ s.closed)

theorem Closing.step {i : SetIndex} {m : Member} {fd : Nat} {c : UInt64} {s s' : Router}
    (h : Closing i m fd c s) (fds : (s'.set i).fds m = (s.set i).fds m)
    (descriptors : s'.descriptors = s.descriptors) (closed : s'.closed = s.closed) :
    Closing i m fd c s' := by
  rw [Closing, fds, descriptors, closed]
  exact h

theorem keeps_closing (i : SetIndex) (m : Member) (fd : Nat) (c : UInt64) :
    Keeps i fun s => Clean s ∧ Closing i m fd c s where
  record s h := ⟨(keeps_clean i).record s h.1, h.2⟩
  dropSlot s k hk h := ⟨(keeps_clean i).dropSlot s k hk h.1, h.2.step (by simp) rfl rfl⟩
  clearRoute s k hk h := ⟨(keeps_clean i).clearRoute s k hk h.1, h.2.step (by simp) rfl rfl⟩
  dropRoute s k h := ⟨(keeps_clean i).dropRoute s k h.1, h.2.step (by simp) rfl rfl⟩
  clearLifecycle s hi h := ⟨(keeps_clean i).clearLifecycle s hi h.1, h.2.step (by simp) rfl rfl⟩
  dropLifecycle s h := ⟨(keeps_clean i).dropLifecycle s h.1, h.2.step (by simp) rfl rfl⟩
  dropFlow s h := ⟨(keeps_clean i).dropFlow s h.1, h.2⟩
  dropDecision s h := ⟨(keeps_clean i).dropDecision s h.1, h.2⟩
  close s unlinks k h := by
    refine ⟨(keeps_clean i).close s unlinks k h.1, ?_⟩
    rcases closeMember_cases s i k unlinks with ⟨-, heq⟩ | ⟨f, hf, heq⟩
    · rw [heq]; exact h.2
    · obtain ⟨-, d, hd, -⟩ := h.1.opened.held (i, k) f hf
      rw [heq, Closing, modify_set_self, modify_descriptors, modify_closed, close_set,
        close_open _ hd]
      rcases h.2 with ⟨hfd, hc⟩ | ⟨hfd, hc⟩
      · rcases eq_or_ne m k with rfl | hk
        · rw [hfd] at hf
          obtain rfl := Option.some.inj hf
          rw [hc] at hd
          obtain rfl := Option.some.inj hd
          exact .inr ⟨BpfMap.delete_self .., by simp⟩
        · have hne : fd ≠ f := by
            rintro rfl
            exact hk (congrArg Prod.snd (h.1.opened.apart (i, m) (i, k) fd hfd hf))
          exact .inl ⟨by simpa [hk] using hfd, (BpfMap.delete_ne _ hne).trans hc⟩
      · exact .inr ⟨BpfMap.delete_of_eq_none hfd, List.mem_append_left _ hc⟩

/-- No key of set `i`, as it was in `s`, is left, and each of its descriptors
was closed exactly once. -/
structure Gone (i : SetIndex) (s s' : Router) : Prop where
  slot : ∀ m, s'.sockMap ((s.set i).slots m) = none
  route : ∀ m, s'.world.routes ((s.set i).cookies m) = none
  lifecycle : ∀ m, s'.world.lifecycle ((s.set i).cookies m) = none
  flow : ∀ m, s'.world.flows ((s.set i).cookies m) = none
  decision : ∀ m, s'.world.decisions ((s.set i).cookies m) = none
  closed : ∀ m fd, (s.set i).fds m = some fd →
    ∃ socket, s.descriptors fd = some socket ∧ s'.descriptors fd = none ∧
      s'.closed.count socket = 1

theorem slot_injective {x y : Seat}
    (h : x.1 * socksPerConnection + x.2 = y.1 * socksPerConnection + y.2) : x = y := by
  obtain ⟨i, m⟩ := x
  obtain ⟨j, k⟩ := y
  have hm := m.isLt
  have hk := k.isLt
  simp only [socksPerConnection] at h
  ext <;> simp only <;> omega

section Released
variable {h : Holdings} {w : World} {sockMap : BpfMap Nat UInt64} (o : Owned h w sockMap)
  {x : Seat}

include o

theorem Owned.slot_empty (hx : h.placed x = false) : sockMap (h.slot x) = none :=
  o.slots.absent fun y hy => by
    rw [o.slot_number, o.slot_number] at hy
    rw [slot_injective hy]
    exact hx

/-- A seat's cookie is nobody else's. -/
theorem Owned.only {flag : Seat → Bool} (hseated : ∀ y, flag y = true → h.cookie y ≠ 0)
    (hx : flag x = false) : ∀ y, h.cookie y = h.cookie x → flag y = false := by
  intro y hy
  cases hflag : flag y with
  | false => rfl
  | true =>
      rw [o.unique y x hy (hseated y hflag), hx] at hflag
      exact hflag.symm

theorem Owned.route_empty (hx : h.routed x = false) : w.routes (h.cookie x) = none :=
  o.routes.absent (o.only (fun y hy => o.seated y (.inr hy)) hx)

theorem Owned.lifecycle_empty (hx : h.cookie (x.1, 0) ≠ 0 → h.tracked x.1 = false) :
    w.lifecycle (h.cookie x) = none := by
  refine o.lifecycle.absent fun j hj => ?_
  cases htracked : h.tracked j with
  | false => rfl
  | true =>
      have hne := o.client_seated j htracked
      have hseat := o.unique (j, 0) x hj hne
      rw [← hseat] at hx
      exact htracked.symm.trans (hx hne)

theorem Owned.flow_empty (hx : h.cookie x ≠ 0 → h.heard x = true → w.flows (h.cookie x) = none) :
    w.flows (h.cookie x) = none := by
  by_cases h0 : h.cookie x = 0
  · rw [h0]; exact o.no_flow
  · cases hheard : h.heard x with
    | true => exact hx h0 hheard
    | false =>
        refine o.flows.absent fun y hy => ?_
        rw [o.unique y x hy (hy.trans_ne h0)]
        exact hheard

theorem Owned.decision_empty
    (hx : h.cookie x ≠ 0 → h.heard x = true → w.decisions (h.cookie x) = none) :
    w.decisions (h.cookie x) = none := by
  by_cases h0 : h.cookie x = 0
  · rw [h0]; exact o.no_decision
  · cases hheard : h.heard x with
    | true => exact hx h0 hheard
    | false =>
        refine o.decisions.absent fun y hy => ?_
        rw [o.unique y x hy (hy.trans_ne h0)]
        exact hheard

end Released

/-! ## Sets that change hands -/

section Blank
variable {h : Holdings} {w : World} {sockMap : BpfMap Nat UInt64} (o : Owned h w sockMap)
  {i : SetIndex} (fd : Member → Option Nat) (route : Member → RouteEntry) (allocated : Bool)

theorem blanked_allocated (h : Holdings) {j : SetIndex} (hj : j ≠ i) :
    (h.blanked i fd route allocated).allocated j = h.allocated j :=
  Function.update_of_ne hj ..

theorem ite_false_eq {c : Prop} [Decidable c] {b : Bool} (h : (if c then false else b) = true) :
    ¬ c ∧ b = true := by
  split at h
  · cases h
  · exact ⟨‹_›, h⟩

include o

theorem Owned.blanked (placed : ∀ m, h.placed (i, m) = false) (routed : ∀ m, h.routed (i, m) = false)
    (tracked : h.tracked i = false) (retired : h.retired i = false)
    (flow : w.flows (h.cookie (i, 0)) = none) (decision : w.decisions (h.cookie (i, 0)) = none) :
    Owned (h.blanked i fd route allocated) w sockMap := by
  have hheard : ∀ x, x.1 ≠ i → (h.blanked i fd route allocated).heard x = h.heard x := by
    intro x hx
    rw [Holdings.heard, Holdings.heard, blanked_allocated _ _ _ _ hx]
    rfl
  have hclient : ∀ x, x.1 = i → h.heard x = true → x = (i, 0) := by
    rintro ⟨j, m⟩ rfl hx
    simp only [Holdings.heard, retired, Bool.false_or, Bool.and_eq_true, beq_iff_eq] at hx
    rw [hx.2]
  -- only the client of the set is heard, and it has no entry
  have hentries : ∀ {ν : Type} {m : BpfMap UInt64 ν}, m (h.cookie (i, 0)) = none →
      Tracked m h.cookie h.heard (fun _ _ => True) →
      Tracked m (h.blanked i fd route allocated).cookie (h.blanked i fd route allocated).heard
        fun _ _ => True := by
    intro ν m hnone htracked k v hv
    obtain ⟨x, hx, hflag, -⟩ := htracked k v hv
    have hne : x.1 ≠ i := by
      intro hi
      rw [hclient x hi hflag] at hx
      rw [← hx, hnone] at hv
      cases hv
    exact ⟨x, (if_neg hne).trans hx, (hheard x hne).trans hflag, trivial⟩
  constructor
  case slot_number => exact o.slot_number
  case exclusive =>
    intro j hj
    rcases eq_or_ne j i with rfl | hne
    · exact retired
    · rw [blanked_allocated _ _ _ _ hne] at hj
      exact o.exclusive j hj
  case blank =>
    intro x ha hr
    rcases eq_or_ne x.1 i with hi | hne
    · exact ⟨if_pos hi, if_pos hi, if_pos hi, by rw [hi]; exact Function.update_self ..⟩
    · rw [blanked_allocated _ _ _ _ hne] at ha
      obtain ⟨h1, h2, h3, h4⟩ := o.blank x ha hr
      exact ⟨(if_neg hne).trans h1, (if_neg hne).trans h2, (if_neg hne).trans h3,
        (Function.update_of_ne hne ..).trans h4⟩
  case seated =>
    intro x hx
    have hx' : x.1 ≠ i ∧ (h.placed x = true ∨ h.routed x = true) := by
      rcases hx with hx | hx
      · exact ⟨(ite_false_eq hx).1, .inl (ite_false_eq hx).2⟩
      · exact ⟨(ite_false_eq hx).1, .inr (ite_false_eq hx).2⟩
    exact (if_neg hx'.1).trans_ne (o.seated x hx'.2)
  case client_seated =>
    intro j hj
    have hne : j ≠ i := by
      rintro rfl
      exact absurd ((Function.update_self ..).symm.trans hj) Bool.false_ne_true
    exact (if_neg hne).trans_ne
      (o.client_seated j ((Function.update_of_ne hne ..).symm.trans hj))
  case unique =>
    intro x y hxy hx
    have hxi : x.1 ≠ i := fun hi => hx (if_pos hi)
    have hyi : y.1 ≠ i := fun hi => hx (hxy.trans (if_pos hi))
    simp only [Holdings.blanked, if_neg hxi, if_neg hyi] at hxy hx
    exact o.unique x y hxy hx
  case slots =>
    refine o.slots.mono (fun _ _ => rfl) (fun x hx => ?_) fun x c hx hc => ?_
    all_goals
      have hne : x.1 ≠ i := by
        intro hi
        obtain ⟨j, m⟩ := x
        obtain rfl : j = i := hi
        rw [placed m] at hx
        cases hx
    · exact (if_neg hne).trans hx
    · exact hc.trans (if_neg hne).symm
  case routes =>
    have hne : ∀ x, h.routed x = true → x.1 ≠ i := by
      rintro ⟨j, m⟩ hx rfl
      rw [routed m] at hx
      cases hx
    exact o.routes.mono (fun x hx => if_neg (hne x hx)) (fun x hx => (if_neg (hne x hx)).trans hx)
      fun x e hx he => he.trans (if_neg (hne x hx)).symm
  case lifecycle =>
    have hne : ∀ j, h.tracked j = true → j ≠ i := by
      rintro j hj rfl
      rw [tracked] at hj
      cases hj
    exact o.lifecycle.mono (fun j hj => if_neg (hne j hj))
      (fun j hj => (Function.update_of_ne (hne j hj) ..).trans hj) fun _ _ _ => id
  case flows => exact hentries flow o.flows
  case decisions => exact hentries decision o.decisions
  case no_flow => exact o.no_flow
  case no_decision => exact o.no_decision

omit o in
theorem Opened.blanked {descriptors : BpfMap Nat UInt64} {closed used : List UInt64}
    (o : Opened h descriptors closed used)
    (open_apart : ∀ m f, fd m = some f →
      allocated = true ∧ (∃ c, descriptors f = some c) ∧ ∀ x, x.1 ≠ i → h.fd x ≠ some f)
    (injective : ∀ m k f, fd m = some f → fd k = some f → m = k) :
    Opened (h.blanked i fd route allocated) descriptors closed used where
  held x f hf := by
    rcases eq_or_ne x.1 i with hi | hne
    · obtain ⟨ha, ⟨c, hc⟩, -⟩ := open_apart x.2 f ((if_pos hi).symm.trans hf)
      rw [hi]
      exact ⟨(Function.update_self ..).trans ha, c, hc, .inl (if_pos hi)⟩
    · obtain ⟨ha, c, hc, hcookie⟩ := o.held x f ((if_neg hne).symm.trans hf)
      rw [blanked_allocated _ _ _ _ hne]
      exact ⟨ha, c, hc, hcookie.imp (if_neg hne).trans (if_neg hne).trans⟩
  apart x y f hx hy := by
    rcases eq_or_ne x.1 i with hi | hi <;> rcases eq_or_ne y.1 i with hj | hj
    · have := injective x.2 y.2 f ((if_pos hi).symm.trans hx) ((if_pos hj).symm.trans hy)
      exact Prod.ext (hi.trans hj.symm) this
    · have := (open_apart x.2 f ((if_pos hi).symm.trans hx)).2.2 y hj
      exact absurd ((if_neg hj).symm.trans hy) this
    · have := (open_apart y.2 f ((if_pos hj).symm.trans hy)).2.2 x hi
      exact absurd ((if_neg hi).symm.trans hx) this
    · exact o.apart x y f ((if_neg hi).symm.trans hx) ((if_neg hj).symm.trans hy)
  single := o.single
  live := o.live
  closed_used := o.closed_used
  once := o.once
  accounted x hx := by
    have hne : x.1 ≠ i := fun hi => hx (if_pos hi)
    have hcookie : (h.blanked i fd route allocated).cookie x = h.cookie x := if_neg hne
    rw [hcookie] at hx ⊢
    exact (o.accounted x hx).imp_left (if_neg hne).trans_ne

end Blank

section Quarantine
variable {h : Holdings} (i : SetIndex)

/-- A quarantined set keeps its cookies, and all its members count as
heard. -/
theorem Owned.quarantined {w : World} {sockMap : BpfMap Nat UInt64} (o : Owned h w sockMap) :
    Owned { h with
      allocated := Function.update h.allocated i false
      retired := Function.update h.retired i true } w sockMap := by
  have hheard : ∀ x, h.heard x = true → Holdings.heard { h with
      allocated := Function.update h.allocated i false
      retired := Function.update h.retired i true } x = true := by
    intro x hx
    rcases eq_or_ne x.1 i with hi | hne
    · simp [Holdings.heard, hi]
    · simpa [Holdings.heard, hne] using hx
  refine { o with exclusive := ?_, blank := ?_, flows := ?_, decisions := ?_ }
  · intro j hj
    rcases eq_or_ne j i with rfl | hne
    · exact absurd ((Function.update_self ..).symm.trans hj) Bool.false_ne_true
    · exact (Function.update_of_ne hne ..).trans
        (o.exclusive j ((Function.update_of_ne hne ..).symm.trans hj))
  · intro x ha hr
    have hne : x.1 ≠ i := by
      rintro hi
      rw [hi] at hr
      exact absurd ((Function.update_self ..).symm.trans hr) Bool.true_eq_false_eq_False
    exact o.blank x ((Function.update_of_ne hne ..).symm.trans ha)
      ((Function.update_of_ne hne ..).symm.trans hr)
  · exact o.flows.mono (fun _ _ => rfl) hheard fun _ _ _ => id
  · exact o.decisions.mono (fun _ _ => rfl) hheard fun _ _ _ => id

theorem Opened.quarantined {descriptors : BpfMap Nat UInt64} {closed used : List UInt64}
    (o : Opened h descriptors closed used) (retired : SetIndex → Bool)
    (hfd : ∀ m, h.fd (i, m) = none) :
    Opened { h with allocated := Function.update h.allocated i false, retired := retired }
      descriptors closed used := by
  refine { o with held := fun x f hf => ?_ }
  have hne : x.1 ≠ i := by
    intro hi
    obtain ⟨j, m⟩ := x
    obtain rfl : j = i := hi
    exact absurd (hf.symm.trans (hfd m)) (Option.some_ne_none f)
  obtain ⟨ha, hrest⟩ := o.held x f hf
  exact ⟨(Function.update_of_ne hne ..).trans ha, hrest⟩

end Quarantine

/-! ## A reap -/

section Reap
variable {s : Router} {i : SetIndex}

theorem beginReap_holdings : (beginReap i s).holdings = s.holdings := by
  rw [beginReap]
  split
  · exact holdingsOf_update_same _ _ i _ ⟨rfl, rfl, rfl, rfl, rfl, rfl, rfl⟩
  · rfl

theorem beginReap_clean (h : Clean s) : Clean (beginReap i s) := by
  constructor <;> rw [beginReap_holdings]
  · exact h.owned
  · exact h.opened

theorem quarantine_holdings : ({ s with manager := s.manager.quarantine i } : Router).holdings =
    { s.holdings with
      allocated := Function.update s.holdings.allocated i false
      retired := Function.update s.holdings.retired i true } :=
  holdingsOf_quarantine ..

theorem giveBack_holdings (wasActive : Bool) :
    ({ s with manager := s.manager.giveBack i wasActive } : Router).holdings =
      s.holdings.blanked i (fun _ => none) (s.set i).reset.route false := by
  have hrecycled : ({ s with manager := s.manager.recycle i } : Router).holdings =
      s.holdings.blanked i (fun _ => none) (s.set i).reset.route false :=
    holdingsOf_blank _ _ i (s.set i).reset rfl rfl rfl rfl rfl
  cases wasActive <;> exact hrecycled

theorem giveBack_set_of_ne (t : Router) (wasActive : Bool) {j : SetIndex} (hj : j ≠ i) :
    ({ t with manager := t.manager.giveBack i wasActive } : Router).set j = t.set j := by
  cases wasActive <;> exact Manager.modify_of_ne i ConnectionSet.reset t.manager hj

/-- What a reap finds once its cleanup is over. -/
theorem cleanup_clean (h : Clean s) (ho : Others i s) (calls : ReapCalls) :
    Clean (cleanup calls i (beginReap i s)).1 ∧ Others i (cleanup calls i (beginReap i s)).1 := by
  refine (keeps_others i).cleanup calls ⟨beginReap_clean h, ?_⟩
  intro j hj ha
  rw [beginReap_holdings] at ha ⊢
  have hw := ho j hj ha
  rwa [show (beginReap i s).world = s.world from rfl]

/-- The cleanup of a reap leaves the slots and the cookies of the set, which
stays allocated. -/
theorem cleanup_set (calls : ReapCalls) :
    ((cleanup calls i (beginReap i s)).1.set i).slots = (s.set i).slots ∧
    ((cleanup calls i (beginReap i s)).1.set i).cookies = (s.set i).cookies ∧
    ((cleanup calls i (beginReap i s)).1.set i).allocated = (s.set i).allocated := by
  have hframe := cleanup_frame calls i (beginReap i s)
  rw [hframe.slots, hframe.cookies, hframe.allocated, beginReap_set]
  exact ⟨rfl, rfl, rfl⟩

/-- Set `i` holds no entry any more. -/
structure Emptied (i : SetIndex) (t : Router) : Prop where
  placed : ∀ m, t.holdings.placed (i, m) = false
  routed : ∀ m, t.holdings.routed (i, m) = false
  tracked : t.holdings.tracked i = false
  flow : ∀ m, t.world.flows (t.holdings.cookie (i, m)) = none
  decision : ∀ m, t.world.decisions (t.holdings.cookie (i, m)) = none

/-- A cleanup without a failure has emptied the set: the members whose flows
it does not delete have none. -/
theorem cleanup_emptied (h : Clean s) (ha : (s.set i).allocated = true) (calls : ReapCalls)
    (hclean : (cleanup calls i (beginReap i s)).2 = false) :
    Emptied i (cleanup calls i (beginReap i s)).1 := by
  have hc := (keeps_clean i).cleanup calls (beginReap_clean (i := i) h)
  have hreleased := cleanup_released calls hclean
  obtain ⟨-, hcookies, hset⟩ := cleanup_set (i := i) (s := s) calls
  generalize (cleanup calls i (beginReap i s)).1 = t at *
  rw [beginReap_set] at hreleased
  have hallocated : t.holdings.allocated i = true := hset.trans ha
  have hclient : t.holdings.cookie (i, 0) = (s.set i).cookies 0 := congrFun hcookies 0
  have hheard : ∀ m, t.holdings.heard (i, m) = true → m = 0 := by
    intro m hm
    simpa [Holdings.heard, hallocated, hc.owned.exclusive i hallocated] using hm
  refine ⟨hreleased.slot, hreleased.route, ?_, fun m => ?_, fun m => ?_⟩
  · cases htracked : t.holdings.tracked i with
    | false => rfl
    | true =>
        have hne := hc.owned.client_seated i htracked
        exact htracked.symm.trans (hreleased.lifecycle (hclient ▸ hne))
  · refine hc.owned.flow_empty (x := (i, m)) fun hne hm => ?_
    obtain rfl := hheard m hm
    rw [hclient] at hne ⊢
    exact hreleased.flow hne
  · refine hc.owned.decision_empty (x := (i, m)) fun hne hm => ?_
    obtain rfl := hheard m hm
    rw [hclient] at hne ⊢
    exact hreleased.decision hne

/-- **A clean reap leaves no key of the set** and has closed each of its
descriptors exactly once. -/
theorem reap_gone (h : Clean s) (ha : (s.set i).allocated = true) (calls : ReapCalls)
    (hdone : (reapConnectionSet calls i s).2 = true) :
    Gone i s (reapConnectionSet calls i s).1 := by
  rcases reap_cases calls ha with ⟨-, heq⟩ | ⟨hclean, heq⟩
  · rw [heq] at hdone
    cases hdone
  · have hbegun := beginReap_clean (i := i) h
    have hc := (keeps_clean i).cleanup calls hbegun
    have hemptied := cleanup_emptied h ha calls hclean
    obtain ⟨hslots, hcookies, -⟩ := cleanup_set (i := i) (s := s) calls
    have hclosing := fun m fd socket h => (keeps_closing i m fd socket).cleanup calls ⟨hbegun, h⟩
    have hfd := cleanup_fd calls i (beginReap i s)
    rw [heq]
    generalize (cleanup calls i (beginReap i s)).1 = t at *
    constructor
    case slot =>
      intro m
      rw [← hslots]
      exact hc.owned.slot_empty (x := (i, m)) (hemptied.placed m)
    case route =>
      rw [← hcookies]
      exact fun m => hc.owned.route_empty (x := (i, m)) (hemptied.routed m)
    case lifecycle =>
      rw [← hcookies]
      exact fun m => hc.owned.lifecycle_empty (x := (i, m)) fun _ => hemptied.tracked
    case flow =>
      rw [← hcookies]
      exact hemptied.flow
    case decision =>
      rw [← hcookies]
      exact hemptied.decision
    case closed =>
      intro m fd hm
      obtain ⟨-, c, hopen, -⟩ := h.opened.held (i, m) fd hm
      refine ⟨c, hopen, ?_⟩
      have hbegin : ((beginReap i s).set i).fds m = some fd := by
        rw [beginReap_set]
        exact hm
      rcases (hclosing m fd c (.inl ⟨hbegin, hopen⟩)).2 with ⟨hsome, -⟩ | ⟨hd, hin⟩
      · rw [hfd m] at hsome
        cases hsome
      · exact ⟨hd, List.count_eq_one_of_mem hc.opened.once hin⟩

/-- **A reap keeps both**, clean or not, and all sets that are left are set
up. -/
theorem reap_clean (h : Clean s) (ho : Others i s) (calls : ReapCalls) :
    Clean (reapConnectionSet calls i s).1 ∧ Complete (reapConnectionSet calls i s).1 := by
  cases ha : (s.set i).allocated with
  | false =>
      rw [reap_of_not_allocated calls ha]
      exact ⟨h, ho.complete ha⟩
  | true =>
      obtain ⟨hc, hothers⟩ := cleanup_clean h ho calls
      have hfd := cleanup_fd calls i (beginReap i s)
      have hemptied := cleanup_emptied h ha calls
      have hallocated := (cleanup_set (i := i) (s := s) calls).2.2.trans ha
      rcases reap_cases calls ha with ⟨-, heq⟩ | ⟨hclean, heq⟩
      · rw [heq]
        generalize (cleanup calls i (beginReap i s)).1 = t at *
        refine ⟨⟨?_, ?_⟩, Others.complete (i := i) (hothers.of_set ?_ fun _ _ _ _ => rfl) ?_⟩
        · rw [quarantine_holdings]
          exact hc.owned.quarantined i
        · rw [quarantine_holdings]
          exact hc.opened.quarantined i _ hfd
        · exact fun j hj =>
            Manager.modify_of_ne i (fun set => { set with allocated := false }) t.manager hj
        · rw [quarantine_holdings]
          exact Function.update_self ..
      · specialize hemptied hclean
        rw [heq]
        generalize (cleanup calls i (beginReap i s)).1 = t at *
        refine ⟨⟨?_, ?_⟩, Others.complete (i := i) (hothers.of_set ?_ fun _ _ _ _ => rfl) ?_⟩
        · rw [giveBack_holdings]
          exact hc.owned.blanked _ _ _ hemptied.placed hemptied.routed hemptied.tracked
            (hc.owned.exclusive i hallocated) (hemptied.flow 0) (hemptied.decision 0)
        · rw [giveBack_holdings]
          exact hc.opened.blanked _ _ _ (fun m f hf => by cases hf) fun m k f hf => by cases hf
        · exact fun j hj => giveBack_set_of_ne t _ hj
        · rw [giveBack_holdings]
          exact Function.update_self ..

end Reap

end Xsr.Connection
