import Xsr.Connection.Drain

/-!
# Enrolment — a client is given a set once

The cookie of a client is new when it is accepted, so no later accept gives a
set to the same client: what is known of the set of a client stays known.
-/

namespace Xsr.Connection

open Kernel Lib Parsing Xsr.System

/-! ## What is known of a client -/

/-- `Q` holds of every set that has client `c`, which was given out. -/
structure Enrolled (c : UInt64) (Q : ConnectionSet → Prop) (s : Router) : Prop where
  nonzero : c ≠ 0
  used : c ∈ s.used
  kept : ∀ i, (s.set i).cookies 0 = c → Q (s.set i)

/-- `Q` speaks of what a set retains. -/
def Lasting (Q : ConnectionSet → Prop) : Prop :=
  ∀ set set', Retains set set' → Q set → Q set'

section Enrolled
variable {c : UInt64} {Q : ConnectionSet → Prop} (lasting : Lasting Q) {s : Router}

include lasting

/-- A write to one set, which retains what is known of its client. -/
theorem Enrolled.of_set (h : Enrolled c Q s) {t : Router} {i : SetIndex}
    (used : ∀ k ∈ s.used, k ∈ t.used) (other : ∀ j, j ≠ i → t.set j = s.set j)
    (own : (t.set i).cookies 0 = c → Retains (s.set i) (t.set i)) : Enrolled c Q t := by
  refine ⟨h.nonzero, used c h.used, fun j hj => ?_⟩
  rcases eq_or_ne j i with rfl | hne
  · have hretains := own hj
    rw [hretains.cookies] at hj
    exact lasting _ _ hretains (h.kept j hj)
  · rw [other j hne] at hj ⊢
    exact h.kept j hj

omit lasting in
theorem reap_used (calls : ReapCalls) (i : SetIndex) (s : Router) :
    (reapConnectionSet calls i s).1.used = s.used := by
  cases ha : (s.set i).allocated with
  | false => rw [reap_of_not_allocated calls ha]
  | true =>
      have hcleaned := (cleanup_frame calls i (beginReap i s)).used
      rcases reap_cases calls ha with ⟨-, heq⟩ | ⟨-, heq⟩ <;> rw [heq] <;> exact hcleaned

theorem stable_enrolled : Stable (Enrolled c Q) where
  reap s i calls h := by
    obtain ⟨hkept, hown⟩ := reap_kept calls i s
    refine h.of_set lasting (fun k hk => (reap_used calls i s).symm ▸ hk) hkept.other fun hc => ?_
    refine hown.resolve_right fun hzero => h.nonzero ?_
    rw [← hc, hzero]
  mark s i f hf h := by
    refine h.of_set lasting (fun _ hk => hk) (fun j hj => modify_set_of_ne s i f hj) fun _ => ?_
    rw [modify_set_self]
    have hsame := hf.holdings (s.set i)
    exact ⟨hsame.cookies, hf.baseline (s.set i), fun ha => hsame.allocated ▸ ha⟩
  count _ _ _ h := ⟨h.nonzero, h.used, h.kept⟩

end Enrolled

/-! ### A setup -/

/-- The client of set `i` is seated, if its cookie is known at all. -/
structure Seating (client : Nat × UInt64) (used : List UInt64) (i : SetIndex) (s : Router) :
    Prop where
  fd : (s.set i).fds 0 = some client.1
  opened : s.descriptors client.1 = some client.2
  cookie : (s.set i).cookies 0 = 0 ∨ (s.set i).cookies 0 = client.2
  used : ∀ k ∈ used, k ∈ s.used

section Seating
variable {client : Nat × UInt64} {used : List UInt64} {i : SetIndex} {s : Router}

/-- A write that leaves the descriptors and the cookies alone. -/
theorem Seating.congr (h : Seating client used i s) {t : Router}
    (set : (t.set i).fds = (s.set i).fds ∧ (t.set i).cookies = (s.set i).cookies)
    (router : t.descriptors = s.descriptors ∧ t.used = s.used) : Seating client used i t := by
  obtain ⟨hfds, hcookies⟩ := set
  obtain ⟨hdescriptors, hused⟩ := router
  refine ⟨?_, ?_, ?_, ?_⟩
  · rw [hfds]
    exact h.fd
  · rw [hdescriptors]
    exact h.opened
  · rw [hcookies]
    exact h.cookie
  · rw [hused]
    exact h.used

variable {calls : AddCalls}

theorem setupKeeps_seating
    (apart : ∀ m ∈ backends, ∀ fd socket, calls.socket m = some (fd, socket) → fd ≠ client.1) :
    SetupKeeps calls i (Seating client used i) := by
  have hclient : ∀ m ∈ backends, (0 : Member) ≠ m := by decide
  constructor
  case toInstallsKeep =>
    constructor
    · intro t h
      exact h.congr (by rw [Router.placeLifecycle, modify_set_self]; exact ⟨rfl, rfl⟩) ⟨rfl, rfl⟩
    · intro t m h
      exact h.congr (by rw [Router.placeRoute, modify_set_self]; exact ⟨rfl, rfl⟩) ⟨rfl, rfl⟩
    · intro t m socket h
      exact h.congr (by rw [placeSlot_set]; exact ⟨rfl, rfl⟩) ⟨rfl, rfl⟩
  case refuse =>
    intro t m hm h
    refine ⟨?_, h.opened, ?_, h.used⟩ <;> rw [modify_set_self]
    · exact (Function.update_of_ne (hclient m hm) ..).trans h.fd
    · exact h.cookie
  case connect =>
    intro t m hm fd socket hsocket h
    refine ⟨?_, ?_, ?_, fun k hk => List.mem_cons_of_mem socket (h.used k hk)⟩
    · rw [Router.connect, modify_set_self]
      exact (Function.update_of_ne (hclient m hm) ..).trans h.fd
    · exact (BpfMap.update_ne _ _ (apart m hm fd socket hsocket).symm).trans h.opened
    · rw [Router.connect, modify_set_self]
      exact h.cookie
  case learnCookie =>
    intro t m socket hsocket h
    refine ⟨?_, h.opened, ?_, h.used⟩ <;> rw [Router.learnCookie, modify_set_self] <;> dsimp only
    · exact h.fd
    · rcases eq_or_ne 0 m with rfl | hne
      · -- the socket behind the client's descriptor
        rw [Router.socketOf, h.fd, Option.bind_some, h.opened] at hsocket
        obtain rfl := Option.some.inj hsocket
        exact .inr (Function.update_self ..)
      · exact h.cookie.imp (Function.update_of_ne hne ..).trans (Function.update_of_ne hne ..).trans
  case note =>
    intro t total h
    exact h.congr (by rw [modify_set_self]; exact ⟨rfl, rfl⟩) ⟨rfl, rfl⟩

end Seating

/-! ### An accept -/

section Accept
variable {s : Router} (hs : Settled s) {client : Nat × UInt64} {calls : AddCalls}
  (fresh : Fresh s (calls.sockets client))

/-- The other sets while set `i` is set up. -/
theorem accept_others {i j : SetIndex} (hj : j ≠ i) :
    (setup calls i ((s.openSocket client.1 client.2).allocate i client.1)).1.set j = s.set j :=
  ((setup_kept calls i _).other j hj).trans (Function.update_of_ne hj ..)

include fresh

/-- A setup starts with the client on its descriptor, and no cookie known. -/
theorem accept_seating (i : SetIndex) : Seating client (client.2 :: s.used) i
    (setup calls i ((s.openSocket client.1 client.2).allocate i client.1)).1 := by
  refine (setupKeeps_seating fun m hm fd socket hsocket => ?_).setup _ ?_
  · have hne : m ≠ 0 := by
      rintro rfl
      exact absurd hm (by decide)
    exact (fresh.apart m 0 fd socket client.1 client.2 hne ((sockets_backend hm).trans hsocket)
      sockets_client).1
  · have hset : ((s.openSocket client.1 client.2).allocate i client.1).set i =
        (s.set i).taken client.1 := Function.update_self ..
    refine ⟨?_, BpfMap.update_self .., .inl ?_, fun _ hk => hk⟩ <;> rw [hset] <;> rfl

include hs

/-- An accept leaves the sets of all other clients alone. -/
theorem Enrolled.accept {c : UInt64} {Q : ConnectionSet → Prop} (lasting : Lasting Q)
    (h : Enrolled c Q s) :
    Enrolled c Q (addConnectionSet calls client.1 (s.openSocket client.1 client.2)).1 := by
  obtain ⟨h0, hfresh⟩ := fresh.cookie 0 client.1 client.2 sockets_client
  have hopened : Enrolled c Q (s.openSocket client.1 client.2) :=
    ⟨h.nonzero, List.mem_cons_of_mem _ h.used, h.kept⟩
  have haccounted : Accounted (s.openSocket client.1 client.2).manager := hs.accounted
  rcases add_cases calls (s.openSocket client.1 client.2) client.1 with
    ⟨-, heq⟩ | ⟨hpos, htop⟩ | ⟨i, -, -, hcases⟩
  · rw [heq]
    refine hopened.of_set lasting (i := firstSet) (fun k hk => (close_used ..).symm ▸ hk)
      (fun j _ => close_set ..) fun _ => ?_
    rw [close_set]
    exact ⟨rfl, rfl, id⟩
  · exact absurd (haccounted.top_lt hpos) (Nat.not_lt.mpr htop)
  · have hseating := accept_seating fresh i
    have hsetup : Enrolled c Q
        (setup calls i ((s.openSocket client.1 client.2).allocate i client.1)).1 := by
      refine hopened.of_set lasting hseating.used (fun j hj => accept_others hj) fun hc => ?_
      -- the new client is not `c`
      rcases hseating.cookie with hzero | hclient
      · exact absurd (hc.symm.trans hzero) h.nonzero
      · exact absurd (hc.symm.trans hclient ▸ h.used) hfresh
    rcases hcases with ⟨-, heq⟩ | ⟨-, heq⟩ <;> rw [heq]
    · refine hsetup.of_set lasting (i := i) (fun _ hk => hk)
        (fun j hj => Function.update_of_ne hj ..) fun _ => ?_
      have hset : ∀ t : Router, ({ t with manager := t.manager.activate i } : Router).set i =
          { t.set i with active := true } := fun t => Function.update_self ..
      rw [hset]
      exact ⟨rfl, rfl, id⟩
    · exact (stable_enrolled lasting).reap _ i calls.reap hsetup

end Accept

/-! ## Runs -/

theorem Enrolled.step {pol : Policy} {c : UInt64} {Q : ConnectionSet → Prop} (lasting : Lasting Q)
    {d d' : Drain} {e : Move} (hs : Settled d.router) (h : Enrolled c Q d.router)
    (hstep : DrainStep pol d e d') : Enrolled c Q d'.router := by
  have hstable := stable_enrolled (c := c) lasting
  cases hstep with
  | traffic he step =>
      cases step with
      | parse skb attached => exact ⟨h.nonzero, h.used, h.kept⟩
      | unlink slot => exact ⟨h.nonzero, h.used, h.kept⟩
      | age grams kept => exact ⟨h.nonzero, h.used, h.kept⟩
      | _ => exact he.elim
  | verdict pos room step => exact ⟨h.nonzero, h.used, h.kept⟩
  | control idle he step =>
      cases step with
      | accept fresh => exact h.accept hs fresh lasting
      | reap i calls => exact hstable.reap d.router i calls h
      | check calls active => exact hstable.checkSet h calls
      | destroy calls =>
          dsimp only
          exact hstable.destroy h calls
      | _ => exact he.elim
  | look idle active drains => exact hstable.beginDrain (hstable.notePeerClosed h)
  | settle turn polled read => exact hstable.settle h _
  | _ => exact ⟨h.nonzero, h.used, h.kept⟩

end Xsr.Connection
