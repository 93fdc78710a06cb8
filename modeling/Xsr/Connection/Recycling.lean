import Xsr.Connection.Accounting
import Xsr.Connection.Installation
import Xsr.System.Isolation

/-!
# Recycling — no key of a connection outlives it

Between two operations every entry is owned, every allocated set is set up,
and nothing else is in the maps. So what a reap that succeeds gives back is
empty, and what a reap that fails keeps is kept for good.
-/

namespace Xsr.Connection

open Kernel Lib Parsing

/-! ## The invariant of whole runs -/

/-- What holds between two operations. -/
structure Settled (s : Router) : Prop where
  clean : Clean s
  complete : Complete s
  accounted : Accounted s.manager

theorem Settled.reap {s : Router} (h : Settled s) (i : SetIndex) (calls : ReapCalls) :
    Settled (reapConnectionSet calls i s).1 := by
  obtain ⟨hclean, hcomplete⟩ := reap_clean h.clean (h.complete.others i) calls
  exact ⟨hclean, hcomplete, reap_accounted h.accounted calls⟩

/-- A step that writes nothing a holding is read from, and no map. -/
theorem Settled.of_holdings {s s' : Router} (h : Settled s) (holdings : s'.holdings = s.holdings)
    (maps : s'.world = s.world ∧ s'.sockMap = s.sockMap)
    (descriptors : s'.descriptors = s.descriptors ∧ s'.closed = s.closed ∧ s'.used = s.used)
    (accounted : Accounted s'.manager) : Settled s' := by
  obtain ⟨hworld, hsockMap⟩ := maps
  obtain ⟨hdescriptors, hclosed, hused⟩ := descriptors
  refine ⟨⟨?_, ?_⟩, ?_, accounted⟩
  · rw [holdings, hworld, hsockMap]
    exact h.clean.owned
  · rw [holdings, hdescriptors, hclosed, hused]
    exact h.clean.opened
  · rw [Complete, holdings, hworld]
    exact h.complete

theorem stable_settled : Stable Settled where
  reap _ i calls h := h.reap i calls
  mark s i f hf h := h.of_holdings (modify_holdings (hf.holdings (s.set i))) ⟨rfl, rfl⟩ ⟨rfl, rfl, rfl⟩
    (stable_accounted.mark s i f hf h.accounted)
  count s n k h := h.of_holdings rfl ⟨rfl, rfl⟩ ⟨rfl, rfl, rfl⟩
    (stable_accounted.count s n k h.accounted)

/-! ## An accept -/

section Accept
variable {s : Router} (h : Settled s) {client : Nat × UInt64} {calls : AddCalls}
  (fresh : Fresh s (calls.sockets client))

theorem sockets_client : calls.sockets client 0 = some client := Function.update_self ..

theorem sockets_backend {m : Member} (hm : m ∈ backends) :
    calls.sockets client m = calls.socket m := by
  refine Function.update_of_ne ?_ ..
  rintro rfl
  exact absurd hm (by decide)

theorem allocate_holdings (i : SetIndex) (fd : Nat) : (s.allocate i fd).holdings =
    s.holdings.blanked i (Function.update (fun _ => none) 0 (some fd)) ((s.set i).taken fd).route
      true :=
  holdingsOf_blank _ _ i ((s.set i).taken fd) rfl rfl rfl rfl rfl

include fresh

/-- The sockets of the backends are fresh once the client's is open. -/
theorem accept_fresh (i : SetIndex) :
    Fresh ((s.openSocket client.1 client.2).allocate i client.1)
      fun m => if m ∈ backends then calls.socket m else none := by
  have hrest : ∀ {k f c}, (if k ∈ backends then calls.socket k else none) = some (f, c) →
      k ≠ 0 ∧ calls.sockets client k = some (f, c) := by
    intro k f c hk
    split at hk
    · rename_i hin
      refine ⟨?_, (sockets_backend hin).trans hk⟩
      rintro rfl
      exact absurd hin (by decide)
    · cases hk
  constructor
  · intro k f c hk
    obtain ⟨hne, hk⟩ := hrest hk
    obtain ⟨h0, hused⟩ := fresh.cookie k f c hk
    refine ⟨h0, fun hin => ?_⟩
    rcases List.mem_cons.mp hin with rfl | hin
    · exact (fresh.apart k 0 f client.2 client.1 client.2 hne hk sockets_client).2 rfl
    · exact hused hin
  · intro k f c hk
    obtain ⟨hne, hk⟩ := hrest hk
    refine (BpfMap.update_ne _ _ ?_).trans (fresh.descriptor k f c hk)
    exact (fresh.apart k 0 f c client.1 client.2 hne hk sockets_client).1
  · intro k l f c f' c' hne hk hl
    exact fresh.apart k l f c f' c' hne (hrest hk).2 (hrest hl).2

include h

theorem accept_opened : Opened s.holdings (s.descriptors.update client.1 client.2) s.closed
    (client.2 :: s.used) := by
  obtain ⟨h0, hused⟩ := fresh.cookie 0 client.1 client.2 sockets_client
  exact h.clean.opened.openSocket (fresh.descriptor 0 client.1 client.2 sockets_client) h0 hused

/-- A setup starts on a set that is free. -/
theorem accept_connecting {i : SetIndex} (ha : s.holdings.allocated i = false)
    (hr : s.holdings.retired i = false) :
    Connecting calls i backends ((s.openSocket client.1 client.2).allocate i client.1) := by
  have hset := allocate_holdings (s := s.openSocket client.1 client.2) i client.1
  have hblank := fun m => h.clean.owned.blank (i, m) ha hr
  have hclosed := fresh.descriptor 0 client.1 client.2 sockets_client
  have hfd : ∀ {m f}, Function.update (fun _ => none) (0 : Member) (some client.1) m = some f →
      m = 0 ∧ f = client.1 := by
    intro m f hm
    rcases eq_or_ne m 0 with rfl | hne
    · rw [Function.update_self] at hm
      exact ⟨rfl, (Option.some.inj hm).symm⟩
    · rw [Function.update_of_ne hne] at hm
      cases hm
  refine ⟨⟨⟨?owned, ?opened⟩, ?others, ?allocated⟩, fun m => ?unnamed, fun m hm => ?fd,
    accept_fresh fresh i, by decide⟩
  case owned =>
    rw [hset]
    refine h.clean.owned.blanked _ _ _ (fun m => (hblank m).2.1) (fun m => (hblank m).2.2.1)
      (hblank 0).2.2.2 hr ?_ ?_ <;> rw [(hblank 0).1]
    · exact h.clean.owned.no_flow
    · exact h.clean.owned.no_decision
  case opened =>
    rw [hset]
    refine (accept_opened h fresh).blanked _ _ _ (fun m f hm => ?_) fun m k f hm hk => ?_
    · obtain ⟨-, rfl⟩ := hfd hm
      exact ⟨rfl, ⟨client.2, BpfMap.update_self ..⟩, fun x _ => h.clean.opened.unheld hclosed x⟩
    · exact (hfd hm).1.trans (hfd hk).1.symm
  case others =>
    exact (h.complete.others i).of_set
      (fun j hj => Manager.modify_of_ne i (ConnectionSet.taken · client.1) s.manager hj)
      fun _ _ _ _ => rfl
  case allocated =>
    rw [hset]
    exact Function.update_self ..
  case unnamed =>
    rw [hset]
    exact if_pos rfl
  case fd =>
    have h0 : m = 0 := by
      revert hm
      revert m
      decide
    rw [hset, h0]
    exact (if_pos rfl).trans_ne (Option.some_ne_none client.1)

/-- **An accept** keeps the invariant, at whatever step its setup fails. -/
theorem Settled.add :
    Settled (addConnectionSet calls client.1 (s.openSocket client.1 client.2)).1 := by
  have haccounted : Accounted (s.openSocket client.1 client.2).manager := h.accounted
  have hadded := add_accounted haccounted calls client.1
  have hopened := accept_opened h fresh
  have hclosed := fresh.descriptor 0 client.1 client.2 sockets_client
  rcases add_cases calls (s.openSocket client.1 client.2) client.1 with
    ⟨-, heq⟩ | ⟨hpos, htop⟩ | ⟨i, hpos, htop, hcases⟩
  · -- no set is free: the client's socket is closed again
    have hopen : (s.openSocket client.1 client.2).descriptors client.1 = some client.2 :=
      BpfMap.update_self ..
    rw [heq, close_open false hopen] at hadded ⊢
    exact ⟨⟨h.clean.owned, hopened.close hopen (h.clean.opened.unheld hclosed) fun _ => .inl rfl⟩,
      h.complete, hadded⟩
  · exact absurd (haccounted.top_lt hpos) (Nat.not_lt.mpr htop)
  · obtain ⟨ha, hr⟩ := haccounted.pool.top_free (Nat.pos_of_ne_zero hpos) htop
    have hstart := accept_connecting h fresh ha hr
    rcases hcases with ⟨hdone, heq⟩ | ⟨hfailed, heq⟩
    · obtain ⟨hgrowing, hwhole⟩ := (setup_stage calls).done _ hstart hdone
      rw [heq] at hadded ⊢
      generalize (setup calls i _).1 = t at *
      have hactivated : ({ t with manager := t.manager.activate i } : Router).holdings =
          t.holdings :=
        holdingsOf_update_same _ _ i _ ⟨rfl, rfl, rfl, rfl, rfl, rfl, rfl⟩
      refine ⟨⟨?_, ?_⟩, ?_, hadded⟩
      · rw [hactivated]
        exact hgrowing.clean.owned
      · rw [hactivated]
        exact hgrowing.clean.opened
      · rw [Complete, hactivated]
        intro j hj
        rcases eq_or_ne j i with rfl | hne
        · exact hwhole
        · exact hgrowing.others j hne hj
    · have hgrowing := (setup_stage calls).failed _ hstart hfailed
      rw [heq] at hadded ⊢
      obtain ⟨hclean, hcomplete⟩ := reap_clean hgrowing.clean hgrowing.others calls.reap
      exact ⟨hclean, hcomplete, hadded⟩

end Accept

/-! ## The programs -/

section Programs
variable (pol : Policy) {w : World} {cookie : UInt64}

theorem updateLifecycle_none {f : LifecycleState → LifecycleState} {k : UInt64}
    (h : w.lifecycle k = none) : (w.updateLifecycle cookie f).lifecycle k = none := by
  rw [World.updateLifecycle]
  cases hl : w.lifecycle cookie with
  | none => exact h
  | some l =>
      refine (BpfMap.update_ne _ _ ?_).trans h
      rintro rfl
      rw [hl] at h
      cases h

theorem openFlow_lifecycle (m : ClassifierMaps) :
    (w.openFlow m cookie).1.lifecycle = w.lifecycle := by
  rw [World.openFlow]
  cases w.flows cookie <;> rfl

/-- The parser makes no lifecycle entry. -/
theorem parser_lifecycle (skb : List UInt8) {k : UInt64} (h : w.lifecycle k = none) :
    (skRouterParser pol w cookie skb).1.lifecycle k = none := by
  have hopened : ((w.updateLifecycle cookie fun l => { l with requestIncomplete := false }).openFlow
      pol.classifier cookie).1.lifecycle k = none := by
    rw [openFlow_lifecycle]
    exact updateLifecycle_none h
  rw [skRouterParser]
  split_ifs
  · exact h
  · dsimp only
    split_ifs
    · exact updateLifecycle_none hopened
    · exact hopened

/-- A parser run changes at most the entries of its own cookie. -/
theorem parser_others (skb : List UInt8) :
    OthersKept w (skRouterParser pol w cookie skb).1 cookie := by
  by_cases hc : IsClient w cookie
  · cases hp : requestPending (scannedFlow pol w cookie skb).header skb.length with
    | true => exact (parser_pending pol hc hp).2.2.2.2
    | false => exact (parser_complete pol hc hp).2.2.2.2
  · rw [skRouterParser, if_pos (not_not.mp hc)]
    exact ⟨rfl, fun _ _ => rfl, fun _ _ => rfl⟩

/-- A verdict makes no entry at all. -/
theorem verdict_none (redirect : Nat → Bool) (skbLen : Nat) {k : UInt64} :
    (w.lifecycle k = none →
      (skRouterVerdict pol w redirect cookie skbLen).1.lifecycle k = none) ∧
    (w.flows k = none → (skRouterVerdict pol w redirect cookie skbLen).1.flows k = none) ∧
    (w.decisions k = none →
      (skRouterVerdict pol w redirect cookie skbLen).1.decisions k = none) := by
  rw [skRouterVerdict]
  cases w.routes cookie with
  | none => exact ⟨id, id, id⟩
  | some entry =>
      dsimp only
      split_ifs
      · simp only [updateLifecycle_flows, updateLifecycle_decisions]
        exact ⟨updateLifecycle_none, id, id⟩
      · exact ⟨id, id, id⟩
      · split
        · exact ⟨id, id, id⟩
        · split_ifs <;> simp only [updateLifecycle_flows, updateLifecycle_decisions] <;>
            exact ⟨fun h => updateLifecycle_none h, BpfMap.delete_of_eq_none,
              BpfMap.delete_of_eq_none⟩

end Programs

/-- The sets and their maps stay settled when only the entries of the
programs change. -/
theorem Settled.world {s : Router} (h : Settled s) {w : World} (routes : w.routes = s.world.routes)
    (owned : Owned s.holdings w s.sockMap) : Settled { s with world := w } := by
  refine ⟨⟨owned, h.clean.opened⟩, fun i hi => ?_, h.accounted⟩
  exact (h.complete i hi).congr (fun _ => rfl) (fun _ => rfl) (fun _ => rfl)
    fun m => congrFun routes _

/-- **A parser run** on an attached socket leaves an entry only where a reap
will look for it: a backend of a set that is up has a route that says so. -/
theorem Settled.parse {s : Router} (h : Settled s) (pol : Policy) {cookie : UInt64} {slot : Nat}
    (skb : List UInt8) (attached : s.sockMap slot = some cookie) :
    Settled { s with world := (skRouterParser pol s.world cookie skb).1 } := by
  have o := h.clean.owned
  obtain ⟨⟨i, m⟩, -, hplaced, hcookie⟩ := o.slots slot cookie attached
  have hne : s.holdings.cookie (i, m) ≠ 0 := o.seated (i, m) (.inl hplaced)
  have hkept : OthersKept s.world (skRouterParser pol s.world cookie skb).1 cookie :=
    parser_others pol skb
  refine h.world hkept.routes ?_
  by_cases hbackend : IsClient s.world cookie
  -- a client in a slot belongs to a set in use, or to a quarantined one
  · have hheard : s.holdings.heard (i, m) = true := by
      cases hr : s.holdings.retired i with
      | true => simp [Holdings.heard, hr]
      | false =>
          cases ha : s.holdings.allocated i with
          | false =>
              have := (o.blank (i, m) ha hr).2.1
              exact absurd (this.symm.trans hplaced) Bool.false_ne_true
          | true =>
              have hroute := (h.complete i ha).route m
              rw [← hcookie] at hroute
              have hm : m = 0 := by
                by_contra hm
                refine hbackend ?_
                rw [hroute]
                show some ((s.set i).route m).backend = some true
                rw [ConnectionSet.route, if_neg hm]
                rfl
              simp [Holdings.heard, ha, hm]
    refine { o with
      routes := ?_, lifecycle := ?_, flows := ?_, decisions := ?_, no_flow := ?_
      no_decision := ?_ }
    · rw [hkept.routes]
      exact o.routes
    · exact o.lifecycle.any fun k => parser_lifecycle pol skb
    · exact o.flows.own hheard fun k hk hnone => by rw [hkept.flows k (hcookie ▸ hk)]; exact hnone
    · exact o.decisions.own hheard
        fun k hk hnone => by rw [hkept.decisions k (hcookie ▸ hk)]; exact hnone
    · rw [hkept.flows 0 (hcookie ▸ hne.symm)]
      exact o.no_flow
    · rw [hkept.decisions 0 (hcookie ▸ hne.symm)]
      exact o.no_decision
  · rw [skRouterParser, if_pos (not_not.mp hbackend)]
    exact o

theorem Settled.verdict {s : Router} (h : Settled s) (pol : Policy) (cookie : UInt64)
    (skbLen : Nat) (redirect : Nat → Bool) :
    Settled { s with world := (skRouterVerdict pol s.world redirect cookie skbLen).1 } := by
  have hroutes := (System.verdict_frame pol s.world redirect cookie skbLen).1
  refine h.world hroutes (h.clean.owned.shrink (fun _ _ => id) (fun k e he => ?_)
    (fun k => ?_) (fun k => ?_) fun k => ?_)
  · rw [hroutes] at he
    exact he
  · exact (verdict_none pol redirect skbLen).1
  · exact (verdict_none pol redirect skbLen).2.1
  · exact (verdict_none pol redirect skbLen).2.2

theorem Step.settled {pol : Policy} {s s' : Router} {e : Event} (h : Settled s)
    (hstep : Step pol s e s') : Settled s' := by
  cases hstep with
  | accept fresh => exact h.add fresh
  | reap i calls => exact h.reap i calls
  | check calls active => exact stable_settled.checkSet h calls
  | poll calls => exact stable_settled.poll h calls
  | destroy calls => exact stable_settled.destroy h calls
  | parse skb attached => exact h.parse pol skb attached
  | verdict skbLen attached occupied => exact h.verdict pol ..
  | unlink slot =>
      refine ⟨⟨?_, h.clean.opened⟩, h.complete, h.accounted⟩
      exact h.clean.owned.shrink (fun _ _ => BpfMap.delete_some) (fun _ _ => id) (fun _ => id)
        (fun _ => id) fun _ => id
  | @age flows grams kept =>
      refine h.world rfl (h.clean.owned.shrink (fun _ _ => id) (fun _ _ => id) (fun _ => id)
        (fun k hk => ?_) fun _ => id)
      show flows k = none
      cases hflow : flows k with
      | none => rfl
      | some flow => rw [kept k flow hflow] at hk; cases hk

theorem initial_settled (grams : QueryGrams) : Settled (initializeConnectionManager grams) := by
  refine ⟨⟨?_, ?_⟩, fun i hi => absurd hi Bool.false_ne_true, initial_accounted⟩
  · constructor
    · exact fun _ => rfl
    · exact fun _ hi => by cases hi
    · exact fun _ _ _ => ⟨rfl, rfl, rfl, rfl⟩
    · rintro x (hx | hx) <;> cases hx
    · exact fun _ hi => by cases hi
    · exact fun x y _ hx => absurd rfl hx
    · exact .empty
    · exact .empty
    · exact .empty
    · exact .empty
    · exact .empty
    · rfl
    · rfl
  · constructor
    · exact fun _ _ hf => by cases hf
    · exact fun _ _ _ hf => by cases hf
    · exact fun _ _ _ hf => by cases hf
    · exact fun _ _ hf => by cases hf
    · exact fun _ hc => absurd hc List.not_mem_nil
    · exact List.nodup_nil
    · exact fun x hx => absurd rfl hx

/-! ## Quarantine is for good -/

/-- Set `i` was quarantined. -/
def Retired (i : SetIndex) (s : Router) : Prop := s.manager.retired i = true

section Retired
variable {i : SetIndex}

theorem reap_retired {s : Router} (h : Retired i s) (k : SetIndex) (calls : ReapCalls) :
    Retired i (reapConnectionSet calls k s).1 := by
  cases ha : (s.set k).allocated with
  | false => rw [reap_of_not_allocated calls ha]; exact h
  | true =>
      have hbegun : (beginReap k s).manager.retired = s.manager.retired := by
        rw [beginReap]
        split <;> rfl
      have hkept := (cleanup_frame calls k (beginReap k s)).retired.trans hbegun
      rcases reap_cases calls ha with ⟨-, heq⟩ | ⟨-, heq⟩ <;> rw [heq]
      · show Function.update (cleanup calls k (beginReap k s)).1.manager.retired k true i = true
        rcases eq_or_ne i k with rfl | hne
        · exact Function.update_self ..
        · rw [Function.update_of_ne hne, hkept]
          exact h
      · have h : (cleanup calls k (beginReap k s)).1.manager.retired i = true := by
          rw [hkept]
          exact h
        cases hactive : (s.set k).active <;> exact h

theorem stable_retired : Stable (Retired i) where
  reap _ k calls h := reap_retired h k calls
  mark _ _ _ _ h := h
  count _ _ _ h := h

theorem Quiet.retired {k : SetIndex} {p : Program Router} (hp : Quiet k p) {s : Router}
    (h : Retired i s) : Retired i (p s).1 := by
  obtain ⟨f, heq, -⟩ := hp s
  rw [Retired, heq]
  exact h

theorem setup_retired {s : Router} (h : Retired i s) (k : SetIndex) (calls : AddCalls) :
    Retired i (setup calls k s).1 := by
  refine Program.andThen_keeps (P := Retired i)
    (Program.each_keeps (fun m _ => (connectMember_quiet calls m).retired) backends) ?_ s h
  refine Program.andThen_keeps
    (Program.each_keeps (fun m _ => (readCookie_quiet calls m).retired) members) ?_
  refine Program.andThen_keeps (fun _ => (readInitialBytes_quiet calls).retired) ?_
  refine Program.andThen_keeps (fun _ => (installLifecycle_quiet calls).retired) ?_
  refine Program.andThen_keeps
    (Program.each_keeps (fun m _ => (installRoute_quiet calls m).retired) members) ?_
  refine Program.each_keeps (fun m t ht => ?_) members
  rcases installSlot_cases calls k m t with ⟨-, heq⟩ | ⟨socket, -, -, heq⟩ <;> rw [heq]
  · exact ht
  · exact ht

theorem add_retired {s : Router} (h : Retired i s) (calls : AddCalls) (clientFd : Nat) :
    Retired i (addConnectionSet calls clientFd s).1 := by
  rw [addConnectionSet]
  split_ifs with hfree htop
  · show (s.close clientFd false).manager.retired i = true
    rw [close_manager]
    exact h
  · have hset := setup_retired (s := s.allocate ⟨_, htop⟩ clientFd) h ⟨_, htop⟩ calls
    dsimp only
    split
    · rename_i heq
      rw [Router.allocate, heq] at hset
      exact hset
    · rename_i heq
      rw [Router.allocate, heq] at hset
      exact reap_retired hset _ _
  · exact h

theorem Step.retired {pol : Policy} {s s' : Router} {e : Event} (h : Retired i s)
    (hstep : Step pol s e s') : Retired i s' := by
  cases hstep with
  | @accept client _ _ => exact add_retired (s := s.openSocket client.1 client.2) h _ _
  | reap k calls => exact reap_retired h k calls
  | check calls active => exact stable_retired.checkSet h calls
  | poll calls => exact stable_retired.poll h calls
  | destroy calls => exact stable_retired.destroy h calls
  | parse skb attached => exact h
  | verdict skbLen attached occupied => exact h
  | unlink slot => exact h
  | age grams kept => exact h

end Retired

/-! ## Every reap of every run -/

/-- The states in which an event at `s` calls `reap_connection_set` on set
`i`: on its own, at a setup that stopped, and in the timer's loop before and
after the backends are shut down. -/
inductive ReapSite (s : Router) (i : SetIndex) : Router → Prop where
  | reap : ReapSite s i s
  | setup {client : Nat × UInt64} {calls : AddCalls} (fresh : Fresh s (calls.sockets client))
      (free : s.manager.freeCount ≠ 0) (top : s.manager.freeSets (s.manager.freeCount - 1) = i)
      (stopped : (setup calls i
        ((s.openSocket client.1 client.2).allocate i client.1)).2 = false) :
      ReapSite s i (setup calls i ((s.openSocket client.1 client.2).allocate i client.1)).1
  | noted : ReapSite s i (notePeerClosed i s)
  | drained : ReapSite s i (beginDrain i (notePeerClosed i s))

/-- Set `i` is not in use and will not be handed out. -/
structure Withdrawn (i : SetIndex) (s : Router) : Prop where
  unused : (s.set i).allocated = false
  unlisted : ∀ k < s.manager.freeCount, s.manager.freeSets k ≠ i

/-- What a reap of an allocated set has done. -/
structure Reaped (pol : Policy) (i : SetIndex) (s : Router) (r : Router × Bool) : Prop where
  gone : r.2 = true → Gone i s r.1
  withdrawn : r.2 = false → ∀ es s', Run (Step pol) r.1 es s' → Withdrawn i s'

theorem Settled.withdrawn {s : Router} (h : Settled s) {i : SetIndex} (hi : Retired i s) :
    Withdrawn i s := by
  have ha : (s.set i).allocated = false := h.accounted.pool.retired_gone i hi
  refine ⟨ha, fun k hk htop => ?_⟩
  have := (h.accounted.pool.free_iff i).mp ⟨k, hk, htop⟩
  exact absurd (this.2.symm.trans hi) Bool.false_ne_true

section Sites
variable {s t : Router} {i : SetIndex}

/-- Wherever a reap is called, its set can be cleaned up. -/
theorem Settled.site (h : Settled s) (hsite : ReapSite s i t) :
    Clean t ∧ Others i t ∧ Accounted t.manager := by
  have hsettled : ∀ {u}, Settled u → Clean u ∧ Others i u ∧ Accounted u.manager :=
    fun hu => ⟨hu.clean, hu.complete.others i, hu.accounted⟩
  cases hsite with
  | reap => exact hsettled h
  | noted => exact hsettled (stable_settled.notePeerClosed h)
  | drained => exact hsettled (stable_settled.beginDrain (stable_settled.notePeerClosed h))
  | @setup client calls fresh free top stopped =>
      have haccounted : Accounted (s.openSocket client.1 client.2).manager := h.accounted
      obtain ⟨ha, hr⟩ := haccounted.pool.top_free (Nat.pos_of_ne_zero free) top
      have hgrowing := (setup_stage calls).failed _ (accept_connecting h fresh ha hr) stopped
      have hpending := (setup_spec calls).failed _
        (allocate_pending haccounted free top client.1) stopped
      exact ⟨hgrowing.clean, hgrowing.others, hpending.accounted haccounted.totals⟩

theorem Settled.reaped (h : Settled s) (pol : Policy) (hsite : ReapSite s i t)
    (ha : (t.set i).allocated = true) (calls : ReapCalls) :
    Reaped pol i t (reapConnectionSet calls i t) := by
  obtain ⟨hclean, hothers, haccounted⟩ := h.site hsite
  refine ⟨reap_gone hclean ha calls, fun hfailed es s' run => ?_⟩
  obtain ⟨hclean', hcomplete⟩ := reap_clean hclean hothers calls
  have hafter : Settled (reapConnectionSet calls i t).1 :=
    ⟨hclean', hcomplete, reap_accounted haccounted calls⟩
  have hretired : Retired i (reapConnectionSet calls i t).1 := by
    rcases reap_cases calls ha with ⟨-, heq⟩ | ⟨-, heq⟩
    · rw [heq]
      exact Function.update_self ..
    · rw [heq] at hfailed
      cases hfailed
  have hlater := run.invariant (I := fun s => Settled s ∧ Retired i s) ⟨hafter, hretired⟩
    fun _ _ _ hs hstep => ⟨hstep.settled hs.1, hstep.retired hs.2⟩
  exact hlater.1.withdrawn hlater.2

end Sites

/-- The current use of an allocated set, all of its sockets open, or the last
use of a quarantined one. -/
def InUse (s : Router) (i : SetIndex) : Prop :=
  ((s.set i).allocated = true ∧ ∀ m, (s.set i).cookies m ≠ 0 ∧ (s.set i).cookies m ∉ s.closed) ∨
    ((s.set i).allocated = false ∧ s.manager.retired i = true)

/-- Every entry was put there for one use of one set, and names that use
only. -/
structure Sealed (s : Router) : Prop where
  slots : ∀ slot socket, s.sockMap slot = some socket →
    ∃ i m, InUse s i ∧ slot = (s.set i).slots m ∧ socket = (s.set i).cookies m
  routes : ∀ cookie entry, s.world.routes cookie = some entry →
    ∃ i m, InUse s i ∧ cookie = (s.set i).cookies m ∧ entry = (s.set i).route m
  slots_apart : ∀ i j m k, (s.set i).slots m = (s.set j).slots k → i = j ∧ m = k
  /-- The socket a response would be redirected to is that of its client. -/
  response : ∀ cookie entry socket, s.world.routes cookie = some entry → entry.backend = true →
    s.sockMap entry.clientSlot = some socket → socket = entry.clientCookie ∧
      ∃ i, InUse s i ∧ socket = (s.set i).cookies 0 ∧ ∃ m, cookie = (s.set i).cookies m

theorem route_client (set : ConnectionSet) (m : Member) :
    (set.route m).clientSlot = set.slots 0 ∧ (set.route m).clientCookie = set.cookies 0 := by
  rw [ConnectionSet.route]
  split <;> exact ⟨rfl, rfl⟩

theorem Settled.sealed {s : Router} (h : Settled s) : Sealed s := by
  have o := h.clean.owned
  have huse : ∀ x : Seat, s.holdings.placed x = true ∨ s.holdings.routed x = true →
      InUse s x.1 := by
    intro x hx
    cases ha : s.holdings.allocated x.1 with
    | true =>
        have hw := h.complete x.1 ha
        refine .inl ⟨ha, fun m => ⟨hw.cookie m, fun hin => ?_⟩⟩
        obtain ⟨fd, hfd⟩ := Option.ne_none_iff_exists'.mp (hw.fd m)
        obtain ⟨-, c, hc, hcookie⟩ := h.clean.opened.held (x.1, m) fd hfd
        rw [show (s.set x.1).cookies m = c from hcookie.resolve_left (hw.cookie m)] at hin
        exact (h.clean.opened.live fd c hc).2.2 hin
    | false =>
        cases hr : s.holdings.retired x.1 with
        | true => exact .inr ⟨ha, hr⟩
        | false =>
            obtain ⟨-, hp, hroute, -⟩ := o.blank x ha hr
            rw [hp, hroute] at hx
            exact absurd hx (by decide)
  have hslots : ∀ i j m k, (s.set i).slots m = (s.set j).slots k → i = j ∧ m = k := by
    intro i j m k heq
    have := slot_injective (x := (i, m)) (y := (j, k))
      ((o.slot_number (i, m)).symm.trans (heq.trans (o.slot_number (j, k))))
    exact ⟨congrArg Prod.fst this, congrArg Prod.snd this⟩
  refine ⟨fun slot socket hs => ?_, fun cookie entry he => ?_, hslots,
    fun cookie entry socket he _ hs => ?_⟩
  · obtain ⟨x, hx, hplaced, hc⟩ := o.slots slot socket hs
    exact ⟨x.1, x.2, huse x (.inl hplaced), hx.symm, hc⟩
  · obtain ⟨x, hx, hrouted, he⟩ := o.routes cookie entry he
    exact ⟨x.1, x.2, huse x (.inr hrouted), hx.symm, he⟩
  · obtain ⟨x, hx, hrouted, rfl⟩ := o.routes cookie entry he
    obtain ⟨hslot, hclient⟩ := route_client (s.set x.1) x.2
    rw [show (s.holdings.route x).clientSlot = (s.set x.1).slots 0 from hslot] at hs
    obtain ⟨y, hy, -, hc⟩ := o.slots _ socket hs
    obtain ⟨hi, hm⟩ := hslots y.1 x.1 y.2 0 hy
    have hsocket : socket = (s.set x.1).cookies 0 := by
      rw [hc]
      show (s.set y.1).cookies y.2 = _
      rw [hi, hm]
    exact ⟨hsocket.trans hclient.symm, x.1, huse x (.inr hrouted), hsocket, x.2, hx.symm⟩

/-- **No key of a recycled set survives, and none of a quarantined one is
reused**: in every reachable state each entry belongs to one use of one set,
and every reap, wherever the code calls it and whichever deletions fail,
leaves no key of its set or withdraws the set for good. -/
theorem no_key_survives {pol : Policy} {grams : QueryGrams} {es : List Event} {s : Router}
    (run : Run (Step pol) (initializeConnectionManager grams) es s) :
    Sealed s ∧ ∀ i t, ReapSite s i t → (t.set i).allocated = true →
      ∀ calls, Reaped pol i t (reapConnectionSet calls i t) := by
  have h := run.invariant (initial_settled grams) fun _ _ _ h hstep => hstep.settled h
  exact ⟨h.sealed, fun i t hsite ha calls => h.reaped pol hsite ha calls⟩

/-- One client is accepted. A clean reap leaves none of its keys; when its
route stays, its set is withdrawn. -/
theorem no_key_survives_reap :
    Sealed (acceptedRouter idleWorld.grams) ∧
      Gone firstSet (acceptedRouter idleWorld.grams)
        (reapConnectionSet cleanReap firstSet (acceptedRouter idleWorld.grams)).1 ∧
      ∀ es s', Run (Step ngramOnly)
          (reapConnectionSet stuckReap firstSet (acceptedRouter idleWorld.grams)).1 es s' →
        Withdrawn firstSet s' := by
  obtain ⟨hsealed, hreaped⟩ := no_key_survives (accepted_run ngramOnly idleWorld.grams)
  have hsite := hreaped firstSet _ .reap (by decide +kernel)
  exact ⟨hsealed, (hsite cleanReap).gone (by decide +kernel),
    (hsite stuckReap).withdrawn (by decide +kernel)⟩

end Xsr.Connection
