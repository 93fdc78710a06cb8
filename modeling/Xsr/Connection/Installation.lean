import Xsr.Connection.Ownership

/-!
# Installation — what each stage of an accept has reached

A setup opens the sockets, learns their cookies, and installs the lifecycle
entry, the routes and the slots, in this order. Each stage keeps every entry
owned, so a setup that fails leaves a state its reap can clean up.
-/

namespace Xsr.Connection

open Kernel Lib

/-! ## Writes of a setup -/

section Descriptors
variable {h : Holdings} {descriptors : BpfMap Nat UInt64} {closed used : List UInt64}
  (o : Opened h descriptors closed used) {fd : Nat} {c : UInt64} {x : Seat}

include o

/-- No seat holds a descriptor that is not open. -/
theorem Opened.unheld (hfd : descriptors fd = none) (y : Seat) : h.fd y ≠ some fd := by
  intro hy
  obtain ⟨-, d, hd, -⟩ := o.held y fd hy
  rw [hfd] at hd
  cases hd

/-- A fresh socket is opened; nobody holds it yet. -/
theorem Opened.openSocket (hfd : descriptors fd = none) (hc : c ≠ 0) (hused : c ∉ used) :
    Opened h (descriptors.update fd c) closed (c :: used) := by
  have hold : ∀ {f d}, descriptors.update fd c f = some d → (f = fd ∧ d = c) ∨
      (f ≠ fd ∧ descriptors f = some d) := by
    intro f d hf
    rcases eq_or_ne f fd with rfl | hne
    · rw [BpfMap.update_self] at hf
      exact .inl ⟨rfl, (Option.some.inj hf).symm⟩
    · rw [BpfMap.update_ne _ _ hne] at hf
      exact .inr ⟨hne, hf⟩
  constructor
  case held =>
    intro y f hf
    obtain ⟨ha, d, hd, hcookie⟩ := o.held y f hf
    refine ⟨ha, d, ?_, hcookie⟩
    rw [BpfMap.update_ne]
    · exact hd
    · rintro rfl
      exact o.unheld hfd y hf
  case apart => exact o.apart
  case single =>
    intro f f' d hf hf'
    rcases hold hf with ⟨rfl, rfl⟩ | ⟨-, hd⟩ <;> rcases hold hf' with ⟨rfl, heq⟩ | ⟨-, hd'⟩
    · rfl
    · exact absurd (o.live f' d hd').2.1 hused
    · exact absurd (o.live f d hd).2.1 (heq ▸ hused)
    · exact o.single f f' d hd hd'
  case live =>
    intro f d hf
    rcases hold hf with ⟨-, rfl⟩ | ⟨-, hd⟩
    · exact ⟨hc, List.mem_cons_self, fun hin => hused (o.closed_used d hin)⟩
    · obtain ⟨h0, hu, hin⟩ := o.live f d hd
      exact ⟨h0, List.mem_cons_of_mem _ hu, hin⟩
  case closed_used => exact fun d hd => List.mem_cons_of_mem _ (o.closed_used d hd)
  case once => exact o.once
  case accounted => exact o.accounted

/-- A seat of a taken set whose cookie is not known takes an open descriptor,
or lets its own go. -/
theorem Opened.hold {f : Option Nat} (hx : h.cookie x = 0) (ha : h.allocated x.1 = true)
    (hf : ∀ fd, f = some fd → (∃ c, descriptors fd = some c) ∧ ∀ y, h.fd y ≠ some fd) :
    Opened { h with fd := Function.update h.fd x f } descriptors closed used := by
  have hold : ∀ {y fd}, Function.update h.fd x f y = some fd →
      (y = x ∧ f = some fd) ∨ (y ≠ x ∧ h.fd y = some fd) := by
    intro y fd hy
    rcases eq_or_ne y x with rfl | hne
    · rw [Function.update_self] at hy
      exact .inl ⟨rfl, hy⟩
    · rw [Function.update_of_ne hne] at hy
      exact .inr ⟨hne, hy⟩
  constructor
  case held =>
    intro y fd hy
    rcases hold hy with ⟨rfl, hfd⟩ | ⟨-, hfd⟩
    · obtain ⟨⟨c, hc⟩, -⟩ := hf fd hfd
      exact ⟨ha, c, hc, .inl hx⟩
    · exact o.held y fd hfd
  case apart =>
    intro y z fd hy hz
    rcases hold hy with ⟨rfl, hfd⟩ | ⟨-, hfd⟩ <;> rcases hold hz with ⟨rfl, hfd'⟩ | ⟨-, hfd'⟩
    · rfl
    · exact absurd hfd' ((hf fd hfd).2 z)
    · exact absurd hfd ((hf fd hfd').2 y)
    · exact o.apart y z fd hfd hfd'
  case single => exact o.single
  case live => exact o.live
  case closed_used => exact o.closed_used
  case once => exact o.once
  case accounted =>
    intro y hy
    have hne : y ≠ x := by
      rintro rfl
      exact hy hx
    refine (o.accounted y hy).imp_left fun hopen => ?_
    show Function.update h.fd x f y ≠ none
    rwa [Function.update_of_ne hne]

/-- The cookie of a seat is that of its open socket. -/
theorem Opened.learn (hx : h.fd x = some fd) (hc : descriptors fd = some c)
    (route : Seat → RouteEntry) :
    Opened { h with cookie := Function.update h.cookie x c, route := route } descriptors closed
      used := by
  refine { o with held := fun y f hf => ?_, accounted := fun y hy => ?_ }
  · obtain ⟨ha, d, hd, hcookie⟩ := o.held y f hf
    refine ⟨ha, d, hd, ?_⟩
    rcases eq_or_ne y x with rfl | hne
    · rw [show h.fd y = some f from hf] at hx
      obtain rfl := Option.some.inj hx
      rw [hd] at hc
      exact .inr ((Function.update_self ..).trans (Option.some.inj hc).symm)
    · exact hcookie.imp (Function.update_of_ne hne ..).trans (Function.update_of_ne hne ..).trans
  · rcases eq_or_ne y x with rfl | hne
    · exact .inl (by rw [show h.fd y = some fd from hx]; exact Option.some_ne_none fd)
    · have hcookie : Function.update h.cookie x c y = h.cookie y := Function.update_of_ne hne ..
      refine (o.accounted y (hcookie ▸ hy)).imp_right fun hin => ?_
      rw [← hcookie] at hin
      exact hin

/-- An open socket is the cookie of nobody but the seat that holds it. -/
theorem Opened.cookie_unique (hx : h.fd x = some fd) (hc : descriptors fd = some c) (y : Seat)
    (hy : h.cookie y = c) : y = x := by
  obtain ⟨h0, -, hclosed⟩ := o.live fd c hc
  rcases o.accounted y (hy.trans_ne h0) with hopen | hin
  · obtain ⟨f, hf⟩ := Option.ne_none_iff_exists'.mp hopen
    obtain ⟨-, d, hd, hcookie⟩ := o.held y f hf
    rcases hcookie with hzero | heq
    · exact absurd (hy.symm.trans hzero) h0
    · obtain rfl := o.single f fd c (by rw [hd, ← heq, hy]) hc
      exact o.apart y x f hf hx
  · exact absurd (hy ▸ hin) hclosed

end Descriptors

theorem ne_of_flag {ι : Type} {f : ι → Bool} {i j : ι} (hi : f i = true) (hj : f j = false) :
    j ≠ i := by
  rintro rfl
  rw [hi] at hj
  cases hj

section Entries
variable {h : Holdings} {w : World} {sockMap : BpfMap Nat UInt64} (o : Owned h w sockMap) {x : Seat}

include o

/-- A seat learns its cookie. The routes of its set may change with it: none
is installed yet. -/
theorem Owned.learn {c : UInt64} {route : Seat → RouteEntry} (ha : h.allocated x.1 = true)
    (hx : h.cookie x = 0 ∨ h.cookie x = c) (hunique : ∀ y, h.cookie y = c → y = x)
    (hroute : ∀ y, h.routed y = true → route y = h.route y) :
    Owned { h with cookie := Function.update h.cookie x c, route := route } w sockMap := by
  -- a seat with a cookie keeps it
  have hkept : ∀ y, h.cookie y ≠ 0 → Function.update h.cookie x c y = h.cookie y := by
    intro y hy
    rcases eq_or_ne y x with rfl | hne
    · rw [Function.update_self, hx.resolve_left hy]
    · exact Function.update_of_ne hne ..
  have hheard : ∀ {ν : Type} {m : BpfMap UInt64 ν}, m 0 = none →
      ∀ y, h.heard y = true → m (h.cookie y) ≠ none →
        Function.update h.cookie x c y = h.cookie y := by
    intro ν m hm y _ hy
    refine hkept y fun h0 => ?_
    rw [h0] at hy
    exact hy hm
  refine { o with
    blank := ?_, seated := ?_, client_seated := ?_, unique := ?_, slots := ?_, routes := ?_
    lifecycle := ?_, flows := ?_, decisions := ?_ }
  · intro y hy hr
    have hne : y ≠ x := fun heq => ne_of_flag ha hy (congrArg Prod.fst heq)
    obtain ⟨h0, hrest⟩ := o.blank y hy hr
    exact ⟨(Function.update_of_ne hne ..).trans h0, hrest⟩
  · exact fun y hy => (hkept y (o.seated y hy)).trans_ne (o.seated y hy)
  · exact fun j hj => (hkept (j, 0) (o.client_seated j hj)).trans_ne (o.client_seated j hj)
  · intro y z hyz hy
    have hother : ∀ {u}, u ≠ x → Function.update h.cookie x c u = h.cookie u :=
      fun hu => Function.update_of_ne hu ..
    by_cases hyx : y = x
    · by_cases hzx : z = x
      · exact hyx.trans hzx.symm
      · rw [hyx] at hyz ⊢
        exact (hunique z ((hother hzx).symm.trans (hyz.symm.trans (Function.update_self ..)))).symm
    · by_cases hzx : z = x
      · rw [hzx] at hyz ⊢
        exact hunique y ((hother hyx).symm.trans (hyz.trans (Function.update_self ..)))
      · exact o.unique y z ((hother hyx).symm.trans (hyz.trans (hother hzx)))
          ((hother hyx).symm.trans_ne hy)
  · refine o.slots.mono (fun _ _ => rfl) (fun _ => id) fun y v hy hv => hv.trans ?_
    exact (hkept y (o.seated y (.inl hy))).symm
  · refine o.routes.mono (fun y hy => hkept y (o.seated y (.inr hy))) (fun _ => id) ?_
    exact fun y e hy he => he.trans (hroute y hy).symm
  · exact o.lifecycle.mono (fun j hj => hkept (j, 0) (o.client_seated j hj)) (fun _ => id)
      fun _ _ _ => id
  · exact o.flows.rekey (hheard o.no_flow)
  · exact o.decisions.rekey (hheard o.no_decision)

theorem Owned.putLifecycle {i : SetIndex} (ha : h.allocated i = true) (hc : h.cookie (i, 0) ≠ 0)
    (l : LifecycleState) :
    Owned { h with tracked := Function.update h.tracked i true }
      { w with lifecycle := w.lifecycle.update (h.cookie (i, 0)) l } sockMap := by
  refine { o with blank := ?_, client_seated := ?_, lifecycle := o.lifecycle.put trivial }
  · intro y hy hr
    obtain ⟨h1, h2, h3, h4⟩ := o.blank y hy hr
    exact ⟨h1, h2, h3, (Function.update_of_ne (ne_of_flag ha hy) ..).trans h4⟩
  · intro j hj
    rcases eq_or_ne j i with rfl | hne
    · exact hc
    · exact o.client_seated j ((Function.update_of_ne hne ..).symm.trans hj)

theorem Owned.putRoute (ha : h.allocated x.1 = true) (hc : h.cookie x ≠ 0) :
    Owned { h with routed := Function.update h.routed x true }
      { w with routes := w.routes.update (h.cookie x) (h.route x) } sockMap := by
  refine { o with blank := ?_, seated := ?_, routes := o.routes.put rfl }
  · intro y hy hr
    obtain ⟨h1, h2, h3, h4⟩ := o.blank y hy hr
    have hne : y ≠ x := fun heq => ne_of_flag ha hy (congrArg Prod.fst heq)
    exact ⟨h1, h2, (Function.update_of_ne hne ..).trans h3, h4⟩
  · intro y hy
    rcases eq_or_ne y x with rfl | hne
    · exact hc
    · exact o.seated y (hy.imp_right (Function.update_of_ne hne ..).symm.trans)

theorem Owned.putSlot (ha : h.allocated x.1 = true) (hc : h.cookie x ≠ 0) :
    Owned { h with placed := Function.update h.placed x true } w
      (sockMap.update (h.slot x) (h.cookie x)) := by
  refine { o with blank := ?_, seated := ?_, slots := o.slots.put rfl }
  · intro y hy hr
    obtain ⟨h1, h2, h3, h4⟩ := o.blank y hy hr
    have hne : y ≠ x := fun heq => ne_of_flag ha hy (congrArg Prod.fst heq)
    exact ⟨h1, (Function.update_of_ne hne ..).trans h2, h3, h4⟩
  · intro y hy
    rcases eq_or_ne y x with rfl | hne
    · exact hc
    · exact o.seated y (hy.imp_left (Function.update_of_ne hne ..).symm.trans)

end Entries

/-! ## The stages -/

/-- What every stage of a setup of set `i` keeps, and a failing one leaves. -/
structure Growing (i : SetIndex) (s : Router) : Prop where
  clean : Clean s
  others : Others i s
  allocated : s.holdings.allocated i = true

/-- The backends of `todo` are still to be connected. -/
structure Connecting (calls : AddCalls) (i : SetIndex) (todo : List Member) (s : Router) : Prop where
  growing : Growing i s
  unnamed : ∀ m, s.holdings.cookie (i, m) = 0
  fd : ∀ m, m ∉ todo → s.holdings.fd (i, m) ≠ none
  fresh : Fresh s fun m => if m ∈ todo then calls.socket m else none
  nodup : todo.Nodup

/-- The cookies of `todo` are still to be read. -/
structure Naming (i : SetIndex) (todo : List Member) (s : Router) : Prop where
  growing : Growing i s
  fd : ∀ m, s.holdings.fd (i, m) ≠ none
  unrouted : ∀ m, s.holdings.routed (i, m) = false
  untracked : s.holdings.tracked i = false
  cookie : ∀ m, m ∉ todo → s.holdings.cookie (i, m) ≠ 0

/-- The routes of `todo` are still to be installed. -/
structure Routing (i : SetIndex) (todo : List Member) (s : Router) : Prop where
  growing : Growing i s
  fd : ∀ m, s.holdings.fd (i, m) ≠ none
  cookie : ∀ m, s.holdings.cookie (i, m) ≠ 0
  route : ∀ m, m ∉ todo →
    s.world.routes (s.holdings.cookie (i, m)) = some (s.holdings.route (i, m))

/-- All routes are installed. -/
structure Placing (i : SetIndex) (s : Router) : Prop where
  growing : Growing i s
  whole : Whole s.holdings s.world i

section Stages
variable {i : SetIndex} (calls : AddCalls) (m : Member) (todo : List Member)

theorem connectMember_stage :
    Program.Spec (Connecting calls i (m :: todo)) (connectMember calls i m)
      (Connecting calls i todo) (Growing i) := by
  constructor
  · rintro s ⟨h, hunnamed, hfd, hfresh, hnodup⟩ hdone
    rcases connectMember_cases calls i m s with ⟨-, heq⟩ | ⟨fd, socket, hsocket, heq⟩
    · rw [heq] at hdone
      cases hdone
    · obtain ⟨hm, htodo⟩ := List.nodup_cons.mp hnodup
      have hself : (if m ∈ m :: todo then calls.socket m else none) = some (fd, socket) := by
        rw [if_pos List.mem_cons_self]
        exact hsocket
      obtain ⟨h0, hused⟩ := hfresh.cookie m fd socket hself
      have hclosed := hfresh.descriptor m fd socket hself
      have hopened := h.clean.opened.openSocket hclosed h0 hused
      have hset : (s.connect i m fd socket).holdings =
          { s.holdings with fd := Function.update s.holdings.fd (i, m) (some fd) } :=
        holdingsOf_fd ..
      rw [heq]
      refine ⟨⟨⟨?owned, ?opened⟩, ?others, ?allocated⟩, ?unnamed, ?fd, ?fresh, htodo⟩
      case owned =>
        rw [hset]
        exact h.clean.owned.fd _
      case opened =>
        rw [hset]
        refine hopened.hold (hunnamed m) h.allocated fun f hf => ?_
        obtain rfl := Option.some.inj hf
        exact ⟨⟨socket, BpfMap.update_self ..⟩, h.clean.opened.unheld hclosed⟩
      case others =>
        exact h.others.of_set (fun j hj => modify_set_of_ne _ _ _ hj) fun _ _ _ _ => rfl
      case allocated =>
        rw [hset]
        exact h.allocated
      case unnamed =>
        rw [hset]
        exact hunnamed
      case fd =>
        intro k hk
        rw [hset]
        rcases eq_or_ne k m with rfl | hne
        · show Function.update s.holdings.fd (i, k) (some fd) (i, k) ≠ none
          rw [Function.update_self]
          exact Option.some_ne_none fd
        · show Function.update s.holdings.fd (i, m) (some fd) (i, k) ≠ none
          rw [Function.update_of_ne fun h => hne (congrArg Prod.snd h)]
          exact hfd k fun hin => (List.mem_cons.mp hin).elim hne hk
      case fresh =>
        -- the answers that are left are those for the later members
        have hrest : ∀ {k f c}, (if k ∈ todo then calls.socket k else none) = some (f, c) →
            k ≠ m ∧ (if k ∈ m :: todo then calls.socket k else none) = some (f, c) := by
          intro k f c hk
          split at hk
          · rename_i hin
            rw [if_pos (List.mem_cons_of_mem _ hin)]
            exact ⟨fun h => hm (h ▸ hin), hk⟩
          · cases hk
        constructor
        · intro k f c hk
          obtain ⟨hne, hk⟩ := hrest hk
          obtain ⟨h1, h2⟩ := hfresh.cookie k f c hk
          refine ⟨h1, fun hin => ?_⟩
          rcases List.mem_cons.mp hin with rfl | hin
          · exact (hfresh.apart k m f c fd c hne hk hself).2 rfl
          · exact h2 hin
        · intro k f c hk
          obtain ⟨hne, hk⟩ := hrest hk
          refine (BpfMap.update_ne _ _ ?_).trans (hfresh.descriptor k f c hk)
          exact (hfresh.apart k m f c fd socket hne hk hself).1
        · intro k l f c f' c' hne hk hl
          exact hfresh.apart k l f c f' c' hne (hrest hk).2 (hrest hl).2
  -- a connection that failed leaves the seat without a descriptor
  · rintro s ⟨h, hunnamed, hfd, -, -⟩ hfailed
    rcases connectMember_cases calls i m s with ⟨-, heq⟩ | ⟨fd, socket, -, heq⟩
    · have hset : (s.modify i fun set =>
          { set with fds := Function.update set.fds m none }).holdings =
          { s.holdings with fd := Function.update s.holdings.fd (i, m) none } :=
        holdingsOf_fd ..
      rw [heq]
      refine ⟨⟨?_, ?_⟩, ?_, ?_⟩
      · rw [hset]
        exact h.clean.owned.fd _
      · rw [hset]
        exact h.clean.opened.hold (hunnamed m) h.allocated fun f hf => by cases hf
      · exact h.others.of_set (fun j hj => modify_set_of_ne _ _ _ hj) fun _ _ _ _ => rfl
      · rw [hset]
        exact h.allocated
    · rw [heq] at hfailed
      cases hfailed

theorem readCookie_stage :
    Program.Spec (Naming i (m :: todo)) (readCookie calls i m) (Naming i todo) (Growing i) := by
  constructor
  · rintro s ⟨h, hfd, hunrouted, huntracked, hcookie⟩ hdone
    rcases readCookie_cases calls i m s with ⟨-, heq⟩ | ⟨socket, hsocket, -, heq⟩
    · rw [heq] at hdone
      cases hdone
    · obtain ⟨fd, hheld, hopen⟩ := Option.bind_eq_some_iff.mp hsocket
      obtain ⟨-, d, hd, hknown⟩ := h.clean.opened.held (i, m) fd hheld
      obtain rfl : d = socket := Option.some.inj (hd.symm.trans hopen)
      have hset : (s.learnCookie i m d).holdings =
          { s.holdings with
            cookie := Function.update s.holdings.cookie (i, m) d
            route := fun x => if x.1 = i then
                ({ s.set i with cookies := Function.update (s.set i).cookies m d } :
                  ConnectionSet).route x.2
              else (s.set x.1).route x.2 } :=
        holdingsOf_cookie ..
      rw [heq]
      refine ⟨⟨⟨?owned, ?opened⟩, ?others, ?allocated⟩, ?fd, ?unrouted, ?untracked, ?cookie⟩
      case owned =>
        rw [hset]
        refine h.clean.owned.learn h.allocated hknown
          (h.clean.opened.cookie_unique hheld hd) fun y hy => if_neg ?_
        intro hi
        obtain ⟨j, k⟩ := y
        obtain rfl : j = i := hi
        rw [hunrouted k] at hy
        cases hy
      case opened =>
        rw [hset]
        exact h.clean.opened.learn (x := (i, m)) hheld hd _
      case others =>
        exact h.others.of_set (fun j hj => modify_set_of_ne _ _ _ hj) fun _ _ _ _ => rfl
      case allocated =>
        rw [hset]
        exact h.allocated
      case fd =>
        rw [hset]
        exact hfd
      case unrouted =>
        rw [hset]
        exact hunrouted
      case untracked =>
        rw [hset]
        exact huntracked
      case cookie =>
        intro k hk
        rw [hset]
        rcases eq_or_ne k m with rfl | hkm
        · exact (Function.update_self ..).trans_ne (h.clean.opened.live fd d hd).1
        · refine (Function.update_of_ne (fun h => hkm (congrArg Prod.snd h)) ..).trans_ne ?_
          exact hcookie k fun hin => (List.mem_cons.mp hin).elim hkm hk
  · rintro s ⟨h, -, -, -, -⟩ hfailed
    rcases readCookie_cases calls i m s with ⟨-, heq⟩ | ⟨socket, -, -, heq⟩
    · rw [heq]
      exact h
    · rw [heq] at hfailed
      cases hfailed

/-- A write of a field no holding is read from. -/
theorem Growing.modify {s : Router} (h : Growing i s) (f : ConnectionSet → ConnectionSet)
    (hf : SameHoldings (s.set i) (f (s.set i))) : Growing i (s.modify i f) := by
  have hset := modify_holdings hf
  refine ⟨⟨?_, ?_⟩, ?_, ?_⟩
  · rw [hset]
    exact h.clean.owned
  · rw [hset]
    exact h.clean.opened
  · exact h.others.of_set (fun j hj => modify_set_of_ne _ _ _ hj) fun _ _ _ _ => rfl
  · rw [hset]
    exact h.allocated

theorem readInitialBytes_stage :
    Program.Spec (Naming i []) (readInitialBytes calls i) (Naming i []) (Growing i) := by
  constructor
  · rintro s ⟨h, hfd, hunrouted, huntracked, hcookie⟩ hdone
    rcases readInitialBytes_cases calls i s with ⟨-, heq⟩ | ⟨total, -, heq⟩
    · rw [heq] at hdone
      cases hdone
    · have hsame : ∀ set : ConnectionSet, SameHoldings set
          { set with initialBackendBytesReceived := total } := fun _ =>
        ⟨rfl, rfl, rfl, rfl, rfl, rfl, rfl⟩
      have hgrown := h.modify (fun set => { set with initialBackendBytesReceived := total })
        (hsame _)
      rw [heq]
      refine ⟨hgrown, ?_, ?_, ?_, ?_⟩ <;> rw [modify_holdings (hsame _)]
      · exact hfd
      · exact hunrouted
      · exact huntracked
      · exact hcookie
  · rintro s ⟨h, -, -, -, -⟩ hfailed
    rcases readInitialBytes_cases calls i s with ⟨-, heq⟩ | ⟨total, -, heq⟩
    · rw [heq]
      exact h
    · rw [heq] at hfailed
      cases hfailed

theorem installLifecycle_stage :
    Program.Spec (Naming i []) (installLifecycle calls i) (Routing i members) (Growing i) := by
  constructor
  · rintro s ⟨h, hfd, -, -, hcookie⟩ hdone
    rcases installLifecycle_cases calls i s with ⟨-, heq⟩ | ⟨-, -, heq⟩
    · rw [heq] at hdone
      cases hdone
    · rw [heq]
      refine ⟨⟨⟨?owned, ?opened⟩, ?others, ?allocated⟩, ?fd, ?cookie,
        fun k hk => absurd (mem_members k) hk⟩
      case owned =>
        rw [placeLifecycle_holdings]
        exact h.clean.owned.putLifecycle h.allocated (hcookie 0 List.not_mem_nil) _
      case opened =>
        rw [placeLifecycle_holdings]
        exact h.clean.opened.congr rfl rfl rfl
      case others =>
        exact h.others.of_set (fun j hj => modify_set_of_ne _ _ _ hj) fun _ _ _ _ => rfl
      all_goals rw [placeLifecycle_holdings]
      case allocated => exact h.allocated
      case fd => exact hfd
      case cookie => exact fun k => hcookie k List.not_mem_nil
  · rintro s ⟨h, -, -, -, -⟩ hfailed
    rcases installLifecycle_cases calls i s with ⟨-, heq⟩ | ⟨-, -, heq⟩
    · rw [heq]
      exact h
    · rw [heq] at hfailed
      cases hfailed

theorem installRoute_stage :
    Program.Spec (Routing i (m :: todo)) (installRoute calls i m) (Routing i todo)
      (Growing i) := by
  constructor
  · rintro s ⟨h, hfd, hcookie, hroute⟩ hdone
    rcases installRoute_cases calls i m s with ⟨-, heq⟩ | ⟨-, heq⟩
    · rw [heq] at hdone
      cases hdone
    · have hkept : ∀ x, s.holdings.cookie x ≠ 0 → x ≠ (i, m) →
          (s.placeRoute i m).world.routes (s.holdings.cookie x) =
            s.world.routes (s.holdings.cookie x) := fun x hx hne =>
        BpfMap.update_ne _ _ fun heq => hne (h.clean.owned.unique x (i, m) heq hx)
      rw [heq]
      refine ⟨⟨⟨?owned, ?opened⟩, ?others, ?allocated⟩, ?fd, ?cookie, ?route⟩
      case owned =>
        rw [placeRoute_holdings]
        exact h.clean.owned.putRoute h.allocated (hcookie m)
      case opened =>
        rw [placeRoute_holdings]
        exact h.clean.opened.congr rfl rfl rfl
      case others =>
        refine h.others.of_set (fun j hj => modify_set_of_ne _ _ _ hj) fun j k hj hk => ?_
        exact hkept (j, k) hk fun h => hj (congrArg Prod.fst h)
      all_goals rw [placeRoute_holdings]
      case allocated => exact h.allocated
      case fd => exact hfd
      case cookie => exact hcookie
      case route =>
        intro k hk
        rcases eq_or_ne k m with rfl | hkm
        · exact BpfMap.update_self ..
        · refine (hkept (i, k) (hcookie k) fun h => hkm (congrArg Prod.snd h)).trans ?_
          exact hroute k fun hin => (List.mem_cons.mp hin).elim hkm hk
  · rintro s ⟨h, -, -, -⟩ hfailed
    rcases installRoute_cases calls i m s with ⟨-, heq⟩ | ⟨-, heq⟩
    · rw [heq]
      exact h
    · rw [heq] at hfailed
      cases hfailed

theorem installSlot_stage :
    Program.Spec (Placing i) (installSlot calls i m) (Placing i) (Growing i) := by
  constructor
  · rintro s ⟨h, hwhole⟩ hdone
    rcases installSlot_cases calls i m s with ⟨-, heq⟩ | ⟨socket, hsocket, -, heq⟩
    · rw [heq] at hdone
      cases hdone
    · obtain ⟨fd, hheld, hopen⟩ := Option.bind_eq_some_iff.mp hsocket
      obtain ⟨-, d, hd, hknown⟩ := h.clean.opened.held (i, m) fd hheld
      obtain rfl : d = socket := Option.some.inj (hd.symm.trans hopen)
      have hcookie : s.holdings.cookie (i, m) = d := hknown.resolve_left (hwhole.cookie m)
      have hmap : (s.placeSlot i m d).sockMap =
          s.sockMap.update (s.holdings.slot (i, m)) (s.holdings.cookie (i, m)) := by
        rw [hcookie]
        rfl
      rw [heq]
      refine ⟨⟨⟨?_, ?_⟩, ?_, ?_⟩, ?_⟩
      · rw [placeSlot_holdings, hmap]
        exact h.clean.owned.putSlot h.allocated (hwhole.cookie m)
      · rw [placeSlot_holdings]
        exact h.clean.opened.congr rfl rfl rfl
      · refine h.others.of_set (fun j hj => ?_) fun _ _ _ _ => rfl
        exact Manager.modify_of_ne i (fun set => set.flag m true) s.manager hj
      · rw [placeSlot_holdings]
        exact h.allocated
      · rw [placeSlot_holdings]
        exact ⟨hwhole.fd, hwhole.cookie, hwhole.route⟩
  · rintro s ⟨h, -⟩ hfailed
    rcases installSlot_cases calls i m s with ⟨-, heq⟩ | ⟨socket, -, -, heq⟩
    · rw [heq]
      exact h
    · rw [heq] at hfailed
      cases hfailed

theorem Connecting.naming {s : Router} (h : Connecting calls i [] s) : Naming i members s where
  growing := h.growing
  fd m := h.fd m List.not_mem_nil
  unrouted m := by
    cases hrouted : s.holdings.routed (i, m) with
    | false => rfl
    | true => exact absurd (h.unnamed m) (h.growing.clean.owned.seated (i, m) (.inr hrouted))
  untracked := by
    cases htracked : s.holdings.tracked i with
    | false => rfl
    | true => exact absurd (h.unnamed 0) (h.growing.clean.owned.client_seated i htracked)
  cookie m hm := absurd (mem_members m) hm

theorem Routing.placing {s : Router} (h : Routing i [] s) : Placing i s where
  growing := h.growing
  whole := ⟨h.fd, h.cookie, fun m => h.route m List.not_mem_nil⟩

/-- **A setup** that runs to its end has set up the set; one that stops
leaves a state a reap can clean up. -/
theorem setup_stage :
    Program.Spec (Connecting calls i backends) (setup calls i) (Placing i) (Growing i) := by
  have hconnect := Program.Spec.each (connectMember_stage (i := i) calls) backends
  have hcookies := Program.Spec.each (readCookie_stage (i := i) calls) members
  have hroutes := Program.Spec.each (installRoute_stage (i := i) calls) members
  have hslots := Program.Spec.each (I := fun _ => Placing i)
    (fun m _ => installSlot_stage calls m) members
  exact (hconnect.mono (fun _ => id) fun _ => Connecting.naming calls).andThen <|
    hcookies.andThen <| (readInitialBytes_stage calls).andThen <|
    (installLifecycle_stage calls).andThen <|
    (hroutes.mono (fun _ => id) fun _ => Routing.placing).andThen hslots

end Stages

end Xsr.Connection
