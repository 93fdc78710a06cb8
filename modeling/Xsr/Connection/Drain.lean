import Xsr.Connection.Recycling

/-!
# Drain — a half-closed connection ends after its responses

The timer takes the lifecycle entry, polls the backends and reads their byte
counters one after the other, while responses arrive and verdicts run in
between. What it reaps as drained has forwarded every response byte that the
baseline of the set did not already count.
-/

namespace Xsr.Connection

open Kernel Lib Parsing Xsr.System

/-! ## The bytes of the sockets -/

/-- What a socket has received: payload that arrived, what of it a verdict
has taken and what of that was passed on, and how the stream ended. -/
structure Stream where
  arrived : Nat
  taken : Nat
  passed : Nat
  fin : Bool
  failed : Bool
  deriving DecidableEq

/-- Nothing was received yet. -/
def Stream.empty : Stream := ⟨0, 0, 0, false, false⟩

/-- `tcpi_bytes_received` counts the payload and one for a FIN. -/
def Stream.bytesReceived (t : Stream) : Nat := t.arrived + t.fin.toNat

/-- No payload arrives any more. -/
def Stream.ended (t : Stream) : Bool := t.fin || t.failed

/-- What `poll` reports of a stream: `POLLRDHUP` for a FIN, anything else
only when the stream has ended. -/
structure Stream.Reports (t : Stream) (r : Revents) : Prop where
  rdhup : r.rdhup = t.fin
  broken : r.broken = true → t.ended = true

/-- Whatever `poll` reports, the stream has ended. -/
theorem Stream.Reports.ended {t : Stream} {r : Revents} (h : t.Reports r) (hany : r.any = true) :
    t.ended = true := by
  rcases (Bool.or_eq_true _ _).mp hany with hrdhup | hbroken
  · rw [Stream.ended, ← h.rdhup, hrdhup]
    rfl
  · exact h.broken hbroken

/-- A turn of the timer's loop on a set it may drain: the answers of the
kernel, and the backends that are still to be polled and read. -/
structure Turn where
  set : SetIndex
  calls : CheckCalls
  info : TcpInfo
  lifecycle : LifecycleState
  unpolled : List Member
  unread : List Member

/-- The router, the bytes of all sockets, and the turn the timer is in. -/
structure Drain where
  router : Router
  streams : UInt64 → Stream
  turn : Option Turn

/-- Maps just loaded, and no bytes. -/
def Drain.initial (grams : QueryGrams) : Drain :=
  ⟨initializeConnectionManager grams, fun _ => .empty, none⟩

/-- A socket receives or hands on bytes. -/
def Drain.stream (d : Drain) (socket : UInt64) (f : Stream → Stream) : Drain :=
  { d with streams := Function.update d.streams socket (f (d.streams socket)) }

theorem Drain.stream_self (d : Drain) (socket : UInt64) (f : Stream → Stream) :
    (d.stream socket f).streams socket = f (d.streams socket) :=
  Function.update_self ..

theorem Drain.stream_of_ne (d : Drain) {socket c : UInt64} (f : Stream → Stream)
    (h : c ≠ socket) : (d.stream socket f).streams c = d.streams c :=
  Function.update_of_ne h ..

/-- A verdict run takes bytes of its socket, and passes them or not. -/
def Drain.verdict (pol : Policy) (d : Drain) (redirect : Nat → Bool) (cookie : UInt64)
    (skbLen : Nat) : Drain :=
  let v := skRouterVerdict pol d.router.world redirect cookie skbLen
  { d.stream cookie (fun t => { t with
      taken := t.taken + skbLen
      passed := t.passed + if v.2.pass then skbLen else 0 }) with
    router := { d.router with world := v.1 } }

theorem verdict_passed {pol : Policy} {d : Drain} {redirect : Nat → Bool} {cookie : UInt64}
    {skbLen : Nat} (h : (skRouterVerdict pol d.router.world redirect cookie skbLen).2.pass = true) :
    ((d.verdict pol redirect cookie skbLen).streams cookie).passed =
      (d.streams cookie).passed + skbLen := by
  rw [Drain.verdict]
  dsimp only
  rw [d.stream_self, h, if_pos rfl]

/-- The stream of a member of a set. -/
def Drain.member (d : Drain) (i : SetIndex) (m : Member) : Stream :=
  d.streams ((d.router.set i).cookies m)

/-- The payload that arrived from the backends of a set. -/
def Drain.arrived (d : Drain) (i : SetIndex) : Nat :=
  (backends.map fun m => (d.member i m).arrived).sum

/-- The payload of the backends that was passed to the client. -/
def Drain.passed (d : Drain) (i : SetIndex) : Nat :=
  (backends.map fun m => (d.member i m).passed).sum

/-! ## A turn -/

/-- The turn gets past the request test. -/
structure Drains (calls : CheckCalls) (i : SetIndex) (s : Router) (info : TcpInfo)
    (lifecycle : LifecycleState) : Prop where
  whole : calls.revents.broken = false
  closing : calls.revents.rdhup = true
  readable : calls.clientInfo = some info
  request : info.requestBytes ≠ 0
  found : lookupLifecycle calls i (notePeerClosed i s) = some lifecycle
  forwarded : lifecycle.requestForwarded = true

/-- The turn ends with a reap of a drained set. -/
def Turn.reaps (t : Turn) (s : Router) : Bool :=
  drained t.calls t.info (s.set t.set) t.lifecycle && (s.set t.set).drainConfirmed

/-- `set->drain_confirmed = …` -/
def confirmDrain (i : SetIndex) (confirmed : Bool) (s : Router) : Router :=
  s.modify i fun set => { set with drainConfirmed := confirmed }

/-- The end of a turn, once all was read. -/
def Turn.settle (t : Turn) (s : Router) : Router :=
  if t.reaps s then (reapConnectionSet t.calls.reap t.set s).1
  else confirmDrain t.set (drained t.calls t.info (s.set t.set) t.lifecycle) s

theorem Stable.settle {P : Router → Prop} (stable : Stable P) {s : Router} (h : P s) (t : Turn) :
    P (t.settle s) := by
  rw [Turn.settle]
  split_ifs
  · exact stable.reap s t.set t.calls.reap h
  · exact stable.mark s t.set _ (marks_drainConfirmed _) h

theorem beginDrain_cookies (i j : SetIndex) (s : Router) :
    ((beginDrain i s).set j).cookies = (s.set j).cookies := by
  rw [beginDrain]
  split_ifs
  · rfl
  · rw [shutdownBackendWrites]
    rcases eq_or_ne j i with rfl | hne
    · rw [modify_set_self]
    · rw [modify_set_of_ne s i _ hne]

theorem beginDrain_world (i : SetIndex) (s : Router) : (beginDrain i s).world = s.world := by
  rw [beginDrain]
  split_ifs <;> rfl

theorem notePeerClosed_cookies (i j : SetIndex) (s : Router) :
    ((notePeerClosed i s).set j).cookies = (s.set j).cookies := by
  rw [notePeerClosed]
  split_ifs
  · rfl
  · let f : ConnectionSet → ConnectionSet := fun set => { set with peerWriteClosed := true }
    rcases eq_or_ne j i with rfl | hne
    · have hset := congrArg ConnectionSet.cookies (modify_set_self s j f)
      exact hset
    · have hset := congrArg ConnectionSet.cookies (modify_set_of_ne s i f hne)
      exact hset

/-- The body of the loop, past the request test. -/
theorem Drains.checkSet_eq {calls : CheckCalls} {i : SetIndex} {s : Router} {info : TcpInfo}
    {lifecycle : LifecycleState} (h : Drains calls i s info lifecycle) :
    checkSet calls i s = Turn.settle ⟨i, calls, info, lifecycle, [], []⟩
      (beginDrain i (notePeerClosed i s)) := by
  have hdrain : checkSet calls i s = drainSet calls info lifecycle i (notePeerClosed i s) := by
    simp only [checkSet, h.whole, h.closing, h.readable, h.request, h.found, h.forwarded,
      Bool.not_true, Bool.false_eq_true, if_false, if_true]
  rw [hdrain, drainSet, Turn.settle, Turn.reaps]
  dsimp only
  generalize beginDrain i (notePeerClosed i s) = u
  cases hdrained : drained calls info (u.set i) lifecycle with
  | false =>
      rw [Bool.false_and, if_neg Bool.false_ne_true, if_neg Bool.false_ne_true]
      rfl
  | true =>
      rw [Bool.true_and, if_pos rfl]
      rfl

/-- A turn that does not get past the request test reaps the set or leaves
it, after it has noted the half-close. -/
theorem checkSet_cases {calls : CheckCalls} {i : SetIndex} {s : Router}
    (h : ∀ info lifecycle, ¬ Drains calls i s info lifecycle) :
    ∃ t, (t = s ∨ t = notePeerClosed i s) ∧
      (checkSet calls i s = t ∨ checkSet calls i s = (reapConnectionSet calls.reap i t).1) := by
  rw [checkSet]
  split_ifs with hbroken hclosing
  · exact ⟨s, .inl rfl, .inr rfl⟩
  · exact ⟨s, .inl rfl, .inl rfl⟩
  · refine ⟨notePeerClosed i s, .inr rfl, ?_⟩
    dsimp only
    split
    · exact .inr rfl
    · rename_i info hinfo
      split_ifs with hrequest
      · exact .inr rfl
      · split
        · exact .inr rfl
        · rename_i lifecycle hfound
          split_ifs with hforwarded
          · refine absurd ⟨?_, ?_, hinfo, hrequest, hfound, hforwarded⟩ (h info lifecycle)
            · exact Bool.not_eq_true _ ▸ hbroken
            · exact Bool.not_eq_false _ ▸ fun hf => hclosing (by rw [hf]; rfl)
          · exact .inr rfl
          · exact .inr rfl
          · exact .inl rfl

/-! ## The system -/

/-- The events of the programs and the kernel. -/
def Event.IsTraffic : Event → Prop
  | .parse .. | .unlink .. | .age .. => True
  | _ => False

/-- The events of the control process that are over in one step: a check is
one when the set is not to be drained. -/
def Event.IsControl (s : Router) : Event → Prop
  | .accept .. | .reap .. | .destroy .. => True
  | .check i calls => ∀ info lifecycle, ¬ Drains calls i s info lifecycle
  | _ => False

/-- What can happen next. -/
inductive Move where
  | arrive (socket : UInt64) (n : Nat)
  | fin (socket : UInt64)
  | fail (socket : UInt64)
  | event (e : Event)
  | look (i : SetIndex)
  | poll (m : Member)
  | read (m : Member)
  | settle

/-- One move. Payload arrives on a stream that has not ended, and a verdict
takes what has arrived, once. The timer's turn goes step by step; the
control process does nothing else until it is over. -/
inductive DrainStep (pol : Policy) (d : Drain) : Move → Drain → Prop where
  | arrive {socket : UInt64} (n : Nat) (live : (d.streams socket).ended = false) :
      DrainStep pol d (.arrive socket n)
        (d.stream socket fun t => { t with arrived := t.arrived + n })
  | fin (socket : UInt64) :
      DrainStep pol d (.fin socket) (d.stream socket fun t => { t with fin := true })
  | fail (socket : UInt64) :
      DrainStep pol d (.fail socket) (d.stream socket fun t => { t with failed := true })
  | traffic {e : Event} {s : Router} (he : e.IsTraffic) (step : Step pol d.router e s) :
      DrainStep pol d (.event e) { d with router := s }
  | verdict {cookie : UInt64} {skbLen : Nat} {redirect : Nat → Bool} (pos : 0 < skbLen)
      (room : (d.streams cookie).taken + skbLen ≤ (d.streams cookie).arrived)
      (step : Step pol d.router (.verdict cookie skbLen redirect)
        (d.verdict pol redirect cookie skbLen).router) :
      DrainStep pol d (.event (.verdict cookie skbLen redirect))
        (d.verdict pol redirect cookie skbLen)
  | control {e : Event} {s : Router} (idle : d.turn = none) (he : e.IsControl d.router)
      (step : Step pol d.router e s) : DrainStep pol d (.event e) { d with router := s }
  | look {i : SetIndex} {calls : CheckCalls} {info : TcpInfo} {lifecycle : LifecycleState}
      (idle : d.turn = none) (active : (d.router.set i).active = true)
      (drains : Drains calls i d.router info lifecycle) :
      DrainStep pol d (.look i) { d with
        router := beginDrain i (notePeerClosed i d.router)
        turn := some ⟨i, calls, info, lifecycle, backends, backends⟩ }
  | poll {t : Turn} {m : Member} {ms : List Member} (turn : d.turn = some t)
      (next : t.unpolled = m :: ms)
      (report : ∀ r, t.calls.backendRevents = some r → (d.member t.set m).Reports (r m)) :
      DrainStep pol d (.poll m) { d with turn := some { t with unpolled := ms } }
  | read {t : Turn} {m : Member} {ms : List Member} (turn : d.turn = some t)
      (polled : t.unpolled = []) (next : t.unread = m :: ms)
      (report : ∀ n, t.calls.bytesReceived m = some n → n = (d.member t.set m).bytesReceived) :
      DrainStep pol d (.read m) { d with turn := some { t with unread := ms } }
  | settle {t : Turn} (turn : d.turn = some t) (polled : t.unpolled = []) (read : t.unread = []) :
      DrainStep pol d .settle { d with router := t.settle d.router, turn := none }

section Turns
variable (pol : Policy) {d : Drain}

/-- The polls of a turn, when the kernel reports what is so. -/
theorem polls_run : ∀ {t : Turn} {ms : List Member}, t.unpolled = ms →
    (∀ r, t.calls.backendRevents = some r → ∀ m ∈ ms, (d.member t.set m).Reports (r m)) →
    Run (DrainStep pol) { d with turn := some t } (ms.map .poll)
      { d with turn := some { t with unpolled := [] } }
  | ⟨_, _, _, _, unpolled, _⟩, [], ht, _ => by
      obtain rfl : unpolled = [] := ht
      exact .nil
  | t, m :: ms, ht, hreport => by
      have hpoll := @DrainStep.poll pol { d with turn := some t } t m ms rfl ht
        fun r hr => hreport r hr m List.mem_cons_self
      exact (Run.single hpoll).append
        (polls_run rfl fun r hr k hk => hreport r hr k (List.mem_cons_of_mem m hk))

/-- The reads of a turn, when the kernel reports what is so. -/
theorem reads_run : ∀ {t : Turn} {ms : List Member}, t.unpolled = [] → t.unread = ms →
    (∀ m ∈ ms, ∀ n, t.calls.bytesReceived m = some n → n = (d.member t.set m).bytesReceived) →
    Run (DrainStep pol) { d with turn := some t } (ms.map .read)
      { d with turn := some { t with unread := [] } }
  | ⟨_, _, _, _, _, unread⟩, [], _, ht, _ => by
      obtain rfl : unread = [] := ht
      exact .nil
  | t, m :: ms, hpolled, ht, hreport => by
      have hread := @DrainStep.read pol { d with turn := some t } t m ms rfl hpolled ht
        fun n hn => hreport m List.mem_cons_self n hn
      exact (Run.single hread).append
        (reads_run hpolled rfl fun k hk => hreport k (List.mem_cons_of_mem m hk))

variable {i : SetIndex} {calls : CheckCalls} {info : TcpInfo} {lifecycle : LifecycleState}

/-- The moves of a turn without traffic, up to its end. -/
def turnMoves (i : SetIndex) : List Move :=
  .look i :: (backends.map .poll ++ backends.map .read)

theorem Drains.turn_run (h : Drains calls i d.router info lifecycle) (idle : d.turn = none)
    (active : (d.router.set i).active = true)
    (reports : ∀ r, calls.backendRevents = some r → ∀ m ∈ backends, (d.member i m).Reports (r m))
    (reads : ∀ m ∈ backends, ∀ n, calls.bytesReceived m = some n →
      n = (d.member i m).bytesReceived) :
    Run (DrainStep pol) d (turnMoves i) { d with
      router := beginDrain i (notePeerClosed i d.router)
      turn := some ⟨i, calls, info, lifecycle, [], []⟩ } := by
  have hcookies : ((beginDrain i (notePeerClosed i d.router)).set i).cookies =
      (d.router.set i).cookies := by
    rw [beginDrain_cookies, notePeerClosed_cookies]
  have hlook := @DrainStep.look pol d i calls info lifecycle idle active h
  generalize beginDrain i (notePeerClosed i d.router) = s at hlook hcookies
  have hmember : ∀ m, Drain.member { d with router := s } i m = d.member i m := by
    intro m
    rw [Drain.member, Drain.member]
    exact congrArg (fun cookies => d.streams (cookies m)) hcookies
  refine (Run.single hlook).append ?_
  have hpolls := polls_run pol (d := { d with router := s })
    (t := ⟨i, calls, info, lifecycle, backends, backends⟩) rfl
    fun r hr m hm => (hmember m).symm ▸ reports r hr m hm
  exact hpolls.append (reads_run pol (d := { d with router := s }) rfl rfl
    fun m hm n hn => (hmember m).symm ▸ reads m hm n hn)

/-- **An uninterrupted turn** is one run of the loop's body. -/
theorem Drains.check_run (h : Drains calls i d.router info lifecycle) (idle : d.turn = none)
    (active : (d.router.set i).active = true)
    (reports : ∀ r, calls.backendRevents = some r → ∀ m ∈ backends, (d.member i m).Reports (r m))
    (reads : ∀ m ∈ backends, ∀ n, calls.bytesReceived m = some n →
      n = (d.member i m).bytesReceived) :
    Run (DrainStep pol) d (turnMoves i ++ [.settle])
      { d with router := checkSet calls i d.router, turn := none } := by
  rw [h.checkSet_eq]
  exact (h.turn_run pol idle active reports reads).snoc (.settle rfl rfl rfl)

end Turns

/-! ## What the lifecycle entries say -/

/-- A lifecycle entry counts no response byte that was not passed on, and no
request that was not. -/
structure Credit (passed : UInt64 → Nat) (cookies : Member → UInt64) (l : LifecycleState) :
    Prop where
  responses : l.responseBytesForwarded ≤ (backends.map fun m => passed (cookies m)).sum
  request : l.requestForwarded = true → 0 < passed (cookies 0)

theorem sum_map_mono {ι : Type} {f g : ι → Nat} (h : ∀ x, f x ≤ g x) (l : List ι) :
    (l.map f).sum ≤ (l.map g).sum :=
  List.sum_le_sum fun x _ => h x

/-- What one summand gains, the sum gains. -/
theorem sum_map_gain {ι : Type} {f g : ι → Nat} {n : Nat} (h : ∀ x, f x ≤ g x) :
    ∀ {l : List ι} {x : ι}, x ∈ l → f x + n ≤ g x → (l.map f).sum + n ≤ (l.map g).sum
  | y :: l, x, hx, hgain => by
      rw [List.map_cons, List.map_cons, List.sum_cons, List.sum_cons]
      rcases List.mem_cons.mp hx with rfl | hx
      · have := sum_map_mono h l
        omega
      · have := sum_map_gain h hx hgain
        have := h y
        omega

theorem Credit.mono {passed passed' : UInt64 → Nat} {cookies : Member → UInt64}
    {l : LifecycleState} (h : Credit passed cookies l) (hle : ∀ c, passed c ≤ passed' c) :
    Credit passed' cookies l :=
  ⟨h.responses.trans (sum_map_mono (fun m => hle (cookies m)) backends),
    fun hl => (h.request hl).trans_le (hle _)⟩

theorem Credit.empty (passed : UInt64 → Nat) (cookies : Member → UInt64) :
    Credit passed cookies emptyLifecycle :=
  ⟨Nat.zero_le _, fun h => by cases h⟩

/-- The entries of all sets, and the half-closes begun on their account. -/
structure Credited (passed : UInt64 → Nat) (s : Router) : Prop where
  lifecycle : ∀ i l, (s.set i).cookies 0 ≠ 0 →
    s.world.lifecycle ((s.set i).cookies 0) = some l → Credit passed (s.set i).cookies l
  shutdown : ∀ i, (s.set i).cookies 0 ≠ 0 → (s.set i).backendWritesShutdown = true →
    0 < passed ((s.set i).cookies 0)

theorem Credited.mono {passed passed' : UInt64 → Nat} {s : Router} (h : Credited passed s)
    (hle : ∀ c, passed c ≤ passed' c) : Credited passed' s :=
  ⟨fun i l h0 hl => (h.lifecycle i l h0 hl).mono hle,
    fun i h0 hs => (h.shutdown i h0 hs).trans_le (hle _)⟩

/-! ### The control process -/

/-- What an operation on set `i` does to the entries: it makes empty ones. -/
structure Kept (i : SetIndex) (s t : Router) : Prop where
  other : ∀ j, j ≠ i → t.set j = s.set j
  shutdown : (t.set i).backendWritesShutdown = true → (s.set i).backendWritesShutdown = true
  lifecycle : ∀ c l, t.world.lifecycle c = some l →
    s.world.lifecycle c = some l ∨ l = emptyLifecycle

theorem Kept.refl (i : SetIndex) (s : Router) : Kept i s s :=
  ⟨fun _ _ => rfl, id, fun _ _ => .inl⟩

theorem Kept.trans {i : SetIndex} {s t u : Router} (h : Kept i s t) (h' : Kept i t u) :
    Kept i s u where
  other j hj := (h'.other j hj).trans (h.other j hj)
  shutdown hu := h.shutdown (h'.shutdown hu)
  lifecycle c l hl := (h'.lifecycle c l hl).elim (h.lifecycle c l) .inr

/-- A step that writes fields of set `i`. -/
theorem Kept.step {i : SetIndex} {s t u : Router} (h : Kept i s t)
    (other : ∀ j, j ≠ i → u.set j = t.set j)
    (shutdown : (u.set i).backendWritesShutdown = (t.set i).backendWritesShutdown)
    (lifecycle : ∀ c l, u.world.lifecycle c = some l →
      t.world.lifecycle c = some l ∨ l = emptyLifecycle) : Kept i s u :=
  h.trans ⟨other, fun hu => shutdown ▸ hu, lifecycle⟩

theorem keeps_kept (i : SetIndex) (s : Router) : Keeps i (Kept i s) where
  record t h := h.step (fun _ _ => rfl) rfl fun _ _ => .inl
  dropSlot t m _ h := h.step (fun j hj => dropSlot_set_of_ne t m hj) (by simp) fun _ _ => .inl
  clearRoute t m _ h := h.step (fun j hj => clearRoute_set_of_ne t m hj) (by simp) fun _ _ => .inl
  dropRoute t m h := h.step (fun j hj => dropRoute_set_of_ne t m hj) (by simp) fun _ _ => .inl
  clearLifecycle t _ h :=
    h.step (fun j hj => clearLifecycle_set_of_ne t hj) (by simp) fun _ _ => .inl
  dropLifecycle t h := h.step (fun j hj => dropLifecycle_set_of_ne t hj) (by simp)
    fun _ _ hl => .inl (BpfMap.delete_some hl)
  dropFlow t h := h.step (fun _ _ => rfl) rfl fun _ _ => .inl
  dropDecision t h := h.step (fun _ _ => rfl) rfl fun _ _ => .inl
  close t unlinks m h := by
    rcases closeMember_cases t i m unlinks with ⟨-, heq⟩ | ⟨fd, -, heq⟩
    · rw [heq]; exact h
    · rw [heq]
      refine h.step (fun j hj => ?_) (by simp) fun c l hl => .inl ?_
      · rw [modify_set_of_ne _ _ _ hj, close_set]
      · rwa [modify_world, close_world] at hl

/-- A set that stays with its client keeps the cookies and the baseline, and
is not taken again. -/
structure Retains (set set' : ConnectionSet) : Prop where
  cookies : set'.cookies = set.cookies
  baseline : set'.initialBackendBytesReceived = set.initialBackendBytesReceived
  allocated : set'.allocated = true → set.allocated = true

/-- A reap, whatever its outcome. -/
theorem reap_kept (calls : ReapCalls) (i : SetIndex) (s : Router) :
    Kept i s (reapConnectionSet calls i s).1 ∧
      (Retains (s.set i) ((reapConnectionSet calls i s).1.set i) ∨
        ((reapConnectionSet calls i s).1.set i).cookies = fun _ => 0) := by
  cases ha : (s.set i).allocated with
  | false =>
      rw [reap_of_not_allocated calls ha]
      exact ⟨.refl i s, .inl ⟨rfl, rfl, id⟩⟩
  | true =>
      have hbegun : Kept i s (beginReap i s) := by
        refine (Kept.refl i s).step (fun j hj => beginReap_set_of_ne hj) (by simp) ?_
        rw [beginReap]
        exact fun _ _ => .inl
      have hclean := (keeps_kept i s).cleanup calls hbegun
      have hframe := cleanup_frame calls i (beginReap i s)
      have hcookies := hframe.cookies
      have hbaseline := hframe.baseline
      rw [beginReap_set] at hcookies hbaseline
      generalize hu : (cleanup calls i (beginReap i s)).1 = u at hclean hcookies hbaseline
      rcases reap_cases calls ha with ⟨-, heq⟩ | ⟨-, heq⟩
      · rw [heq, hu]
        have hset : ({ u with manager := u.manager.quarantine i } : Router).set i =
            { u.set i with allocated := false } := Function.update_self ..
        refine ⟨hclean.step (fun j hj => Function.update_of_ne hj ..) (by rw [hset])
          fun _ _ => .inl, .inl ?_⟩
        rw [hset]
        exact ⟨hcookies, hbaseline, fun _ => ha⟩
      · rw [heq, hu]
        have hset : ∀ active : Bool, ({ u with manager := u.manager.giveBack i active } :
            Router).set i = (u.set i).reset := by
          intro active
          cases active <;> exact Function.update_self ..
        refine ⟨⟨fun j hj => ?_, fun hf => ?_, hclean.lifecycle⟩, .inr ?_⟩
        · rw [giveBack_set_of_ne u _ hj]
          exact hclean.other j hj
        · rw [hset] at hf
          cases hf
        · rw [hset]
          rfl

/-- An operation that leaves the set its cookies, or takes them. -/
theorem Credited.kept {passed : UInt64 → Nat} {s t : Router} {i : SetIndex}
    (h : Credited passed s) (hkept : Kept i s t)
    (hcookies : (t.set i).cookies 0 ≠ 0 → (t.set i).cookies = (s.set i).cookies) :
    Credited passed t := by
  have hsets : ∀ j, (t.set j).cookies 0 ≠ 0 → (t.set j).cookies = (s.set j).cookies ∧
      ((t.set j).backendWritesShutdown = true → (s.set j).backendWritesShutdown = true) := by
    intro j h0
    rcases eq_or_ne j i with rfl | hne
    · exact ⟨hcookies h0, hkept.shutdown⟩
    · rw [hkept.other j hne]
      exact ⟨rfl, id⟩
  constructor
  · intro j l h0 hl
    obtain ⟨hsame, -⟩ := hsets j h0
    rw [hsame] at h0 hl ⊢
    rcases hkept.lifecycle _ l hl with hl | rfl
    · exact h.lifecycle j l h0 hl
    · exact .empty ..
  · intro j h0 hshut
    obtain ⟨hsame, hflag⟩ := hsets j h0
    rw [hsame] at h0 ⊢
    exact h.shutdown j h0 (hflag hshut)

theorem Credited.reap {passed : UInt64 → Nat} {s : Router} (h : Credited passed s) (i : SetIndex)
    (calls : ReapCalls) : Credited passed (reapConnectionSet calls i s).1 := by
  obtain ⟨hkept, hcookies⟩ := reap_kept calls i s
  refine h.kept hkept fun h0 => (hcookies.resolve_right fun hzero => h0 ?_).cookies
  rw [hzero]

/-- A mark on a set that leaves its cookies and the flag of its half-close. -/
theorem Credited.mark {passed : UInt64 → Nat} {s : Router} (h : Credited passed s) (i : SetIndex)
    {f : ConnectionSet → ConnectionSet} (cookies : (f (s.set i)).cookies = (s.set i).cookies)
    (shutdown : (f (s.set i)).backendWritesShutdown = (s.set i).backendWritesShutdown) :
    Credited passed (s.modify i f) := by
  refine h.kept ⟨fun j hj => modify_set_of_ne s i f hj, ?_, fun _ _ => .inl⟩ fun _ => ?_
  · rw [modify_set_self, shutdown]
    exact id
  · rw [modify_set_self, cookies]

theorem Credited.notePeerClosed {passed : UInt64 → Nat} {s : Router} (h : Credited passed s)
    (i : SetIndex) : Credited passed (notePeerClosed i s) := by
  rw [Connection.notePeerClosed]
  split_ifs
  · exact h
  · have hmarked : Credited passed (s.modify i fun set => { set with peerWriteClosed := true }) :=
      h.mark i rfl rfl
    exact ⟨hmarked.lifecycle, hmarked.shutdown⟩

theorem Credited.confirmDrain {passed : UInt64 → Nat} {s : Router} (h : Credited passed s)
    (i : SetIndex) (confirmed : Bool) : Credited passed (confirmDrain i confirmed s) :=
  h.mark i rfl rfl

/-- The half-close of the backends begins once a request was passed on. -/
theorem Credited.beginDrain {passed : UInt64 → Nat} {s : Router} (h : Credited passed s)
    (i : SetIndex) (hpassed : 0 < passed ((s.set i).cookies 0)) :
    Credited passed (beginDrain i s) := by
  rw [Connection.beginDrain]
  split_ifs
  · exact h
  · have hset := modify_set_self s i fun set => { set with backendWritesShutdown := true }
    have hother := fun j (hj : j ≠ i) =>
      modify_set_of_ne s i (fun set => { set with backendWritesShutdown := true }) hj
    rw [shutdownBackendWrites]
    refine ⟨fun j l h0 hl => ?_, fun j h0 hshut => ?_⟩ <;> rcases eq_or_ne j i with rfl | hne
    · rw [hset] at h0 hl ⊢
      exact h.lifecycle j l h0 hl
    · rw [hother j hne] at h0 hl ⊢
      exact h.lifecycle j l h0 hl
    · rw [hset]
      exact hpassed
    · rw [hother j hne] at h0 hshut ⊢
      exact h.shutdown j h0 hshut

theorem Credited.check {passed : UInt64 → Nat} {s : Router} (h : Credited passed s) {i : SetIndex}
    {calls : CheckCalls} (hnot : ∀ info lifecycle, ¬ Drains calls i s info lifecycle) :
    Credited passed (checkSet calls i s) := by
  obtain ⟨t, ht, heq⟩ := checkSet_cases hnot
  have hcredited : Credited passed t := by
    rcases ht with rfl | rfl
    · exact h
    · exact h.notePeerClosed i
  rcases heq with heq | heq <;> rw [heq]
  · exact hcredited
  · exact hcredited.reap i calls.reap

theorem Credited.destroy {passed : UInt64 → Nat} {s : Router} (h : Credited passed s)
    (calls : SetIndex → ReapCalls) : Credited passed (destroyConnectionManager calls s) := by
  refine List.foldlRecOn (motive := Credited passed) _ _ h fun s hs i _ => ?_
  split_ifs
  · exact hs.reap i _
  · exact hs

/-! ### An accept -/

theorem setupKeeps_kept (calls : AddCalls) (i : SetIndex) (s : Router) :
    SetupKeeps calls i (Kept i s) where
  refuse t m _ h := h.step (fun j hj => modify_set_of_ne t i _ hj) (by rw [modify_set_self])
    fun _ _ => .inl
  connect t m _ fd socket _ h :=
    h.step (fun j hj => modify_set_of_ne (t.openSocket fd socket) i _ hj)
      (by rw [Router.connect, modify_set_self]; rfl) fun _ _ => .inl
  learnCookie t m socket _ h := h.step (fun j hj => modify_set_of_ne t i _ hj)
    (by rw [Router.learnCookie, modify_set_self]) fun _ _ => .inl
  note t total h := h.step (fun j hj => modify_set_of_ne t i _ hj) (by rw [modify_set_self])
    fun _ _ => .inl
  placeLifecycle t h := by
    refine h.step (fun j hj => modify_set_of_ne _ i _ hj)
      (by rw [Router.placeLifecycle, modify_set_self]; rfl) fun c l hl => ?_
    rw [Router.placeLifecycle, modify_world] at hl
    by_cases hc : c = (t.set i).cookies 0
    · rw [hc] at hl
      exact .inr (Option.some.inj ((BpfMap.update_self ..).symm.trans hl)).symm
    · exact .inl ((BpfMap.update_ne _ _ hc).symm.trans hl)
  placeRoute t m h := h.step (fun j hj => modify_set_of_ne _ i _ hj)
    (by rw [Router.placeRoute, modify_set_self]; rfl) fun _ _ => .inl
  placeSlot t m socket h := h.step (fun j hj => Function.update_of_ne hj ..)
    (by rw [placeSlot_set]) fun _ _ => .inl

theorem setup_kept (calls : AddCalls) (i : SetIndex) (s : Router) :
    Kept i s (setup calls i s).1 :=
  (setupKeeps_kept calls i s).setup s (.refl i s)

/-- An accept sets up a set that was not allocated, and begins no half-close
on it. -/
theorem add_kept {s : Router} (haccounted : Accounted s.manager) (calls : AddCalls)
    (clientFd : Nat) :
    (∀ j, (addConnectionSet calls clientFd s).1.set j = s.set j) ∧
        (addConnectionSet calls clientFd s).1.world = s.world ∨
      ∃ i, (s.set i).allocated = false ∧ s.manager.retired i = false ∧
        Kept i (s.allocate i clientFd) (addConnectionSet calls clientFd s).1 := by
  rcases add_cases calls s clientFd with ⟨-, heq⟩ | ⟨hpos, htop⟩ | ⟨i, hpos, htop, hcases⟩
  · rw [heq]
    exact .inl ⟨fun j => close_set .., close_world ..⟩
  · exact absurd (haccounted.top_lt hpos) (Nat.not_lt.mpr htop)
  · obtain ⟨ha, hr⟩ := haccounted.pool.top_free (Nat.pos_of_ne_zero hpos) htop
    have hsetup := setup_kept calls i (s.allocate i clientFd)
    refine .inr ⟨i, ha, hr, ?_⟩
    rcases hcases with ⟨-, heq⟩ | ⟨-, heq⟩ <;> rw [heq]
    · generalize (setup calls i (s.allocate i clientFd)).1 = t at hsetup
      have hset : ({ t with manager := t.manager.activate i } : Router).set i =
          { t.set i with active := true } := Function.update_self ..
      exact hsetup.step (fun j hj => Function.update_of_ne hj ..) (by rw [hset]) fun _ _ => .inl
    · exact hsetup.trans (reap_kept calls.reap i _).1

theorem Credited.accept {passed : UInt64 → Nat} {s : Router} (h : Credited passed s)
    (hs : Settled s) {client : Nat × UInt64} {calls : AddCalls}
    (fresh : Fresh s (calls.sockets client)) :
    Credited passed (addConnectionSet calls client.1 (s.openSocket client.1 client.2)).1 := by
  have hsettled := hs.add fresh
  have haccounted : Accounted (s.openSocket client.1 client.2).manager := hs.accounted
  rcases add_kept haccounted calls client.1 with ⟨hsets, hworld⟩ | ⟨i, ha, hr, hkept⟩
  · refine ⟨fun j l h0 hl => ?_, fun j h0 hshut => ?_⟩
    · rw [hsets] at h0 hl ⊢
      rw [hworld] at hl
      exact h.lifecycle j l h0 hl
    · rw [hsets] at h0 hshut ⊢
      exact h.shutdown j h0 hshut
  · generalize (addConnectionSet calls client.1 (s.openSocket client.1 client.2)).1 = t at *
    have hother : ∀ j, j ≠ i → t.set j = s.set j := fun j hj =>
      (hkept.other j hj).trans (Function.update_of_ne hj ..)
    have hblank : (s.set i).cookies 0 = 0 := (hs.clean.owned.blank (i, 0) ha hr).1
    constructor
    · intro j l h0 hl
      rcases hkept.lifecycle _ l hl with hl | rfl
      · -- an entry from before belongs to a set from before
        obtain ⟨k, hk, htracked, -⟩ := hs.clean.owned.lifecycle _ l hl
        have hk0 : (s.set k).cookies 0 ≠ 0 := hs.clean.owned.client_seated k htracked
        have hki : k ≠ i := fun hki => hk0 (hki ▸ hblank)
        have hjk : (j, (0 : Member)) = (k, 0) := hsettled.clean.owned.unique (j, 0) (k, 0)
          (hk.symm.trans (congrArg (fun set => set.cookies 0) (hother k hki)).symm) h0
        obtain rfl : j = k := congrArg Prod.fst hjk
        rw [hother j hki]
        exact h.lifecycle j l hk0 ((congrArg s.world.lifecycle hk).trans hl)
      · exact .empty ..
    · intro j h0 hshut
      rcases eq_or_ne j i with rfl | hne
      · have hreset : ((s.openSocket client.1 client.2).allocate j client.1).set j =
            (s.set j).taken client.1 := Function.update_self ..
        have hbefore := hkept.shutdown hshut
        rw [hreset] at hbefore
        cases hbefore
      · rw [hother j hne] at h0 hshut ⊢
        exact h.shutdown j h0 hshut

/-! ### The programs -/

theorem updateLifecycle_some {w : World} {k c : UInt64} {f : LifecycleState → LifecycleState}
    {l : LifecycleState} (h : (w.updateLifecycle k f).lifecycle c = some l) :
    ∃ l', w.lifecycle c = some l' ∧ (l = l' ∨ c = k ∧ l = f l') := by
  rw [World.updateLifecycle] at h
  cases hk : w.lifecycle k with
  | none =>
      rw [hk] at h
      exact ⟨l, h, .inl rfl⟩
  | some l' =>
      rw [hk] at h
      by_cases hc : c = k
      · subst hc
        exact ⟨l', hk, .inr ⟨rfl, (Option.some.inj ((BpfMap.update_self ..).symm.trans h)).symm⟩⟩
      · exact ⟨l, (BpfMap.update_ne _ _ hc).symm.trans h, .inl rfl⟩

/-- The parser counts no response and notes no forward. -/
theorem parser_credit (pol : Policy) {w : World} {cookie c : UInt64} (skb : List UInt8)
    {l : LifecycleState} (h : (skRouterParser pol w cookie skb).1.lifecycle c = some l) :
    ∃ l', w.lifecycle c = some l' ∧ l.responseBytesForwarded = l'.responseBytesForwarded ∧
      l.requestForwarded = l'.requestForwarded := by
  have hopened : ∀ {l}, ((w.updateLifecycle cookie fun l => { l with
      requestIncomplete := false }).openFlow pol.classifier cookie).1.lifecycle c = some l →
      ∃ l', w.lifecycle c = some l' ∧ l.responseBytesForwarded = l'.responseBytesForwarded ∧
        l.requestForwarded = l'.requestForwarded := by
    intro l hl
    rw [openFlow_lifecycle] at hl
    obtain ⟨l', hl', rfl | ⟨-, rfl⟩⟩ := updateLifecycle_some hl
    · exact ⟨l, hl', rfl, rfl⟩
    · exact ⟨l', hl', rfl, rfl⟩
  rw [skRouterParser] at h
  split_ifs at h
  · exact ⟨l, h, rfl, rfl⟩
  · dsimp only at h
    split_ifs at h
    · obtain ⟨l', hl', rfl | ⟨-, rfl⟩⟩ := updateLifecycle_some h
      · exact hopened hl'
      · obtain ⟨l'', hl'', hsame⟩ := hopened hl'
        exact ⟨l'', hl'', hsame⟩
    · exact hopened h

theorem Credited.parse {passed : UInt64 → Nat} {s : Router} (h : Credited passed s) (pol : Policy)
    (cookie : UInt64) (skb : List UInt8) :
    Credited passed { s with world := (skRouterParser pol s.world cookie skb).1 } := by
  refine ⟨fun i l h0 hl => ?_, h.shutdown⟩
  obtain ⟨l', hl', hresponses, hrequest⟩ := parser_credit pol skb hl
  have hcredit := h.lifecycle i l' h0 hl'
  exact ⟨hresponses ▸ hcredit.responses, fun hf => hcredit.request (hrequest ▸ hf)⟩

/-- What a verdict writes into a lifecycle entry. -/
theorem verdict_credit (pol : Policy) {w : World} {redirect : Nat → Bool} {cookie c : UInt64}
    {skbLen : Nat} {l : LifecycleState}
    (h : (skRouterVerdict pol w redirect cookie skbLen).1.lifecycle c = some l) :
    ∃ l', w.lifecycle c = some l' ∧
      (l.responseBytesForwarded = l'.responseBytesForwarded ∧
          l.requestForwarded = l'.requestForwarded ∨
        ∃ entry, w.routes cookie = some entry ∧ entry.clientCookie = c ∧
          (skRouterVerdict pol w redirect cookie skbLen).2.pass = true ∧
          if entry.backend then l = { l' with
            responseBytesForwarded := u64 (l'.responseBytesForwarded + skbLen) }
          else l = { l' with requestForwarded := true }) := by
  rw [skRouterVerdict] at h ⊢
  cases hroute : w.routes cookie with
  | none =>
      rw [hroute] at h
      exact ⟨l, h, .inl ⟨rfl, rfl⟩⟩
  | some entry =>
      rw [hroute] at h
      dsimp only at h ⊢
      -- a backend's verdict counts bytes, a client's sets the flag
      cases hbackend : entry.backend with
      | true =>
          rw [hbackend, if_pos rfl] at h
          rw [if_pos rfl]
          split_ifs at h ⊢
          · obtain ⟨l', hl', rfl | ⟨rfl, rfl⟩⟩ := updateLifecycle_some h
            · exact ⟨l, hl', .inl ⟨rfl, rfl⟩⟩
            · exact ⟨l', hl', .inr ⟨entry, rfl, rfl, rfl, by rw [hbackend]; rfl⟩⟩
          · exact ⟨l, h, .inl ⟨rfl, rfl⟩⟩
      | false =>
          rw [hbackend, if_neg Bool.false_ne_true] at h
          rw [if_neg Bool.false_ne_true]
          cases hslot : entry.modelSlot
              (modelForRoute pol.decisionRules (classifyRequest w cookie)) with
          | none =>
              rw [hslot] at h
              exact ⟨l, h, .inl ⟨rfl, rfl⟩⟩
          | some slot =>
              rw [hslot] at h
              dsimp only at h ⊢
              split_ifs at h ⊢ with hredirect
              · obtain ⟨l', hl', rfl | ⟨rfl, rfl⟩⟩ := updateLifecycle_some h
                · exact ⟨l, hl', .inl ⟨rfl, rfl⟩⟩
                · exact ⟨l', hl', .inr ⟨entry, rfl, rfl, rfl, by rw [hbackend]; rfl⟩⟩
              · obtain ⟨l', hl', rfl | ⟨rfl, rfl⟩⟩ := updateLifecycle_some h
                · exact ⟨l, hl', .inl ⟨rfl, rfl⟩⟩
                · exact ⟨l', hl', .inl ⟨rfl, rfl⟩⟩

/-- A route that names the client of a set is that of a member of the set. -/
theorem Settled.routed {s : Router} (h : Settled s) {cookie : UInt64} {entry : RouteEntry}
    {i : SetIndex} (hentry : s.world.routes cookie = some entry)
    (hclient : entry.clientCookie = (s.set i).cookies 0) (h0 : (s.set i).cookies 0 ≠ 0) :
    ∃ m, (s.set i).cookies m = cookie ∧ entry = (s.set i).route m := by
  obtain ⟨⟨j, m⟩, hcookie, -, rfl⟩ := h.clean.owned.routes cookie entry hentry
  have hset : (j, (0 : Member)) = (i, 0) := by
    refine h.clean.owned.unique (j, 0) (i, 0) ?_ (fun hzero => h0 ?_)
    · exact (route_client (s.set j) m).2.symm.trans hclient
    · rw [← hclient]
      exact (route_client (s.set j) m).2.trans hzero
  obtain rfl : j = i := congrArg Prod.fst hset
  exact ⟨m, hcookie, rfl⟩

/-- The client has the only route that is not a backend's. -/
theorem route_backend (set : ConnectionSet) (m : Member) :
    (set.route m).backend = true ↔ m ∈ backends := by
  rw [ConnectionSet.route]
  split_ifs with hm
  · subst hm
    exact iff_of_false Bool.false_ne_true (by decide)
  · have hmem : ∀ m : Member, m ≠ 0 → m ∈ backends := by decide
    exact iff_of_true rfl (hmem m hm)

/-- A verdict that passes `skbLen` bytes of a socket. -/
theorem Credited.verdict {passed passed' : UInt64 → Nat} {s : Router} (h : Credited passed s)
    (hs : Settled s) (pol : Policy) {cookie : UInt64} {skbLen : Nat} {redirect : Nat → Bool}
    (pos : 0 < skbLen) (hmono : ∀ c, passed c ≤ passed' c)
    (hpassed : (skRouterVerdict pol s.world redirect cookie skbLen).2.pass = true →
      passed cookie + skbLen ≤ passed' cookie) :
    Credited passed' { s with world := (skRouterVerdict pol s.world redirect cookie skbLen).1 } := by
  refine ⟨fun i l h0 hl => ?_, fun i h0 hshut => (h.shutdown i h0 hshut).trans_le (hmono _)⟩
  obtain ⟨l', hl', ⟨hresponses, hrequest⟩ | ⟨entry, hentry, hclient, hpass, heq⟩⟩ :=
    verdict_credit pol hl
  · have hcredit := (h.lifecycle i l' h0 hl').mono hmono
    exact ⟨hresponses ▸ hcredit.responses, fun hf => hcredit.request (hrequest ▸ hf)⟩
  · have hcredit := h.lifecycle i l' h0 hl'
    obtain ⟨m, hcookie, rfl⟩ := hs.routed hentry hclient h0
    have hgain := hpassed hpass
    rw [← hcookie] at hgain
    by_cases hm : m ∈ backends
    · rw [if_pos ((route_backend _ m).mpr hm)] at heq
      subst heq
      refine ⟨?_, (hcredit.mono hmono).request⟩
      have hsum := sum_map_gain (fun m => hmono ((s.set i).cookies m)) hm hgain
      exact ((Nat.mod_le _ _).trans (Nat.add_le_add_right hcredit.responses skbLen)).trans hsum
    · rw [if_neg (mt (route_backend _ m).mp hm)] at heq
      have hclient : ∀ m : Member, m ∉ backends → m = 0 := by decide
      obtain rfl := hclient m hm
      subst heq
      exact ⟨(hcredit.mono hmono).responses, fun _ => (Nat.lt_add_left _ pos).trans_le hgain⟩

/-! ## Runs -/

/-- What later moves leave true of a stream. -/
structure Stream.Later (t t' : Stream) : Prop where
  arrived : t.arrived ≤ t'.arrived
  passed : t.passed ≤ t'.passed
  fin : t.fin = true → t'.fin = true
  ended : t.ended = true → t'.ended = true ∧ t'.arrived = t.arrived

theorem Stream.Later.refl (t : Stream) : t.Later t :=
  ⟨Nat.le_refl _, Nat.le_refl _, id, fun h => ⟨h, rfl⟩⟩

theorem Stream.later_arrive {t : Stream} (live : t.ended = false) (n : Nat) :
    t.Later { t with arrived := t.arrived + n } := by
  refine ⟨Nat.le_add_right _ n, Nat.le_refl _, id, fun hended => ?_⟩
  rw [live] at hended
  cases hended

theorem Stream.later_fin (t : Stream) : t.Later { t with fin := true } :=
  ⟨Nat.le_refl _, Nat.le_refl _, fun _ => rfl, fun _ => ⟨rfl, rfl⟩⟩

theorem Stream.later_fail (t : Stream) : t.Later { t with failed := true } :=
  ⟨Nat.le_refl _, Nat.le_refl _, id, fun _ => ⟨Bool.or_true _, rfl⟩⟩

theorem Stream.later_take (t : Stream) (taken n : Nat) :
    t.Later { t with taken := taken, passed := t.passed + n } :=
  ⟨Nat.le_refl _, Nat.le_add_right _ _, id, fun hended => ⟨hended, rfl⟩⟩

/-- No byte is taken before it arrives, or passed on before it is taken. -/
structure Stream.Ordered (t : Stream) : Prop where
  passed : t.passed ≤ t.taken
  taken : t.taken ≤ t.arrived

/-- What the answers of a turn say by now. -/
structure Sampled (d : Drain) (t : Turn) : Prop where
  forwarded : t.lifecycle.responseBytesForwarded ≤ d.passed t.set
  polled : ∀ r, t.calls.backendRevents = some r → ∀ m ∈ backends, m ∉ t.unpolled →
    (r m).any = true → (d.member t.set m).ended = true ∧
      ((r m).rdhup = true → (d.member t.set m).fin = true)
  read : ∀ m ∈ backends, m ∉ t.unread → ∀ n, t.calls.bytesReceived m = some n →
    n ≤ (d.member t.set m).bytesReceived ∧
      ∀ r, t.calls.backendRevents = some r → (r m).any = true →
        (d.member t.set m).ended = true ∧ (d.member t.set m).arrived + (r m).rdhup.toNat ≤ n

/-- Traffic takes back no answer. -/
theorem Sampled.later {d d' : Drain} {t : Turn} (h : Sampled d t)
    (sets : (d'.router.set t.set).cookies = (d.router.set t.set).cookies)
    (streams : ∀ c, (d.streams c).Later (d'.streams c)) : Sampled d' t := by
  have hmember : ∀ m, (d.member t.set m).Later (d'.member t.set m) := by
    intro m
    rw [Drain.member, Drain.member, sets]
    exact streams _
  constructor
  · exact h.forwarded.trans (sum_map_mono (fun m => (hmember m).passed) backends)
  · intro r hr m hm hpolled hany
    obtain ⟨hended, hfin⟩ := h.polled r hr m hm hpolled hany
    exact ⟨((hmember m).ended hended).1, fun hrdhup => (hmember m).fin (hfin hrdhup)⟩
  · intro m hm hread n hn
    obtain ⟨hle, hge⟩ := h.read m hm hread n hn
    have hfin : (d.member t.set m).fin.toNat ≤ (d'.member t.set m).fin.toNat :=
      Bool.toNat_le_toNat (hmember m).fin
    refine ⟨hle.trans (Nat.add_le_add (hmember m).arrived hfin), fun r hr hany => ?_⟩
    obtain ⟨hended, hcount⟩ := hge r hr hany
    obtain ⟨hended', harrived⟩ := (hmember m).ended hended
    exact ⟨hended', harrived ▸ hcount⟩

/-- What holds between two moves. -/
structure Flowing (d : Drain) : Prop where
  settled : Settled d.router
  credited : Credited (fun c => (d.streams c).passed) d.router
  ordered : ∀ c, (d.streams c).Ordered
  turn : ∀ t, d.turn = some t → Sampled d t

theorem Stream.Later.of_update {d : Drain} {socket : UInt64} {f : Stream → Stream}
    (h : (d.streams socket).Later (f (d.streams socket))) (c : UInt64) :
    (d.streams c).Later ((d.stream socket f).streams c) := by
  rcases eq_or_ne c socket with rfl | hne
  · rw [d.stream_self]
    exact h
  · rw [d.stream_of_ne f hne]
    exact .refl _

/-- A move of one stream. -/
theorem Flowing.stream {d : Drain} (h : Flowing d) {socket : UInt64} {f : Stream → Stream}
    (later : (d.streams socket).Later (f (d.streams socket)))
    (ordered : (f (d.streams socket)).Ordered) : Flowing (d.stream socket f) where
  settled := h.settled
  credited := h.credited.mono fun c => (Stream.Later.of_update later c).passed
  ordered c := by
    rcases eq_or_ne c socket with rfl | hne
    · rw [d.stream_self]
      exact ordered
    · rw [d.stream_of_ne f hne]
      exact h.ordered c
  turn t ht := (h.turn t ht).later rfl (Stream.Later.of_update later)

/-- A step of the router that leaves the sets alone. -/
theorem Flowing.router {d : Drain} (h : Flowing d) {s : Router} (settled : Settled s)
    (credited : Credited (fun c => (d.streams c).passed) s)
    (sets : d.turn = none ∨ s.manager = d.router.manager) :
    Flowing { d with router := s } where
  settled := settled
  credited := credited
  ordered := h.ordered
  turn t ht := by
    rcases sets with hnone | hsets
    · rw [hnone] at ht
      cases ht
    · refine (h.turn t ht).later ?_ fun c => .refl _
      show (s.manager.sets t.set).cookies = _
      rw [hsets]
      rfl

/-- An entry is that of a client. -/
theorem Settled.client_ne {s : Router} (h : Settled s) {c : UInt64} {l : LifecycleState}
    (hl : s.world.lifecycle c = some l) : c ≠ 0 := by
  obtain ⟨i, hi, htracked, -⟩ := h.clean.owned.lifecycle c l hl
  exact hi ▸ h.clean.owned.client_seated i htracked

/-- An entry that a turn finds is that of a client. -/
theorem Settled.found {s : Router} (h : Settled s) {calls : CheckCalls} {i : SetIndex}
    {l : LifecycleState} (hl : lookupLifecycle calls i s = some l) :
    (s.set i).cookies 0 ≠ 0 ∧ s.world.lifecycle ((s.set i).cookies 0) = some l := by
  rw [lookupLifecycle] at hl
  split_ifs at hl
  exact ⟨h.client_ne hl, hl⟩

theorem Flowing.step {pol : Policy} {d d' : Drain} {e : Move} (h : Flowing d)
    (hstep : DrainStep pol d e d') : Flowing d' := by
  cases hstep with
  | @arrive socket n live =>
      exact h.stream (Stream.later_arrive live n)
        ⟨(h.ordered socket).passed, (h.ordered socket).taken.trans (Nat.le_add_right _ n)⟩
  | fin socket =>
      exact h.stream (Stream.later_fin _)
        ⟨(h.ordered socket).passed, (h.ordered socket).taken⟩
  | fail socket =>
      exact h.stream (Stream.later_fail _)
        ⟨(h.ordered socket).passed, (h.ordered socket).taken⟩
  | traffic he step =>
      have hsettled := step.settled h.settled
      cases step with
      | parse skb attached => exact h.router hsettled (h.credited.parse pol _ skb) (.inr rfl)
      | unlink slot =>
          exact h.router hsettled ⟨h.credited.lifecycle, h.credited.shutdown⟩ (.inr rfl)
      | age grams kept =>
          exact h.router hsettled ⟨h.credited.lifecycle, h.credited.shutdown⟩ (.inr rfl)
      | _ => exact he.elim
  | @verdict cookie skbLen redirect pos room step =>
      have hsettled := step.settled h.settled
      have hflow := @Flowing.stream d h cookie (fun t => { t with
          taken := t.taken + skbLen
          passed := t.passed + if (skRouterVerdict pol d.router.world redirect cookie
            skbLen).2.pass then skbLen else 0 })
        (Stream.later_take ..) ⟨?_, room⟩
      · refine hflow.router hsettled ?_ (.inr rfl)
        refine h.credited.verdict h.settled pol pos (fun c => ?_) fun hpass => ?_
        · show (d.streams c).passed ≤ ((d.stream cookie _).streams c).passed
          rcases eq_or_ne c cookie with rfl | hne
          · rw [d.stream_self]
            exact Nat.le_add_right _ _
          · rw [d.stream_of_ne _ hne]
        · exact (verdict_passed hpass).ge
      · have := (h.ordered cookie).passed
        dsimp only
        split_ifs <;> omega
  | control idle he step =>
      have hsettled := step.settled h.settled
      cases step with
      | accept fresh => exact h.router hsettled (h.credited.accept h.settled fresh) (.inl idle)
      | reap i calls => exact h.router hsettled (h.credited.reap i calls) (.inl idle)
      | check calls active => exact h.router hsettled (h.credited.check he) (.inl idle)
      | destroy calls => exact h.router hsettled (h.credited.destroy calls) (.inl idle)
      | _ => exact he.elim
  | @look i calls info lifecycle idle active drains =>
      have hnoted := stable_settled.notePeerClosed (i := i) h.settled
      have hcredited := h.credited.notePeerClosed i
      obtain ⟨h0, hfound⟩ := hnoted.found drains.found
      have hcredit := hcredited.lifecycle i lifecycle h0 hfound
      refine ⟨stable_settled.beginDrain hnoted,
        hcredited.beginDrain i (hcredit.request drains.forwarded), h.ordered, ?_⟩
      rintro t ⟨rfl⟩
      refine ⟨?_, fun r _ m hm hpolled => absurd hm hpolled, fun m hm hread => absurd hm hread⟩
      -- what the map had counted by then; nothing is polled or read yet
      refine hcredit.responses.trans_eq ?_
      rw [Drain.passed]
      dsimp only [Drain.member]
      rw [beginDrain_cookies]
  | @poll t m ms turn next report =>
      have hsampled := h.turn t turn
      refine ⟨h.settled, h.credited, h.ordered, ?_⟩
      rintro t' ⟨rfl⟩
      refine ⟨hsampled.forwarded, fun r hr m' hm' hpolled hany => ?_, hsampled.read⟩
      -- the member polled just now, or one polled before
      by_cases hsame : m' = m
      · subst hsame
        have hreport := report r hr
        exact ⟨hreport.ended hany, fun hrdhup => hreport.rdhup ▸ hrdhup⟩
      · refine hsampled.polled r hr m' hm' ?_ hany
        rw [next]
        exact List.not_mem_cons_of_ne_of_not_mem hsame hpolled
  | @read t m ms turn polled next report =>
      have hsampled := h.turn t turn
      refine ⟨h.settled, h.credited, h.ordered, ?_⟩
      rintro t' ⟨rfl⟩
      refine ⟨hsampled.forwarded, hsampled.polled, fun m' hm' hread n hn => ?_⟩
      by_cases hsame : m' = m
      · subst hsame
        have hreport := report n hn
        refine ⟨hreport.le, fun r hr hany => ?_⟩
        -- every poll is done, so its report about this member is in
        obtain ⟨hended, hfin⟩ := hsampled.polled r hr m' hm'
          (by rw [polled]; exact List.not_mem_nil) hany
        refine ⟨hended, ?_⟩
        rw [hreport]
        exact Nat.add_le_add_left (Bool.toNat_le_toNat hfin) _
      · refine hsampled.read m' hm' ?_ n hn
        rw [next]
        exact List.not_mem_cons_of_ne_of_not_mem hsame hread
  | @settle t turn polled read =>
      refine ⟨?_, ?_, h.ordered, fun t' ht' => by cases ht'⟩
      · exact stable_settled.settle h.settled t
      · dsimp only [Turn.settle]
        split_ifs
        · exact h.credited.reap _ _
        · exact h.credited.confirmDrain _ _

theorem initial_flowing (grams : QueryGrams) : Flowing (Drain.initial grams) where
  settled := initial_settled grams
  credited := ⟨fun _ _ h0 => absurd rfl h0, fun _ h0 => absurd rfl h0⟩
  ordered _ := ⟨Nat.le_refl _, Nat.le_refl _⟩
  turn _ ht := by cases ht

/-! ## The counters -/

/-- Once all backends have ended, the FINs are counted. -/
theorem backendResponsesComplete_some {r : Member → Revents} {fins : Nat}
    (h : backendResponsesComplete (some r) = some fins) :
    (∀ m ∈ backends, (r m).any = true) ∧ fins = (backends.map fun m => (r m).rdhup.toNat).sum := by
  have hfold : ∀ (ms : List Member) (a b : Nat), ms.foldlM
      (fun fins m => if !(r m).any then none else some (if (r m).rdhup then fins + 1 else fins)) a
        = some b →
      (∀ m ∈ ms, (r m).any = true) ∧ b = a + (ms.map fun m => (r m).rdhup.toNat).sum := by
    intro ms
    induction ms with
    | nil =>
        intro a b hb
        cases hb
        exact ⟨fun _ hm => absurd hm List.not_mem_nil, rfl⟩
    | cons m ms ih =>
        intro a b hb
        rw [List.foldlM_cons] at hb
        cases hany : (r m).any with
        | false =>
            rw [hany] at hb
            cases hb
        | true =>
            rw [hany] at hb
            obtain ⟨hrest, rfl⟩ := ih _ b hb
            rw [List.map_cons, List.sum_cons]
            refine ⟨List.forall_mem_cons.mpr ⟨hany, hrest⟩, ?_⟩
            cases (r m).rdhup with
            | false => simp
            | true => simp [Nat.add_assoc]
  obtain ⟨hany, hfins⟩ := hfold backends 0 fins h
  exact ⟨hany, hfins.trans (Nat.zero_add _)⟩

/-- The counters of the backends are all read, and added on 64 bits. -/
theorem backendBytesReceived_some {f : Member → Option Nat} {total : Nat}
    (h : backendBytesReceived f = some total) :
    (∀ m ∈ backends, f m = some ((f m).getD 0)) ∧
      total = u64 (backends.map fun m => (f m).getD 0).sum := by
  have hfold : ∀ (ms : List Member) (a b : Nat),
      ms.foldlM (fun total m => (f m).map fun n => u64 (total + n)) (u64 a) = some b →
      (∀ m ∈ ms, f m = some ((f m).getD 0)) ∧ b = u64 (a + (ms.map fun m => (f m).getD 0).sum) := by
    intro ms
    induction ms with
    | nil =>
        intro a b hb
        cases hb
        exact ⟨fun _ hm => absurd hm List.not_mem_nil, rfl⟩
    | cons m ms ih =>
        intro a b hb
        rw [List.foldlM_cons] at hb
        cases hf : f m with
        | none =>
            rw [hf] at hb
            cases hb
        | some n =>
            rw [hf] at hb
            have hadd : u64 (u64 a + n) = u64 (a + n) := Nat.mod_add_mod a _ n
            obtain ⟨hrest, rfl⟩ := ih (a + n) b (hadd ▸ hb)
            rw [List.map_cons, List.sum_cons, hf, Option.getD_some, Nat.add_assoc]
            refine ⟨List.forall_mem_cons.mpr ⟨?_, hrest⟩, rfl⟩
            rw [hf, Option.getD_some]
  obtain ⟨hread, htotal⟩ := hfold backends 0 total h
  exact ⟨hread, htotal.trans (congrArg u64 (Nat.zero_add _))⟩

/-- What the test of a drained set compares, past its guard. -/
theorem drained_parts {calls : CheckCalls} {info : TcpInfo} {set : ConnectionSet}
    {lifecycle : LifecycleState} (h : drained calls info set lifecycle = true) :
    ∃ r fins received, calls.backendRevents = some r ∧
      backendResponsesComplete (some r) = some fins ∧
      backendBytesReceived calls.bytesReceived = some received ∧
      subU64 (subU64 received set.initialBackendBytesReceived) fins
        ≤ lifecycle.responseBytesForwarded := by
  rw [drained] at h
  split at h
  · rename_i fins received hfins hreceived
    cases hr : calls.backendRevents with
    | none =>
        rw [hr] at hfins
        cases hfins
    | some r =>
        simp only [Bool.and_eq_true, decide_eq_true_eq] at h
        exact ⟨r, fins, received, rfl, hr ▸ hfins, hreceived, h.1.1.2⟩
  · cases h

/-- A response byte that came in and was not counted as forwarded was counted
by the baseline. -/
theorem arrived_le_of_counters {arrived baseline fins received forwarded : Nat}
    (hsmall : received < 18446744073709551616) (hread : arrived + fins ≤ received)
    (hcount : subU64 (subU64 received baseline) fins ≤ forwarded) :
    arrived ≤ forwarded + baseline := by
  rw [subU64, subU64] at hcount
  by_cases hbaseline : arrived ≤ baseline
  · omega
  · omega

/-- A turn that reaps has found that all backends have ended, and that what
their counters gained over the baseline was forwarded. -/
theorem Flowing.counted {d : Drain} (h : Flowing d) {t : Turn} (turn : d.turn = some t)
    (polled : t.unpolled = []) (read : t.unread = []) (reaps : t.reaps d.router = true)
    (small : (backends.map fun m => (d.member t.set m).bytesReceived).sum
      < 18446744073709551616) :
    (∀ m ∈ backends, (d.member t.set m).ended = true) ∧
      d.arrived t.set ≤ t.lifecycle.responseBytesForwarded +
        (d.router.set t.set).initialBackendBytesReceived := by
  have hsampled := h.turn t turn
  obtain ⟨hdrained, -⟩ := (Bool.and_eq_true _ _).mp reaps
  obtain ⟨r, fins, received, hr, hfins, hreceived, hcount⟩ := drained_parts hdrained
  obtain ⟨hany, rfl⟩ := backendResponsesComplete_some hfins
  obtain ⟨hread, rfl⟩ := backendBytesReceived_some hreceived
  have hnone : ∀ {l : List Member} {m : Member}, l = [] → m ∉ l := fun hl =>
    hl ▸ List.not_mem_nil
  have hanswer := fun m (hm : m ∈ backends) => hsampled.read m hm (hnone read) _ (hread m hm)
  have hbound : (backends.map fun m => (t.calls.bytesReceived m).getD 0).sum
      < 18446744073709551616 :=
    (List.sum_le_sum fun m hm => (hanswer m hm).1).trans_lt small
  have harrived : d.arrived t.set + (backends.map fun m => (r m).rdhup.toNat).sum
      ≤ (backends.map fun m => (t.calls.bytesReceived m).getD 0).sum := by
    rw [Drain.arrived, ← List.sum_map_add]
    exact List.sum_le_sum fun m hm => ((hanswer m hm).2 r hr (hany m hm)).2
  have htotal : u64 (backends.map fun m => (t.calls.bytesReceived m).getD 0).sum = _ :=
    Nat.mod_eq_of_lt hbound
  rw [htotal] at hcount
  exact ⟨fun m hm => (hsampled.polled r hr m hm (hnone polled) (hany m hm)).1,
    arrived_le_of_counters hbound harrived hcount⟩

section Reap
variable {pol : Policy} {grams : QueryGrams} {ms : List Move} {d : Drain}

/-- **A drained reap loses no response.** However data, FINs, verdicts and
the reads of the timer interleave: when a turn ends with the reap of a
drained set, all its backends have ended, and of the bytes they sent at most
those that the baseline counted were not passed to the client. -/
theorem drained_forwards_all (run : Run (DrainStep pol) (Drain.initial grams) ms d) {t : Turn}
    (turn : d.turn = some t) (polled : t.unpolled = []) (read : t.unread = [])
    (reaps : t.reaps d.router = true)
    (small : (backends.map fun m => (d.member t.set m).bytesReceived).sum
      < 18446744073709551616) :
    (∀ m ∈ backends, (d.member t.set m).ended = true) ∧
      d.arrived t.set ≤ d.passed t.set + (d.router.set t.set).initialBackendBytesReceived ∧
      ((d.router.set t.set).initialBackendBytesReceived = 0 → ∀ m ∈ backends,
        (d.member t.set m).passed = (d.member t.set m).arrived) := by
  have h := run.invariant (initial_flowing grams) fun _ _ _ h hstep => h.step hstep
  obtain ⟨hended, hcounted⟩ := h.counted turn polled read reaps small
  have hall : d.arrived t.set ≤ d.passed t.set +
      (d.router.set t.set).initialBackendBytesReceived :=
    hcounted.trans (Nat.add_le_add_right (h.turn t turn).forwarded _)
  refine ⟨hended, hall, fun hzero m hm => ?_⟩
  have hle : ∀ m, (d.member t.set m).passed ≤ (d.member t.set m).arrived := fun m =>
    (h.ordered _).passed.trans (h.ordered _).taken
  refine Nat.le_antisymm (hle m) (Nat.le_of_not_lt fun hlt => ?_)
  -- a byte that was not passed on would be missing in the sum
  have hmissing : d.passed t.set + 1 ≤ d.arrived t.set := sum_map_gain hle hm hlt
  rw [hzero] at hall
  omega

/-- **The half-close waits for a request**: in every state of every run, the
backends of a set in use are shut down for writing only when bytes of its
client were passed to one of them. -/
theorem half_close_after_request (run : Run (DrainStep pol) (Drain.initial grams) ms d)
    {i : SetIndex} (used : (d.router.set i).allocated = true)
    (shut : (d.router.set i).backendWritesShutdown = true) : 0 < (d.member i 0).passed := by
  have h := run.invariant (initial_flowing grams) fun _ _ _ h hstep => h.step hstep
  exact h.credited.shutdown i ((h.settled.complete i used).cookie 0) shut

end Reap

/-! ## One drained client -/

/-- The client has closed its side and every backend sent a FIN; the first
sent two bytes before it. -/
def drainedCalls : CheckCalls where
  revents := ⟨true, false, false, false⟩
  clientInfo := some ⟨2, 0, 0⟩
  lookupFault := false
  backendRevents := some fun _ => ⟨true, false, false, false⟩
  bytesReceived := fun m => some (if m = 1 then 3 else 1)
  reap := cleanReap

/-- Payload arrives. -/
def Drain.arrive (d : Drain) (socket : UInt64) (n : Nat) : Drain :=
  d.stream socket fun t => { t with arrived := t.arrived + n }

/-- A FIN arrives. -/
def Drain.close (d : Drain) (socket : UInt64) : Drain :=
  d.stream socket fun t => { t with fin := true }

/-- One accepted client. -/
def acceptedDrain : Drain :=
  { Drain.initial idleWorld.grams with router := acceptedRouter idleWorld.grams }

/-- The client sends a byte. -/
def askedDrain : Drain := (acceptedDrain.arrive 100 1).verdict installedPolicy (· == 3) 100 1

/-- Its backend answers with two, and all backends end. -/
def answeredDrain : Drain :=
  [101, 102, 103, 104, 105].foldl Drain.close
    ((askedDrain.arrive 101 2).verdict installedPolicy (· == 0) 101 2)

/-- The client's connection was found drained once. -/
def confirmedDrain : Drain :=
  { answeredDrain with
    router := checkSet drainedCalls firstSet answeredDrain.router
    turn := none }

theorem closes_run (pol : Policy) : ∀ (sockets : List UInt64) (d : Drain),
    Run (DrainStep pol) d (sockets.map .fin) (sockets.foldl Drain.close d)
  | [], _ => .nil
  | socket :: sockets, d =>
      (Run.single (.fin socket)).append (closes_run pol sockets (d.close socket))

/-- A redirect to one slot that is occupied. -/
theorem occupied_of_eq {s : Router} {slot : Nat} (h : (s.sockMap slot).isSome = true) :
    ∀ target, (target == slot) = true → (s.sockMap target).isSome = true := by
  intro target htarget
  rw [beq_iff_eq.mp htarget]
  exact h

theorem accepted_step : DrainStep installedPolicy (Drain.initial idleWorld.grams)
    (.event (.accept (10, 100) openCalls)) acceptedDrain :=
  @DrainStep.control _ _ (.accept (10, 100) openCalls) _ rfl trivial
    (@Step.accept _ _ (10, 100) openCalls (openCalls_fresh _))

theorem answered_run : ∃ ms, Run (DrainStep installedPolicy) acceptedDrain ms answeredDrain := by
  have hask : DrainStep installedPolicy (acceptedDrain.arrive 100 1) _ askedDrain :=
    .verdict (by decide) (by decide +kernel)
      (@Step.verdict _ _ 100 0 1 _ (by decide +kernel) (occupied_of_eq (by decide +kernel)))
  have hanswer : DrainStep installedPolicy (askedDrain.arrive 101 2) _
      ((askedDrain.arrive 101 2).verdict installedPolicy (· == 0) 101 2) :=
    .verdict (by decide) (by decide +kernel)
      (@Step.verdict _ _ 101 1 2 _ (by decide +kernel) (occupied_of_eq (by decide +kernel)))
  exact ⟨_, ((((Run.single (.arrive 1 rfl)).snoc hask).snoc
    (.arrive 2 (by decide +kernel))).snoc hanswer).append (closes_run _ _ _)⟩

/-- The kernel's answers are true of backends that have all closed. -/
theorem closed_answers {d : Drain} {calls : CheckCalls}
    (revents : calls.backendRevents = drainedCalls.backendRevents)
    (hmember : ∀ m ∈ backends, (d.member firstSet m).fin = true ∧
      calls.bytesReceived m = some (d.member firstSet m).bytesReceived) :
    (∀ r, calls.backendRevents = some r → ∀ m ∈ backends, (d.member firstSet m).Reports (r m)) ∧
      ∀ m ∈ backends, ∀ n, calls.bytesReceived m = some n →
        n = (d.member firstSet m).bytesReceived := by
  constructor
  · rw [revents]
    rintro r ⟨rfl⟩ m hm
    exact ⟨(hmember m hm).1.symm, fun h => by cases h⟩
  · exact fun m hm n hn => Option.some.inj (hn.symm.trans (hmember m hm).2)

theorem confirmed_run :
    ∃ ms, Run (DrainStep installedPolicy) acceptedDrain ms confirmedDrain := by
  obtain ⟨ms, run⟩ := answered_run
  have hdrains : Drains drainedCalls firstSet answeredDrain.router ⟨2, 0, 0⟩
      ⟨2, 0, true, false, false⟩ :=
    ⟨rfl, rfl, rfl, by decide, by decide +kernel, rfl⟩
  obtain ⟨hreports, hreads⟩ := @closed_answers answeredDrain drainedCalls rfl (by decide +kernel)
  exact ⟨_, run.append (hdrains.check_run _ (by decide +kernel) (by decide +kernel) hreports hreads)⟩

/-- The turn that will find the connection drained again. -/
def closingTurn : Turn :=
  ⟨firstSet, drainedCalls, ⟨2, 0, 0⟩, ⟨2, 0, true, false, false⟩, [], []⟩

/-- The end of that turn. -/
def closingDrain : Drain :=
  { confirmedDrain with
    router := beginDrain firstSet (notePeerClosed firstSet confirmedDrain.router)
    turn := some closingTurn }

theorem closing_run : ∃ ms, Run (DrainStep installedPolicy) acceptedDrain ms closingDrain := by
  obtain ⟨ms, run⟩ := confirmed_run
  have hdrains : Drains drainedCalls firstSet confirmedDrain.router ⟨2, 0, 0⟩
      ⟨2, 0, true, false, false⟩ :=
    ⟨rfl, rfl, rfl, by decide, by decide +kernel, rfl⟩
  obtain ⟨hreports, hreads⟩ := @closed_answers confirmedDrain drainedCalls rfl (by decide +kernel)
  exact ⟨_, run.append (hdrains.turn_run _ rfl (by decide +kernel) hreports hreads)⟩

/-- The two bytes reach the client before its set is reaped. -/
theorem drained_forwards_all_two : closingTurn.reaps closingDrain.router = true ∧
    ∀ m ∈ backends, (closingDrain.member firstSet m).passed =
      (closingDrain.member firstSet m).arrived := by
  obtain ⟨ms, run⟩ := closing_run
  have hreaps : closingTurn.reaps closingDrain.router = true := by decide +kernel
  have hall := drained_forwards_all ((Run.single accepted_step).append run) (t := closingTurn)
    rfl rfl rfl hreaps (by decide +kernel)
  exact ⟨hreaps, hall.2.2 (by decide +kernel)⟩

/-- The backends of the client are shut down after its byte was passed. -/
theorem half_close_after_request_one : 0 < (confirmedDrain.member firstSet 0).passed := by
  obtain ⟨ms, run⟩ := confirmed_run
  exact half_close_after_request ((Run.single accepted_step).append run) (by decide +kernel)
    (by decide +kernel)

end Xsr.Connection
