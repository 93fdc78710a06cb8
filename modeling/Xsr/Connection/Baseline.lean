import Xsr.Connection.Enrolment

/-!
# Baseline — the bytes that were there before the client

`add_connection_set` notes what the counters of the backends say before the
first request can reach them, and the timer subtracts the note. A FIN that
came earlier is counted in the note, and the timer subtracts it again: then a
byte of another backend may be missing.
-/

namespace Xsr.Connection

open Kernel Lib Parsing Xsr.System

/-! ## The note of an accept -/

section Accept
variable {s : Router} (hs : Settled s) {client : Nat × UInt64} {calls : AddCalls}
  (fresh : Fresh s (calls.sockets client))

include hs fresh

end Accept

/-! ## What the timer reads grows -/

theorem DrainStep.later {pol : Policy} {d d' : Drain} {e : Move} (hstep : DrainStep pol d e d')
    (c : UInt64) : (d.streams c).Later (d'.streams c) := by
  cases hstep with
  | arrive n live => exact .of_update (Stream.later_arrive live n) c
  | fin socket => exact .of_update (Stream.later_fin _) c
  | fail socket => exact .of_update (Stream.later_fail _) c
  | @verdict cookie skbLen redirect pos room step =>
      have hpassed := Stream.later_take (d.streams cookie) ((d.streams cookie).taken + skbLen)
        (if (skRouterVerdict pol d.router.world redirect cookie skbLen).2.pass then skbLen else 0)
      exact @Stream.Later.of_update d cookie (fun t => { t with
        taken := t.taken + skbLen
        passed := t.passed + if (skRouterVerdict pol d.router.world redirect cookie
          skbLen).2.pass then skbLen else 0 }) hpassed c
  | _ => exact .refl _

/-- What a set has passed on grows while it keeps its cookies. -/
theorem passed_mono {d d' : Drain} {i : SetIndex}
    (streams : ∀ c, (d.streams c).Later (d'.streams c))
    (sets : (d'.router.set i).cookies = (d.router.set i).cookies) : d.passed i ≤ d'.passed i := by
  refine sum_map_mono (fun m => ?_) backends
  rw [Drain.member, Drain.member, sets]
  exact (streams _).passed

section Entries
variable {w : World} {c : UInt64} {l : LifecycleState}

theorem updateLifecycle_ne_none {k : UInt64} {f : LifecycleState → LifecycleState}
    (h : w.lifecycle c ≠ none) : (w.updateLifecycle k f).lifecycle c ≠ none := by
  rw [World.updateLifecycle]
  cases hk : w.lifecycle k with
  | none => exact h
  | some l =>
      rcases eq_or_ne c k with rfl | hne
      · exact (BpfMap.update_self ..).trans_ne (Option.some_ne_none _)
      · exact (BpfMap.update_ne _ _ hne).trans_ne h

/-- The parser takes no entry away. -/
theorem parser_found (pol : Policy) {cookie : UInt64} (skb : List UInt8)
    (h : w.lifecycle c = some l) :
    ∃ l', (skRouterParser pol w cookie skb).1.lifecycle c = some l' ∧
      l'.responseBytesForwarded = l.responseBytesForwarded := by
  have hopened : ((w.updateLifecycle cookie fun l => { l with
      requestIncomplete := false }).openFlow pol.classifier cookie).1.lifecycle c ≠ none := by
    rw [openFlow_lifecycle]
    exact updateLifecycle_ne_none (h.trans_ne (Option.some_ne_none l))
  have hfound : (skRouterParser pol w cookie skb).1.lifecycle c ≠ none := by
    rw [skRouterParser]
    split_ifs
    · exact h.trans_ne (Option.some_ne_none l)
    · dsimp only
      split_ifs
      · exact updateLifecycle_ne_none hopened
      · exact hopened
  obtain ⟨l', hl'⟩ := Option.ne_none_iff_exists'.mp hfound
  obtain ⟨l'', hl'', hsame, -⟩ := parser_credit pol skb hl'
  obtain rfl := Option.some.inj (hl''.symm.trans h)
  exact ⟨l', hl', hsame⟩

/-- A verdict takes no entry away, and counts the bytes of a backend that it
passes. -/
theorem verdict_found (pol : Policy) (redirect : Nat → Bool) (cookie : UInt64) (skbLen : Nat)
    (h : w.lifecycle c = some l) :
    ∃ l', (skRouterVerdict pol w redirect cookie skbLen).1.lifecycle c = some l' ∧
      (l'.responseBytesForwarded = l.responseBytesForwarded ∨
        ∃ entry, w.routes cookie = some entry ∧ entry.clientCookie = c ∧ entry.backend = true ∧
          (skRouterVerdict pol w redirect cookie skbLen).2.pass = true ∧
          l'.responseBytesForwarded = u64 (l.responseBytesForwarded + skbLen)) := by
  have hsome : w.lifecycle c ≠ none := h.trans_ne (Option.some_ne_none l)
  have hfound : (skRouterVerdict pol w redirect cookie skbLen).1.lifecycle c ≠ none := by
    rw [skRouterVerdict]
    cases w.routes cookie with
    | none => exact hsome
    | some entry =>
        dsimp only
        split_ifs
        · exact updateLifecycle_ne_none hsome
        · exact hsome
        · split
          · exact hsome
          · split_ifs <;> exact updateLifecycle_ne_none hsome
  obtain ⟨l', hl'⟩ := Option.ne_none_iff_exists'.mp hfound
  obtain ⟨l'', hl'', ⟨hsame, -⟩ | ⟨entry, hentry, hclient, hpass, heq⟩⟩ := verdict_credit pol hl'
  · obtain rfl := Option.some.inj (hl''.symm.trans h)
    exact ⟨l', hl', .inl hsame⟩
  · obtain rfl := Option.some.inj (hl''.symm.trans h)
    refine ⟨l', hl', ?_⟩
    split_ifs at heq with hbackend
    · exact .inr ⟨entry, hentry, hclient, hbackend, hpass, heq ▸ rfl⟩
    · exact .inl (heq ▸ rfl)

end Entries

/-- The entry of the client counts at least what the turn has read, as long
as no counter wraps. -/
def Ahead (d : Drain) : Prop :=
  ∀ t, d.turn = some t → ∃ l, d.router.world.lifecycle ((d.router.set t.set).cookies 0) = some l ∧
    (d.passed t.set < 18446744073709551616 →
      t.lifecycle.responseBytesForwarded ≤ l.responseBytesForwarded)

theorem Ahead.step {pol : Policy} {d d' : Drain} {e : Move} (hd : Flowing d) (h : Ahead d)
    (hstep : DrainStep pol d e d') : Ahead d' := by
  have hlater := hstep.later
  cases hstep with
  | traffic he step =>
      intro t ht
      obtain ⟨l, hl, hle⟩ := h t ht
      cases step with
      | parse skb attached =>
          obtain ⟨l', hl', hsame⟩ := parser_found pol skb hl
          exact ⟨l', hl', fun hsmall => hsame ▸ hle hsmall⟩
      | unlink slot => exact ⟨l, hl, hle⟩
      | age grams kept => exact ⟨l, hl, hle⟩
      | _ => exact he.elim
  | @verdict cookie skbLen redirect pos room step =>
      intro t ht
      obtain ⟨l, hl, hle⟩ := h t ht
      obtain ⟨l', hl', hcount⟩ := verdict_found pol redirect cookie skbLen hl
      refine ⟨l', hl', fun hsmall => ?_⟩
      have hpassed : d.passed t.set ≤ (d.verdict pol redirect cookie skbLen).passed t.set :=
        passed_mono hlater rfl
      have hbefore := hle (hpassed.trans_lt hsmall)
      rcases hcount with hsame | ⟨entry, hentry, hclient, hbackend, hpass, hcount⟩
      · exact hsame ▸ hbefore
      · -- the counter gains what the socket passed on, which is below the bound
        have h0 := hd.settled.client_ne hl
        obtain ⟨m, hcookie, rfl⟩ := hd.settled.routed hentry hclient h0
        have hcredit := (hd.credited.lifecycle t.set l h0 hl).responses
        have hgain : d.passed t.set + skbLen ≤
            (d.verdict pol redirect cookie skbLen).passed t.set := by
          refine sum_map_gain (fun m => (hlater _).passed) ((route_backend _ m).mp hbackend) ?_
          show (d.streams ((d.router.set t.set).cookies m)).passed + skbLen ≤
            ((d.verdict pol redirect cookie skbLen).streams ((d.router.set t.set).cookies m)).passed
          rw [hcookie]
          exact (verdict_passed hpass).ge
        -- so the counter does not wrap here
        have hfits : l.responseBytesForwarded + skbLen < 18446744073709551616 :=
          ((Nat.add_le_add_right hcredit skbLen).trans hgain).trans_lt hsmall
        rw [hcount, u64, Nat.mod_eq_of_lt hfits]
        exact hbefore.trans (Nat.le_add_right _ _)
  | control idle he step => exact fun t ht => absurd (idle.symm.trans ht) (Option.some_ne_none t).symm
  | @look i calls info lifecycle idle active drains =>
      rintro t ⟨rfl⟩
      obtain ⟨-, hfound⟩ := (stable_settled.notePeerClosed hd.settled).found drains.found
      refine ⟨lifecycle, ?_, fun _ => Nat.le_refl _⟩
      dsimp only
      rw [beginDrain_cookies, beginDrain_world]
      exact hfound
  | @poll t m ms turn next report =>
      rintro t' ⟨rfl⟩
      exact h t turn
  | @read t m ms turn polled next report =>
      rintro t' ⟨rfl⟩
      exact h t turn
  | settle turn polled read => exact fun t ht => by cases ht
  | _ =>
      intro t ht
      obtain ⟨l, hl, hle⟩ := h t ht
      exact ⟨l, hl, fun hsmall => hle ((passed_mono hlater rfl).trans_lt hsmall)⟩

/-! ## Runs -/

section Drained
variable {pol : Policy} {grams : QueryGrams} {fd : Nat} {client : UInt64} {calls : AddCalls}
  {base : Member → Stream} {accepted reaped : Drain} {t : Turn}

end Drained

/-! ## A backend that sends -/

end Xsr.Connection
