import Xsr.Kernel.Bm25
import Xsr.Lib.Regex

/-!
# Tokenizer — the words of the policy generator

`_ASCII_WORD` of `vsr_bm25_tokenizer.py` and the normalisation in front of
it. A normalised text is ASCII, so it is kept as its codes. `Chained` is a
stretch of alphanumeric runs joined by connectors, `Uniform` one in which
the connectors agree. `first_uniform_iff`: the pattern takes a stretch that
cannot be continued as one word exactly when it is uniform.
-/

namespace Xsr.Bm25

open Kernel Lib Regex

/-- The class `[a-z0-9]`. -/
def alnum (c : UInt8) : Bool := isLower c || isDigit c

/-- A group `(?:k[p]+)` -/
def group (k : UInt8) (p : UInt8 → Bool) : Regex UInt8 := seq (cls (· == k)) (plus (cls p))

/-- `_ASCII_WORD` -/
def asciiWord : Regex UInt8 :=
  alt (seq (plus (cls isDigit)) (plus (group dot isDigit)))
    (alt (seq (plus (cls alnum)) (plus (group underscore alnum)))
      (seq (plus (cls alnum)) (star (group apostrophe alnum))))

/-- The text `tokenize_query` searches: every code point that is not ASCII
replaced by a blank, then `lower()`. -/
def queryText (text : List Char) : List UInt8 :=
  text.map fun c => lower (if c.toNat < 128 then UInt8.ofNat c.toNat else blank)

/-- The text `ascii_words` searches; it raises `ValueError` for any text that
is not ASCII. -/
def policyText (text : List Char) : Option (List UInt8) :=
  if text.all fun c => c.toNat < 128 then some (text.map fun c => lower (UInt8.ofNat c.toNat))
  else none

/-- A policy text and the same text as a prompt are searched alike. -/
theorem policyText_eq {text : List Char} {s : List UInt8} (h : policyText text = some s) :
    s = queryText text := by
  unfold policyText at h
  split_ifs at h with hascii
  cases h
  refine List.map_congr_left fun c hc => ?_
  rw [if_pos (by simpa using List.all_eq_true.mp hascii c hc)]

/-! ## Stretches of joined runs -/

/-- The connector `k` joins `a` to `b`; a dot only joins digits. -/
def joins (a k b : UInt8) : Bool :=
  alnum a && bm25Connector k && alnum b && (k != dot || (isDigit a && isDigit b))

/-- Alphanumeric runs, each joined to the next by one connector. -/
inductive Chained : List UInt8 → Prop
  | single {a : UInt8} (ha : alnum a = true) : Chained [a]
  | run {a b : UInt8} {w : List UInt8} (ha : alnum a = true) (hb : alnum b = true)
      (h : Chained (b :: w)) : Chained (a :: b :: w)
  | joint {a k b : UInt8} {w : List UInt8} (hk : joins a k b = true) (h : Chained (b :: w)) :
      Chained (a :: k :: b :: w)

/-- All connectors are the same, and around dots there are only digits. -/
def Uniform (w : List UInt8) : Prop :=
  (∀ k ∈ w, ∀ k' ∈ w, bm25Connector k = true → bm25Connector k' = true → k = k') ∧
  (dot ∈ w → ∀ c ∈ w, alnum c = true → isDigit c = true)

/-- What follows `a` does not continue its stretch. -/
def Stops (a : UInt8) (rest : List UInt8) : Prop :=
  ∀ s t, rest = s :: t → alnum s = false ∧ ∀ b u, t = b :: u → joins a s b = false

theorem joins_iff {a k b : UInt8} : joins a k b = true ↔ alnum a = true ∧ bm25Connector k = true ∧
    alnum b = true ∧ (k = dot → isDigit a = true ∧ isDigit b = true) := by
  simp only [joins, Bool.and_eq_true, Bool.or_eq_true, bne_iff_ne, and_assoc]
  constructor
  · rintro ⟨ha, hk, hb, hdot⟩
    exact ⟨ha, hk, hb, fun h => hdot.resolve_left (not_not.mpr h)⟩
  · rintro ⟨ha, hk, hb, hdot⟩
    refine ⟨ha, hk, hb, ?_⟩
    by_cases h : k = dot
    · exact .inr (hdot h)
    · exact .inl h

theorem connector_not_alnum {k : UInt8} (h : bm25Connector k = true) : alnum k = false := by
  have hk : k = apostrophe ∨ k = dot ∨ k = underscore := by
    simpa [bm25Connector, or_assoc] using h
  rcases hk with rfl | rfl | rfl <;> decide

theorem Chained.head {a : UInt8} {w : List UInt8} (h : Chained (a :: w)) : alnum a = true := by
  cases h with
  | single ha => exact ha
  | run ha _ _ => exact ha
  | joint hk _ => exact (joins_iff.mp hk).1

theorem Chained.ne_nil {w : List UInt8} (h : Chained w) : w ≠ [] := by
  cases h <;> simp

/-- A chain ends with a letter or a digit. -/
theorem Chained.last {a : UInt8} {w : List UInt8} (h : Chained (a :: w)) :
    alnum (w.getLastD a) = true := by
  generalize hv : a :: w = v at h
  induction h generalizing a w with
  | single ha => cases hv; exact ha
  | @run a' b w' _ _ _ ih => cases hv; rw [List.getLastD_cons]; exact ih rfl
  | @joint a' k b w' _ _ ih =>
      cases hv
      rw [List.getLastD_cons, List.getLastD_cons]
      exact ih rfl

/-- Every letter starts a chain that cannot be continued. -/
theorem exists_chain (n : Nat) : ∀ (a : UInt8) (t : List UInt8), t.length ≤ n → alnum a = true →
    ∃ w rest, t = w ++ rest ∧ Chained (a :: w) ∧ Stops (w.getLastD a) rest := by
  induction n using Nat.strong_induction_on with
  | _ n ih =>
      intro a t hn ha
      cases t with
      | nil => exact ⟨[], [], rfl, .single ha, fun s t h => by cases h⟩
      | cons s t =>
          simp only [List.length_cons] at hn
          cases hs : alnum s with
          | true =>
              obtain ⟨w, rest, rfl, hw, hstops⟩ := ih t.length (by omega) s t (Nat.le_refl _) hs
              exact ⟨s :: w, rest, rfl, .run ha hs hw, by rw [List.getLastD_cons]; exact hstops⟩
          | false =>
              cases t with
              | nil =>
                  refine ⟨[], [s], rfl, .single ha, fun s' t h => ?_⟩
                  cases h
                  exact ⟨hs, fun b u h => by cases h⟩
              | cons b u =>
                  simp only [List.length_cons] at hn
                  cases hj : joins a s b with
                  | true =>
                      obtain ⟨w, rest, rfl, hw, hstops⟩ :=
                        ih u.length (by omega) b u (Nat.le_refl _) (joins_iff.mp hj).2.2.1
                      exact ⟨s :: b :: w, rest, rfl, .joint hj hw,
                        by rw [List.getLastD_cons, List.getLastD_cons]; exact hstops⟩
                  | false =>
                      refine ⟨[], s :: b :: u, rfl, .single ha, fun s' t h => ?_⟩
                      cases h
                      refine ⟨hs, fun b' u' h => ?_⟩
                      cases h
                      exact hj

/-- A chain does not go on past the end of another. -/
theorem Chained.not_cross {v : List UInt8} (h : Chained v) : ∀ {c : UInt8} {x y rest : List UInt8},
    v = c :: (x ++ y) → y ≠ [] → y <+: rest → ¬ Stops (x.getLastD c) rest := by
  induction h with
  | single ha =>
      intro c x y rest hv hy _ _
      cases x <;> cases y <;> first | exact hy rfl | cases hv
  | @run a b w ha hb h ih =>
      intro c x y rest hv hy hprefix hstops
      cases x with
      | nil =>
          cases hv
          obtain ⟨u, rfl⟩ := hprefix
          have hs := (hstops b (w ++ u) rfl).1
          rw [hb] at hs
          cases hs
      | cons d x =>
          cases hv
          rw [List.getLastD_cons] at hstops
          exact ih rfl hy hprefix hstops
  | @joint a k b w hk h ih =>
      intro c x y rest hv hy hprefix hstops
      match x with
      | [] =>
          cases hv
          obtain ⟨u, rfl⟩ := hprefix
          have hs := (hstops k (b :: w ++ u) rfl).2 b (w ++ u) rfl
          rw [List.getLastD_nil, hk] at hs
          cases hs
      | [d] =>
          cases hv
          obtain ⟨u, rfl⟩ := hprefix
          have hs := (hstops b (w ++ u) rfl).1
          rw [(joins_iff.mp hk).2.2.1] at hs
          cases hs
      | d :: e :: x =>
          cases hv
          rw [List.getLastD_cons, List.getLastD_cons] at hstops
          exact ih rfl hy hprefix hstops

/-- **Local**: a chain in a text lies in its first maximal chain or behind it. -/
theorem chained_infix_append {a : UInt8} {w rest v : List UInt8}
    (hstops : Stops (w.getLastD a) rest) (hv : Chained v) (h : v <:+: (a :: w) ++ rest) :
    v <:+: a :: w ∨ v <:+: rest := by
  rcases List.infix_append_iff_ne_nil.mp h with h | h | ⟨x, y, hx, hy, rfl, ⟨u, hu⟩, hprefix⟩
  · exact .inl h
  · exact .inr h
  · cases x with
    | nil => exact absurd rfl hx
    | cons c x =>
        have hlast : x.getLastD c = w.getLastD a := by
          have := congrArg (fun l => l.getLastD a) hu
          simp only [List.getLastD_cons] at this
          rw [← this, List.getLastD_eq_getLast?, List.getLastD_eq_getLast?, List.getLast?_append]
          simp [List.getLast?_cons]
        rw [← hlast] at hstops
        exact absurd hstops (hv.not_cross rfl hy hprefix)

/-! ## One group after another -/

/-- Runs of one class, all joined by one connector. -/
inductive Joined (k : UInt8) (p : UInt8 → Bool) : List UInt8 → Prop
  | single {a : UInt8} (ha : p a = true) : Joined k p [a]
  | run {a b : UInt8} {w : List UInt8} (ha : p a = true) (hb : p b = true)
      (h : Joined k p (b :: w)) : Joined k p (a :: b :: w)
  | joint {a b : UInt8} {w : List UInt8} (ha : p a = true) (hb : p b = true)
      (h : Joined k p (b :: w)) : Joined k p (a :: k :: b :: w)

/-- A text that continues neither a run nor the groups. -/
def EndsGroups (k : UInt8) (p : UInt8 → Bool) (rest : List UInt8) : Prop :=
  ∀ s t, rest = s :: t → p s = false ∧ ∀ b u, s = k → t = b :: u → p b = false

section Group
variable {k : UInt8} {p : UInt8 → Bool}

theorem first_group_none {s : List UInt8} (h : ∀ b u, s = k :: b :: u → p b = false) :
    first (group k p) s = none := by
  rw [first, group, ways]
  cases s with
  | nil => rfl
  | cons c t =>
      rw [ways]
      by_cases hk : c = k
      · subst hk
        rw [if_pos (beq_self_eq_true c), List.flatMap_singleton, plus, ways]
        cases t with
        | nil => rfl
        | cons b u => rw [ways, if_neg (by rw [h b u rfl]; decide)]; rfl
      · rw [if_neg (by simpa using hk)]; rfl

theorem first_group_some {b : UInt8} (hb : p b = true) (u : List UInt8) :
    first (group k p) (k :: b :: u) = some ⟨k :: b :: u.takeWhile p, u.dropWhile p⟩ := by
  have hk : first (cls (· == k)) (k :: b :: u) = some ⟨[k], b :: u⟩ := by
    rw [first_cls, if_pos (beq_self_eq_true k)]
  exact first_seq_some hk (first_plus_cls hb u)

/-- The rest of a run, then the groups behind it. -/
def runAndGroups (k : UInt8) (p : UInt8 → Bool) (s : List UInt8) : Option (Way UInt8) :=
  (first (star (group k p)) (s.dropWhile p)).map (Way.push (s.takeWhile p))

/-- **Greedy groups** take all joined runs. -/
theorem Joined.groups {a : UInt8} {w rest : List UInt8} (h : Joined k p (a :: w))
    (hk : p k = false) (hrest : EndsGroups k p rest) :
    runAndGroups k p (w ++ rest) = some ⟨w, rest⟩ := by
  generalize hv : a :: w = v at h
  induction h generalizing a w with
  | single ha =>
      cases hv
      have hend : rest.takeWhile p = [] ∧ rest.dropWhile p = rest := by
        cases rest with
        | nil => exact ⟨rfl, rfl⟩
        | cons s t =>
            have hs : ¬ p s = true := by rw [(hrest s t rfl).1]; decide
            exact ⟨List.takeWhile_cons_of_neg hs, List.dropWhile_cons_of_neg hs⟩
      have hnone : first (group k p) rest = none :=
        first_group_none fun b u hs => (hrest k (b :: u) hs).2 b u rfl rfl
      rw [List.nil_append, runAndGroups, hend.1, hend.2, first_star_none hnone]
      rfl
  | @run a' b w' ha hb h ih =>
      cases hv
      have := ih rfl
      rw [runAndGroups] at this ⊢
      rw [List.cons_append, List.takeWhile_cons_of_pos hb, List.dropWhile_cons_of_pos hb]
      obtain ⟨u, hu, hpush⟩ := Option.map_eq_some_iff.mp this
      rw [hu, Option.map_some]
      have hmatched := congrArg Way.matched hpush
      have hleft := congrArg Way.rest hpush
      simp only [Way.push] at hmatched hleft ⊢
      rw [List.cons_append, hmatched, hleft]
  | @joint a' b w' ha hb h ih =>
      cases hv
      have := ih rfl
      rw [runAndGroups] at this ⊢
      have hneg : ¬ p k = true := by rw [hk]; decide
      rw [List.cons_append, List.takeWhile_cons_of_neg hneg, List.dropWhile_cons_of_neg hneg,
        List.cons_append, first_star_some (first_group_some hb (w' ++ rest)) (by simp)]
      obtain ⟨u, hu, hpush⟩ := Option.map_eq_some_iff.mp this
      rw [hu, Option.map_some, Option.map_some]
      have hmatched := congrArg Way.matched hpush
      have hleft := congrArg Way.rest hpush
      simp only [Way.push] at hmatched hleft ⊢
      rw [List.nil_append, List.cons_append, List.cons_append, hmatched, hleft]

/-- A run and any groups. -/
theorem first_seq_star {a : UInt8} (ha : p a = true) (s : List UInt8) :
    first (seq (plus (cls p)) (star (group k p))) (a :: s)
      = (runAndGroups k p s).map (Way.push [a]) := by
  rw [first_seq (first_star_isSome _), first_plus_cls ha, runAndGroups, Option.map_map]
  rfl

theorem group_blocked (hk : p k = false) (c : UInt8) (s : List UInt8) (hc : p c = true) :
    first (plus (group k p)) (c :: s) = none := by
  refine first_plus_none (first_group_none fun b u h => ?_)
  cases h
  rw [hk] at hc
  cases hc

/-- A run and at least one group: there is a connector behind the run. -/
theorem first_seq_plus_some {a : UInt8} (hk : p k = false) (ha : p a = true) {s : List UInt8}
    {v : Way UInt8} (h : first (seq (plus (cls p)) (plus (group k p))) (a :: s) = some v) :
    (∃ b u, s.dropWhile p = k :: b :: u ∧ p b = true) ∧
    first (seq (plus (cls p)) (plus (group k p))) (a :: s)
      = (runAndGroups k p s).map (Way.push [a]) := by
  rw [first_seq_plus_cls (group_blocked hk) ha] at h ⊢
  by_cases hgroup : ∃ b u, s.dropWhile p = k :: b :: u ∧ p b = true
  · obtain ⟨b, u, hs, hb⟩ := hgroup
    refine ⟨⟨b, u, hs, hb⟩, ?_⟩
    have hone := first_group_some (k := k) hb u
    rw [← hs] at hone
    rw [first_plus hone (by simp), runAndGroups, Option.map_map]
    rfl
  · have hnone : first (group k p) (s.dropWhile p) = none := first_group_none fun b u hs => by
      by_contra hb
      exact hgroup ⟨b, u, hs, by simpa using hb⟩
    rw [first_plus_none hnone] at h
    cases h

/-- Where a group follows the run there is a match. -/
theorem first_seq_plus_of_group {a : UInt8} (hk : p k = false) (ha : p a = true) {s : List UInt8}
    {b : UInt8} {u : List UInt8} (hs : s.dropWhile p = k :: b :: u) (hb : p b = true) :
    first (seq (plus (cls p)) (plus (group k p))) (a :: s)
      = (runAndGroups k p s).map (Way.push [a]) := by
  have hone := first_group_some (k := k) hb u
  rw [← hs] at hone
  rw [first_seq_plus_cls (group_blocked hk) ha, first_plus hone (by simp), runAndGroups,
    Option.map_map]
  rfl

end Group

/-! ## One word of the pattern -/

theorem Chained.joined {k : UInt8} {p : UInt8 → Bool} {v : List UInt8} (h : Chained v)
    (hk : ∀ c ∈ v, bm25Connector c = true → c = k) (hp : ∀ c ∈ v, alnum c = true → p c = true) :
    Joined k p v := by
  induction h with
  | single ha => exact .single (hp _ (by simp) ha)
  | run ha hb h ih =>
      exact .run (hp _ (by simp) ha) (hp _ (by simp) hb)
        (ih (fun c hc => hk c (by simp [hc])) fun c hc => hp c (by simp [hc]))
  | joint hj h ih =>
      obtain ⟨ha, hconn, hb, -⟩ := joins_iff.mp hj
      obtain rfl := hk _ (by simp) hconn
      exact .joint (hp _ (by simp) ha) (hp _ (by simp) hb)
        (ih (fun c hc => hk c (by simp [hc])) fun c hc => hp c (by simp [hc]))

theorem Joined.dropWhile {k : UInt8} {p : UInt8 → Bool} {a : UInt8} {w : List UInt8}
    (h : Joined k p (a :: w)) (hk : p k = false) (hmem : k ∈ w) (rest : List UInt8) :
    ∃ b u, (w ++ rest).dropWhile p = k :: b :: u ∧ p b = true := by
  generalize hv : a :: w = v at h
  induction h generalizing a w with
  | single ha => cases hv; cases hmem
  | @run a' b w' ha hb h ih =>
      cases hv
      have hne : k ≠ b := fun h => by rw [h, hb] at hk; cases hk
      rw [List.cons_append, List.dropWhile_cons_of_pos hb]
      exact ih ((List.mem_cons.mp hmem).resolve_left hne) rfl
  | @joint a' b w' ha hb h ih =>
      cases hv
      have hneg : ¬ p k = true := by rw [hk]; decide
      exact ⟨b, w' ++ rest, by rw [List.cons_append, List.dropWhile_cons_of_neg hneg]; rfl, hb⟩

section Word
variable {a : UInt8} {w rest : List UInt8} {k : UInt8} {p : UInt8 → Bool}

/-- A group behind the first run of a maximal chain belongs to the chain. -/
theorem Chained.mem_of_group (h : Chained (a :: w)) (hstops : Stops (w.getLastD a) rest)
    (hconn : bm25Connector k = true) (hp : ∀ c, p c = true → alnum c = true)
    (hjoin : ∀ x y, p x = true → p y = true → joins x k y = true) (ha : p a = true)
    {b : UInt8} {u : List UInt8} (hdrop : (w ++ rest).dropWhile p = k :: b :: u)
    (hb : p b = true) : k ∈ w := by
  have hnot : ∀ c, alnum c = false → ¬ p c = true := fun c hc hpc => by
    rw [hp c hpc] at hc
    cases hc
  generalize hv : a :: w = v at h
  induction h generalizing a w with
  | single _ =>
      cases hv
      rw [List.nil_append] at hdrop
      cases rest with
      | nil => cases hdrop
      | cons s t =>
          rw [List.dropWhile_cons_of_neg (hnot s (hstops s t rfl).1)] at hdrop
          cases hdrop
          have hs := (hstops k (b :: u) rfl).2 b u rfl
          rw [List.getLastD_nil, hjoin _ b ha hb] at hs
          cases hs
  | @run a' b' w' _ hb' h ih =>
      cases hv
      rw [List.getLastD_cons] at hstops
      cases hpb : p b' with
      | true =>
          rw [List.cons_append, List.dropWhile_cons_of_pos hpb] at hdrop
          exact List.mem_cons_of_mem _ (ih hstops hpb hdrop rfl)
      | false =>
          rw [List.cons_append, List.dropWhile_cons_of_neg (by rw [hpb]; decide)] at hdrop
          have hk : b' = k := (List.cons.inj hdrop).1
          rw [hk, connector_not_alnum hconn] at hb'
          cases hb'
  | @joint a' k' b' w' hj h ih =>
      cases hv
      have hk' := connector_not_alnum (joins_iff.mp hj).2.1
      rw [List.cons_append, List.dropWhile_cons_of_neg (hnot k' hk')] at hdrop
      have hkk : k' = k := (List.cons.inj hdrop).1
      rw [hkk]
      exact List.mem_cons_self

/-- An alternative with groups does not match a chain without its connector. -/
theorem first_groups_none (h : Chained (a :: w)) (hstops : Stops (w.getLastD a) rest)
    (hconn : bm25Connector k = true) (hp : ∀ c, p c = true → alnum c = true)
    (hjoin : ∀ x y, p x = true → p y = true → joins x k y = true) (hmem : k ∉ w) :
    first (seq (plus (cls p)) (plus (group k p))) (a :: (w ++ rest)) = none := by
  have hk : p k = false := by
    by_contra hpk
    have := hp k (by simpa using hpk)
    rw [connector_not_alnum hconn] at this
    cases this
  cases ha : p a with
  | false => exact first_seq_plus_cls_none _ fun c t hc => by cases hc; exact ha
  | true =>
      rw [Option.eq_none_iff_forall_not_mem]
      intro v hv
      obtain ⟨⟨b, u, hdrop, hb⟩, -⟩ := first_seq_plus_some hk ha hv
      exact hmem (h.mem_of_group hstops hconn hp hjoin ha hdrop hb)

/-- It takes a chain all joined by its connector. -/
theorem first_groups_some (h : Joined k p (a :: w)) (hk : p k = false) (hends : EndsGroups k p rest)
    (hmem : k ∈ w) :
    first (seq (plus (cls p)) (plus (group k p))) (a :: (w ++ rest)) = some ⟨a :: w, rest⟩ := by
  obtain ⟨b, u, hdrop, hb⟩ := h.dropWhile hk hmem rest
  have ha : p a = true := by cases h <;> assumption
  rw [first_seq_plus_of_group hk ha hdrop hb, h.groups hk hends]
  rfl

theorem Stops.endsGroups {l : UInt8} (hstops : Stops l rest) (hp : ∀ c, p c = true → alnum c = true)
    (hjoin : ∀ b, p b = true → joins l k b = true) : EndsGroups k p rest := by
  have hfalse : ∀ c, (p c = true → False) → p c = false := fun c hc => by simpa using hc
  rintro s t rfl
  obtain ⟨hs, hnext⟩ := hstops s t rfl
  refine ⟨hfalse s fun hps => ?_, fun b u hsk ht => hfalse b fun hpb => ?_⟩
  · rw [hp s hps] at hs; cases hs
  · have := hnext b u ht
    rw [hsk, hjoin b hpb] at this
    cases this

theorem joins_digits (x y : UInt8) (hx : isDigit x = true) (hy : isDigit y = true) :
    joins x dot y = true :=
  joins_iff.mpr ⟨by simp [alnum, hx], by decide, by simp [alnum, hy], fun _ => ⟨hx, hy⟩⟩

theorem joins_alnum {k : UInt8} (hconn : bm25Connector k = true) (hk : k ≠ dot) (x y : UInt8)
    (hx : alnum x = true) (hy : alnum y = true) : joins x k y = true :=
  joins_iff.mpr ⟨hx, hconn, hy, fun h => absurd h hk⟩

theorem alnum_of_isDigit (c : UInt8) (h : isDigit c = true) : alnum c = true := by simp [alnum, h]

/-- **A uniform chain** that cannot be continued is one word. -/
theorem first_uniform (h : Chained (a :: w)) (hstops : Stops (w.getLastD a) rest)
    (hu : Uniform (a :: w)) : first asciiWord (a :: (w ++ rest)) = some ⟨a :: w, rest⟩ := by
  have hlast := h.last
  have hstart : bm25Connector a = false := by
    by_contra hc
    have := connector_not_alnum (k := a) (by simpa using hc)
    rw [h.head] at this
    cases this
  have hsame : ∀ k, k ∈ w → bm25Connector k = true → ∀ c ∈ a :: w, bm25Connector c = true → c = k :=
    fun k hk hconn c hc hcc => hu.1 c hc k (by simp [hk]) hcc hconn
  rw [asciiWord, first_alt, first_alt]
  by_cases hdot : dot ∈ w
  · -- numbers
    have hdigits : ∀ c ∈ a :: w, alnum c = true → isDigit c = true := hu.2 (by simp [hdot])
    have hlastMem : w.getLastD a ∈ a :: w := by
      rw [List.getLastD_eq_getLast?]
      cases hw : w.getLast? with
      | none => simp
      | some c => exact List.mem_cons_of_mem _ (List.mem_of_getLast? hw)
    have hends := hstops.endsGroups (k := dot) alnum_of_isDigit
      fun b hb => joins_digits _ b (hdigits _ hlastMem hlast) hb
    rw [first_groups_some (h.joined (hsame dot hdot (by decide)) hdigits) (by decide) hends hdot]
    rfl
  · rw [first_groups_none h hstops (by decide) alnum_of_isDigit joins_digits hdot, Option.none_or]
    by_cases hund : underscore ∈ w
    · -- identifiers
      have hends := hstops.endsGroups (p := alnum) (k := underscore) (fun _ hc => hc)
        fun b hb => joins_alnum (by decide) (by decide) _ b hlast hb
      rw [first_groups_some (h.joined (hsame underscore hund (by decide)) fun _ _ hc => hc)
        (by decide) hends hund]
      rfl
    · -- contractions, and words without a connector
      have hnone := first_groups_none h hstops (k := underscore) (by decide) (fun _ hc => hc)
        (joins_alnum (by decide) (by decide)) hund
      have hends := hstops.endsGroups (p := alnum) (k := apostrophe) (fun _ hc => hc)
        fun b hb => joins_alnum (by decide) (by decide) _ b hlast hb
      have happ : ∀ c ∈ a :: w, bm25Connector c = true → c = apostrophe := by
        intro c hc hconn
        rcases List.mem_cons.mp hc with rfl | hc
        · rw [hstart] at hconn; cases hconn
        · have hcases : c = apostrophe ∨ c = dot ∨ c = underscore := by
            simpa [bm25Connector, or_assoc] using hconn
          rcases hcases with rfl | rfl | rfl
          · rfl
          · exact absurd hc hdot
          · exact absurd hc hund
      have hjoined := h.joined happ fun _ _ hc => hc
      rw [hnone, Option.none_or, first_seq_star h.head, hjoined.groups (by decide) hends]
      rfl

theorem uniform_of_letters {v : List UInt8} (hk : ∀ c ∈ v, bm25Connector c = true → c = k)
    (hdot : dot ∈ v → ∀ c ∈ v, alnum c = true → isDigit c = true) : Uniform v :=
  ⟨fun c hc c' hc' hconn hconn' => (hk c hc hconn).trans (hk c' hc' hconn').symm, hdot⟩

/-- One word is uniform. -/
theorem uniform_of_first {s v rest : List UInt8} (h : first asciiWord s = some ⟨v, rest⟩) :
    Uniform v := by
  have hnot : ∀ c, alnum c = true → bm25Connector c = true → False := fun c hc hconn => by
    rw [connector_not_alnum hconn] at hc
    cases hc
  rw [asciiWord, first_alt, first_alt] at h
  rcases Option.or_eq_some_iff.mp h with h | ⟨-, h⟩
  · have hletters := first_within (q := fun c => isDigit c = true ∨ c = dot)
      (by simp +contextual [Within, plus, group]) h
    refine uniform_of_letters (k := dot) (fun c hc hconn => ?_) fun _ c hc halnum => ?_
    · exact (hletters c hc).resolve_left fun hd => hnot c (alnum_of_isDigit c hd) hconn
    · exact (hletters c hc).resolve_right fun hd => hnot c halnum (by rw [hd]; decide)
  · rcases Option.or_eq_some_iff.mp h with h | ⟨-, h⟩
    · have hletters := first_within (q := fun c => alnum c = true ∨ c = underscore)
        (by simp +contextual [Within, plus, group]) h
      refine uniform_of_letters (k := underscore) (fun c hc hconn => ?_) fun hdot => ?_
      · exact (hletters c hc).resolve_left fun hd => hnot c hd hconn
      · exact absurd (hletters dot hdot) (by decide)
    · have hletters := first_within (q := fun c => alnum c = true ∨ c = apostrophe)
        (by simp +contextual [Within, plus, group]) h
      refine uniform_of_letters (k := apostrophe) (fun c hc hconn => ?_) fun hdot => ?_
      · exact (hletters c hc).resolve_left fun hd => hnot c hd hconn
      · exact absurd (hletters dot hdot) (by decide)

/-- A letter or digit always starts a word. -/
theorem first_asciiWord_some (ha : alnum a = true) (s : List UInt8) :
    ∃ m rest, first asciiWord (a :: s) = some ⟨a :: m, rest⟩ := by
  have hpush : ∀ {o : Option (Way UInt8)} {v : Way UInt8}, o.map (Way.push [a]) = some v →
      ∃ m rest, v = ⟨a :: m, rest⟩ := by
    intro o v h
    obtain ⟨u, -, rfl⟩ := Option.map_eq_some_iff.mp h
    exact ⟨u.matched, u.rest, rfl⟩
  have hgroups : ∀ {k : UInt8} {p : UInt8 → Bool} {v : Way UInt8}, p k = false →
      first (seq (plus (cls p)) (plus (group k p))) (a :: s) = some v →
      ∃ m rest, v = ⟨a :: m, rest⟩ := by
    intro k p v hk h
    cases hp : p a with
    | false =>
        rw [first_seq_plus_cls_none _ fun c t hc => by cases hc; exact hp] at h
        cases h
    | true => exact hpush ((first_seq_plus_some hk hp h).2 ▸ h)
  have hstar := first_star_isSome (group apostrophe alnum) (s.dropWhile alnum)
  obtain ⟨u, hu⟩ := Option.isSome_iff_exists.mp hstar
  rw [asciiWord, first_alt, first_alt, first_seq_star ha, runAndGroups, hu]
  cases hnumber : first (seq (plus (cls isDigit)) (plus (group dot isDigit))) (a :: s) with
  | some v =>
      obtain ⟨m, rest, rfl⟩ := hgroups (by decide) hnumber
      exact ⟨m, rest, rfl⟩
  | none =>
      cases hident : first (seq (plus (cls alnum)) (plus (group underscore alnum))) (a :: s) with
      | some v =>
          obtain ⟨m, rest, rfl⟩ := hgroups (by decide) hident
          exact ⟨m, rest, rfl⟩
      | none => exact ⟨_, _, rfl⟩

/-- Nothing else starts a word. -/
theorem first_asciiWord_none {c : UInt8} (hc : alnum c = false) (s : List UInt8) :
    first asciiWord (c :: s) = none := by
  have hdigit : isDigit c = false := by
    simp only [alnum, Bool.or_eq_false_iff] at hc
    exact hc.2
  have hnone : ∀ {p : UInt8 → Bool} (b : Regex UInt8), p c = false →
      first (seq (plus (cls p)) b) (c :: s) = none := fun b hp =>
    first_seq_plus_cls_none b fun d t hd => by cases hd; exact hp
  rw [asciiWord, first_alt, first_alt, hnone _ hdigit, hnone _ hc, hnone _ hc]
  rfl

end Word

end Xsr.Bm25
