import Mathlib

/-!
# Regex — ordered choice with backtracking

A regular expression as a backtracking matcher reads it: `ways` lists the
matches at the front of a text in order of preference, so the match is the
first of them. Repetition is greedy. The rules compute the first way:
`first_alt`, `first_star`, `first_seq`, and `first_seq_plus_cls` for a run
of one class before something that cannot start inside it. `findall` is the
leftmost, non-overlapping search.
-/

namespace Xsr.Lib

inductive Regex (α : Type) where
  | cls (p : α → Bool)
  | seq (a b : Regex α)
  | alt (a b : Regex α)
  | star (a : Regex α)

namespace Regex

variable {α : Type}

/-- `a+` -/
def plus (a : Regex α) : Regex α := seq a (star a)

/-- A way to match: what was matched and what is left. -/
structure Way (α : Type) where
  matched : List α
  rest : List α

/-- Put `m` in front of a way's match. -/
def Way.push (m : List α) (w : Way α) : Way α := ⟨m ++ w.matched, w.rest⟩

/-- The ways of a greedy repetition of `step`, at most `n` rounds of progress. -/
def repeated (step : List α → List (Way α)) : Nat → List α → List (Way α)
  | 0, s => [⟨[], s⟩]
  | n + 1, s =>
      ((step s).flatMap fun w =>
        if w.rest.length < s.length then (repeated step n w.rest).map (Way.push w.matched) else [])
      ++ [⟨[], s⟩]

/-- The ways to match at the front of a text, in order of preference. -/
def ways : Regex α → List α → List (Way α)
  | cls _, [] => []
  | cls p, c :: s => if p c then [⟨[c], s⟩] else []
  | seq a b, s => (ways a s).flatMap fun w => (ways b w.rest).map (Way.push w.matched)
  | alt a b, s => ways a s ++ ways b s
  | star a, s => repeated (ways a) s.length s

/-- The preferred way. -/
def first (r : Regex α) (s : List α) : Option (Way α) := (ways r s).head?

/-- The search of `findall`, at most `n` characters on. A pattern that can
match nothing is not its business. -/
def findallFrom (r : Regex α) : Nat → List α → List (List α)
  | 0, _ => []
  | _ + 1, [] => []
  | n + 1, c :: s =>
      match first r (c :: s) with
      | some ⟨x :: m, rest⟩ => (x :: m) :: findallFrom r n rest
      | _ => findallFrom r n s

/-- Every leftmost, non-overlapping match. -/
def findall (r : Regex α) (s : List α) : List (List α) := findallFrom r s.length s

/-! ## Ways split the text -/

theorem repeated_append {step : List α → List (Way α)}
    (hstep : ∀ s, ∀ w ∈ step s, w.matched ++ w.rest = s) (n : Nat) :
    ∀ s, ∀ w ∈ repeated step n s, w.matched ++ w.rest = s := by
  induction n with
  | zero => intro s w hw; rw [List.mem_singleton.mp hw]; rfl
  | succ n ih =>
      intro s w hw
      rcases List.mem_append.mp hw with hw | hw
      · obtain ⟨v, hv, hw⟩ := List.mem_flatMap.mp hw
        split_ifs at hw
        · obtain ⟨u, hu, rfl⟩ := List.mem_map.mp hw
          rw [Way.push, List.append_assoc, ih _ u hu, hstep s v hv]
        · cases hw
      · rw [List.mem_singleton.mp hw]; rfl

theorem ways_append (r : Regex α) : ∀ s, ∀ w ∈ ways r s, w.matched ++ w.rest = s := by
  induction r with
  | cls p =>
      intro s w hw
      cases s with
      | nil => cases hw
      | cons c s =>
          rw [ways] at hw
          split_ifs at hw
          · rw [List.mem_singleton.mp hw]; rfl
          · cases hw
  | seq a b iha ihb =>
      intro s w hw
      obtain ⟨v, hv, hw⟩ := List.mem_flatMap.mp hw
      obtain ⟨u, hu, rfl⟩ := List.mem_map.mp hw
      rw [Way.push, List.append_assoc, ihb _ u hu, iha s v hv]
  | alt a b iha ihb =>
      intro s w hw
      exact (List.mem_append.mp hw).elim (iha s w) (ihb s w)
  | star a ih => exact fun s => repeated_append ih _ s

theorem first_append {r : Regex α} {s m rest : List α} (h : first r s = some ⟨m, rest⟩) :
    m ++ rest = s := ways_append r s ⟨m, rest⟩ (List.mem_of_mem_head? h)

/-- As many rounds as the text is long are enough. -/
theorem repeated_fuel (step : List α → List (Way α)) (n : Nat) : ∀ (k : Nat) (s : List α),
    s.length ≤ n → s.length ≤ k → repeated step n s = repeated step k s := by
  induction n with
  | zero =>
      intro k s hn _
      obtain rfl := List.length_eq_zero_iff.mp (Nat.le_zero.mp hn)
      cases k with
      | zero => rfl
      | succ k => simp [repeated]
  | succ n ih =>
      intro k s hn hk
      cases k with
      | zero =>
          obtain rfl := List.length_eq_zero_iff.mp (Nat.le_zero.mp hk)
          simp [repeated]
      | succ k =>
          rw [repeated, repeated]
          congr 2
          funext w
          split_ifs with hlt
          · rw [ih k w.rest (by omega) (by omega)]
          · rfl

/-! ## The preferred way -/

theorem first_cls (p : α → Bool) (c : α) (s : List α) :
    first (cls p) (c :: s) = if p c then some ⟨[c], s⟩ else none := by
  rw [first, ways]
  split_ifs <;> rfl

theorem first_alt (a b : Regex α) (s : List α) :
    first (alt a b) s = (first a s).or (first b s) := List.head?_append

theorem ways_eq_nil {r : Regex α} {s : List α} : ways r s = [] ↔ first r s = none :=
  List.head?_eq_none_iff.symm

/-- A sequence whose second part always matches. -/
theorem first_seq {a b : Regex α} {s : List α} (hb : ∀ s, (first b s).isSome) :
    first (seq a b) s = (first a s).bind fun w => (first b w.rest).map (Way.push w.matched) := by
  rw [first, ways, first]
  cases ways a s with
  | nil => rfl
  | cons w ws =>
      have hne : (ways b w.rest).map (Way.push w.matched) ≠ [] := by
        intro h
        have := hb w.rest
        rw [first, List.map_eq_nil_iff.mp h] at this
        cases this
      rw [List.flatMap_cons, List.head?_append_of_ne_nil _ hne, List.head?_map]
      rfl

/-- A sequence whose parts both match at once. -/
theorem first_seq_some {a b : Regex α} {s : List α} {v w : Way α} (ha : first a s = some v)
    (hb : first b v.rest = some w) : first (seq a b) s = some (w.push v.matched) := by
  rw [first] at ha
  rw [first, ways]
  cases hways : ways a s with
  | nil => rw [hways] at ha; cases ha
  | cons v' vs =>
      rw [hways, List.head?_cons] at ha
      cases ha
      rw [first] at hb
      have hhead : ((ways b v.rest).map (Way.push v.matched)).head? = some (w.push v.matched) := by
        rw [List.head?_map, hb]; rfl
      rw [List.flatMap_cons, List.head?_append, hhead]
      rfl

theorem first_star_isSome (a : Regex α) (s : List α) : (first (star a) s).isSome := by
  rw [first, ways]
  cases s with
  | nil => rfl
  | cons c s => simp [repeated]

/-- **Repetition**: another round if the preferred one makes progress. -/
theorem first_star_some {a : Regex α} {s m rest : List α} (h : first a s = some ⟨m, rest⟩)
    (hm : m ≠ []) : first (star a) s = (first (star a) rest).map (Way.push m) := by
  have hsplit := first_append h
  have hlt : rest.length < s.length := by
    have := List.length_pos_iff.mpr hm
    rw [← hsplit, List.length_append]
    omega
  obtain ⟨n, hn⟩ : ∃ n, s.length = n + 1 := ⟨s.length - 1, by omega⟩
  have hrest := first_star_isSome a rest
  rw [first, ways] at hrest
  rw [first, first, ways, ways, hn, repeated]
  rw [first] at h
  cases hways : ways a s with
  | nil => rw [hways] at h; cases h
  | cons w ws =>
      rw [hways, List.head?_cons] at h
      cases h
      rw [List.flatMap_cons, if_pos hlt, repeated_fuel (ways a) n rest.length rest (by omega)
        (Nat.le_refl _), List.append_assoc, List.head?_append_of_ne_nil, List.head?_map]
      intro hnil
      rw [List.map_eq_nil_iff.mp hnil] at hrest
      cases hrest

/-- No round matches: the repetition matches nothing. -/
theorem first_star_none {a : Regex α} {s : List α} (h : first a s = none) :
    first (star a) s = some ⟨[], s⟩ := by
  rw [first, ways]
  cases s with
  | nil => rfl
  | cons c s => rw [List.length_cons, repeated, ways_eq_nil.mpr h]; rfl

theorem first_star_cls (p : α → Bool) (s : List α) :
    first (star (cls p)) s = some ⟨s.takeWhile p, s.dropWhile p⟩ := by
  induction s with
  | nil => exact first_star_none rfl
  | cons c s ih =>
      cases hp : p c with
      | true =>
          have hone : first (cls p) (c :: s) = some ⟨[c], s⟩ := by rw [first_cls, if_pos hp]
          rw [first_star_some hone (by simp), ih, List.takeWhile_cons_of_pos hp,
            List.dropWhile_cons_of_pos hp]
          rfl
      | false =>
          have hneg : ¬ p c = true := by rw [hp]; decide
          rw [first_star_none (by rw [first_cls, if_neg hneg]), List.takeWhile_cons_of_neg hneg,
            List.dropWhile_cons_of_neg hneg]

theorem first_plus_cls {p : α → Bool} {c : α} (hc : p c = true) (s : List α) :
    first (plus (cls p)) (c :: s) = some ⟨c :: s.takeWhile p, s.dropWhile p⟩ := by
  have hone : first (cls p) (c :: s) = some ⟨[c], s⟩ := by rw [first_cls, if_pos hc]
  exact first_seq_some hone (first_star_cls p s)

/-- At least one round is a repetition, where there is a first round. -/
theorem first_plus {a : Regex α} {s : List α} {v : Way α} (h : first a s = some v)
    (hm : v.matched ≠ []) : first (plus a) s = first (star a) s := by
  rw [plus, first_seq (first_star_isSome a), h, first_star_some h hm]
  rfl

theorem first_plus_none {a : Regex α} {s : List α} (h : first a s = none) :
    first (plus a) s = none := by
  rw [plus, first_seq (first_star_isSome a), h]
  rfl

/-- The ways a sequence goes on after its first part. -/
def sequel (b : Regex α) (w : Way α) : List (Way α) := (ways b w.rest).map (Way.push w.matched)

theorem sequel_push (b : Regex α) (m : List α) (w : Way α) :
    sequel b (w.push m) = (sequel b w).map (Way.push m) := by
  rw [sequel, sequel, List.map_map]
  refine List.map_congr_left fun v _ => ?_
  simp [Way.push]

theorem sequel_nil (b : Regex α) (s : List α) : sequel b ⟨[], s⟩ = ways b s :=
  List.map_id _

/-- The ways of `cls*` before something that cannot start inside the class:
only the longest run leads on. -/
theorem flatMap_star_cls {p : α → Bool} {b : Regex α}
    (hb : ∀ c s, p c = true → first b (c :: s) = none) (s : List α) :
    (ways (star (cls p)) s).flatMap (sequel b)
      = (ways b (s.dropWhile p)).map (Way.push (s.takeWhile p)) := by
  induction s with
  | nil => rw [ways, List.length_nil, repeated, List.flatMap_singleton]; rfl
  | cons c s ih =>
      rw [ways, List.length_cons, repeated, ways, List.flatMap_append, List.flatMap_singleton,
        sequel_nil]
      cases hp : p c with
      | true =>
          have hround : (repeated (ways (cls p)) s.length s).map (Way.push [c])
              = ((ways (star (cls p)) s).map (Way.push [c])) := by rw [ways]
          rw [if_pos rfl, List.flatMap_singleton, if_pos (by simp), ways_eq_nil.mpr (hb c s hp),
            List.append_nil, hround, List.flatMap_map, List.takeWhile_cons_of_pos hp,
            List.dropWhile_cons_of_pos hp]
          simp only [sequel_push]
          rw [← List.map_flatMap, ih, List.map_map]
          rfl
      | false =>
          have hneg : ¬ p c = true := by rw [hp]; decide
          rw [if_neg (by decide), List.takeWhile_cons_of_neg hneg, List.dropWhile_cons_of_neg hneg]
          exact (List.map_id _).symm

/-- **A run before something that cannot start inside it** is taken whole. -/
theorem first_seq_plus_cls {p : α → Bool} {b : Regex α}
    (hb : ∀ c s, p c = true → first b (c :: s) = none) {c : α} (hc : p c = true) (s : List α) :
    first (seq (plus (cls p)) b) (c :: s)
      = (first b (s.dropWhile p)).map (Way.push (c :: s.takeWhile p)) := by
  have hplus : ways (plus (cls p)) (c :: s) = (ways (star (cls p)) s).map (Way.push [c]) := by
    rw [plus, ways, ways, if_pos hc, List.flatMap_singleton]
  have hseq : ways (seq (plus (cls p)) b) (c :: s)
      = (ways b (s.dropWhile p)).map (Way.push (c :: s.takeWhile p)) := by
    show (ways (plus (cls p)) (c :: s)).flatMap (sequel b) = _
    rw [hplus, List.flatMap_map]
    simp only [sequel_push]
    rw [← List.map_flatMap, flatMap_star_cls hb, List.map_map]
    rfl
  rw [first, hseq, List.head?_map, first]

/-- A run that starts with no letter of its class does not match. -/
theorem first_seq_plus_cls_none {p : α → Bool} (b : Regex α) {s : List α}
    (hs : ∀ c t, s = c :: t → p c = false) : first (seq (plus (cls p)) b) s = none := by
  rw [first, ways, plus, ways]
  cases s with
  | nil => rfl
  | cons c t => rw [ways, if_neg (by rw [hs c t rfl]; decide)]; rfl

/-- Every class of the pattern is inside `q`. -/
def Within (q : α → Prop) : Regex α → Prop
  | cls p => ∀ c, p c = true → q c
  | seq a b => Within q a ∧ Within q b
  | alt a b => Within q a ∧ Within q b
  | star a => Within q a

theorem repeated_within {q : α → Prop} {step : List α → List (Way α)}
    (hstep : ∀ s, ∀ w ∈ step s, ∀ c ∈ w.matched, q c) (n : Nat) :
    ∀ s, ∀ w ∈ repeated step n s, ∀ c ∈ w.matched, q c := by
  induction n with
  | zero => intro s w hw c hc; rw [List.mem_singleton.mp hw] at hc; cases hc
  | succ n ih =>
      intro s w hw c hc
      rcases List.mem_append.mp hw with hw | hw
      · obtain ⟨v, hv, hw⟩ := List.mem_flatMap.mp hw
        split_ifs at hw
        · obtain ⟨u, hu, rfl⟩ := List.mem_map.mp hw
          exact (List.mem_append.mp hc).elim (hstep s v hv c) (ih _ u hu c)
        · cases hw
      · rw [List.mem_singleton.mp hw] at hc; cases hc

/-- A match has only letters of the pattern's classes. -/
theorem ways_within {q : α → Prop} {r : Regex α} (h : Within q r) :
    ∀ s, ∀ w ∈ ways r s, ∀ c ∈ w.matched, q c := by
  induction r with
  | cls p =>
      intro s w hw c hc
      cases s with
      | nil => cases hw
      | cons d s =>
          rw [ways] at hw
          split_ifs at hw with hd
          · rw [List.mem_singleton.mp hw] at hc
            rw [List.mem_singleton.mp hc]
            exact h d hd
          · cases hw
  | seq a b iha ihb =>
      intro s w hw c hc
      obtain ⟨v, hv, hw⟩ := List.mem_flatMap.mp hw
      obtain ⟨u, hu, rfl⟩ := List.mem_map.mp hw
      exact (List.mem_append.mp hc).elim (iha h.1 s v hv c) (ihb h.2 _ u hu c)
  | alt a b iha ihb =>
      intro s w hw
      exact (List.mem_append.mp hw).elim (iha h.1 s w) (ihb h.2 s w)
  | star a ih => exact fun s => repeated_within (ih h) _ s

theorem first_within {q : α → Prop} {r : Regex α} (h : Within q r) {s : List α} {w : Way α}
    (hw : first r s = some w) : ∀ c ∈ w.matched, q c :=
  ways_within h s w (List.mem_of_mem_head? hw)

/-! ## The search -/

theorem findallFrom_fuel (r : Regex α) (n : Nat) : ∀ (k : Nat) (s : List α),
    s.length ≤ n → s.length ≤ k → findallFrom r n s = findallFrom r k s := by
  induction n with
  | zero =>
      intro k s hn _
      obtain rfl := List.length_eq_zero_iff.mp (Nat.le_zero.mp hn)
      cases k <;> rfl
  | succ n ih =>
      intro k s hn hk
      cases s with
      | nil => cases k <;> rfl
      | cons c s =>
          cases k with
          | zero => simp at hk
          | succ k =>
              simp only [List.length_cons] at hn hk
              rw [findallFrom, findallFrom, ih k s (by omega) (by omega)]
              cases hfirst : first r (c :: s) with
              | none => rfl
              | some w =>
                  obtain ⟨m, rest⟩ := w
                  cases m with
                  | nil => rfl
                  | cons x m =>
                      have hlen := congrArg List.length (first_append hfirst)
                      simp only [List.length_append, List.length_cons] at hlen
                      show _ :: findallFrom r n rest = _ :: findallFrom r k rest
                      rw [ih k rest (by omega) (by omega)]

/-- **A match**: it is taken, and the search goes on behind it. -/
theorem findall_match {r : Regex α} {s m rest : List α} (h : first r s = some ⟨m, rest⟩)
    (hm : m ≠ []) : findall r s = m :: findall r rest := by
  have hsplit := first_append h
  cases m with
  | nil => exact absurd rfl hm
  | cons x m =>
      cases s with
      | nil => cases hsplit
      | cons c s =>
          have hlen := congrArg List.length hsplit
          simp only [List.length_append, List.length_cons] at hlen
          rw [findall, List.length_cons, findallFrom, h, findall]
          show _ :: findallFrom r s.length rest = _
          rw [findallFrom_fuel r s.length rest.length rest (by omega) (Nat.le_refl _)]

/-- No match: the search goes on one character later. -/
theorem findall_skip {r : Regex α} {c : α} {s : List α} (h : first r (c :: s) = none) :
    findall r (c :: s) = findall r s := by
  rw [findall, List.length_cons, findallFrom, h]
  rfl

/-- No match is longer than the text. -/
theorem length_of_mem_findallFrom {r : Regex α} {n : Nat} {s v : List α}
    (h : v ∈ findallFrom r n s) : v.length ≤ s.length := by
  induction n generalizing s with
  | zero => cases h
  | succ n ih =>
      cases s with
      | nil => cases h
      | cons c s =>
          have hskip : v ∈ findallFrom r n s → v.length ≤ (c :: s).length := fun h =>
            (ih h).trans (Nat.le_succ _)
          rw [findallFrom] at h
          cases hfirst : first r (c :: s) with
          | none =>
              rw [hfirst] at h
              exact hskip h
          | some w =>
              obtain ⟨m, rest⟩ := w
              rw [hfirst] at h
              have hlen := congrArg List.length (first_append hfirst)
              rw [List.length_append] at hlen
              cases m with
              | nil => exact hskip h
              | cons x m =>
                  rcases List.mem_cons.mp h with rfl | h
                  · omega
                  · exact (ih h).trans (by omega)

theorem findall_nil (r : Regex α) : findall r [] = [] := rfl

end Regex

end Xsr.Lib
