import Xsr.Policy.JaccardHeader

/-!
# RuleTable — which of several matching rules decides the route

The kernel scans the rule table and lets a later rule of the same priority
win; the oracle sorts the rules by priority, stably, and takes the first
that matches. `RuleTable` is what the two kernel scans have in common. A
policy is routed alike by both exactly when any two rules of different
routes are ranked the same way round, a tie counting for the later rule in
the kernel and for the earlier one in the oracle.
-/

namespace Xsr.Policy

open Kernel Lib

/-- The name `expected_route` has for a route. -/
def routeName : Route → String
  | .coding => "coding"
  | .general => "others"
  | .math => "math"
  | .qa => "qa"
  | .writing => "writing"

theorem routeName_injective {r s : Route} (h : routeName r = routeName s) : r = s := by
  cases r <;> cases s <;> first | rfl | exact absurd h (by decide)

theorem routeConstant_name {name : String} {route : Route}
    (h : routeConstant name = some route) : routeName route = name ∧ route ≠ .general := by
  obtain ⟨l₁, l₂, hsplit, -⟩ := List.lookup_eq_some_iff.mp h
  have hmem : (name, route) ∈
      [("coding", Route.coding), ("math", .math), ("qa", .qa), ("writing", .writing)] := by
    rw [hsplit]
    simp
  simp only [List.mem_cons, Prod.mk.injEq, List.not_mem_nil, or_false] at hmem
  rcases hmem with ⟨rfl, rfl⟩ | ⟨rfl, rfl⟩ | ⟨rfl, rfl⟩ | ⟨rfl, rfl⟩ <;>
    exact ⟨rfl, by decide⟩

/-! ## What the two scans have in common -/

/-- A rule table of `size` rules whose selection is the kernel's scan: by
priority, later rules of equal priority first, in every state `σ` of the
matcher; the states realise every assignment of match results. -/
structure RuleTable (σ : Type) where
  size : Nat
  priority : Nat → Nat
  route : Nat → Route
  isMatch : σ → Nat → Bool
  select : σ → Nat × Route
  selects : ∀ s, Holds priority (isMatch s) route .general size (select s)
  realizes : ∀ candidate : Nat → Bool, ∃ s, ∀ i < size, isMatch s i = candidate i
  route_ne_general : ∀ i < size, route i ≠ .general

/-- The oracle's answer for match results by entry. -/
def walkRoute (isMatch : ValidRoute → Bool) (routes : List ValidRoute) : String :=
  (((sortDescending ValidRoute.priority routes).find? isMatch).map ValidRoute.name).getD "others"

namespace RuleTable
variable {σ : Type} (T : RuleTable σ)

/-- The table was made from the entries `routes`, one rule for each. -/
structure Of (routes : List ValidRoute) : Prop where
  size : T.size = routes.length
  name : ∀ i entry, routes[i]? = some entry → entry.name = routeName (T.route i)
  nodup : routes.Nodup

/-- The match results of the kernel in state `s` are those of the oracle. -/
def SameResults (routes : List ValidRoute) (s : σ) (isMatch : ValidRoute → Bool) : Prop :=
  ∀ i entry, routes[i]? = some entry → T.isMatch s i = isMatch entry

/-- Kernel and oracle select the same route, and the general one exactly
when no rule matches, whatever the match results. -/
def Agrees (routes : List ValidRoute) : Prop :=
  ∀ s isMatch, T.SameResults routes s isMatch →
    routeName (T.select s).2 = walkRoute isMatch routes ∧
      ((T.select s).2 = .general ↔ ∀ entry ∈ routes, isMatch entry = false)

variable {T} {routes : List ValidRoute}

/-- The oracle takes the first of the best entries that match. -/
theorem walkRoute_cases (hnodup : routes.Nodup) {isMatch : ValidRoute → Bool}
    {candidate : Nat → Bool}
    (hc : ∀ i entry, routes[i]? = some entry → candidate i = isMatch entry) :
    (walkRoute isMatch routes = "others" ∧ ∀ entry ∈ routes, isMatch entry = false) ∨
    ∃ k entry, routes[k]? = some entry ∧ walkRoute isMatch routes = entry.name ∧
      FirstMax routes.length (fun i => (routes[i]?.map ValidRoute.priority).getD 0) candidate k := by
  unfold walkRoute
  cases hfind : (sortDescending ValidRoute.priority routes).find? isMatch with
  | none => exact .inl ⟨rfl, (find_sortDescending_none _).mp hfind⟩
  | some entry =>
      obtain ⟨k, hk, hfirst⟩ := find_sortDescending ValidRoute.priority hnodup
        (q := fun i => (routes[i]?.map ValidRoute.priority).getD 0)
        (fun i y hy => by rw [hy]; rfl) hc hfind
      exact .inr ⟨k, entry, hk, rfl, hfirst⟩

/-- Every assignment of match results is that of some state of the kernel and
of some results of the oracle: no two entries are the same. -/
theorem exists_results (h : T.Of routes) (candidate : Nat → Bool) :
    ∃ s isMatch, (∀ i < T.size, T.isMatch s i = candidate i) ∧
      T.SameResults routes s isMatch := by
  classical
  obtain ⟨s, hs⟩ := T.realizes candidate
  refine ⟨s, fun entry => decide (∃ i, routes[i]? = some entry ∧ candidate i = true), hs, ?_⟩
  intro i entry hi
  have hlt : i < routes.length := (List.getElem?_eq_some_iff.mp hi).1
  rw [hs i (by rw [h.size]; exact hlt), Bool.eq_iff_iff, decide_eq_true_iff]
  constructor
  · exact fun hc => ⟨i, hi, hc⟩
  · rintro ⟨j, hj, hc⟩
    rwa [(List.getElem?_inj hlt h.nodup).mp (hi.trans hj.symm)]

/-- The general route means that nothing matched. -/
theorem select_general_iff (h : T.Of routes) {s : σ} {isMatch : ValidRoute → Bool}
    (hs : T.SameResults routes s isMatch) :
    (T.select s).2 = .general ↔ ∀ entry ∈ routes, isMatch entry = false := by
  rcases T.selects s with ⟨hnone, hall⟩ | ⟨k, hk, hsel⟩
  · refine iff_of_true (by rw [hnone]) fun entry hentry => ?_
    obtain ⟨i, hi⟩ := List.mem_iff_getElem?.mp hentry
    have hlt : i < routes.length := (List.getElem?_eq_some_iff.mp hi).1
    rw [← hs i entry hi, hall i (by rw [h.size]; exact hlt)]
  · have hlt : k < routes.length := h.size ▸ hk.lt
    refine iff_of_false (by rw [hsel]; exact T.route_ne_general k hk.lt) fun hall => ?_
    have hchosen := hk.chosen
    rw [hs k _ (List.getElem?_eq_getElem hlt), hall _ (List.getElem_mem hlt)] at hchosen
    cases hchosen

/-- The two answers are the routes of the two selected positions. -/
theorem answers_eq_iff (h : T.Of routes) {s : σ} {isMatch : ValidRoute → Bool}
    (hs : T.SameResults routes s isMatch) {a b : Nat}
    (ha : LastMax T.size T.priority (T.isMatch s) a)
    (hb : FirstMax T.size (fun i => (routes[i]?.map ValidRoute.priority).getD 0) (T.isMatch s) b) :
    routeName (T.select s).2 = walkRoute isMatch routes ↔ T.route a = T.route b := by
  have hleft : (T.select s).2 = T.route a := by
    rcases T.selects s with ⟨-, hall⟩ | ⟨k, hk, hsel⟩
    · cases ha.chosen.symm.trans (hall a ha.lt)
    · rw [hsel, hk.unique ha]
  have hright : walkRoute isMatch routes = routeName (T.route b) := by
    rcases walkRoute_cases h.nodup hs with ⟨-, hall⟩ | ⟨k, entry, hk, hwalk, hfirst⟩
    · have hlt : b < routes.length := h.size ▸ hb.lt
      have hchosen := hb.chosen
      rw [hs b _ (List.getElem?_eq_getElem hlt), hall _ (List.getElem_mem hlt)] at hchosen
      cases hchosen
    · rw [← h.size] at hfirst
      rw [hwalk, h.name k entry hk, hfirst.unique hb]
  rw [hleft, hright]
  exact ⟨routeName_injective, congrArg routeName⟩

/-- **Agreement of a rule table with the oracle**, in terms of the two
rankings. -/
theorem agrees_iff (h : T.Of routes) :
    T.Agrees routes ↔ ∀ i j a b, i < j → routes[i]? = some a → routes[j]? = some b →
      a.name ≠ b.name → (T.priority j < T.priority i ↔ b.priority ≤ a.priority) := by
  have hpairs := select_agree_iff (n := T.size) (p := T.priority)
    (q := fun i => (routes[i]?.map ValidRoute.priority).getD 0) T.route
  have hagree : T.Agrees routes ↔ ∀ candidate a b, LastMax T.size T.priority candidate a →
      FirstMax T.size (fun i => (routes[i]?.map ValidRoute.priority).getD 0) candidate b →
      T.route a = T.route b := by
    constructor
    · intro hall candidate a b ha hb
      obtain ⟨s, isMatch, hs, hsame⟩ := exists_results h candidate
      exact (answers_eq_iff h hsame (ha.congr fun i hi => (hs i hi).symm)
        (hb.congr fun i hi => (hs i hi).symm)).mp (hall s isMatch hsame).1
    · intro hall s isMatch hs
      refine ⟨?_, select_general_iff h hs⟩
      rcases walkRoute_cases h.nodup hs with ⟨hwalk, hnone⟩ | ⟨b, entry, -, -, hb⟩
      · rw [hwalk, (select_general_iff h hs).mpr hnone]
        rfl
      · rw [← h.size] at hb
        rcases T.selects s with ⟨-, hnone⟩ | ⟨a, ha, -⟩
        · cases hb.chosen.symm.trans (hnone b hb.lt)
        · exact (answers_eq_iff h hs ha hb).mpr (hall _ a b ha hb)
  rw [hagree, hpairs]
  constructor
  · intro hall i j a b hij hi hj hne
    have hlt : j < T.size := by
      rw [h.size]
      exact (List.getElem?_eq_some_iff.mp hj).1
    have := hall i j hij hlt fun heq => hne (by rw [h.name i a hi, h.name j b hj, heq])
    simpa [hi, hj] using this
  · intro hall i j hij hj hne
    have hjlt : j < routes.length := h.size ▸ hj
    have hi' := List.getElem?_eq_getElem (l := routes) (i := i) (by omega)
    have hj' := List.getElem?_eq_getElem hjlt
    have := hall i j _ _ hij hi' hj' fun heq => hne (routeName_injective (by
      rw [← h.name i _ hi', ← h.name j _ hj', heq]))
    simpa [hi', hj'] using this

end RuleTable

/-! ## The walk of the oracle -/

/-- What the oracle answers when every entry has the method `method`. -/
theorem expectedRoute_walk {u : Unicode} {routes : List ValidRoute}
    {ngramMatches bm25Matches isMatch : ValidRoute → Bool}
    (h : ∀ entry ∈ routes,
      (pyLower u entry.method = "ngram" ∧ ngramMatches entry = isMatch entry) ∨
      (pyLower u entry.method = "bm25" ∧ bm25Matches entry = isMatch entry)) :
    expectedRoute u ngramMatches bm25Matches routes =
      .ok (((routes.find? isMatch).map ValidRoute.name).getD "others") := by
  induction routes with
  | nil => rfl
  | cons entry routes ih =>
      have hrest := ih fun e he => h e (List.mem_cons_of_mem _ he)
      have hne : ("bm25" : String) ≠ "ngram" := by decide
      rw [expectedRoute, List.find?_cons]
      rcases h entry (by simp) with ⟨hm, hmatch⟩ | ⟨hm, hmatch⟩
      · simp only [hm, if_true, hmatch]
        cases isMatch entry with
        | true => rfl
        | false => exact hrest
      · simp only [hm, hne, if_false, if_true, hmatch]
        cases isMatch entry with
        | true => rfl
        | false => exact hrest

/-- A method in lower case already. -/
theorem pyLower_method (u : Unicode) {method : String} (h : method = "ngram" ∨ method = "bm25") :
    pyLower u method = method := by
  have hascii : ∀ c ∈ method.toList, c.toNat < 128 := by
    have hall : method.toList.all (fun c => c.toNat < 128) = true := by
      rcases h with rfl | rfl <;> rfl
    exact fun c hc => of_decide_eq_true (List.all_eq_true.mp hall c hc)
  have hmap : method.toList.map Char.toLower = method.toList := by
    rcases h with rfl | rfl <;> decide
  rw [pyLower, u.lowerText_ascii hascii, hmap, String.ofList_toList]

theorem pyLower_empty (u : Unicode) : pyLower u "" = "" := rfl

end Xsr.Policy
