import Xsr.Policy.JaccardTable
import Xsr.Policy.Bm25Table

/-!
# Precedence — the kernel and the oracle on tied priorities

The generated tables keep the order of the policy and the kernel lets a
later rule of equal priority win, while the oracle's stable sort keeps the
earlier one in front. The two also read different priorities when a signal
has no name, and the kernel's are cut to 32 bits.
-/

namespace Xsr.Policy

open Kernel Lib Control

/-- The route of a signal, the priority the generators give it and the one
`validate_policy` gives it. -/
structure Ranked (u : Unicode) (d : Decisions) (signal : Dict) (route : String)
    (kernel oracle : Int) : Prop where
  routed : signalRouteName u signal d.routes = .ok route
  inKernel : signalPriority u d.priorities (signalName u signal "") signal = .ok kernel
  inOracle : signalPriority u d.priorities (signalName u signal route) signal = .ok oracle

/-- Any two signals of different routes are ranked the same way round: the
later one strictly below in the kernel exactly when it is at most equal in
the oracle. -/
def RanksAgree (u : Unicode) (policy : Dict) : Prop :=
  ∀ (signals : List Dict) (d : Decisions) (i j : Nat) (a b : Dict) (ra rb : String)
    (ka oa kb ob : Int), keywordSignals policy = .ok (signals.map PyVal.dict) →
    decisionKeywordRoutes u policy = .ok d → i < j → signals[i]? = some a →
    signals[j]? = some b → Ranked u d a ra ka oa → Ranked u d b rb kb ob → ra ≠ rb →
    (cU32 kb < cU32 ka ↔ ob ≤ oa)

/-- One signal has nothing to tie with. -/
theorem RanksAgree.single {u : Unicode} {policy : Dict} {signal : PyVal}
    (h : keywordSignals policy = .ok [signal]) : RanksAgree u policy := by
  intro signals d i j a b _ _ _ _ _ _ hread _ hij _ hb
  have hlen := congrArg List.length (Except.ok.inj (h.symm.trans hread))
  rw [List.length_singleton, List.length_map] at hlen
  have hj := (List.getElem?_eq_some_iff.mp hb).1
  omega

theorem Ranked.unique {u : Unicode} {d : Decisions} {signal : Dict} {r r' : String}
    {k k' o o' : Int} (h : Ranked u d signal r k o) (h' : Ranked u d signal r' k' o') :
    r = r' ∧ k = k' ∧ o = o' := by
  obtain rfl := Except.ok.inj (h.routed.symm.trans h'.routed)
  exact ⟨rfl, Except.ok.inj (h.inKernel.symm.trans h'.inKernel),
    Except.ok.inj (h.inOracle.symm.trans h'.inOracle)⟩

/-- The condition on the table is the condition on the signals. -/
theorem ranks_iff {u : Unicode} {policy : Dict} {caseSensitive : Bool}
    {routes : List ValidRoute} {signals : List Dict} {d : Decisions} {priority : Nat → Nat}
    (hvalid : ValidatedSignals u policy caseSensitive routes signals d)
    (hkernel : ∀ (i : Nat) signal entry, signals[i]? = some signal → routes[i]? = some entry →
      ∃ kernel, Ranked u d signal entry.name kernel entry.priority ∧ priority i = cU32 kernel) :
    (∀ i j a b, i < j → routes[i]? = some a → routes[j]? = some b → a.name ≠ b.name →
      (priority j < priority i ↔ b.priority ≤ a.priority)) ↔ RanksAgree u policy := by
  constructor
  · intro h signals' d' i j a b ra rb ka oa kb ob hread hdecided hij ha hb hra hrb hne
    have hmap := Except.ok.inj (hvalid.read.symm.trans hread)
    obtain rfl : signals = signals' :=
      List.map_injective_iff.mpr (fun x y hxy => PyVal.dict.inj hxy) hmap
    obtain rfl := Except.ok.inj (hvalid.decided.symm.trans hdecided)
    obtain ⟨entry, hentry, -⟩ := forall₂_getElem?_left hvalid.validated ha
    obtain ⟨entry', hentry', -⟩ := forall₂_getElem?_left hvalid.validated hb
    obtain ⟨k, hk, hpi⟩ := hkernel i a entry ha hentry
    obtain ⟨k', hk', hpj⟩ := hkernel j b entry' hb hentry'
    obtain ⟨rfl, rfl, rfl⟩ := hra.unique hk
    obtain ⟨rfl, rfl, rfl⟩ := hrb.unique hk'
    rw [← hpi, ← hpj]
    exact h i j entry entry' hij hentry hentry' hne
  · intro h i j a b hij ha hb hne
    obtain ⟨signal, hsignal, -⟩ := forall₂_getElem? hvalid.validated ha
    obtain ⟨signal', hsignal', -⟩ := forall₂_getElem? hvalid.validated hb
    obtain ⟨k, hk, hpi⟩ := hkernel i signal a hsignal ha
    obtain ⟨k', hk', hpj⟩ := hkernel j signal' b hsignal' hb
    rw [hpi, hpj]
    exact h signals d i j signal signal' _ _ _ _ _ _ hvalid.read hvalid.decided hij hsignal
      hsignal' hk hk' hne

theorem JaccardPolicy.agrees_iff {u : Unicode} (P : JaccardPolicy u) :
    P.Agrees ↔ RanksAgree u P.policy := by
  obtain ⟨signals, d, hvalid, hrules⟩ := P.signals_of
  rw [P.agrees_iff_table, RuleTable.agrees_iff P.table_of]
  refine ranks_iff hvalid fun i signal entry hsignal hentry => ?_
  obtain ⟨row, hrow, hruleOf⟩ := forall₂_getElem?_left hrules.ruleOf hsignal
  obtain ⟨signal', hsignal', hentryOf⟩ := forall₂_getElem? hvalid.validated hentry
  obtain rfl := Option.some.inj (hsignal.symm.trans hsignal')
  refine ⟨row.priority, ⟨hentryOf.name, hruleOf.priority, hentryOf.priority⟩, ?_⟩
  change (P.header.rules[i]?.map fun row => cU32 row.priority).getD 0 = _
  rw [hrow]
  rfl

theorem Bm25Policy.agrees_iff {u : Unicode} {τ : Type} {w : Weigher τ} (P : Bm25Policy u w) :
    P.Agrees ↔ RanksAgree u P.policy := by
  obtain ⟨signals, d, hvalid, hrules⟩ := P.signals_of
  rw [P.agrees_iff_table, RuleTable.agrees_iff P.table_of]
  refine ranks_iff hvalid fun i signal entry hsignal hentry => ?_
  obtain ⟨row, hrow, hruleOf⟩ := forall₂_getElem?_left hrules.ruleOf hsignal
  obtain ⟨signal', hsignal', hentryOf⟩ := forall₂_getElem? hvalid.validated hentry
  obtain rfl := Option.some.inj (hsignal.symm.trans hsignal')
  refine ⟨row.priority, ⟨hentryOf.name, hruleOf.priority, hentryOf.priority⟩, ?_⟩
  change (P.header.rules[i]?.map fun row => cU32 row.priority).getD 0 = _
  rw [hrow]
  rfl

/-- **Rule precedence**: with either method, the kernel's scan and the
oracle's walk agree for every assignment of match results exactly when the
policy ranks any two signals of different routes the same way round for
both. -/
theorem precedence_iff (u : Unicode) :
    (∀ P : JaccardPolicy u, P.Agrees ↔ RanksAgree u P.policy) ∧
    ∀ (τ : Type) (w : Weigher τ) (P : Bm25Policy u w), P.Agrees ↔ RanksAgree u P.policy :=
  ⟨JaccardPolicy.agrees_iff, fun _ _ => Bm25Policy.agrees_iff⟩

/-! ## A tie -/

/-- Two signals of different routes, both without a priority. -/
def tiedPolicy : Dict :=
  [("routes", .list [plainSignal "code" "coding" "code", plainSignal "sums" "math" "sums"])]

/-- The entry of a plain signal. -/
def plainEntry (route keyword : String) : ValidRoute :=
  ⟨route, 0, [keyword], "OR", "ngram", 3, .float ⟨"0.4", some 0, true⟩,
    .float ⟨"0.1", some 0, true⟩⟩

/-- The header of `tiedPolicy`. -/
def tiedHeader : JaccardHeader :=
  ⟨[plainRule 0 .coding, plainRule 0 .math],
    [plainKeyword 0 99 111 100 101, plainKeyword 1 115 117 109 115], []⟩

theorem tied_parsed : parseJaccard Unicode.asciiTables tiedPolicy false = .ok tiedHeader := by
  have hloop : [plainSignal "code" "coding" "code", plainSignal "sums" "math" "sums"].foldlM
      (parseSignal Unicode.asciiTables false ⟨[], []⟩) ⟨[], [], [], none⟩ =
      .ok ⟨tiedHeader.rules, tiedHeader.keywords, [], some true⟩ := rfl
  exact parseJaccard_of rfl rfl hloop (casefoldEntries_nil _)

/-- The policy of the tie, loaded. -/
def tied : JaccardPolicy Unicode.asciiTables where
  policy := tiedPolicy
  caseSensitive := true
  routes := [plainEntry "coding" "code", plainEntry "math" "sums"]
  header := tiedHeader
  wordBitmap := fun _ => 0
  maps := (populateJaccardPolicy tiedHeader fun _ => 0).get rfl
  validated := rfl
  parsed := tied_parsed
  loaded := (Option.some_get _).symm

/-- The two signals tie, so the kernel takes the later one and the oracle
the earlier one. -/
theorem precedence_fails : ¬∀ P : JaccardPolicy Unicode.asciiTables, P.Agrees := by
  intro hall
  have hranks := tied.agrees_iff.mp (hall tied)
  have htie := hranks
    [[("name", .str "code"), ("route", .str "coding"), ("method", .str "ngram"),
      ("keywords", .list [.str "code"]), ("case_sensitive", .bool true)],
     [("name", .str "sums"), ("route", .str "math"), ("method", .str "ngram"),
      ("keywords", .list [.str "sums"]), ("case_sensitive", .bool true)]]
    ⟨[], []⟩ 0 1 _ _ "coding" "math" 0 0 0 0 rfl rfl (by decide) rfl rfl ⟨rfl, rfl, rfl⟩
    ⟨rfl, rfl, rfl⟩ (by decide)
  exact absurd htie (by decide)

end Xsr.Policy
