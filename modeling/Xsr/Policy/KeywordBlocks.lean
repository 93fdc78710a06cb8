import Xsr.Lib.Parts
import Xsr.Policy.JaccardTable
import Xsr.Signals.PackedCounters

/-!
# KeywordBlocks — the keyword rows of a header, rule by rule

`parse` appends the rows of one signal after those of the signals before
it. In the list of all rows the keywords of a rule are one block, and the
rule number of a row tells its block.
-/

namespace Xsr.Policy

open Kernel Lib
open Signals (ruleOf)

/-- The texts of a signal that go into the case folds. -/
def foldedTexts (u : Unicode) (signal : Dict) : List (List Char) :=
  if signalCaseSensitive signal then []
  else ((signalKeywords signal).getD []).map fun value => (value.text u).toList

/-- The rows of signal `i` and the keywords they come from. -/
def BlockOf (u : Unicode) (signal : Dict) (i : Nat) (block : List KeywordRow) : Prop :=
  ∃ values, signalKeywords signal = some values ∧
    List.Forall₂ (KeywordOf u (signalCaseSensitive signal) i) values block

/-- The state of the loop of `parse` after the signals `signals`. -/
structure Blocks (u : Unicode) (signals : List Dict) (s : JaccardParse)
    (blocks : List (List KeywordRow)) : Prop where
  rules : s.rules.length = signals.length
  count : blocks.length = signals.length
  keywords : s.keywords = blocks.flatten
  texts : s.insensitiveTexts = signals.flatMap (foldedTexts u)
  arity : ∀ signal ∈ signals, (signal.getD "ngram_arity" (.int 3)).toInt u = .ok jaccardArity
  block : ∀ (i : Nat) signal block, signals[i]? = some signal → blocks[i]? = some block →
    BlockOf u signal i block

section Parse
variable {u : Unicode}

/-- Only trigrams are accepted. -/
theorem parseSignal_arity {d : Decisions} {s s' : JaccardParse} {signal : Dict}
    (h : parseSignal u false d s (.dict signal) = .ok s') :
    (signal.getD "ngram_arity" (.int 3)).toInt u = .ok jaccardArity := by
  unfold parseSignal at h
  obtain ⟨signal', hsignal, h⟩ := bind_ok h
  obtain rfl : signal = signal' := Option.some.inj (required_ok hsignal)
  split_ifs at h with hmethod hother
  · cases hother
  -- three checks stand in front of the arity's
  unfold parseNgram raiseIf at h
  obtain ⟨_, -, h⟩ := bind_ok h
  obtain ⟨_, -, h⟩ := bind_ok h
  obtain ⟨_, -, h⟩ := bind_ok h
  obtain ⟨arity, harity, h⟩ := bind_ok h
  obtain ⟨_, hthree, -⟩ := bind_ok h
  rw [harity, show arity = jaccardArity by simpa using refuseIf_ok hthree]

theorem Blocks.signal {d : Decisions} {signals : List Dict} {s s' : JaccardParse}
    {blocks : List (List KeywordRow)} (h : Blocks u signals s blocks) {signal : Dict}
    (hstep : parseSignal u false d s (.dict signal) = .ok s') :
    ∃ block, Blocks u (signals ++ [signal]) s' (blocks ++ [block]) := by
  obtain ⟨signal', rule, values, rows, heq, -, hvalues, hadded, -⟩ := parseSignal_ok hstep
  obtain rfl := PyVal.dict.inj heq
  refine ⟨rows, ?rules, ?count, ?keywords, ?texts, ?arity, ?block⟩
  case rules =>
    rw [hadded.rules, List.length_append, List.length_append, h.rules]
    rfl
  case count =>
    rw [List.length_append, List.length_append, h.count]
    rfl
  case keywords =>
    rw [hadded.keywords, List.flatten_append, ← h.keywords]
    simp
  case texts =>
    rw [hadded.texts, List.flatMap_append, ← h.texts, List.flatMap_singleton, foldedTexts, hvalues]
    rfl
  case arity =>
    intro other hother
    rcases List.mem_append.mp hother with hother | hother
    · exact h.arity other hother
    · exact (List.mem_singleton.mp hother).symm ▸ parseSignal_arity hstep
  case block =>
    -- earlier signals keep their blocks, and the new one has the last number
    intro i other block hother hblock
    rcases Nat.lt_or_ge i signals.length with hlt | hge
    · rw [List.getElem?_append_left hlt] at hother
      rw [List.getElem?_append_left (h.count.symm ▸ hlt)] at hblock
      exact h.block i other block hother hblock
    · have hlen := (List.getElem?_eq_some_iff.mp hother).1
      rw [List.length_append, List.length_singleton] at hlen
      obtain rfl : i = signals.length := by omega
      rw [List.getElem?_concat_length] at hother
      rw [← h.count, List.getElem?_concat_length] at hblock
      obtain rfl := Option.some.inj hother
      obtain rfl := Option.some.inj hblock
      exact ⟨values, hvalues, h.rules ▸ hadded.rows⟩

/-- **The loop of `parse`**, signal by signal. -/
theorem Blocks.signals {d : Decisions} {signals : List Dict} {s : JaccardParse}
    (h : (signals.map PyVal.dict).foldlM (parseSignal u false d) ⟨[], [], [], none⟩ = .ok s) :
    ∃ blocks, Blocks u signals s blocks := by
  induction signals using List.reverseRecOn generalizing s with
  | nil =>
      cases h
      exact ⟨[], rfl, rfl, rfl, rfl, by simp, by simp⟩
  | append_singleton signals signal ih =>
      rw [List.map_append, List.foldlM_append] at h
      obtain ⟨t, ht, hlast⟩ := bind_ok h
      rw [List.map_singleton] at hlast
      obtain ⟨s', hstep, hlast⟩ := bind_ok hlast
      cases hlast
      obtain ⟨blocks, hblocks⟩ := ih ht
      obtain ⟨block, hblock⟩ := hblocks.signal hstep
      exact ⟨_, hblock⟩

end Parse

/-! ## The keywords of a rule -/

/-- The keywords of rule `i`, by their numbers. -/
def ruleKeywords (header : JaccardHeader) (i : Nat) : List Nat :=
  (List.range header.keywords.length).filter fun k => ruleOf header k = i

/-- **The rows of an accepted policy.** -/
structure Rows (u : Unicode) (header : JaccardHeader) (signals : List Dict)
    (blocks : List (List KeywordRow)) : Prop where
  count : blocks.length = signals.length
  keywords : header.keywords = blocks.flatten
  casefolds : casefoldEntries u (signals.flatMap (foldedTexts u)) = .ok header.casefolds
  arity : ∀ signal ∈ signals, (signal.getD "ngram_arity" (.int 3)).toInt u = .ok jaccardArity
  block : ∀ (i : Nat) signal block, signals[i]? = some signal → blocks[i]? = some block →
    BlockOf u signal i block

section Rows
variable {u : Unicode}

theorem parseJaccard_blocks {policy : Dict} {header : JaccardHeader} {signals : List Dict}
    (hread : keywordSignals policy = .ok (signals.map PyVal.dict))
    (h : parseJaccard u policy false = .ok header) : ∃ blocks, Rows u header signals blocks := by
  unfold parseJaccard at h
  obtain ⟨raws, hraws, h⟩ := bind_ok h
  obtain ⟨d, -, h⟩ := bind_ok h
  obtain ⟨s, hs, h⟩ := bind_ok h
  obtain ⟨casefolds, hcasefolds, h⟩ := bind_ok h
  cases h
  obtain rfl := Except.ok.inj (hread.symm.trans hraws)
  obtain ⟨blocks, hblocks⟩ := Blocks.signals hs
  exact ⟨blocks, hblocks.count, hblocks.keywords, hblocks.texts ▸ hcasefolds, hblocks.arity,
    hblocks.block⟩

variable {header : JaccardHeader} {signals : List Dict} {blocks : List (List KeywordRow)}
  (h : Rows u header signals blocks)
include h

/-- The row at a place of a block. -/
theorem Rows.row_at {i : Nat} {block : List KeywordRow} (hblock : blocks[i]? = some block)
    {j : Nat} (hj : j < block.length) :
    header.keywords[(blocks.take i).flatten.length + j]? = some block[j] := by
  have hplace := getElem?_flatMap_part (f := id) hblock hj
  rw [List.flatMap_id, List.flatMap_id] at hplace
  rw [h.keywords, hplace]
  exact List.getElem?_eq_getElem hj

/-- The rows of a block carry its number. -/
theorem Rows.ruleId {i : Nat} {block : List KeywordRow} (hblock : blocks[i]? = some block)
    {j : Nat} (hj : j < block.length) : block[j].ruleId = i := by
  have hlt : i < signals.length := h.count ▸ (List.getElem?_eq_some_iff.mp hblock).1
  obtain ⟨values, -, hall⟩ := h.block i _ block (List.getElem?_eq_getElem hlt) hblock
  obtain ⟨value, -, hrow⟩ := forall₂_getElem? hall (List.getElem?_eq_getElem hj)
  exact gramCounts_ruleId hrow.grams

/-- **The keywords of a rule** are the places of its block. -/
theorem Rows.mem_ruleKeywords {i : Nat} {block : List KeywordRow}
    (hblock : blocks[i]? = some block) (k : Nat) :
    k ∈ ruleKeywords header i ↔
      ∃ j, j < block.length ∧ k = (blocks.take i).flatten.length + j := by
  rw [ruleKeywords, List.mem_filter, List.mem_range, decide_eq_true_eq]
  constructor
  · -- a row lies in one block, and carries the number of that block
    rintro ⟨hk, hrule⟩
    rw [h.keywords, ← List.flatMap_id] at hk
    obtain ⟨i', block', j, hblock', hj, hplace⟩ := exists_part hk
    have hj : j < block'.length := hj
    rw [List.flatMap_id] at hplace
    rw [ruleOf, hplace, h.row_at hblock' hj, Option.map_some, Option.getD_some,
      h.ruleId hblock' hj] at hrule
    subst hrule
    obtain rfl := Option.some.inj (hblock.symm.trans hblock')
    exact ⟨j, hj, hplace⟩
  · rintro ⟨j, hj, rfl⟩
    have hrow := h.row_at hblock hj
    refine ⟨(List.getElem?_eq_some_iff.mp hrow).1, ?_⟩
    rw [ruleOf, hrow, Option.map_some, Option.getD_some, h.ruleId hblock hj]

/-- A rule has as many keywords as its block has rows. -/
theorem Rows.length_ruleKeywords {i : Nat} {block : List KeywordRow}
    (hblock : blocks[i]? = some block) : (ruleKeywords header i).length = block.length := by
  have hnodup : (ruleKeywords header i).Nodup := List.nodup_range.filter _
  have hplaces : ((List.range block.length).map ((blocks.take i).flatten.length + ·)).Nodup :=
    List.nodup_range.map fun a b hab => Nat.add_left_cancel hab
  have hperm := (List.perm_ext_iff_of_nodup hnodup hplaces).mpr fun k => by
    rw [h.mem_ruleKeywords hblock, List.mem_map]
    constructor
    · rintro ⟨j, hj, rfl⟩
      exact ⟨j, List.mem_range.mpr hj, rfl⟩
    · rintro ⟨j, hj, rfl⟩
      exact ⟨j, List.mem_range.mp hj, rfl⟩
  rw [hperm.length_eq, List.length_map, List.length_range]

end Rows

end Xsr.Policy
