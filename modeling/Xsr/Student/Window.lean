import Xsr.Control.DistillLoader
import Mathlib

/-!
# Window — the kernel's scores as a sum over trigrams

The scorer keeps two bytes and adds a weight vector for each byte after the
second. Over a whole prompt that is one sum over the trigrams of its first
`distillPromptBytes` bytes, folded to lower case: `Fed` says so of the state
after any number of bytes, and `feed_fed` proves it byte by byte.
-/

namespace Xsr.Student

open Kernel Lib Control

/-- The bytes the scorer looks at. -/
def scoredPrompt (bytes : List UInt8) : List UInt8 :=
  (bytes.take distillPromptBytes).map lower

/-- The buckets of the consecutive trigrams. -/
def trigramBuckets : List UInt8 → List Nat
  | b2 :: b1 :: b0 :: rest => distillBucket b2 b1 b0 :: trigramBuckets (b1 :: b0 :: rest)
  | _ => []

/-- The two bytes before the next one, zeros standing before the first. -/
def lastPair (bytes : List UInt8) : UInt8 × UInt8 :=
  bytes.foldl (fun p b => (p.2, b)) (0, 0)

@[simp] theorem lastPair_snoc (bytes : List UInt8) (b : UInt8) :
    lastPair (bytes ++ [b]) = ((lastPair bytes).2, b) := by
  simp [lastPair]

/-- One more byte completes one more trigram, from the third on. -/
theorem trigramBuckets_snoc (bytes : List UInt8) (b : UInt8) :
    trigramBuckets (bytes ++ [b]) =
      if bytes.length < 2 then []
      else trigramBuckets bytes ++ [distillBucket (lastPair bytes).1 (lastPair bytes).2 b] := by
  match bytes with
  | [] => rfl
  | [x] => rfl
  | x :: y :: bs =>
      rw [if_neg (by simp)]
      -- the window of the tail is the window of the whole
      have hgo : ∀ (bs : List UInt8) (x y : UInt8),
          trigramBuckets (x :: y :: (bs ++ [b])) = trigramBuckets (x :: y :: bs)
            ++ [distillBucket (bs.foldl (fun p b => (p.2, b)) (x, y)).1
              (bs.foldl (fun p b => (p.2, b)) (x, y)).2 b] := by
        intro bs
        induction bs with
        | nil => intro x y; rfl
        | cons z bs ih =>
            intro x y
            rw [List.cons_append, trigramBuckets, ih y z, trigramBuckets]
            rfl
      exact hgo bs x y

theorem distillBucket_lt (b2 b1 b0 : UInt8) : distillBucket b2 b1 b0 < distillBuckets :=
  Nat.lt_of_le_of_lt Nat.and_le_right (by decide)

theorem trigramBuckets_lt (bytes : List UInt8) : ∀ b ∈ trigramBuckets bytes, b < distillBuckets := by
  induction bytes using List.reverseRecOn with
  | nil => intro b hb; cases hb
  | append_singleton bytes c ih =>
      intro b hb
      rw [trigramBuckets_snoc] at hb
      split_ifs at hb
      · cases hb
      · rcases List.mem_append.mp hb with hb | hb
        · exact ih b hb
        · rw [List.mem_singleton.mp hb]; exact distillBucket_lt _ _ _

theorem length_trigramBuckets (bytes : List UInt8) :
    (trigramBuckets bytes).length = bytes.length - 2 := by
  induction bytes using List.reverseRecOn with
  | nil => rfl
  | append_singleton bytes c ih =>
      rw [trigramBuckets_snoc]
      split_ifs with h
      · simp only [List.length_append, List.length_singleton, List.length_nil]; omega
      · simp only [List.length_append, List.length_singleton, ih]; omega

/-- The trigrams read so far are the first of the whole prompt. -/
theorem trigramBuckets_mono {p bytes : List UInt8} (h : p <+: bytes) :
    trigramBuckets p <+: trigramBuckets bytes := by
  obtain ⟨rest, rfl⟩ := h
  induction rest using List.reverseRecOn with
  | nil => rw [List.append_nil]
  | append_singleton rest b ih =>
      rw [← List.append_assoc, trigramBuckets_snoc]
      split_ifs with hshort
      · have hnone : trigramBuckets p = [] := by
          refine List.length_eq_zero_iff.mp ?_
          rw [length_trigramBuckets]
          simp only [List.length_append] at hshort
          omega
        rw [hnone]
      · exact ih.trans (List.prefix_append _ _)

/-! ## The scores of a file -/

/-- The buckets a prompt meets. -/
def promptBuckets (bytes : List UInt8) : List Nat := trigramBuckets (scoredPrompt bytes)

/-- The score of class `c` as a mathematical sum. -/
def exactScore (file : List UInt8) (bytes : List UInt8) (c : Fin 14) : Int :=
  fileBias file c + ((promptBuckets bytes).map fun b => fileWeights file b c).sum

/-- `xdp_distill_init`, then `xdp_distill_score_char` on each byte. -/
def distillFeed (m : DistillMaps) (bytes : List UInt8) : DistillState :=
  bytes.foldl (distillScoreChar m) (distillInit m .zero)

/-- The state after the bytes of a prompt. -/
structure Fed (file : List UInt8) (bytes : List UInt8) (s : DistillState) : Prop where
  bytesSeen : s.bytesSeen = min bytes.length distillPromptBytes
  previous : (s.previous2, s.previous1) = lastPair (scoredPrompt bytes)
  score : ∀ c, s.score c = s32 (exactScore file bytes c)

theorem scoredPrompt_snoc_of_lt {bytes : List UInt8} (b : UInt8)
    (h : bytes.length < distillPromptBytes) :
    scoredPrompt (bytes ++ [b]) = scoredPrompt bytes ++ [lower b] := by
  unfold scoredPrompt
  rw [List.take_of_length_le (by simp; omega), List.take_of_length_le (Nat.le_of_lt h)]
  simp

theorem scoredPrompt_snoc_of_ge {bytes : List UInt8} (b : UInt8)
    (h : distillPromptBytes ≤ bytes.length) : scoredPrompt (bytes ++ [b]) = scoredPrompt bytes := by
  unfold scoredPrompt
  rw [List.take_append_of_le_length h]

theorem length_scoredPrompt (bytes : List UInt8) :
    (scoredPrompt bytes).length = min bytes.length distillPromptBytes := by
  simp [scoredPrompt, Nat.min_comm]

theorem promptBuckets_mono {p bytes : List UInt8} (h : p <+: bytes) :
    promptBuckets p <+: promptBuckets bytes :=
  trigramBuckets_mono ((h.take distillPromptBytes).map lower)

section Feed
variable {file : List UInt8} {m : DistillMaps}

/-- **One byte.** -/
theorem Fed.byte (hm : Installed file m) {bytes : List UInt8} {s : DistillState}
    (h : Fed file bytes s) (b : UInt8) : Fed file (bytes ++ [b]) (distillScoreChar m s b) := by
  have hseen := h.bytesSeen
  rcases Nat.lt_or_ge bytes.length distillPromptBytes with hlt | hge
  · have hroom : ¬ distillPromptBytes ≤ s.bytesSeen := by omega
    have hsucc : u32 (s.bytesSeen + 1) = bytes.length + 1 := by
      rw [u32_of_lt (by unfold distillPromptBytes at hlt; omega)]; omega
    have hscored := scoredPrompt_snoc_of_lt b hlt
    have hlen : (scoredPrompt bytes).length = bytes.length := by
      rw [length_scoredPrompt]; omega
    have hnext : lastPair (scoredPrompt (bytes ++ [b])) = (s.previous1, lower b) := by
      rw [hscored, lastPair_snoc, ← h.previous]
    have hbuckets := trigramBuckets_snoc (scoredPrompt bytes) (lower b)
    rw [hlen, ← h.previous, ← hscored] at hbuckets
    by_cases hwarm : bytes.length + 1 < 3
    · have hempty : promptBuckets bytes = [] := by
        refine List.length_eq_zero_iff.mp ?_
        rw [promptBuckets, length_trigramBuckets, hlen]; omega
      simp only [distillScoreChar, hroom, if_false, hsucc, hwarm, if_true]
      refine ⟨?_, hnext.symm, fun c => ?_⟩
      · simp only [List.length_append, List.length_singleton]; omega
      · rw [h.score c, exactScore, exactScore, hempty]
        rw [if_pos (by omega)] at hbuckets
        rw [promptBuckets, hbuckets]
    · rw [if_neg (by omega)] at hbuckets
      have hweight := hm.weights _ (distillBucket_lt s.previous2 s.previous1 (lower b))
      simp only [distillScoreChar, hroom, if_false, hsucc, hwarm, hweight]
      refine ⟨?_, hnext.symm, fun c => ?_⟩
      · simp only [List.length_append, List.length_singleton]; omega
      · show s32 (s.score c + _) = _
        rw [h.score c, s32_add_left, exactScore, exactScore, promptBuckets, promptBuckets, hbuckets]
        simp only [List.map_append, List.sum_append, List.map_cons, List.map_nil, List.sum_cons,
          List.sum_nil, Int.add_zero, Int.add_assoc]
  · have hfull : distillPromptBytes ≤ s.bytesSeen := by omega
    have hscored := scoredPrompt_snoc_of_ge b hge
    simp only [distillScoreChar, hfull, if_true]
    refine ⟨?_, ?_, fun c => ?_⟩
    · rw [hseen]
      simp only [List.length_append, List.length_singleton]; omega
    · rw [hscored]; exact h.previous
    · rw [h.score c, exactScore, exactScore, promptBuckets, promptBuckets, hscored]

/-- **Any prompt.** -/
theorem feed_fed (hm : Installed file m) (bytes : List UInt8) :
    Fed file bytes (distillFeed m bytes) := by
  induction bytes using List.reverseRecOn with
  | nil =>
      have hstart : distillFeed m [] = { DistillState.zero with score := fileBias file } := by
        simp [distillFeed, distillInit, hm.config]
      rw [hstart]
      refine ⟨rfl, rfl, fun c => ?_⟩
      have hbias : -2147483648 ≤ fileBias file c ∧ fileBias file c ≤ 2147483647 :=
        signed_word (leNat_field_lt _ _ (by decide))
      have hexact : exactScore file [] c = fileBias file c := by
        simp [exactScore, promptBuckets, scoredPrompt, trigramBuckets]
      rw [hexact, s32_of_bounds hbias.1 (by omega)]
  | append_singleton bytes b ih =>
      have hfeed : distillFeed m (bytes ++ [b]) = distillScoreChar m (distillFeed m bytes) b := by
        simp [distillFeed]
      rw [hfeed]
      exact ih.byte hm b

end Feed

end Xsr.Student
