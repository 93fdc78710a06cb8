import Xsr.Student.Window

/-!
# Bound — when the proven score bound is a bound

The loader checks that the header's bound is the largest bias plus 127 for
each trigram a prompt can have, but an `int8_t` weight can be -128. Each
such weight overshoots the 127 by one, which the other weights, the bias and
the trigrams not yet read may or may not cover (`withinBound_iff`). A class
whose -128 weights no trigram of the prompt meets stays within the bound from
the first byte to the last (`score_bound_unless_lowest`).
-/

namespace Xsr.Student

open Kernel Lib Control

/-- What a weight leaves unused of 127, going down; -128 leaves nothing. -/
def unused (weight : Int) : Int := if weight = -128 then 0 else weight + 127

theorem unused_nonneg {weight : Int} (h : -128 ≤ weight) : 0 ≤ unused weight := by
  unfold unused
  split_ifs <;> omega

/-- How many -128 weights of class `c` the prompt meets. -/
def overshoot (file : List UInt8) (bytes : List UInt8) (c : Fin 14) : Nat :=
  (promptBuckets bytes).countP fun b => fileWeights file b c = -128

/-- What the other weights met, the bias and the unread trigrams leave
unused of the bound. -/
def headroom (file : List UInt8) (bytes : List UInt8) (c : Fin 14) : Int :=
  ((promptBuckets bytes).map fun b => unused (fileWeights file b c)).sum
    + (maxBias (fileBias file) + fileBias file c)
    + 127 * (distillPromptBytes - 2 - (promptBuckets bytes).length)

/-- A trigram of the prompt meets a weight of -128 of class `c`. -/
def MeetsLowest (file : List UInt8) (bytes : List UInt8) (c : Fin 14) : Prop :=
  ∃ b ∈ promptBuckets bytes, fileWeights file b c = -128

theorem MeetsLowest.of_prefix {file p bytes : List UInt8} {c : Fin 14} (h : MeetsLowest file p c)
    (hp : p <+: bytes) : MeetsLowest file bytes c := by
  obtain ⟨b, hb, hlowest⟩ := h
  exact ⟨b, (promptBuckets_mono hp).subset hb, hlowest⟩

/-- The score of class `c` keeps its promise: no wrap-around, and within the
bound the loader proved. -/
def WithinBound (file : List UInt8) (m : DistillMaps) (bytes : List UInt8) (c : Fin 14) : Prop :=
  (distillFeed m bytes).score c = exactScore file bytes c ∧
  -(scoreBoundOf (fileBias file) : Int) ≤ (distillFeed m bytes).score c ∧
  (distillFeed m bytes).score c ≤ scoreBoundOf (fileBias file)

theorem length_promptBuckets (bytes : List UInt8) :
    (promptBuckets bytes).length ≤ distillPromptBytes - 2 := by
  rw [promptBuckets, length_trigramBuckets, length_scoredPrompt]
  omega

/-- The weights met, sorted into what they leave unused and the overshoot. -/
theorem sum_weights (w : Nat → Int) (buckets : List Nat) :
    (buckets.map w).sum = (buckets.map fun b => unused (w b)).sum
      - buckets.countP (fun b => w b = -128) - 127 * buckets.length := by
  induction buckets with
  | nil => simp
  | cons b buckets ih =>
      simp only [List.map_cons, List.sum_cons, List.countP_cons, List.length_cons, ih]
      by_cases h : w b = -128
      · simp only [unused, h, if_true, decide_true]
        omega
      · simp only [unused, h, if_false, decide_false, Bool.false_eq_true]
        omega

theorem exactScore_eq (file bytes : List UInt8) (c : Fin 14) :
    exactScore file bytes c
      = headroom file bytes c - overshoot file bytes c - scoreBoundOf (fileBias file) := by
  have hlen := length_promptBuckets bytes
  have hprompt : distillPromptBytes = 16384 := rfl
  rw [exactScore, sum_weights, headroom, overshoot, scoreBoundOf]
  push_cast
  omega

/-- No sum is above the bound. -/
theorem exactScore_le (file bytes : List UInt8) (c : Fin 14) :
    exactScore file bytes c ≤ scoreBoundOf (fileBias file) := by
  have hlen := length_promptBuckets bytes
  have hbias := maxBias_ge (fileBias file) c
  have hsum : ∀ buckets : List Nat,
      (buckets.map fun b => fileWeights file b c).sum ≤ 127 * buckets.length := by
    intro buckets
    induction buckets with
    | nil => simp
    | cons b buckets ih =>
        have hb := (fileWeights_bounds file b c).2
        simp only [List.map_cons, List.sum_cons, List.length_cons]
        omega
  have hmet := hsum (promptBuckets bytes)
  rw [exactScore, scoreBoundOf]
  push_cast
  omega

section Accepted
variable {file : List UInt8} {m : DistillMaps}

/-- One state: the promise is kept exactly when the overshoot is covered. -/
theorem withinBound_iff (h : Accepted file) (hm : Installed file m) (bytes : List UInt8)
    (c : Fin 14) :
    WithinBound file m bytes c ↔ (overshoot file bytes c : Int) ≤ headroom file bytes c := by
  have hbound := h.bound_le
  have hscore := (feed_fed hm bytes).score c
  have heq := exactScore_eq file bytes c
  have hle := exactScore_le file bytes c
  unfold int32Max at hbound
  constructor
  · rintro ⟨hexact, hlow, -⟩
    rw [hexact] at hlow
    omega
  · intro hcover
    have hwrap : (distillFeed m bytes).score c = exactScore file bytes c := by
      rw [hscore, s32_of_bounds (by omega) (by omega)]
    refine ⟨hwrap, ?_, ?_⟩ <;> rw [hwrap]
    · omega
    · exact hle

/-- Without a weight of -128 there is nothing to cover. -/
theorem withinBound_of_not_meets (h : Accepted file) (hm : Installed file m) {bytes : List UInt8}
    {c : Fin 14} (hnot : ¬ MeetsLowest file bytes c) : WithinBound file m bytes c := by
  refine (withinBound_iff h hm bytes c).mpr ?_
  have hbias := maxBias_ge (fileBias file) c
  have hlen := length_promptBuckets bytes
  have hnone : overshoot file bytes c = 0 := by
    refine List.countP_eq_zero.mpr fun b hb => ?_
    simp only [decide_eq_true_eq]
    exact fun hlowest => hnot ⟨b, hb, hlowest⟩
  have hunused : ∀ buckets : List Nat,
      0 ≤ (buckets.map fun b => unused (fileWeights file b c)).sum := by
    intro buckets
    induction buckets with
    | nil => simp
    | cons b buckets ih =>
        have hb := unused_nonneg (fileWeights_bounds file b c).1
        simp only [List.map_cons, List.sum_cons]
        omega
  have hsum := hunused (promptBuckets bytes)
  rw [hnone, headroom]
  have hprompt : distillPromptBytes = 16384 := rfl
  omega

/-- **The score bound.** For a file the loader accepts and any bytes, a class
stays within the bound after every byte when no trigram of the first
`distillPromptBytes` bytes meets one of its -128 weights. -/
theorem score_bound_unless_lowest (h : (populateDistillModel m file).2 = .loaded)
    (bytes : List UInt8) (c : Fin 14) (hnot : ¬ MeetsLowest file bytes c) :
    ∀ p, p <+: bytes → WithinBound file (populateDistillModel m file).1 p c := by
  have hfile := (populateDistillModel_loaded m file).mp h
  exact fun p hp =>
    withinBound_of_not_meets hfile (hfile.installed m) fun hmeets => hnot (hmeets.of_prefix hp)

/-- Weights of at least -127 are never the lowest. -/
theorem withinBound_of_weights (h : Accepted file) (hm : Installed file m)
    (hw : ∀ key, key < distillBuckets → ∀ c, -127 ≤ fileWeights file key c)
    (bytes : List UInt8) (c : Fin 14) : WithinBound file m bytes c := by
  refine withinBound_of_not_meets h hm ?_
  rintro ⟨b, hb, hlowest⟩
  have hge := hw b (trigramBuckets_lt _ b hb) c
  omega

end Accepted

/-! ## Files -/

/-- A file from its three sections. -/
def modelFile (header biases weights : List UInt8) : List UInt8 := header ++ biases ++ weights

/-- The sections of a file have the sizes the reader expects. -/
structure Sections (header biases weights : List UInt8) : Prop where
  header : header.length = distillHeaderSize
  biases : biases.length = 4 * distillClasses
  weights : weights.length = distillBuckets * distillClasses

section Sections
variable {header biases weights : List UInt8}

theorem Sections.header_eq (h : Sections header biases weights) :
    distillHeader (modelFile header biases weights) = distillHeader header := by
  have hlen := h.header
  unfold distillHeaderSize at hlen
  have hfield : ∀ offset width, offset + width ≤ 36 →
      field (modelFile header biases weights) offset width = field header offset width := by
    intro offset width hle
    rw [modelFile, List.append_assoc, field_append_left (by omega)]
  simp only [distillHeader, hfield _ _ (by decide : 0 + 8 ≤ 36),
    hfield _ _ (by decide : 8 + 4 ≤ 36), hfield _ _ (by decide : 12 + 4 ≤ 36),
    hfield _ _ (by decide : 16 + 4 ≤ 36), hfield _ _ (by decide : 20 + 4 ≤ 36),
    hfield _ _ (by decide : 24 + 4 ≤ 36)]

theorem Sections.bias_eq (h : Sections header biases weights) :
    fileBias (modelFile header biases weights) = biasVector biases := by
  funext c
  have hlen := h.biases
  unfold distillClasses at hlen
  rw [fileBias, modelFile, List.append_assoc, ← h.header, List.drop_left, biasVector, biasVector,
    field_append_left (by omega)]

theorem Sections.weights_eq (h : Sections header biases weights) (key : Nat) :
    fileWeights (modelFile header biases weights) key
      = bucketWeights (weights.drop (key * distillClasses)) := by
  rw [fileWeights, modelFile, ← h.header, ← h.biases, ← List.length_append, ← List.drop_drop,
    List.drop_left]

/-- A file is accepted when its header states the constants and the bound. -/
theorem Sections.accepted (h : Sections header biases weights)
    (hheader : (distillHeader header).accepted = true)
    (hbound : scoreBoundOf (biasVector biases) = (distillHeader header).scoreBound) :
    Accepted (modelFile header biases weights) := by
  refine ⟨by rw [h.header_eq]; exact hheader, by rw [h.header_eq, h.bias_eq]; exact hbound, ?_⟩
  simp only [modelFile, List.length_append, h.header, h.biases, h.weights]
  rfl

end Sections

/-! ## The lowest weight -/

/-- The header of a file without biases: its bound is `16382 * 127`. -/
def plainHeader : List UInt8 :=
  distillMagic ++ [1, 0, 0, 0, 14, 0, 0, 0, 0, 32, 0, 0, 0, 64, 0, 0, 2, 191, 31, 0]
    ++ List.replicate 8 0

/-- The weight bytes `w bucket class`, one bucket after the other. -/
def filledWeights (w : Nat → Nat → UInt8) : List UInt8 :=
  (List.range (distillBuckets * distillClasses)).map fun i =>
    w (i / distillClasses) (i % distillClasses)

/-- A file without biases whose weights are `w bucket class`. -/
def weightFile (w : Nat → Nat → UInt8) : List UInt8 :=
  modelFile plainHeader (List.replicate (4 * distillClasses) 0) (filledWeights w)

/-- A file without biases whose weights are all `weight`. -/
def constantFile (weight : UInt8) : List UInt8 := weightFile fun _ _ => weight

theorem weightFile_sections (w : Nat → Nat → UInt8) :
    Sections plainHeader (List.replicate (4 * distillClasses) 0) (filledWeights w) :=
  ⟨rfl, List.length_replicate, by rw [filledWeights, List.length_map, List.length_range]⟩

theorem weightFile_bias (w : Nat → Nat → UInt8) (c : Fin 14) : fileBias (weightFile w) c = 0 := by
  rw [weightFile, (weightFile_sections w).bias_eq]
  revert c
  decide

theorem weightFile_accepted (w : Nat → Nat → UInt8) : Accepted (weightFile w) :=
  (weightFile_sections w).accepted (by decide) (by decide)

theorem weightFile_loaded (w : Nat → Nat → UInt8) (m : DistillMaps) :
    (populateDistillModel m (weightFile w)).2 = .loaded :=
  (populateDistillModel_loaded m _).mpr (weightFile_accepted w)

theorem weightFile_weights (w : Nat → Nat → UInt8) {key : Nat} (hkey : key < distillBuckets)
    (c : Fin 14) : fileWeights (weightFile w) key c = signed 8 (w key c.val).toNat := by
  have hc := c.isLt
  have hlt : key * distillClasses + c.val < distillBuckets * distillClasses := by
    unfold distillBuckets at hkey ⊢
    unfold distillClasses
    omega
  have hdiv : (key * distillClasses + c.val) / distillClasses = key := by
    unfold distillClasses
    omega
  have hmod : (key * distillClasses + c.val) % distillClasses = c.val := by
    unfold distillClasses
    omega
  have hget : (filledWeights w)[key * distillClasses + c.val]? = some (w key c.val) := by
    rw [filledWeights, List.getElem?_map, List.getElem?_range hlt, Option.map_some, hdiv, hmod]
  rw [weightFile, (weightFile_sections w).weights_eq, bucketWeights, field, List.drop_drop,
    List.take_one, List.head?_drop, hget]
  simp [leNat]

theorem constantFile_accepted (weight : UInt8) : Accepted (constantFile weight) :=
  weightFile_accepted _

theorem constantFile_weights (weight : UInt8) {key : Nat} (hkey : key < distillBuckets)
    (c : Fin 14) : fileWeights (constantFile weight) key c = signed 8 weight.toNat :=
  weightFile_weights _ hkey c

theorem sum_map_const {w : Nat → Int} {x : Int} {buckets : List Nat}
    (h : ∀ b ∈ buckets, w b = x) : (buckets.map w).sum = buckets.length * x := by
  induction buckets with
  | nil => simp
  | cons b buckets ih =>
      rw [List.map_cons, List.sum_cons, h b (by simp), ih fun d hd => h d (by simp [hd]),
        List.length_cons, Int.natCast_succ, Int.add_mul]
      omega

/-- The score of a constant file is the weight times the trigrams read. -/
theorem constantFile_exact (weight : UInt8) (bytes : List UInt8) (c : Fin 14) :
    exactScore (constantFile weight) bytes c
      = (promptBuckets bytes).length * signed 8 weight.toNat := by
  rw [exactScore, constantFile, weightFile_bias, Int.zero_add]
  exact sum_map_const fun b hb => constantFile_weights weight (trigramBuckets_lt _ b hb) c

/-- A file whose weights are -128 but in the bucket of `abc`. -/
def lowestElsewhere : List UInt8 :=
  weightFile fun key _ => if key = distillBucket 97 98 99 then 129 else 128

/-- Three letters that meet none of the lowest weights. -/
theorem score_bound_unless_lowest_letters :
    WithinBound lowestElsewhere (populateDistillModel emptyDistillMaps lowestElsewhere).1
      [65, 66, 67] 0 := by
  refine score_bound_unless_lowest (weightFile_loaded _ _) [65, 66, 67] 0 ?_ _ List.prefix_rfl
  rintro ⟨b, hb, hlowest⟩
  obtain rfl : b = distillBucket 97 98 99 := List.mem_singleton.mp hb
  have hweight : fileWeights lowestElsewhere (distillBucket 97 98 99) 0 = signed 8 129 := by
    refine (weightFile_weights _ (distillBucket_lt 97 98 99) 0).trans ?_
    rw [if_pos rfl]
    rfl
  exact absurd (hweight.symm.trans hlowest) (by decide)

/-- **The bound fails** for a file of -128 weights and a prompt of 16384
letters: the loader accepts the file, and the last score is below the bound
it proved. -/
theorem score_bound_fails :
    (populateDistillModel emptyDistillMaps (constantFile 128)).2 = .loaded ∧
    (distillFeed (populateDistillModel emptyDistillMaps (constantFile 128)).1
        (List.replicate distillPromptBytes 97)).score 0
      < -(scoreBoundOf (fileBias (constantFile 128)) : Int) := by
  have haccepted := constantFile_accepted 128
  refine ⟨(populateDistillModel_loaded _ _).mpr haccepted, ?_⟩
  have hlen : (promptBuckets (List.replicate distillPromptBytes 97)).length = 16382 := by
    rw [promptBuckets, length_trigramBuckets, length_scoredPrompt, List.length_replicate]
    rfl
  have hbound : scoreBoundOf (fileBias (constantFile 128)) = 2080514 := by
    rw [haccepted.bound]
    rw [constantFile, weightFile, (weightFile_sections _).header_eq]
    decide
  rw [(feed_fed (haccepted.installed emptyDistillMaps) _).score 0, constantFile_exact, hlen, hbound]
  decide

end Xsr.Student
