import Xsr.Kernel.Distill
import Xsr.Lib.LittleEndian

/-!
# DistillLoader — the model file reader of the control process

`populate_distill_model` (`distill_model_loader.c`), on the bytes of the
file. It fills the weight map while it reads, and writes the configuration
only at the end, so a file it refuses leaves the signal as it was.
-/

namespace Xsr.Control

open Kernel Lib

/-- `XSR_DISTILL_MODEL_MAGIC`, `"XSRFNV14"`. -/
def distillMagic : List UInt8 := [88, 83, 82, 70, 78, 86, 49, 52]
/-- `XSR_DISTILL_MODEL_VERSION` -/
def distillVersion : Nat := 1
/-- `XSR_DISTILL_CLASSES` -/
def distillClasses : Nat := 14
/-- `INT32_MAX` -/
def int32Max : Nat := 2147483647
/-- `sizeof(struct distill_file_header)`: the magic, five words, a double. -/
def distillHeaderSize : Nat := 36

/-- `struct distill_file_header`, without the `scale` nobody reads. -/
structure DistillHeader where
  magic : List UInt8
  version : Nat
  classes : Nat
  buckets : Nat
  promptBytes : Nat
  scoreBound : Nat

/-- The header's fields at their offsets. -/
def distillHeader (bytes : List UInt8) : DistillHeader where
  magic := field bytes 0 8
  version := leNat (field bytes 8 4)
  classes := leNat (field bytes 12 4)
  buckets := leNat (field bytes 16 4)
  promptBytes := leNat (field bytes 20 4)
  scoreBound := leNat (field bytes 24 4)

/-- The header tests of `populate_distill_model`. -/
def DistillHeader.accepted (h : DistillHeader) : Bool :=
  h.magic == distillMagic && h.version == distillVersion && h.classes == distillClasses
    && h.buckets == distillBuckets && h.promptBytes == distillPromptBytes
    && decide (h.scoreBound ≤ int32Max)

/-- `config.bias`, after the byte-order loop. -/
def biasVector (bytes : List UInt8) : ClassVector :=
  fun c => signed 32 (leNat (field bytes (4 * c.val) 4))

/-- One round of the `max_bias` loop. -/
def maxBiasStep (bias : ClassVector) (maxBias : Nat) (c : Fin 14) : Nat :=
  if maxBias < (bias c).natAbs then (bias c).natAbs else maxBias

/-- `max_bias` -/
def maxBias (bias : ClassVector) : Nat := (List.finRange 14).foldl (maxBiasStep bias) 0

/-- The bound the header has to state. -/
def scoreBoundOf (bias : ClassVector) : Nat := maxBias bias + (distillPromptBytes - 2) * 127

/-- `struct distill_bucket` as read from the file. -/
def bucketWeights (bytes : List UInt8) : ClassVector :=
  fun c => signed 8 (leNat (field bytes c.val 1))

/-- The bucket loop: `n` more buckets from `key` on. `none` is a short read. -/
def loadBuckets : Nat → Nat → BpfMap Nat ClassVector → List UInt8 →
    BpfMap Nat ClassVector × Option (List UInt8)
  | 0, _, weights, input => (weights, some input)
  | n + 1, key, weights, input =>
      if input.length < distillClasses then (weights, none)
      else loadBuckets n (key + 1) (weights.update key (bucketWeights input))
        (input.drop distillClasses)

/-- How `populate_distill_model` ends: `return 0`, or `-1` with an errno; a
short read of the weights sets none. -/
inductive LoadResult where
  | loaded | einval | shortRead | efbig
  deriving DecidableEq, Repr

/-- `populate_distill_model` on an opened file. -/
def populateDistillModel (m : DistillMaps) (file : List UInt8) : DistillMaps × LoadResult :=
  let header := distillHeader file
  let input := file.drop distillHeaderSize
  if file.length < distillHeaderSize ∨ header.accepted = false
      ∨ input.length < 4 * distillClasses then (m, .einval)
  else
    let bias := biasVector input
    if scoreBoundOf bias ≠ header.scoreBound then (m, .einval)
    else
      match loadBuckets distillBuckets 0 m.weights (input.drop (4 * distillClasses)) with
      -- the buckets read so far are in the map, but the classifier stays as it was
      | (weights, none) => ({ m with weights := weights }, .shortRead)
      | (weights, some (_ :: _)) => ({ m with weights := weights }, .efbig)
      | (weights, some []) =>
          ({ weights := weights
             config := some
               { bias := bias, enabled := true, promptByteLimit := header.promptBytes
                 provenScoreBound := header.scoreBound } }, .loaded)

/-- The maps of a program that has just been loaded: array entries of zeros. -/
def emptyDistillMaps : DistillMaps where
  config := some ⟨fun _ => 0, false, 0, 0⟩
  weights := fun key => if key < distillBuckets then some fun _ => 0 else none

/-! ## What an accepted file says -/

theorem maxBias_ge (bias : ClassVector) (c : Fin 14) : (bias c).natAbs ≤ maxBias bias := by
  have hfold : ∀ (cs : List (Fin 14)) (start : Nat),
      start ≤ cs.foldl (maxBiasStep bias) start ∧
      ∀ c ∈ cs, (bias c).natAbs ≤ cs.foldl (maxBiasStep bias) start := by
    intro cs
    induction cs with
    | nil => intro start; simp
    | cons d cs ih =>
        intro start
        obtain ⟨hstart, hall⟩ := ih (maxBiasStep bias start d)
        have hstep : start ≤ maxBiasStep bias start d ∧
            (bias d).natAbs ≤ maxBiasStep bias start d := by
          unfold maxBiasStep; split_ifs <;> omega
        refine ⟨hstep.1.trans hstart, fun c hc => ?_⟩
        rcases List.mem_cons.mp hc with rfl | hc
        · exact hstep.2.trans hstart
        · exact hall c hc
  exact (hfold _ 0).2 c (List.mem_finRange c)

/-- The bucket loop, when the input is long enough: it consumes one record a
bucket and installs each under its key. -/
theorem loadBuckets_spec (n : Nat) : ∀ (key : Nat) (weights : BpfMap Nat ClassVector)
    (input : List UInt8), n * distillClasses ≤ input.length →
    (loadBuckets n key weights input).2 = some (input.drop (n * distillClasses)) ∧
    (∀ k, k < n → (loadBuckets n key weights input).1 (key + k)
      = some (bucketWeights (input.drop (k * distillClasses)))) ∧
    ∀ k, k < key → (loadBuckets n key weights input).1 k = weights k := by
  induction n with
  | zero => intro key weights input _; simp [loadBuckets]
  | succ n ih =>
      intro key weights input hlen
      rw [Nat.succ_mul] at hlen
      have hroom : ¬ input.length < distillClasses := by omega
      obtain ⟨hrest, hnew, hold⟩ := ih (key + 1)
        (weights.update key (bucketWeights input)) (input.drop distillClasses)
        (by rw [List.length_drop]; omega)
      simp only [loadBuckets, hroom, if_false]
      refine ⟨?_, ?_, ?_⟩
      · rw [hrest, List.drop_drop]
        congr 2
        rw [Nat.succ_mul]; omega
      · intro k hk
        cases k with
        | zero =>
            show (loadBuckets n (key + 1) _ _).1 key = _
            rw [hold key (Nat.lt_succ_self _)]
            simp
        | succ k =>
            have := hnew k (by omega)
            rw [List.drop_drop] at this
            rw [show key + (k + 1) = key + 1 + k by omega, this]
            congr 3
            rw [Nat.succ_mul]; omega
      · intro k hk
        rw [hold k (Nat.lt_succ_of_lt hk), BpfMap.update_ne _ _ (Nat.ne_of_lt hk)]

theorem loadBuckets_short (n : Nat) : ∀ (key : Nat) (weights : BpfMap Nat ClassVector)
    (input : List UInt8), input.length < n * distillClasses →
    (loadBuckets n key weights input).2 = none := by
  induction n with
  | zero => intro key weights input h; simp at h
  | succ n ih =>
      intro key weights input h
      rw [Nat.succ_mul] at h
      simp only [loadBuckets]
      split_ifs with hroom
      · rfl
      · exact ih _ _ _ (by rw [List.length_drop]; omega)

/-- The size of a model file. -/
def distillFileSize : Nat :=
  distillHeaderSize + 4 * distillClasses + distillBuckets * distillClasses

/-- The bias section of a file. -/
def fileBias (file : List UInt8) : ClassVector := biasVector (file.drop distillHeaderSize)

/-- The weights of bucket `key` in a file. -/
def fileWeights (file : List UInt8) (key : Nat) : ClassVector :=
  bucketWeights (file.drop (distillHeaderSize + 4 * distillClasses + key * distillClasses))

/-- A file `populate_distill_model` accepts. -/
structure Accepted (file : List UInt8) : Prop where
  header : (distillHeader file).accepted = true
  bound : scoreBoundOf (fileBias file) = (distillHeader file).scoreBound
  size : file.length = distillFileSize

/-- The maps after an accepted file. -/
structure Installed (file : List UInt8) (m : DistillMaps) : Prop where
  config : m.config = some
    { bias := fileBias file, enabled := true, promptByteLimit := distillPromptBytes
      provenScoreBound := scoreBoundOf (fileBias file) }
  weights : ∀ key, key < distillBuckets → m.weights key = some (fileWeights file key)

theorem DistillHeader.accepted_iff (h : DistillHeader) : h.accepted = true ↔
    h.magic = distillMagic ∧ h.version = distillVersion ∧ h.classes = distillClasses ∧
    h.buckets = distillBuckets ∧ h.promptBytes = distillPromptBytes ∧
    h.scoreBound ≤ int32Max := by
  simp [DistillHeader.accepted, and_assoc]

/-- What the bucket loop leaves of the file. -/
theorem loadBuckets_file (m : DistillMaps) (file : List UInt8) :
    (loadBuckets distillBuckets 0 m.weights
      (file.drop (distillHeaderSize + 4 * distillClasses))).2
      = if file.length < distillFileSize then none else some (file.drop distillFileSize) := by
  have hlen : (file.drop (distillHeaderSize + 4 * distillClasses)).length
      = file.length - (distillHeaderSize + 4 * distillClasses) := List.length_drop
  have hpos : 0 < distillBuckets * distillClasses := by decide
  split_ifs with h
  · refine loadBuckets_short distillBuckets 0 m.weights _ ?_
    rw [hlen]
    unfold distillFileSize at h
    omega
  · obtain ⟨hrest, -, -⟩ := loadBuckets_spec distillBuckets 0 m.weights
      (file.drop (distillHeaderSize + 4 * distillClasses))
      (by rw [hlen]; unfold distillFileSize at h; omega)
    rw [hrest, List.drop_drop]
    rfl

/-- **Acceptance**: `return 0` exactly for a well formed file. -/
theorem populateDistillModel_loaded (m : DistillMaps) (file : List UInt8) :
    (populateDistillModel m file).2 = .loaded ↔ Accepted file := by
  have hbias : biasVector (file.drop distillHeaderSize) = fileBias file := rfl
  have hdrop : (file.drop distillHeaderSize).drop (4 * distillClasses)
      = file.drop (distillHeaderSize + 4 * distillClasses) := List.drop_drop
  have hrest := loadBuckets_file m file
  simp only [populateDistillModel, hbias, hdrop]
  by_cases hhead : file.length < distillHeaderSize ∨ (distillHeader file).accepted = false
      ∨ (file.drop distillHeaderSize).length < 4 * distillClasses
  · rw [if_pos hhead]
    refine ⟨fun h => (by cases h), fun h => ?_⟩
    have hsize := h.size
    rw [List.length_drop] at hhead
    unfold distillFileSize at hsize
    rcases hhead with hshort | hheader | hbiases
    · omega
    · rw [h.header] at hheader; cases hheader
    · omega
  rw [if_neg hhead]
  have hheader : (distillHeader file).accepted = true := by
    simpa using fun hf => hhead (.inr (.inl hf))
  by_cases hbound : scoreBoundOf (fileBias file) = (distillHeader file).scoreBound
  · rw [if_neg (not_not.mpr hbound)]
    cases hload : loadBuckets distillBuckets 0 m.weights
        (file.drop (distillHeaderSize + 4 * distillClasses)) with
    | mk weights rest =>
        rw [hload] at hrest
        subst hrest
        by_cases hshort : file.length < distillFileSize
        · simp only [hshort, if_true]
          exact ⟨fun h => (by cases h), fun h => absurd h.size (Nat.ne_of_lt hshort)⟩
        · simp only [hshort, if_false]
          cases hend : file.drop distillFileSize with
          | nil =>
              refine ⟨fun _ => ⟨hheader, hbound, ?_⟩, fun _ => rfl⟩
              exact Nat.le_antisymm (List.drop_eq_nil_iff.mp hend) (Nat.le_of_not_lt hshort)
          | cons b bs =>
              refine ⟨fun h => (by cases h), fun h => ?_⟩
              rw [List.drop_eq_nil_of_le (Nat.le_of_eq h.size)] at hend
              cases hend
  · rw [if_pos hbound]
    exact ⟨fun h => (by cases h), fun h => absurd h.bound hbound⟩

/-- **Installation**: what an accepted file leaves in the maps. -/
theorem Accepted.installed {file : List UInt8} (h : Accepted file) (m : DistillMaps) :
    Installed file (populateDistillModel m file).1 := by
  have hloaded := (populateDistillModel_loaded m file).mpr h
  obtain ⟨-, -, -, -, hprompt, -⟩ := (DistillHeader.accepted_iff _).mp h.header
  have hbias : biasVector (file.drop distillHeaderSize) = fileBias file := rfl
  have hdrop : (file.drop distillHeaderSize).drop (4 * distillClasses)
      = file.drop (distillHeaderSize + 4 * distillClasses) := List.drop_drop
  obtain ⟨-, hnew, -⟩ := loadBuckets_spec distillBuckets 0 m.weights
    (file.drop (distillHeaderSize + 4 * distillClasses))
    (by rw [List.length_drop, h.size]; unfold distillFileSize; omega)
  simp only [populateDistillModel, hbias, hdrop] at hloaded ⊢
  split_ifs at hloaded ⊢
  cases hload : loadBuckets distillBuckets 0 m.weights
      (file.drop (distillHeaderSize + 4 * distillClasses)) with
  | mk weights rest =>
      rw [hload] at hloaded hnew
      match rest, hloaded with
      | some [], _ =>
          refine ⟨by simp only [hprompt, h.bound], fun key hkey => ?_⟩
          have := hnew key hkey
          rw [Nat.zero_add, List.drop_drop] at this
          exact this

/-- An accepted file's bound is a bound on `int32_t`. -/
theorem Accepted.bound_le {file : List UInt8} (h : Accepted file) :
    scoreBoundOf (fileBias file) ≤ int32Max := by
  obtain ⟨-, -, -, -, -, hle⟩ := (DistillHeader.accepted_iff _).mp h.header
  rw [h.bound]
  exact hle

theorem leNat_field_lt (bytes : List UInt8) (offset : Nat) {width n : Nat}
    (h : 256 ^ width ≤ n) : leNat (field bytes offset width) < n := by
  have hlen : (field bytes offset width).length ≤ width := List.length_take_le _ _
  calc leNat (field bytes offset width)
      < 256 ^ (field bytes offset width).length := leNat_lt _
    _ ≤ 256 ^ width := Nat.pow_le_pow_right (by decide) hlen
    _ ≤ n := h

/-- Every weight of a file is an `int8_t`. -/
theorem fileWeights_bounds (file : List UInt8) (key : Nat) (c : Fin 14) :
    -128 ≤ fileWeights file key c ∧ fileWeights file key c ≤ 127 :=
  signed_byte (leNat_field_lt _ _ (by decide))

end Xsr.Control
