import Xsr.Student.Readers

/-!
# Serialization — what `write_kernel_model` writes, the readers read

The writer lays the model out bucket by bucket and states `overflow_bound`
of its biases. Both readers find every weight and bias where they look for
it; the loader refuses the file for one bias only, whose magnitude numpy
computes as negative.
-/

namespace Xsr.Student

open Kernel (ClassVector DistillMaps distillBuckets distillPromptBytes)
open Lib Control

/-! ## The writer -/

/-- `struct.pack` of an `I` field. -/
def packWord (x : Int) : Except String (List UInt8) :=
  if 0 ≤ x ∧ x ≤ 4294967295 then .ok (leBytes 4 x.toNat)
  else .error "argument out of range"

/-- The bytes of a bias vector, `astype("<i4").tobytes()`. -/
def biasBytes (bias : ClassVector) : List UInt8 :=
  (List.finRange 14).flatMap fun c => leBytes 4 (unsigned 32 (bias c))

/-- The bytes of one bucket's weights. -/
def bucketBytes (weights : WeightMatrix) (k : Nat) : List UInt8 :=
  (List.range classCount).flatMap fun c => leBytes 1 (unsigned 8 (weights.entry c k))

/-- `weights.T.tobytes()`, for `CLASS_COUNT` rows. -/
def weightBytes (weights : WeightMatrix) : List UInt8 :=
  (List.range weights.columns).flatMap (bucketBytes weights)

/-- `write_kernel_model`: the bytes it writes. The arrays are `int8` and
`int32` already, which the casts at its start leave alone. -/
def writeKernelModel (model : QuantizedModel) : Except String (List UInt8) :=
  let weights := model.weights
  let bias := model.bias
  if weights.rows ≠ classCount then .error "expected weights [14, hash buckets]"
  else
    let featureCount := weights.columns
    if featureCount = 0 ∨ featureCount &&& (featureCount - 1) ≠ 0 then
      .error "hash bucket count must be a positive power of two"
    else
      let bound := overflowBound bias promptByteLimit 127
      if 2147483647 < bound then .error s!"signed int32 score bound exceeded: {bound}"
      else do
        let version ← packWord modelVersion
        let classes ← packWord classCount
        let features ← packWord featureCount
        let promptLimit ← packWord promptByteLimit
        let bound ← packWord bound
        let header := modelMagic ++ version ++ classes ++ features ++ promptLimit ++ bound
          ++ model.scale
        return header ++ biasBytes bias ++ weightBytes weights

/-- An `int8` matrix of deployment's shape, an `int32` bias vector, and a
double. -/
structure IsDeployment (model : QuantizedModel) : Prop where
  rows : model.weights.rows = classCount
  columns : model.weights.columns = deploymentFeatureCount
  weights : ∀ c < classCount, ∀ k < deploymentFeatureCount,
    -128 ≤ model.weights.entry c k ∧ model.weights.entry c k ≤ 127
  bias : ∀ c, -2147483648 ≤ model.bias c ∧ model.bias c ≤ 2147483647
  scale : model.scale.length = 8

/-! ## The file -/

/-- The header of a model whose bound fits. -/
def headerBytes (model : QuantizedModel) (bound : Nat) : List UInt8 :=
  modelMagic ++ leBytes 4 modelVersion ++ leBytes 4 classCount ++ leBytes 4 deploymentFeatureCount
    ++ leBytes 4 promptByteLimit ++ leBytes 4 bound ++ model.scale

theorem length_biasBytes (bias : ClassVector) : (biasBytes bias).length = 4 * distillClasses := by
  rw [biasBytes, length_flatMap_of_size fun _ => length_leBytes 4 _, List.length_finRange]
  rfl

theorem length_bucketBytes (weights : WeightMatrix) (k : Nat) :
    (bucketBytes weights k).length = distillClasses := by
  rw [bucketBytes, length_flatMap_of_size fun _ => length_leBytes 1 _, List.length_range]
  rfl

theorem field_biasBytes (bias : ClassVector) (c : Fin 14) :
    field (biasBytes bias) (4 * c.val) 4 = leBytes 4 (unsigned 32 (bias c)) := by
  have hget : (List.finRange 14)[c.val]? = some c := by
    rw [List.getElem?_eq_getElem (by simp)]
    simp
  have := field_flatMap (f := fun c => leBytes 4 (unsigned 32 (bias c)))
    (fun _ => length_leBytes 4 _) hget (show 0 + 4 ≤ 4 by decide)
  rw [field_drop, Nat.add_zero, Nat.mul_comm] at this
  rw [biasBytes, this]
  exact field_full _

theorem field_bucketBytes (weights : WeightMatrix) (k : Nat) (c : Fin 14) :
    field (bucketBytes weights k) c.val 1 = leBytes 1 (unsigned 8 (weights.entry c k)) := by
  have hget : (List.range classCount)[c.val]? = some c.val := List.getElem?_range c.isLt
  have := field_flatMap (f := fun c => leBytes 1 (unsigned 8 (weights.entry c k)))
    (fun _ => length_leBytes 1 _) hget (show 0 + 1 ≤ 1 by decide)
  rw [field_drop, Nat.add_zero, Nat.mul_one] at this
  rw [bucketBytes, this]
  exact field_full _

section File
variable {model : QuantizedModel} (h : IsDeployment model) {bound : Nat}

/-- The file of a model. -/
def writtenFile (model : QuantizedModel) (bound : Nat) : List UInt8 :=
  modelFile (headerBytes model bound) (biasBytes model.bias) (weightBytes model.weights)

include h

theorem writtenFile_sections :
    Sections (headerBytes model bound) (biasBytes model.bias) (weightBytes model.weights) := by
  refine ⟨?_, length_biasBytes _, ?_⟩
  · simp only [headerBytes, List.length_append, length_leBytes, h.scale]
    rfl
  · rw [weightBytes, length_flatMap_of_size (length_bucketBytes model.weights),
      List.length_range, h.columns]
    rfl

/-- The header states the constants and the bound. -/
theorem writtenFile_header (hbound : bound < 4294967296) :
    distillHeader (writtenFile model bound) =
      ⟨distillMagic, distillVersion, distillClasses, distillBuckets, distillPromptBytes, bound⟩ := by
  rw [writtenFile, (writtenFile_sections h).header_eq]
  have hword : ∀ {offset n : Nat}, field (headerBytes model bound) offset 4 = leBytes 4 n →
      n < 4294967296 → leNat (field (headerBytes model bound) offset 4) = n := by
    intro offset n hfield hn
    rw [hfield, leNat_leBytes (by omega)]
  rw [distillHeader, hword (n := modelVersion) rfl (by decide),
    hword (n := classCount) rfl (by decide), hword (n := deploymentFeatureCount) rfl (by decide),
    hword (n := promptByteLimit) rfl (by decide), hword (n := bound) rfl hbound]
  rfl

theorem writtenFile_bias : fileBias (writtenFile model bound) = model.bias := by
  rw [writtenFile, (writtenFile_sections h).bias_eq]
  funext c
  obtain ⟨hlt, heq⟩ := signed_unsigned_word (h.bias c)
  rw [biasVector, field_biasBytes, leNat_leBytes (by omega), heq]

theorem writtenFile_weights {key : Nat} (hkey : key < distillBuckets) (c : Fin 14) :
    fileWeights (writtenFile model bound) key c = model.weights.entry c key := by
  obtain ⟨hlt, heq⟩ := signed_unsigned_byte (h.weights c c.isLt key hkey)
  have hget : (List.range model.weights.columns)[key]? = some key := by
    rw [h.columns]
    exact List.getElem?_range hkey
  have hc : c.val + 1 ≤ distillClasses := c.isLt
  rw [writtenFile, (writtenFile_sections h).weights_eq, bucketWeights, weightBytes,
    field_flatMap (length_bucketBytes model.weights) hget hc, field_bucketBytes,
    leNat_leBytes (by omega), heq]

/-- **The writer accepts** a model whose bound is an `int32_t`, and not
negative. -/
theorem writeKernelModel_ok_iff (file : List UInt8) :
    writeKernelModel model = .ok file ↔
      ∃ bound : Nat, overflowBound model.bias promptByteLimit 127 = bound ∧
        bound ≤ 2147483647 ∧ file = writtenFile model bound := by
  have hcolumns : ¬ (model.weights.columns = 0 ∨
      model.weights.columns &&& (model.weights.columns - 1) ≠ 0) := by
    rw [h.columns]
    decide
  have hword : ∀ n : Nat, n < 4294967296 → packWord n = .ok (leBytes 4 n) := by
    intro n hn
    rw [packWord, if_pos ⟨by omega, by omega⟩]
    rfl
  unfold writeKernelModel
  rw [if_neg (not_not.mpr h.rows), if_neg hcolumns]
  dsimp only
  generalize hstated : overflowBound model.bias promptByteLimit 127 = stated
  by_cases hbig : 2147483647 < stated
  · rw [if_pos hbig]
    constructor
    · intro h
      cases h
    · rintro ⟨bound, rfl, hle, -⟩
      omega
  · rw [if_neg hbig, hword _ (by decide), hword _ (by decide), h.columns, hword _ (by decide),
      hword _ (by decide)]
    by_cases hneg : 0 ≤ stated
    · obtain ⟨bound, rfl⟩ := Int.eq_ofNat_of_zero_le hneg
      rw [hword bound (by omega)]
      constructor
      · exact fun hok => ⟨bound, rfl, by omega, (Except.ok.inj hok).symm⟩
      · rintro ⟨bound', heq, -, rfl⟩
        rw [Int.natCast_inj.mp heq]
        rfl
    · have hpack : packWord stated = .error "argument out of range" := if_neg fun h => hneg h.1
      rw [hpack]
      constructor
      · intro h
        cases h
      · rintro ⟨bound, rfl, -⟩
        omega

end File

/-! ## The round trip -/

/-- Both readers accept the file and find the model in it. -/
structure RoundTrips (m : DistillMaps) (model : QuantizedModel) (file : List UInt8) : Prop where
  read : ∃ read, readDeploymentModel file = .ok read ∧ read.bias = model.bias ∧
    read.weights.rows = model.weights.rows ∧ read.weights.columns = model.weights.columns ∧
    ∀ c : Fin 14, ∀ k < distillBuckets, read.weights.entry c k = model.weights.entry c k
  loaded : (populateDistillModel m file).2 = .loaded
  bias : ∃ config, (populateDistillModel m file).1.config = some config ∧
    ∀ c, config.bias c = model.bias c
  weights : ∀ k < distillBuckets, ∃ bucket, (populateDistillModel m file).1.weights k = some bucket ∧
    ∀ c : Fin 14, bucket c = model.weights.entry c k

section RoundTrip
variable {model : QuantizedModel} (h : IsDeployment model) {file : List UInt8}

include h

/-- A written file frames the model, and Python's reader checks the bound its
writer stated. -/
theorem written_framed (hw : writeKernelModel model = .ok file) :
    Framed file ∧ fileBias file = model.bias ∧
      overflowBound (fileBias file) promptByteLimit 127 = (distillHeader file).scoreBound ∧
      (distillHeader file).scoreBound ≤ int32Max ∧
      ∀ key < distillBuckets, ∀ c : Fin 14, fileWeights file key c = model.weights.entry c key := by
  obtain ⟨bound, hstated, hle, rfl⟩ := (writeKernelModel_ok_iff h file).mp hw
  have hheader := writtenFile_header h (show bound < 4294967296 by omega)
  have hsections : Sections (headerBytes model bound) _ _ := writtenFile_sections h
  refine ⟨?_, writtenFile_bias h, ?_, ?_, fun key hkey c => writtenFile_weights h hkey c⟩
  · refine ⟨by rw [hheader], by rw [hheader], by rw [hheader], by rw [hheader], by rw [hheader], ?_⟩
    simp only [writtenFile, modelFile, List.length_append, hsections.header, hsections.biases,
      hsections.weights]
    rfl
  · rw [writtenFile_bias h, hheader]
    exact hstated
  · rw [hheader]
    exact hle

theorem written_read (hw : writeKernelModel model = .ok file) :
    ∃ read, readDeploymentModel file = .ok read ∧ read.bias = model.bias ∧
      read.weights.rows = model.weights.rows ∧ read.weights.columns = model.weights.columns ∧
      ∀ c : Fin 14, ∀ k < distillBuckets, read.weights.entry c k = model.weights.entry c k := by
  obtain ⟨hframed, hbias, hbound, -, hweights⟩ := written_framed h hw
  refine ⟨fileModel file, (readDeploymentModel_ok_iff file _).mpr ⟨hframed, hbound, rfl⟩, hbias,
    h.rows.symm, h.columns.symm, fun c k hk => ?_⟩
  rw [fileModel_entry, hweights k hk c]

/-- The loader accepts what was written, but for the lowest bias. -/
theorem written_loaded_iff (m : DistillMaps) (hw : writeKernelModel model = .ok file) :
    (populateDistillModel m file).2 = .loaded ↔ ∀ c, model.bias c ≠ -2147483648 := by
  obtain ⟨hframed, hbias, hbound, hle, -⟩ := written_framed h hw
  rw [populateDistillModel_loaded, accepted_iff_framed, ← hbias]
  constructor
  · rintro ⟨-, -, heq⟩ c hc
    have hlarge := (exists_biasLimit_iff (fileBias file)).mp ⟨c, by rw [hc]; decide⟩
    omega
  · intro hnone
    refine ⟨hframed, hle, ?_⟩
    have hsmall : ∀ c, (fileBias file c).natAbs < 2147483648 := by
      intro c
      have := fileBias_bounds file c
      have := hnone c
      omega
    rw [overflowBound, maxAbs_eq hsmall] at hbound
    have hcast : (scoreBoundOf (fileBias file) : Int) = (distillHeader file).scoreBound := by
      rw [← hbound, scoreBoundOf]
      rfl
    exact Int.natCast_inj.mp hcast

/-- **The round trip**: a file the writer wrote is read back by both readers
exactly when no bias is -2147483648. -/
theorem round_trips_iff (m : DistillMaps) (hw : writeKernelModel model = .ok file) :
    RoundTrips m model file ↔ ∀ c, model.bias c ≠ -2147483648 := by
  obtain ⟨hframed, hbias, -, -, hweights⟩ := written_framed h hw
  refine ⟨fun hrt => (written_loaded_iff h m hw).mp hrt.loaded, fun hnone => ?_⟩
  have hloaded := (written_loaded_iff h m hw).mpr hnone
  have hinstalled := ((populateDistillModel_loaded m file).mp hloaded).installed m
  exact ⟨written_read h hw, hloaded, ⟨_, hinstalled.config, fun c => congrFun hbias c⟩,
    fun k hk => ⟨_, hinstalled.weights k hk, hweights k hk⟩⟩

end RoundTrip

/-! ## Models -/

/-- A model of zero weights with a given bias for the first class. -/
def zeroModel (bias : Int) : QuantizedModel where
  weights := ⟨classCount, deploymentFeatureCount, fun _ _ => 0⟩
  bias := fun c => if c = 0 then bias else 0
  scale := List.replicate 8 0

theorem zeroModel_deployment {bias : Int} (h : -2147483648 ≤ bias ∧ bias ≤ 2147483647) :
    IsDeployment (zeroModel bias) := by
  refine ⟨rfl, rfl, fun _ _ _ _ => ⟨?_, ?_⟩, fun c => ?_, rfl⟩
  · show (-128 : Int) ≤ 0
    decide
  · show (0 : Int) ≤ 127
    decide
  · show _ ≤ (if c = 0 then bias else 0) ∧ (if c = 0 then bias else 0) ≤ _
    split_ifs <;> omega

/-- **The lowest bias** is written and not loaded. -/
theorem round_trip_fails : ∃ file, writeKernelModel (zeroModel (-2147483648)) = .ok file ∧
    ¬ RoundTrips emptyDistillMaps (zeroModel (-2147483648)) file := by
  have hmodel : IsDeployment (zeroModel (-2147483648)) := zeroModel_deployment (by decide)
  have hwritten := (writeKernelModel_ok_iff hmodel _).mpr ⟨2080514, by decide, by decide, rfl⟩
  refine ⟨_, hwritten, fun hrt => ?_⟩
  exact (written_loaded_iff hmodel emptyDistillMaps hwritten).mp hrt.loaded 0 rfl

/-- A model whose weights tell classes and buckets apart. -/
def stepModel : QuantizedModel where
  weights := ⟨classCount, deploymentFeatureCount, fun c k => ((k + 9 * c) % 255 : Nat) - 127⟩
  bias := fun c => 7 * c.val - 40
  scale := List.replicate 8 0

theorem stepModel_deployment : IsDeployment stepModel := by
  refine ⟨rfl, rfl, fun c _ k _ => ?_, fun c => ?_, rfl⟩
  · show -128 ≤ (((k + 9 * c) % 255 : Nat) : Int) - 127 ∧ (((k + 9 * c) % 255 : Nat) : Int) - 127 ≤ 127
    omega
  · show -2147483648 ≤ 7 * (c.val : Int) - 40 ∧ 7 * (c.val : Int) - 40 ≤ 2147483647
    omega

/-- Its file is written and read back. -/
theorem round_trips_iff_steps : ∃ file, writeKernelModel stepModel = .ok file ∧
    RoundTrips emptyDistillMaps stepModel file := by
  have hwritten := (writeKernelModel_ok_iff stepModel_deployment _).mpr
    ⟨2080565, by decide, by decide, rfl⟩
  refine ⟨_, hwritten,
    (round_trips_iff stepModel_deployment emptyDistillMaps hwritten).mpr fun c => ?_⟩
  show 7 * (c.val : Int) - 40 ≠ -2147483648
  omega

end Xsr.Student
