import Xsr.Kernel.Distill
import Xsr.Lib.LittleEndian
import Xsr.Lib.Utf8

/-!
# Core — the student in Python

`core.py`: the byte normalisation, the hashed trigrams, the integer scores
and the prediction, and the reader of a model file. A raised exception is
the `error` with its message; an `int64` sum wraps as numpy's does.
-/

namespace Xsr.Student

open Kernel (ClassVector s32 s64)
open Lib

/-- `CLASS_COUNT` -/
def classCount : Nat := 14
/-- `PROMPT_BYTE_LIMIT` -/
def promptByteLimit : Nat := 16384
/-- `DEPLOYMENT_FEATURE_COUNT` -/
def deploymentFeatureCount : Nat := 8192
/-- `FNV_OFFSET` -/
def fnvOffset : Nat := 2166136261
/-- `FNV_PRIME` -/
def fnvPrime : Nat := 16777619
/-- `MODEL_MAGIC`, `b"XSRFNV14"`. -/
def modelMagic : List UInt8 := [88, 83, 82, 70, 78, 86, 49, 52]
/-- `MODEL_VERSION` -/
def modelVersion : Nat := 1

/-- `normalize_bytes` -/
def normalizeBytes (prompt : List Char) (limit : Nat) : List UInt8 :=
  ((encodeUtf8 prompt).take limit).map fun value =>
    if 65 ≤ value ∧ value ≤ 90 then value + 32 else value

/-- One turn of the loop of `fnv1a_trigram`. -/
def fnvStep (value : Nat) (byte : UInt8) : Nat :=
  ((value ^^^ byte.toNat) * fnvPrime) &&& 0xFFFFFFFF

/-- `fnv1a_trigram` -/
def fnv1aTrigram (trigram : List UInt8) (featureCount : Nat) : Except String Nat :=
  if featureCount = 0 ∨ featureCount &&& (featureCount - 1) ≠ 0 then
    .error "feature count must be a positive power of two"
  else .ok (trigram.foldl fnvStep fnvOffset &&& (featureCount - 1))

/-- `feature_indices` -/
def featureIndices (prompt : List Char) (limit featureCount : Nat) : Except String (List Nat) :=
  let data := normalizeBytes prompt limit
  (List.range (data.length - 2)).mapM fun i => fnv1aTrigram ((data.drop i).take 3) featureCount

/-- A two-dimensional integer array, with its shape. -/
structure WeightMatrix where
  rows : Nat
  columns : Nat
  entry : Nat → Nat → Int

/-- `integer_scores` -/
def integerScores (prompt : List Char) (weights : WeightMatrix) (bias : ClassVector) :
    Except String ClassVector :=
  if weights.rows ≠ classCount then .error "weights must have shape [14, hash buckets]"
  else do
    let indices ← featureIndices prompt promptByteLimit weights.columns
    if indices.length ≠ 0 then
      return fun c => s64 (bias c + s64 (indices.map fun index => weights.entry c index).sum)
    else return bias

/-- `np.argmax`: the first index of a maximum. -/
def argmax (values : List Int) : Nat :=
  match values.max? with
  | some best => values.idxOf best
  | none => 0

/-- `predict` -/
def predict (scores : ClassVector) : Nat := argmax (List.ofFn scores)

/-! ## The model file -/

/-- `QuantizedModel`; the scale is kept as its eight bytes. -/
structure QuantizedModel where
  weights : WeightMatrix
  bias : ClassVector
  scale : List UInt8

/-- `np.max(np.abs(bias))` on an `int32` array, where `np.abs` wraps. -/
def maxAbs (bias : ClassVector) : Int :=
  (List.finRange 14).foldl (fun best c => max best (s32 (bias c).natAbs)) (s32 (bias 0).natAbs)

/-- `overflow_bound` -/
def overflowBound (bias : ClassVector) (promptLimit weightBound : Int) : Int :=
  maxAbs bias + max 0 (promptLimit - 2) * weightBound

/-- `struct.calcsize("<8sIIIIId")` -/
def headerSize : Nat := 36

/-- `read_kernel_model` -/
def readKernelModel (data : List UInt8) (requiredFeatureCount : Option Nat) :
    Except String QuantizedModel :=
  if data.length < headerSize then .error "unpack requires a buffer of 36 bytes"
  else
    let magic := field data 0 8
    let version := leNat (field data 8 4)
    let classes := leNat (field data 12 4)
    let features := leNat (field data 16 4)
    let promptLimit := leNat (field data 20 4)
    let bound := leNat (field data 24 4)
    let scale := field data 28 8
    if (magic, version, classes, promptLimit)
          ≠ (modelMagic, modelVersion, classCount, promptByteLimit)
        ∨ features = 0 ∨ features &&& (features - 1) ≠ 0 then
      .error "incompatible kernel model header"
    else if requiredFeatureCount.isSome ∧ some features ≠ requiredFeatureCount then
      .error s!"model has {features} buckets; required {requiredFeatureCount.getD 0}"
    else
      let expected := headerSize + classCount * 4 + features * classCount
      if data.length ≠ expected then
        .error s!"bad model size {data.length} (expected {expected})"
      else
        let offset := headerSize
        let biasData := field data offset (classCount * 4)
        let weightData := data.drop (offset + classCount * 4)
        let bias : ClassVector := fun c => signed 32 (leNat (field biasData (c.val * 4) 4))
        let weights : WeightMatrix :=
          { rows := classCount
            columns := features
            entry := fun c k => signed 8 (leNat (field weightData (k * classCount + c) 1)) }
        -- the weights may be -128, the bound is computed with 127
        if overflowBound bias promptByteLimit 127 ≠ bound then
          .error "model overflow proof does not match payload"
        else .ok ⟨weights, bias, scale⟩

/-- `read_deployment_model` -/
def readDeploymentModel (data : List UInt8) : Except String QuantizedModel :=
  readKernelModel data (some deploymentFeatureCount)

end Xsr.Student
