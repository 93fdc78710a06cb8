import Xsr.Student.Bound
import Xsr.Student.Core

/-!
# Readers — two readers of one file

`read_deployment_model` and `populate_distill_model` check the same constants
and the same size. They differ in the bound: the loader takes the magnitudes
of the biases in 64 bits and refuses a bound above `INT32_MAX`, numpy takes
them in 32 bits, where that of -2147483648 is itself, and refuses none.
`readers_agree_iff` says which files only Python accepts.
-/

namespace Xsr.Student

open Kernel Lib Control

/-- A file of the right constants and the right size. -/
structure Framed (file : List UInt8) : Prop where
  magic : (distillHeader file).magic = distillMagic
  version : (distillHeader file).version = distillVersion
  classes : (distillHeader file).classes = distillClasses
  buckets : (distillHeader file).buckets = distillBuckets
  promptBytes : (distillHeader file).promptBytes = distillPromptBytes
  size : file.length = distillFileSize

theorem accepted_iff_framed (file : List UInt8) : Accepted file ↔
    Framed file ∧ (distillHeader file).scoreBound ≤ int32Max ∧
      scoreBoundOf (fileBias file) = (distillHeader file).scoreBound := by
  constructor
  · intro h
    obtain ⟨h1, h2, h3, h4, h5, hle⟩ := (DistillHeader.accepted_iff _).mp h.header
    exact ⟨⟨h1, h2, h3, h4, h5, h.size⟩, hle, h.bound⟩
  · rintro ⟨h, hle, hbound⟩
    refine ⟨(DistillHeader.accepted_iff _).mpr ?_, hbound, h.size⟩
    exact ⟨h.magic, h.version, h.classes, h.buckets, h.promptBytes, hle⟩

/-! ## Python's reader -/

/-- No bias of an accepted file is as large as `INT32_MIN`. -/
theorem fileBias_lt {file : List UInt8} (h : Accepted file) (c : Fin 14) :
    (fileBias file c).natAbs < 2147483648 := by
  have hbound := h.bound_le
  have hmax := maxBias_ge (fileBias file) c
  unfold scoreBoundOf int32Max at hbound
  omega

/-- `np.max(np.abs(bias))` is the loader's `max_bias`, where nothing wraps. -/
theorem maxAbs_eq {bias : ClassVector} (h : ∀ c, (bias c).natAbs < 2147483648) :
    maxAbs bias = maxBias bias := by
  have habs : ∀ c, s32 (bias c).natAbs = (bias c).natAbs := fun c =>
    s32_of_bounds (by omega) (by have := h c; omega)
  have hfold : ∀ (cs : List (Fin 14)) (n : Nat),
      cs.foldl (fun best c => max best (s32 (bias c).natAbs)) (n : Int)
        = (cs.foldl (maxBiasStep bias) n : Nat) := by
    intro cs
    induction cs with
    | nil => intro n; rfl
    | cons c cs ih =>
        intro n
        have hstep : max (n : Int) (s32 (bias c).natAbs) = (maxBiasStep bias n c : Nat) := by
          rw [habs, maxBiasStep]
          split_ifs <;> omega
        rw [List.foldl_cons, List.foldl_cons, hstep, ih]
  have hfirst : maxBiasStep bias (bias 0).natAbs 0 = maxBiasStep bias 0 0 := by
    unfold maxBiasStep
    split_ifs <;> omega
  rw [maxAbs, habs, hfold, maxBias, List.finRange_succ, List.foldl_cons, List.foldl_cons, hfirst]

/-- What `read_deployment_model` returns for a framed file. -/
def fileModel (file : List UInt8) : QuantizedModel where
  weights :=
    { rows := classCount
      columns := deploymentFeatureCount
      entry := fun c k => signed 8 (leNat (field (file.drop (headerSize + classCount * 4))
        (k * classCount + c) 1)) }
  bias := fileBias file
  scale := field file 28 8

theorem fileModel_entry (file : List UInt8) (key : Nat) (c : Fin 14) :
    (fileModel file).weights.entry c key = fileWeights file key c := by
  show signed 8 (leNat (field (file.drop (headerSize + classCount * 4))
    (key * classCount + c.val) 1)) = _
  rw [fileWeights, bucketWeights, field_drop, field_drop]
  simp only [headerSize, classCount, distillHeaderSize, distillClasses, Nat.add_assoc]

/-- **Python's acceptance**: a framed file whose header states
`overflow_bound` of its biases. -/
theorem readDeploymentModel_ok_iff (file : List UInt8) (model : QuantizedModel) :
    readDeploymentModel file = .ok model ↔
      Framed file ∧ overflowBound (fileBias file) promptByteLimit 127
        = (distillHeader file).scoreBound ∧ model = fileModel file := by
  have hbias : (fun c : Fin 14 =>
      signed 32 (leNat (field (field file headerSize (classCount * 4)) (c.val * 4) 4)))
        = fileBias file := by
    funext c
    rw [field_field _ _ (by unfold classCount; omega), fileBias, biasVector, field_drop,
      Nat.mul_comm c.val 4]
    rfl
  constructor
  · intro h
    unfold readDeploymentModel readKernelModel at h
    simp only [hbias] at h
    -- the checks in the order of the source; only one way leads past them all
    split_ifs at h with hshort hheader hrequired hsize hbound
    obtain ⟨hconstants, -⟩ := not_or.mp hheader
    simp only [not_not, Prod.mk.injEq] at hconstants hsize hbound
    obtain ⟨hmagic, hversion, hclasses, hprompt⟩ := hconstants
    have hfeatures : leNat (field file 16 4) = deploymentFeatureCount := by
      simpa using hrequired
    rw [hfeatures] at h hsize
    refine ⟨⟨hmagic, hversion, hclasses, hfeatures, hprompt, hsize⟩, hbound, ?_⟩
    exact (Except.ok.inj h).symm
  · rintro ⟨h, hbound, rfl⟩
    have hfeatures : leNat (field file 16 4) = deploymentFeatureCount := h.buckets
    have hheader : ¬ ((field file 0 8, leNat (field file 8 4), leNat (field file 12 4),
        leNat (field file 20 4)) ≠ (modelMagic, modelVersion, classCount, promptByteLimit)
        ∨ leNat (field file 16 4) = 0
        ∨ leNat (field file 16 4) &&& (leNat (field file 16 4) - 1) ≠ 0) := by
      obtain ⟨hmagic, hversion, hclasses, -, hprompt, -⟩ := h
      simp only [distillHeader] at hmagic hversion hclasses hprompt
      rw [hmagic, hversion, hclasses, hfeatures, hprompt]
      decide
    have hsize : ¬ file.length
        ≠ headerSize + classCount * 4 + leNat (field file 16 4) * classCount := by
      rw [h.size, hfeatures]
      decide
    have hshort : ¬ file.length < headerSize := by
      rw [h.size]
      decide
    have hoverflow : overflowBound (fileBias file) promptByteLimit 127
        = leNat (field file 24 4) := hbound
    unfold readDeploymentModel readKernelModel
    rw [if_neg hshort]
    simp only [hbias]
    rw [if_neg hheader, if_neg (by simp [hfeatures]), if_neg hsize,
      if_neg (not_not.mpr hoverflow), hfeatures]
    rfl

/-- **The same model.** What the loader accepts `read_deployment_model`
accepts, with the same bias and weights. -/
theorem readDeploymentModel_accepted {file : List UInt8} (h : Accepted file) :
    ∃ model, readDeploymentModel file = .ok model ∧ model.bias = fileBias file ∧
      model.weights.rows = classCount ∧ model.weights.columns = deploymentFeatureCount ∧
      ∀ (key : Nat) (c : Fin 14), model.weights.entry c key = fileWeights file key c := by
  obtain ⟨hframed, -, hbound⟩ := (accepted_iff_framed file).mp h
  have hoverflow : overflowBound (fileBias file) promptByteLimit 127
      = (distillHeader file).scoreBound := by
    rw [← hbound, overflowBound, maxAbs_eq (fileBias_lt h), scoreBoundOf]
    rfl
  exact ⟨fileModel file, (readDeploymentModel_ok_iff file _).mpr ⟨hframed, hoverflow, rfl⟩, rfl,
    rfl, rfl, fileModel_entry file⟩

/-! ## The largest magnitude -/

/-- The magnitude of an `int32` as numpy computes it: that of -2147483648 is
the number itself. -/
def numpyAbs (bias : Int) : Int := if bias = -2147483648 then bias else bias.natAbs

theorem s32_natAbs {bias : Int} (h : -2147483648 ≤ bias ∧ bias ≤ 2147483647) :
    s32 bias.natAbs = numpyAbs bias := by
  rw [numpyAbs]
  split_ifs with hmin
  · rw [hmin]
    decide
  · exact s32_of_bounds (by omega) (by omega)

/-- `value` is the largest of a family. -/
structure IsLargest (f : Fin 14 → Int) (value : Int) : Prop where
  attained : ∃ c, f c = value
  bound : ∀ c, f c ≤ value

theorem IsLargest.unique {f : Fin 14 → Int} {a b : Int} (ha : IsLargest f a)
    (hb : IsLargest f b) : a = b := by
  obtain ⟨c, rfl⟩ := ha.attained
  obtain ⟨d, rfl⟩ := hb.attained
  exact Int.le_antisymm (hb.bound c) (ha.bound d)

/-- The running maximum of a fold is one of the values seen, and none is
larger. -/
theorem foldl_max (f : Fin 14 → Int) : ∀ (cs : List (Fin 14)) (start : Int),
    start ≤ cs.foldl (fun best c => max best (f c)) start ∧
    (∀ c ∈ cs, f c ≤ cs.foldl (fun best c => max best (f c)) start) ∧
    (cs.foldl (fun best c => max best (f c)) start = start ∨
      ∃ c ∈ cs, f c = cs.foldl (fun best c => max best (f c)) start) := by
  intro cs
  induction cs with
  | nil => intro start; simp
  | cons c cs ih =>
      intro start
      obtain ⟨hstart, hall, hattained⟩ := ih (max start (f c))
      rw [List.foldl_cons]
      refine ⟨by omega, fun d hd => ?_, ?_⟩
      · rcases List.mem_cons.mp hd with rfl | hd
        · omega
        · exact hall d hd
      · rcases hattained with heq | ⟨d, hd, heq⟩
        · rcases Int.le_total start (f c) with hle | hle
          · exact .inr ⟨c, List.mem_cons_self, (heq.trans (Int.max_eq_right hle)).symm⟩
          · exact .inl (heq.trans (Int.max_eq_left hle))
        · exact .inr ⟨d, List.mem_cons_of_mem c hd, heq⟩

theorem maxAbs_largest (bias : ClassVector)
    (h : ∀ c, -2147483648 ≤ bias c ∧ bias c ≤ 2147483647) :
    IsLargest (fun c => numpyAbs (bias c)) (maxAbs bias) := by
  obtain ⟨-, hall, hattained⟩ := foldl_max (fun c => s32 (bias c).natAbs) (List.finRange 14)
    (s32 (bias 0).natAbs)
  constructor
  · rcases hattained with heq | ⟨c, -, heq⟩
    · exact ⟨0, (s32_natAbs (h 0)).symm.trans heq.symm⟩
    · exact ⟨c, (s32_natAbs (h c)).symm.trans heq⟩
  · intro c
    rw [← s32_natAbs (h c)]
    exact hall c (List.mem_finRange c)

/-- The loader's `max_bias` is the magnitude of some bias. -/
theorem maxBias_attained (bias : ClassVector) : ∃ c, (bias c).natAbs = maxBias bias := by
  have hfold : ∀ (cs : List (Fin 14)) (start : Nat),
      cs.foldl (maxBiasStep bias) start = start ∨
        ∃ c, (bias c).natAbs = cs.foldl (maxBiasStep bias) start := by
    intro cs
    induction cs with
    | nil => exact fun start => .inl rfl
    | cons c cs ih =>
        intro start
        rw [List.foldl_cons]
        rcases ih (maxBiasStep bias start c) with heq | hc
        · rw [heq, maxBiasStep]
          split_ifs
          · exact .inr ⟨c, rfl⟩
          · exact .inl rfl
        · exact .inr hc
  rcases hfold (List.finRange 14) 0 with heq | hc
  · refine ⟨0, ?_⟩
    have := maxBias_ge bias 0
    rw [show maxBias bias = 0 from heq] at this ⊢
    omega
  · exact hc

theorem fileBias_bounds (file : List UInt8) (c : Fin 14) :
    -2147483648 ≤ fileBias file c ∧ fileBias file c ≤ 2147483647 :=
  signed_word (leNat_field_lt _ _ (by decide))

/-! ## Agreement -/

/-- The largest bias magnitude whose bound is still an `int32_t`. -/
def biasLimit : Nat := 2145403133

/-- The header states the bound of the numpy magnitudes. -/
def StatesNumpyBound (file : List UInt8) : Prop :=
  ∃ c, (∀ d, numpyAbs (fileBias file d) ≤ numpyAbs (fileBias file c)) ∧
    numpyAbs (fileBias file c) + 16382 * 127 = (distillHeader file).scoreBound

theorem overflowBound_iff (file : List UInt8) :
    overflowBound (fileBias file) promptByteLimit 127 = (distillHeader file).scoreBound ↔
      StatesNumpyBound file := by
  have hlargest := maxAbs_largest (fileBias file) (fileBias_bounds file)
  have hbound : overflowBound (fileBias file) promptByteLimit 127
      = maxAbs (fileBias file) + 16382 * 127 := rfl
  rw [hbound]
  constructor
  · intro h
    obtain ⟨c, hc⟩ := hlargest.attained
    exact ⟨c, fun d => (hlargest.bound d).trans_eq hc.symm, by rw [hc, h]⟩
  · rintro ⟨c, hc, h⟩
    rw [hlargest.unique ⟨⟨c, rfl⟩, hc⟩, h]

/-- The signal is off: its configuration is not enabled. -/
def Disabled (m : DistillMaps) : Prop := ∀ config, m.config = some config → config.enabled = false

/-- The two readers treat a file alike, and one the loader refuses leaves
the signal off. -/
structure ReadersAgree (m : DistillMaps) (file : List UInt8) : Prop where
  accept : (∃ model, readDeploymentModel file = .ok model) ↔
    (populateDistillModel m file).2 = .loaded
  decode : ∀ model, readDeploymentModel file = .ok model →
    (populateDistillModel m file).2 = .loaded →
      (∃ config, (populateDistillModel m file).1.config = some config ∧
        config.bias = model.bias) ∧
      ∀ key, key < distillBuckets → ∃ weights,
        (populateDistillModel m file).1.weights key = some weights ∧
          ∀ c : Fin 14, weights c = model.weights.entry c key
  refuse : (populateDistillModel m file).2 ≠ .loaded →
    Disabled (populateDistillModel m file).1 ∧
      ∀ state, distillRoute (populateDistillModel m file).1 state = (false, .general)

/-- A refused file leaves the configuration as it was. -/
theorem refused_config (m : DistillMaps) (file : List UInt8)
    (h : (populateDistillModel m file).2 ≠ .loaded) :
    (populateDistillModel m file).1.config = m.config := by
  revert h
  rw [populateDistillModel]
  dsimp only
  split_ifs
  · exact fun _ => rfl
  · exact fun _ => rfl
  · split
    · exact fun _ => rfl
    · exact fun _ => rfl
    · exact fun h => absurd rfl h

theorem Disabled.route {m : DistillMaps} (h : Disabled m) (state : DistillState) :
    distillRoute m state = (false, .general) := by
  rw [distillRoute, distillIntent]
  cases hconfig : m.config with
  | none => rfl
  | some config =>
      have := h config hconfig
      simp [this]

theorem readDeploymentModel_accepts_iff (file : List UInt8) :
    (∃ model, readDeploymentModel file = .ok model) ↔ Framed file ∧ StatesNumpyBound file := by
  rw [← overflowBound_iff]
  constructor
  · rintro ⟨model, h⟩
    obtain ⟨hframed, hbound, -⟩ := (readDeploymentModel_ok_iff file model).mp h
    exact ⟨hframed, hbound⟩
  · rintro ⟨hframed, hbound⟩
    exact ⟨_, (readDeploymentModel_ok_iff file _).mpr ⟨hframed, hbound, rfl⟩⟩

/-- A bias beyond the limit has a bound beyond `INT32_MAX`. -/
theorem exists_biasLimit_iff (bias : ClassVector) :
    (∃ c, biasLimit < (bias c).natAbs) ↔ int32Max < scoreBoundOf bias := by
  obtain ⟨c, hc⟩ := maxBias_attained bias
  unfold scoreBoundOf int32Max biasLimit distillPromptBytes
  constructor
  · rintro ⟨d, hd⟩
    have := maxBias_ge bias d
    omega
  · exact fun h => ⟨c, by omega⟩

/-- A file only Python accepts. -/
theorem not_readersAgree {m : DistillMaps} {file : List UInt8} (hframed : Framed file)
    (hstates : StatesNumpyBound file) (hlarge : ∃ c, biasLimit < (fileBias file c).natAbs) :
    ¬ ReadersAgree m file := by
  intro h
  have hfile := (populateDistillModel_loaded m file).mp
    (h.accept.mp ((readDeploymentModel_accepts_iff file).mpr ⟨hframed, hstates⟩))
  exact absurd hfile.bound_le (Nat.not_le.mpr ((exists_biasLimit_iff _).mp hlarge))

/-- **The two readers agree on a file** unless only Python accepts it: its
header states the numpy bound, and some bias is too large for the bound of
the loader. -/
theorem readers_agree_iff {m : DistillMaps} (hm : Disabled m) (file : List UInt8) :
    ReadersAgree m file ↔
      ¬ (Framed file ∧ StatesNumpyBound file ∧ ∃ c, biasLimit < (fileBias file c).natAbs) := by
  constructor
  · rintro h ⟨hframed, hstates, hlarge⟩
    exact not_readersAgree hframed hstates hlarge h
  · intro hnot
    refine ⟨⟨fun hok => ?_, fun hloaded => ?_⟩, fun model hok hloaded => ?_, fun hrefused => ?_⟩
    · obtain ⟨hframed, hstates⟩ := (readDeploymentModel_accepts_iff file).mp hok
      have hle : scoreBoundOf (fileBias file) ≤ int32Max :=
        Nat.not_lt.mp fun h => hnot ⟨hframed, hstates, (exists_biasLimit_iff _).mpr h⟩
      have hsmall : ∀ c, (fileBias file c).natAbs < 2147483648 := by
        intro c
        have := maxBias_ge (fileBias file) c
        unfold scoreBoundOf int32Max at hle
        omega
      have hstated := (overflowBound_iff file).mpr hstates
      rw [overflowBound, maxAbs_eq hsmall] at hstated
      have hcast : (scoreBoundOf (fileBias file) : Int) = (distillHeader file).scoreBound := by
        rw [← hstated, scoreBoundOf]
        rfl
      have heq := Int.natCast_inj.mp hcast
      refine (populateDistillModel_loaded m file).mpr
        ((accepted_iff_framed file).mpr ⟨hframed, ?_, heq⟩)
      rw [← heq]
      exact hle
    · obtain ⟨model, hok, -⟩ := readDeploymentModel_accepted
        ((populateDistillModel_loaded m file).mp hloaded)
      exact ⟨model, hok⟩
    · have hinstalled := ((populateDistillModel_loaded m file).mp hloaded).installed m
      obtain ⟨-, -, rfl⟩ := (readDeploymentModel_ok_iff file model).mp hok
      refine ⟨⟨_, hinstalled.config, rfl⟩, fun key hkey => ?_⟩
      exact ⟨_, hinstalled.weights key hkey, fun c => (fileModel_entry file key c).symm⟩
    · have hdisabled : Disabled (populateDistillModel m file).1 := by
        rw [Disabled, refused_config m file hrefused]
        exact hm
      exact ⟨hdisabled, hdisabled.route⟩

/-! ## The lowest bias -/

/-- Biases that are zero but for a first one of -2147483648. -/
def lowestBias : List UInt8 := [0, 0, 0, 128] ++ List.replicate 52 0

/-- A file of these biases and of zero weights. -/
def lowestBiasFile : List UInt8 :=
  modelFile plainHeader lowestBias (List.replicate (distillBuckets * distillClasses) 0)

theorem lowestBiasFile_sections : Sections plainHeader lowestBias
    (List.replicate (distillBuckets * distillClasses) 0) :=
  ⟨rfl, rfl, List.length_replicate⟩

theorem disabled_empty : Disabled emptyDistillMaps := by
  rintro config h
  rw [← Option.some.inj h]

/-- **The readers disagree**: Python reads this file, the loader refuses
it. -/
theorem readers_disagree : ¬ ReadersAgree emptyDistillMaps lowestBiasFile := by
  have hheader := lowestBiasFile_sections.header_eq
  have hbias : fileBias lowestBiasFile = biasVector lowestBias := lowestBiasFile_sections.bias_eq
  refine not_readersAgree ?_ ?_ ⟨0, ?_⟩
  · refine ⟨?_, ?_, ?_, ?_, ?_, ?_⟩
    iterate 5 rw [lowestBiasFile, hheader]; decide
    simp only [lowestBiasFile, modelFile, List.length_append, lowestBiasFile_sections.header,
      lowestBiasFile_sections.biases, lowestBiasFile_sections.weights]
    rfl
  · rw [StatesNumpyBound, hbias, lowestBiasFile, hheader]
    exact ⟨1, by decide, by decide⟩
  · rw [hbias]
    decide

/-- The law at a file without biases. -/
theorem readers_agree_iff_constant :
    ReadersAgree emptyDistillMaps (constantFile 1) ↔
      ¬ (Framed (constantFile 1) ∧ StatesNumpyBound (constantFile 1) ∧
        ∃ c, biasLimit < (fileBias (constantFile 1) c).natAbs) :=
  readers_agree_iff disabled_empty (constantFile 1)

end Xsr.Student
