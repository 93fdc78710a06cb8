import Xsr.Student.Readers

/-!
# Parity — the kernel scores what Python scores

For a model file the loader accepts, `read_deployment_model` accepts it too
and decodes the same bias and weights. With weights in [-127, 127] nothing
wraps, so the streaming window, the byte limit and the case folding of the
kernel give `integer_scores`, and the kernel's strict comparison finds
numpy's first maximum.
-/

namespace Xsr.Student

open Kernel Lib Control

/-! ## Trigrams -/

theorem mask_32 (n : Nat) : n &&& 0xFFFFFFFF = n % 4294967296 :=
  Nat.and_two_pow_sub_one_eq_mod n 32

theorem fnvRound_toNat (hash : UInt32) (byte : UInt8) :
    (fnvRound hash byte).toNat = fnvStep hash.toNat byte := by
  unfold fnvRound fnvStep
  rw [mask_32]
  -- keep the prime folded: the kernel would count up to it
  generalize hp : (16777619 : UInt32) = prime
  have hprime : prime.toNat = fnvPrime := by subst hp; rfl
  rw [UInt32.toNat_mul, UInt32.toNat_xor, UInt8.toNat_toUInt32, hprime]

theorem distillBucket_eq (b2 b1 b0 : UInt8) :
    distillBucket b2 b1 b0
      = [b2, b1, b0].foldl fnvStep fnvOffset &&& (deploymentFeatureCount - 1) := by
  have hoffset : Kernel.fnvOffset.toNat = fnvOffset := by
    rw [Kernel.fnvOffset, fnvOffset]; rfl
  have hcount : deploymentFeatureCount = distillBuckets := rfl
  rw [distillBucket, fnvRound_toNat, fnvRound_toNat, fnvRound_toNat, hoffset, hcount,
    List.foldl_cons, List.foldl_cons, List.foldl_cons, List.foldl_nil]

theorem fnv1aTrigram_deployment (trigram : List UInt8) :
    fnv1aTrigram trigram deploymentFeatureCount
      = .ok (trigram.foldl fnvStep fnvOffset &&& (deploymentFeatureCount - 1)) := by
  rw [fnv1aTrigram, if_neg (by decide)]

/-- The slices of `feature_indices` are the windows of the kernel. -/
theorem map_slices (data : List UInt8) :
    (List.range (data.length - 2)).map (fun i =>
        ((data.drop i).take 3).foldl fnvStep fnvOffset &&& (deploymentFeatureCount - 1))
      = trigramBuckets data := by
  induction data with
  | nil => rfl
  | cons b2 rest ih =>
      match rest with
      | [] => rfl
      | [b1] => rfl
      | b1 :: b0 :: tail =>
          have hlen : (b2 :: b1 :: b0 :: tail).length - 2 = (b1 :: b0 :: tail).length - 2 + 1 := by
            simp
          rw [hlen, List.range_succ_eq_map, List.map_cons, List.map_map, trigramBuckets, ← ih,
            distillBucket_eq]
          simp only [List.drop_zero, List.take_succ_cons, List.take_zero]
          refine congrArg _ (List.map_congr_left fun i _ => ?_)
          simp only [Function.comp_apply, List.drop_succ_cons]

theorem normalizeBytes_eq (prompt : List Char) :
    normalizeBytes prompt promptByteLimit = scoredPrompt (encodeUtf8 prompt) := by
  unfold normalizeBytes scoredPrompt
  refine List.map_congr_left fun value _ => ?_
  simp [lower, isUpper]

/-- **The same features.** -/
theorem featureIndices_eq (prompt : List Char) :
    featureIndices prompt promptByteLimit deploymentFeatureCount
      = .ok (promptBuckets (encodeUtf8 prompt)) := by
  simp only [featureIndices, fnv1aTrigram_deployment]
  rw [normalizeBytes_eq, promptBuckets, ← map_slices]
  exact List.mapM_pure

/-! ## The first maximum -/

/-- `i` is the first index of a maximum of `score`, as far as `n`. -/
structure FirstMax (score : ClassVector) (n : Nat) (i : Fin 14) : Prop where
  within : i.val < n
  max : ∀ c : Fin 14, c.val < n → score c ≤ score i
  first : ∀ c : Fin 14, c < i → score c < score i

theorem FirstMax.step {score : ClassVector} {n : Nat} {i : Fin 14} (h : FirstMax score n i)
    (hn : n < 14) : FirstMax score (n + 1) (distillBetter score i ⟨n, hn⟩) := by
  have hin := h.within
  unfold distillBetter
  by_cases hbetter : score i < score ⟨n, hn⟩
  · rw [if_pos hbetter]
    refine ⟨Nat.lt_succ_self n, fun c hc => ?_, fun c hc => ?_⟩
    · rcases Nat.lt_succ_iff_lt_or_eq.mp hc with hlt | heq
      · exact Int.le_of_lt (Int.lt_of_le_of_lt (h.max c hlt) hbetter)
      · obtain rfl : c = ⟨n, hn⟩ := Fin.ext heq
        exact Int.le_refl _
    · exact Int.lt_of_le_of_lt (h.max c hc) hbetter
  · rw [if_neg hbetter]
    refine ⟨Nat.lt_succ_of_lt hin, fun c hc => ?_, h.first⟩
    rcases Nat.lt_succ_iff_lt_or_eq.mp hc with hlt | heq
    · exact h.max c hlt
    · obtain rfl : c = ⟨n, hn⟩ := Fin.ext heq
      exact Int.not_lt.mp hbetter

/-- The kernel's scan ends at the first maximum. -/
theorem firstMax_scan (score : ClassVector) :
    FirstMax score 14 ((List.finRange 14).tail.foldl (distillBetter score) 0) := by
  have hgo : ∀ (k n : Nat) (i : Fin 14), n + k = 14 → FirstMax score n i →
      FirstMax score 14 (((List.finRange 14).drop n).foldl (distillBetter score) i) := by
    intro k
    induction k with
    | zero =>
        intro n i hn h
        obtain rfl : n = 14 := by omega
        exact h
    | succ k ih =>
        intro n i hn h
        have hlt : n < (List.finRange 14).length := by rw [List.length_finRange]; omega
        rw [List.drop_eq_getElem_cons hlt, List.foldl_cons, List.getElem_finRange]
        exact ih (n + 1) _ (by omega) (h.step (by omega))
  refine hgo 13 1 0 rfl ⟨Nat.one_pos, fun c hc => ?_, fun c hc => absurd hc (Fin.not_lt_zero c)⟩
  obtain rfl : c = 0 := Fin.ext (Nat.lt_one_iff.mp hc)
  exact Int.le_refl _

/-- numpy's argmax is the first maximum. -/
theorem predict_eq {score : ClassVector} {i : Fin 14} (h : FirstMax score 14 i) :
    predict score = i.val := by
  have hget : ∀ c : Fin 14, (List.ofFn score)[c.val]? = some (score c) := by
    intro c
    rw [List.getElem?_ofFn]
    simp
  have hmem : score i ∈ List.ofFn score := (List.mem_ofFn' score _).mpr ⟨i, rfl⟩
  have hmax : (List.ofFn score).max? = some (score i) := by
    refine List.max?_eq_some_iff.mpr ⟨hmem, fun b hb => ?_⟩
    obtain ⟨c, rfl⟩ := (List.mem_ofFn' score b).mp hb
    exact h.max c c.isLt
  have hlen : i.val < (List.ofFn score).length := by simp
  rw [predict, argmax, hmax]
  refine (List.findIdx_eq hlen).mpr ⟨?_, fun j hj => ?_⟩
  · rw [List.getElem_ofFn]
    exact beq_self_eq_true _
  · have hfirst := h.first ⟨j, by omega⟩ hj
    simp only [List.getElem_ofFn, beq_eq_false_iff_ne]
    exact Int.ne_of_lt hfirst

/-! ## Scores -/

theorem sum_bounds (w : Nat → Int) (buckets : List Nat)
    (h : ∀ b ∈ buckets, -128 ≤ w b ∧ w b ≤ 127) :
    -128 * (buckets.length : Int) ≤ (buckets.map w).sum ∧
      (buckets.map w).sum ≤ 127 * buckets.length := by
  induction buckets with
  | nil => simp
  | cons b buckets ih =>
      have hb := h b (by simp)
      obtain ⟨hlow, hhigh⟩ := ih fun d hd => h d (by simp [hd])
      simp only [List.map_cons, List.sum_cons, List.length_cons]
      omega

/-- **The same scores.** numpy's sums are the exact ones. -/
theorem integerScores_eq {file : List UInt8} (h : Accepted file) {model : QuantizedModel}
    (hbias : model.bias = fileBias file) (hrows : model.weights.rows = classCount)
    (hcolumns : model.weights.columns = deploymentFeatureCount)
    (hentry : ∀ (key : Nat) (c : Fin 14), model.weights.entry c key = fileWeights file key c)
    (prompt : List Char) :
    integerScores prompt model.weights model.bias
      = .ok (exactScore file (encodeUtf8 prompt)) := by
  have hrows' : ¬ model.weights.rows ≠ classCount := not_not.mpr hrows
  have hlen := length_promptBuckets (encodeUtf8 prompt)
  unfold integerScores
  rw [if_neg hrows', hcolumns, featureIndices_eq]
  show (if (promptBuckets (encodeUtf8 prompt)).length ≠ 0 then _ else _) = _
  by_cases hnone : (promptBuckets (encodeUtf8 prompt)).length = 0
  · rw [if_neg (not_not.mpr hnone), hbias]
    refine congrArg Except.ok (funext fun c => ?_)
    rw [exactScore, List.length_eq_zero_iff.mp hnone]
    simp
  · rw [if_pos hnone]
    refine congrArg Except.ok (funext fun c => ?_)
    have hbound := fileBias_lt h c
    have hsum := sum_bounds (fun key => fileWeights file key c)
      (promptBuckets (encodeUtf8 prompt)) fun key _ => fileWeights_bounds file key c
    unfold distillPromptBytes at hlen
    have hinner := s64_of_bounds
      (z := ((promptBuckets (encodeUtf8 prompt)).map fun key => fileWeights file key c).sum)
      (by omega) (by omega)
    simp only [hbias, hentry]
    rw [hinner, s64_of_bounds (by omega) (by omega), exactScore]

section Parity
variable {file : List UInt8} {m : DistillMaps}

/-- **Parity of the student.** For a model the loader accepts, with weights
in [-127, 127], and any prompt, the kernel's state after the prompt's bytes
holds the scores and the length Python computes from the same file, and its
intent is `predict` of those scores. -/
theorem student_parity (hload : (populateDistillModel m file).2 = .loaded)
    (hweights : ∀ key, key < distillBuckets → ∀ c,
      -127 ≤ fileWeights file key c ∧ fileWeights file key c ≤ 127)
    (prompt : List Char) :
    ∃ model scores, readDeploymentModel file = .ok model ∧
      integerScores prompt model.weights model.bias = .ok scores ∧
      (distillFeed (populateDistillModel m file).1 (encodeUtf8 prompt)).score = scores ∧
      (distillFeed (populateDistillModel m file).1 (encodeUtf8 prompt)).bytesSeen
        = min (encodeUtf8 prompt).length promptByteLimit ∧
      ∃ intent, distillIntent (populateDistillModel m file).1
          (distillFeed (populateDistillModel m file).1 (encodeUtf8 prompt)) = (true, intent) ∧
        intent.val = predict scores := by
  have hfile := (populateDistillModel_loaded m file).mp hload
  have hinstalled := hfile.installed m
  obtain ⟨model, hread, hbias, hrows, hcolumns, hentry⟩ := readDeploymentModel_accepted hfile
  have hscore : (distillFeed (populateDistillModel m file).1 (encodeUtf8 prompt)).score
      = exactScore file (encodeUtf8 prompt) := funext fun c =>
    (withinBound_of_weights hfile hinstalled (fun key hkey c => (hweights key hkey c).1) _ c).1
  refine ⟨model, exactScore file (encodeUtf8 prompt), hread,
    integerScores_eq hfile hbias hrows hcolumns hentry prompt, hscore,
    (feed_fed hinstalled _).bytesSeen, _, ?_, (predict_eq (firstMax_scan _)).symm⟩
  rw [distillIntent, hinstalled.config, hscore]
  rfl

end Parity

/-- A file whose weights tell classes and buckets apart. -/
def stepFile : List UInt8 := weightFile fun key c => UInt8.ofNat ((key + 9 * c) % 128)

theorem stepFile_loaded (m : DistillMaps) : (populateDistillModel m stepFile).2 = .loaded :=
  weightFile_loaded _ m

theorem stepFile_weights {key : Nat} (hkey : key < distillBuckets) (c : Fin 14) :
    fileWeights stepFile key c = ((key + 9 * c.val) % 128 : Nat) := by
  refine (weightFile_weights _ hkey c).trans ?_
  have hlt : (key + 9 * c.val) % 128 < 2 ^ (8 - 1) := Nat.mod_lt _ (by decide)
  rw [UInt8.toNat_ofNat_of_lt' (Nat.lt_trans hlt (by decide)), signed, if_pos hlt]

/-- Four letters under these weights: two trigrams, in either case. -/
theorem student_parity_letters :
    ∃ model scores, readDeploymentModel stepFile = .ok model ∧
      integerScores ['a', 'B', 'c', 'D'] model.weights model.bias = .ok scores ∧
      (distillFeed (populateDistillModel emptyDistillMaps stepFile).1
        (encodeUtf8 ['a', 'B', 'c', 'D'])).score = scores ∧
      (distillFeed (populateDistillModel emptyDistillMaps stepFile).1
        (encodeUtf8 ['a', 'B', 'c', 'D'])).bytesSeen
          = min (encodeUtf8 ['a', 'B', 'c', 'D']).length promptByteLimit ∧
      ∃ intent, distillIntent (populateDistillModel emptyDistillMaps stepFile).1
          (distillFeed (populateDistillModel emptyDistillMaps stepFile).1
            (encodeUtf8 ['a', 'B', 'c', 'D'])) = (true, intent) ∧
        intent.val = predict scores :=
  student_parity (stepFile_loaded _) (fun key hkey c => by rw [stepFile_weights hkey c]; omega) _

end Xsr.Student
