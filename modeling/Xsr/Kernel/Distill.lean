import Xsr.Kernel.Word
import Mathlib

/-!
# Distill — the hashed-trigram intent student

`xdp_distill_classifier.bpf.h`: an init that loads the bias vector, one
step for each prompt byte that adds the weight vector of the trigram just
completed, and the strict-`>` argmax over the fourteen scores.
-/

namespace Xsr.Kernel

/-- `XSR_DISTILL_BUCKETS` -/
def distillBuckets : Nat := 8192

/-- `XSR_DISTILL_PROMPT_BYTES` -/
def distillPromptBytes : Nat := 16384

/-- One signed value for each of the `XSR_DISTILL_CLASSES` classes. -/
abbrev ClassVector := Fin 14 → Int

instance neZero_classes : NeZero 14 := ⟨by decide⟩

/-- `struct xdp_distill_config` -/
structure DistillConfig where
  bias : ClassVector
  enabled : Bool
  promptByteLimit : Nat
  provenScoreBound : Nat

/-- `xdp_distill_weights` and `xdp_distill_config_map`. -/
structure DistillMaps where
  config : Option DistillConfig
  weights : BpfMap Nat ClassVector

/-- `struct xdp_distill_state` -/
structure DistillState where
  score : ClassVector
  bytesSeen : Nat
  previous1 : UInt8
  previous2 : UInt8

/-- The state as `memset` leaves it. -/
def DistillState.zero : DistillState := ⟨fun _ => 0, 0, 0, 0⟩

/-- `xdp_distill_init` -/
def distillInit (m : DistillMaps) (state : DistillState) : DistillState :=
  match m.config with
  | some config => if config.enabled then { state with score := config.bias } else state
  | none => state

/-- The FNV-1a offset basis. -/
def fnvOffset : UInt32 := 2166136261

/-- One FNV-1a round, `(hash ^ byte) * 16777619U`. -/
def fnvRound (hash : UInt32) (byte : UInt8) : UInt32 := (hash ^^^ byte.toUInt32) * 16777619

/-- The bucket of a trigram, `hash & (XDP_DISTILL_BUCKETS - 1)`. -/
def distillBucket (b2 b1 b0 : UInt8) : Nat :=
  (fnvRound (fnvRound (fnvRound fnvOffset b2) b1) b0).toNat &&& (distillBuckets - 1)

/-- `xdp_distill_score_char` -/
def distillScoreChar (m : DistillMaps) (state : DistillState) (value : UInt8) : DistillState :=
  if distillPromptBytes ≤ state.bytesSeen then state
  else
    let value := lower value
    let state := { state with bytesSeen := u32 (state.bytesSeen + 1) }
    -- the third byte is the first that ends a trigram
    if state.bytesSeen < 3 then
      { state with previous2 := state.previous1, previous1 := value }
    else
      let bucket := distillBucket state.previous2 state.previous1 value
      let state := match m.weights bucket with
        | some weight => { state with score := fun c => s32 (state.score c + weight c) }
        | none => state
      { state with previous2 := state.previous1, previous1 := value }

/-- The winner so far against class `c`: only a strictly greater score
takes over. -/
def distillBetter (score : ClassVector) (best c : Fin 14) : Fin 14 :=
  if score best < score c then c else best

/-- `xdp_distill_intent`: the flag is `*enabled`. -/
def distillIntent (m : DistillMaps) (state : DistillState) : Bool × Fin 14 :=
  match m.config with
  | some config =>
      if config.enabled then
        (true, (List.finRange 14).tail.foldl (distillBetter state.score) 0)
      else (false, 0)
  | none => (false, 0)

/-- `xdp_distill_route` -/
def distillRoute (m : DistillMaps) (state : DistillState) : Bool × Route :=
  match distillIntent m state with
  | (false, _) => (false, .general)
  | (true, intent) =>
      (true, if intent = 3 then .coding else if intent = 9 then .math else .general)

end Xsr.Kernel
