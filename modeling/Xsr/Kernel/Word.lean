import Mathlib

/-!
# Word — machine integers, bytes, BPF maps and the shared enumerations

Counters are natural numbers with the wrap of their C type written where
the source can overflow; bytes are `UInt8`. A BPF map is the partial
function it implements: hash and array maps differ only in which keys can
be present.
-/

namespace Xsr.Kernel

/-- `__u16` wrap-around. -/
def u16 (n : Nat) : Nat := n % 65536

/-- `__u32` wrap-around. -/
def u32 (n : Nat) : Nat := n % 4294967296

/-- `__u64` wrap-around. -/
def u64 (n : Nat) : Nat := n % 18446744073709551616

/-- `a - b` on `__u32`. -/
def subU32 (a b : Nat) : Nat := (a + 4294967296 - b) % 4294967296

/-- `__s32` wrap-around. -/
def s32 (z : Int) : Int := (z + 2147483648) % 4294967296 - 2147483648

/-- `__s64` wrap-around. -/
def s64 (z : Int) : Int :=
  (z + 9223372036854775808) % 18446744073709551616 - 9223372036854775808

theorem u32_of_lt {n : Nat} (h : n < 4294967296) : u32 n = n := Nat.mod_eq_of_lt h

theorem subU32_of_le {a b : Nat} (h : b ≤ a) (ha : a < 4294967296) :
    subU32 a b = a - b := by
  unfold subU32
  omega

theorem s32_of_bounds {z : Int} (h1 : -2147483648 ≤ z) (h2 : z < 2147483648) :
    s32 z = z := by
  unfold s32
  omega

/-- Wrapping an addend first changes nothing. -/
theorem s32_add_left (a b : Int) : s32 (s32 a + b) = s32 (a + b) := by
  unfold s32
  omega

theorem s64_of_bounds {z : Int} (h1 : -9223372036854775808 ≤ z) (h2 : z < 9223372036854775808) :
    s64 z = z := by
  unfold s64
  omega

/-! ## Bytes -/

/-- `'\t'` -/
def tab : UInt8 := 9
/-- `'\n'` -/
def lf : UInt8 := 10
/-- `'\r'` -/
def cr : UInt8 := 13
/-- `' '` -/
def blank : UInt8 := 32
/-- `'"'` -/
def quote : UInt8 := 34
/-- `'\\'` -/
def backslash : UInt8 := 92

/-- `c >= '0' && c <= '9'` -/
def isDigit (c : UInt8) : Bool := 48 ≤ c && c ≤ 57

/-- `c >= 'a' && c <= 'z'` -/
def isLower (c : UInt8) : Bool := 97 ≤ c && c ≤ 122

/-- `c >= 'A' && c <= 'Z'` -/
def isUpper (c : UInt8) : Bool := 65 ≤ c && c ≤ 90

/-- `lower`: fold only ASCII `A`–`Z`. The same function stands three times
in the source (`lower`, `xdp_bm25_lower`, `xdp_distill_ascii_lower`). -/
def lower (c : UInt8) : UInt8 := if isUpper c then c + 32 else c

/-- A property of every byte can be checked value by value. -/
theorem forall_uint8 {P : UInt8 → Prop} (h : ∀ n : Fin 256, P (UInt8.ofNat n)) (c : UInt8) :
    P c := by
  have hc := h ⟨c.toNat, c.toNat_lt⟩
  rwa [UInt8.ofNat_toNat] at hc

/-! ## Maps -/

/-- A BPF map, as `bpf_map_lookup_elem` reads it. -/
abbrev BpfMap (κ ν : Type) := κ → Option ν

section Maps
variable {κ ν : Type} [DecidableEq κ]

/-- `bpf_map_update_elem(…, BPF_ANY)` -/
def BpfMap.update (m : BpfMap κ ν) (k : κ) (v : ν) : BpfMap κ ν :=
  Function.update m k (some v)

/-- `bpf_map_delete_elem` -/
def BpfMap.delete (m : BpfMap κ ν) (k : κ) : BpfMap κ ν :=
  Function.update m k none

@[simp] theorem BpfMap.update_self (m : BpfMap κ ν) (k : κ) (v : ν) :
    m.update k v k = some v := by
  simp [BpfMap.update]

@[simp] theorem BpfMap.update_ne (m : BpfMap κ ν) {k k' : κ} (v : ν) (h : k' ≠ k) :
    m.update k v k' = m k' := by
  simp [BpfMap.update, h]

@[simp] theorem BpfMap.delete_self (m : BpfMap κ ν) (k : κ) : m.delete k k = none := by
  simp [BpfMap.delete]

@[simp] theorem BpfMap.delete_ne (m : BpfMap κ ν) {k k' : κ} (h : k' ≠ k) :
    m.delete k k' = m k' := by
  simp [BpfMap.delete, h]

end Maps

/-! ## Routes and rule operators -/

/-- `XDP_ROUTE_*` (the same numbers as `SK_ROUTE_*`). -/
inductive Route where
  | coding | general | math | qa | writing
  deriving DecidableEq, Repr

/-- `enum xdp_jaccard_operator` and `enum xdp_bm25_operator`. -/
inductive Operator where
  | or | and | nor
  deriving DecidableEq, Repr

end Xsr.Kernel
