import Mathlib

/-!
# LittleEndian — fixed-width integers in byte strings

The value of a byte string read low byte first, its signed reading, and
the fields of a record found by their offset.
-/

namespace Xsr.Lib

/-- The number a byte string holds, low byte first. -/
def leNat : List UInt8 → Nat
  | [] => 0
  | b :: bs => b.toNat + 256 * leNat bs

/-- `width` bytes at `offset`. -/
def field (bytes : List UInt8) (offset width : Nat) : List UInt8 := (bytes.drop offset).take width

/-- Two's complement of a `bits`-bit number. -/
def signed (bits : Nat) (n : Nat) : Int := if n < 2 ^ (bits - 1) then n else n - 2 ^ bits

theorem leNat_lt (bs : List UInt8) : leNat bs < 256 ^ bs.length := by
  induction bs with
  | nil => simp [leNat]
  | cons b bs ih =>
      have hb := b.toNat_lt
      simp only [leNat, List.length_cons, Nat.pow_succ]
      omega

/-- Byte `i` of a number, found by a shift and a mask. -/
theorem leNat_lane (bs : List UInt8) (i : Nat) :
    (leNat bs >>> (i * 8)) &&& 255 = (bs[i]?.map UInt8.toNat).getD 0 := by
  induction bs generalizing i with
  | nil => simp [leNat]
  | cons b bs ih =>
      have hb := b.toNat_lt
      cases i with
      | zero =>
          rw [Nat.zero_mul, Nat.shiftRight_zero, show (255 : Nat) = 2 ^ 8 - 1 by rfl,
            Nat.and_two_pow_sub_one_eq_mod]
          simp only [leNat, List.getElem?_cons_zero, Option.map_some, Option.getD_some]
          omega
      | succ i =>
          have hbyte : leNat (b :: bs) >>> 8 = leNat bs := by
            rw [Nat.shiftRight_eq_div_pow, leNat]
            omega
          rw [Nat.succ_mul, Nat.add_comm, Nat.shiftRight_add, hbyte, ih, List.getElem?_cons_succ]

theorem signed_byte {n : Nat} (h : n < 256) : -128 ≤ signed 8 n ∧ signed 8 n ≤ 127 := by
  unfold signed
  split_ifs <;> omega

theorem signed_word {n : Nat} (h : n < 4294967296) :
    -2147483648 ≤ signed 32 n ∧ signed 32 n ≤ 2147483647 := by
  unfold signed
  split_ifs <;> omega

theorem field_append_left {a b : List UInt8} {offset width : Nat}
    (h : offset + width ≤ a.length) : field (a ++ b) offset width = field a offset width := by
  unfold field
  rw [List.drop_append_of_le_length (by omega), List.take_append_of_le_length (by simp; omega)]

theorem field_drop (bytes : List UInt8) (start offset width : Nat) :
    field (bytes.drop start) offset width = field bytes (start + offset) width := by
  unfold field
  rw [List.drop_drop]

/-- A field inside a field. -/
theorem field_field (bytes : List UInt8) (start : Nat) {size offset width : Nat}
    (h : offset + width ≤ size) :
    field (field bytes start size) offset width = field bytes (start + offset) width := by
  unfold field
  rw [List.drop_take, List.drop_drop, List.take_take, Nat.min_eq_left (by omega)]

/-! ## Writing -/

/-- The `width` low bytes of a number, low byte first. -/
def leBytes : Nat → Nat → List UInt8
  | 0, _ => []
  | width + 1, n => UInt8.ofNat (n % 256) :: leBytes width (n / 256)

@[simp] theorem length_leBytes (width n : Nat) : (leBytes width n).length = width := by
  induction width generalizing n with
  | zero => rfl
  | succ width ih => simp [leBytes, ih]

theorem leNat_leBytes {width n : Nat} (h : n < 256 ^ width) : leNat (leBytes width n) = n := by
  induction width generalizing n with
  | zero =>
      obtain rfl : n = 0 := by simpa using h
      rfl
  | succ width ih =>
      rw [Nat.pow_succ] at h
      have hbyte : (UInt8.ofNat (n % 256)).toNat = n % 256 := by
        rw [UInt8.toNat_ofNat']
        omega
      rw [leBytes, leNat, hbyte, ih (by omega)]
      omega

/-- The `bits`-bit two's complement of an integer. -/
def unsigned (bits : Nat) (x : Int) : Nat := (x % 2 ^ bits).toNat

theorem signed_unsigned_byte {x : Int} (h : -128 ≤ x ∧ x ≤ 127) :
    unsigned 8 x < 256 ∧ signed 8 (unsigned 8 x) = x := by
  unfold signed unsigned
  refine ⟨by omega, ?_⟩
  split_ifs <;> omega

theorem signed_unsigned_word {x : Int} (h : -2147483648 ≤ x ∧ x ≤ 2147483647) :
    unsigned 32 x < 4294967296 ∧ signed 32 (unsigned 32 x) = x := by
  unfold signed unsigned
  refine ⟨by omega, ?_⟩
  split_ifs <;> omega

/-- Records of one size, one after the other: dropping `k` of them. -/
theorem drop_flatMap {α : Type} (f : α → List UInt8) {size : Nat} (hsize : ∀ a, (f a).length = size) :
    ∀ (k : Nat) (as : List α), (as.flatMap f).drop (k * size) = (as.drop k).flatMap f
  | 0, _ => by simp
  | k + 1, [] => by simp
  | k + 1, a :: as => by
      rw [List.flatMap_cons, Nat.succ_mul, Nat.add_comm, ← List.drop_drop,
        List.drop_left' (hsize a), drop_flatMap f hsize k as, List.drop_succ_cons]

/-- A field of record `k`. -/
theorem field_flatMap {α : Type} {f : α → List UInt8} {size k : Nat} {as : List α} {a : α}
    (hsize : ∀ a, (f a).length = size) (ha : as[k]? = some a) {offset width : Nat}
    (h : offset + width ≤ size) :
    field ((as.flatMap f).drop (k * size)) offset width = field (f a) offset width := by
  obtain ⟨hlt, rfl⟩ := List.getElem?_eq_some_iff.mp ha
  rw [drop_flatMap f hsize, List.drop_eq_getElem_cons hlt, List.flatMap_cons,
    field_append_left (by rw [hsize]; exact h)]

theorem length_flatMap_of_size {α : Type} {f : α → List UInt8} {size : Nat}
    (hsize : ∀ a, (f a).length = size) (as : List α) : (as.flatMap f).length = as.length * size := by
  rw [List.length_flatMap, List.map_congr_left fun a _ => hsize a, List.map_const',
    List.sum_replicate_nat]

theorem field_full (bytes : List UInt8) : field bytes 0 bytes.length = bytes := by
  rw [field, List.drop_zero, List.take_length]

end Xsr.Lib
