import Mathlib

/-!
# Utf8 — the bytes of a text

A code point below 128 is its own byte; every byte of another one is at
least 128. A scanner that only looks at ASCII bytes needs no more.
-/

namespace Xsr.Lib

/-- `text.encode("utf-8")` -/
def encodeUtf8 (text : List Char) : List UInt8 := text.flatMap String.utf8EncodeChar

theorem utf8EncodeChar_ascii {c : Char} (h : c.toNat < 128) :
    String.utf8EncodeChar c = [UInt8.ofNat c.toNat] := by
  have hle : c.val.toNat ≤ 127 := Nat.le_of_lt_succ h
  simp only [String.utf8EncodeChar, hle, if_true]
  rfl

theorem utf8EncodeChar_other {c : Char} (h : ¬ c.toNat < 128) :
    String.utf8EncodeChar c ≠ [] ∧ ∀ b ∈ String.utf8EncodeChar c, 128 ≤ b.toNat := by
  have hgt : ¬ c.val.toNat ≤ 127 := fun hle => h (Nat.lt_succ_of_le hle)
  refine ⟨String.utf8EncodeChar_ne_nil, fun b hb => ?_⟩
  simp only [String.utf8EncodeChar, hgt, if_false] at hb
  split_ifs at hb <;>
    · simp only [List.mem_cons, List.not_mem_nil, or_false] at hb
      rcases hb with rfl | rfl | rfl | rfl <;> simp only [UInt8.toNat_ofNat'] <;> omega

end Xsr.Lib
