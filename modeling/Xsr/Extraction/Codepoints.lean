import Xsr.Kernel.Content
import Xsr.Lib.Utf8

/-!
# Codepoints — the two UTF-8 codecs of the kernel programs

`sk_score_codepoint` encodes a code point byte by byte and
`xdp_jaccard_score_char` decodes one. Over the characters of a text the
first is `str.encode` and the second its inverse.
-/

namespace Xsr.Extraction

open Kernel Lib

/-! ## The encoder -/

/-- Marker bits above the bits of a number. -/
theorem or_eq_add (a : Nat) {b i : Nat} (h : b < 2 ^ i) : 2 ^ i * a ||| b = b + 2 ^ i * a := by
  rw [← Nat.two_pow_add_eq_or_of_lt h, Nat.add_comm]

theorem and_six (n : Nat) : n &&& 0x3f = n % 64 := Nat.and_two_pow_sub_one_eq_mod n 6

/-- **`sk_score_codepoint`** scores the UTF-8 encoding. -/
theorem scoreCodepoint_eq (c : Char) : scoreCodepoint c.toNat = String.utf8EncodeChar c := by
  have hvalid : c.toNat < 0x110000 := by
    have hvalid : c.toNat < 0xd800 ∨ 0xdfff < c.toNat ∧ c.toNat < 0x110000 := c.valid
    omega
  have hval : c.val.toNat = c.toNat := rfl
  have hor : ∀ {n : Nat}, n < 64 → 0x80 ||| n = n + 0x80 := fun h =>
    or_eq_add 2 (show _ < 2 ^ 6 from h)
  simp only [scoreCodepoint, String.utf8EncodeChar, hval, and_six, Nat.shiftRight_eq_div_pow]
  split_ifs with h1 h2 h3 h4
  · rfl
  · rw [hor (by omega), show 0xc0 = 2 ^ 5 * 6 from rfl, or_eq_add 6 (by omega)]
    simp only [List.cons.injEq, and_true]
    exact congrArg UInt8.ofNat (by omega)
  · rw [hor (by omega), hor (by omega), show 0xe0 = 2 ^ 4 * 14 from rfl, or_eq_add 14 (by omega)]
    simp only [List.cons.injEq, and_true]
    exact congrArg UInt8.ofNat (by omega)
  · rw [hor (by omega), hor (by omega), hor (by omega), show 0xf0 = 2 ^ 3 * 30 from rfl,
      or_eq_add 30 (by omega)]
    simp only [List.cons.injEq, and_true]
    exact congrArg UInt8.ofNat (by omega)
  · omega

/-! ## The decoder -/

/-- The code points `xdp_jaccard_score_char` hands on over a run of bytes. -/
def utf8Points : Utf8Scan → List UInt8 → Utf8Scan × List Nat
  | u, [] => (u, [])
  | u, b :: bs =>
      let r := utf8Byte u b
      let t := utf8Points r.1 bs
      (t.1, r.2 ++ t.2)

theorem utf8Points_append (u : Utf8Scan) (bs bs' : List UInt8) :
    utf8Points u (bs ++ bs') =
      ((utf8Points (utf8Points u bs).1 bs').1,
        (utf8Points u bs).2 ++ (utf8Points (utf8Points u bs).1 bs').2) := by
  induction bs generalizing u with
  | nil => rfl
  | cons b bs ih => simp only [List.cons_append, utf8Points, ih, List.append_assoc]

/-- The matcher never looks at the decoder. -/
theorem scoreCodepoint_utf8 (m : JaccardMaps) (g : QueryGrams) (s : JaccardState) (u : Utf8Scan)
    (c : Nat) :
    jaccardScoreCodepoint m g { s with toUtf8Scan := u } c =
      ((jaccardScoreCodepoint m g s c).1,
        { (jaccardScoreCodepoint m g s c).2 with toUtf8Scan := u }) := by
  simp only [jaccardScoreCodepoint, jaccardFinishWord]
  split_ifs <;> rfl

theorem scoreCodepoints_utf8 (m : JaccardMaps) (g : QueryGrams) (s : JaccardState) (u : Utf8Scan)
    (cs : List Nat) :
    jaccardScoreCodepoints m g { s with toUtf8Scan := u } cs =
      ((jaccardScoreCodepoints m g s cs).1,
        { (jaccardScoreCodepoints m g s cs).2 with toUtf8Scan := u }) := by
  induction cs generalizing g s with
  | nil => rfl
  | cons c cs ih =>
      simp only [jaccardScoreCodepoints, scoreCodepoint_utf8, ih]

theorem scoreCodepoints_append (m : JaccardMaps) (g : QueryGrams) (s : JaccardState)
    (cs cs' : List Nat) :
    jaccardScoreCodepoints m g s (cs ++ cs') =
      jaccardScoreCodepoints m (jaccardScoreCodepoints m g s cs).1
        (jaccardScoreCodepoints m g s cs).2 cs' := by
  induction cs generalizing g s with
  | nil => rfl
  | cons c cs ih => simp only [List.cons_append, jaccardScoreCodepoints, ih]

/-- The matcher over a run of bytes is the matcher over the code points they
decode to. -/
theorem scoreChars_eq (m : JaccardMaps) (g : QueryGrams) (s : JaccardState) (bs : List UInt8) :
    bs.foldl (fun t b => jaccardScoreChar m t.1 t.2 b) (g, s) =
      jaccardScoreCodepoints m g { s with toUtf8Scan := (utf8Points s.toUtf8Scan bs).1 }
        (utf8Points s.toUtf8Scan bs).2 := by
  induction bs generalizing g s with
  | nil => rfl
  | cons b bs ih =>
      rw [List.foldl_cons, ih]
      simp only [jaccardScoreChar, utf8Points, scoreCodepoints_append, scoreCodepoints_utf8]

section Bytes

theorem lead_two : ∀ n < 32, ¬ UInt8.ofNat (n + 0xc0) < 0x80 ∧
    UInt8.ofNat (n + 0xc0) &&& 0xe0 = 0xc0 ∧ (UInt8.ofNat (n + 0xc0) &&& 0x1f).toNat = n := by
  decide

theorem lead_three : ∀ n < 16, ¬ UInt8.ofNat (n + 0xe0) < 0x80 ∧
    UInt8.ofNat (n + 0xe0) &&& 0xe0 ≠ 0xc0 ∧ UInt8.ofNat (n + 0xe0) &&& 0xf0 = 0xe0 ∧
    (UInt8.ofNat (n + 0xe0) &&& 0x0f).toNat = n := by
  decide

theorem lead_four : ∀ n < 8, ¬ UInt8.ofNat (n + 0xf0) < 0x80 ∧
    UInt8.ofNat (n + 0xf0) &&& 0xe0 ≠ 0xc0 ∧ UInt8.ofNat (n + 0xf0) &&& 0xf0 ≠ 0xe0 ∧
    UInt8.ofNat (n + 0xf0) &&& 0xf8 = 0xf0 ∧ (UInt8.ofNat (n + 0xf0) &&& 0x07).toNat = n := by
  decide

theorem continuation : ∀ n < 64, UInt8.ofNat (n + 0x80) &&& 0xc0 = 0x80 ∧
    (UInt8.ofNat (n + 0x80) &&& 0x3f).toNat = n := by
  decide

end Bytes

section Decode
variable {u : Utf8Scan} {n : Nat}

theorem utf8Byte_two (hu : u.utf8Remaining = 0) (hn : n < 32) :
    utf8Byte u (UInt8.ofNat (n + 0xc0)) = (⟨n, 0x80, 1⟩, []) := by
  obtain ⟨hascii, hmark, hbits⟩ := lead_two n hn
  rw [utf8Byte, if_pos hu, if_neg hascii, if_pos hmark, hbits]

theorem utf8Byte_three (hu : u.utf8Remaining = 0) (hn : n < 16) :
    utf8Byte u (UInt8.ofNat (n + 0xe0)) = (⟨n, 0x800, 2⟩, []) := by
  obtain ⟨hascii, htwo, hmark, hbits⟩ := lead_three n hn
  rw [utf8Byte, if_pos hu, if_neg hascii, if_neg htwo, if_pos hmark, hbits]

theorem utf8Byte_four (hu : u.utf8Remaining = 0) (hn : n < 8) :
    utf8Byte u (UInt8.ofNat (n + 0xf0)) = (⟨n, 0x10000, 3⟩, []) := by
  obtain ⟨hascii, htwo, hthree, hmark, hbits⟩ := lead_four n hn
  rw [utf8Byte, if_pos hu, if_neg hascii, if_neg htwo, if_neg hthree, if_pos hmark, hbits]

/-- A continuation byte shifts its six bits in. -/
theorem shifted_in {value : Nat} (hn : n < 64) (hv : value < 2 ^ 20) :
    u32 ((value <<< 6) ||| n) = value * 64 + n := by
  rw [← Nat.shiftLeft_add_eq_or_of_lt (show n < 2 ^ 6 from hn), Nat.shiftLeft_eq,
    u32_of_lt (by omega)]

theorem utf8Byte_next {value least remaining : Nat} (hn : n < 64) (hv : value < 2 ^ 20) :
    utf8Byte ⟨value, least, remaining + 2⟩ (UInt8.ofNat (n + 0x80)) =
      (⟨value * 64 + n, least, remaining + 1⟩, []) := by
  obtain ⟨hmark, hbits⟩ := continuation n hn
  rw [utf8Byte, if_neg (Nat.succ_ne_zero _), if_neg (not_not.mpr hmark), hbits, shifted_in hn hv]
  rfl

/-- The last byte of a sequence hands on its code point. -/
theorem utf8Byte_last {value least : Nat} (hn : n < 64) (hv : value < 2 ^ 20)
    {c : Char} (hc : c.toNat = value * 64 + n) (hmin : least ≤ c.toNat) :
    utf8Byte ⟨value, least, 1⟩ (UInt8.ofNat (n + 0x80)) = (⟨0, least, 0⟩, [c.toNat]) := by
  have hvalid : c.toNat < 0xd800 ∨ 0xdfff < c.toNat ∧ c.toNat < 0x110000 := c.valid
  obtain ⟨hmark, hbits⟩ := continuation n hn
  rw [utf8Byte, if_neg Nat.one_ne_zero, if_neg (not_not.mpr hmark), hbits, shifted_in hn hv, ← hc]
  have hgood : ¬ (c.toNat < least ∨ 0x10ffff < c.toNat ∨ (0xd800 ≤ c.toNat ∧ c.toNat ≤ 0xdfff)) := by
    omega
  simp only [hgood, Nat.sub_self, ne_eq, not_true_eq_false, if_false]

/-- **One encoded character** decodes to itself. -/
theorem utf8Points_char (hu : u.utf8Remaining = 0) (c : Char) :
    (utf8Points u (String.utf8EncodeChar c)).1.utf8Remaining = 0 ∧
      (utf8Points u (String.utf8EncodeChar c)).2 = [c.toNat] := by
  have hvalid : c.toNat < 0xd800 ∨ 0xdfff < c.toNat ∧ c.toNat < 0x110000 := c.valid
  have hval : c.val.toNat = c.toNat := rfl
  simp only [String.utf8EncodeChar, hval]
  split_ifs with h1 h2 h3
  · have hbyte : UInt8.ofNat c.toNat < 0x80 := by
      rw [UInt8.lt_iff_toNat_lt, UInt8.toNat_ofNat', Nat.mod_eq_of_lt (by omega)]
      exact Nat.lt_succ_of_le h1
    have hnat : (UInt8.ofNat c.toNat).toNat = c.toNat := by
      rw [UInt8.toNat_ofNat', Nat.mod_eq_of_lt (by omega)]
    simp only [utf8Points, utf8Byte, hu, hbyte, if_true, hnat]
    exact ⟨trivial, rfl⟩
  · rw [utf8Points, utf8Byte_two hu (by omega), utf8Points, utf8Byte_last (c := c) (by omega)
      (by omega) (by omega) (by omega)]
    exact ⟨rfl, rfl⟩
  · rw [utf8Points, utf8Byte_three hu (by omega), utf8Points, utf8Byte_next (by omega) (by omega),
      utf8Points, utf8Byte_last (c := c) (by omega) (by omega) (by omega) (by omega)]
    exact ⟨rfl, rfl⟩
  · rw [utf8Points, utf8Byte_four hu (by omega), utf8Points, utf8Byte_next (by omega) (by omega),
      utf8Points, utf8Byte_next (by omega) (by omega), utf8Points,
      utf8Byte_last (c := c) (by omega) (by omega) (by omega) (by omega)]
    exact ⟨rfl, rfl⟩

/-- **`xdp_jaccard_score_char`** decodes UTF-8. -/
theorem utf8Points_text (hu : u.utf8Remaining = 0) (cs : List Char) :
    (utf8Points u (encodeUtf8 cs)).1.utf8Remaining = 0 ∧
      (utf8Points u (encodeUtf8 cs)).2 = cs.map Char.toNat := by
  induction cs generalizing u with
  | nil => exact ⟨hu, rfl⟩
  | cons c cs ih =>
      obtain ⟨hr, hpoints⟩ := utf8Points_char hu c
      obtain ⟨hr', hpoints'⟩ := ih hr
      rw [encodeUtf8] at hr' hpoints' ⊢
      rw [List.flatMap_cons, utf8Points_append]
      exact ⟨hr', by rw [hpoints, hpoints']; rfl⟩

end Decode

end Xsr.Extraction
