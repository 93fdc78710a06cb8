import Xsr.Lib.Utf8

/-!
# JsonString — string literals of JSON, and Python's way of writing them

Between its quotes a literal is a list of items: characters that stand for
themselves, two-character escapes and `\u` escapes. An item carries the
proof that it may stand there, so every list of items is a literal.
`points` reads the items as `json.loads` does, a high surrogate and the low
one after it as one code point; `encode` writes them as `json.dumps` does.
-/

namespace Xsr.Lib.Json

/-! ## Items -/

/-- The characters that follow the backslash of a short escape. -/
inductive Escape where
  | quote | backslash | slash | b | f | n | r | t
  deriving DecidableEq, Repr

/-- The character after the backslash. -/
def Escape.char : Escape → Char
  | quote => '"'
  | backslash => '\\'
  | slash => '/'
  | b => 'b'
  | f => 'f'
  | n => 'n'
  | r => 'r'
  | t => 't'

/-- The character the escape stands for. -/
def Escape.value : Escape → Char
  | quote => '"'
  | backslash => '\\'
  | slash => '/'
  | b => '\x08'
  | f => '\x0c'
  | n => '\n'
  | r => '\r'
  | t => '\t'

/-- A hexadecimal digit, in either case. -/
structure HexDigit where
  value : Fin 16
  upper : Bool
  deriving DecidableEq, Repr

def HexDigit.char (d : HexDigit) : Char :=
  Char.ofNat (if d.value < 10 then 48 + d.value else if d.upper then 55 + d.value
    else 87 + d.value)

/-- The characters a literal holds unescaped. -/
def unescaped (c : Char) : Bool := 32 ≤ c.toNat && c ≠ '"' && c ≠ '\\'

/-- One item between the quotes of a literal. -/
inductive Item where
  | raw (c : Char) (h : unescaped c = true)
  | escape (e : Escape)
  | unicode (a b c d : HexDigit)
  deriving DecidableEq

namespace Item

/-- The characters of an item. -/
def chars : Item → List Char
  | raw c _ => [c]
  | escape e => ['\\', e.char]
  | unicode a b c d => ['\\', 'u', a.char, b.char, c.char, d.char]

/-- The code point an item stands for; a `\u` escape may stand for half of a
surrogate pair. -/
def point : Item → Nat
  | raw c _ => c.toNat
  | escape e => e.value.toNat
  | unicode a b c d =>
      ((a.value.val * 16 + b.value.val) * 16 + c.value.val) * 16 + d.value.val

theorem point_unicode_lt (a b c d : HexDigit) : (unicode a b c d).point < 65536 := by
  have := a.value.isLt
  have := b.value.isLt
  have := c.value.isLt
  have := d.value.isLt
  simp only [point]
  omega

end Item

/-- A literal with its quotes. -/
def literal (items : List Item) : List Char := '"' :: items.flatMap Item.chars ++ ['"']

/-! ## What a literal stands for -/

/-- The high surrogates. -/
def IsHigh (n : Nat) : Prop := 0xd800 ≤ n ∧ n ≤ 0xdbff
/-- The low surrogates. -/
def IsLow (n : Nat) : Prop := 0xdc00 ≤ n ∧ n ≤ 0xdfff

instance (n : Nat) : Decidable (IsHigh n) := inferInstanceAs (Decidable (_ ∧ _))
instance (n : Nat) : Decidable (IsLow n) := inferInstanceAs (Decidable (_ ∧ _))

/-- The code point of a surrogate pair. -/
def joined (high low : Nat) : Nat := 0x10000 + (high - 0xd800) * 0x400 + (low - 0xdc00)

/-- The code points of a literal. -/
def points : List Item → List Nat
  | [] => []
  | [i] => [i.point]
  | i :: j :: rest =>
      if IsHigh i.point ∧ IsLow j.point then joined i.point j.point :: points rest
      else i.point :: points (j :: rest)

/-- A code point as a character: surrogates are none. -/
def scalar (n : Nat) : Option Char :=
  if h : n.isValidChar then some (Char.ofNatAux n h) else none

/-- The text of a literal, unless an unpaired surrogate is left in it. -/
def text (items : List Item) : Option (List Char) := (points items).mapM scalar

theorem scalar_eq_some_iff {n : Nat} {c : Char} : scalar n = some c ↔ c.toNat = n := by
  unfold scalar
  split
  next h =>
    rw [Option.some.injEq]
    constructor
    · rintro rfl
      rfl
    · rintro rfl
      exact Char.toNat_inj.mp rfl
  next h =>
    simp only [reduceCtorEq, false_iff]
    rintro rfl
    exact h c.valid

theorem scalar_toNat (c : Char) : scalar c.toNat = some c := scalar_eq_some_iff.mpr rfl

theorem not_surrogate (c : Char) : ¬ IsHigh c.toNat ∧ ¬ IsLow c.toNat := by
  have hvalid : c.toNat < 0xd800 ∨ 0xdfff < c.toNat ∧ c.toNat < 0x110000 := c.valid
  simp only [IsHigh, IsLow]
  omega

/-- Only a `\u` escape stands for a surrogate. -/
theorem Item.eq_unicode {i : Item} (h : IsHigh i.point ∨ IsLow i.point) :
    ∃ a b c d, i = .unicode a b c d := by
  cases i with
  | raw c _ => exact absurd h (by simp [Item.point, not_surrogate c])
  | escape e => exact absurd h (by simp [Item.point, not_surrogate e.value])
  | unicode a b c d => exact ⟨a, b, c, d, rfl⟩

theorem points_pair {i j : Item} (hi : IsHigh i.point) (hj : IsLow j.point) (rest : List Item) :
    points (i :: j :: rest) = joined i.point j.point :: points rest := by
  rw [points, if_pos ⟨hi, hj⟩]

theorem points_single {i : Item} (hi : ¬ IsHigh i.point) (rest : List Item) :
    points (i :: rest) = i.point :: points rest := by
  cases rest with
  | nil => rfl
  | cons j rest => rw [points, if_neg fun h => hi h.1]

/-! ## `json.dumps` of a string -/

/-- `\uXXXX`, in lower case. -/
def unicodeItem (n : Nat) : Item :=
  let digit (i : Nat) : HexDigit := ⟨⟨n / 16 ^ i % 16, Nat.mod_lt _ (by decide)⟩, false⟩
  .unicode (digit 3) (digit 2) (digit 1) (digit 0)

/-- The short escape of a character, if the encoder has one. -/
def shortEscape (c : Char) : Option Escape :=
  if c = '"' then some .quote
  else if c = '\\' then some .backslash
  else if c = '\n' then some .n
  else if c = '\r' then some .r
  else if c = '\t' then some .t
  else if c = '\x0c' then some .f
  else if c = '\x08' then some .b
  else none

/-- One character of `json.dumps`; `ascii` is `ensure_ascii`. -/
def encodeChar (ascii : Bool) (c : Char) : List Item :=
  match shortEscape c with
  | some e => [.escape e]
  | none =>
      if h : unescaped c = true ∧ (ascii = true → c.toNat ≤ 126) then [.raw c h.1]
      else if c.toNat < 0x10000 then [unicodeItem c.toNat]
      else
        [unicodeItem (0xd800 + (c.toNat - 0x10000) / 0x400),
          unicodeItem (0xdc00 + (c.toNat - 0x10000) % 0x400)]

/-- The items `json.dumps` writes for a string. -/
def encode (ascii : Bool) (cs : List Char) : List Item := cs.flatMap (encodeChar ascii)

theorem point_unicodeItem {n : Nat} (h : n < 65536) : (unicodeItem n).point = n := by
  simp only [unicodeItem, Item.point]
  omega

theorem points_surrogates {high low : Nat} (hh : IsHigh high) (hl : IsLow low)
    (rest : List Item) :
    points (unicodeItem high :: unicodeItem low :: rest) = joined high low :: points rest := by
  have hhigh : (unicodeItem high).point = high := point_unicodeItem (by rw [IsHigh] at hh; omega)
  have hlow : (unicodeItem low).point = low := point_unicodeItem (by rw [IsLow] at hl; omega)
  rw [points_pair (by rw [hhigh]; exact hh) (by rw [hlow]; exact hl), hhigh, hlow]

theorem shortEscape_value {c : Char} {e : Escape} (h : shortEscape c = some e) : e.value = c := by
  unfold shortEscape at h
  split_ifs at h with h1 h2 h3 h4 h5 h6 h7 <;>
    · obtain rfl := Option.some.inj h
      first
        | exact h1.symm | exact h2.symm | exact h3.symm | exact h4.symm
        | exact h5.symm | exact h6.symm | exact h7.symm

/-- **One encoded character** reads as itself, whatever follows it. -/
theorem points_encodeChar (ascii : Bool) (c : Char) (rest : List Item) :
    points (encodeChar ascii c ++ rest) = c.toNat :: points rest := by
  have hsingle : ∀ {i : Item}, i.point = c.toNat → points ([i] ++ rest) = c.toNat :: points rest := by
    intro i hi
    rw [List.singleton_append, points_single (by rw [hi]; exact (not_surrogate c).1), hi]
  unfold encodeChar
  split
  next e he => exact hsingle (by rw [Item.point, shortEscape_value he])
  next =>
    split_ifs with hraw hsmall
    · exact hsingle rfl
    · exact hsingle (point_unicodeItem hsmall)
    · have hvalid : c.toNat < 0xd800 ∨ 0xdfff < c.toNat ∧ c.toNat < 0x110000 := c.valid
      have hjoined : joined (0xd800 + (c.toNat - 0x10000) / 0x400)
          (0xdc00 + (c.toNat - 0x10000) % 0x400) = c.toNat := by
        unfold joined
        omega
      have hpair := @points_surrogates (0xd800 + (c.toNat - 0x10000) / 0x400)
        (0xdc00 + (c.toNat - 0x10000) % 0x400) (by unfold IsHigh; omega)
        (by unfold IsLow; omega) rest
      rw [hjoined] at hpair
      exact hpair

theorem points_encode (ascii : Bool) (cs : List Char) :
    points (encode ascii cs) = cs.map Char.toNat := by
  induction cs with
  | nil => rfl
  | cons c cs ih =>
      rw [encode] at ih ⊢
      rw [List.flatMap_cons, points_encodeChar, ih, List.map_cons]

/-- **Python's encoder** writes a literal that stands for the string. -/
theorem text_encode (ascii : Bool) (cs : List Char) : text (encode ascii cs) = some cs := by
  rw [text, points_encode]
  induction cs with
  | nil => rfl
  | cons c cs ih => rw [List.map_cons, List.mapM_cons, scalar_toNat, ih]; rfl

end Xsr.Lib.Json
