import Mathlib

/-!
# Unicode — Python's text operations over the character tables

The tables of the interpreter are parameters, of which the part about ASCII
is known; what `str` does with them is not a parameter. Lower-casing looks
at the surroundings of one character only, the capital sigma, which becomes
a final sigma at the end of a word.
-/

namespace Xsr.Lib

/-- The character data an interpreter is built with. -/
structure Unicode where
  /-- the full lower-case mapping -/
  lower : Char → List Char
  /-- the full upper-case mapping -/
  upper : Char → List Char
  cased : Char → Bool
  caseIgnorable : Char → Bool
  /-- `str.isalnum` of one character -/
  alnum : Char → Bool
  /-- the value of a decimal digit -/
  digit : Char → Option Nat
  printable : Char → Bool
  lower_ascii : ∀ c, c.toNat < 128 → lower c = [c.toLower]
  upper_ascii : ∀ c, c.toNat < 128 → upper c = [c.toUpper]
  alnum_ascii : ∀ c, c.toNat < 128 → alnum c = c.isAlphanum

namespace Unicode
variable (u : Unicode)

/-- `'Σ'`, the capital sigma. -/
def capitalSigma : Char := Char.ofNat 0x3a3
/-- `'σ'` -/
def smallSigma : Char := Char.ofNat 0x3c3
/-- `'ς'` -/
def finalSigma : Char := Char.ofNat 0x3c2

/-- The first character that is not case-ignorable is there and cased. -/
def nextCased (cs : List Char) : Bool :=
  match cs.dropWhile u.caseIgnorable with
  | c :: _ => u.cased c
  | [] => false

/-- One character lower-cased between the characters before it, the nearest
first, and those after it. -/
def lowerAt (before : List Char) (c : Char) (after : List Char) : List Char :=
  if c = capitalSigma then
    if u.nextCased before && !u.nextCased after then [finalSigma] else [smallSigma]
  else u.lower c

/-- The characters lower-cased, `before` them read already. -/
def lowerFrom (before : List Char) : List Char → List Char
  | [] => []
  | c :: cs => u.lowerAt before c cs ++ lowerFrom (c :: before) cs

/-- `str.lower` -/
def lowerText (text : List Char) : List Char := u.lowerFrom [] text

/-- `str.upper` -/
def upperText (text : List Char) : List Char := text.flatMap u.upper

/-- `\w` -/
def wordChar (c : Char) : Bool := u.alnum c || c == '_'

/-- `str.isspace` of one character -/
def space (c : Char) : Bool :=
  (9 ≤ c.toNat && c.toNat ≤ 13) || (28 ≤ c.toNat && c.toNat ≤ 32) || c.toNat == 0x85
    || c.toNat == 0xa0 || c.toNat == 0x1680 || (0x2000 ≤ c.toNat && c.toNat ≤ 0x200a)
    || c.toNat == 0x2028 || c.toNat == 0x2029 || c.toNat == 0x202f || c.toNat == 0x205f
    || c.toNat == 0x3000

/-- `str.strip` -/
def strip (text : List Char) : List Char :=
  ((text.dropWhile space).reverse.dropWhile space).reverse

/-- A lower-case hexadecimal digit. -/
def hexDigit (n : Nat) : Char := Char.ofNat (if n < 10 then 48 + n else 87 + n)

/-- `width` hexadecimal digits. -/
def hex (width n : Nat) : List Char :=
  (List.range width).reverse.map fun i => hexDigit (n / 16 ^ i % 16)

/-- One character inside `repr`, quoted by `quote`. -/
def reprChar (quote c : Char) : List Char :=
  if c = quote ∨ c = '\\' then ['\\', c]
  else if c = '\t' then ['\\', 't']
  else if c = '\n' then ['\\', 'n']
  else if c = '\r' then ['\\', 'r']
  else if u.printable c then [c]
  else if c.toNat < 0x100 then '\\' :: 'x' :: hex 2 c.toNat
  else if c.toNat < 0x10000 then '\\' :: 'u' :: hex 4 c.toNat
  else '\\' :: 'U' :: hex 8 c.toNat

/-- `repr` of a string: single quotes, unless only double quotes avoid an
escape. -/
def reprText (text : List Char) : List Char :=
  let quote := if text.contains '\'' && !text.contains '"' then '"' else '\''
  quote :: text.flatMap (u.reprChar quote) ++ [quote]

/-! ## ASCII texts -/

/-- What holds of the ASCII characters one by one. -/
theorem forall_ascii {P : Char → Prop} (h : ∀ n : Fin 128, P (Char.ofNat n)) {c : Char}
    (hc : c.toNat < 128) : P c := by
  have hat := h ⟨c.toNat, hc⟩
  rwa [Char.ofNat_toNat] at hat

theorem lowerAt_ascii {c : Char} (h : c.toNat < 128) (before after : List Char) :
    u.lowerAt before c after = [c.toLower] := by
  have hne : c ≠ capitalSigma := by
    rintro rfl
    exact absurd h (by decide)
  rw [lowerAt, if_neg hne, u.lower_ascii c h]

theorem lowerText_ascii {text : List Char} (h : ∀ c ∈ text, c.toNat < 128) :
    u.lowerText text = text.map Char.toLower := by
  have hfrom : ∀ before, u.lowerFrom before text = text.map Char.toLower := by
    induction text with
    | nil => exact fun _ => rfl
    | cons c cs ih =>
        intro before
        rw [lowerFrom, u.lowerAt_ascii (h c (by simp)), ih fun c hc => h c (by simp [hc])]
        rfl
  exact hfrom []

theorem upperText_ascii {text : List Char} (h : ∀ c ∈ text, c.toNat < 128) :
    u.upperText text = text.map Char.toUpper := by
  induction text with
  | nil => rfl
  | cons c cs ih =>
      have hcs := ih fun c hc => h c (by simp [hc])
      rw [upperText] at hcs ⊢
      rw [List.flatMap_cons, u.upper_ascii c (h c (by simp)), hcs]
      rfl

/-- The tables of an interpreter that knows ASCII only. -/
def asciiTables : Unicode where
  lower c := [c.toLower]
  upper c := [c.toUpper]
  cased := Char.isAlpha
  caseIgnorable _ := false
  alnum := Char.isAlphanum
  digit c := if c.isDigit then some (c.toNat - 48) else none
  printable c := 32 ≤ c.toNat && c.toNat < 127
  lower_ascii _ _ := rfl
  upper_ascii _ _ := rfl
  alnum_ascii _ _ := rfl

end Unicode

end Xsr.Lib
