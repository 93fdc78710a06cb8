import Xsr.Lib.DecimalNumber
import Xsr.Lib.Raise

/-!
# Value — the objects a policy file is read into

`load_policy` yields dictionaries, lists, strings, integers and booleans,
and from JSON also floats and `None`. The tools call `str`, `int`, `bool`
and `Decimal` on whatever they find, so those are defined on all of them.
-/

namespace Xsr.Policy

open Lib

/-- The exceptions of the policy tools: `ValueError` with the text of the
source, and those Python itself raises. -/
inductive PyError where
  | valueError (text : String)
  /-- `int` or `Decimal` of something they do not read -/
  | conversion
  /-- an exception of decimal or floating-point arithmetic -/
  | arithmetic
  deriving DecidableEq, Repr

/-- What the tools read of a float: `repr`, `int` (`none` for an infinity or
NaN, which raise) and `bool`. -/
structure PyFloat where
  text : String
  integer : Option Int
  nonzero : Bool
  deriving DecidableEq

/-- A value of a policy. -/
inductive PyVal where
  | none
  | bool (b : Bool)
  | int (z : Int)
  | float (x : PyFloat)
  | str (s : String)
  | list (values : List PyVal)
  | dict (entries : List (String × PyVal))

/-- A dictionary, its keys in order. -/
abbrev Dict := List (String × PyVal)

/-- `d.get(key, default)` -/
def Dict.getD (d : Dict) (key : String) (default : PyVal) : PyVal :=
  (d.lookup key).getD default

namespace PyVal

/-- `value` after `isinstance(value, dict)`. -/
def asDict : PyVal → Option Dict
  | dict entries => some entries
  | _ => Option.none

/-- `value` after `isinstance(value, list)`. -/
def asList : PyVal → Option (List PyVal)
  | list values => some values
  | _ => Option.none

/-- `bool(value)` -/
def truth : PyVal → Bool
  | none => false
  | bool b => b
  | int z => z != 0
  | float x => x.nonzero
  | str s => s != ""
  | list values => !values.isEmpty
  | dict entries => !entries.isEmpty

end PyVal

section Texts
variable (u : Unicode)

/-- `repr` of a string. -/
def pyRepr (s : String) : String := String.ofList (u.reprText s.toList)

/-- `s.lower()` -/
def pyLower (s : String) : String := String.ofList (u.lowerText s.toList)

/-- `s.upper()` -/
def pyUpper (s : String) : String := String.ofList (u.upperText s.toList)

/-- `s.startswith(prefix)` -/
def startsWith (s start : String) : Bool := start.toList.isPrefixOf s.toList

mutual

/-- `repr(value)` -/
def PyVal.repr : PyVal → String
  | .none => "None"
  | .bool b => if b then "True" else "False"
  | .int z => toString z
  | .float x => x.text
  | .str s => pyRepr u s
  | .list values => "[" ++ ", ".intercalate (reprValues values) ++ "]"
  | .dict entries => "\x7b" ++ ", ".intercalate (reprEntries entries) ++ "\x7d"

def reprValues : List PyVal → List String
  | [] => []
  | value :: values => value.repr :: reprValues values

def reprEntries : List (String × PyVal) → List String
  | [] => []
  | (key, value) :: entries => (pyRepr u key ++ ": " ++ value.repr) :: reprEntries entries

end

/-- `str(value)` -/
def PyVal.text : PyVal → String
  | .str s => s
  | value => value.repr u

/-- Digits with single underscores between them. -/
def groupedDigits : List Char → Option (List Nat)
  | [] => none
  | c :: cs =>
      match u.digit c with
      | none => none
      | some d =>
          match cs with
          | [] => some [d]
          | '_' :: cs => (groupedDigits cs).map (d :: ·)
          | c' :: cs => (groupedDigits (c' :: cs)).map (d :: ·)

/-- `sys.get_int_max_str_digits()` -/
def maxIntDigits : Nat := 4300

/-- `int(text)` -/
def readInt (text : String) : Option Int :=
  let (negative, cs) := Decimal.sign (Unicode.strip text.toList)
  match groupedDigits u cs with
  | none => none
  | some ds =>
      if maxIntDigits < ds.length then none
      else some (if negative then -(Nat.ofDigits 10 ds.reverse) else Nat.ofDigits 10 ds.reverse)

/-- `int(value)` -/
def PyVal.toInt : PyVal → Except PyError Int
  | .bool b => .ok (if b then 1 else 0)
  | .int z => .ok z
  | .float x => x.integer.elim (.error .arithmetic) .ok
  | .str s => (readInt u s).elim (.error .conversion) .ok
  | _ => .error .conversion

/-- `Decimal(str(value))` -/
def PyVal.toDecimal (value : PyVal) : Except PyError Decimal :=
  (Decimal.read u (value.text u).toList).elim (.error .conversion) .ok

end Texts

/-- `raise ValueError(text)` when `bad`. -/
def raiseIf (bad : Bool) (text : String) : Except PyError Unit := refuseIf bad (.valueError text)

/-- A value that has to be there. -/
def required {α : Type} (value : Option α) (text : String) : Except PyError α :=
  value.elim (.error (.valueError text)) .ok

theorem required_ok {α : Type} {value : Option α} {text : String} {a : α}
    (h : required value text = .ok a) : value = some a := by
  cases value with
  | none => cases h
  | some b => cases h; rfl

end Xsr.Policy
