import Xsr.Lib.JsonString

/-!
# JsonTree — JSON texts with their whitespace

A tree of the grammar keeps every blank and every spelling, so that its
`chars` are the text and each JSON text is the text of some tree. `members`
lists the object members of a tree in document order, nested ones after the
member they are nested in.
-/

namespace Xsr.Lib.Json

/-- A character of insignificant whitespace. -/
inductive Blank where
  | space | tab | lf | cr
  deriving DecidableEq, Repr

def Blank.char : Blank → Char
  | space => ' '
  | tab => '\t'
  | lf => '\n'
  | cr => '\r'

def blanks (ws : List Blank) : List Char := ws.map Blank.char

/-! ## Numbers -/

def digitChar (d : Fin 10) : Char := Char.ofNat (48 + d)

/-- One digit or more. -/
structure Digits where
  first : Fin 10
  rest : List (Fin 10)

def Digits.chars (ds : Digits) : List Char := digitChar ds.first :: ds.rest.map digitChar

/-- An integer part, without leading zeros. -/
inductive Integer where
  | zero
  | positive (first : Fin 9) (rest : List (Fin 10))

def Integer.chars : Integer → List Char
  | zero => ['0']
  | positive first rest => digitChar first.succ :: rest.map digitChar

/-- The sign of an exponent. -/
inductive Sign where
  | none | plus | minus

def Sign.chars : Sign → List Char
  | none => []
  | plus => ['+']
  | minus => ['-']

/-- `e`, the sign and the digits. -/
structure Exponent where
  upper : Bool
  sign : Sign
  digits : Digits

def Exponent.chars (e : Exponent) : List Char :=
  (if e.upper then 'E' else 'e') :: (e.sign.chars ++ e.digits.chars)

structure Number where
  negative : Bool
  integer : Integer
  fraction : Option Digits
  exponent : Option Exponent

def Number.chars (n : Number) : List Char :=
  (if n.negative then ['-'] else []) ++ n.integer.chars
    ++ n.fraction.elim [] (fun ds => '.' :: ds.chars) ++ n.exponent.elim [] Exponent.chars

/-- The three literal names. -/
inductive Word where
  | true | false | null

def Word.chars : Word → List Char
  | true => ['t', 'r', 'u', 'e']
  | false => ['f', 'a', 'l', 's', 'e']
  | null => ['n', 'u', 'l', 'l']

/-! ## Trees -/

/-- The syntactic categories. -/
inductive Kind where
  | value | elements | members

/-- The trees of the grammar, with the blanks around each part. -/
inductive Tree : Kind → Type where
  | word (w : Word) : Tree .value
  | number (n : Number) : Tree .value
  | string (items : List Item) : Tree .value
  | emptyArray (inner : List Blank) : Tree .value
  | array (elements : Tree .elements) : Tree .value
  | emptyObject (inner : List Blank) : Tree .value
  | object (members : Tree .members) : Tree .value
  | lastElement (before : List Blank) (v : Tree .value) (after : List Blank) : Tree .elements
  | element (before : List Blank) (v : Tree .value) (after : List Blank)
      (rest : Tree .elements) : Tree .elements
  | lastMember (before : List Blank) (key : List Item) (beforeColon afterColon : List Blank)
      (v : Tree .value) (after : List Blank) : Tree .members
  | member (before : List Blank) (key : List Item) (beforeColon afterColon : List Blank)
      (v : Tree .value) (after : List Blank) (rest : Tree .members) : Tree .members

/-- The text of a member up to its value. -/
def memberHead (before : List Blank) (key : List Item) (beforeColon afterColon : List Blank) :
    List Char :=
  blanks before ++ (literal key ++ (blanks beforeColon ++ (':' :: blanks afterColon)))

/-- The text of a tree. -/
def Tree.chars : {k : Kind} → Tree k → List Char
  | _, word w => w.chars
  | _, number n => n.chars
  | _, string items => literal items
  | _, emptyArray inner => '[' :: (blanks inner ++ [']'])
  | _, array elements => '[' :: (elements.chars ++ [']'])
  | _, emptyObject inner => '\x7b' :: (blanks inner ++ ['\x7d'])
  | _, object members => '\x7b' :: (members.chars ++ ['\x7d'])
  | _, lastElement before v after => blanks before ++ (v.chars ++ blanks after)
  | _, element before v after rest =>
      blanks before ++ (v.chars ++ (blanks after ++ (',' :: rest.chars)))
  | _, lastMember before key beforeColon afterColon v after =>
      memberHead before key beforeColon afterColon ++ (v.chars ++ blanks after)
  | _, member before key beforeColon afterColon v after rest =>
      memberHead before key beforeColon afterColon ++ (v.chars ++ (blanks after ++ (',' :: rest.chars)))

/-- The literal of a string. -/
def Tree.string? : Tree .value → Option (List Item)
  | string items => some items
  | _ => none

theorem Tree.eq_string {v : Tree .value} {items : List Item} (h : v.string? = some items) :
    v = .string items := by
  cases v with
  | string items' => rw [Option.some.inj h]
  | _ => cases h

/-- An object member: its key, the blanks around its colon, and its value
when that is a string. -/
structure Member where
  key : List Item
  beforeColon : List Blank
  afterColon : List Blank
  value : Option (List Item)

/-- The object members of a tree in document order. -/
def Tree.members : {k : Kind} → Tree k → List Member
  | _, word _ | _, number _ | _, string _ | _, emptyArray _ | _, emptyObject _ => []
  | _, array elements => elements.members
  | _, object members => members.members
  | _, lastElement _ v _ => v.members
  | _, element _ v _ rest => v.members ++ rest.members
  | _, lastMember _ key beforeColon afterColon v _ =>
      ⟨key, beforeColon, afterColon, v.string?⟩ :: v.members
  | _, member _ key beforeColon afterColon v _ rest =>
      ⟨key, beforeColon, afterColon, v.string?⟩ :: (v.members ++ rest.members)

def Tree.isObject : Tree .value → Bool
  | object _ | emptyObject _ => true
  | _ => false

/-- A JSON text that is an object. -/
structure Document where
  before : List Blank
  root : Tree .value
  after : List Blank
  object : root.isObject = true

def Document.chars (doc : Document) : List Char :=
  blanks doc.before ++ (doc.root.chars ++ blanks doc.after)

def Document.members (doc : Document) : List Member := doc.root.members

/-! ## The characters outside of strings -/

/-- A character that is neither blank nor a quote. -/
def Bare (c : Char) : Prop := c.toNat < 128 ∧ c ≠ ' ' ∧ c ≠ '\t' ∧ c ≠ '"'

instance (c : Char) : Decidable (Bare c) := inferInstanceAs (Decidable (_ ∧ _))

/-- A text that is bare by computation. -/
theorem bare_of_all {text : List Char} (h : text.all (fun c => Bare c) = true) :
    ∀ c ∈ text, Bare c := fun c hc => of_decide_eq_true (List.all_eq_true.mp h c hc)

theorem bare_digits (ds : List (Fin 10)) : ∀ c ∈ ds.map digitChar, Bare c := by
  have hdigit : ∀ d, Bare (digitChar d) := by decide
  intro c hc
  obtain ⟨d, -, rfl⟩ := List.mem_map.mp hc
  exact hdigit d

theorem Digits.bare (ds : Digits) : ∀ c ∈ ds.chars, Bare c := bare_digits (ds.first :: ds.rest)

theorem Integer.bare (i : Integer) : ∀ c ∈ i.chars, Bare c := by
  cases i with
  | zero => exact bare_of_all rfl
  | positive first rest => exact bare_digits (first.succ :: rest)

theorem Exponent.bare (e : Exponent) : ∀ c ∈ e.chars, Bare c := by
  obtain ⟨upper, sign, digits⟩ := e
  intro c hc
  simp only [Exponent.chars, List.mem_cons, List.mem_append] at hc
  have hletter : ∀ b : Bool, Bare (if b then 'E' else 'e') := by decide
  rcases hc with rfl | hc | hc
  · exact hletter upper
  · revert c
    cases sign <;> exact bare_of_all rfl
  · exact digits.bare c hc

theorem Number.bare (n : Number) : ∀ c ∈ n.chars, Bare c := by
  obtain ⟨negative, integer, fraction, exponent⟩ := n
  intro c hc
  simp only [Number.chars, List.mem_append] at hc
  rcases hc with ((hc | hc) | hc) | hc
  · have hsign : ∀ b : Bool, ∀ c ∈ if b then ['-'] else [], Bare c :=
      fun b => bare_of_all (by cases b <;> rfl)
    exact hsign negative c hc
  · exact integer.bare c hc
  · cases fraction with
    | none => simp at hc
    | some ds =>
        rcases List.mem_cons.mp hc with rfl | hc
        · decide
        · exact ds.bare c hc
  · cases exponent with
    | none => simp at hc
    | some e => exact e.bare c hc

theorem Number.ne_nil (n : Number) : n.chars ≠ [] := by
  obtain ⟨negative, integer, fraction, exponent⟩ := n
  cases integer <;> simp [Number.chars, Integer.chars]

theorem Word.bare (w : Word) : ∀ c ∈ w.chars, Bare c := bare_of_all (by cases w <;> rfl)

/-- **A value that is not a string** begins with a bare character. -/
theorem Tree.chars_bare {v : Tree .value} (h : v.string? = none) :
    ∃ c cs, v.chars = c :: cs ∧ Bare c := by
  have hcons : ∀ {text : List Char}, text ≠ [] → (∀ c ∈ text, Bare c) →
      ∃ c cs, text = c :: cs ∧ Bare c := by
    intro text hne hbare
    obtain ⟨c, cs, rfl⟩ := List.exists_cons_of_ne_nil hne
    exact ⟨c, cs, rfl, hbare c (by simp)⟩
  cases v with
  | word w => exact hcons (by cases w <;> simp [Tree.chars, Word.chars]) w.bare
  | number n => exact hcons n.ne_nil n.bare
  | string items => cases h
  | emptyArray inner => exact ⟨'[', _, rfl, by decide⟩
  | array elements => exact ⟨'[', _, rfl, by decide⟩
  | emptyObject inner => exact ⟨'\x7b', _, rfl, by decide⟩
  | object members => exact ⟨'\x7b', _, rfl, by decide⟩

end Xsr.Lib.Json
