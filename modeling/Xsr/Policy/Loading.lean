import Xsr.Lib.OrderedDict
import Xsr.Policy.Value

/-!
# Loading — `load_policy`, a policy file line by line

The loader keeps a stack of the objects its lines may still add to, each
with the indentation it was opened at. The objects are shared with the tree
under construction; here the tree is one value and the stack holds the way
to each open object in it.
-/

namespace Xsr.Policy

open Lib

/-! ## The text of a file -/

/-- A file opened in text mode: every line ends with `\n`. -/
def universalNewlines : List Char → List Char
  | [] => []
  | '\r' :: '\n' :: cs => '\n' :: universalNewlines cs
  | '\r' :: cs => '\n' :: universalNewlines cs
  | c :: cs => c :: universalNewlines cs

/-- `c` in front of the first of some pieces. -/
def extendFirst (c : Char) : List (List Char) → List (List Char)
  | [] => [[c]]
  | piece :: pieces => (c :: piece) :: pieces

/-- The lines of a text, each with its newline. -/
def fileLines : List Char → List (List Char)
  | [] => []
  | c :: cs => if c = '\n' then [c] :: fileLines cs else extendFirst c (fileLines cs)

/-- `text.rstrip()` -/
def rstrip (text : List Char) : List Char := (text.reverse.dropWhile Unicode.space).reverse

/-- What stands behind a line end is translated on its own. -/
theorem universalNewlines_behind (text : List Char) :
    ∃ text', ∀ rest, universalNewlines (text ++ '\n' :: rest)
      = text' ++ '\n' :: universalNewlines rest := by
  fun_induction universalNewlines text with
  | case1 => exact ⟨[], fun rest => by simp [universalNewlines]⟩
  | case2 cs ih =>
      obtain ⟨text', h⟩ := ih
      exact ⟨'\n' :: text', fun rest => by simp [universalNewlines, h rest]⟩
  | case3 cs hcs ih =>
      obtain ⟨text', h⟩ := ih
      cases cs with
      | nil => exact ⟨[], fun rest => by simp [universalNewlines]⟩
      | cons c cs =>
          have hc : c ≠ '\n' := fun hc => hcs cs (by rw [hc])
          refine ⟨'\n' :: text', fun rest => ?_⟩
          rw [List.cons_append, List.cons_append, universalNewlines.eq_3, ← List.cons_append,
            h rest]
          · rfl
          · intro cs' hcs'
            exact hc (List.cons.inj hcs').1
  | case4 c cs h1 h2 ih =>
      obtain ⟨text', h⟩ := ih
      refine ⟨c :: text', fun rest => ?_⟩
      rw [List.cons_append, universalNewlines.eq_4, h rest]
      · rfl
      · exact fun cs' hc => (h2 hc).elim
      · exact h2

theorem universalNewlines_plain {text : List Char} (h : '\r' ∉ text) :
    universalNewlines text = text := by
  induction text with
  | nil => rfl
  | cons c cs ih =>
      rw [List.mem_cons, not_or] at h
      rw [universalNewlines.eq_4, ih h.2]
      · exact fun cs' hc => (h.1 hc.symm).elim
      · exact fun hc => h.1 hc.symm

/-- What stands behind a line end is divided into lines on its own. -/
theorem fileLines_behind (text : List Char) :
    ∃ line lines, ∀ rest, fileLines (text ++ '\n' :: rest) = line :: lines ++ fileLines rest := by
  induction text with
  | nil => exact ⟨['\n'], [], fun rest => by simp [fileLines]⟩
  | cons c cs ih =>
      obtain ⟨line, lines, h⟩ := ih
      by_cases hc : c = '\n'
      · exact ⟨[c], line :: lines, fun rest => by
          rw [List.cons_append, fileLines, if_pos hc, h rest]
          rfl⟩
      · exact ⟨c :: line, lines, fun rest => by
          rw [List.cons_append, fileLines, if_neg hc, h rest]
          rfl⟩

theorem fileLines_line {line : List Char} (h : '\n' ∉ line) (rest : List Char) :
    fileLines (line ++ '\n' :: rest) = (line ++ ['\n']) :: fileLines rest := by
  induction line with
  | nil => simp [fileLines]
  | cons c cs ih =>
      rw [List.mem_cons, not_or] at h
      rw [List.cons_append, fileLines, if_neg (Ne.symm h.1), ih h.2]
      rfl

/-! ## Scalars -/

/-- `re.split` at the commas that an even number of double quotes follows. -/
def splitCommas : List Char → List (List Char)
  | [] => [[]]
  | c :: cs =>
      if c = ',' ∧ cs.count '"' % 2 = 0 then [] :: splitCommas cs
      else extendFirst c (splitCommas cs)

theorem length_extendFirst {c : Char} {pieces : List (List Char)} {n : Nat}
    (h : ∀ p ∈ pieces, p.length ≤ n) : ∀ p ∈ extendFirst c pieces, p.length ≤ n + 1 := by
  cases pieces with
  | nil => simp [extendFirst]
  | cons piece pieces =>
      intro p hp
      rcases List.mem_cons.mp hp with rfl | hp
      · have := h piece (by simp)
        simpa using this
      · exact (h p (by simp [hp])).trans n.le_succ

theorem length_splitCommas (body : List Char) : ∀ p ∈ splitCommas body, p.length ≤ body.length := by
  induction body with
  | nil => simp [splitCommas]
  | cons c cs ih =>
      unfold splitCommas
      split_ifs with hc
      · intro p hp
        rcases List.mem_cons.mp hp with rfl | hp
        · simp
        · exact (ih p hp).trans (by simp)
      · exact length_extendFirst ih

theorem length_strip (text : List Char) : (Unicode.strip text).length ≤ text.length := by
  rw [Unicode.strip, List.length_reverse]
  refine (List.dropWhile_suffix _).length_le.trans ?_
  rw [List.length_reverse]
  exact (List.dropWhile_suffix _).length_le

/-- `re.fullmatch(r"-?[0-9]+", value)` -/
def isInteger (value : List Char) : Bool :=
  let ds := if value.head? = some '-' then value.drop 1 else value
  !ds.isEmpty && ds.all Char.isDigit

/-- A quote character of `value.strip('"\'')`. -/
def quoteChar (c : Char) : Bool := c == '"' || c == '\''

/-- `value.strip('"\'')` -/
def stripQuotes (value : List Char) : List Char :=
  ((value.dropWhile quoteChar).reverse.dropWhile quoteChar).reverse

/-- The body of a bracketed list: `value[1:-1].strip()`. -/
def listBody (value : List Char) : List Char := Unicode.strip (value.drop 1).dropLast

/-- `parse_scalar` -/
def parseScalar (u : Unicode) (text : List Char) : Except PyError PyVal :=
  let value := Unicode.strip text
  if _h : value.head? = some '[' ∧ value.getLast? = some ']' then
    let items := (splitCommas (listBody value)).filter fun item => !(Unicode.strip item).isEmpty
    if listBody value = [] then .ok (.list [])
    else do
      let values ← items.attach.mapM fun item => parseScalar u item.1
      .ok (.list values)
  else if value = "true".toList ∨ value = "false".toList then
    .ok (.bool (value = "true".toList))
  else if isInteger value then
    (readInt u (String.ofList value)).elim (.error .conversion) fun z => .ok (.int z)
  else .ok (.str (String.ofList (stripQuotes value)))
termination_by text.length
decreasing_by
  have hitem := length_splitCommas _ item.1 (List.mem_of_mem_filter item.2)
  have hbody : (listBody value).length ≤ value.length - 2 := by
    refine (length_strip _).trans ?_
    rw [List.length_dropLast, List.length_drop]
    omega
  have hvalue : value.length ≤ text.length := length_strip text
  have hpos : 0 < value.length := List.length_pos_of_ne_nil (by rintro hnil; simp [hnil] at _h)
  omega

/-! ## The tree -/

/-- One step into an object. -/
inductive Place where
  | key (k : String)
  | index (i : Nat)
  deriving DecidableEq

namespace PyVal

/-- The object some steps lead to. -/
def at? : List Place → PyVal → Option PyVal
  | [], value => some value
  | .key k :: way, .dict entries => (entries.lookup k).bind (at? way)
  | .index i :: way, .list values => values[i]?.bind (at? way)
  | _ :: _, _ => Option.none

/-- The tree with the object at the end of some steps changed in place. -/
def modifyAt (f : PyVal → PyVal) : List Place → PyVal → PyVal
  | [], value => f value
  | .key k :: way, .dict entries =>
      .dict (entries.map fun e => if e.1 = k then (e.1, modifyAt f way e.2) else e)
  | .index i :: way, .list values => .list (values.modify i (modifyAt f way))
  | _ :: _, value => value

/-- `parent.append(item)` -/
def append (item : PyVal) : PyVal → PyVal
  | list values => list (values ++ [item])
  | value => value

/-- `parent[key] = value` -/
def assign (key : String) (item : PyVal) : PyVal → PyVal
  | dict entries => dict (OrderedDict.setItem entries key item)
  | value => value

theorem at?_append (way way' : List Place) (value : PyVal) :
    value.at? (way ++ way') = (value.at? way).bind (at? way') := by
  induction way generalizing value with
  | nil => rfl
  | cons p way ih =>
      cases p with
      | key k =>
          cases value with
          | dict entries =>
              rw [List.cons_append, at?, at?, Option.bind_assoc]
              exact congrArg _ (funext ih)
          | _ => rfl
      | index i =>
          cases value with
          | list values =>
              rw [List.cons_append, at?, at?, Option.bind_assoc]
              exact congrArg _ (funext ih)
          | _ => rfl

theorem lookup_update (k k' : String) (f : PyVal → PyVal) (entries : Dict) :
    (entries.map fun e => if e.1 = k then (e.1, f e.2) else e).lookup k'
      = if k' = k then (entries.lookup k').map f else entries.lookup k' := by
  induction entries with
  | nil => simp
  | cons e entries ih =>
      rw [List.map_cons]
      by_cases hk' : k' = e.1
      · subst hk'
        rw [OrderedDict.lookup_cons_eq]
        split_ifs with hk
        · exact OrderedDict.lookup_cons_eq (e.1, f e.2) _
        · exact OrderedDict.lookup_cons_eq e _
      · have hsame : (if e.1 = k then (e.1, f e.2) else e).1 = e.1 := by split_ifs <;> rfl
        rw [OrderedDict.lookup_cons_ne (by rwa [hsame]), ih, OrderedDict.lookup_cons_ne hk']

/-- An object that was changed. -/
theorem at?_modifyAt {way : List Place} {root value : PyVal} (h : root.at? way = some value)
    (f : PyVal → PyVal) : (root.modifyAt f way).at? way = some (f value) := by
  induction way generalizing root with
  | nil => exact congrArg (some <| f ·) (Option.some.inj h)
  | cons p way ih =>
      cases p with
      | key k =>
          cases root with
          | dict entries =>
              obtain ⟨v, hv, hway⟩ := Option.bind_eq_some_iff.mp h
              rw [modifyAt, at?, lookup_update, if_pos rfl, hv]
              exact ih hway
          | _ => cases h
      | index i =>
          cases root with
          | list values =>
              obtain ⟨v, hv, hway⟩ := Option.bind_eq_some_iff.mp h
              rw [modifyAt, at?, List.getElem?_modify_eq, hv]
              exact ih hway
          | _ => cases h

/-- **A change elsewhere** leaves a place alone: the way to what is changed
does not go through it, and where it goes on behind that way, the change
leaves the rest. -/
theorem at?_modifyAt_elsewhere {f : PyVal → PyVal} {way place : List Place} {root : PyVal}
    (hway : ¬place <+: way)
    (hf : ∀ rest value, place = way ++ rest → root.at? way = some value →
      (f value).at? rest = value.at? rest) :
    (root.modifyAt f way).at? place = root.at? place := by
  induction way generalizing root place with
  | nil => exact hf place root rfl rfl
  | cons w way ih =>
      cases place with
      | nil => exact absurd List.nil_prefix hway
      | cons p place =>
          -- below the same first step of both ways it is the induction hypothesis
          have hstep : ∀ {value : PyVal}, w = p →
              (∀ value', value.at? way = some value' → root.at? (w :: way) = some value') →
              (value.modifyAt f way).at? place = value.at? place := by
            intro value hwp hroot
            refine ih (fun hprefix => hway (hwp ▸ (List.prefix_cons_inj w).mpr hprefix)) ?_
            intro rest value' hplace hvalue
            exact hf rest value' (by rw [hwp, hplace]; rfl) (hroot value' hvalue)
          cases w with
          | key k =>
              cases root with
              | dict entries =>
                  cases p with
                  | index i => rfl
                  | key k' =>
                      rw [modifyAt, at?, at?, lookup_update]
                      split_ifs with hk
                      · cases hv : entries.lookup k' with
                        | none => rfl
                        | some v =>
                            refine hstep (by rw [hk]) fun value' hvalue => ?_
                            rw [at?, ← hk, hv]
                            exact hvalue
                      · rfl
              | _ => rfl
          | index i =>
              cases root with
              | list values =>
                  cases p with
                  | key k => rfl
                  | index i' =>
                      rw [modifyAt, at?, at?]
                      by_cases hi : i = i'
                      · subst hi
                        rw [List.getElem?_modify_eq]
                        cases hv : values[i]? with
                        | none => rfl
                        | some v =>
                            refine hstep rfl fun value' hvalue => ?_
                            rw [at?, hv]
                            exact hvalue
                      · rw [List.getElem?_modify_ne _ _ hi]
              | _ => rfl

/-- Two places neither of which is inside the other. -/
def Apart (place place' : List Place) : Prop := ¬place <+: place' ∧ ¬place' <+: place

instance (place place' : List Place) : Decidable (Apart place place') :=
  inferInstanceAs (Decidable (_ ∧ _))

theorem not_prefix_way {place way : List Place} {p : Place} (h : Apart place (way ++ [p])) :
    ¬place <+: way := fun hplace => h.1 (hplace.trans (List.prefix_append _ _))

/-- An item behind the others of a list. -/
theorem at?_append_apart {place way : List Place} {root : PyVal} {values : List PyVal}
    (hlist : root.at? way = some (.list values)) (h : Apart place (way ++ [.index values.length]))
    (item : PyVal) : (root.modifyAt (append item) way).at? place = root.at? place := by
  refine at?_modifyAt_elsewhere (not_prefix_way h) fun rest value hplace hvalue => ?_
  rw [hlist] at hvalue
  cases hvalue
  cases rest with
  | nil => exact absurd (by rw [hplace, List.append_nil]) (not_prefix_way h)
  | cons p rest =>
      cases p with
      | key k => rfl
      | index i =>
          have hi : i ≠ values.length := by
            rintro rfl
            exact h.2 (by rw [hplace]; simp)
          rw [append, at?, at?]
          rcases Nat.lt_or_gt_of_ne hi with hlt | hgt
          · rw [List.getElem?_append_left hlt]
          · rw [List.getElem?_eq_none (by simpa using hgt), List.getElem?_eq_none hgt.le]

/-- An object of the tree is apart from an item that is yet to come, unless
the list is in it. -/
theorem apart_of_exists {place way : List Place} {root value : PyVal} {values : List PyVal}
    (hlist : root.at? way = some (.list values)) (h : root.at? place = some value)
    (hway : ¬place <+: way) : Apart place (way ++ [.index values.length]) := by
  have hnone : ∀ rest, root.at? (way ++ [.index values.length] ++ rest) = Option.none := by
    intro rest
    rw [List.append_assoc, at?_append, hlist]
    show (values[values.length]?).bind (at? rest) = _
    rw [List.getElem?_eq_none le_rfl]
    rfl
  constructor
  · intro hprefix
    rcases List.prefix_concat_iff.mp hprefix with rfl | hprefix
    · have := hnone []
      rw [List.append_nil, h] at this
      cases this
    · exact hway hprefix
  · rintro ⟨rest, rfl⟩
    rw [hnone] at h
    cases h

/-- The value of another key. -/
theorem at?_assign_apart {place way : List Place} {key : String}
    (h : Apart place (way ++ [.key key])) (root item : PyVal) :
    (root.modifyAt (assign key item) way).at? place = root.at? place := by
  refine at?_modifyAt_elsewhere (not_prefix_way h) fun rest value hplace _ => ?_
  cases rest with
  | nil => exact absurd (by rw [hplace, List.append_nil]) (not_prefix_way h)
  | cons p rest =>
      cases value with
      | dict entries =>
          cases p with
          | index i => rfl
          | key k =>
              have hk : k ≠ key := by
                rintro rfl
                exact h.2 (by rw [hplace]; simp)
              rw [assign, at?, at?, OrderedDict.lookup_setItem_ne hk]
      | _ => rfl

end PyVal

/-! ## The lines -/

/-- `LIST_KEYS` -/
def listKeys : List String :=
  ["backend_refs", "conditions", "decisions", "keywords", "listeners", "modelCards", "models",
    "modelRefs", "routes"]

/-- The loader between two lines: the tree, and the open objects above the
root with the indentation they were opened at, the innermost first. -/
structure Loader where
  root : PyVal
  stack : List (Nat × List Place)

namespace Loader

/-- `root = {}`, `stack = [(-1, root)]` -/
def initial : Loader := ⟨.dict [], []⟩

/-- The stack after `while stack and indent <= stack[-1][0]: stack.pop()`. -/
def opened (l : Loader) (indent : Nat) : List (Nat × List Place) :=
  l.stack.dropWhile fun e => indent ≤ e.1

/-- The way to `stack[-1][1]`, for the stack above the root. -/
def top (stack : List (Nat × List Place)) : List Place :=
  match stack with
  | [] => []
  | e :: _ => e.2

/-- The way to the parent of a line. -/
def parent (l : Loader) (indent : Nat) : List Place := top (l.opened indent)

end Loader

/-- A policy file's path. -/
structure PolicyPath where
  text : String
  suffix : String

section Lines
variable (u : Unicode) (path : PolicyPath)

/-- The error about a line. -/
def lineError (text : String) (raw : List Char) : PyError :=
  .valueError (text ++ path.text ++ ":" ++ pyRepr u (String.ofList raw))

/-- A list item: `stripped` begins with `- `. -/
def readItem (l : Loader) (raw stripped : List Char) (indent : Nat) : Except PyError Loader :=
  let way := l.parent indent
  match l.root.at? way with
  | some (.list values) =>
      let item := stripped.drop 2
      if ':' ∉ item then do
        let value ← parseScalar u item
        .ok ⟨l.root.modifyAt (PyVal.append value) way, l.opened indent⟩
      else do
        -- an item with a colon opens a mapping of its own, quoted or not
        let value ← parseScalar u ((item.dropWhile (· ≠ ':')).drop 1)
        let key := String.ofList (item.takeWhile (· ≠ ':'))
        .ok ⟨l.root.modifyAt (PyVal.append (.dict [(key, value)])) way,
          (indent, way ++ [.index values.length]) :: l.opened indent⟩
  | _ => .error (lineError u path "list item without list parent: " raw)

/-- A mapping entry: `stripped` has a colon. -/
def readEntry (l : Loader) (raw stripped : List Char) (indent : Nat) : Except PyError Loader :=
  let way := l.parent indent
  let key := String.ofList (stripped.takeWhile (· ≠ ':'))
  let value := Unicode.strip ((stripped.dropWhile (· ≠ ':')).drop 1)
  match l.root.at? way with
  | some (.dict _) =>
      if value ≠ [] then do
        let value ← parseScalar u value
        .ok ⟨l.root.modifyAt (PyVal.assign key value) way, l.opened indent⟩
      else
        let empty := if key ∈ listKeys then .list [] else .dict []
        .ok ⟨l.root.modifyAt (PyVal.assign key empty) way,
          (indent, way ++ [.key key]) :: l.opened indent⟩
  | _ => .error (lineError u path "mapping value without mapping parent: " raw)

/-- One line of the file. -/
def readLine (l : Loader) (raw : List Char) : Except PyError Loader :=
  let line := rstrip (raw.takeWhile (· ≠ '#'))
  -- the comment was cut off inside quotes as well
  let stripped := Unicode.strip line
  let indent := (line.takeWhile (· = ' ')).length
  if stripped = [] then .ok l
  else if "- ".toList <+: stripped then readItem u path l raw stripped indent
  else if ':' ∈ stripped then readEntry u path l raw stripped indent
  else .error (lineError u path "cannot parse " raw)

/-- The lines of a text, from some state of the loader. -/
def readLines (l : Loader) (text : List Char) : Except PyError Loader :=
  (fileLines (universalNewlines text)).foldlM (readLine u path) l

/-- Lines are read one after another. -/
theorem readLines_behind (text rest : List Char) (l : Loader) :
    readLines u path l (text ++ '\n' :: rest)
      = readLines u path l (text ++ ['\n']) >>= fun l' => readLines u path l' rest := by
  obtain ⟨text', htext⟩ := universalNewlines_behind text
  obtain ⟨line, lines, hlines⟩ := fileLines_behind text'
  have hnil := hlines []
  rw [fileLines, List.append_nil] at hnil
  rw [readLines, readLines, htext rest, htext [], universalNewlines, hlines, hnil,
    List.foldlM_append]
  rfl

theorem readLines_line {line : List Char} (h : '\n' ∉ line) (hr : '\r' ∉ line)
    (rest : List Char) (l : Loader) :
    readLines u path l (line ++ '\n' :: rest)
      = readLine u path l (line ++ ['\n']) >>= fun l' => readLines u path l' rest := by
  have hplain : universalNewlines (line ++ ['\n']) = line ++ ['\n'] :=
    universalNewlines_plain (by simp [hr])
  rw [readLines_behind, readLines, hplain, fileLines_line h, fileLines, List.foldlM_cons]
  simp

/-- What a line does to the open objects: it closes some and may open one
below the innermost left. -/
theorem readLine_stack {l l' : Loader} {raw : List Char} (h : readLine u path l raw = .ok l') :
    l'.stack = l.stack ∨ ∃ n, l'.stack = l.opened n ∨
      ∃ p, l'.stack = (n, l.parent n ++ [p]) :: l.opened n := by
  simp only [readLine] at h
  split_ifs at h with hblank hitem hentry
  · cases h
    exact .inl rfl
  · simp only [readItem] at h
    split at h
    case h_1 values hvalues =>
        split_ifs at h with hcolon
        · obtain ⟨v, -, hl'⟩ := bind_ok h
          cases hl'
          exact .inr ⟨_, .inr ⟨_, rfl⟩⟩
        · obtain ⟨v, -, hl'⟩ := bind_ok h
          cases hl'
          exact .inr ⟨_, .inl rfl⟩
    case h_2 => cases h
  · simp only [readEntry] at h
    split at h
    case h_1 entries hentries =>
        split_ifs at h with hvalue hkey
        · obtain ⟨v, -, hl'⟩ := bind_ok h
          cases hl'
          exact .inr ⟨_, .inl rfl⟩
        · cases h
          exact .inr ⟨_, .inr ⟨_, rfl⟩⟩
        · cases h
          exact .inr ⟨_, .inr ⟨_, rfl⟩⟩
    case h_2 => cases h

/-- Each open object is at least as deep in the tree as those below it. -/
def Layered (stack : List (Nat × List Place)) : Prop :=
  stack.Pairwise fun inner outer => outer.2.length ≤ inner.2.length

theorem Layered.opened {l : Loader} (h : Layered l.stack) (n : Nat) : Layered (l.opened n) :=
  h.sublist (List.dropWhile_sublist _)

theorem Layered.length_le {stack : List (Nat × List Place)} (h : Layered stack) :
    ∀ e ∈ stack, e.2.length ≤ (Loader.top stack).length := by
  cases stack with
  | nil => simp
  | cons e stack =>
      intro e' he'
      rcases List.mem_cons.mp he' with rfl | he'
      · exact le_rfl
      · exact (List.pairwise_cons.mp h).1 e' he'

theorem layered_line {l l' : Loader} (hl : Layered l.stack) {raw : List Char}
    (h : readLine u path l raw = .ok l') : Layered l'.stack := by
  rcases readLine_stack u path h with hs | ⟨n, hs | ⟨p, hs⟩⟩
  · rwa [hs]
  · rw [hs]
    exact hl.opened n
  · rw [hs]
    refine List.pairwise_cons.mpr ⟨fun e he => ?_, hl.opened n⟩
    refine ((hl.opened n).length_le e he).trans ?_
    rw [Loader.parent, List.length_append]
    exact Nat.le_add_right _ _

/-- The open objects of a file read so far. -/
theorem layered_lines {l : Loader} {text : List Char}
    (h : readLines u path .initial text = .ok l) : Layered l.stack :=
  foldlM_invariant (P := fun l : Loader => Layered l.stack) h List.Pairwise.nil
    fun _ ht _ _ _ hline => layered_line u path ht hline

/-- `load_policy`, with `json.load` for the files it reads. -/
def loadPolicy (jsonLoad : List Char → Except PyError PyVal) (text : List Char) :
    Except PyError PyVal :=
  if path.suffix = ".json" then jsonLoad text
  else do
    let l ← readLines u path .initial text
    .ok l.root

end Lines

end Xsr.Policy
