import Xsr.Bm25.Tokenizer

/-!
# Stemmer — `stem_english`

The Porter2 stemmer of `vsr_bm25_tokenizer.py`. A word is marked, its two
regions are found, and the steps rewrite its ending one after the other;
the regions stay those of the marked word. The stemmer is not idempotent.
-/

namespace Xsr.Bm25

open Kernel Lib

/-- A word as its ASCII codes. -/
abbrev Word := List UInt8

/-- The codes of an ASCII text. -/
def ascii (s : String) : Word := s.toList.map fun c => UInt8.ofNat c.toNat

/-! ## Letters and endings -/

/-- `_VOWELS` -/
def vowel (c : UInt8) : Bool := (ascii "aeiouy").contains c

/-- `_VALID_LI` -/
def validLi (c : UInt8) : Bool := (ascii "cdeghkmnrt").contains c

/-- `_DOUBLES` -/
def doubles : List String := ["bb", "dd", "ff", "gg", "mm", "nn", "pp", "rr", "tt"]

/-- `word.endswith(suffix)` -/
def endsWith (word : Word) (suffix : String) : Bool := (ascii suffix).isSuffixOf word

/-- `word.endswith(suffixes)` -/
def endsWithAny (word : Word) (suffixes : List String) : Bool := suffixes.any (endsWith word)

/-- `word.startswith(start)` -/
def startsWith (word : Word) (start : String) : Bool := (ascii start).isPrefixOf word

/-- `word[: -n]` -/
def dropLast (word : Word) (n : Nat) : Word := word.take (word.length - n)

/-- `word[-n]`, if the word is that long. -/
def fromEnd (word : Word) (n : Nat) : Option UInt8 := word.reverse[n - 1]?

/-- `word[: -len(suffix)] + replacement` -/
def replaceEnd (word : Word) (suffix replacement : String) : Word :=
  dropLast word suffix.length ++ ascii replacement

/-- `_has_vowel` -/
def hasVowel (word : Word) : Bool := word.any vowel

/-- `_EXCEPTIONS` -/
def exceptions : List (String × String) :=
  [("skis", "ski"), ("skies", "sky"), ("dying", "die"), ("lying", "lie"), ("tying", "tie"),
    ("idly", "idl"), ("gently", "gentl"), ("ugly", "ugli"), ("early", "earli"),
    ("only", "onli"), ("singly", "singl"), ("sky", "sky"), ("news", "news"), ("howe", "howe"),
    ("atlas", "atlas"), ("cosmos", "cosmos"), ("bias", "bias"), ("andes", "andes")]

/-- `_POST_1A_EXCEPTIONS` -/
def post1aExceptions : List String :=
  ["inning", "outing", "canning", "herring", "earring", "proceed", "exceed", "succeed"]

/-! ## Regions -/

/-- `'y'` -/
def lowerY : UInt8 := 121
/-- `'Y'` -/
def upperY : UInt8 := 89

/-- Mark the consonantal `y`s of a word behind the letter `previous`. -/
def markY (previous : Option UInt8) : Word → Word
  | [] => []
  | c :: cs =>
      let c := if c = lowerY ∧ previous.elim true vowel then upperY else c
      c :: markY (some c) cs

/-- The end of the first consonant behind a vowel, from index `start` on. -/
def regionFrom (word : Word) (start : Nat) : Nat :=
  match (List.range' start (word.length - start)).find? fun i =>
      (word[i - 1]?).elim false vowel && !(word[i]?).elim false vowel with
  | some i => i + 1
  | none => word.length

/-- `r1` and `r2`. -/
structure Regions where
  r1 : Nat
  r2 : Nat

/-- `_regions` -/
def regions (word : Word) : Regions :=
  let r1 :=
    if startsWith word "gener" || startsWith word "arsen" then 5
    else if startsWith word "commun" then 6
    else regionFrom word 1
  ⟨r1, regionFrom word (r1 + 1)⟩

/-- `_short_syllable` -/
def shortSyllable (word : Word) : Bool :=
  match word.reverse with
  | [c, v] => vowel v && !vowel c
  | c :: v :: b :: _ =>
      !vowel b && vowel v && !vowel c && !(ascii "wxyY").contains c
  | _ => false

/-! ## The steps -/

/-- Step 0. -/
def step0 (word : Word) : Word :=
  match ["'s'", "'s", "'"].find? (endsWith word) with
  | some suffix => dropLast word suffix.length
  | none => word

/-- Step 1a. -/
def step1a (word : Word) : Word :=
  if endsWith word "sses" then dropLast word 2
  else if endsWithAny word ["ied", "ies"] then
    if 4 < word.length then dropLast word 2 else dropLast word 1
  else if !endsWithAny word ["us", "ss"] && endsWith word "s" then
    if (dropLast word 2).any vowel then dropLast word 1 else word
  else word

/-- What step 1b does behind a removed ending. -/
def mend (r : Regions) (word : Word) : Word :=
  if endsWithAny word ["at", "bl", "iz"] then word ++ ascii "e"
  else if endsWithAny word doubles then dropLast word 1
  else if word.length ≤ r.r1 ∧ shortSyllable word then word ++ ascii "e"
  else word

/-- Step 1b. -/
def step1b (r : Regions) (word : Word) : Word :=
  if endsWith word "eedly" then
    if r.r1 ≤ word.length - 5 then dropLast word 3 else word
  else if endsWith word "eed" then
    if r.r1 ≤ word.length - 3 then dropLast word 1 else word
  else
    match ["ingly", "edly", "ing", "ed"].find? fun suffix =>
        endsWith word suffix && hasVowel (dropLast word suffix.length) with
    | some suffix => mend r (dropLast word suffix.length)
    | none => word

/-- Step 1c. -/
def step1c (word : Word) : Word :=
  if 2 < word.length ∧ endsWithAny word ["y", "Y"] ∧ !(fromEnd word 2).elim false vowel then
    dropLast word 1 ++ ascii "i"
  else word

/-- `step2` -/
def step2Endings : List (String × String) :=
  [("ization", "ize"), ("ational", "ate"), ("fulness", "ful"), ("ousness", "ous"),
    ("iveness", "ive"), ("tional", "tion"), ("biliti", "ble"), ("lessli", "less"),
    ("entli", "ent"), ("ation", "ate"), ("alism", "al"), ("aliti", "al"), ("ousli", "ous"),
    ("iviti", "ive"), ("fulli", "ful"), ("enci", "ence"), ("anci", "ance"), ("abli", "able"),
    ("izer", "ize"), ("ator", "ate"), ("alli", "al"), ("bli", "ble")]

/-- Step 2. -/
def step2 (r : Regions) (word : Word) : Word :=
  match step2Endings.find? fun e => endsWith word e.1 with
  | some (suffix, replacement) =>
      if r.r1 ≤ word.length - suffix.length then replaceEnd word suffix replacement else word
  | none =>
      if endsWith word "ogi" then
        if r.r1 ≤ word.length - 3 ∧ fromEnd word 4 = some 108 then dropLast word 1 else word
      else if endsWith word "li" then
        if r.r1 ≤ word.length - 2 ∧ (fromEnd word 3).elim false validLi then dropLast word 2
        else word
      else word

/-- The endings of step 3; the flag asks for the second region. -/
def step3Endings : List (String × String × Bool) :=
  [("ational", "ate", false), ("tional", "tion", false), ("alize", "al", false),
    ("icate", "ic", false), ("iciti", "ic", false), ("ative", "", true), ("ical", "ic", false),
    ("ness", "", false), ("ful", "", false)]

/-- Step 3. -/
def step3 (r : Regions) (word : Word) : Word :=
  match step3Endings.find? fun e => endsWith word e.1 with
  | some (suffix, replacement, needsR2) =>
      if (if needsR2 then r.r2 else r.r1) ≤ word.length - suffix.length then
        replaceEnd word suffix replacement
      else word
  | none => word

/-- The endings of step 4. -/
def step4Endings : List String :=
  ["ement", "ance", "ence", "able", "ible", "ment", "ant", "ent", "ism", "ate", "iti", "ous",
    "ive", "ize", "al", "er", "ic"]

/-- Step 4. -/
def step4 (r : Regions) (word : Word) : Word :=
  match step4Endings.find? (endsWith word) with
  | some suffix =>
      if r.r2 ≤ word.length - suffix.length then dropLast word suffix.length else word
  | none =>
      if endsWithAny word ["sion", "tion"] ∧ r.r2 ≤ word.length - 3 then dropLast word 3 else word

/-- Step 5. -/
def step5 (r : Regions) (word : Word) : Word :=
  if endsWith word "e" then
    let base := dropLast word 1
    if r.r2 ≤ base.length ∨ (r.r1 ≤ base.length ∧ !shortSyllable base) then base else word
  else if endsWith word "ll" ∧ r.r2 ≤ word.length - 1 then dropLast word 1
  else word

/-- `word.replace("Y", "y")` -/
def unmarkY (word : Word) : Word := word.map fun c => if c = upperY then lowerY else c

/-- `stem_english` -/
def stemEnglish (word : Word) : Word :=
  if word.length ≤ 2 then word
  else
    let word := if startsWith word "'" then word.drop 1 else word
    match exceptions.find? fun e => ascii e.1 == word with
    | some (_, stem) => ascii stem
    | none =>
        let marked := markY none word
        let r := regions marked
        let word := step1a (step0 marked)
        if post1aExceptions.any fun e => ascii e == word then unmarkY word
        else unmarkY (step5 r (step4 r (step3 r (step2 r (step1c (step1b r word))))))

/-- The stem of a stem may be another word. -/
example : stemEnglish (ascii "functionality") = ascii "function" ∧
    stemEnglish (ascii "derivatives") = ascii "deriv" := by
  decide +kernel

end Xsr.Bm25
