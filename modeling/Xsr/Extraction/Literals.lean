import Xsr.Extraction.Scanner
import Xsr.Lib.JsonString
import Mathlib

/-!
# Literals — the content scanner over string literals

Inside the content string the scanner decodes item by item; outside of it a
literal moves the search for the key. Where a literal ends decides which of
the two positions the search is left in, one that a colon completes or not.
-/

namespace Xsr.Extraction

open Kernel Lib Json

/-! ## Inside the string -/

/-- What a `\u` escape does inside the string: the high surrogate that waits
after it, and the bytes scored. -/
def surrogateStep (high n : Nat) : Nat × List UInt8 :=
  let r := unicodeEscape (inside high) n
  (r.1.unicodeHighSurrogate, r.2)

/-- What one item does inside the string. -/
def itemStep (high : Nat) : Item → Nat × List UInt8
  | .raw c _ => (high, String.utf8EncodeChar c)
  | .escape e => (high, [asciiByte e.value])
  | .unicode a b c d => surrogateStep high (Item.unicode a b c d).point

/-- What the items of a literal do inside the string. -/
def itemsStep (high : Nat) : List Item → Nat × List UInt8
  | [] => (high, [])
  | i :: is =>
      let r := itemStep high i
      let t := itemsStep r.1 is
      (t.1, r.2 ++ t.2)

/-- The bytes scored for a literal that is the content. -/
def literalBytes (items : List Item) : List UInt8 := (itemsStep 0 items).2

/-- The scanner `remaining` digits before the end of a `\u` escape. -/
def hexing (high remaining value : Nat) : ContentScan :=
  { inside high with unicodeRemaining := remaining, unicodeValue := value }

/-- Bytes that are neither a quote nor a backslash score themselves. -/
theorem inside_plain {bs : List UInt8} (h : ∀ b ∈ bs, b ≠ quote ∧ b ≠ backslash) (high : Nat) :
    contentRun (inside high) bs = ⟨inside high, bs, false⟩ := by
  induction bs with
  | nil => rfl
  | cons b bs ih =>
      obtain ⟨hquote, hback⟩ := h b (by simp)
      have hb : contentByte (inside high) b = ⟨inside high, [b], false⟩ := by
        simp only [contentByte, inside, ContentScan.initial, if_true, ne_eq, not_true_eq_false,
          Bool.false_eq_true, if_false, hback, hquote]
      rw [contentRun_go (by rw [hb]), hb, ih fun b' hb' => h b' (by simp [hb'])]
      rfl

theorem inside_raw {c : Char} (h : unescaped c = true) (high : Nat) :
    Passes (inside high) [c] (inside high) (String.utf8EncodeChar c) := by
  simp only [unescaped, Bool.and_eq_true, decide_eq_true_eq] at h
  rw [Passes, encodeUtf8, List.flatMap_singleton]
  refine inside_plain (fun b hb => ?_) high
  by_cases hc : c.toNat < 128
  · rw [utf8EncodeChar_ascii hc, List.mem_singleton] at hb
    subst hb
    have hne : ∀ {d : Char}, d.toNat < 128 → c ≠ d → asciiByte c ≠ asciiByte d := fun hd h heq =>
      h ((asciiByte_inj hc hd).mp heq)
    exact ⟨hne (d := '"') (by decide) h.1.2, hne (d := '\\') (by decide) h.2⟩
  · have hhigh := (utf8EncodeChar_other hc).2 b hb
    constructor
    · rintro rfl
      exact absurd hhigh (by decide)
    · rintro rfl
      exact absurd hhigh (by decide)

theorem inside_escape (e : Escape) (high : Nat) :
    Passes (inside high) ['\\', e.char] (inside high) [asciiByte e.value] := by
  cases e <;> rfl

theorem hexDigit_value : ∀ (value : Fin 16) (upper : Bool),
    (HexDigit.mk value upper).char.toNat < 128 ∧
      contentHexValue (asciiByte (HexDigit.mk value upper).char) = some value.val := by
  decide

theorem hex_value {value : Nat} (hv : value < 4096) {d : HexDigit} :
    u16 ((value <<< 4) ||| d.value.val) = value * 16 + d.value.val := by
  have hd := d.value.isLt
  rw [← Nat.shiftLeft_add_eq_or_of_lt (show d.value.val < 2 ^ 4 from hd), Nat.shiftLeft_eq, u16,
    Nat.mod_eq_of_lt (by omega)]

/-- A digit before the last. -/
theorem hexing_digit {high remaining value : Nat} (hv : value < 4096) (d : HexDigit) :
    Passes (hexing high (remaining + 2) value) [d.char]
      (hexing high (remaining + 1) (value * 16 + d.value.val)) [] := by
  obtain ⟨hlt, hhex⟩ := hexDigit_value d.value d.upper
  refine passes_ascii hlt (r := ⟨hexing high (remaining + 1) (value * 16 + d.value.val), [], false⟩)
    ?_ rfl
  simp only [contentByte, hexing, inside, ContentScan.initial, if_true, unicodeByte, hhex,
    hex_value hv]
  rfl

section Surrogates
variable {flow : ContentScan} {n : Nat}

theorem unicodeEscape_high (h : IsHigh n) :
    unicodeEscape flow n =
      ({ flow with unicodeHighSurrogate := n, unicodeValue := 0 },
        if flow.unicodeHighSurrogate ≠ 0 then [blank] else []) := by
  have hhigh : 0xd800 ≤ n ∧ n ≤ 0xdbff := h
  simp only [unicodeEscape, if_pos hhigh]

theorem unicodeEscape_low (h : IsLow n) (hhigh : flow.unicodeHighSurrogate ≠ 0) :
    unicodeEscape flow n =
      ({ flow with unicodeHighSurrogate := 0, unicodeValue := 0 },
        scoreCodepoint (u32 (0x10000 + (subU32 flow.unicodeHighSurrogate 0xd800 <<< 10)
          + (n - 0xdc00)))) := by
  have hne : ¬ (0xd800 ≤ n ∧ n ≤ 0xdbff) := by
    obtain ⟨hle, -⟩ := h
    omega
  have hlow : 0xdc00 ≤ n ∧ n ≤ 0xdfff ∧ flow.unicodeHighSurrogate ≠ 0 := ⟨h.1, h.2, hhigh⟩
  simp only [unicodeEscape, if_neg hne, if_pos hlow]

theorem unicodeEscape_other (h : ¬ IsHigh n) (hlow : ¬ (IsLow n ∧ flow.unicodeHighSurrogate ≠ 0)) :
    unicodeEscape flow n =
      ({ flow with unicodeHighSurrogate := 0, unicodeValue := 0 },
        (if flow.unicodeHighSurrogate ≠ 0 then [blank] else [])
          ++ if IsLow n then [blank] else scoreCodepoint n) := by
  have hne : ¬ (0xdc00 ≤ n ∧ n ≤ 0xdfff ∧ flow.unicodeHighSurrogate ≠ 0) := fun hand =>
    hlow ⟨⟨hand.1, hand.2.1⟩, hand.2.2⟩
  simp only [unicodeEscape, if_neg (show ¬ (0xd800 ≤ n ∧ n ≤ 0xdbff) from h), if_neg hne]
  rfl

theorem unicodeEscape_inside (high n : Nat) :
    unicodeEscape { inside high with unicodeValue := n } n =
      (inside (surrogateStep high n).1, (surrogateStep high n).2) := by
  rw [surrogateStep]
  by_cases hhigh : IsHigh n
  · rw [unicodeEscape_high hhigh, unicodeEscape_high hhigh]
    rfl
  · by_cases hlow : IsLow n ∧ high ≠ 0
    · rw [unicodeEscape_low hlow.1 hlow.2, unicodeEscape_low hlow.1 hlow.2]
      simp only [inside, ContentScan.initial]
    · rw [unicodeEscape_other hhigh hlow, unicodeEscape_other hhigh hlow]
      rfl

end Surrogates

/-- The last digit. -/
theorem hexing_last {high value : Nat} (hv : value < 4096) (d : HexDigit) :
    Passes (hexing high 1 value) [d.char] (inside (surrogateStep high (value * 16 + d.value.val)).1)
      (surrogateStep high (value * 16 + d.value.val)).2 := by
  obtain ⟨hlt, hhex⟩ := hexDigit_value d.value d.upper
  have hstep : contentByte (hexing high 1 value) (asciiByte d.char) =
      ⟨inside (surrogateStep high (value * 16 + d.value.val)).1,
        (surrogateStep high (value * 16 + d.value.val)).2, false⟩ := by
    have hescape := unicodeEscape_inside high (value * 16 + d.value.val)
    simp only [inside, ContentScan.initial] at hescape
    simp only [contentByte, hexing, inside, ContentScan.initial, if_true, unicodeByte, hhex,
      hex_value hv, Nat.sub_self, ne_eq, not_true_eq_false, Nat.one_ne_zero, not_false_eq_true,
      if_false, hescape]
  exact passes_ascii hlt hstep rfl

theorem inside_unicode (a b c d : HexDigit) (high : Nat) :
    Passes (inside high) (Item.unicode a b c d).chars
      (inside (surrogateStep high (Item.unicode a b c d).point).1)
      (surrogateStep high (Item.unicode a b c d).point).2 := by
  have ha := a.value.isLt
  have hb := b.value.isLt
  have hc := c.value.isLt
  have hopen : Passes (inside high) ['\\', 'u'] (hexing high 4 0) [] := rfl
  have h1 := @hexing_digit high 2 0 (by omega) a
  have h2 := @hexing_digit high 1 (0 * 16 + a.value.val) (by omega) b
  have h3 := @hexing_digit high 0 ((0 * 16 + a.value.val) * 16 + b.value.val) (by omega) c
  have h4 := @hexing_last high
    (((0 * 16 + a.value.val) * 16 + b.value.val) * 16 + c.value.val) (by omega) d
  have hall := hopen.silent (h1.silent (h2.silent (h3.silent h4)))
  rw [Nat.zero_mul, Nat.zero_add] at hall
  exact hall

/-- **One item inside the string.** -/
theorem inside_item (i : Item) (high : Nat) :
    Passes (inside high) i.chars (inside (itemStep high i).1) (itemStep high i).2 := by
  cases i with
  | raw c h => exact inside_raw h high
  | escape e => exact inside_escape e high
  | unicode a b c d => exact inside_unicode a b c d high

theorem inside_items (items : List Item) (high : Nat) :
    Passes (inside high) (items.flatMap Item.chars) (inside (itemsStep high items).1)
      (itemsStep high items).2 := by
  induction items generalizing high with
  | nil => exact .nil _
  | cons i items ih => exact (inside_item i high).append (ih _)

/-- **The content string**: its items are scored and its quote stops the
scan. -/
theorem inside_literal (items : List Item) (rest : List Char) :
    Stops (inside 0) (items.flatMap Item.chars ++ '"' :: rest) (literalBytes items) := by
  have hquote : Stops (inside (itemsStep 0 items).1) ('"' :: rest) [] := ⟨rfl, rfl⟩
  have := (inside_items items 0).stops hquote
  rwa [List.append_nil] at this

/-! ## What the string says -/

theorem itemStep_scalar {i : Item} {c : Char} (h : scalar i.point = some c) :
    itemStep 0 i = (0, String.utf8EncodeChar c) := by
  have hc := scalar_eq_some_iff.mp h
  cases i with
  | raw d hd =>
      obtain rfl : c = d := Char.toNat_inj.mp hc
      rfl
  | escape e =>
      obtain rfl : c = e.value := Char.toNat_inj.mp hc
      have hlt : e.value.toNat < 128 := by cases e <;> decide
      rw [utf8EncodeChar_ascii hlt]
      rfl
  | unicode a b c' d =>
      have hno := not_surrogate c
      rw [itemStep, surrogateStep, ← hc, unicodeEscape_other hno.1 (fun h => hno.2 h.1),
        if_neg hno.2, scoreCodepoint_eq]
      rfl

/-- A surrogate pair scores its code point. -/
theorem itemStep_pair {i j : Item} (hi : IsHigh i.point) (hj : IsLow j.point) {c : Char}
    (h : scalar (joined i.point j.point) = some c) :
    itemStep 0 i = (i.point, []) ∧ itemStep i.point j = (0, String.utf8EncodeChar c) := by
  have hc := scalar_eq_some_iff.mp h
  obtain ⟨a, b, c', d, rfl⟩ := Item.eq_unicode (.inl hi)
  obtain ⟨a', b', c'', d', rfl⟩ := Item.eq_unicode (.inr hj)
  generalize hn : (Item.unicode a b c' d).point = high at hi hc
  have hle := hi.1
  have hge := hi.2
  have hlow := hj.1
  have hlow' := hj.2
  have hsub : subU32 high 0xd800 = high - 0xd800 := subU32_of_le hle (by omega)
  constructor
  · rw [itemStep, surrogateStep, hn, unicodeEscape_high hi]
    rfl
  · have hne : (inside high).unicodeHighSurrogate ≠ 0 := by
      show high ≠ 0
      omega
    have hjoined : 0x10000 + (high - 0xd800) * 2 ^ 10 +
        ((Item.unicode a' b' c'' d').point - 0xdc00) = c.toNat := by
      rw [hc]
      unfold joined
      omega
    rw [itemStep, surrogateStep, unicodeEscape_low hj hne,
      show (inside high).unicodeHighSurrogate = high from rfl, hsub, Nat.shiftLeft_eq,
      u32_of_lt (by omega), hjoined, scoreCodepoint_eq]

/-- **The content string is read right**: a literal that stands for a text
scores the text in UTF-8. -/
theorem itemsStep_text {items : List Item} {cs : List Char} (h : text items = some cs) :
    itemsStep 0 items = (0, encodeUtf8 cs) := by
  have hcons : ∀ {n : Nat} {ns : List Nat} {cs : List Char}, (n :: ns).mapM scalar = some cs →
      ∃ c cs', scalar n = some c ∧ ns.mapM scalar = some cs' ∧ cs = c :: cs' := by
    intro n ns cs h
    simp only [List.mapM_cons, bind, Option.bind_eq_some_iff, pure, Option.some.injEq] at h
    obtain ⟨c, hc, cs', hcs', rfl⟩ := h
    exact ⟨c, cs', hc, hcs', rfl⟩
  unfold text at h
  induction items using points.induct generalizing cs with
  | case1 =>
      obtain rfl : [] = cs := Option.some.inj h
      rfl
  | case2 i =>
      obtain ⟨c, cs', hc, hcs', rfl⟩ := hcons h
      obtain rfl : [] = cs' := Option.some.inj hcs'
      rw [itemsStep, itemStep_scalar hc]
      rfl
  | case3 i j rest hpair ih =>
      rw [points_pair hpair.1 hpair.2] at h
      obtain ⟨c, cs', hc, hcs', rfl⟩ := hcons h
      obtain ⟨hi, hj⟩ := itemStep_pair hpair.1 hpair.2 hc
      simp only [itemsStep, hi, hj, ih hcs']
      rfl
  | case4 i j rest hpair ih =>
      rw [points, if_neg hpair] at h
      obtain ⟨c, cs', hc, hcs', rfl⟩ := hcons h
      rw [itemsStep, itemStep_scalar hc]
      simp only [ih hcs']
      rfl

theorem literalBytes_text {items : List Item} {cs : List Char} (h : text items = some cs) :
    literalBytes items = encodeUtf8 cs := by
  rw [literalBytes, itemsStep_text h]

/-! ## Outside of the string -/

/-- The position of the search after an item. -/
def itemPos (pos : Nat) : Item → Nat
  | .raw c _ => keyNext pos c
  | .escape e => if e = .quote then 1 else 0
  | .unicode _ _ _ _ => 0

/-- `content`, each character written as itself. -/
def contentItems : List Item :=
  [.raw 'c' rfl, .raw 'o' rfl, .raw 'n' rfl, .raw 't' rfl, .raw 'e' rfl, .raw 'n' rfl,
    .raw 't' rfl]

/-- The literal ends in `"content"`: its own opening quote, or an escaped
one, comes right before `content`. -/
def spellsContent (items : List Item) : Bool :=
  (Item.escape .quote :: contentItems).isSuffixOf (.escape .quote :: items)

theorem keyNext_zero {c : Char} (h : c ≠ '"') : keyNext 0 c = 0 := by
  have hne : keyText[0]? ≠ some c := fun he => h (Option.some.inj he).symm
  rw [keyNext, if_neg hne, if_neg h]

/-- A character other than a quote does not start the key. -/
theorem search_zero {c : Char} (h : c ≠ '"') : Passes (searching 0) [c] (searching 0) [] := by
  have hpass := search_char (show 0 < 9 by decide) c
  rwa [keyNext_zero h] at hpass

/-- **One item of the search.** -/
theorem search_item {pos : Nat} (hpos : pos < 9) (i : Item) :
    Passes (searching pos) i.chars (searching (itemPos pos i)) [] ∧ itemPos pos i < 9 := by
  -- a backslash is no character of the key, and the one behind it starts over
  have hback : keyNext pos '\\' = 0 := by
    revert pos
    decide
  have hopen : ∀ c, Passes (searching pos) ['\\', c] (searching (keyNext 0 c)) [] := fun c =>
    (hback ▸ search_char hpos '\\').silent (search_char (by decide) c)
  cases i with
  | raw c h =>
      simp only [unescaped, Bool.and_eq_true, decide_eq_true_eq] at h
      refine ⟨search_char hpos c, ?_⟩
      rw [itemPos, keyNext]
      split_ifs with hmatch
      · have hne : pos ≠ 8 := by
          rintro rfl
          exact h.1.2 (Option.some.inj hmatch).symm
        omega
      · exact absurd ‹c = '"'› h.1.2
      · omega
  | escape e =>
      have hend : keyNext 0 e.char = itemPos pos (.escape e) := by cases e <;> rfl
      refine ⟨hend ▸ hopen e.char, ?_⟩
      rw [itemPos]
      split_ifs <;> omega
  | unicode a b c d =>
      have hdigit : ∀ d : HexDigit, Passes (searching 0) [d.char] (searching 0) [] := by
        intro d
        have hzero : keyNext 0 d.char = 0 := by
          obtain ⟨value, upper⟩ := d
          revert value upper
          decide
        have hpass := search_char (show 0 < 9 by decide) d.char
        rwa [hzero] at hpass
      have hu : Passes (searching pos) ['\\', 'u'] (searching 0) [] := hopen 'u'
      exact ⟨hu.silent ((hdigit a).silent ((hdigit b).silent ((hdigit c).silent (hdigit d)))),
        by simp only [itemPos]; omega⟩

theorem search_items (items : List Item) {pos : Nat} (hpos : pos < 9) :
    Passes (searching pos) (items.flatMap Item.chars) (searching (items.foldl itemPos pos)) [] ∧
      items.foldl itemPos pos < 9 := by
  induction items generalizing pos with
  | nil => exact ⟨.nil _, hpos⟩
  | cons i items ih =>
      obtain ⟨hpass, hlt⟩ := search_item hpos i
      obtain ⟨hrest, hend⟩ := ih hlt
      exact ⟨hpass.silent hrest, hend⟩

theorem keyNext_eq_succ {pos k : Nat} {c : Char} (hc : unescaped c = true) :
    keyNext pos c = k + 1 ↔ pos = k ∧ keyText[k]? = some c := by
  simp only [unescaped, Bool.and_eq_true, decide_eq_true_eq] at hc
  rw [keyNext, if_neg hc.1.2]
  split_ifs with hmatch
  · constructor
    · intro h
      obtain rfl : pos = k := by omega
      exact ⟨rfl, hmatch⟩
    · rintro ⟨rfl, -⟩
      rfl
  · constructor
    · intro h
      exact h.elim
    · rintro ⟨rfl, h⟩
      exact absurd h hmatch

theorem contentItems_take : ∀ k < 7, ∃ c h,
    contentItems.take (k + 1) = contentItems.take k ++ [.raw c h] ∧ keyText[k + 1]? = some c := by
  intro k hk
  match k with
  | 0 | 1 | 2 | 3 | 4 | 5 | 6 => exact ⟨_, _, rfl, rfl⟩

/-- Where the search stands inside a literal. -/
theorem foldl_itemPos (items : List Item) {k : Nat} (hk : k ≤ 7) :
    items.foldl itemPos 1 = k + 1 ↔
      (Item.escape .quote :: contentItems.take k) <:+ (.escape .quote :: items) := by
  -- a list ends in another one item by item
  have hsnoc : ∀ {l l' : List Item} {i j : Item}, l ++ [i] <:+ l' ++ [j] ↔ i = j ∧ l <:+ l' := by
    intro l l' i j
    rw [List.suffix_concat_iff]
    constructor
    · rintro (h | ⟨t, h, ht⟩)
      · simp at h
      · obtain ⟨rfl, hij⟩ := List.append_inj' h rfl
        exact ⟨List.singleton_inj.mp hij, ht⟩
    · rintro ⟨rfl, h⟩
      exact .inr ⟨l, rfl, h⟩
  induction items using List.reverseRecOn generalizing k with
  | nil =>
      cases k with
      | zero => simp
      | succ k =>
          obtain ⟨c, h, htake, -⟩ := contentItems_take k (by omega)
          rw [htake, ← List.cons_append, ← List.nil_append [Item.escape .quote], hsnoc]
          simp
  | append_singleton items i ih =>
      rw [List.foldl_append, List.foldl_cons, List.foldl_nil, ← List.cons_append]
      cases k with
      | zero =>
          rw [List.take_zero, ← List.nil_append [Item.escape .quote], hsnoc]
          cases i with
          | raw c h =>
              have hne : keyText[0]? ≠ some c := by
                intro he
                obtain rfl : '"' = c := Option.some.inj he
                exact absurd h (by decide)
              rw [itemPos, keyNext_eq_succ h]
              simp [hne]
          | escape e => cases e <;> simp [itemPos]
          | unicode a b c d => simp [itemPos]
      | succ k =>
          obtain ⟨c, h, htake, hkey⟩ := contentItems_take k (by omega)
          have hitems := ih (show k ≤ 7 by omega)
          rw [htake, ← List.cons_append, hsnoc, ← (show _ ↔ _ from hitems)]
          cases i with
          | raw c' h' =>
              rw [itemPos, keyNext_eq_succ h', hkey, Item.raw.injEq, Option.some.injEq, and_comm]
          | escape e =>
              have hne : itemPos (items.foldl itemPos 1) (.escape e) ≠ k + 1 + 1 := by
                rw [itemPos]
                split_ifs <;> omega
              simp [hne]
          | unicode a b c d => simp [itemPos]

/-- **A literal outside of the string** leaves the search at nine characters
when it spells `content`, at one otherwise. -/
theorem search_literal (items : List Item) :
    Passes (searching 0) (literal items) (searching (if spellsContent items then 9 else 1)) [] := by
  obtain ⟨hpass, hlt⟩ := search_items items (show 1 < 9 by decide)
  have hopen : Passes (searching 0) ['"'] (searching 1) [] := rfl
  have hclose := search_char hlt '"'
  have hspells : spellsContent items = true ↔ items.foldl itemPos 1 = 8 := by
    rw [foldl_itemPos items (Nat.le_refl 7), spellsContent, List.isSuffixOf_iff_suffix]
    rfl
  have hend : keyNext (items.foldl itemPos 1) '"' = if spellsContent items then 9 else 1 := by
    rw [if_congr hspells rfl rfl]
    generalize items.foldl itemPos 1 = pos at hlt
    revert hlt
    revert pos
    decide
  rw [hend] at hclose
  exact hopen.silent (hpass.silent hclose)

end Xsr.Extraction
