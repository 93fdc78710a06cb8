import Xsr.Extraction.Literals

/-!
# Surrogates — unpaired surrogate escapes inside the content

A surrogate escape that is no half of a pair is to score one space where it
stands. `scan_content_callback` keeps a high surrogate pending until the
next `\u` escape: what is read before that escape is scored in front of the
space, a low surrogate that comes later is joined to it, and at the closing
quote it is forgotten.
-/

namespace Xsr.Extraction

open Kernel Lib Json

/-! ## What a literal is to score -/

/-- The bytes of a code point, a surrogate being one space. -/
def pointBytes (n : Nat) : List UInt8 :=
  match scalar n with
  | some c => String.utf8EncodeChar c
  | none => [blank]

/-- The bytes of a literal, each unpaired surrogate a space in its place. -/
def spacedBytes (items : List Item) : List UInt8 := (points items).flatMap pointBytes

/-- The items after a pending high surrogate score its space in time: only
spaces, up to a `\u` escape that is no low surrogate. -/
def spacesThenEscape : List Item → Bool
  | .raw c _ :: items => c == ' ' && spacesThenEscape items
  | .unicode a b c d :: _ => !decide (IsLow (Item.unicode a b c d).point)
  | _ => false

/-- The items begin with a low surrogate. -/
def startsLow (items : List Item) : Bool := items.head?.any fun i => IsLow i.point

/-- No high surrogate is scored out of place. -/
def highsInPlace : List Item → Bool
  | [] => true
  | i :: items =>
      (!decide (IsHigh i.point) || startsLow items || spacesThenEscape items)
        && highsInPlace items

/-! ## Code points -/

theorem scalar_surrogate {n : Nat} (h : IsHigh n ∨ IsLow n) : scalar n = none := by
  cases hn : scalar n with
  | none => rfl
  | some c =>
      obtain rfl := scalar_eq_some_iff.mp hn
      exact absurd h (not_or.mpr (not_surrogate c))

theorem pointBytes_surrogate {n : Nat} (h : IsHigh n ∨ IsLow n) : pointBytes n = [blank] := by
  rw [pointBytes, scalar_surrogate h]

theorem pointBytes_char (c : Char) : pointBytes c.toNat = String.utf8EncodeChar c := by
  rw [pointBytes, scalar_toNat]

/-- A code point that is no surrogate. -/
theorem exists_scalar {n : Nat} (hhigh : ¬ IsHigh n) (hlow : ¬ IsLow n) (hn : n < 0x110000) :
    ∃ c : Char, c.toNat = n := by
  have hvalid : n.isValidChar := by
    simp only [IsHigh, IsLow] at hhigh hlow
    unfold Nat.isValidChar
    omega
  exact ⟨Char.ofNatAux n hvalid, rfl⟩

theorem point_lt (i : Item) : i.point < 0x110000 := by
  have hchar : ∀ c : Char, c.toNat < 0x110000 := by
    intro c
    have hvalid : c.toNat < 0xd800 ∨ 0xdfff < c.toNat ∧ c.toNat < 0x110000 := c.valid
    omega
  cases i with
  | raw c _ => exact hchar c
  | escape e => exact hchar e.value
  | unicode a b c d =>
      have hlt := Item.point_unicode_lt a b c d
      omega

theorem spacedBytes_single {i : Item} (hi : ¬ IsHigh i.point) (items : List Item) :
    spacedBytes (i :: items) = pointBytes i.point ++ spacedBytes items := by
  rw [spacedBytes, points_single hi]
  rfl

theorem spacedBytes_pair {i j : Item} (hi : IsHigh i.point) (hj : IsLow j.point)
    (items : List Item) :
    spacedBytes (i :: j :: items) = pointBytes (joined i.point j.point) ++ spacedBytes items := by
  rw [spacedBytes, points_pair hi hj]
  rfl

/-- An unpaired high surrogate. -/
theorem spacedBytes_unpaired {i : Item} (hi : IsHigh i.point) {items : List Item}
    (h : startsLow items = false) : spacedBytes (i :: items) = blank :: spacedBytes items := by
  have hpoints : points (i :: items) = i.point :: points items := by
    cases items with
    | nil => rfl
    | cons j items =>
        have hj : ¬ IsLow j.point := by simpa [startsLow] using h
        rw [points, if_neg fun hand => hj hand.2]
  rw [spacedBytes, hpoints, List.flatMap_cons, pointBytes_surrogate (.inl hi)]
  rfl

/-- A text without unpaired surrogates is encoded. -/
theorem spacedBytes_text {items : List Item} {cs : List Char} (h : text items = some cs) :
    spacedBytes items = encodeUtf8 cs := by
  unfold text at h
  unfold spacedBytes
  generalize points items = ns at h
  induction ns generalizing cs with
  | nil =>
      obtain rfl : [] = cs := Option.some.inj h
      rfl
  | cons n ns ih =>
      simp only [List.mapM_cons, bind, Option.bind_eq_some_iff, pure, Option.some.injEq] at h
      obtain ⟨c, hc, cs', hcs', rfl⟩ := h
      obtain rfl := scalar_eq_some_iff.mp hc
      rw [List.flatMap_cons, ih hcs', pointBytes_char]
      rfl

/-- Only the space is encoded with a space in front. -/
theorem encoded_ne_blank {c : Char} (hc : c ≠ ' ') (bs bs' : List UInt8) :
    String.utf8EncodeChar c ++ bs ≠ blank :: bs' := by
  by_cases hascii : c.toNat < 128
  · intro heq
    rw [utf8EncodeChar_ascii hascii] at heq
    obtain ⟨hbyte, -⟩ := List.cons.inj heq
    exact hc ((asciiByte_inj hascii (show (' ' : Char).toNat < 128 by decide)).mp hbyte)
  · obtain ⟨hne, hhigh⟩ := utf8EncodeChar_other hascii
    obtain ⟨b, rest, hcons⟩ := List.exists_cons_of_ne_nil hne
    intro heq
    rw [hcons] at heq hhigh
    obtain ⟨rfl, -⟩ := List.cons.inj heq
    exact absurd (hhigh blank (by simp)) (by decide)

/-! ## The scanner with a high surrogate pending -/

section Pending
variable {high n : Nat}

theorem surrogateStep_high (h : IsHigh n) :
    surrogateStep high n = (n, if high ≠ 0 then [blank] else []) := by
  rw [surrogateStep, unicodeEscape_high h]
  rfl

theorem surrogateStep_low (hhigh : IsHigh high) (h : IsLow n) :
    surrogateStep high n = (0, pointBytes (joined high n)) := by
  have hle := hhigh.1
  have hge := hhigh.2
  have hlow := h.1
  have hlow' := h.2
  have hne : (inside high).unicodeHighSurrogate ≠ 0 := by
    show high ≠ 0
    omega
  have hsub : subU32 high 0xd800 = high - 0xd800 := subU32_of_le hle (by omega)
  have hjoined : 0x10000 + (high - 0xd800) * 2 ^ 10 + (n - 0xdc00) = joined high n := by
    unfold joined
    omega
  obtain ⟨c, hc⟩ := @exists_scalar (joined high n) (by unfold IsHigh joined; omega)
    (by unfold IsLow joined; omega) (by unfold joined; omega)
  rw [surrogateStep, unicodeEscape_low h hne,
    show (inside high).unicodeHighSurrogate = high from rfl, hsub, Nat.shiftLeft_eq,
    u32_of_lt (by omega), hjoined, ← hc, scoreCodepoint_eq, pointBytes_char]

theorem surrogateStep_lone (h : IsLow n) : surrogateStep 0 n = (0, [blank]) := by
  have hne : ¬ IsHigh n := by
    simp only [IsHigh, IsLow] at h ⊢
    omega
  rw [surrogateStep, unicodeEscape_other hne (fun hand => hand.2 rfl), if_pos h]
  rfl

theorem surrogateStep_other (hhigh : ¬ IsHigh n) (hlow : ¬ IsLow n) (hn : n < 0x110000) :
    surrogateStep high n = (0, (if high ≠ 0 then [blank] else []) ++ pointBytes n) := by
  obtain ⟨c, rfl⟩ := exists_scalar hhigh hlow hn
  rw [surrogateStep, unicodeEscape_other hhigh (fun hand => hlow hand.1), if_neg hlow,
    scoreCodepoint_eq, pointBytes_char]
  rfl

end Pending

/-! ## Where the scanner and the literal agree -/

theorem itemsStep_cons (high : Nat) (i : Item) (items : List Item) :
    (itemsStep high (i :: items)).2 =
      (itemStep high i).2 ++ (itemsStep (itemStep high i).1 items).2 := rfl

/-- What the scanner scores for some items, in each state it can read them
in, is what they are to score. -/
structure Agrees (items : List Item) : Prop where
  ready : (itemsStep 0 items).2 = spacedBytes items ↔ highsInPlace items = true
  pending : ∀ high, IsHigh high →
    ((itemsStep high items).2 = blank :: spacedBytes items ↔
      spacesThenEscape items = true ∧ highsInPlace items = true)
  behind : ∀ i : Item, IsHigh i.point →
    ((itemsStep i.point items).2 = spacedBytes (i :: items) ↔
      (startsLow items = true ∨ spacesThenEscape items = true) ∧ highsInPlace items = true)

theorem highsInPlace_high {i : Item} (h : IsHigh i.point) (items : List Item) :
    highsInPlace (i :: items) = true ↔
      (startsLow items = true ∨ spacesThenEscape items = true) ∧ highsInPlace items = true := by
  simp [highsInPlace, h]

theorem highsInPlace_other {i : Item} (h : ¬ IsHigh i.point) (items : List Item) :
    highsInPlace (i :: items) = true ↔ highsInPlace items = true := by
  simp [highsInPlace, h]

theorem not_high_of_low {n : Nat} (h : IsLow n) : ¬ IsHigh n := by
  simp only [IsHigh, IsLow] at h ⊢
  omega

/-- The space of a high surrogate that no low surrogate follows at once. -/
theorem Agrees.behind_of_pending {items : List Item} (hlow : startsLow items = false)
    (hpending : ∀ high, IsHigh high →
      ((itemsStep high items).2 = blank :: spacedBytes items ↔
        spacesThenEscape items = true ∧ highsInPlace items = true)) {i : Item}
    (hi : IsHigh i.point) :
    (itemsStep i.point items).2 = spacedBytes (i :: items) ↔
      (startsLow items = true ∨ spacesThenEscape items = true) ∧ highsInPlace items = true := by
  rw [spacedBytes_unpaired hi hlow, hpending i.point hi, hlow]
  simp

/-- An item that is no high surrogate is scored as it is to be. -/
theorem itemStep_ready {i : Item} (h : ¬ IsHigh i.point) :
    itemStep 0 i = (0, pointBytes i.point) := by
  by_cases hlow : IsLow i.point
  · obtain ⟨a, b, c, d, rfl⟩ := Item.eq_unicode (.inr hlow)
    rw [itemStep, surrogateStep_lone hlow, pointBytes_surrogate (.inr hlow)]
  · obtain ⟨c, hc⟩ := exists_scalar h hlow (point_lt i)
    rw [← hc, pointBytes_char]
    exact itemStep_scalar (scalar_eq_some_iff.mpr hc)

/-- One item, read with no surrogate pending. -/
theorem agrees_ready {items : List Item} (ih : Agrees items) (j : Item) :
    (itemsStep 0 (j :: items)).2 = spacedBytes (j :: items) ↔ highsInPlace (j :: items) = true := by
  by_cases hj : IsHigh j.point
  · have hstep : itemStep 0 j = (j.point, []) := by
      obtain ⟨a, b, c, d, rfl⟩ := Item.eq_unicode (.inl hj)
      rw [itemStep, surrogateStep_high hj]
      rfl
    rw [itemsStep_cons, hstep, List.nil_append, ih.behind j hj, highsInPlace_high hj]
  · rw [itemsStep_cons, itemStep_ready hj, spacedBytes_single hj, List.append_right_inj, ih.ready,
      highsInPlace_other hj]

/-- One item, read with a high surrogate pending whose space is due. -/
theorem agrees_pending {items : List Item} (ih : Agrees items) (j : Item) {high : Nat}
    (hhigh : IsHigh high) :
    (itemsStep high (j :: items)).2 = blank :: spacedBytes (j :: items) ↔
      spacesThenEscape (j :: items) = true ∧ highsInPlace (j :: items) = true := by
  -- the scanner tells a waiting surrogate from none by its value
  have hne : high ≠ 0 := by
    have hle := hhigh.1
    omega
  rw [itemsStep_cons]
  cases j with
  | raw c h =>
      have hc : ¬ IsHigh (Item.raw c h).point := (not_surrogate c).1
      rw [spacedBytes_single hc, highsInPlace_other hc]
      by_cases hspace : c = ' '
      · subst hspace
        have hpending := ih.pending high hhigh
        have hbytes : String.utf8EncodeChar ' ' = [blank] := rfl
        rw [itemStep, show (Item.raw ' ' h).point = (' ' : Char).toNat from rfl, pointBytes_char,
          hbytes, List.singleton_append, List.singleton_append, List.cons.injEq, hpending]
        simp [spacesThenEscape]
      · refine iff_of_false (encoded_ne_blank hspace _ _) ?_
        simp [spacesThenEscape, hspace]
  | escape e =>
      have hspace : e.value ≠ ' ' := by cases e <;> decide
      have hlt : e.value.toNat < 128 := by cases e <;> decide
      have hstep : (itemStep high (.escape e)).2 = String.utf8EncodeChar e.value := by
        rw [utf8EncodeChar_ascii hlt]
        rfl
      rw [hstep]
      refine iff_of_false (encoded_ne_blank hspace _ _) ?_
      simp [spacesThenEscape]
  | unicode a b c d =>
      have hlt := point_lt (.unicode a b c d)
      have hescape : spacesThenEscape (.unicode a b c d :: items) =
          !decide (IsLow (Item.unicode a b c d).point) := rfl
      rw [itemStep, hescape]
      by_cases hj : IsHigh (Item.unicode a b c d).point
      · have hlow : ¬ IsLow (Item.unicode a b c d).point := fun h => not_high_of_low h hj
        rw [surrogateStep_high hj, if_pos hne, List.singleton_append, List.cons.injEq,
          ih.behind _ hj, highsInPlace_high hj]
        simp [hlow]
      · rw [highsInPlace_other hj]
        by_cases hlow : IsLow (Item.unicode a b c d).point
        · -- The pair is joined: four bytes where a space is due.
          obtain ⟨c', hc'⟩ := @exists_scalar (joined high (Item.unicode a b c d).point)
            (by unfold IsHigh joined; omega) (by unfold IsLow joined; omega)
            (by unfold IsHigh at hhigh; unfold IsLow at hlow; unfold joined; omega)
          have hspace : c' ≠ ' ' := by
            rintro rfl
            have hspace : (32 : Nat) = joined high (Item.unicode a b c d).point := hc'
            unfold joined at hspace
            omega
          rw [surrogateStep_low hhigh hlow, ← hc', pointBytes_char]
          refine iff_of_false (encoded_ne_blank hspace _ _) ?_
          simp [hlow]
        · rw [surrogateStep_other hj hlow hlt, if_pos hne, spacedBytes_single hj,
            List.singleton_append, List.cons_append, List.cons.injEq, List.append_right_inj, ih.ready]
          simp [hlow]

theorem agrees (items : List Item) : Agrees items := by
  induction items with
  | nil =>
      have hpending : ∀ high, IsHigh high →
          ((itemsStep high []).2 = blank :: spacedBytes [] ↔
            spacesThenEscape [] = true ∧ highsInPlace [] = true) := by
        intro high _
        simp [itemsStep, spacesThenEscape]
      exact ⟨by simp [itemsStep, spacedBytes, points, highsInPlace], hpending,
        fun i hi => Agrees.behind_of_pending rfl hpending hi⟩
  | cons j items ih =>
      refine ⟨agrees_ready ih j, fun high => agrees_pending ih j, fun i hi => ?_⟩
      by_cases hj : IsLow j.point
      · have hlow : startsLow (j :: items) = true := by simpa [startsLow] using hj
        obtain ⟨a, b, c, d, rfl⟩ := Item.eq_unicode (.inr hj)
        rw [itemsStep_cons, itemStep, surrogateStep_low hi hj, spacedBytes_pair hi hj,
          List.append_right_inj, ih.ready, hlow, highsInPlace_other (not_high_of_low hj)]
        simp
      · exact Agrees.behind_of_pending (by simpa [startsLow] using hj)
          (fun high => agrees_pending ih j) hi

/-! ## The scanner as a rewriting of the literal -/

/-- The literal with every unpaired high surrogate escape moved right in
front of the next `\u` escape, or left out when none follows; `high` is one
that is still to be put down. -/
def moveHighs : Option Item → List Item → List Item
  | _, [] => []
  | high, .unicode a b c d :: items =>
      if IsHigh (Item.unicode a b c d).point then
        high.toList ++ moveHighs (some (.unicode a b c d)) items
      else high.toList ++ .unicode a b c d :: moveHighs none items
  | high, i :: items => i :: moveHighs high items

/-- Behind a high surrogate that is put down, no low one comes first. -/
theorem startsLow_moveHighs {i : Item} (hi : IsHigh i.point) (items : List Item) :
    startsLow (moveHighs (some i) items) = false := by
  have hplain : ∀ {j : Item} (rest : List Item), ¬ IsLow j.point → startsLow (j :: rest) = false := by
    intro j rest hj
    simpa [startsLow] using hj
  cases items with
  | nil => rfl
  | cons j items =>
      cases j with
      | raw c h => exact hplain _ (not_surrogate c).2
      | escape e => exact hplain _ (not_surrogate e.value).2
      | unicode a b c d =>
          rw [moveHighs]
          split_ifs <;> exact hplain _ fun hlow => not_high_of_low hlow hi

/-- **What the scanner scores** is what JSON makes of the literal after the
move. -/
theorem itemsStep_moveHighs (items : List Item) :
    (itemsStep 0 items).2 = spacedBytes (moveHighs none items) ∧
      ∀ i : Item, IsHigh i.point →
        (itemsStep i.point items).2 = spacedBytes (moveHighs (some i) items) := by
  -- a character that is no `\u` escape leaves the high surrogate waiting
  have hplain : ∀ {i : Item} (high : Nat) (c : Char), i.point = c.toNat →
      itemStep high i = (high, String.utf8EncodeChar c) → ∀ {items moved : List Item},
        (itemsStep high items).2 = spacedBytes moved →
          (itemsStep high (i :: items)).2 = spacedBytes (i :: moved) := by
    intro i high c hpoint hstep items moved h
    have hhigh : ¬ IsHigh i.point := hpoint ▸ (not_surrogate c).1
    rw [itemsStep_cons, hstep, spacedBytes_single hhigh, hpoint, pointBytes_char, h]
  induction items with
  | nil => exact ⟨rfl, fun _ _ => rfl⟩
  | cons j items ih =>
      obtain ⟨ihready, ihpending⟩ := ih
      cases j with
      | raw c h =>
          have hitem : ∀ high, itemStep high (.raw c h) = (high, String.utf8EncodeChar c) :=
            fun _ => rfl
          exact ⟨hplain 0 c rfl (hitem 0) ihready,
            fun i hi => hplain i.point c rfl (hitem _) (ihpending i hi)⟩
      | escape e =>
          have hlt : e.value.toNat < 128 := by cases e <;> decide
          have hitem : ∀ high, itemStep high (.escape e)
              = (high, String.utf8EncodeChar e.value) := fun high => by
            rw [itemStep, utf8EncodeChar_ascii hlt, asciiByte]
          exact ⟨hplain 0 e.value rfl (hitem 0) ihready,
            fun i hi => hplain i.point e.value rfl (hitem _) (ihpending i hi)⟩
      | unicode a b c d =>
          have hlt := point_lt (.unicode a b c d)
          by_cases hj : IsHigh (Item.unicode a b c d).point
          · have hmoved : ∀ high, moveHighs high (.unicode a b c d :: items)
                = high.toList ++ moveHighs (some (.unicode a b c d)) items := fun high => by
              rw [moveHighs, if_pos hj]
            refine ⟨?_, fun i hi => ?_⟩
            · rw [hmoved, itemsStep_cons, itemStep, surrogateStep_high hj]
              exact ihpending _ hj
            · have hne : i.point ≠ 0 := by
                have hle := hi.1
                omega
              have hlow : startsLow (moveHighs (some (.unicode a b c d)) items) = false :=
                startsLow_moveHighs hj items
              rw [hmoved, itemsStep_cons, itemStep, surrogateStep_high hj, if_pos hne,
                Option.toList_some, List.singleton_append, List.singleton_append,
                spacedBytes_unpaired hi hlow, ← ihpending _ hj]
          · have hmoved : ∀ high, moveHighs high (.unicode a b c d :: items)
                = high.toList ++ .unicode a b c d :: moveHighs none items := fun high => by
              rw [moveHighs, if_neg hj]
            refine ⟨?_, fun i hi => ?_⟩
            · rw [hmoved, itemsStep_cons, itemStep_ready hj, Option.toList_none, List.nil_append,
                spacedBytes_single hj, ihready]
            · have hne : i.point ≠ 0 := by
                have hle := hi.1
                omega
              rw [hmoved, itemsStep_cons, itemStep, Option.toList_some, List.singleton_append]
              by_cases hlow : IsLow (Item.unicode a b c d).point
              · rw [surrogateStep_low hi hlow, spacedBytes_pair hi hlow, ihready]
              · have hnext : startsLow (Item.unicode a b c d :: moveHighs none items) = false := by
                  simpa [startsLow] using hlow
                rw [surrogateStep_other hj hlow hlt, if_pos hne, spacedBytes_unpaired hi hnext,
                  spacedBytes_single hj, ihready]
                rfl

theorem literalBytes_moveHighs (items : List Item) :
    literalBytes items = spacedBytes (moveHighs none items) := (itemsStep_moveHighs items).1

/-! ## The content of a body -/

/-- The content string `items` scores its characters, each unpaired surrogate
as one space in its place, whatever follows the closing quote. -/
def DecodesInPlace (items : List Item) : Prop :=
  ∀ rest, (contentRun .initial (encodeUtf8 (keyText ++ literal items ++ rest))).scored =
    spacedBytes items

theorem content_scored (items : List Item) (rest : List Char) :
    (contentRun .initial (encodeUtf8 (keyText ++ literal items ++ rest))).scored =
      literalBytes items := by
  have hkey : Passes .initial keyText waiting [] := rfl
  have hstops := (hkey.silent wait_quote).silent_stops (inside_literal items rest)
  have htext : keyText ++ literal items ++ rest =
      keyText ++ ['"'] ++ (items.flatMap Item.chars ++ '"' :: rest) := by
    simp [literal]
  rw [htext]
  exact hstops.scored

/-- Every high surrogate escape is completed by the low one right after it,
or followed, after nothing but spaces, by a `\u` escape that is no low one. -/
def HighsInPlace (items : List Item) : Prop :=
  ∀ i after, i :: after <:+ items → IsHigh i.point →
    (∃ j ∈ after.head?, IsLow j.point) ∨ spacesThenEscape after = true

theorem highsInPlace_iff (items : List Item) : highsInPlace items = true ↔ HighsInPlace items := by
  have hlow : ∀ after : List Item, startsLow after = true ↔ ∃ j ∈ after.head?, IsLow j.point := by
    intro after
    cases after <;> simp [startsLow]
  induction items with
  | nil => simp [highsInPlace, HighsInPlace]
  | cons i items ih =>
      have hsplit : HighsInPlace (i :: items) ↔
          (IsHigh i.point → (∃ j ∈ items.head?, IsLow j.point) ∨ spacesThenEscape items = true)
            ∧ HighsInPlace items := by
        constructor
        · intro h
          exact ⟨h i items List.suffix_rfl,
            fun j after hj => h j after (hj.trans (List.suffix_cons i items))⟩
        · rintro ⟨hfirst, hrest⟩ j after hj
          rcases List.suffix_cons_iff.mp hj with heq | hj
          · obtain ⟨rfl, rfl⟩ := List.cons.inj heq
            exact hfirst
          · exact hrest j after hj
      have hrest : HighsInPlace items ↔ highsInPlace items = true := ih.symm
      rw [hsplit, hrest]
      by_cases hi : IsHigh i.point
      · rw [highsInPlace_high hi, hlow]
        simp [hi]
      · rw [highsInPlace_other hi]
        simp [hi]

/-- **Unpaired surrogates, exactly**: the content is decoded in place when no
high surrogate waits behind what is scored after it. -/
theorem decodes_in_place_iff (items : List Item) : DecodesInPlace items ↔ HighsInPlace items := by
  rw [← highsInPlace_iff, ← (agrees items).ready]
  constructor
  · intro h
    exact (content_scored items []).symm.trans (h [])
  · intro h rest
    exact (content_scored items rest).trans h

/-- `\ud83d`, then the letter `a`. -/
def highThenLetter : List Item :=
  [.unicode ⟨⟨13, by decide⟩, false⟩ ⟨⟨8, by decide⟩, false⟩ ⟨⟨3, by decide⟩, false⟩
    ⟨⟨13, by decide⟩, false⟩, .raw 'a' rfl]

/-- **The space is lost** there: only the letter is scored. -/
theorem decodes_in_place_fails : ¬ ∀ items, DecodesInPlace items := by
  intro hall
  have hclaim := (content_scored highThenLetter []).symm.trans (hall highThenLetter [])
  exact absurd hclaim (by decide +kernel)

end Xsr.Extraction
