import Xsr.Extraction.Codepoints

/-!
# Resynchronisation — the decoder after a broken sequence

`xdp_jaccard_score_char` drops a byte that breaks a sequence off unless the
byte is ASCII. A lead byte that does so is lost, and the character it
begins with it. A character is safe behind every byte string that does not
end inside a sequence.
-/

namespace Xsr.Signals

open Kernel Lib Extraction

/-! ## The sequences of a byte string -/

/-- The continuation bytes a lead byte announces. -/
def announced (b : UInt8) : Nat :=
  if b &&& 0xe0 = 0xc0 then 1
  else if b &&& 0xf0 = 0xe0 then 2
  else if b &&& 0xf8 = 0xf0 then 3
  else 0

/-- A byte that continues a sequence. -/
def Continues (b : UInt8) : Prop := b &&& 0xc0 = 0x80

instance (b : UInt8) : Decidable (Continues b) := inferInstanceAs (Decidable (_ = _))

/-- A byte string that is cut into single bytes, whole sequences and
sequences that end at the first byte that does not continue them. -/
inductive Settled : List UInt8 → Prop
  | nil : Settled []
  | single {bs : List UInt8} {b : UInt8} : Settled bs → announced b = 0 → Settled (bs ++ [b])
  | whole {bs conts : List UInt8} {lead : UInt8} : Settled bs → (∀ b ∈ conts, Continues b) →
      conts.length = announced lead → conts ≠ [] → Settled (bs ++ lead :: conts)
  | broken {bs conts : List UInt8} {lead b : UInt8} : Settled bs → (∀ b ∈ conts, Continues b) →
      conts.length < announced lead → ¬ Continues b → Settled (bs ++ lead :: conts ++ [b])

/-- A byte string that ends before the last byte of a sequence. -/
def EndsInside (bs : List UInt8) : Prop :=
  ∃ done lead conts, bs = done ++ lead :: conts ∧ Settled done ∧
    (∀ b ∈ conts, Continues b) ∧ conts.length < announced lead

/-- Every byte string is cut into sequences, up to the one it ends in. -/
theorem settled_or_inside (bs : List UInt8) : Settled bs ∨ EndsInside bs := by
  induction bs using List.reverseRecOn with
  | nil => exact .inl .nil
  | append_singleton bs b ih =>
      rcases ih with h | ⟨done, lead, conts, rfl, hdone, hconts, hlt⟩
      · by_cases hb : announced b = 0
        · exact .inl (h.single hb)
        · exact .inr ⟨bs, b, [], rfl, h, by simp, Nat.pos_of_ne_zero hb⟩
      · by_cases hb : Continues b
        · have hall : ∀ b' ∈ conts ++ [b], Continues b' := by
            simpa [or_imp, forall_and] using ⟨hconts, hb⟩
          have heq : done ++ lead :: conts ++ [b] = done ++ lead :: (conts ++ [b]) := by simp
          rw [heq]
          by_cases hlast : conts.length + 1 = announced lead
          · exact .inl (hdone.whole hall (by simpa using hlast) (by simp))
          · refine .inr ⟨done, lead, conts ++ [b], rfl, hdone, hall, ?_⟩
            rw [List.length_append, List.length_singleton]
            omega
        · exact .inl (hdone.broken hconts hlt hb)

/-! ## What the decoder keeps of them -/

section Decoder
variable {u : Utf8Scan}

/-- Outside of a sequence a lead byte opens one, and every other byte scores
a code point at once. -/
theorem utf8Byte_outside (hu : u.utf8Remaining = 0) (b : UInt8) :
    (utf8Byte u b).1.utf8Remaining = announced b := by
  have hascii : ∀ b : UInt8, b < 0x80 → announced b = 0 :=
    forall_uint8 (P := fun b => b < 0x80 → announced b = 0) (by decide +kernel)
  rw [utf8Byte, if_pos hu]
  by_cases h : b < 0x80
  · rw [if_pos h, hascii b h]
    exact hu
  · simp only [h, if_false, announced]
    split_ifs <;> first | rfl | exact hu

theorem utf8Byte_continues {r : Nat} (hu : u.utf8Remaining = r + 1) {b : UInt8}
    (hb : Continues b) : (utf8Byte u b).1.utf8Remaining = r := by
  have hmark : ¬ b &&& 0xc0 ≠ 0x80 := not_not.mpr hb
  rw [utf8Byte, if_neg (by omega), if_neg hmark]
  simp only
  split_ifs <;> simp only <;> omega

theorem utf8Byte_breaks {r : Nat} (hu : u.utf8Remaining = r + 1) {b : UInt8}
    (hb : ¬ Continues b) : (utf8Byte u b).1.utf8Remaining = 0 := by
  have hmark : b &&& 0xc0 ≠ 0x80 := hb
  rw [utf8Byte, if_neg (by omega), if_pos hmark]

/-- A lead byte and continuation bytes within what it announces. -/
theorem utf8Points_opened (hu : u.utf8Remaining = 0) {lead : UInt8} {conts : List UInt8}
    (hconts : ∀ b ∈ conts, Continues b) (hle : conts.length ≤ announced lead) :
    (utf8Points u (lead :: conts)).1.utf8Remaining = announced lead - conts.length := by
  induction conts using List.reverseRecOn with
  | nil => exact utf8Byte_outside hu lead
  | append_singleton conts b ih =>
      rw [List.length_append, List.length_singleton] at hle
      have hopen := ih (fun b' h => hconts b' (List.mem_append_left _ h)) (by omega)
      rw [← List.cons_append, utf8Points_append, List.length_append, List.length_singleton]
      refine utf8Byte_continues ?_ (hconts b (by simp))
      omega

theorem Settled.remaining (hu : u.utf8Remaining = 0) {bs : List UInt8} (h : Settled bs) :
    (utf8Points u bs).1.utf8Remaining = 0 := by
  induction h with
  | nil => exact hu
  | single _ hb ih =>
      rw [utf8Points_append]
      exact (utf8Byte_outside ih _).trans hb
  | whole _ hconts hlen _ ih =>
      rw [utf8Points_append]
      exact (utf8Points_opened ih hconts hlen.le).trans (by omega)
  | @broken bs conts lead b _ hconts hlt hb ih =>
      have hopen := utf8Points_opened ih hconts hlt.le
      have hleft : announced lead - conts.length = announced lead - conts.length - 1 + 1 := by
        omega
      rw [List.append_assoc, utf8Points_append, utf8Points_append]
      exact utf8Byte_breaks (hopen.trans hleft) hb

theorem EndsInside.remaining (hu : u.utf8Remaining = 0) {bs : List UInt8} (h : EndsInside bs) :
    (utf8Points u bs).1.utf8Remaining ≠ 0 := by
  obtain ⟨done, lead, conts, rfl, hdone, hconts, hlt⟩ := h
  have hopen := utf8Points_opened (hdone.remaining hu) hconts hlt.le
  rw [utf8Points_append]
  dsimp only
  omega

/-- **The decoder is inside a sequence** exactly when the bytes are. -/
theorem remaining_eq_zero_iff (hu : u.utf8Remaining = 0) (bs : List UInt8) :
    (utf8Points u bs).1.utf8Remaining = 0 ↔ ¬ EndsInside bs := by
  constructor
  · exact fun h hinside => hinside.remaining hu h
  · intro h
    exact ((settled_or_inside bs).resolve_right h).remaining hu

end Decoder

/-! ## A text behind a byte string -/

/-- The code points `xdp_jaccard_score_char` hands to
`xdp_jaccard_score_codepoint` over a run of bytes. -/
def scoredPoints (m : JaccardMaps) : QueryGrams → JaccardState → List UInt8 → List Nat
  | _, _, [] => []
  | g, s, b :: bs =>
      let t := jaccardScoreChar m g s b
      (utf8Byte s.toUtf8Scan b).2 ++ scoredPoints m t.1 t.2 bs

theorem scoredPoints_eq (m : JaccardMaps) (g : QueryGrams) (s : JaccardState) (bs : List UInt8) :
    scoredPoints m g s bs = (utf8Points s.toUtf8Scan bs).2 := by
  induction bs generalizing g s with
  | nil => rfl
  | cons b bs ih =>
      have hscan : (jaccardScoreChar m g s b).2.toUtf8Scan = (utf8Byte s.toUtf8Scan b).1 := by
        simp only [jaccardScoreChar, scoreCodepoints_utf8]
      rw [scoredPoints, utf8Points, ih, hscan]

theorem jaccardInit_remaining (m : JaccardMaps) (g : QueryGrams) :
    (jaccardInit m g).2.utf8Remaining = 0 := by
  unfold jaccardInit
  cases m.config <;> rfl

/-- The bytes of a character above 127: a lead byte, then continuation
bytes. -/
theorem encoded_sequence {c : Char} (hc : ¬ c.toNat < 128) :
    ∃ lead conts, String.utf8EncodeChar c = lead :: conts ∧ ¬ lead < 0x80 ∧ ¬ Continues lead ∧
      conts ≠ [] ∧ ∀ b ∈ conts, Continues b := by
  have hvalid : c.toNat < 0xd800 ∨ 0xdfff < c.toNat ∧ c.toNat < 0x110000 := c.valid
  have hval : c.val.toNat = c.toNat := rfl
  have hlead : ∀ b : UInt8, 0xc0 ≤ b → ¬ b < 0x80 ∧ ¬ Continues b :=
    forall_uint8 (P := fun b => 0xc0 ≤ b → ¬ b < 0x80 ∧ ¬ Continues b) (by decide +kernel)
  have hge : ∀ n, 0xc0 ≤ n → n < 256 → (0xc0 : UInt8) ≤ UInt8.ofNat n := by
    intro n hn hlt
    rw [UInt8.le_iff_toNat_le, UInt8.toNat_ofNat', Nat.mod_eq_of_lt hlt]
    exact hn
  have hcont : ∀ n, Continues (UInt8.ofNat (n % 0x40 + 0x80)) := fun n =>
    (continuation _ (Nat.mod_lt _ (by decide))).1
  simp only [String.utf8EncodeChar, hval]
  split_ifs with h1 h2 h3
  · omega
  · obtain ⟨hnot, hopens⟩ := hlead _ (hge (c.toNat / 0x40 % 0x20 + 0xc0) (by omega) (by omega))
    exact ⟨_, _, rfl, hnot, hopens, List.cons_ne_nil _ _, List.forall_mem_singleton.mpr (hcont _)⟩
  · obtain ⟨hnot, hopens⟩ := hlead _ (hge (c.toNat / 0x1000 % 0x10 + 0xe0) (by omega) (by omega))
    exact ⟨_, _, rfl, hnot, hopens, List.cons_ne_nil _ _,
      List.forall_mem_cons.mpr ⟨hcont _, List.forall_mem_singleton.mpr (hcont _)⟩⟩
  · obtain ⟨hnot, hopens⟩ := hlead _ (hge (c.toNat / 0x40000 % 0x8 + 0xf0) (by omega) (by omega))
    exact ⟨_, _, rfl, hnot, hopens, List.cons_ne_nil _ _, List.forall_mem_cons.mpr
      ⟨hcont _, List.forall_mem_cons.mpr ⟨hcont _, List.forall_mem_singleton.mpr (hcont _)⟩⟩⟩

section Behind
variable {u : Utf8Scan}

/-- Stray continuation bytes score spaces. -/
theorem utf8Points_stray (hu : u.utf8Remaining = 0) {bs : List UInt8}
    (h : ∀ b ∈ bs, Continues b) :
    (utf8Points u bs).1.utf8Remaining = 0 ∧
      (utf8Points u bs).2 = List.replicate bs.length space := by
  have hstray : ∀ b : UInt8, Continues b → ¬ b < 0x80 ∧ b &&& 0xe0 ≠ 0xc0 ∧ b &&& 0xf0 ≠ 0xe0 ∧
      b &&& 0xf8 ≠ 0xf0 :=
    forall_uint8 (P := fun b => Continues b → ¬ b < 0x80 ∧ b &&& 0xe0 ≠ 0xc0 ∧
      b &&& 0xf0 ≠ 0xe0 ∧ b &&& 0xf8 ≠ 0xf0) (by decide +kernel)
  induction bs with
  | nil => exact ⟨hu, rfl⟩
  | cons b bs ih =>
      obtain ⟨hb, hrest⟩ := List.forall_mem_cons.mp h
      obtain ⟨h1, h2, h3, h4⟩ := hstray b hb
      obtain ⟨hr, hpoints⟩ := ih hrest
      have hbyte : utf8Byte u b = (u, [space]) := by
        rw [utf8Byte, if_pos hu, if_neg h1, if_neg h2, if_neg h3, if_neg h4]
      rw [utf8Points, hbyte]
      exact ⟨hr, by rw [hpoints]; rfl⟩

/-- **A lead byte inside a sequence is lost**: its character scores a space
for every byte. -/
theorem utf8Points_lost (hu : u.utf8Remaining ≠ 0) {c : Char} (hc : ¬ c.toNat < 128) :
    (utf8Points u (String.utf8EncodeChar c)).1.utf8Remaining = 0 ∧
      ∃ n, (utf8Points u (String.utf8EncodeChar c)).2 = List.replicate n space ++ [space] := by
  obtain ⟨lead, conts, heq, hascii, hbreaks, -, hconts⟩ := encoded_sequence hc
  have hmark : lead &&& 0xc0 ≠ 0x80 := hbreaks
  have hbyte : utf8Byte u lead =
      ({ u with utf8Remaining := 0, utf8Value := 0 }, [space]) := by
    rw [utf8Byte, if_neg hu, if_pos hmark, if_neg hascii]
  obtain ⟨hr, hpoints⟩ := utf8Points_stray
    (u := { u with utf8Remaining := 0, utf8Value := 0 }) rfl hconts
  rw [heq, utf8Points, hbyte]
  refine ⟨hr, conts.length, ?_⟩
  rw [hpoints, List.singleton_append, ← List.replicate_succ, List.replicate_succ']

/-- An ASCII character inside a sequence is scored behind a space. -/
theorem utf8Points_ascii (hu : u.utf8Remaining ≠ 0) {c : Char} (hc : c.toNat < 128) :
    (utf8Points u (String.utf8EncodeChar c)).1.utf8Remaining = 0 ∧
      (utf8Points u (String.utf8EncodeChar c)).2 = [space, c.toNat] := by
  have hmark : ∀ b : UInt8, b < 0x80 → b &&& 0xc0 ≠ 0x80 :=
    forall_uint8 (P := fun b => b < 0x80 → b &&& 0xc0 ≠ 0x80) (by decide +kernel)
  have hnat : (UInt8.ofNat c.toNat).toNat = c.toNat := by
    rw [UInt8.toNat_ofNat', Nat.mod_eq_of_lt (by omega)]
  have hbyte : UInt8.ofNat c.toNat < 0x80 := by
    rw [UInt8.lt_iff_toNat_lt, hnat]
    exact hc
  rw [utf8EncodeChar_ascii hc]
  simp only [utf8Points, utf8Byte, hu, if_false, hmark _ hbyte, ne_eq, not_false_eq_true, if_true,
    hbyte, hnat]
  exact ⟨trivial, rfl⟩

end Behind

/-- Feeding `p` and then the text `q` from the initial state ends with the
characters of `q`. -/
def Resynchronises (m : JaccardMaps) (g : QueryGrams) (p : List UInt8) (q : List Char) : Prop :=
  q.map Char.toNat <:+ scoredPoints m (jaccardInit m g).1 (jaccardInit m g).2 (p ++ encodeUtf8 q)

/-- A text whose first byte is not a lead byte. -/
def StartsAscii (q : List Char) : Prop := ∀ c ∈ q.head?, c.toNat < 128

theorem resynchronises_run {u : Utf8Scan} (hu : u.utf8Remaining = 0) (p : List UInt8)
    (q : List Char) :
    q.map Char.toNat <:+ (utf8Points u (p ++ encodeUtf8 q)).2 ↔
      StartsAscii q ∨ ¬ EndsInside p := by
  rw [← remaining_eq_zero_iff hu, utf8Points_append]
  generalize hv : utf8Points u p = v
  obtain ⟨v, before⟩ := v
  dsimp only
  by_cases hr : v.utf8Remaining = 0
  · rw [(utf8Points_text hr q).2]
    exact iff_of_true (List.suffix_append _ _) (.inr hr)
  · cases q with
    | nil => exact iff_of_true (List.nil_suffix) (.inl (by simp [StartsAscii]))
    | cons c cs =>
        have htext : encodeUtf8 (c :: cs) = String.utf8EncodeChar c ++ encodeUtf8 cs := rfl
        rw [htext, utf8Points_append]
        by_cases hc : c.toNat < 128
        · obtain ⟨hr', hpoints⟩ := utf8Points_ascii hr hc
          refine iff_of_true ?_ (.inl (by simpa [StartsAscii] using hc))
          rw [hpoints, (utf8Points_text hr' cs).2]
          exact ⟨before ++ [space], by simp⟩
        · obtain ⟨hr', n, hpoints⟩ := utf8Points_lost hr hc
          refine iff_of_false ?_ (by simpa [StartsAscii, hr] using hc)
          rw [hpoints, (utf8Points_text hr' cs).2]
          -- The character would have to be the last of the spaces.
          rintro ⟨front, heq⟩
          have hsplit : (front ++ [c.toNat]) ++ cs.map Char.toNat =
              (before ++ List.replicate n space ++ [space]) ++ cs.map Char.toNat := by
            simpa using heq
          have hlast := List.append_inj_right' (List.append_cancel_right hsplit) rfl
          have hspace : c.toNat = 32 := by simpa [space] using hlast
          omega

/-- **Resynchronisation**, exactly: the characters of a text are scored as
they are, unless the text begins with a lead byte inside a sequence. -/
theorem resynchronises_iff (m : JaccardMaps) (g : QueryGrams) (p : List UInt8) (q : List Char) :
    Resynchronises m g p q ↔ StartsAscii q ∨ ¬ EndsInside p := by
  rw [Resynchronises, scoredPoints_eq]
  exact resynchronises_run (jaccardInit_remaining m g) p q

/-- The matcher before a policy is loaded. -/
def unloadedMaps : JaccardMaps where
  config := none
  rules := fun _ => none
  keywords := fun _ => none
  gramMasks := fun _ => none
  casefolds := fun _ => none
  wordBitmap := fun _ => 0

/-- No query has been drawn. -/
def undrawnGrams : QueryGrams where
  counts := fun _ => none
  prandom := fun _ => (0, 0)
  drawn := 0

/-- **A character is swallowed**: behind the single byte `0xc3`, `é` scores
two spaces. -/
theorem resynchronises_fails : ¬ ∀ (m : JaccardMaps) (g : QueryGrams) (p : List UInt8)
    (q : List Char), Resynchronises m g p q := by
  intro hall
  have hclaim := hall unloadedMaps undrawnGrams [0xc3] ['é']
  have hpoints : scoredPoints unloadedMaps (jaccardInit unloadedMaps undrawnGrams).1
      (jaccardInit unloadedMaps undrawnGrams).2 ([0xc3] ++ encodeUtf8 ['é']) = [space, space] := by
    rw [scoredPoints_eq]
    decide +kernel
  rw [Resynchronises, hpoints] at hclaim
  exact absurd hclaim (by decide)

end Xsr.Signals
