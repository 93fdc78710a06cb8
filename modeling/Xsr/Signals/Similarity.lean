import Xsr.Signals.Folding
import Xsr.Signals.Overflow

/-!
# Similarity — a stretch of text, compared by both

The matcher pads a stretch by what it counts at its start and at its end,
the reference by blanks. From two characters on the trigrams are the same,
and the similarity to a keyword is the same number; shorter stretches lack
a trigram, and longer ones than the limit are dropped.
-/

namespace Xsr.Signals

open Control Kernel Lib Policy

variable {u : Unicode}

/-! ## Trigrams -/

theorem windows_eq (a b : Nat) (cs : List Nat) :
    windows a b cs = (Lib.windows 3 (a :: b :: cs)).map jaccardGram := by
  induction cs generalizing a b with
  | nil => rfl
  | cons c cs ih =>
      rw [windows, ih, Lib.windows_cons (x := a) (by simp), List.map_cons]
      rfl

/-- **The grams of a stretch** of two or more code points. -/
theorem givenGrams_eq {cs : List Nat} (h : 2 ≤ cs.length) :
    givenGrams cs = (paddedGrams 3 space cs).map jaccardGram := by
  have hclosing : closingGrams cs
      = [⟨(lastTwo cs).1, (lastTwo cs).2, space⟩, ⟨(lastTwo cs).2, space, space⟩] := by
    match cs, h with
    | _ :: _ :: _, _ => rfl
  have hread : givenGrams cs = readGrams (cs ++ [space] ++ [space]) := by
    rw [givenGrams, hclosing, readGrams_snoc, readGrams_snoc, lastTwo_snoc, List.append_assoc]
    rfl
  rw [hread, readGrams, windows_eq, List.append_assoc]
  rfl

/-- A shorter stretch has some of its grams. -/
theorem givenGrams_sublist (cs : List Nat) :
    (givenGrams cs).Sublist ((paddedGrams 3 space cs).map jaccardGram) := by
  match cs with
  | [] => exact List.nil_sublist _
  | [c] =>
      show [(⟨space, space, c⟩ : JaccardGram), ⟨c, space, space⟩].Sublist
        [⟨space, space, c⟩, ⟨space, c, space⟩, ⟨c, space, space⟩]
      exact .cons_cons _ (.cons _ (.refl _))
  | a :: b :: cs =>
      have htwo : 2 ≤ (a :: b :: cs).length := by simp
      exact (givenGrams_eq htwo) ▸ List.Sublist.refl _

/-- A trigram of characters, as the matcher holds it. -/
def trigram (gram : List Char) : JaccardGram := jaccardGram (gram.map Char.toNat)

theorem map_trigram (text : List Char) :
    (paddedGrams 3 ' ' text).map trigram
      = (paddedGrams 3 space (text.map Char.toNat)).map jaccardGram := by
  have hgrams := paddedGrams_map Char.toNat 3 ' ' text
  rw [show space = Char.toNat ' ' from rfl, ← hgrams, List.map_map]
  rfl

theorem KeywordAt.trigrams_eq {header : JaccardHeader} {k : Nat} (K : KeywordAt u header k) :
    K.trigrams = (paddedGrams 3 ' ' K.normalized).map trigram := (map_trigram K.normalized).symm

/-- Trigrams of characters are shared as such. -/
theorem same_trigrams {left right : List (List Char)} (hleft : ∀ gram ∈ left, gram.length = 3)
    (hright : ∀ gram ∈ right, gram.length = 3) :
    Counter.same (left.map trigram) (right.map trigram) = Counter.same left right := by
  let back : JaccardGram → List Nat := fun gram => [gram.a, gram.b, gram.c]
  have hback : Function.Injective back := fun x y hxy => by
    cases x
    cases y
    simpa [back] using hxy
  have hall : ∀ {grams : List (List Char)}, (∀ gram ∈ grams, gram.length = 3) →
      (grams.map trigram).map back = grams.map (List.map Char.toNat) := by
    intro grams hgrams
    rw [List.map_map]
    refine List.map_congr_left fun gram hgram => ?_
    obtain ⟨a, b, c, rfl⟩ := List.length_eq_three.mp (hgrams gram hgram)
    rfl
  have htoNat : Function.Injective (List.map Char.toNat) :=
    List.map_injective_iff.mpr fun a b hab => Char.toNat_inj.mp hab
  rw [← Counter.same_map hback, hall hleft, hall hright, Counter.same_map htoNat]

/-! ## Folded texts -/

theorem mem_windows {α : Type} {n : Nat} {xs gram : List α} (h : gram ∈ Lib.windows n xs) {x : α}
    (hx : x ∈ gram) : x ∈ xs := by
  obtain ⟨i, -, rfl⟩ := List.mem_map.mp h
  exact List.mem_of_mem_drop (List.mem_of_mem_take hx)

/-- Texts that no keyword tells apart, or two of their characters are in no
keyword. -/
theorem alike_cases {targets a b : List Char} (h : List.Forall₂ (Alike targets) a b) :
    a = b ∨ (∃ x ∈ a, x ∉ ' ' :: targets) ∧ ∃ y ∈ b, y ∉ ' ' :: targets := by
  induction h with
  | nil => exact .inl rfl
  | @cons x y a b hxy _ ih =>
      rcases hxy with rfl | ⟨hx, hy⟩
      · rcases ih with rfl | ⟨⟨x', hx', hout⟩, y', hy', hout'⟩
        · exact .inl rfl
        · exact .inr ⟨⟨x', List.mem_cons_of_mem _ hx', hout⟩, y', List.mem_cons_of_mem _ hy', hout'⟩
      · exact .inr ⟨⟨x, List.mem_cons_self, hx⟩, y, List.mem_cons_self, hy⟩

/-- **Folding shares no more and no less** with a keyword. -/
theorem same_alike {targets folded lowered keyword : List Char}
    (h : List.Forall₂ (Alike targets) folded lowered)
    (hkeyword : ∀ c ∈ keyword, c ∈ ' ' :: targets) :
    Counter.same (paddedGrams 3 ' ' folded) (paddedGrams 3 ' ' keyword)
      = Counter.same (paddedGrams 3 ' ' lowered) (paddedGrams 3 ' ' keyword) := by
  have hin : ∀ gram ∈ paddedGrams 3 ' ' keyword, ∀ c ∈ gram, c ∈ ' ' :: targets := by
    intro gram hgram c hc
    have hmem := mem_windows hgram hc
    simp only [List.mem_append, List.mem_replicate] at hmem
    rcases hmem with (⟨-, rfl⟩ | hmem) | ⟨-, rfl⟩
    · exact List.mem_cons_self
    · exact hkeyword c hmem
    · exact List.mem_cons_self
  refine Counter.same_of_forall₂ ((forall₂_paddedGrams (.inl rfl) h 3).imp fun a b hab => ?_)
  rcases alike_cases hab with rfl | ⟨⟨x, hx, hout⟩, y, hy, hout'⟩
  · exact .inl rfl
  · exact .inr ⟨fun hmem => hout (hin a hmem x hx), fun hmem => hout' (hin b hmem y hy)⟩

/-! ## The comparison -/

/-- The comparison of the reference, without cut-off differences. -/
theorem reaches_counts {same all : Nat} (h : same ≤ all) (threshold : Int) :
    reaches (same, all, all * all - (all - same) * (all - same)) threshold = true ↔
      Reaches same all threshold := by
  have hsquares : (all - same) * (all - same) ≤ all * all :=
    Nat.mul_self_le_mul_self (Nat.sub_le _ _)
  have hcast : ((all * all - (all - same) * (all - same) : Nat) : Int)
      = (all : Int) ^ 2 - ((all : Int) - same) ^ 2 := by
    rw [Nat.cast_sub hsquares, Nat.cast_mul, Nat.cast_mul, Nat.cast_sub h, sq, sq]
  unfold reaches Reaches
  dsimp only
  rw [Bool.and_eq_true, Bool.and_eq_true, bne_iff_ne, bne_iff_ne, decide_eq_true_eq, hcast,
    Nat.cast_mul, ← sq]
  constructor
  · rintro ⟨⟨hpos, -⟩, hle⟩
    exact ⟨Nat.pos_of_ne_zero hpos, hle⟩
  · rintro ⟨hpos, hle⟩
    exact ⟨⟨by omega, by omega⟩, hle⟩

/-- The reference compares the same numbers. -/
theorem reaches_iff (left right : List (List Char)) (threshold : Int) :
    reaches (similarityCounts left right) threshold = true ↔
      Reaches (Counter.same left right)
        (allGrams left.length right.length (Counter.same left right)) threshold := by
  have hleft := Counter.same_le_left left right
  have hright := Counter.same_le_right left right
  refine reaches_counts ?_ threshold
  omega

/-- A stretch that both compare with a keyword alike, given their grams: it
shares none, or it has two characters and fits the limit, where nothing
longer could reach the threshold if it does not fit. -/
def Comparable (limit : Nat) (threshold : Int) (stretch keyword : List (List Char)) : Prop :=
  Counter.same stretch keyword = 0 ∨
    4 ≤ stretch.length ∧
      (stretch.length ≤ limit ∨ Unreachable (limit + 1) keyword.length threshold)

instance (limit : Nat) (threshold : Int) (stretch keyword : List (List Char)) :
    Decidable (Comparable limit threshold stretch keyword) := by
  unfold Comparable Unreachable
  infer_instance

/-- **A stretch of text** marks a keyword when it matches it. -/
theorem marks_iff {header : JaccardHeader} {k : Nat} (K : KeywordAt u header k) {limit : Nat}
    (hlimit : jaccardMaxGrams ≤ limit) {targets folded lowered : List Char}
    (halike : List.Forall₂ (Alike targets) folded lowered)
    (hkeyword : ∀ c ∈ K.normalized, c ∈ ' ' :: targets)
    (h : Comparable limit K.rule.thresholdMilli (paddedGrams 3 ' ' lowered)
      (paddedGrams 3 ' ' K.normalized)) :
    K.Marks limit (folded.map Char.toNat) ↔
      reaches (similarityCounts (paddedGrams 3 ' ' lowered) (paddedGrams 3 ' ' K.normalized))
        K.rule.thresholdMilli = true := by
  have hlength : ∀ text : List Char, (paddedGrams 3 ' ' text).length = text.length + 2 :=
    length_paddedGrams (by decide) ' '
  have hthree : ∀ text : List Char, ∀ gram ∈ paddedGrams 3 ' ' text, gram.length = 3 :=
    fun text gram hgram => length_of_mem_windows hgram
  have hsame : Counter.same ((paddedGrams 3 ' ' folded).map trigram) K.trigrams
      = Counter.same (paddedGrams 3 ' ' lowered) (paddedGrams 3 ' ' K.normalized) := by
    rw [K.trigrams_eq, same_trigrams (hthree _) (hthree _), same_alike halike hkeyword]
  have hcap : (paddedGrams 3 ' ' K.normalized).length ≤ limit := by
    obtain ⟨htotal, hle⟩ := K.length_trigrams
    rw [K.trigrams_eq, List.length_map] at htotal
    omega
  rw [reaches_iff]
  rcases h with hzero | ⟨hlong, hfits⟩
  · -- nothing is shared, whatever is counted
    refine iff_of_false ?_ fun hreach => absurd hreach.1 (by omega)
    rintro ⟨-, hpos, -⟩
    have hle := Counter.same_mono (givenGrams_sublist (folded.map Char.toNat)) K.trigrams
    rw [← map_trigram, hsame, hzero] at hle
    omega
  · have htwo : 2 ≤ (folded.map Char.toNat).length := by
      rw [hlength] at hlong
      rw [List.length_map, halike.length_eq]
      omega
    have hgiven : givenGrams (folded.map Char.toNat) = (paddedGrams 3 ' ' folded).map trigram := by
      rw [givenGrams_eq htwo, map_trigram]
    have hgrams : (givenGrams (folded.map Char.toNat)).length
        = (paddedGrams 3 ' ' lowered).length := by
      rw [hgiven, List.length_map, hlength, hlength, halike.length_eq]
    have htrigrams : K.trigrams.length = (paddedGrams 3 ' ' K.normalized).length := by
      rw [K.trigrams_eq, List.length_map]
    rw [KeywordAt.Marks, hgrams, hgiven, hsame, htrigrams]
    by_cases hwithin : (paddedGrams 3 ' ' lowered).length ≤ limit
    · exact and_iff_right hwithin
    · -- too long for the query, and for the threshold
      have hfalse := not_reaches (Nat.lt_of_not_le hwithin) (hcap.trans (Nat.le_succ limit))
        (hfits.resolve_left hwithin)
      refine iff_of_false (fun hmarks => hwithin hmarks.1) fun hreach => ?_
      rw [(reaches_iff _ _ _).mpr hreach] at hfalse
      cases hfalse

end Xsr.Signals
