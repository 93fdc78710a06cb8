import Xsr.Kernel.Jaccard

/-!
# Grams — the trigram matcher as a function of the text

The streaming matcher keeps its grams in a shared map. What it computes is
a function of the code points alone, and this module says which: the grams
a text is read as (`givenGrams`), the query a list of grams amounts to
(`gramQuery`), and the match results after each code point (`TextMatch`).
No token and no map appears here; `QueryTokens` connects the two.
-/

namespace Xsr.Signals

open Kernel

/-! ## The grams of a text -/

/-- The trigrams that end at each code point, after `a` and `b`. -/
def windows (a b : Nat) : List Nat → List JaccardGram
  | [] => []
  | c :: cs => ⟨a, b, c⟩ :: windows b c cs

/-- The grams counted while `cs` is read: two blanks stand before it. -/
def readGrams (cs : List Nat) : List JaccardGram := windows space space cs

/-- The last two code points, blanks standing before the first. -/
def lastTwo (cs : List Nat) : Nat × Nat :=
  cs.foldl (fun w c => (w.2, c)) (space, space)

/-- The grams counted when `cs` ends. -/
def closingGrams (cs : List Nat) : List JaccardGram :=
  match cs with
  | [] => []
  | [c] => [⟨c, space, space⟩]
  | _ :: _ :: _ =>
      [⟨(lastTwo cs).1, (lastTwo cs).2, space⟩, ⟨(lastTwo cs).2, space, space⟩]

/-- All grams the matcher counts for `cs`. -/
def givenGrams (cs : List Nat) : List JaccardGram := readGrams cs ++ closingGrams cs

@[simp] theorem readGrams_nil : readGrams [] = [] := rfl

@[simp] theorem lastTwo_snoc (cs : List Nat) (c : Nat) :
    lastTwo (cs ++ [c]) = ((lastTwo cs).2, c) := by
  simp [lastTwo]

theorem windows_snoc (cs : List Nat) (c : Nat) (a b : Nat) :
    windows a b (cs ++ [c])
      = windows a b cs ++ [⟨(cs.foldl (fun w c => (w.2, c)) (a, b)).1,
          (cs.foldl (fun w c => (w.2, c)) (a, b)).2, c⟩] := by
  induction cs generalizing a b with
  | nil => rfl
  | cons d cs ih => simp [windows, ih]

theorem readGrams_snoc (cs : List Nat) (c : Nat) :
    readGrams (cs ++ [c]) = readGrams cs ++ [⟨(lastTwo cs).1, (lastTwo cs).2, c⟩] :=
  windows_snoc cs c space space

/-! ## The query a list of grams amounts to -/

/-- What one lane word gains from `gram` after the grams `seen`. -/
def maskLane (m : JaccardMaps) (lane : GramVector → Nat) (seen : List JaccardGram)
    (gram : JaccardGram) : Nat :=
  match m.gramMasks ⟨gram, seen.count gram + 1⟩ with
  | some vector => lane vector
  | none => 0

/-- One lane word summed over a list of grams, each under its occurrence
number. -/
def laneSum (m : JaccardMaps) (lane : GramVector → Nat) :
    List JaccardGram → List JaccardGram → Nat
  | _, [] => 0
  | seen, gram :: grams => maskLane m lane seen gram + laneSum m lane (gram :: seen) grams

/-- The query, without a token, that counting `grams` up to `limit` leaves. -/
def gramQuery (m : JaccardMaps) (limit : Nat) (grams : List JaccardGram) : JaccardQuery where
  token := 0
  intersectionsLow := u64 (laneSum m GramVector.low [] (grams.take limit))
  intersectionsHigh := u64 (laneSum m GramVector.high [] (grams.take limit))
  total := min grams.length limit
  overflow := decide (limit < grams.length)

theorem maskLane_congr (m : JaccardMaps) (lane : GramVector → Nat) {s t : List JaccardGram}
    {gram : JaccardGram} (h : s.count gram = t.count gram) :
    maskLane m lane s gram = maskLane m lane t gram := by
  rw [maskLane, maskLane, h]

theorem laneSum_snoc (m : JaccardMaps) (lane : GramVector → Nat)
    (seen grams : List JaccardGram) (gram : JaccardGram) :
    laneSum m lane seen (grams ++ [gram])
      = laneSum m lane seen grams + maskLane m lane (seen ++ grams) gram := by
  induction grams generalizing seen with
  | nil => simp [laneSum]
  | cons x grams ih =>
      rw [List.cons_append, laneSum, ih, laneSum, Nat.add_assoc]
      congr 2
      refine maskLane_congr m lane ?_
      simp only [List.cons_append, List.count_cons, List.count_append]
      omega

@[simp] theorem gramQuery_nil (m : JaccardMaps) (limit : Nat) :
    gramQuery m limit [] = .zero := by
  simp [gramQuery, laneSum, JaccardQuery.zero, u64]

/-- A gram within the limit adds its mask vector. -/
theorem gramQuery_snoc_of_lt (m : JaccardMaps) {limit : Nat} {grams : List JaccardGram}
    (gram : JaccardGram) (h : grams.length < limit) (hlimit : limit < 65536) :
    gramQuery m limit (grams ++ [gram])
      = { (gramQuery m limit grams).addVector (m.gramMasks ⟨gram, grams.count gram + 1⟩) with
          total := u16 ((gramQuery m limit grams).total + 1) } := by
  have htake : (grams ++ [gram]).take limit = grams ++ [gram] :=
    List.take_of_length_le (by simp; omega)
  have htake' : grams.take limit = grams := List.take_of_length_le (Nat.le_of_lt h)
  have htotal : min (grams.length + 1) limit = u16 (min grams.length limit + 1) := by
    unfold u16; omega
  have hover : decide (limit < grams.length + 1) = decide (limit < grams.length) := by
    simp only [decide_eq_decide]; omega
  simp only [gramQuery, List.length_append, List.length_singleton, htake, htake', htotal, hover]
  cases hv : m.gramMasks ⟨gram, grams.count gram + 1⟩ with
  | none => simp [JaccardQuery.addVector, laneSum_snoc, maskLane, hv]
  | some vector =>
      simp [JaccardQuery.addVector, laneSum_snoc, maskLane, hv, u64, Nat.mod_add_mod]

/-- A gram past the limit only sets the overflow mark. -/
theorem gramQuery_snoc_of_ge (m : JaccardMaps) {limit : Nat} {grams : List JaccardGram}
    (gram : JaccardGram) (h : limit ≤ grams.length) :
    gramQuery m limit (grams ++ [gram]) = { gramQuery m limit grams with overflow := true } := by
  have htotal : min (grams.length + 1) limit = min grams.length limit := by omega
  have hover : limit < grams.length + 1 := by omega
  simp [gramQuery, List.take_append_of_le_length h, htotal, hover]

/-! ## The matcher without tokens -/

/-- What the matcher knows of a text: its code points after case folding,
those of the open word, and the keywords matched so far. -/
structure TextMatch where
  text : List Nat
  word : List Nat
  found : JaccardMatches

/-- Before the first code point. -/
def TextMatch.empty : TextMatch := ⟨[], [], ⟨0, 0⟩⟩

/-- The policy's case sensitivity, as a state is initialised with it. -/
def policyCaseSensitive (m : JaccardMaps) : Bool :=
  match m.config with
  | some config => config.caseSensitive
  | none => false

/-- A code point as the matcher compares it. -/
def foldCodepoint (m : JaccardMaps) (c : Nat) : Nat :=
  if policyCaseSensitive m then c else jaccardLower m c

/-- The open word matched against the keywords. -/
def TextMatch.closeWord (m : JaccardMaps) (t : TextMatch) : TextMatch :=
  if t.word = [] then t
  else { t with
    found := jaccardMatchQuery m t.found (gramQuery m jaccardMaxGrams (givenGrams t.word)) }

/-- One code point: a word character extends the open word, any other one
closes it. -/
def TextMatch.codepoint (m : JaccardMaps) (t : TextMatch) (c : Nat) : TextMatch :=
  let c := foldCodepoint m c
  let t := { t with text := t.text ++ [c] }
  if jaccardWordChar m c then { t with word := t.word ++ [c] }
  else { t.closeWord m with word := [] }

/-- The end of the text: the open word, then the text as a whole. -/
def TextMatch.finish (m : JaccardMaps) (t : TextMatch) : TextMatch :=
  let t := t.closeWord m
  if t.text = [] then t
  else { t with
    found := jaccardMatchQuery m t.found (gramQuery m jaccardMaxTextGrams (givenGrams t.text)) }

/-- A decoder with a text: what the matcher knows of a byte stream. -/
structure ByteMatch where
  utf8 : Utf8Scan
  text : TextMatch

/-- Before the first byte. -/
def ByteMatch.empty : ByteMatch := ⟨⟨0, 0, 0⟩, .empty⟩

/-- One byte: the code points it completes. -/
def ByteMatch.byte (m : JaccardMaps) (b : ByteMatch) (c : UInt8) : ByteMatch :=
  ⟨(utf8Byte b.utf8 c).1, (utf8Byte b.utf8 c).2.foldl (TextMatch.codepoint m) b.text⟩

/-- The end of the bytes: a sequence cut short counts as a blank. -/
def ByteMatch.finish (m : JaccardMaps) (b : ByteMatch) : TextMatch :=
  (if b.utf8.utf8Remaining = 0 then b.text else b.text.codepoint m space).finish m

end Xsr.Signals
