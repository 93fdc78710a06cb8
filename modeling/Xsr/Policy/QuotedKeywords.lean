import Xsr.Policy.LaterLines

/-!
# QuotedKeywords — keyword lists through `load_policy`

A list of double-quoted keywords is written under a `keywords` key and read
back. The passes of the loader do not share a notion of quoting: comments
are cut and colons are split inside quotes, and apostrophes go with the
quotes.
-/

namespace Xsr.Policy

open Lib

variable (u : Unicode) (path : PolicyPath)

/-! ## Texts without surrounding blanks -/

theorem dropWhile_head {α : Type} {p : α → Bool} {xs : List α} (h : ∀ x ∈ xs.head?, p x = false) :
    xs.dropWhile p = xs := by
  cases xs with
  | nil => rfl
  | cons x xs => exact List.dropWhile_cons_of_neg (by simp [h x rfl])

theorem rstrip_eq_self {text : List Char} (h : ∀ c ∈ text.getLast?, Unicode.space c = false) :
    rstrip text = text := by
  rw [rstrip, dropWhile_head (by simpa using h), List.reverse_reverse]

theorem strip_eq_self {text : List Char} (h1 : ∀ c ∈ text.head?, Unicode.space c = false)
    (h2 : ∀ c ∈ text.getLast?, Unicode.space c = false) : Unicode.strip text = text := by
  rw [Unicode.strip, dropWhile_head h1, dropWhile_head (by simpa using h2), List.reverse_reverse]

/-- Blanks in front go. -/
theorem strip_blanks {blanks text : List Char} (hb : ∀ c ∈ blanks, Unicode.space c = true) :
    Unicode.strip (blanks ++ text) = Unicode.strip text := by
  rw [Unicode.strip, List.dropWhile_append_of_pos hb]
  rfl

theorem space_blanks (n : Nat) : ∀ c ∈ List.replicate n ' ', Unicode.space c = true := by
  intro c hc
  rw [List.eq_of_mem_replicate hc]
  rfl

/-- A text between blanks. -/
theorem strip_padded {text : List Char} (hne : text ≠ [])
    (h1 : ∀ c ∈ text.head?, Unicode.space c = false)
    (h2 : ∀ c ∈ text.getLast?, Unicode.space c = false) (n m : Nat) :
    Unicode.strip (List.replicate n ' ' ++ (text ++ List.replicate m ' ')) = text := by
  have hfront : (text ++ List.replicate m ' ').dropWhile Unicode.space
      = text ++ List.replicate m ' ' :=
    dropWhile_head (by rwa [List.head?_append_of_ne_nil _ hne])
  rw [strip_blanks (space_blanks n), Unicode.strip, hfront, List.reverse_append,
    List.dropWhile_append_of_pos, dropWhile_head (by simpa using h2), List.reverse_reverse]
  rw [List.reverse_replicate]
  exact space_blanks m

theorem strip_subset (text : List Char) : Unicode.strip text ⊆ text := by
  intro c hc
  rw [Unicode.strip, List.mem_reverse] at hc
  have := (List.dropWhile_suffix _).subset hc
  rw [List.mem_reverse] at this
  exact (List.dropWhile_suffix _).subset this

theorem rstrip_subset (text : List Char) : rstrip text ⊆ text := by
  intro c hc
  rw [rstrip, List.mem_reverse] at hc
  have := (List.dropWhile_suffix _).subset hc
  rwa [List.mem_reverse] at this

/-! ## Scalars -/

theorem stripQuotes_subset (value : List Char) : stripQuotes value ⊆ value := by
  intro c hc
  rw [stripQuotes, List.mem_reverse] at hc
  have := (List.dropWhile_suffix _).subset hc
  rw [List.mem_reverse] at this
  exact (List.dropWhile_suffix _).subset this

/-- The items of a bracketed list that are not blank. -/
def listItems (value : List Char) : List (List Char) :=
  (splitCommas (listBody value)).filter fun item => !(Unicode.strip item).isEmpty

theorem parseScalar_list {text : List Char} (h1 : (Unicode.strip text).head? = some '[')
    (h2 : (Unicode.strip text).getLast? = some ']') (h3 : listBody (Unicode.strip text) ≠ []) :
    parseScalar u text = (listItems (Unicode.strip text)).mapM (parseScalar u) >>=
      fun values => .ok (.list values) := by
  rw [parseScalar, dif_pos ⟨h1, h2⟩, if_neg h3, mapM_attach (parseScalar u)]
  rfl

/-- A scalar without brackets around it. -/
theorem parseScalar_plain {text : List Char}
    (h : ¬((Unicode.strip text).head? = some '[' ∧ (Unicode.strip text).getLast? = some ']')) :
    parseScalar u text =
      if Unicode.strip text = "true".toList ∨ Unicode.strip text = "false".toList then
        .ok (.bool (Unicode.strip text = "true".toList))
      else if isInteger (Unicode.strip text) then
        (readInt u (String.ofList (Unicode.strip text))).elim (.error .conversion)
          fun z => .ok (.int z)
      else .ok (.str (String.ofList (stripQuotes (Unicode.strip text)))) := by
  rw [parseScalar, dif_neg h]

/-- A scalar that begins with a double quote is the text inside the quotes. -/
theorem parseScalar_quote {text : List Char} (h : (Unicode.strip text).head? = some '"') :
    parseScalar u text = .ok (.str (String.ofList (stripQuotes (Unicode.strip text)))) := by
  obtain ⟨rest, hrest⟩ : ∃ rest, Unicode.strip text = '"' :: rest := by
    cases ht : Unicode.strip text with
    | nil => simp [ht] at h
    | cons c rest =>
        rw [ht, List.head?_cons, Option.some.injEq] at h
        exact ⟨rest, by rw [h]⟩
  rw [parseScalar_plain u (by simp [hrest]), if_neg (by simp [hrest]), if_neg]
  rw [hrest, isInteger, List.head?_cons, if_neg (by decide)]
  simp

/-- What a scalar is read as is made of characters of its text. -/
theorem parseScalar_str {text : List Char} {s : String} (h : parseScalar u text = .ok (.str s)) :
    s.toList ⊆ text := by
  by_cases hb : (Unicode.strip text).head? = some '[' ∧ (Unicode.strip text).getLast? = some ']'
  · by_cases hbody : listBody (Unicode.strip text) = []
    · rw [parseScalar, dif_pos hb, if_pos hbody] at h
      cases h
    · rw [parseScalar_list u hb.1 hb.2 hbody] at h
      obtain ⟨values, -, hv⟩ := bind_ok h
      cases hv
  · rw [parseScalar_plain u hb] at h
    split_ifs at h with h1 h2
    · cases h
    · cases hz : readInt u (String.ofList (Unicode.strip text)) with
      | none => rw [hz] at h; cases h
      | some z => rw [hz] at h; cases h
    · cases h
      rw [String.toList_ofList]
      exact fun c hc => strip_subset text (stripQuotes_subset _ hc)

theorem extendFirst_subset {c : Char} {pieces : List (List Char)} {text : List Char}
    (h : ∀ p ∈ pieces, p ⊆ text) : ∀ p ∈ extendFirst c pieces, p ⊆ c :: text := by
  cases pieces with
  | nil => simp [extendFirst]
  | cons piece pieces =>
      intro p hp
      rcases List.mem_cons.mp hp with rfl | hp
      · exact List.cons_subset_cons c (h piece (by simp))
      · exact List.subset_cons_of_subset c (h p (by simp [hp]))

theorem splitCommas_subset (body : List Char) : ∀ p ∈ splitCommas body, p ⊆ body := by
  induction body with
  | nil => simp [splitCommas]
  | cons c cs ih =>
      unfold splitCommas
      split_ifs with hc
      · intro p hp
        rcases List.mem_cons.mp hp with rfl | hp
        · exact List.nil_subset _
        · exact List.subset_cons_of_subset c (ih p hp)
      · exact extendFirst_subset ih

/-- **A list is read from the text**: its strings have no other characters. -/
theorem parseScalar_list_subset {text : List Char} {values : List PyVal} {s : String}
    (h : parseScalar u text = .ok (.list values)) (hs : .str s ∈ values) : s.toList ⊆ text := by
  by_cases hb : (Unicode.strip text).head? = some '[' ∧ (Unicode.strip text).getLast? = some ']'
  · by_cases hbody : listBody (Unicode.strip text) = []
    · rw [parseScalar, dif_pos hb, if_pos hbody] at h
      cases h
      cases hs
    · rw [parseScalar_list u hb.1 hb.2 hbody] at h
      obtain ⟨values', hvalues, hv⟩ := bind_ok h
      cases hv
      obtain ⟨item, hitem, hstr⟩ := mapM_mem hvalues hs
      have hsplit := splitCommas_subset _ item (List.mem_of_mem_filter hitem)
      intro c hc
      have hbodyc : c ∈ listBody (Unicode.strip text) := hsplit (parseScalar_str u hstr hc)
      have hdrop := List.mem_of_mem_dropLast (strip_subset _ hbodyc)
      exact strip_subset text (List.mem_of_mem_drop hdrop)
  · rw [parseScalar_plain u hb] at h
    split_ifs at h with h1 h2
    · cases h
    · cases hz : readInt u (String.ofList (Unicode.strip text)) with
      | none => rw [hz] at h; cases h
      | some z => rw [hz] at h; cases h
    · cases h

/-! ## Quoted keywords -/

/-- A keyword as a double-quoted scalar. -/
def quoted (k : List Char) : List Char := '"' :: (k ++ ['"'])

/-- No apostrophe at either end. -/
def Bare (k : List Char) : Prop := k.head? ≠ some '\'' ∧ k.getLast? ≠ some '\''

theorem stripQuotes_quoted (k : List Char) : stripQuotes (quoted k) = stripQuotes k := by
  rw [stripQuotes, quoted, List.dropWhile_cons_of_pos (by decide), List.dropWhile_append]
  split_ifs with h
  · rw [stripQuotes, List.isEmpty_iff.mp h]
    rfl
  · rw [List.reverse_append, List.reverse_singleton, List.singleton_append,
      List.dropWhile_cons_of_pos (by decide), stripQuotes]

theorem stripQuotes_eq_self_iff {k : List Char} (h : '"' ∉ k) : stripQuotes k = k ↔ Bare k := by
  have hquote : ∀ c ∈ k, quoteChar c = true → c = '\'' := by
    intro c hc hq
    rcases Bool.or_eq_true_iff.mp hq with hq | hq
    · exact absurd (eq_of_beq hq ▸ hc) h
    · exact eq_of_beq hq
  constructor
  · intro hk
    -- nothing was cut at either end, so neither end is a quote
    have hlen : (k.dropWhile quoteChar).length ≤ k.length := (List.dropWhile_suffix _).length_le
    have hstrip : k.length ≤ (k.dropWhile quoteChar).length := by
      conv_lhs => rw [← hk, stripQuotes, List.length_reverse]
      exact (List.dropWhile_suffix _).length_le.trans (by rw [List.length_reverse])
    have hdrop : k.dropWhile quoteChar = k :=
      (List.dropWhile_suffix _).eq_of_length (le_antisymm hlen hstrip)
    constructor
    · intro hhead
      obtain ⟨cs, rfl⟩ := List.head?_eq_some_iff.mp hhead
      rw [List.dropWhile_cons_of_pos (by decide)] at hdrop
      have := congrArg List.length hdrop
      have hle : (cs.dropWhile quoteChar).length ≤ cs.length := (List.dropWhile_suffix _).length_le
      rw [List.length_cons] at this
      omega
    · intro hlast
      rw [stripQuotes, hdrop] at hk
      obtain ⟨cs, rfl⟩ := List.getLast?_eq_some_iff.mp hlast
      rw [List.reverse_append, List.reverse_singleton, List.singleton_append,
        List.dropWhile_cons_of_pos (by decide)] at hk
      have := congrArg List.length hk
      have hle : (cs.reverse.dropWhile quoteChar).length ≤ cs.reverse.length :=
        (List.dropWhile_suffix _).length_le
      simp only [List.length_reverse, List.length_append, List.length_singleton] at this hle
      omega
  · rintro ⟨hhead, hlast⟩
    have hfirst : ∀ c ∈ k.head?, quoteChar c = false := by
      intro c hc
      by_contra hq
      have := hquote c (List.mem_of_mem_head? hc) (by simpa using hq)
      exact hhead (this ▸ hc)
    have hend : ∀ c ∈ k.reverse.head?, quoteChar c = false := by
      rw [List.head?_reverse]
      intro c hc
      by_contra hq
      have := hquote c (List.mem_of_mem_getLast? hc) (by simpa using hq)
      exact hlast (this ▸ hc)
    rw [stripQuotes, dropWhile_head hfirst, dropWhile_head hend, List.reverse_reverse]

theorem strip_quoted (k : List Char) : Unicode.strip (quoted k) = quoted k :=
  strip_eq_self (by simp [quoted, Unicode.space]) (by
    rw [quoted, ← List.cons_append, List.getLast?_concat]
    simp [Unicode.space])

/-- A quoted keyword, with or without blanks around it, is read as the keyword
without the apostrophes at its ends. -/
theorem parseScalar_quoted {text k : List Char} (h : Unicode.strip text = quoted k) :
    parseScalar u text = .ok (.str (String.ofList (stripQuotes k))) := by
  rw [parseScalar_quote u (by rw [h]; rfl), h, stripQuotes_quoted]

/-! ## The commas of an inline list -/

theorem foldr_extendFirst (text piece : List Char) (pieces : List (List Char)) :
    text.foldr extendFirst (piece :: pieces) = (text ++ piece) :: pieces := by
  induction text with
  | nil => rfl
  | cons c cs ih => rw [List.foldr_cons, ih]; rfl

/-- A text whose commas all stand inside quotes is not split. -/
theorem splitCommas_append {text rest : List Char}
    (h : ∀ before after, text = before ++ ',' :: after → (after ++ rest).count '"' % 2 = 1) :
    splitCommas (text ++ rest) = text.foldr extendFirst (splitCommas rest) := by
  induction text with
  | nil => rfl
  | cons c cs ih =>
      have hcs := ih fun before after hc => h (c :: before) after (by rw [hc]; rfl)
      rw [List.cons_append, splitCommas, if_neg, hcs]
      · rfl
      · rintro ⟨rfl, heven⟩
        have := h [] cs rfl
        omega

theorem splitCommas_quoted {k rest : List Char} (hk : '"' ∉ k) (hrest : rest.count '"' % 2 = 0) :
    splitCommas (quoted k ++ rest) = (quoted k).foldr extendFirst (splitCommas rest) := by
  apply splitCommas_append
  intro before after hq
  -- what stands behind the comma is a part of the keyword and the closing quote
  obtain ⟨c, before, rfl⟩ : ∃ c b, before = c :: b := by
    cases before with
    | nil => simp [quoted] at hq
    | cons c b => exact ⟨c, b, rfl⟩
  rw [quoted, List.cons_append] at hq
  have htail := (List.cons.inj hq).2
  obtain ⟨tail, rfl⟩ : ∃ tail, after = tail ++ ['"'] := by
    cases hafter : after.getLast? with
    | none =>
        rw [List.getLast?_eq_none_iff.mp hafter] at htail
        simpa using congrArg List.getLast? htail
    | some c =>
        obtain ⟨tail, rfl⟩ := List.getLast?_eq_some_iff.mp hafter
        have := congrArg List.getLast? htail
        rw [List.getLast?_concat, ← List.cons_append, ← List.append_assoc,
          List.getLast?_concat] at this
        exact ⟨tail, by rw [Option.some.inj this]⟩
  rw [← List.cons_append, ← List.append_assoc] at htail
  have hkeyword := List.append_cancel_right htail
  have htailq : '"' ∉ tail := fun hmem => hk (by rw [hkeyword]; simp [hmem])
  rw [List.count_append, List.count_append, List.count_eq_zero.mpr htailq, List.count_singleton_self]
  omega

/-- Blanks are not split. -/
theorem splitCommas_blanks (n : Nat) (rest : List Char) :
    splitCommas (List.replicate n ' ' ++ rest)
      = (List.replicate n ' ').foldr extendFirst (splitCommas rest) := by
  apply splitCommas_append
  intro before after hb
  have hmem : ',' ∈ List.replicate n ' ' := by rw [hb]; simp
  exact absurd (List.eq_of_mem_replicate hmem) (by decide)

/-- The blanks of an inline list: inside its brackets and around each comma. -/
structure Spacing where
  opening : Nat
  closing : Nat
  beforeComma : Nat
  afterComma : Nat

section Inline
variable (s : Spacing)

/-- The keywords quoted, with a comma between them. -/
def joined (ks : List (List Char)) : List Char :=
  (List.replicate s.beforeComma ' ' ++ ',' :: List.replicate s.afterComma ' ').intercalate
    (ks.map quoted)

/-- What stands behind the opening bracket. -/
def bracketed (ks : List (List Char)) : List Char :=
  List.replicate s.opening ' ' ++ (joined s ks ++ List.replicate s.closing ' ') ++ [']']

theorem joined_cons_cons (k k' : List Char) (ks : List (List Char)) :
    joined s (k :: k' :: ks) = quoted k ++ (List.replicate s.beforeComma ' ' ++
      ',' :: (List.replicate s.afterComma ' ' ++ joined s (k' :: ks))) := by
  simp [joined, List.intercalate_cons_cons]

theorem joined_singleton (k : List Char) : joined s [k] = quoted k := by simp [joined]

theorem count_quoted {k : List Char} (hk : '"' ∉ k) : (quoted k).count '"' = 2 := by
  rw [quoted, List.count_cons_self, List.count_append, List.count_eq_zero.mpr hk,
    List.count_singleton_self]

theorem count_blanks (n : Nat) (rest : List Char) :
    (List.replicate n ' ' ++ rest).count '"' = rest.count '"' := by
  rw [List.count_append, List.count_replicate]
  simp

theorem even_joined {ks : List (List Char)} (h : ∀ k ∈ ks, '"' ∉ k) :
    (joined s ks).count '"' % 2 = 0 := by
  induction ks with
  | nil => rfl
  | cons k ks ih =>
      have hk := count_quoted (h k (by simp))
      have hks := ih fun k' hk' => h k' (by simp [hk'])
      cases ks with
      | nil => rw [joined_singleton, hk]
      | cons k' ks =>
          rw [joined_cons_cons, List.count_append, hk, count_blanks,
            List.count_cons_of_ne (by decide), count_blanks]
          omega

/-- The pieces of a list are its keywords, quoted, with blanks around them. -/
def Pieces (pieces ks : List (List Char)) : Prop :=
  List.Forall₂ (fun piece k => Unicode.strip piece = quoted k) pieces ks

theorem strip_quoted_padded (k : List Char) (n m : Nat) :
    Unicode.strip (List.replicate n ' ' ++ (quoted k ++ List.replicate m ' ')) = quoted k :=
  strip_padded (by simp [quoted]) (by simp [quoted, Unicode.space]) (by
    rw [quoted, ← List.cons_append, List.getLast?_concat]
    simp [Unicode.space]) n m

/-- **An inline list is split into its keywords.** -/
theorem splitCommas_joined {k : List Char} {ks : List (List Char)}
    (h : ∀ k' ∈ k :: ks, '"' ∉ k') (n : Nat) :
    Pieces (splitCommas (List.replicate n ' ' ++ joined s (k :: ks))) (k :: ks) := by
  induction ks generalizing k n with
  | nil =>
      have hsplit := splitCommas_quoted (h k (by simp))
        (show ([] : List Char).count '"' % 2 = 0 from rfl)
      rw [List.append_nil, splitCommas, foldr_extendFirst, List.append_nil] at hsplit
      rw [joined_singleton, splitCommas_blanks, hsplit, foldr_extendFirst]
      have hstrip := strip_quoted_padded k n 0
      rw [List.replicate_zero, List.append_nil] at hstrip
      exact .cons hstrip .nil
  | cons k' ks ih =>
      have hks : ∀ x ∈ k' :: ks, '"' ∉ x := fun x hx => h x (List.mem_cons_of_mem k hx)
      have heven : (List.replicate s.afterComma ' ' ++ joined s (k' :: ks)).count '"' % 2 = 0 := by
        rw [count_blanks]
        exact even_joined s hks
      have hcomma : splitCommas (',' :: (List.replicate s.afterComma ' ' ++ joined s (k' :: ks)))
          = [] :: splitCommas (List.replicate s.afterComma ' ' ++ joined s (k' :: ks)) := by
        rw [splitCommas, if_pos ⟨rfl, heven⟩]
      rw [joined_cons_cons, splitCommas_blanks, splitCommas_quoted (h k (by simp)),
        splitCommas_blanks, hcomma, foldr_extendFirst, foldr_extendFirst, foldr_extendFirst,
        List.append_nil]
      · exact .cons (strip_quoted_padded k n s.beforeComma) (ih hks s.afterComma)
      · rwa [count_blanks, List.count_cons_of_ne (by decide)]

/-- The keywords as `parse_scalar` leaves them. -/
def strippedKeywords (ks : List (List Char)) : List PyVal :=
  ks.map fun k => .str (String.ofList (stripQuotes k))

theorem mapM_pieces {pieces ks : List (List Char)} (h : Pieces pieces ks) :
    pieces.mapM (parseScalar u) = .ok (strippedKeywords ks) := by
  induction h with
  | nil => rfl
  | cons hstrip _ ih =>
      rw [List.mapM_cons, ih, parseScalar_quoted u hstrip]
      rfl

theorem filter_pieces {pieces ks : List (List Char)} (h : Pieces pieces ks) :
    (pieces.filter fun piece => !(Unicode.strip piece).isEmpty) = pieces := by
  induction h with
  | nil => rfl
  | cons hstrip _ ih => rw [List.filter_cons_of_pos (by rw [hstrip]; rfl), ih]

/-- A nonempty list begins and ends with a quote. -/
theorem joined_ends (k : List Char) (ks : List (List Char)) :
    (joined s (k :: ks)).head? = some '"' ∧ (joined s (k :: ks)).getLast? = some '"' := by
  induction ks generalizing k with
  | nil =>
      rw [joined_singleton, quoted, ← List.cons_append]
      exact ⟨rfl, List.getLast?_concat⟩
  | cons k' ks ih =>
      refine ⟨by rw [joined_cons_cons]; rfl, ?_⟩
      rw [joined_cons_cons, List.getLast?_append, List.getLast?_append, List.getLast?_cons,
        List.getLast?_append, (ih k').2]
      rfl

/-- **An inline list of quoted keywords**, apostrophes at their ends apart. -/
theorem parseScalar_inline {k : List Char} {ks : List (List Char)}
    (h : ∀ k' ∈ k :: ks, '"' ∉ k') :
    parseScalar u ('[' :: bracketed s (k :: ks)) = .ok (.list (strippedKeywords (k :: ks))) := by
  have hlast : ('[' :: bracketed s (k :: ks)).getLast? = some ']' := by
    rw [bracketed, ← List.cons_append, List.getLast?_concat]
  have hstrip : Unicode.strip ('[' :: bracketed s (k :: ks)) = '[' :: bracketed s (k :: ks) :=
    strip_eq_self (by simp [Unicode.space]) (by rw [hlast]; simp [Unicode.space])
  obtain ⟨hhead, hend⟩ := joined_ends s k ks
  have hne : joined s (k :: ks) ≠ [] := by
    intro hnil
    rw [hnil] at hhead
    cases hhead
  have hbody : listBody ('[' :: bracketed s (k :: ks)) = joined s (k :: ks) := by
    rw [listBody, List.drop_one, List.tail_cons, bracketed, List.dropLast_concat]
    exact strip_padded hne (by rw [hhead]; simp [Unicode.space])
      (by rw [hend]; simp [Unicode.space]) _ _
  have hpieces : Pieces (splitCommas (joined s (k :: ks))) (k :: ks) := splitCommas_joined s h 0
  have hitems : listItems ('[' :: bracketed s (k :: ks)) = splitCommas (joined s (k :: ks)) := by
    rw [listItems, hbody, filter_pieces hpieces]
  rw [parseScalar_list u (by rw [hstrip]; rfl) (by rwa [hstrip]) (by rwa [hstrip, hbody]), hstrip,
    hitems, mapM_pieces u hpieces]
  rfl

end Inline

/-! ## One line -/

theorem rstrip_behind (text : List Char) {c : Char} (hc : Unicode.space c = false)
    (rest : List Char) : rstrip (text ++ c :: rest) = text ++ c :: rstrip rest := by
  have hreverse : (text ++ c :: rest).reverse = rest.reverse ++ c :: text.reverse := by simp
  rw [rstrip, hreverse, List.dropWhile_append]
  split_ifs with h
  · rw [List.dropWhile_cons_of_neg (by simp [hc]), rstrip, List.isEmpty_iff.mp h]
    simp
  · rw [rstrip]
    simp

/-- What the loader sees of a line: not its comment, its line end or the
blanks before them. -/
def visible (body : List Char) : List Char := rstrip ((body ++ ['\n']).takeWhile (· ≠ '#'))

theorem visible_behind {text : List Char} (ht : '#' ∉ text) {c : Char}
    (hc : Unicode.space c = false) (hne : c ≠ '#') (rest : List Char) :
    visible (text ++ c :: rest) = text ++ visible (c :: rest) := by
  have htake : (text ++ c :: rest ++ ['\n']).takeWhile (· ≠ '#')
      = text ++ c :: (rest ++ ['\n']).takeWhile (· ≠ '#') := by
    rw [List.append_assoc, List.takeWhile_append_of_pos, List.cons_append,
      List.takeWhile_cons_of_pos (by simpa using hne)]
    intro c' hc'
    simpa using fun h : c' = '#' => ht (h ▸ hc')
  rw [visible, htake, rstrip_behind text hc, visible, List.cons_append,
    List.takeWhile_cons_of_pos (by simpa using hne)]
  exact congrArg (text ++ ·) (rstrip_behind [] hc _).symm

theorem visible_cons {c : Char} (hc : Unicode.space c = false) (hne : c ≠ '#')
    (rest : List Char) : visible (c :: rest) = c :: visible rest := by
  rw [visible, List.cons_append, List.takeWhile_cons_of_pos (by simpa using hne)]
  exact rstrip_behind [] hc _

/-- A line without a comment is seen whole. -/
theorem visible_eq_self {body : List Char} (h : '#' ∉ body)
    (hlast : ∀ c ∈ body.getLast?, Unicode.space c = false) : visible body = body := by
  have htake : (body ++ ['\n']).takeWhile (· ≠ '#') = body ++ ['\n'] := by
    rw [List.takeWhile_eq_self_iff]
    intro c hc
    rcases List.mem_append.mp hc with hc | hc
    · simpa using fun hne : c = '#' => h (hne ▸ hc)
    · rw [List.mem_singleton.mp hc]
      rfl
  rw [visible, htake, rstrip, List.reverse_append, List.reverse_singleton, List.singleton_append,
    List.dropWhile_cons_of_pos (by decide), ← rstrip, rstrip_eq_self hlast]

theorem hash_not_mem_visible (body : List Char) : '#' ∉ visible body := by
  intro h
  have := List.mem_takeWhile_imp (rstrip_subset _ h)
  simp at this

theorem getLast?_rstrip (text : List Char) :
    ∀ c ∈ (rstrip text).getLast?, Unicode.space c = false := by
  intro c hc
  rw [rstrip, List.getLast?_reverse] at hc
  have := List.head?_dropWhile_not Unicode.space text.reverse
  rw [Option.mem_def.mp hc] at this
  simpa using this

/-- An indented line. -/
theorem readLine_indented (l : Loader) (m : Nat) {c : Char} (hc : Unicode.space c = false)
    (hne : c ≠ '#') (rest : List Char) :
    readLine u path l (List.replicate m ' ' ++ c :: rest ++ ['\n']) =
      if "- ".toList <+: visible (c :: rest) then
        readItem u path l (List.replicate m ' ' ++ c :: rest ++ ['\n']) (visible (c :: rest)) m
      else if ':' ∈ visible (c :: rest) then
        readEntry u path l (List.replicate m ' ' ++ c :: rest ++ ['\n']) (visible (c :: rest)) m
      else .error (lineError u path "cannot parse "
        (List.replicate m ' ' ++ c :: rest ++ ['\n'])) := by
  have hhash : '#' ∉ List.replicate m ' ' := fun h => absurd (List.eq_of_mem_replicate h) (by decide)
  have hline : rstrip ((List.replicate m ' ' ++ c :: rest ++ ['\n']).takeWhile (· ≠ '#'))
      = List.replicate m ' ' ++ visible (c :: rest) := visible_behind hhash hc hne rest
  have hvisible : visible (c :: rest) = c :: visible rest := visible_cons hc hne rest
  have hlast : ∀ c' ∈ (visible (c :: rest)).getLast?, Unicode.space c' = false := getLast?_rstrip _
  have hstrip : Unicode.strip (List.replicate m ' ' ++ visible (c :: rest))
      = visible (c :: rest) := by
    rw [strip_blanks (space_blanks m)]
    exact strip_eq_self (by rw [hvisible]; simpa using hc) hlast
  have hindent : ((List.replicate m ' ' ++ visible (c :: rest)).takeWhile (· = ' ')).length = m := by
    have hblank : c ≠ ' ' := by
      rintro rfl
      exact absurd hc (by decide)
    rw [List.takeWhile_append_of_pos, hvisible, List.takeWhile_cons_of_neg (by simpa using hblank),
      List.append_nil, List.length_replicate]
    intro c' hc'
    simpa using List.eq_of_mem_replicate hc'
  rw [readLine, hline, hstrip, hindent, if_neg]
  rw [hvisible]
  exact List.cons_ne_nil _ _

/-! ## A block list -/

/-- A keyword that survives as an item of a block list. -/
def KeptItem (k : List Char) : Prop := '#' ∉ k ∧ ':' ∉ k ∧ Bare k

/-- An item of a block list, without its line end. -/
def itemLine (n : Nat) (k : List Char) : List Char :=
  List.replicate n ' ' ++ '-' :: ' ' :: quoted k

theorem visible_item (k : List Char) :
    visible ('-' :: ' ' :: quoted k) = '-' :: ' ' :: visible (quoted k) :=
  visible_behind (show '#' ∉ ['-', ' '] by simp) (by decide) (by decide) _

theorem visible_quoted {k : List Char} (h : '#' ∉ k) : visible (quoted k) = quoted k :=
  visible_eq_self (by simp [quoted, h]) (by
    rw [quoted, ← List.cons_append, List.getLast?_concat]
    simp [Unicode.space])

theorem readLine_item (l : Loader) (n : Nat) (k : List Char) :
    readLine u path l (itemLine n k ++ ['\n'])
      = readItem u path l (itemLine n k ++ ['\n']) ('-' :: ' ' :: visible (quoted k)) n := by
  rw [itemLine, readLine_indented u path l n (by decide) (by decide), visible_item, if_pos]
  exact ⟨_, rfl⟩

/-- What is appended for the text of an item: a string, or an entry when it
has a colon. -/
theorem readItem_append {l : Loader} {raw item : List Char} {n : Nat} {l' : Loader}
    (h : readItem u path l raw ('-' :: ' ' :: item) n = .ok l') :
    ∃ values v, l.root.at? (l.parent n) = some (.list values) ∧
      l'.root = l.root.modifyAt (PyVal.append v) (l.parent n) ∧
      (':' ∉ item ∧ parseScalar u item = .ok v ∧ l'.stack = l.opened n ∨
        ':' ∈ item ∧ (∃ entries, v = .dict entries) ∧
          l'.stack = (n, l.parent n ++ [.index values.length]) :: l.opened n) := by
  simp only [readItem] at h
  split at h
  case h_1 values hvalues =>
      refine ⟨values, ?_⟩
      split_ifs at h with hcolon
      · obtain ⟨v, hv, hl'⟩ := bind_ok h
        cases hl'
        exact ⟨_, hvalues, rfl, .inr ⟨hcolon, ⟨_, rfl⟩, rfl⟩⟩
      · obtain ⟨v, hv, hl'⟩ := bind_ok h
        cases hl'
        exact ⟨v, hvalues, rfl, .inl ⟨hcolon, hv, rfl⟩⟩
  case h_2 => cases h

/-- The text of a quoted item is read as a string. -/
theorem parseScalar_visible (k : List Char) :
    parseScalar u (visible (quoted k)) = .ok (.str (String.ofList (stripQuotes (visible (quoted k))))) := by
  have hcons : visible (quoted k) = '"' :: visible (k ++ ['"']) :=
    visible_cons (by decide) (by decide) _
  have hstrip : Unicode.strip (visible (quoted k)) = visible (quoted k) :=
    strip_eq_self (by rw [hcons]; simp [Unicode.space]) (getLast?_rstrip _)
  rw [parseScalar_quote u (by rw [hstrip, hcons]; rfl), hstrip]

/-- **The string of an item** is the keyword when nothing is cut off it. -/
theorem stripQuotes_visible {k : List Char} (hq : '"' ∉ k) :
    stripQuotes (visible (quoted k)) = k ↔ '#' ∉ k ∧ Bare k := by
  by_cases hk : '#' ∈ k
  · refine iff_of_false (fun h => ?_) fun h => h.1 hk
    have hsub := stripQuotes_subset (visible (quoted k))
    rw [h] at hsub
    exact hash_not_mem_visible (quoted k) (hsub hk)
  · rw [visible_quoted hk, stripQuotes_quoted, stripQuotes_eq_self_iff hq]
    exact (and_iff_right hk).symm

/-- What is appended is the keyword exactly when it survives. -/
theorem appended_iff {k : List Char} (hq : '"' ∉ k) {v : PyVal}
    (h : ':' ∉ visible (quoted k) ∧ parseScalar u (visible (quoted k)) = .ok v ∨
      ':' ∈ visible (quoted k) ∧ ∃ entries, v = .dict entries) :
    v = .str (String.ofList k) ↔ KeptItem k := by
  rcases h with ⟨hcolon, hv⟩ | ⟨hcolon, entries, rfl⟩
  · rw [parseScalar_visible] at hv
    cases hv
    have hiff := stripQuotes_visible hq
    constructor
    · intro hstr
      obtain ⟨hhash, hbare⟩ := hiff.mp (String.ofList_injective (PyVal.str.inj hstr))
      rw [visible_quoted hhash] at hcolon
      exact ⟨hhash, fun hmem => hcolon (by simp [quoted, hmem]), hbare⟩
    · rintro ⟨hhash, -, hbare⟩
      rw [hiff.mpr ⟨hhash, hbare⟩]
  · refine iff_of_false (by rintro ⟨⟩) fun ⟨hhash, hk, _⟩ => ?_
    rw [visible_quoted hhash] at hcolon
    simp [quoted, hk] at hcolon

/-- The loader while it collects the items at indentation `n` of the list
at `place`. -/
structure Collecting (place : List Place) (n : Nat) (values : List PyVal) (l : Loader) : Prop where
  list : l.root.at? place = some (.list values)
  parent : l.parent n = place

theorem opened_opened {l l' : Loader} {n : Nat} {e : Nat × List Place} (he : n ≤ e.1)
    (h : l'.stack = l.opened n ∨ l'.stack = e :: l.opened n) : l'.opened n = l.opened n := by
  have hidem : (l.opened n).dropWhile (fun e => decide (n ≤ e.1)) = l.opened n :=
    List.dropWhile_idempotent ..
  rcases h with h | h
  · rw [Loader.opened, h, hidem]
  · rw [Loader.opened, h, List.dropWhile_cons_of_pos (by simpa using he), hidem]

/-- One item is appended. -/
theorem Collecting.item {place : List Place} {n : Nat} {values : List PyVal} {l l' : Loader}
    (hl : Collecting place n values l) {k : List Char} (hq : '"' ∉ k)
    (h : readLine u path l (itemLine n k ++ ['\n']) = .ok l') :
    ∃ v, Collecting place n (values ++ [v]) l' ∧ (v = .str (String.ofList k) ↔ KeptItem k) := by
  rw [readLine_item] at h
  obtain ⟨values', v, hvalues, hroot, hcase⟩ := readItem_append u path h
  rw [hl.parent, hl.list] at hvalues
  cases hvalues
  have hopened : l'.opened n = l.opened n := by
    rcases hcase with ⟨-, -, hstack⟩ | ⟨-, -, hstack⟩
    · exact opened_opened (e := (n, [])) le_rfl (.inl hstack)
    · exact opened_opened le_rfl (.inr hstack)
  refine ⟨v, ⟨?_, ?_⟩, ?_⟩
  · rw [hroot, hl.parent, PyVal.at?_modifyAt hl.list]
    rfl
  · rw [Loader.parent, hopened, ← Loader.parent, hl.parent]
  · apply appended_iff u hq
    rcases hcase with ⟨hcolon, hv, -⟩ | ⟨hcolon, hv, -⟩
    · exact .inl ⟨hcolon, hv⟩
    · exact .inr ⟨hcolon, hv⟩

/-- An item that survives is read. -/
theorem Collecting.reads {place : List Place} {n : Nat} {values : List PyVal} {l : Loader}
    (hl : Collecting place n values l) {k : List Char} (hk : KeptItem k) :
    ∃ l', readLine u path l (itemLine n k ++ ['\n']) = .ok l' := by
  have hcolon : ':' ∉ quoted k := by simp [quoted, hk.2.1]
  rw [readLine_item, readItem, hl.parent, hl.list, visible_quoted hk.1]
  refine ⟨⟨l.root.modifyAt (PyVal.append (.str (String.ofList (stripQuotes k)))) place,
    l.opened n⟩, ?_⟩
  have hscalar := parseScalar_quoted u (strip_quoted k)
  show (if ':' ∉ quoted k then _ else _) = _
  rw [if_pos hcolon]
  exact bind_of_ok hscalar

/-- The items of a block list. -/
def itemLines (n : Nat) (ks : List (List Char)) : List Char :=
  ks.flatMap fun k => itemLine n k ++ ['\n']

theorem readLines_items {n : Nat} {k : List Char} (hk : '\n' ∉ k ∧ '\r' ∉ k)
    (ks : List (List Char)) (l : Loader) :
    readLines u path l (itemLines n (k :: ks))
      = readLine u path l (itemLine n k ++ ['\n']) >>=
        fun l' => readLines u path l' (itemLines n ks) := by
  have hrest : itemLines n (k :: ks) = itemLine n k ++ '\n' :: itemLines n ks := by
    rw [itemLines, List.flatMap_cons, List.append_assoc]
    rfl
  have hblank : ∀ c ∈ List.replicate n ' ', c = ' ' := fun c hc => List.eq_of_mem_replicate hc
  rw [hrest, readLines_line]
  · intro h
    rcases List.mem_append.mp h with h | h
    · exact absurd (hblank _ h) (by decide)
    · simp [quoted, hk.1] at h
  · intro h
    rcases List.mem_append.mp h with h | h
    · exact absurd (hblank _ h) (by decide)
    · simp [quoted, hk.2] at h

/-- A keyword without quotes and line ends. -/
structure Writable (k : List Char) : Prop where
  quote : '"' ∉ k
  newline : '\n' ∉ k ∧ '\r' ∉ k

/-- **The items of a block list** are appended in order, each the keyword
exactly when it survives. -/
theorem Collecting.run {place : List Place} {n : Nat} {ks : List (List Char)}
    (hks : ∀ k ∈ ks, Writable k) {values : List PyVal} {l l' : Loader}
    (hl : Collecting place n values l) (h : readLines u path l (itemLines n ks) = .ok l') :
    ∃ vs, l'.root.at? place = some (.list (values ++ vs)) ∧
      List.Forall₂ (fun v k => v = .str (String.ofList k) ↔ KeptItem k) vs ks := by
  induction ks generalizing values l with
  | nil =>
      cases h
      exact ⟨[], by rw [List.append_nil, hl.list], .nil⟩
  | cons k ks ih =>
      have hk := hks k (by simp)
      rw [readLines_items u path hk.newline] at h
      obtain ⟨l₁, hline, hrest⟩ := bind_ok h
      obtain ⟨v, hl₁, hv⟩ := hl.item u path hk.quote hline
      obtain ⟨vs, hvs, hall⟩ := ih (fun k hk => hks k (by simp [hk])) hl₁ hrest
      exact ⟨v :: vs, by rw [hvs, List.append_assoc]; rfl, .cons hv hall⟩

theorem Collecting.runs {place : List Place} {n : Nat} {ks : List (List Char)}
    (hks : ∀ k ∈ ks, Writable k) (hkept : ∀ k ∈ ks, KeptItem k) {values : List PyVal} {l : Loader}
    (hl : Collecting place n values l) :
    ∃ l', readLines u path l (itemLines n ks) = .ok l' := by
  induction ks generalizing values l with
  | nil => exact ⟨l, rfl⟩
  | cons k ks ih =>
      have hk := hks k (by simp)
      obtain ⟨l₁, hline⟩ := hl.reads u path (hkept k (by simp))
      obtain ⟨v, hl₁, -⟩ := hl.item u path hk.quote hline
      obtain ⟨l', hrest⟩ := ih (fun k hk => hks k (by simp [hk]))
        (fun k hk => hkept k (by simp [hk])) hl₁
      exact ⟨l', by rw [readLines_items u path hk.newline, hline]; exact hrest⟩

/-- The loader at items that are not deeper than the `keywords` line: the
list stays as it was opened. -/
structure Outside (place : List Place) (n : Nat) (l : Loader) : Prop where
  list : l.root.at? place = some (.list [])
  deep : 0 < place.length
  below : ∀ e ∈ l.opened n, e.2.length < place.length

theorem Outside.item {place : List Place} {n : Nat} {l l' : Loader} (hl : Outside place n l)
    {k : List Char} (h : readLine u path l (itemLine n k ++ ['\n']) = .ok l') :
    Outside place n l' := by
  rw [readLine_item] at h
  obtain ⟨values, v, hvalues, hroot, hcase⟩ := readItem_append u path h
  have hopened : l'.opened n = l.opened n := by
    rcases hcase with ⟨-, -, hstack⟩ | ⟨-, -, hstack⟩
    · exact opened_opened (e := (n, [])) le_rfl (.inl hstack)
    · exact opened_opened le_rfl (.inr hstack)
  have hway : (l.parent n).length < place.length := by
    rw [Loader.parent]
    cases hopen : l.opened n with
    | nil => exact hl.deep
    | cons e rest => exact hl.below e (by rw [hopen]; simp)
  refine ⟨?_, hl.deep, by rw [hopened]; exact hl.below⟩
  have hbelow : ¬place <+: l.parent n := by
    intro hprefix
    have := hprefix.length_le
    omega
  rw [hroot, PyVal.at?_append_apart hvalues (PyVal.apart_of_exists hvalues hl.list hbelow)]
  exact hl.list

theorem Outside.run {place : List Place} {n : Nat} {ks : List (List Char)}
    (hks : ∀ k ∈ ks, Writable k) {l l' : Loader} (hl : Outside place n l)
    (h : readLines u path l (itemLines n ks) = .ok l') : Outside place n l' := by
  induction ks generalizing l with
  | nil => cases h; exact hl
  | cons k ks ih =>
      rw [readLines_items u path (hks k (by simp)).newline] at h
      obtain ⟨l₁, hline, hrest⟩ := bind_ok h
      exact ih (fun k hk => hks k (by simp [hk])) (hl.item u path hline) hrest

/-! ## The `keywords` line -/

/-- The line of the key, before what follows its colon. -/
def keyStart (m : Nat) : List Char := List.replicate m ' ' ++ "keywords:".toList

/-- The way to the list of a key read into the object at `way`. -/
def keywordsPlace (way : List Place) : List Place := way ++ [.key "keywords"]

theorem at?_assign {root : PyVal} {way : List Place} {entries : Dict}
    (h : root.at? way = some (.dict entries)) (value : PyVal) :
    (root.modifyAt (PyVal.assign "keywords" value) way).at? (keywordsPlace way) = some value := by
  rw [keywordsPlace, PyVal.at?_append, PyVal.at?_modifyAt h]
  show ((OrderedDict.setItem entries "keywords" value).lookup "keywords").bind _ = _
  rw [OrderedDict.lookup_setItem_eq]
  rfl

/-- The key alone opens a list. -/
theorem readLine_key {l : Loader} {m : Nat} {entries : Dict}
    (h : l.root.at? (l.parent m) = some (.dict entries)) :
    readLine u path l (keyStart m ++ ['\n'])
      = .ok ⟨l.root.modifyAt (PyVal.assign "keywords" (.list [])) (l.parent m),
          (m, keywordsPlace (l.parent m)) :: l.opened m⟩ := by
  have hvisible : visible "keywords:".toList = "keywords:".toList :=
    visible_eq_self (by decide) (by simp [Unicode.space])
  have hline := readLine_indented u path l m (show Unicode.space 'k' = false by decide) (by decide)
    "eywords:".toList
  rw [show 'k' :: "eywords:".toList = "keywords:".toList from rfl, hvisible] at hline
  rw [keyStart, hline, if_neg (by decide), if_pos (by decide), readEntry, h]
  rfl

/-- The key with a value behind it. -/
theorem readLine_keyValue {l : Loader} {m : Nat} {entries : Dict}
    (h : l.root.at? (l.parent m) = some (.dict entries)) (rest : List Char) :
    readLine u path l (keyStart m ++ ' ' :: '[' :: rest ++ ['\n'])
      = parseScalar u (visible ('[' :: rest)) >>= fun value =>
          .ok ⟨l.root.modifyAt (PyVal.assign "keywords" value) (l.parent m), l.opened m⟩ := by
  have hcons : visible ('[' :: rest) = '[' :: visible rest :=
    visible_cons (by decide) (by decide) rest
  have hvisible : visible ("keywords: ".toList ++ '[' :: rest)
      = "keywords: ".toList ++ visible ('[' :: rest) :=
    visible_behind (by decide) (by decide) (by decide) rest
  have hvalue : Unicode.strip (' ' :: visible ('[' :: rest)) = visible ('[' :: rest) := by
    have hblank : Unicode.strip (' ' :: visible ('[' :: rest)) = Unicode.strip (visible ('[' :: rest)) :=
      strip_blanks (space_blanks 1)
    rw [hblank]
    exact strip_eq_self (by rw [hcons]; simp [Unicode.space]) (getLast?_rstrip _)
  have hline := readLine_indented u path l m (show Unicode.space 'k' = false by decide) (by decide)
    ("eywords: ".toList ++ '[' :: rest)
  rw [show 'k' :: ("eywords: ".toList ++ '[' :: rest) = "keywords: ".toList ++ '[' :: rest from rfl,
    hvisible] at hline
  have hshape : keyStart m ++ ' ' :: '[' :: rest
      = List.replicate m ' ' ++ ("keywords: ".toList ++ '[' :: rest) := by
    rw [keyStart, List.append_assoc]
    rfl
  rw [hshape, hline, if_neg, if_pos (by simp), readEntry]
  · have hdrop : (("keywords: ".toList ++ visible ('[' :: rest)).dropWhile (· ≠ ':')).drop 1
        = ' ' :: visible ('[' :: rest) := rfl
    have htake : ("keywords: ".toList ++ visible ('[' :: rest)).takeWhile (· ≠ ':')
        = "keywords".toList := rfl
    rw [hdrop, htake, hvalue, h]
    simp only [hcons, ne_eq, reduceCtorEq, not_false_eq_true, if_true]
    rfl
  · rintro ⟨t, ht⟩
    cases ht

/-! ## Both layouts -/

/-- A keyword of the policies in question: nonempty printable ASCII without
double quotes and backslashes. -/
structure Printable (k : List Char) : Prop where
  nonempty : k ≠ []
  ascii : ∀ c ∈ k, 32 ≤ c.toNat ∧ c.toNat ≤ 126 ∧ c ≠ '"' ∧ c ≠ '\\'

theorem Printable.of_all {k : List Char} (hne : k ≠ [])
    (h : k.all fun c => decide (32 ≤ c.toNat ∧ c.toNat ≤ 126 ∧ c ≠ '"' ∧ c ≠ '\\')) :
    Printable k :=
  ⟨hne, fun c hc => of_decide_eq_true (List.all_eq_true.mp h c hc)⟩

theorem Printable.writable {k : List Char} (h : Printable k) : Writable k where
  quote hmem := (h.ascii _ hmem).2.2.1 rfl
  newline := by
    constructor
    · intro hmem
      exact absurd (h.ascii _ hmem).1 (by decide)
    · intro hmem
      exact absurd (h.ascii _ hmem).1 (by decide)

/-- How a list is written: on the line of its key, or as items indented by
so many blanks. -/
inductive ListLayout where
  | inline (s : Spacing)
  | block (indent : Nat)

/-- The `keywords` key at indentation `m` with its list. -/
def keywordText (m : Nat) : ListLayout → List (List Char) → List Char
  | .inline s, ks => keyStart m ++ ' ' :: '[' :: bracketed s ks ++ ['\n']
  | .block n, ks => keyStart m ++ '\n' :: itemLines n ks

/-- **When a list survives**: no keyword has a `#` in it or an apostrophe at
an end, and as items they have no colon either and are deeper than the key. -/
def Survives (m : Nat) : ListLayout → List (List Char) → Prop
  | .inline _, ks => ∀ k ∈ ks, '#' ∉ k ∧ Bare k
  | .block n, ks => m < n ∧ ∀ k ∈ ks, KeptItem k

instance (k : List Char) : Decidable (Bare k) := inferInstanceAs (Decidable (_ ∧ _))

instance (k : List Char) : Decidable (KeptItem k) := inferInstanceAs (Decidable (_ ∧ _))

instance (m : Nat) (layout : ListLayout) (ks : List (List Char)) :
    Decidable (Survives m layout ks) :=
  match layout with
  | .inline _ => inferInstanceAs (Decidable (∀ k ∈ ks, '#' ∉ k ∧ Bare k))
  | .block n => inferInstanceAs (Decidable (m < n ∧ ∀ k ∈ ks, KeptItem k))

/-- The list of strings. -/
def keywordValues (ks : List (List Char)) : PyVal := .list (ks.map fun k => .str (String.ofList k))

/-- A character that is neither in the keywords nor part of the layout. -/
theorem not_mem_bracketed {c : Char} (hc : c ≠ '"' ∧ c ≠ ',' ∧ c ≠ ' ' ∧ c ≠ ']') (s : Spacing)
    {ks : List (List Char)} (hks : ∀ k ∈ ks, c ∉ k) : c ∉ bracketed s ks := by
  have hblanks : ∀ n, c ∉ List.replicate n ' ' := fun n hmem =>
    hc.2.2.1 (List.eq_of_mem_replicate hmem)
  have hjoined : c ∉ joined s ks := by
    induction ks with
    | nil => simp [joined]
    | cons k ks ih =>
        have hk := hks k (by simp)
        have ihks := ih fun k' hk' => hks k' (by simp [hk'])
        cases ks with
        | nil =>
            rw [joined_singleton, quoted]
            simp [hc, hk]
        | cons k' ks =>
            rw [joined_cons_cons, quoted]
            simp only [List.mem_append, List.mem_cons, hblanks, hc.1, hc.2.1, hk, ihks,
              List.not_mem_nil, or_self, not_false_eq_true]
  rw [bracketed]
  simp only [List.mem_append, List.mem_cons, hblanks, hjoined, hc.2.2.2, List.not_mem_nil, or_self,
    not_false_eq_true]

theorem newline_not_mem_keyStart (m : Nat) : '\n' ∉ keyStart m ∧ '\r' ∉ keyStart m := by
  simp [keyStart, List.mem_replicate]

theorem strippedKeywords_eq_iff {ks : List (List Char)} (hks : ∀ k ∈ ks, Writable k) :
    PyVal.list (strippedKeywords ks) = keywordValues ks ↔ ∀ k ∈ ks, Bare k := by
  have hone : ∀ k ∈ ks, PyVal.str (String.ofList (stripQuotes k)) = .str (String.ofList k)
      ↔ Bare k := by
    intro k hk
    rw [← stripQuotes_eq_self_iff (hks k hk).quote]
    constructor
    · intro h
      exact String.ofList_injective (PyVal.str.inj h)
    · intro h
      rw [h]
  rw [strippedKeywords, keywordValues, PyVal.list.injEq, List.map_inj_left]
  exact forall₂_congr hone

/-- **An inline list**, written where a mapping is open. -/
theorem inline_survives_iff {l : Loader} {m : Nat} {entries : Dict}
    (h : l.root.at? (l.parent m) = some (.dict entries)) (s : Spacing) {ks : List (List Char)}
    (hne : ks ≠ []) (hks : ∀ k ∈ ks, Writable k) :
    (∃ l', readLines u path l (keywordText m (.inline s) ks) = .ok l' ∧
        l'.root.at? (keywordsPlace (l.parent m)) = some (keywordValues ks))
      ↔ Survives m (.inline s) ks := by
  obtain ⟨k, ks, rfl⟩ := List.exists_cons_of_ne_nil hne
  have hline := not_mem_bracketed (c := '\n') (by decide) s fun k' hk' => (hks k' hk').newline.1
  have hreturn := not_mem_bracketed (c := '\r') (by decide) s fun k' hk' => (hks k' hk').newline.2
  have hstart := newline_not_mem_keyStart m
  have hread : readLines u path l (keywordText m (.inline s) (k :: ks))
      = (parseScalar u (visible ('[' :: bracketed s (k :: ks))) >>= fun value =>
          .ok ⟨l.root.modifyAt (PyVal.assign "keywords" value) (l.parent m), l.opened m⟩) >>=
        fun l' => readLines u path l' [] := by
    rw [← readLine_keyValue u path h, keywordText, readLines_line]
    · simp [hstart.1, hline]
    · simp [hstart.2, hreturn]
  by_cases hhash : ∀ k' ∈ k :: ks, '#' ∉ k'
  · have hnone : '#' ∉ bracketed s (k :: ks) := not_mem_bracketed (by decide) s hhash
    have hvisible : visible ('[' :: bracketed s (k :: ks)) = '[' :: bracketed s (k :: ks) := by
      refine visible_eq_self (by simp [hnone]) ?_
      rw [bracketed, ← List.cons_append, List.getLast?_concat]
      simp [Unicode.space]
    have hparse := parseScalar_inline u s fun k' hk' => (hks k' hk').quote
    rw [hread, hvisible, hparse]
    have hiff := strippedKeywords_eq_iff hks
    constructor
    · rintro ⟨l', hl', hvalues⟩
      cases hl'
      rw [at?_assign h, Option.some.injEq] at hvalues
      exact fun k' hk' => ⟨hhash k' hk', hiff.mp hvalues k' hk'⟩
    · intro hs
      refine ⟨_, rfl, ?_⟩
      rw [at?_assign h, hiff.mpr fun k' hk' => (hs k' hk').2]
  · refine iff_of_false ?_ fun hs => hhash fun k' hk' => (hs k' hk').1
    rintro ⟨l', hl', hvalues⟩
    apply hhash
    intro k' hk' hmem
    rw [hread] at hl'
    obtain ⟨l₁, hl₁, hnil⟩ := bind_ok hl'
    obtain ⟨value, hvalue, hassign⟩ := bind_ok hl₁
    cases hnil
    cases hassign
    rw [at?_assign h, Option.some.injEq] at hvalues
    rw [hvalues] at hvalue
    -- the string with the `#` would have been read from a text without one
    have hsub := parseScalar_list_subset u hvalue (s := String.ofList k')
      (List.mem_map.mpr ⟨k', hk', rfl⟩)
    rw [String.toList_ofList] at hsub
    exact hash_not_mem_visible _ (hsub hmem)

/-- Values that are the images of their keys exactly under a condition. -/
theorem forall₂_eq_map_iff {α β : Type} {f : α → β} {P : α → Prop} {ys : List β} {xs : List α}
    (h : List.Forall₂ (fun y x => y = f x ↔ P x) ys xs) : ys = xs.map f ↔ ∀ x ∈ xs, P x := by
  induction h with
  | nil => simp
  | cons hxy _ ih => rw [List.map_cons, List.cons_eq_cons, hxy, ih, List.forall_mem_cons]

/-- **A block list**, written where a mapping is open. -/
theorem block_survives_iff {l : Loader} {m : Nat} {entries : Dict} (hlayered : Layered l.stack)
    (h : l.root.at? (l.parent m) = some (.dict entries)) (n : Nat) {ks : List (List Char)}
    (hne : ks ≠ []) (hks : ∀ k ∈ ks, Writable k) :
    (∃ l', readLines u path l (keywordText m (.block n) ks) = .ok l' ∧
        l'.root.at? (keywordsPlace (l.parent m)) = some (keywordValues ks))
      ↔ Survives m (.block n) ks := by
  have hstart := newline_not_mem_keyStart m
  have hat := at?_assign h (.list [])
  rw [keywordText, readLines_line u path hstart.1 hstart.2, readLine_key u path h]
  show (∃ l', readLines u path _ (itemLines n ks) = .ok l' ∧ _) ↔ _
  set l₁ : Loader := ⟨l.root.modifyAt (PyVal.assign "keywords" (.list [])) (l.parent m),
    (m, keywordsPlace (l.parent m)) :: l.opened m⟩ with hl₁
  by_cases hn : m < n
  · have hparent : l₁.parent n = keywordsPlace (l.parent m) := by
      rw [Loader.parent, Loader.opened, hl₁, List.dropWhile_cons_of_neg (by simpa using hn)]
      rfl
    have hcollect : Collecting (keywordsPlace (l.parent m)) n [] l₁ := ⟨hat, hparent⟩
    constructor
    · rintro ⟨l', hread, hvalues⟩
      obtain ⟨vs, hvs, hall⟩ := hcollect.run u path hks hread
      rw [hvs, List.nil_append, Option.some.injEq, keywordValues, PyVal.list.injEq] at hvalues
      exact ⟨hn, (forall₂_eq_map_iff hall).mp hvalues⟩
    · rintro ⟨-, hkept⟩
      obtain ⟨l', hread⟩ := hcollect.runs u path hks hkept
      obtain ⟨vs, hvs, hall⟩ := hcollect.run u path hks hread
      exact ⟨l', hread, by rw [hvs, (forall₂_eq_map_iff hall).mpr hkept]; rfl⟩
  · have houtside : Outside (keywordsPlace (l.parent m)) n l₁ := by
      have hlen : (keywordsPlace (l.parent m)).length = (l.parent m).length + 1 := by
        rw [keywordsPlace, List.length_append, List.length_singleton]
      refine ⟨hat, by omega, fun e he => ?_⟩
      rw [Loader.opened, hl₁, List.dropWhile_cons_of_pos (by simpa using hn)] at he
      have hle := (hlayered.opened m).length_le e ((List.dropWhile_sublist _).subset he)
      rw [Loader.parent] at hlen ⊢
      omega
    refine iff_of_false ?_ fun hs => hn hs.1
    rintro ⟨l', hread, hvalues⟩
    rw [(houtside.run u path hks hread).list] at hvalues
    cases ks with
    | nil => exact hne rfl
    | cons k ks => cases hvalues

theorem list_survives_iff {l : Loader} {m : Nat} {entries : Dict} (hlayered : Layered l.stack)
    (h : l.root.at? (l.parent m) = some (.dict entries)) (layout : ListLayout) {ks : List (List Char)}
    (hne : ks ≠ []) (hks : ∀ k ∈ ks, Writable k) :
    (∃ l', readLines u path l (keywordText m layout ks) = .ok l' ∧
        l'.root.at? (keywordsPlace (l.parent m)) = some (keywordValues ks))
      ↔ Survives m layout ks := by
  cases layout with
  | inline s => exact inline_survives_iff u path h s hne hks
  | block n => exact block_survives_iff u path hlayered h n hne hks

/-- A text of whole lines. -/
def WholeLines (text : List Char) : Prop := text = [] ∨ text.getLast? = some '\n'

theorem readLines_append {before : List Char} (hbefore : WholeLines before) (rest : List Char)
    (l : Loader) :
    readLines u path l (before ++ rest)
      = readLines u path l before >>= fun l' => readLines u path l' rest := by
  rcases hbefore with rfl | hbefore
  · rfl
  · obtain ⟨text, rfl⟩ := List.getLast?_eq_some_iff.mp hbefore
    rw [List.append_assoc, List.singleton_append, readLines_behind]

theorem wholeLines_keywordText (m : Nat) (layout : ListLayout) (ks : List (List Char)) :
    WholeLines (keywordText m layout ks) := by
  refine .inr ?_
  cases layout with
  | inline s => rw [keywordText, List.getLast?_concat]
  | block n =>
      rw [keywordText, List.getLast?_append]
      induction ks using List.reverseRecOn with
      | nil => rfl
      | append_singleton ks k _ =>
          rw [itemLines, List.flatMap_append, List.flatMap_singleton, ← List.append_assoc,
            ← List.cons_append, List.getLast?_concat]
          rfl

/-- The text behind a list can be read there, and no line of it writes at the
place of the list, above it or inside it. -/
def SparesList (l : Loader) (m : Nat) (layout : ListLayout) (ks : List (List Char))
    (after : List Char) : Prop :=
  ∀ l', readLines u path l (keywordText m layout ks) = .ok l' →
    spares u path (keywordsPlace (l.parent m)) l' (fileLines (universalNewlines after)) = true

/-- **Quoted keywords survive policy loading** exactly without `#`, without
apostrophes at their ends and, as items, without colons: behind every text
that leaves a mapping open, and in front of every text that does not write
the list again. -/
theorem quoted_keywords_survive_iff {jsonLoad : List Char → Except PyError PyVal}
    (hsuffix : path.suffix ≠ ".json") {before : List Char} (hbefore : WholeLines before)
    {l : Loader} (hl : readLines u path .initial before = .ok l) {m : Nat} {entries : Dict}
    (hparent : l.root.at? (l.parent m) = some (.dict entries)) (layout : ListLayout)
    {ks : List (List Char)} (hne : ks ≠ []) (hks : ∀ k ∈ ks, Printable k) {after : List Char}
    (hafter : SparesList u path l m layout ks after) :
    (∃ root, loadPolicy u path jsonLoad (before ++ keywordText m layout ks ++ after) = .ok root ∧
        root.at? (keywordsPlace (l.parent m)) = some (keywordValues ks))
      ↔ Survives m layout ks := by
  have hread : readLines u path .initial (before ++ keywordText m layout ks ++ after)
      = readLines u path l (keywordText m layout ks) >>= fun l' => readLines u path l' after := by
    rw [List.append_assoc, readLines_append u path hbefore, hl]
    exact readLines_append u path (wholeLines_keywordText m layout ks) after l
  rw [← list_survives_iff u path (layered_lines u path hl) hparent layout hne
    fun k hk => (hks k hk).writable]
  rw [loadPolicy, if_neg hsuffix, hread]
  constructor
  · rintro ⟨root, hload, hvalues⟩
    obtain ⟨l₂, hl₂, hroot⟩ := bind_ok hload
    obtain ⟨l₁, hl₁, hrest⟩ := bind_ok hl₂
    cases hroot
    obtain ⟨l', hl', hplace⟩ := spares_run u path (hafter l₁ hl₁)
    obtain rfl : l₂ = l' := Except.ok.inj (hrest.symm.trans hl')
    exact ⟨l₁, hl₁, by rw [← hplace, hvalues]⟩
  · rintro ⟨l₁, hl₁, hvalues⟩
    obtain ⟨l', hl', hplace⟩ := spares_run u path (hafter l₁ hl₁)
    have hall : (readLines u path l (keywordText m layout ks) >>= fun l' => readLines u path l' after)
        = .ok l' := (bind_of_ok hl₁).trans hl'
    exact ⟨l'.root, bind_of_ok hall, by rw [hplace, hvalues]⟩

/-! ## A policy file -/

/-- A policy file up to the keywords of its first rule. -/
def codeBefore : List Char :=
  "routing:\n  signals:\n    keywords:\n      - name: code\n        method: ngram\n".toList

/-- The rest of it, with a second rule and the decisions. -/
def codeAfter : List Char :=
  "        case_sensitive: false\n      - name: math\n        keywords: [\"solve\"]\n  decisions:\n".toList

/-- Two keywords with characters that mean something to YAML. -/
def codeKeywords : List (List Char) := ["a, [b]: c".toList, "42".toList]

section Code

/-- The path of the file. -/
def codePath : PolicyPath := ⟨"policy.yaml", ".yaml"⟩

/-- The loader at the keywords of the first rule. -/
def codeLoader : Loader :=
  (readLines Unicode.asciiTables codePath .initial codeBefore).toOption.getD .initial

theorem codeBefore_read :
    readLines Unicode.asciiTables codePath .initial codeBefore = .ok codeLoader := by
  have hok : (readLines Unicode.asciiTables codePath .initial codeBefore).toOption.isSome := by
    decide +kernel
  unfold codeLoader
  cases hread : readLines Unicode.asciiTables codePath .initial codeBefore with
  | error e => rw [hread] at hok; cases hok
  | ok l => rfl

theorem codeLoader_parent : codeLoader.parent 8
    = [.key "routing", .key "signals", .key "keywords", .index 0] := by
  decide +kernel

theorem codeLoader_open :
    ∃ entries, codeLoader.root.at? (codeLoader.parent 8) = some (.dict entries) := by
  have hdict : ((codeLoader.root.at? (codeLoader.parent 8)).bind PyVal.asDict).isSome := by
    decide +kernel
  obtain ⟨entries, hentries⟩ := Option.isSome_iff_exists.mp hdict
  obtain ⟨value, hvalue, hentries⟩ := Option.bind_eq_some_iff.mp hentries
  cases value with
  | dict entries' => exact ⟨entries', hvalue⟩
  | _ => cases hentries

theorem codeAfter_spares : SparesList Unicode.asciiTables codePath codeLoader 8
    (.inline ⟨0, 1, 0, 2⟩) codeKeywords codeAfter := by
  have hspares : ((readLines Unicode.asciiTables codePath codeLoader
      (keywordText 8 (.inline ⟨0, 1, 0, 2⟩) codeKeywords)).toOption.all fun l' =>
        spares Unicode.asciiTables codePath (keywordsPlace (codeLoader.parent 8)) l'
          (fileLines (universalNewlines codeAfter))) = true := by decide +kernel
  intro l' hl'
  rw [hl'] at hspares
  exact hspares

/-- The file is loaded, and its first rule has these keywords. -/
theorem quoted_keywords_survive_code :
    ∃ root, loadPolicy Unicode.asciiTables codePath (fun _ => .error .conversion)
        (codeBefore ++ keywordText 8 (.inline ⟨0, 1, 0, 2⟩) codeKeywords ++ codeAfter) = .ok root ∧
      root.at? [.key "routing", .key "signals", .key "keywords", .index 0, .key "keywords"]
        = some (keywordValues codeKeywords) := by
  obtain ⟨entries, hopen⟩ := codeLoader_open
  have hprintable : ∀ k ∈ codeKeywords, Printable k := by
    intro k hk
    rcases List.mem_cons.mp hk with rfl | hk
    · exact .of_all (by decide) rfl
    · rw [List.mem_singleton.mp hk]
      exact .of_all (by decide) rfl
  have hplace : keywordsPlace (codeLoader.parent 8)
      = [.key "routing", .key "signals", .key "keywords", .index 0, .key "keywords"] := by
    rw [codeLoader_parent]
    rfl
  rw [← hplace]
  exact (quoted_keywords_survive_iff Unicode.asciiTables codePath (by decide) (.inr (by decide))
    codeBefore_read hopen _ (by decide) hprintable codeAfter_spares).mpr (by decide)

end Code

/-- The keyword `c#` of a policy that is nothing but its list is lost. -/
theorem quoted_keywords_survive_fails :
    ¬∀ (u : Unicode) (path : PolicyPath) (jsonLoad : List Char → Except PyError PyVal),
      path.suffix ≠ ".json" → ∀ (layout : ListLayout) (ks : List (List Char)), ks ≠ [] →
        (∀ k ∈ ks, Printable k) → (∀ n, layout = .block n → 0 < n) →
        ∃ root, loadPolicy u path jsonLoad (keywordText 0 layout ks) = .ok root ∧
          root.at? (keywordsPlace []) = some (keywordValues ks) := by
  intro h
  have hprintable : ∀ k ∈ ["c#".toList], Printable k := by
    intro k hk
    rw [List.mem_singleton.mp hk]
    exact .of_all (by decide) rfl
  obtain ⟨root, hload, hvalues⟩ := h Unicode.asciiTables ⟨"policy.yaml", ".yaml"⟩
    (fun _ => .error .conversion) (by decide) (.inline ⟨0, 0, 0, 1⟩) ["c#".toList] (by decide) hprintable
    (by rintro n ⟨⟩)
  rw [loadPolicy, if_neg (by decide)] at hload
  obtain ⟨l, hl, hroot⟩ := bind_ok hload
  cases hroot
  have hempty : Loader.initial.root.at? (Loader.initial.parent 0) = some (.dict []) := rfl
  have hsurvives := (list_survives_iff Unicode.asciiTables ⟨"policy.yaml", ".yaml"⟩
    (show Layered Loader.initial.stack from List.Pairwise.nil) hempty (.inline ⟨0, 0, 0, 1⟩) (by decide)
    fun k hk => (hprintable k hk).writable).mp ⟨l, hl, hvalues⟩
  exact (hsurvives "c#".toList (by simp)).1 (by decide)

end Xsr.Policy
