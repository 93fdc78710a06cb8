import Xsr.Policy.Loading

/-!
# LaterLines — what the rest of a file leaves alone

Every line of a policy file writes at one place of the tree, an item behind
the others of its list or the value of a key. What stands apart from all the
places a text writes at is the same after the text as before it.
-/

namespace Xsr.Policy

open Lib

variable (u : Unicode) (path : PolicyPath)

/-- The place a line writes at, if any: a blank line writes nothing, and an
item nothing where no list is open. -/
def written (l : Loader) (raw : List Char) : Option (List Place) :=
  let line := rstrip (raw.takeWhile (· ≠ '#'))
  let stripped := Unicode.strip line
  let way := l.parent (line.takeWhile (· = ' ')).length
  if stripped = [] then none
  else if "- ".toList <+: stripped then
    ((l.root.at? way).bind PyVal.asList).map fun values => way ++ [.index values.length]
  else some (way ++ [.key (String.ofList (stripped.takeWhile (· ≠ ':')))])

/-- The lines can be read one after another, and none of them writes at
`place`, above it or inside it. -/
def spares (place : List Place) : Loader → List (List Char) → Bool
  | _, [] => true
  | l, raw :: lines =>
      (written l raw).all (fun w => decide (PyVal.Apart place w)) &&
        match readLine u path l raw with
        | .ok l' => spares place l' lines
        | .error _ => false

/-- One line leaves what stands apart from its place. -/
theorem readLine_apart {l l' : Loader} {raw : List Char} {place : List Place}
    (h : readLine u path l raw = .ok l') (hw : ∀ w ∈ written l raw, PyVal.Apart place w) :
    l'.root.at? place = l.root.at? place := by
  simp only [readLine] at h
  simp only [written] at hw
  split_ifs at h hw with hblank hitem hentry
  · cases h
    rfl
  · simp only [readItem] at h
    split at h
    case h_1 values hvalues =>
        have hapart := hw _ (by rw [hvalues]; rfl)
        split_ifs at h with hcolon
        · obtain ⟨v, -, hl'⟩ := bind_ok h
          cases hl'
          exact PyVal.at?_append_apart hvalues hapart _
        · obtain ⟨v, -, hl'⟩ := bind_ok h
          cases hl'
          exact PyVal.at?_append_apart hvalues hapart v
    case h_2 => cases h
  · have hapart := hw _ rfl
    simp only [readEntry] at h
    split at h
    case h_1 entries hentries =>
        split_ifs at h with hvalue hkey
        · obtain ⟨v, -, hl'⟩ := bind_ok h
          cases hl'
          exact PyVal.at?_assign_apart hapart _ v
        · cases h
          exact PyVal.at?_assign_apart hapart _ _
        · cases h
          exact PyVal.at?_assign_apart hapart _ _
    case h_2 => cases h

/-- **The rest of a file** is read and leaves what stands apart from it. -/
theorem spares_run {place : List Place} {lines : List (List Char)} {l : Loader}
    (h : spares u path place l lines = true) :
    ∃ l', lines.foldlM (readLine u path) l = .ok l' ∧ l'.root.at? place = l.root.at? place := by
  induction lines generalizing l with
  | nil => exact ⟨l, rfl, rfl⟩
  | cons raw lines ih =>
      rw [spares, Bool.and_eq_true] at h
      obtain ⟨hw, hrest⟩ := h
      cases hline : readLine u path l raw with
      | error e => rw [hline] at hrest; cases hrest
      | ok l₁ =>
          rw [hline] at hrest
          obtain ⟨l', hl', hplace⟩ := ih hrest
          have hwritten : ∀ w ∈ written l raw, PyVal.Apart place w := by
            intro w hmem
            rw [Option.all_eq_true] at hw
            exact of_decide_eq_true (hw w hmem)
          refine ⟨l', ?_, hplace.trans (readLine_apart u path hline hwritten)⟩
          rw [List.foldlM_cons, hline]
          exact hl'

end Xsr.Policy
