import Mathlib

/-!
# Tracked — maps whose entries a family of flags accounts for

Owners `x` have a key each and a flag that says whether they put an entry
under it. A map is tracked when every entry has a flagged owner and the
value that owner put there. Deleting needs no flag to be cleared, and a flag
may be cleared once its key is empty; so a map stays tracked through a
cleanup that stops halfway.
-/

namespace Xsr.Lib

variable {κ ν ι : Type}

/-- Every entry was put there by a flagged owner of its key. -/
def Tracked (m : κ → Option ν) (key : ι → κ) (flag : ι → Bool) (value : ι → ν → Prop) : Prop :=
  ∀ k v, m k = some v → ∃ x, key x = k ∧ flag x = true ∧ value x v

namespace Tracked
variable {m m' : κ → Option ν} {key key' : ι → κ} {flag flag' : ι → Bool}
  {value value' : ι → ν → Prop}

theorem empty : Tracked (fun _ => none) key flag value := fun _ _ h => by cases h

/-- Entries may go, or change to another the same owner put there. -/
theorem shrink (h : Tracked m key flag value)
    (hm : ∀ k v, m' k = some v → ∃ v', m k = some v' ∧ ∀ x, value x v' → value x v) :
    Tracked m' key flag value := by
  intro k v hv
  obtain ⟨v', hv', hvalue⟩ := hm k v hv
  obtain ⟨x, hx, hf, hval⟩ := h k v' hv'
  exact ⟨x, hx, hf, hvalue x hval⟩

/-- Entries may go. -/
theorem thin (h : Tracked m key flag value) (hm : ∀ k v, m' k = some v → m k = some v) :
    Tracked m' key flag value :=
  h.shrink fun k v hv => ⟨v, hm k v hv, fun _ => id⟩

/-- Where any value will do, only the keys matter. -/
theorem any (h : Tracked m key flag fun _ _ => True) (hm : ∀ k, m k = none → m' k = none) :
    Tracked m' key flag fun _ _ => True := by
  refine h.shrink fun k v hv => ?_
  cases hk : m k with
  | none => rw [hm k hk] at hv; cases hv
  | some v' => exact ⟨v', rfl, fun _ => id⟩

/-- A flagged owner may do what it likes under its own key. -/
theorem own (h : Tracked m key flag fun _ _ => True) {x : ι} (hx : flag x = true)
    (hm : ∀ k, k ≠ key x → m k = none → m' k = none) : Tracked m' key flag fun _ _ => True := by
  intro k v hv
  by_cases hk : k = key x
  · exact ⟨x, hk.symm, hx, trivial⟩
  · cases hmk : m k with
    | none => rw [hm k hk hmk] at hv; cases hv
    | some v' => exact h k v' hmk

/-- Owners without an entry may change freely. -/
theorem mono (h : Tracked m key flag value)
    (hkey : ∀ x, flag x = true → key' x = key x) (hflag : ∀ x, flag x = true → flag' x = true)
    (hvalue : ∀ x v, flag x = true → value x v → value' x v) : Tracked m key' flag' value' := by
  intro k v hv
  obtain ⟨x, hx, hf, hval⟩ := h k v hv
  exact ⟨x, (hkey x hf).trans hx, hflag x hf, hvalue x v hf hval⟩

/-- Owners whose key is empty may take another. -/
theorem rekey (h : Tracked m key flag value)
    (hkey : ∀ x, flag x = true → m (key x) ≠ none → key' x = key x) :
    Tracked m key' flag value := by
  rintro k v hv
  obtain ⟨x, rfl, hf, hval⟩ := h k v hv
  exact ⟨x, hkey x hf (by rw [hv]; exact Option.some_ne_none v), hf, hval⟩

/-- A key no owner is flagged for is empty. -/
theorem absent (h : Tracked m key flag value) {k : κ} (hk : ∀ x, key x = k → flag x = false) :
    m k = none := by
  by_contra hne
  obtain ⟨v, hv⟩ := Option.ne_none_iff_exists'.mp hne
  obtain ⟨x, hx, hf, -⟩ := h k v hv
  rw [hk x hx] at hf
  cases hf

/-- An entry is deleted. -/
theorem delete [DecidableEq κ] (h : Tracked m key flag value) (k : κ) :
    Tracked (Function.update m k none) key flag value := by
  refine h.shrink fun k' v hv => ?_
  by_cases hk : k' = k
  · subst hk
    rw [Function.update_self] at hv
    cases hv
  · rw [Function.update_of_ne hk] at hv
    exact ⟨v, hv, fun _ => id⟩

variable [DecidableEq ι]

/-- A flag may be cleared when its key is empty or it was not set. -/
theorem clear (h : Tracked m key flag value) {x : ι} (hx : m (key x) = none ∨ flag x = false) :
    Tracked m key (Function.update flag x false) value := by
  intro k v hv
  obtain ⟨y, hy, hf, hval⟩ := h k v hv
  refine ⟨y, hy, ?_, hval⟩
  have hne : y ≠ x := by
    rintro rfl
    rcases hx with hx | hx
    · rw [hy, hv] at hx
      cases hx
    · rw [hf] at hx
      cases hx
  rw [Function.update_of_ne hne]
  exact hf

variable [DecidableEq κ]

/-- An entry is deleted and its owner's flag cleared. -/
theorem drop (h : Tracked m key flag value) (x : ι) :
    Tracked (Function.update m (key x) none) key (Function.update flag x false) value :=
  (h.delete (key x)).clear (.inl (Function.update_self ..))

/-- An owner puts an entry under its key. -/
theorem put (h : Tracked m key flag value) {x : ι} {v : ν} (hv : value x v) :
    Tracked (Function.update m (key x) (some v)) key (Function.update flag x true) value := by
  intro k w hw
  by_cases hk : k = key x
  · subst hk
    rw [Function.update_self] at hw
    obtain rfl := Option.some.inj hw
    exact ⟨x, rfl, Function.update_self .., hv⟩
  · rw [Function.update_of_ne hk] at hw
    obtain ⟨y, hy, hf, hval⟩ := h k w hw
    have hne : y ≠ x := by
      rintro rfl
      exact hk hy.symm
    exact ⟨y, hy, by rw [Function.update_of_ne hne]; exact hf, hval⟩

end Tracked

end Xsr.Lib
