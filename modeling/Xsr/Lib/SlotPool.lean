import Mathlib
import Xsr.Lib.Count

/-!
# SlotPool — a stack of free slots and the counters beside it

A pool of `n` slots. A slot is free (its index is on the stack), allocated,
or retired for good; an allocated slot can be active and can hold entries of
some kind `κ`. The operations move slots and counters as a program does, and
record a fault where the program would leave an array or decrement a counter
at zero. `WellFormed` pools never fault.
-/

namespace Xsr.Lib

variable {n : Nat} {κ : Type}

@[ext] structure SlotPool (n : Nat) (κ : Type) where
  stack : Nat → Nat
  depth : Nat
  allocated : Fin n → Bool
  active : Fin n → Bool
  retired : Fin n → Bool
  held : Fin n × κ → Bool
  activeCount : Nat
  retiredCount : Nat
  heldCount : Nat
  fault : Bool

namespace SlotPool

/-! ## The operations -/

/-- Forget the entries of a slot. -/
def blank (held : Fin n × κ → Bool) (i : Fin n) : Fin n × κ → Bool :=
  fun x => if x.1 = i then false else held x

/-- Pop slot `i`. -/
def take (p : SlotPool n κ) (i : Fin n) : SlotPool n κ :=
  { p with
    depth := p.depth - 1
    allocated := Function.update p.allocated i true
    active := Function.update p.active i false
    held := blank p.held i }

def activate (p : SlotPool n κ) (i : Fin n) : SlotPool n κ :=
  { p with active := Function.update p.active i true, activeCount := p.activeCount + 1 }

def deactivate (p : SlotPool n κ) (i : Fin n) : SlotPool n κ :=
  { p with
    active := Function.update p.active i false
    activeCount := p.activeCount - 1
    fault := p.fault || p.activeCount == 0 }

/-- Retire slot `i`; it keeps what it holds. -/
def retire (p : SlotPool n κ) (i : Fin n) : SlotPool n κ :=
  { p with
    allocated := Function.update p.allocated i false
    retired := Function.update p.retired i true
    retiredCount := p.retiredCount + 1 }

/-- Push slot `i` back. -/
def recycle (p : SlotPool n κ) (i : Fin n) : SlotPool n κ :=
  { p with
    stack := Function.update p.stack p.depth i
    depth := p.depth + 1
    allocated := Function.update p.allocated i false
    active := Function.update p.active i false
    held := blank p.held i
    fault := p.fault || decide (n ≤ p.depth) }

section Held
variable [DecidableEq κ]

/-- Slot `i` takes entry `k`. -/
def hold (p : SlotPool n κ) (i : Fin n) (k : κ) : SlotPool n κ :=
  { p with held := Function.update p.held (i, k) true, heldCount := p.heldCount + 1 }

/-- Slot `i` gives entry `k` back. -/
def drop (p : SlotPool n κ) (i : Fin n) (k : κ) : SlotPool n κ :=
  { p with
    held := Function.update p.held (i, k) false
    heldCount := p.heldCount - 1
    fault := p.fault || p.heldCount == 0 }

end Held

section Fields
variable (p : SlotPool n κ) (i : Fin n)

@[simp] theorem take_allocated :
    (p.take i).allocated = Function.update p.allocated i true := rfl
@[simp] theorem take_active : (p.take i).active = Function.update p.active i false := rfl
@[simp] theorem take_held : (p.take i).held = blank p.held i := rfl

@[simp] theorem activate_active :
    (p.activate i).active = Function.update p.active i true := rfl
@[simp] theorem activate_activeCount : (p.activate i).activeCount = p.activeCount + 1 := rfl

@[simp] theorem deactivate_active :
    (p.deactivate i).active = Function.update p.active i false := rfl

@[simp] theorem retire_allocated :
    (p.retire i).allocated = Function.update p.allocated i false := rfl
@[simp] theorem retire_retired :
    (p.retire i).retired = Function.update p.retired i true := rfl
@[simp] theorem retire_retiredCount : (p.retire i).retiredCount = p.retiredCount + 1 := rfl

@[simp] theorem recycle_allocated :
    (p.recycle i).allocated = Function.update p.allocated i false := rfl
@[simp] theorem recycle_active :
    (p.recycle i).active = Function.update p.active i false := rfl
@[simp] theorem recycle_held : (p.recycle i).held = blank p.held i := rfl

variable [DecidableEq κ] (k : κ)

@[simp] theorem hold_held : (p.hold i k).held = Function.update p.held (i, k) true := rfl
@[simp] theorem hold_heldCount : (p.hold i k).heldCount = p.heldCount + 1 := rfl
@[simp] theorem drop_held : (p.drop i k).held = Function.update p.held (i, k) false := rfl

end Fields

/-! ## The invariant -/

/-- Every slot is of one kind, the stack lists the free ones once, and the
counters count. -/
structure WellFormed [Fintype κ] (p : SlotPool n κ) : Prop where
  in_range : ∀ k < p.depth, p.stack k < n
  distinct : ∀ k < p.depth, ∀ l < p.depth, p.stack k = p.stack l → k = l
  free_iff : ∀ i : Fin n, (∃ k < p.depth, p.stack k = i) ↔
    p.allocated i = false ∧ p.retired i = false
  retired_gone : ∀ i, p.retired i = true → p.allocated i = false
  active_allocated : ∀ i, p.active i = true → p.allocated i = true
  held_owned : ∀ i k, p.held (i, k) = true → p.allocated i = true ∨ p.retired i = true
  active_count : p.activeCount = count p.active
  retired_count : p.retiredCount = count p.retired
  held_count : p.heldCount = count p.held
  no_fault : p.fault = false

variable [Fintype κ] {p : SlotPool n κ} {i : Fin n}

namespace WellFormed

/-- The stack as a list of slots. -/
theorem free_list (h : p.WellFormed) : ∃ free : List (Fin n), free.length = p.depth ∧ free.Nodup ∧
    free.map Fin.val = (List.range p.depth).map p.stack ∧
    ∀ i, i ∈ free ↔ p.allocated i = false ∧ p.retired i = false := by
  refine ⟨List.ofFn fun k : Fin p.depth => ⟨p.stack k, h.in_range k k.isLt⟩,
    List.length_ofFn, List.nodup_ofFn.mpr ?_, ?_, ?_⟩
  · intro k l hkl
    exact Fin.ext (h.distinct k k.isLt l l.isLt (congrArg Fin.val hkl))
  · rw [List.map_ofFn, List.ofFn_eq_map, ← List.map_coe_finRange_eq_range, List.map_map]
    rfl
  · intro i
    rw [List.mem_ofFn, ← h.free_iff i]
    constructor
    · rintro ⟨k, rfl⟩
      exact ⟨k, k.isLt, rfl⟩
    · rintro ⟨k, hk, heq⟩
      exact ⟨⟨k, hk⟩, Fin.ext heq⟩

theorem not_retired (h : p.WellFormed) (hi : p.allocated i = true) : p.retired i = false := by
  cases hr : p.retired i with
  | false => rfl
  | true => rw [h.retired_gone i hr] at hi; cases hi

/-- Free, allocated and retired slots add up. -/
theorem total (h : p.WellFormed) : p.depth + count p.allocated + p.retiredCount = n := by
  obtain ⟨free, hlen, hnodup, -, hmem⟩ := h.free_list
  rw [← hlen, h.retired_count, count_partition (fun i hi => h.not_retired hi) hnodup hmem,
    Fintype.card_fin]

/-- There is room to push an allocated slot. -/
theorem room (h : p.WellFormed) (hi : p.allocated i = true) : p.depth < n := by
  have := count_pos hi
  have := h.total
  omega

/-- A slot that is not held by anyone holds nothing. -/
theorem blank_free (h : p.WellFormed) (ha : p.allocated i = false) (hr : p.retired i = false) :
    p.active i = false ∧ blank p.held i = p.held := by
  constructor
  · cases hactive : p.active i with
    | false => rfl
    | true => rw [h.active_allocated i hactive] at ha; cases ha
  · funext ⟨j, k⟩
    rw [blank]
    split_ifs with hj
    · obtain rfl : j = i := hj
      cases hheld : p.held (j, k) with
      | false => rfl
      | true =>
          rcases h.held_owned j k hheld with h' | h'
          · rw [ha] at h'; cases h'
          · rw [hr] at h'; cases h'
    · rfl

/-- The top of the stack is a free slot. -/
theorem top_free (h : p.WellFormed) (hpos : 0 < p.depth) (hi : p.stack (p.depth - 1) = i) :
    p.allocated i = false ∧ p.retired i = false :=
  (h.free_iff i).mp ⟨p.depth - 1, by omega, hi⟩

theorem take (h : p.WellFormed) (hpos : 0 < p.depth) (hi : p.stack (p.depth - 1) = i) :
    (p.take i).WellFormed := by
  obtain ⟨ha, hr⟩ := h.top_free hpos hi
  obtain ⟨hactive, hheld⟩ := h.blank_free ha hr
  have hblank : (p.take i).active = p.active ∧ (p.take i).held = p.held :=
    ⟨by rw [take_active, ← hactive, Function.update_eq_self], hheld⟩
  refine ⟨fun k hk => h.in_range k (Nat.lt_of_lt_of_le hk (Nat.sub_le ..)),
    fun k hk l hl => h.distinct k (Nat.lt_of_lt_of_le hk (Nat.sub_le ..)) l
      (Nat.lt_of_lt_of_le hl (Nat.sub_le ..)), fun j => ?free_iff, fun j hj => ?retired_gone,
    fun j hj => ?active_allocated, fun j k hk => ?held_owned, ?active_count, h.retired_count,
    ?held_count, h.no_fault⟩
  case free_iff =>
    show (∃ k < p.depth - 1, p.stack k = j) ↔
      Function.update p.allocated i true j = false ∧ p.retired j = false
    rcases eq_or_ne j i with rfl | hne
    · -- the popped index stands nowhere below the top
      refine iff_of_false ?_ (by simp)
      rintro ⟨k, hk, heq⟩
      have := h.distinct k (by omega) (p.depth - 1) (by omega) (heq.trans hi.symm)
      omega
    · rw [Function.update_of_ne hne, ← h.free_iff j]
      constructor
      · rintro ⟨k, hk, heq⟩
        exact ⟨k, by omega, heq⟩
      · rintro ⟨k, hk, heq⟩
        refine ⟨k, ?_, heq⟩
        by_contra hge
        obtain rfl : k = p.depth - 1 := by omega
        exact hne (Fin.ext (heq.symm.trans hi))
  case retired_gone =>
    rcases eq_or_ne j i with rfl | hne
    · rw [show p.retired j = true from hj] at hr
      cases hr
    · rw [take_allocated, Function.update_of_ne hne]
      exact h.retired_gone j hj
  case active_allocated =>
    rw [hblank.1] at hj
    rcases eq_or_ne j i with rfl | hne
    · rw [hactive] at hj
      cases hj
    · rw [take_allocated, Function.update_of_ne hne]
      exact h.active_allocated j hj
  case held_owned =>
    rw [hblank.2] at hk
    rcases eq_or_ne j i with rfl | hne
    · exact .inl (Function.update_self ..)
    · rw [take_allocated, Function.update_of_ne hne]
      exact h.held_owned j k hk
  case active_count =>
    rw [hblank.1]
    exact h.active_count
  case held_count =>
    rw [hblank.2]
    exact h.held_count

theorem activate (h : p.WellFormed) (ha : p.allocated i = true) (hi : p.active i = false) :
    (p.activate i).WellFormed := by
  refine ⟨h.in_range, h.distinct, h.free_iff, h.retired_gone, fun j hj => ?_, h.held_owned, ?_,
    h.retired_count, h.held_count, h.no_fault⟩
  · rcases eq_or_ne j i with rfl | hne
    · exact ha
    · rw [activate_active, Function.update_of_ne hne] at hj
      exact h.active_allocated j hj
  · rw [activate_active, activate_activeCount, count_set hi, h.active_count]

theorem deactivate (h : p.WellFormed) (hi : p.active i = true) : (p.deactivate i).WellFormed := by
  have hclear := count_clear hi
  have hcount := h.active_count
  refine ⟨h.in_range, h.distinct, h.free_iff, h.retired_gone, fun j hj => ?_, h.held_owned, ?_,
    h.retired_count, h.held_count, ?_⟩
  · rcases eq_or_ne j i with rfl | hne
    · exact h.active_allocated j hi
    · rw [deactivate_active, Function.update_of_ne hne] at hj
      exact h.active_allocated j hj
  · show p.activeCount - 1 = count (Function.update p.active i false)
    omega
  · show (p.fault || p.activeCount == 0) = false
    rw [h.no_fault, Bool.false_or, beq_eq_false_iff_ne]
    omega

theorem retire (h : p.WellFormed) (ha : p.allocated i = true) (hi : p.active i = false) :
    (p.retire i).WellFormed := by
  refine ⟨h.in_range, h.distinct, fun j => ?_, fun j hj => ?_, fun j hj => ?_, fun j k hk => ?_,
    h.active_count, ?_, h.held_count, h.no_fault⟩
  · show (∃ k < p.depth, p.stack k = j) ↔ Function.update p.allocated i false j = false ∧
      Function.update p.retired i true j = false
    rw [h.free_iff j]
    rcases eq_or_ne j i with rfl | hne
    · simp [ha]
    · simp [hne]
  · rcases eq_or_ne j i with rfl | hne
    · exact Function.update_self ..
    · rw [retire_retired, Function.update_of_ne hne] at hj
      rw [retire_allocated, Function.update_of_ne hne]
      exact h.retired_gone j hj
  · rcases eq_or_ne j i with rfl | hne
    · rw [show p.active j = true from hj] at hi
      cases hi
    · rw [retire_allocated, Function.update_of_ne hne]
      exact h.active_allocated j hj
  · rcases eq_or_ne j i with rfl | hne
    · exact .inr (Function.update_self ..)
    · rw [retire_allocated, retire_retired, Function.update_of_ne hne, Function.update_of_ne hne]
      exact h.held_owned j k hk
  · rw [retire_retired, retire_retiredCount, count_set (h.not_retired ha), h.retired_count]

theorem recycle (h : p.WellFormed) (ha : p.allocated i = true) (hi : p.active i = false)
    (hempty : ∀ k, p.held (i, k) = false) : (p.recycle i).WellFormed := by
  have hroom := h.room ha
  have hheld : (p.recycle i).held = p.held := by
    funext ⟨j, k⟩
    rw [recycle_held, blank]
    split_ifs with hj
    · obtain rfl : j = i := hj
      exact (hempty k).symm
    · rfl
  have hactive : (p.recycle i).active = p.active := by
    rw [recycle_active, ← hi, Function.update_eq_self]
  have hlow : ∀ k < p.depth, (p.recycle i).stack k = p.stack k := fun k hk =>
    Function.update_of_ne (Nat.ne_of_lt hk) ..
  have htop : (p.recycle i).stack p.depth = i := Function.update_self ..
  have hfresh : ∀ k < p.depth, p.stack k ≠ i := fun k hk heq => by
    have := ((h.free_iff i).mp ⟨k, hk, heq⟩).1
    rw [ha] at this
    cases this
  refine ⟨fun k hk => ?in_range, fun k hk l hl heq => ?distinct, fun j => ?free_iff,
    fun j hj => ?retired_gone, fun j hj => ?active_allocated, fun j k hk => ?held_owned,
    ?active_count, h.retired_count, ?held_count, ?no_fault⟩
  case in_range =>
    rcases Nat.lt_succ_iff_lt_or_eq.mp hk with hk | rfl
    · rw [hlow k hk]; exact h.in_range k hk
    · rw [htop]; exact i.isLt
  case distinct =>
    rcases Nat.lt_succ_iff_lt_or_eq.mp hk with hk | rfl <;>
      rcases Nat.lt_succ_iff_lt_or_eq.mp hl with hl | rfl
    · rw [hlow k hk, hlow l hl] at heq
      exact h.distinct k hk l hl heq
    · rw [hlow k hk, htop] at heq
      exact absurd heq (hfresh k hk)
    · rw [hlow l hl, htop] at heq
      exact absurd heq.symm (hfresh l hl)
    · rfl
  case free_iff =>
    show _ ↔ Function.update p.allocated i false j = false ∧ p.retired j = false
    rcases eq_or_ne j i with rfl | hne
    · refine iff_of_true ⟨p.depth, Nat.lt_succ_self _, htop⟩ ⟨by simp, h.not_retired ha⟩
    · rw [Function.update_of_ne hne, ← h.free_iff j]
      constructor
      · rintro ⟨k, hk, heq⟩
        rcases Nat.lt_succ_iff_lt_or_eq.mp hk with hk | rfl
        · exact ⟨k, hk, by rw [← heq, hlow k hk]⟩
        · exact absurd (Fin.ext (heq.symm.trans htop)) hne
      · rintro ⟨k, hk, heq⟩
        exact ⟨k, Nat.lt_succ_of_lt hk, by rw [hlow k hk, heq]⟩
  case retired_gone =>
    rcases eq_or_ne j i with rfl | hne
    · exact Function.update_self ..
    · rw [recycle_allocated, Function.update_of_ne hne]
      exact h.retired_gone j hj
  case active_allocated =>
    rw [hactive] at hj
    rcases eq_or_ne j i with rfl | hne
    · rw [hi] at hj
      cases hj
    · rw [recycle_allocated, Function.update_of_ne hne]
      exact h.active_allocated j hj
  case held_owned =>
    rw [hheld] at hk
    rcases eq_or_ne j i with rfl | hne
    · rw [hempty k] at hk
      cases hk
    · rw [recycle_allocated, Function.update_of_ne hne]
      exact h.held_owned j k hk
  case active_count =>
    rw [hactive]
    exact h.active_count
  case held_count =>
    rw [hheld]
    exact h.held_count
  case no_fault =>
    show (p.fault || decide (n ≤ p.depth)) = false
    rw [h.no_fault, Bool.false_or, decide_eq_false_iff_not]
    omega

variable [DecidableEq κ]

theorem hold (h : p.WellFormed) {k : κ} (ha : p.allocated i = true)
    (hk : p.held (i, k) = false) : (p.hold i k).WellFormed := by
  refine ⟨h.in_range, h.distinct, h.free_iff, h.retired_gone, h.active_allocated,
    fun j l hl => ?_, h.active_count, h.retired_count, ?_, h.no_fault⟩
  · rcases eq_or_ne (j, l) (i, k) with heq | hne
    · obtain ⟨rfl, rfl⟩ := Prod.mk.inj heq
      exact .inl ha
    · rw [hold_held, Function.update_of_ne hne] at hl
      exact h.held_owned j l hl
  · rw [hold_held, hold_heldCount, count_set hk, h.held_count]

theorem drop (h : p.WellFormed) {k : κ} (hk : p.held (i, k) = true) :
    (p.drop i k).WellFormed := by
  have hclear := count_clear hk
  have hcount := h.held_count
  refine ⟨h.in_range, h.distinct, h.free_iff, h.retired_gone, h.active_allocated,
    fun j l hl => ?_, h.active_count, h.retired_count, ?_, ?_⟩
  · rcases eq_or_ne (j, l) (i, k) with heq | hne
    · rw [heq, drop_held, Function.update_self] at hl
      cases hl
    · rw [drop_held, Function.update_of_ne hne] at hl
      exact h.held_owned j l hl
  · show p.heldCount - 1 = count (Function.update p.held (i, k) false)
    omega
  · show (p.fault || p.heldCount == 0) = false
    rw [h.no_fault, Bool.false_or, beq_eq_false_iff_ne]
    omega

end WellFormed

end SlotPool

end Xsr.Lib
