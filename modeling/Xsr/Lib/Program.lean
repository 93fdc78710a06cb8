/-!
# Program — steps that may fail, in sequence

A program updates a state and says whether it ran to its end. A sequence
stops at the first step that did not, and keeps the state that step left:
what `goto fail` does. `each` is the loop whose body may leave that way.
-/

namespace Xsr.Lib

variable {σ α : Type}

/-- The flag says whether the program ran to its end. -/
abbrev Program (σ : Type) := σ → σ × Bool

/-- `p`, then `q` unless `p` failed. -/
def Program.andThen (p q : Program σ) : Program σ := fun s =>
  match p s with
  | (s', true) => q s'
  | (s', false) => (s', false)

/-- `body` for each element, until one fails. -/
def Program.each (body : α → Program σ) : List α → Program σ
  | [] => fun s => (s, true)
  | a :: as => (body a).andThen (Program.each body as)

theorem Program.andThen_of_done {p q : Program σ} {s : σ} (h : (p s).2 = true) :
    p.andThen q s = q (p s).1 := by
  rw [Program.andThen, show p s = ((p s).1, true) from Prod.ext rfl h]

theorem Program.andThen_of_failed {p q : Program σ} {s : σ} (h : (p s).2 = false) :
    p.andThen q s = ((p s).1, false) := by
  rw [Program.andThen, show p s = ((p s).1, false) from Prod.ext rfl h]

/-- A sequence runs to its end when both parts do. -/
theorem Program.andThen_done {p q : Program σ} {s : σ} :
    (p.andThen q s).2 = true ↔ (p s).2 = true ∧ (q (p s).1).2 = true := by
  cases h : (p s).2 with
  | false => simp [Program.andThen_of_failed h]
  | true => simp [Program.andThen_of_done h]

theorem Program.andThen_assoc (p q r : Program σ) :
    (p.andThen q).andThen r = p.andThen (q.andThen r) := by
  funext s
  cases h : (p s).2 with
  | false =>
      have hpq : (p.andThen q s).2 = false := by rw [Program.andThen_of_failed h]
      rw [Program.andThen_of_failed hpq, Program.andThen_of_failed h, Program.andThen_of_failed h]
  | true =>
      rw [Program.andThen_of_done h, Program.andThen, Program.andThen_of_done h]
      rfl

/-- From `P` the program ends in `Q`, or fails in `F`. -/
structure Program.Spec (P : σ → Prop) (p : Program σ) (Q F : σ → Prop) : Prop where
  done : ∀ s, P s → (p s).2 = true → Q (p s).1
  failed : ∀ s, P s → (p s).2 = false → F (p s).1

section
variable {P Q R F : σ → Prop} {p q : Program σ}

/-- The rule of consequence. -/
theorem Program.Spec.mono {P' Q' : σ → Prop} (h : Spec P p Q F) (hP : ∀ s, P' s → P s)
    (hQ : ∀ s, Q s → Q' s) : Spec P' p Q' F :=
  ⟨fun s hs hdone => hQ _ (h.done s (hP s hs) hdone), fun s hs => h.failed s (hP s hs)⟩

theorem Program.Spec.andThen (hp : Spec P p Q F) (hq : Spec Q q R F) :
    Spec P (p.andThen q) R F := by
  constructor
  · intro s hs hdone
    have := hp.done s hs
    revert hdone this
    rw [Program.andThen]
    rcases p s with ⟨s', _ | _⟩
    · simp
    · exact fun hdone hQ => hq.done s' (hQ rfl) hdone
  · intro s hs hfailed
    have hdone := hp.done s hs
    have hstop := hp.failed s hs
    revert hfailed hdone hstop
    rw [Program.andThen]
    rcases p s with ⟨s', _ | _⟩
    · exact fun _ _ hF => hF rfl
    · exact fun hfailed hQ _ => hq.failed s' (hQ rfl) hfailed

/-- **The loop rule**: the invariant knows what is left to do. -/
theorem Program.Spec.each {body : α → Program σ} {I : List α → σ → Prop}
    (hbody : ∀ a as, Spec (I (a :: as)) (body a) (I as) F) :
    ∀ as, Spec (I as) (Program.each body as) (I []) F
  | [] => ⟨fun _ hs _ => hs, fun _ _ h => by cases h⟩
  | a :: as => (hbody a as).andThen (Spec.each hbody as)

/-- From `P` the program runs to its end exactly when `ok`. -/
def Program.EndsWhen (P : σ → Prop) (p : Program σ) (ok : Prop) : Prop :=
  ∀ s, P s → ((p s).2 = true ↔ ok)

theorem Program.EndsWhen.andThen {ok ok' : Prop} (hp : EndsWhen P p ok) (hq : EndsWhen Q q ok')
    (spec : Spec P p Q F) : EndsWhen P (p.andThen q) (ok ∧ ok') := by
  intro s hs
  rw [Program.andThen_done, ← hp s hs]
  exact and_congr_right fun hdone => hq _ (spec.done s hs hdone)

/-- A loop runs to its end exactly when its body does for each element. -/
theorem Program.EndsWhen.each {body : α → Program σ} {I : List α → σ → Prop} {ok : α → Prop}
    (hbody : ∀ a as, EndsWhen (I (a :: as)) (body a) (ok a))
    (spec : ∀ a as, Spec (I (a :: as)) (body a) (I as) F) :
    ∀ as, EndsWhen (I as) (Program.each body as) (∀ a ∈ as, ok a)
  | [] => fun _ _ => by simp [Program.each]
  | a :: as => by
      rw [List.forall_mem_cons]
      exact (hbody a as).andThen (EndsWhen.each hbody spec as) (spec a as)

/-- What every step keeps, the sequence keeps, wherever it stops. -/
theorem Program.andThen_keeps (hp : ∀ s, P s → P (p s).1) (hq : ∀ s, P s → P (q s).1) :
    ∀ s, P s → P (p.andThen q s).1 := by
  intro s hs
  have h := hp s hs
  revert h
  rw [Program.andThen]
  rcases p s with ⟨s', _ | _⟩
  · exact id
  · exact hq s'

theorem Program.each_keeps_mem {body : α → Program σ} : ∀ {as : List α},
    (∀ a ∈ as, ∀ s, P s → P (body a s).1) → ∀ s, P s → P (Program.each body as s).1
  | [], _, _, h => h
  | a :: _, hbody, s, h =>
      Program.andThen_keeps (hbody a List.mem_cons_self)
        (Program.each_keeps_mem fun b hb => hbody b (List.mem_cons_of_mem a hb)) s h

theorem Program.each_keeps {body : α → Program σ} (hbody : ∀ a s, P s → P (body a s).1)
    (as : List α) : ∀ s, P s → P (Program.each body as s).1 :=
  Program.each_keeps_mem fun a _ => hbody a

end

/-- What the body establishes for its own element, and keeps for the others,
holds of every element after the fold. -/
theorem foldl_establishes {β : Type} {f : β → α → β} {D : β → α → Prop}
    (hdone : ∀ b a, D (f b a) a) (hkeep : ∀ b a c, D b c → D (f b a) c) :
    ∀ (as : List α) (b : β), ∀ a ∈ as, D (as.foldl f b) a
  | [], _, _, h => by cases h
  | a :: as, b, c, h => by
      rcases List.mem_cons.mp h with rfl | h
      · exact List.foldlRecOn (motive := fun b => D b c) as f (hdone b c)
          fun b hb a _ => hkeep b a c hb
      · exact foldl_establishes hdone hkeep as (f b a) c h

end Xsr.Lib
