import Mathlib.Tactic.Lemma

/-!
# Runs of a step function

A run is a fold of a step function over a list of inputs.  `Along` is a condition on every step of a
run.  An invariant that steps keep under the condition holds at the end (`Along.invariant`); one that
they keep *exactly* under the condition holds all along the run exactly if every step meets it
(`forall_prefix_iff`).
-/

universe u v

namespace Run

variable {σ : Type u} {ι : Type v} (step : σ → ι → σ)

/-- Every input meets the condition in the state it comes to. -/
def Along (C : σ → ι → Prop) : σ → List ι → Prop
  | _, [] => True
  | s, x :: xs => C s x ∧ Along C (step s x) xs

instance instDecidableAlong (C : σ → ι → Prop) [∀ s x, Decidable (C s x)] :
    ∀ (s : σ) (xs : List ι), Decidable (Along step C s xs)
  | _, [] => isTrue trivial
  | s, x :: xs =>
    have := instDecidableAlong C (step s x) xs
    inferInstanceAs (Decidable (_ ∧ _))

variable {step} {C : σ → ι → Prop} {I : σ → Prop} {s : σ} {xs : List ι}

lemma Along.of_prefix {l : List ι} (h : Along step C s xs) (hl : l <+: xs) : Along step C s l := by
  induction l generalizing s xs with
  | nil => trivial
  | cons x l ih =>
    obtain ⟨rest, rfl⟩ := hl
    exact ⟨h.1, ih h.2 (List.prefix_append l rest)⟩

lemma along_append {ys : List ι} :
    Along step C s (xs ++ ys) ↔ Along step C s xs ∧ Along step C (xs.foldl step s) ys := by
  induction xs generalizing s with
  | nil => exact ⟨fun h => ⟨trivial, h⟩, fun h => h.2⟩
  | cons x xs ih =>
    show C s x ∧ Along step C (step s x) (xs ++ ys) ↔ (C s x ∧ Along step C (step s x) xs) ∧ _
    rw [ih, and_assoc]
    rfl

theorem Along.invariant (hstep : ∀ s x, I s → C s x → I (step s x)) (h : Along step C s xs)
    (hs : I s) : I (xs.foldl step s) := by
  induction xs generalizing s with
  | nil => exact hs
  | cons x xs ih => exact ih h.2 (hstep s x hs h.1)

/-- A condition that follows from an invariant, on inputs that are all admissible. -/
theorem Along.of_invariant {D : ι → Prop} (hstep : ∀ s x, I s → D x → C s x ∧ I (step s x))
    (hs : I s) (hxs : ∀ x ∈ xs, D x) : Along step C s xs := by
  induction xs generalizing s with
  | nil => trivial
  | cons x xs ih =>
    obtain ⟨hC, hI⟩ := hstep s x hs (hxs x List.mem_cons_self)
    exact ⟨hC, ih hI fun y hy => hxs y (List.mem_cons_of_mem x hy)⟩

/-- What holds all along a run holds at its start and all along the rest. -/
theorem forall_prefix_cons {x : ι} :
    (∀ l, l <+: x :: xs → I (l.foldl step s)) ↔
      I s ∧ ∀ l, l <+: xs → I (l.foldl step (step s x)) := by
  constructor
  · intro hall
    refine ⟨hall [] List.nil_prefix, fun l hl => ?_⟩
    exact hall (x :: l) (List.cons_prefix_cons.mpr ⟨rfl, hl⟩)
  · rintro ⟨hs, hrest⟩ l hl
    cases l with
    | nil => exact hs
    | cons y l =>
      obtain ⟨rfl, htail⟩ := List.cons_prefix_cons.mp hl
      exact hrest l htail

theorem forall_prefix_iff (hstep : ∀ s x, I s → (I (step s x) ↔ C s x)) (hs : I s) (xs : List ι) :
    (∀ l, l <+: xs → I (l.foldl step s)) ↔ Along step C s xs := by
  constructor
  · intro hall
    induction xs generalizing s with
    | nil => trivial
    | cons x xs ih =>
      have hrest := (forall_prefix_cons.mp hall).2
      have hone : I (step s x) := hrest [] List.nil_prefix
      exact ⟨(hstep s x hs).mp hone, ih hone hrest⟩
  · intro halong l hl
    exact (halong.of_prefix hl).invariant (fun s x hs hC => (hstep s x hs).mpr hC) hs

end Run
