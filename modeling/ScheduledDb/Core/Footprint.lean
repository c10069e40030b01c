import Mathlib.Data.Set.Lattice
import Mathlib.Order.CompletePartialOrder

/-!
# Steps with a footprint

A state seen as a family of cells, next to a part no step changes.  A step *keeps to* a set of
cells, its footprint, if it leaves the other cells alone and if what it writes and answers depends
on the cells of the footprint only.  Two steps with disjoint footprints commute.
-/

namespace Footprint

variable {σ κ ι γ ρ ρ' : Type*}

/-- A way to look at a state: its cells, and the part that is settled once and for all.  Together
they determine the state. -/
structure View (σ κ ι γ : Type*) where
  settled : σ → κ
  cell : σ → ι → γ
  ext : ∀ {s t : σ}, settled s = settled t → (∀ i, cell s i = cell t i) → s = t

/-- The step reads and writes the cells of `F` only. -/
structure KeepsTo (view : View σ κ ι γ) (step : σ → σ × ρ) (F : Set ι) : Prop where
  settled : ∀ s, view.settled (step s).1 = view.settled s
  frame : ∀ s, ∀ i ∉ F, view.cell (step s).1 i = view.cell s i
  reads : ∀ s t, view.settled s = view.settled t → (∀ i ∈ F, view.cell s i = view.cell t i) →
    (∀ i ∈ F, view.cell (step s).1 i = view.cell (step t).1 i) ∧ (step s).2 = (step t).2

namespace KeepsTo

variable {view : View σ κ ι γ} {p : σ → σ × ρ} {q : σ → σ × ρ'} {F G : Set ι}

/-- What a step does to its own cells, and its answer, is the same after a step that keeps to other
cells. -/
lemma reads_after (hp : KeepsTo view p F) (hq : KeepsTo view q G) (hdisjoint : Disjoint F G)
    (s : σ) :
    (∀ i ∈ F, view.cell (p (q s).1).1 i = view.cell (p s).1 i)
      ∧ (p (q s).1).2 = (p s).2 := by
  apply hp.reads _ _ (hq.settled s)
  intro i hi
  exact hq.frame s i fun hmem => Set.disjoint_left.mp hdisjoint hi hmem

/-- **Steps with disjoint footprints commute**, in what they do and in what they answer. -/
theorem commute (hp : KeepsTo view p F) (hq : KeepsTo view q G) (hdisjoint : Disjoint F G) (s : σ) :
    (p (q s).1).1 = (q (p s).1).1 ∧ (p (q s).1).2 = (p s).2 ∧ (q (p s).1).2 = (q s).2 := by
  have hpq := hp.reads_after hq hdisjoint s
  have hqp := hq.reads_after hp hdisjoint.symm s
  refine ⟨view.ext ?_ fun i => ?_, hpq.2, hqp.2⟩
  · rw [hp.settled, hq.settled, hq.settled, hp.settled]
  -- a cell belongs to the first step, to the second one or to neither
  · by_cases hF : i ∈ F
    · have hG : i ∉ G := Set.disjoint_left.mp hdisjoint hF
      rw [hpq.1 i hF, hq.frame _ i hG]
    · rw [hp.frame _ i hF]
      by_cases hG : i ∈ G
      · rw [hqp.1 i hG]
      · rw [hq.frame _ i hG, hq.frame _ i hG, hp.frame _ i hF]

end KeepsTo

end Footprint
