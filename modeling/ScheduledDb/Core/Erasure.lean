import Mathlib.Data.List.Basic
import ScheduledDb.Core.Interleaving

/-!
# Programs without some of their actions

`Erases seen p p'` says that `p'` is what is left of `p` when the actions that `seen` does not show
are taken out.  The answers of these actions may steer what else is taken out, but nothing that is
left.

`run_erases`: threads that run side by side do to the part of the state that a view shows what the
threads without these actions do to it, on a schedule with fewer turns.  So whatever is known of all
interleavings of the smaller programs holds of the larger ones.
-/

universe u v v' w w'

namespace Program

variable {Act : Type → Type w} {Act' : Type → Type w'} {α β : Type}

lemma bind_done (p : Program Act α) : (p >>= fun a => done a) = p := by
  induction p with
  | done a => rfl
  | step a k ih => exact congrArg (step a) (funext ih)

/-- The same program, with its actions as some of those of a larger language. -/
def embed (f : ∀ β : Type, Act' β → Act β) : Program Act' α → Program Act α
  | done a => done a
  | step a k => step (f _ a) fun b => (k b).embed f

/-- The second program is the first without the actions that are not seen, whatever their answers.
-/
inductive Erases (seen : ∀ β : Type, Act β → Option (Act' β)) :
    Program Act α → Program Act' α → Prop where
  | done (a : α) : Erases seen (.done a) (.done a)
  | kept {β : Type} {a : Act β} {a' : Act' β} {k : β → Program Act α} {k' : β → Program Act' α}
      (ha : seen β a = some a') (hk : ∀ b, Erases seen (k b) (k' b)) :
      Erases seen (.step a k) (.step a' k')
  | hidden {β : Type} {a : Act β} {k : β → Program Act α} {p' : Program Act' α}
      (ha : seen β a = none) (hk : ∀ b, Erases seen (k b) p') : Erases seen (.step a k) p'

namespace Erases

variable {seen : ∀ β : Type, Act β → Option (Act' β)} {p : Program Act α} {p' : Program Act' α}

lemma bind (h : Erases seen p p') {f : α → Program Act β} {f' : α → Program Act' β}
    (hf : ∀ a, Erases seen (f a) (f' a)) : Erases seen (p >>= f) (p' >>= f') := by
  induction h with
  | done a => exact hf a
  | kept ha _ ih => exact .kept ha ih
  | hidden ha _ ih => exact .hidden ha ih

/-- Nothing is taken out of a program that is embedded. -/
lemma embed {f : ∀ β : Type, Act' β → Act β} (hf : ∀ β a, seen β (f β a) = some a)
    (p : Program Act' α) : Erases seen (p.embed f) p := by
  induction p with
  | done a => exact .done a
  | step a k ih => exact .kept (hf _ a) ih

lemma isDone (h : Erases seen p p') (hp : p.isDone = true) : p'.isDone = true := by
  cases h with
  | done a => rfl
  | kept _ _ => cases hp
  | hidden _ _ => cases hp

end Erases

namespace Config

variable {Env : Type u} {σ : Type v} {σ' : Type v'} {H : ℕ → Handler Act Env σ}
  {H' : ℕ → Handler Act' Env σ'} {view : σ → σ'} {seen : ∀ β : Type, Act β → Option (Act' β)}

section Erases

variable (hkept : ∀ (tid : ℕ) (β : Type) (a : Act β) (a' : Act' β) (e : Env) (s : σ),
    seen β a = some a' → H' tid β a' e (view s) = (view (H tid β a e s).1, (H tid β a e s).2))
  (hhidden : ∀ (tid : ℕ) (β : Type) (a : Act β) (e : Env) (s : σ), seen β a = none →
    view (H tid β a e s).1 = view s) {c : Config Act σ} {c' : Config Act' σ'}
include hkept hhidden

/-- A turn of a thread is a turn of the smaller thread, or none. -/
lemma step_erases (hstate : view c.state = c'.state)
    (hthreads : ∀ t, Erases seen (c.threads t) (c'.threads t)) (tid : ℕ) (e : Env) :
    ∃ turns, turns.Sublist [(tid, e)] ∧ view (c.step H tid e).state = (c'.run H' turns).state ∧
      ∀ t, Erases seen ((c.step H tid e).threads t) ((c'.run H' turns).threads t) := by
  have hown := hthreads tid
  unfold step
  cases hthread : c.threads tid with
  | done a => exact ⟨[], List.nil_sublist _, hstate, hthreads⟩
  | step a k =>
    rw [hthread] at hown
    generalize hthread' : c'.threads tid = p' at hown
    cases hown with
    | hidden ha hk =>
      refine ⟨[], List.nil_sublist _, (hhidden tid _ a e c.state ha).trans hstate, fun t => ?_⟩
      by_cases ht : t = tid
      · subst ht
        simpa [hthread'] using hk _
      · simpa [ht] using hthreads t
    | @kept _ _ a' _ k' ha hk =>
      have hmatch := hkept tid _ a a' e c.state ha
      have hturn : c'.run H' [(tid, e)]
          = { state := view (H tid _ a e c.state).1
              threads := Function.update c'.threads tid (k' (H tid _ a e c.state).2) } := by
        rw [run_cons, run_nil, step, hthread']
        simp only [← hstate, hmatch]
      refine ⟨[(tid, e)], List.Sublist.refl _, by rw [hturn], fun t => ?_⟩
      rw [hturn]
      by_cases ht : t = tid
      · subst ht
        simpa using hk _
      · simpa [ht] using hthreads t

/-- **The erasure rule.** -/
theorem run_erases (hstate : view c.state = c'.state)
    (hthreads : ∀ t, Erases seen (c.threads t) (c'.threads t)) (sched : List (ℕ × Env)) :
    ∃ sched', sched'.Sublist sched ∧ view (c.run H sched).state = (c'.run H' sched').state ∧
      ∀ t, Erases seen ((c.run H sched).threads t) ((c'.run H' sched').threads t) := by
  induction sched generalizing c c' with
  | nil => exact ⟨[], List.Sublist.refl _, hstate, hthreads⟩
  | cons turn rest ih =>
    obtain ⟨turns, hturns, hstate1, hthreads1⟩ :=
      step_erases hkept hhidden hstate hthreads turn.1 turn.2
    obtain ⟨rest', hrest, hstate2, hthreads2⟩ := ih hstate1 hthreads1
    refine ⟨turns ++ rest', hturns.append hrest, ?_, ?_⟩
    · rw [run_append]
      exact hstate2
    · rw [run_append]
      exact hthreads2

end Erases

end Config

end Program
