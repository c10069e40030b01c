import Mathlib.Logic.Function.Basic
import ScheduledDb.Core.Program

/-!
# Programs that run side by side

Threads are programs over one shared state.  A schedule says whose turn it is and with which
environment; a step of a thread is one action.  A thread that is done does nothing more.

`run_local` is the proof rule.  Every thread has a private ghost value, about which a predicate
transformer says what the thread's actions do to it; the shared state and all ghost values together
are tied by an invariant.  A thread's correctness is then a matter of its own program
(`wpWith`, at its own ghost value), and the invariant a matter of single actions.

`Tended` is a case of its own: one thread looks after the part of the state that a view shows, and
the others leave that part alone.  Then the thread may be verified as if it ran alone, with the view
for its state.
-/

universe u v w x

namespace Program

/-- A shared state and what every thread has still to do. -/
structure Config (Act : Type → Type w) (σ : Type v) where
  state : σ
  threads : ℕ → Program Act Unit

namespace Config

variable {Act : Type → Type w} {Env : Type u} {σ : Type v} {γ : Type x}
variable (H : ℕ → Handler Act Env σ) {c : Config Act σ} {sched : List (ℕ × Env)}
  {C' C : Config Act σ → ℕ → ∀ β : Type, Act β → Env → Prop} {I : σ → Prop} {t tid : ℕ}
  {P : ∀ β : Type, Act β → Prop}

/-- One action of a thread. -/
def step (c : Config Act σ) (tid : ℕ) (e : Env) : Config Act σ :=
  match c.threads tid with
  | .done _ => c
  | .step a k =>
    { state := (H tid _ a e c.state).1
      threads := Function.update c.threads tid (k (H tid _ a e c.state).2) }

def run (c : Config Act σ) : List (ℕ × Env) → Config Act σ
  | [] => c
  | (tid, e) :: rest => (c.step H tid e).run rest

@[simp] lemma run_nil (c : Config Act σ) : c.run H [] = c := rfl

@[simp] lemma run_cons (c : Config Act σ) (tid : ℕ) (e : Env) (rest : List (ℕ × Env)) :
    c.run H ((tid, e) :: rest) = (c.step H tid e).run H rest := rfl

lemma run_append (c : Config Act σ) (sched sched' : List (ℕ × Env)) :
    c.run H (sched ++ sched') = (c.run H sched).run H sched' := by
  induction sched generalizing c with
  | nil => rfl
  | cons s rest ih => exact ih _

/-- Every step of the run meets the condition `C`. -/
def Along (C : Config Act σ → ℕ → ∀ β : Type, Act β → Env → Prop) :
    Config Act σ → List (ℕ × Env) → Prop
  | _, [] => True
  | c, (tid, e) :: rest =>
    (∀ (β : Type) (a : Act β) (k : β → Program Act Unit),
      c.threads tid = .step a k → C c tid β a e) ∧ Along C (c.step H tid e) rest

lemma Along.mono (hC : ∀ c tid β a e, C c tid β a e → C' c tid β a e) (h : Along H C c sched) :
    Along H C' c sched := by
  induction sched generalizing c with
  | nil => trivial
  | cons s rest ih => exact ⟨fun β a k ha => hC _ _ _ _ _ (h.1 β a k ha), ih h.2⟩

/-- Two conditions on the steps of one run. -/
lemma Along.and (h : Along H C c sched) (h' : Along H C' c sched) :
    Along H (fun c tid β a e => C c tid β a e ∧ C' c tid β a e) c sched := by
  induction sched generalizing c with
  | nil => trivial
  | cons s rest ih => exact ⟨fun β a k ha => ⟨h.1 β a k ha, h'.1 β a k ha⟩, ih h.2 h'.2⟩

lemma Along.append {sched' : List (ℕ × Env)} (h : Along H C c sched)
    (h' : Along H C (c.run H sched) sched') : Along H C c (sched ++ sched') := by
  induction sched generalizing c with
  | nil => exact h'
  | cons s rest ih => exact ⟨h.1, ih h.2 h'⟩

lemma along_of_forall (hC : ∀ c tid β a e, C c tid β a e) (c : Config Act σ)
    (sched : List (ℕ × Env)) : Along H C c sched := by
  induction sched generalizing c with
  | nil => trivial
  | cons s rest ih => exact ⟨fun β a _ _ => hC c s.1 β a s.2, ih _⟩

/-- A condition on turns alone. -/
lemma along_of_mem {D : ℕ → Env → Prop} (h : ∀ x ∈ sched, D x.1 x.2) (c : Config Act σ) :
    Along H (fun _ tid _ _ e => D tid e) c sched := by
  induction sched generalizing c with
  | nil => trivial
  | cons s rest ih =>
    exact ⟨fun _ _ _ _ => h s List.mem_cons_self, ih (fun x hx => h x (List.mem_cons_of_mem s hx)) _⟩

/-- **The rule for invariants that steps may break.**  If a step keeps `I` exactly when it meets the
condition, then `I` holds all along a run exactly when all steps meet the condition. -/
theorem forall_prefix_iff
    (hstep : ∀ (c : Config Act σ) (tid : ℕ) (β : Type) (a : Act β) (e : Env), I c.state →
      (I (H tid β a e c.state).1 ↔ C c tid β a e)) (sched : List (ℕ × Env)) (h : I c.state) :
    (∀ l, l <+: sched → I (c.run H l).state) ↔ Along H C c sched := by
  induction sched generalizing c with
  | nil => simpa [Along] using h
  | cons s rest ih =>
    have hone : I (c.step H s.1 s.2).state ↔ ∀ (β : Type) (a : Act β)
        (k : β → Program Act Unit), c.threads s.1 = .step a k → C c s.1 β a s.2 := by
      unfold step
      cases hthread : c.threads s.1 with
      | done a => simpa using h
      | step a k =>
        rw [hstep c s.1 _ a s.2 h]
        constructor
        · rintro hC β a' k' heq
          cases heq
          exact hC
        · exact fun hall => hall _ a k rfl
    simp only [List.prefix_cons_iff, forall_eq_or_imp, forall_exists_index, and_imp]
    constructor
    · rintro ⟨_, hall⟩
      have hnext := hall [s] [] rfl List.nil_prefix
      exact ⟨hone.mp hnext, (ih hnext).mp fun l hl => hall (s :: l) l rfl hl⟩
    · rintro ⟨hcond, hrest⟩
      have hnext := hone.mpr hcond
      refine ⟨h, ?_⟩
      rintro _ l rfl hl
      exact (ih hnext).mpr hrest l hl

/-- A step of one thread leaves the others where they are. -/
lemma step_threads_of_ne (c : Config Act σ) (e : Env) (ht : t ≠ tid) :
    (c.step H tid e).threads t = c.threads t := by
  unfold step
  cases c.threads tid with
  | done a => rfl
  | step a k => exact Function.update_of_ne ht _ _

/-- A thread that is never its turn stays where it is. -/
lemma run_threads_of_forall_ne (c : Config Act σ) (ht : ∀ x ∈ sched, x.1 ≠ t) :
    (c.run H sched).threads t = c.threads t := by
  induction sched generalizing c with
  | nil => rfl
  | cons x rest ih =>
    exact (ih _ fun y hy => ht y (List.mem_cons_of_mem x hy)).trans
      (step_threads_of_ne H c x.2 (ht x List.mem_cons_self).symm)

lemma run_threads_of_ne (c : Config Act σ) (ht : t ≠ tid) (envs : List Env) :
    (c.run H (envs.map fun e => (tid, e))).threads t = c.threads t := by
  refine run_threads_of_forall_ne H c fun x hx => ?_
  obtain ⟨e, _, rfl⟩ := List.mem_map.mp hx
  exact ht.symm

/-- Check every step of a run. -/
def check (test : Config Act σ → ℕ → Env → Bool) : Config Act σ → List (ℕ × Env) → Bool
  | _, [] => true
  | c, (tid, e) :: rest => test c tid e && check test (c.step H tid e) rest

/-- A condition that a test decides can be checked. -/
lemma along_of_check {test : Config Act σ → ℕ → Env → Bool}
    (htest : ∀ (c : Config Act σ) (tid : ℕ) (e : Env) (β : Type) (a : Act β)
      (k : β → Program Act Unit), c.threads tid = .step a k → test c tid e = true → C c tid β a e)
    (h : check H test c sched = true) : Along H C c sched := by
  induction sched generalizing c with
  | nil => trivial
  | cons s rest ih =>
    rw [check, Bool.and_eq_true] at h
    exact ⟨fun β a k ha => htest c s.1 s.2 β a k ha h.1, ih h.2⟩

/-- A decidable condition is its own test. -/
def test (C : Config Act σ → ℕ → ∀ β : Type, Act β → Env → Prop)
    [∀ c tid β a e, Decidable (C c tid β a e)] (c : Config Act σ) (tid : ℕ) (e : Env) : Bool :=
  match c.threads tid with
  | .done _ => true
  | .step a _ => decide (C c tid _ a e)

lemma along_of_test [∀ c tid β a e, Decidable (C c tid β a e)]
    (h : check H (test C) c sched = true) : Along H C c sched := by
  refine along_of_check H (fun c tid e β a k hthread htest => ?_) h
  rw [test, hthread] at htest
  exact of_decide_eq_true htest

variable {H}

/-- **The rule for interleavings.**  By induction on the schedule: the thread that moves changes its
own ghost value as its transformer says, the others keep theirs and with it their correctness. -/
theorem run_local {T : ℕ → Transformer Act γ} {R : ℕ → γ → Prop} {I : σ → (ℕ → γ) → Prop}
    (hsound : ∀ (c : Config Act σ) (l : ℕ → γ) (tid : ℕ) {β : Type} (a : Act β) (e : Env)
      (Q : β → γ → Prop), C c tid β a e → I c.state l →
      (∀ t, wpWith (T t) (c.threads t) (fun _ => R t) (l t)) → T tid β a Q (l tid) →
      ∃ g, Q (H tid β a e c.state).2 g ∧ I (H tid β a e c.state).1 (Function.update l tid g))
    {l : ℕ → γ} (hI : I c.state l) (hlocal : ∀ t, wpWith (T t) (c.threads t) (fun _ => R t) (l t))
    (halong : Along H C c sched) :
    ∃ l', I (c.run H sched).state l' ∧
      ∀ t, wpWith (T t) ((c.run H sched).threads t) (fun _ => R t) (l' t) := by
  induction sched generalizing c l with
  | nil => exact ⟨l, hI, hlocal⟩
  | cons s rest ih =>
    obtain ⟨tid, e⟩ := s
    obtain ⟨hcond, hrest⟩ := halong
    rw [run_cons]
    cases hthread : c.threads tid with
    | done a =>
      have hsame : c.step H tid e = c := by rw [step, hthread]
      rw [hsame] at hrest ⊢
      exact ih hI hlocal hrest
    | step a k =>
      have hstep : c.step H tid e =
          { state := (H tid _ a e c.state).1
            threads := Function.update c.threads tid (k (H tid _ a e c.state).2) } := by
        rw [step, hthread]
      have hown := hlocal tid
      rw [hthread, wpWith_step] at hown
      obtain ⟨g, hg, hI'⟩ := hsound c l tid a e _ (hcond _ a k hthread) hI hlocal hown
      rw [hstep] at hrest ⊢
      refine ih hI' (fun t => ?_) hrest
      by_cases ht : t = tid
      · subst ht
        simpa using hg
      · simpa [ht] using hlocal t

/-- A thread stays made of the actions it is made of. -/
lemma all_threads_step (h : All P (c.threads t)) (tid : ℕ) (e : Env) :
    All P ((c.step H tid e).threads t) := by
  by_cases ht : t = tid
  · subst ht
    unfold step
    cases hthread : c.threads t with
    | done a =>
      rw [hthread] at h
      simp [hthread]
    | step a k =>
      rw [hthread] at h
      simpa using h.2 _
  · rwa [step_threads_of_ne H c e ht]

lemma all_threads_run (h : All P (c.threads t)) (sched : List (ℕ × Env)) :
    All P ((c.run H sched).threads t) := by
  induction sched generalizing c with
  | nil => exact h
  | cons x rest ih => exact ih (all_threads_step h x.1 x.2)

/-- **The invariant rule**: what the actions of the threads whose turn it is keep, the interleaving
keeps. -/
theorem run_among {P : ℕ → ∀ β : Type, Act β → Prop}
    (hstep : ∀ tid (β : Type) (a : Act β) (e : Env) (s : σ), P tid β a → I s → I (H tid β a e s).1)
    (hthreads : ∀ x ∈ sched, All (P x.1) (c.threads x.1)) (hI : I c.state) :
    I (c.run H sched).state := by
  induction sched generalizing c with
  | nil => exact hI
  | cons x rest ih =>
    obtain ⟨tid, e⟩ := x
    have hown := hthreads (tid, e) List.mem_cons_self
    refine ih (fun y hy => all_threads_step (hthreads y (List.mem_cons_of_mem _ hy)) tid e) ?_
    unfold step
    cases hthread : c.threads tid with
    | done a => exact hI
    | step a k =>
      rw [hthread] at hown
      exact hstep tid _ a e c.state hown.1 hI

theorem run_all {P : ℕ → ∀ β : Type, Act β → Prop}
    (hstep : ∀ tid (β : Type) (a : Act β) (e : Env) (s : σ), P tid β a → I s → I (H tid β a e s).1)
    (hthreads : ∀ tid, All (P tid) (c.threads tid)) (hI : I c.state) (sched : List (ℕ × Env)) :
    I (c.run H sched).state :=
  run_among hstep (fun x _ => hthreads x.1) hI

/-! ## One thread among others that leave its data alone -/

/-- An action as a view of the state shows it.  It must meet the demand; what comes of it is what
comes of it in any state with this view, if the step meets the condition. -/
def seen (view : σ → γ) (demand : ∀ β : Type, Act β → γ → Prop)
    (guard : ∀ β : Type, Act β → Env → σ → Prop) (H : Handler Act Env σ) : Transformer Act γ :=
  fun β a Q g =>
    demand β a g ∧ ∀ s e, view s = g → guard β a e s → Q (H β a e s).2 (view (H β a e s).1)

lemma seen_mono {view : σ → γ} {demand : ∀ β : Type, Act β → γ → Prop}
    {guard : ∀ β : Type, Act β → Env → σ → Prop} {H : Handler Act Env σ} :
    (seen view demand guard H).Mono :=
  fun h hQ => ⟨h.1, fun s e hs hg => hQ _ _ (h.2 s e hs hg)⟩

variable (H) in
/-- Thread `tid` meets the demand at every action, has `P` all the time and `R` at the end; the
other threads' actions are of the kind `Other`. -/
structure Tended (view : σ → γ) (demand : ∀ β : Type, Act β → γ → Prop)
    (guard : ℕ → ∀ β : Type, Act β → Env → σ → Prop) (P R : γ → Prop)
    (Other : ∀ β : Type, Act β → Prop) (tid : ℕ) (c : Config Act σ) : Prop where
  own : wpWith (watching P (seen view demand (guard tid) (H tid))) (c.threads tid)
    (fun _ g => P g ∧ R g) (view c.state)
  others : ∀ t, t ≠ tid → All Other (c.threads t)

namespace Tended

variable {view : σ → γ} {demand : ∀ β : Type, Act β → γ → Prop}
  {guard : ℕ → ∀ β : Type, Act β → Env → σ → Prop} {P R S : γ → Prop}
  {Other : ∀ β : Type, Act β → Prop} {tid : ℕ} {c : Config Act σ}

lemma holds (h : Tended H view demand guard P R Other tid c) : P (view c.state) := by
  have hown := h.own
  cases hthread : c.threads tid with
  | done a | step a k =>
    rw [hthread] at hown
    exact hown.1

lemma finished (h : Tended H view demand guard P R Other tid c)
    (hdone : (c.threads tid).isDone = true) : R (view c.state) := by
  have hown := h.own
  cases hthread : c.threads tid with
  | done a =>
    rw [hthread] at hown
    exact hown.2
  | step a k =>
    rw [hthread] at hdone
    cases hdone

section Frame

variable (hframe : ∀ t, t ≠ tid → ∀ {β : Type} (a : Act β) (e : Env) (s : σ), guard t β a e s →
  Other β a → view (H t β a e s).1 = view s)
include hframe

/-- A step: the thread in question goes on, the others leave the view alone. -/
lemma step (h : Tended H view demand guard P R Other tid c) (t : ℕ) (e : Env)
    (hguard : ∀ (β : Type) (a : Act β) (k : β → Program Act Unit), c.threads t = .step a k →
      guard t β a e c.state) : Tended H view demand guard P R Other tid (c.step H t e) := by
  rw [Config.step]
  cases hthread : c.threads t with
  | done a => exact h
  | step a k =>
    have hg := hguard _ a k hthread
    by_cases ht : t = tid
    · subst ht
      have hown := h.own
      rw [hthread] at hown
      refine ⟨?_, fun t' ht' => ?_⟩
      · simpa using hown.2.2 c.state e rfl hg
      · simpa [ht'] using h.others t' ht'
    · have hother := h.others t ht
      rw [hthread] at hother
      refine ⟨?_, fun t' ht' => ?_⟩
      · have hsame : Function.update c.threads t (k (H t _ a e c.state).2) tid = c.threads tid :=
          Function.update_of_ne (Ne.symm ht) _ _
        simpa only [hframe t ht a e c.state hg hother.1, hsame] using h.own
      · by_cases htt : t' = t
        · subst htt
          simpa using hother.2 _
        · simpa [htt] using h.others t' ht'

/-- What the demand keeps of the view, a step keeps. -/
lemma step_keeps
    (hS : ∀ {β : Type} (a : Act β) (e : Env) (s : σ), demand β a (view s) → S (view s) →
      S (view (H tid β a e s).1)) (h : Tended H view demand guard P R Other tid c)
    (hs : S (view c.state)) (t : ℕ) (e : Env)
    (hguard : ∀ (β : Type) (a : Act β) (k : β → Program Act Unit), c.threads t = .step a k →
      guard t β a e c.state) : S (view (c.step H t e).state) := by
  rw [Config.step]
  cases hthread : c.threads t with
  | done a => exact hs
  | step a k =>
    by_cases ht : t = tid
    · subst ht
      have hown := h.own
      rw [hthread] at hown
      exact hS a e c.state hown.2.1 hs
    · have hother := h.others t ht
      rw [hthread] at hother
      rw [hframe t ht a e c.state (hguard _ a k hthread) hother.1]
      exact hs

/-- **The rule for a tended view.** -/
theorem run (h : Tended H view demand guard P R Other tid c) {sched : List (ℕ × Env)}
    (halong : Along H (fun c t β a e => guard t β a e c.state) c sched) :
    Tended H view demand guard P R Other tid (c.run H sched) := by
  induction sched generalizing c with
  | nil => exact h
  | cons x rest ih => exact ih (h.step hframe x.1 x.2 halong.1) halong.2

theorem run_keeps
    (hS : ∀ {β : Type} (a : Act β) (e : Env) (s : σ), demand β a (view s) → S (view s) →
      S (view (H tid β a e s).1)) (h : Tended H view demand guard P R Other tid c)
    (hs : S (view c.state)) {sched : List (ℕ × Env)}
    (halong : Along H (fun c t β a e => guard t β a e c.state) c sched) :
    S (view (c.run H sched).state) := by
  induction sched generalizing c with
  | nil => exact hs
  | cons x rest ih =>
    exact ih (h.step hframe x.1 x.2 halong.1) (h.step_keeps hframe hS hs x.1 x.2 halong.1)
      halong.2

end Frame

end Tended

end Config

end Program
