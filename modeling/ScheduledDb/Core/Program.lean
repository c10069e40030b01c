import Mathlib.Data.Nat.Notation
import Mathlib.Logic.Basic
import Mathlib.Tactic.Lemma

/-!
# Programs over a shared state

A `Program` is a tree of atomic actions: each node names an action and says how to go on with its
answer.  A `Handler` gives the actions their meaning on a state; what the state does not determine
(the time, whether a commit succeeds, the answer of a remote party) is read from an environment
value, one per action, so that quantifying over environments is quantifying over behaviours.

* `run` executes a program alone, against a stream of environments; it is total.
* `wpWith` is the weakest precondition when actions are known only by what may come of them, with
  the rules one expects (`wpWith_bind`, `wpWith_mono`, `wpWith_forEach`).
* `demonic` makes a transformer of a handler and a condition on steps, `Meets` says that all steps
  of a run meet the condition, and `wpWith_run` is soundness; `wp` is the case of a condition on the
  environment alone.
* `All` says which actions occur in a program at all.
-/

universe u v w

/-- A tree of actions with a result at every leaf. -/
inductive Program (Act : Type → Type w) (α : Type) : Type (max 1 w) where
  | done (a : α)
  | step {β : Type} (a : Act β) (k : β → Program Act α)

namespace Program

open List

variable {Act : Type → Type w} {α β γ ι : Type} {Env : Type u} {σ : Type v}

def bind : Program Act α → (α → Program Act β) → Program Act β
  | done a, f => f a
  | step a k, f => step a fun b => (k b).bind f

instance : Monad (Program Act) where
  pure := done
  bind := bind

/-- Nothing is left to do. -/
def isDone : Program Act α → Bool
  | done _ => true
  | step _ _ => false

/-- A single action. -/
def perform (a : Act α) : Program Act α := step a done

@[simp] lemma pure_eq (a : α) : (pure a : Program Act α) = done a := rfl

@[simp] lemma done_bind (a : α) (f : α → Program Act β) : (done a >>= f) = f a := rfl

@[simp] lemma step_bind (a : Act γ) (k : γ → Program Act α) (f : α → Program Act β) :
    (step a k >>= f) = step a fun b => k b >>= f := rfl

@[simp] lemma perform_bind (a : Act α) (f : α → Program Act β) : (perform a >>= f) = step a f := rfl

lemma bind_bind (p : Program Act α) (f : α → Program Act β) (g : β → Program Act γ) :
    ((p >>= f) >>= g) = p >>= fun a => f a >>= g := by
  induction p with
  | done a => rfl
  | step a k ih =>
    simp only [step_bind]
    exact congrArg (step a) (funext ih)

/-- Run a program for every element of a list. -/
def forEach (xs : List ι) (f : ι → Program Act Unit) : Program Act Unit :=
  match xs with
  | [] => done ()
  | x :: xs => f x >>= fun _ => forEach xs f

/-- Thread an accumulator through a list. -/
def foldEach (xs : List ι) (f : α → ι → Program Act α) (a : α) : Program Act α :=
  match xs with
  | [] => done a
  | x :: xs => f a x >>= fun a => foldEach xs f a

/-! ## Meaning -/

/-- What an action does to the state, and its answer. -/
abbrev Handler (Act : Type → Type w) (Env : Type u) (σ : Type v) :=
  ∀ β : Type, Act β → Env → σ → σ × β

variable (H : Handler Act Env σ)

/-- Execute alone.  The last component is the part of the environment not used up. -/
def run : Program Act α → (ℕ → Env) → σ → σ × α × (ℕ → Env)
  | done a, env, s => (s, a, env)
  | step a k, env, s =>
    let r := H _ a (env 0) s
    run (k r.2) (fun n => env (n + 1)) r.1

@[simp] lemma run_done (a : α) (env : ℕ → Env) (s : σ) : run H (done a) env s = (s, a, env) := rfl

@[simp] lemma run_step (a : Act β) (k : β → Program Act α) (env : ℕ → Env) (s : σ) :
    run H (step a k) env s
      = run H (k (H _ a (env 0) s).2) (fun n => env (n + 1)) (H _ a (env 0) s).1 := rfl

lemma run_bind (p : Program Act α) (f : α → Program Act β) (env : ℕ → Env) (s : σ) :
    run H (p >>= f) env s
      = run H (f (run H p env s).2.1) (run H p env s).2.2 (run H p env s).1 := by
  induction p generalizing env s with
  | done a => rfl
  | step a k ih => exact ih _ _ _

/-- What there is to see of the actions that a run performs, in order. -/
def observed (look : ∀ β : Type, Act β → Option γ) : Program Act α → (ℕ → Env) → σ → List γ
  | done _, _, _ => []
  | step a k, env, s =>
    (look _ a).toList ++
      observed look (k (H _ a (env 0) s).2) (fun n => env (n + 1)) (H _ a (env 0) s).1

/-! ## Weakest preconditions

First for actions of which only a predicate transformer is known, then for a handler. -/

/-- `T a Q s`: whatever comes of action `a` in state `s` satisfies `Q`. -/
abbrev Transformer (Act : Type → Type w) (σ : Type v) :=
  ∀ β : Type, Act β → (β → σ → Prop) → σ → Prop

/-- A weaker postcondition is met as well. -/
def Transformer.Mono (T : Transformer Act σ) : Prop :=
  ∀ {β : Type} {a : Act β} {Q Q' : β → σ → Prop} {s : σ}, T β a Q s →
    (∀ b s, Q b s → Q' b s) → T β a Q' s

/-- `Q` holds at the end, as far as `T` tells. -/
def wpWith (T : Transformer Act σ) : Program Act α → (α → σ → Prop) → σ → Prop
  | done a, Q, s => Q a s
  | step a k, Q, s => T _ a (fun b s => wpWith T (k b) Q s) s

section Transformer

variable {T : Transformer Act σ} {Q : α → σ → Prop} {s : σ} {a : α} {p : Program Act α}
  {I : σ → Prop} {f : ι → Program Act Unit}

@[simp] lemma wpWith_done : wpWith T (done a) Q s ↔ Q a s := Iff.rfl

@[simp] lemma wpWith_step {a : Act β} {k : β → Program Act α} :
    wpWith T (step a k) Q s ↔ T _ a (fun b s => wpWith T (k b) Q s) s := Iff.rfl

lemma wpWith_ite {c : Prop} [Decidable c] {q : Program Act α} :
    wpWith T (if c then p else q) Q s ↔ (c → wpWith T p Q s) ∧ (¬ c → wpWith T q Q s) := by
  by_cases h : c
  · simp [h]
  · simp [h]

/-- The rule of composition. -/
lemma wpWith_bind {f : α → Program Act β} {Q : β → σ → Prop} :
    wpWith T (p >>= f) Q s ↔ wpWith T p (fun a s => wpWith T (f a) Q s) s := by
  induction p generalizing s with
  | done a => exact Iff.rfl
  | step a k ih =>
    have hk : (fun b s => wpWith T (k b >>= f) Q s)
        = fun b s => wpWith T (k b) (fun a s => wpWith T (f a) Q s) s := by
      funext b s
      exact propext (ih b)
    rw [step_bind, wpWith_step, wpWith_step, hk]

lemma wpWith_mono (hT : T.Mono) {Q' : α → σ → Prop} (h : wpWith T p Q s)
    (hQ : ∀ a s, Q a s → Q' a s) : wpWith T p Q' s := by
  induction p generalizing s with
  | done a => exact hQ a s h
  | step a k ih => exact hT h fun b s' hs' => ih b hs'

/-- **The rule of sequence.** -/
lemma wpWith_seq (hT : T.Mono) {f : α → Program Act β} {R : β → σ → Prop} (h : wpWith T p Q s)
    (hf : ∀ a s', Q a s' → wpWith T (f a) R s') : wpWith T (p >>= f) R s :=
  wpWith_bind.mpr (wpWith_mono hT h hf)

/-- **The loop rule**: an invariant of the body is one of the loop. -/
theorem wpWith_forEach (hT : T.Mono) (xs : List ι)
    (hbody : ∀ x ∈ xs, ∀ s, I s → wpWith T (f x) (fun _ => I) s) (hs : I s) :
    wpWith T (forEach xs f) (fun _ => I) s := by
  induction xs generalizing s with
  | nil => exact hs
  | cons x xs ih =>
    rw [forEach, wpWith_bind]
    refine wpWith_mono hT (hbody x mem_cons_self s hs) fun _ s' hs' => ?_
    exact ih (fun y hy => hbody y (mem_cons_of_mem x hy)) hs'

/-- The rule for a loop that comes to a certain element once: `I` before, `J` from then on. -/
theorem wpWith_forEach_once (hT : T.Mono) {J : σ → Prop} {x : ι}
    (hat : ∀ s, I s → wpWith T (f x) (fun _ => J) s) (xs : List ι) (hnodup : xs.Nodup) (hx : x ∈ xs)
    (hbefore : ∀ y ∈ xs, y ≠ x → ∀ s, I s → wpWith T (f y) (fun _ => I) s)
    (hafter : ∀ y ∈ xs, y ≠ x → ∀ s, J s → wpWith T (f y) (fun _ => J) s) (hs : I s) :
    wpWith T (forEach xs f) (fun _ => J) s := by
  induction xs generalizing s with
  | nil => cases hx
  | cons y ys ih =>
    obtain ⟨hy, hys⟩ := nodup_cons.mp hnodup
    rw [forEach, wpWith_bind]
    rcases mem_cons.mp hx with rfl | hx
    · refine wpWith_mono hT (hat s hs) fun _ s' hs' => ?_
      refine wpWith_forEach hT ys (fun z hz => hafter z (mem_cons_of_mem x hz) ?_) hs'
      rintro rfl
      exact hy hz
    · have hne : y ≠ x := by
        rintro rfl
        exact hy hx
      refine wpWith_mono hT (hbefore y mem_cons_self hne s hs) fun _ s' hs' => ?_
      exact ih hys hx (fun z hz => hbefore z (mem_cons_of_mem y hz))
        (fun z hz => hafter z (mem_cons_of_mem y hz)) hs'

/-- The rule for a loop whose body achieves something for its element and undoes it for none. -/
theorem wpWith_forEach_each (hT : T.Mono) {P : ι → σ → Prop} (xs : List ι)
    (hbody : ∀ x ∈ xs, ∀ s, I s →
      wpWith T (f x) (fun _ s' => I s' ∧ P x s' ∧ ∀ y, P y s → P y s') s) (hs : I s) :
    wpWith T (forEach xs f)
      (fun _ s' => I s' ∧ (∀ x ∈ xs, P x s') ∧ ∀ y, P y s → P y s') s := by
  induction xs generalizing s with
  | nil => exact ⟨hs, by simp, fun _ h => h⟩
  | cons x xs ih =>
    rw [forEach, wpWith_bind]
    refine wpWith_mono hT (hbody x mem_cons_self s hs) fun _ s' hs' => ?_
    refine wpWith_mono hT (ih (fun y hy => hbody y (mem_cons_of_mem x hy)) hs'.1) ?_
    rintro _ s'' ⟨hI, hdone, hkeep⟩
    refine ⟨hI, fun y hy => ?_, fun y hy => hkeep y (hs'.2.2 y hy)⟩
    rcases mem_cons.mp hy with rfl | hy
    · exact hkeep y hs'.2.1
    · exact hdone y hy

/-- The rule for a loop with an accumulator. -/
theorem wpWith_foldEach (hT : T.Mono) {I : α → σ → Prop} {f : α → ι → Program Act α} (xs : List ι)
    (hbody : ∀ x ∈ xs, ∀ a s, I a s → wpWith T (f a x) I s) (hs : I a s) :
    wpWith T (foldEach xs f a) I s := by
  induction xs generalizing a s with
  | nil => exact hs
  | cons x xs ih =>
    rw [foldEach, wpWith_bind]
    refine wpWith_mono hT (hbody x mem_cons_self a s hs) fun a' s' hs' => ?_
    exact ih (fun y hy => hbody y (mem_cons_of_mem x hy)) hs'

/-- What a more cautious transformer promises, a bolder one does. -/
lemma wpWith_le {T' : Transformer Act σ} (hT' : T'.Mono)
    (hle : ∀ {β : Type} (a : Act β) (Q : β → σ → Prop) (s : σ), T β a Q s → T' β a Q s)
    (h : wpWith T p Q s) : wpWith T' p Q s := by
  induction p generalizing s with
  | done a => exact h
  | step a k ih => exact hT' (hle a _ s h) fun b s' hs' => ih b hs'

end Transformer

/-! ## Programs made of certain actions only -/

/-- Every action of the program satisfies `P`, whatever the answers. -/
def All (P : ∀ β : Type, Act β → Prop) : Program Act α → Prop
  | done _ => True
  | step a k => P _ a ∧ ∀ b, All P (k b)

section All

variable {P P' : ∀ β : Type, Act β → Prop} {p : Program Act α} {xs : List ι} {Q : α → σ → Prop}
  {s : σ} {T : Transformer Act σ}

@[simp] lemma all_done {a : α} : All P (done a : Program Act α) := trivial

@[simp] lemma all_step {a : Act β} {k : β → Program Act α} :
    All P (step a k) ↔ P _ a ∧ ∀ b, All P (k b) := Iff.rfl

lemma all_true : All (fun _ _ => True) p := by
  induction p with
  | done a => trivial
  | step a k ih => exact ⟨trivial, ih⟩

lemma all_ite {c : Prop} [Decidable c] {q : Program Act α} :
    All P (if c then p else q) ↔ (c → All P p) ∧ (¬ c → All P q) := by
  by_cases h : c
  · simp [h]
  · simp [h]

lemma All.bind {f : α → Program Act β} (hp : All P p) (hf : ∀ a, All P (f a)) : All P (p >>= f) := by
  induction p with
  | done a => exact hf a
  | step a k ih => exact ⟨hp.1, fun b => ih b (hp.2 b)⟩

lemma All.mono (h : All P p) (hP : ∀ {β : Type} (a : Act β), P β a → P' β a) : All P' p := by
  induction p with
  | done a => trivial
  | step a k ih => exact ⟨hP a h.1, fun b => ih b (h.2 b)⟩

lemma all_forEach {f : ι → Program Act Unit} (h : ∀ x ∈ xs, All P (f x)) :
    All P (forEach xs f) := by
  induction xs with
  | nil => trivial
  | cons x xs ih =>
    exact (h x mem_cons_self).bind fun _ => ih fun y hy => h y (mem_cons_of_mem x hy)

lemma all_foldEach {f : α → ι → Program Act α} (h : ∀ a, ∀ x ∈ xs, All P (f a x)) (a : α) :
    All P (foldEach xs f a) := by
  induction xs generalizing a with
  | nil => trivial
  | cons x xs ih =>
    exact (h a x mem_cons_self).bind
      (ih fun a y hy => h a y (mem_cons_of_mem x hy))

/-- **The frame rule**: actions that leave the state alone make a program that does. -/
theorem All.wpWith (h : All P p)
    (hT : ∀ {β : Type} (a : Act β) (Q : β → σ → Prop), P β a → (∀ b, Q b s) → T β a Q s)
    (hQ : ∀ a, Q a s) : Program.wpWith T p Q s := by
  induction p with
  | done a => exact hQ a
  | step a k ih => exact hT a _ h.1 fun b => ih b (h.2 b)

/-- The same for actions that keep the state within `R`. -/
theorem All.wpWith_within {R : σ → Prop} (h : All P p)
    (hT : ∀ {β : Type} (a : Act β) (Q : β → σ → Prop) (s : σ), P β a → R s →
      (∀ b s', R s' → Q b s') → T β a Q s) (hs : R s) (hQ : ∀ a s', R s' → Q a s') :
    Program.wpWith T p Q s := by
  induction p generalizing s with
  | done a => exact hQ a s hs
  | step a k ih => exact hT a _ s h.1 hs fun b s' hs' => ih b (h.2 b) hs'

end All

/-! ## Runs under a condition on every step -/

variable (guard : ∀ β : Type, Act β → Env → σ → Prop)

/-- All outcomes of an action that meets the condition. -/
def demonic : Transformer Act σ :=
  fun β a Q s => ∀ e, guard β a e s → Q (H _ a e s).2 (H _ a e s).1

/-- Every step of the run meets the condition. -/
def Meets : Program Act α → (ℕ → Env) → σ → Prop
  | done _, _, _ => True
  | step a k, env, s =>
    guard _ a (env 0) s ∧
      Meets (k (H _ a (env 0) s).2) (fun n => env (n + 1)) (H _ a (env 0) s).1

instance instDecidableMeets [∀ β a e s, Decidable (guard β a e s)] :
    ∀ (p : Program Act α) (env : ℕ → Env) (s : σ), Decidable (Meets H guard p env s)
  | done _, _, _ => isTrue trivial
  | step a k, env, s =>
    have := instDecidableMeets (k (H _ a (env 0) s).2) (fun n => env (n + 1)) (H _ a (env 0) s).1
    inferInstanceAs (Decidable (_ ∧ _))

variable {H guard} {Q Q' : α → σ → Prop} {s : σ} {p : Program Act α} {I P : σ → Prop}
  {env : ℕ → Env} {f : ι → Program Act Unit} {C : ι → (ℕ → Env) → σ → Prop} {xs : List ι}

lemma demonic_mono : (demonic H guard).Mono := fun h hQ e he => hQ _ _ (h e he)

/-- **The conjunction rule**: what was shown separately holds together. -/
theorem wpWith_and (h : wpWith (demonic H guard) p Q s) (h' : wpWith (demonic H guard) p Q' s) :
    wpWith (demonic H guard) p (fun a s => Q a s ∧ Q' a s) s := by
  induction p generalizing s with
  | done a => exact ⟨h, h'⟩
  | step a k ih => exact fun e he => ih _ (h e he) (h' e he)

/-- **The invariant rule**: what all actions of a program keep, the program keeps. -/
theorem All.invariant {P : ∀ β : Type, Act β → Prop} (h : All P p)
    (hstep : ∀ {β : Type} (a : Act β) (e : Env) (s : σ), P β a → guard β a e s → I s →
      I (H β a e s).1) (hs : I s) : Program.wpWith (demonic H guard) p (fun _ => I) s := by
  induction p generalizing s with
  | done a => exact hs
  | step a k ih => exact fun e he => ih _ (h.2 _) (hstep a e s h.1 he hs)

/-- **Soundness**: what the precondition promises holds of every run that meets the condition. -/
theorem wpWith_run (h : wpWith (demonic H guard) p Q s) (hmeets : Meets H guard p env s) :
    Q (run H p env s).2.1 (run H p env s).1 := by
  induction p generalizing s env with
  | done a => exact h
  | step a k ih => exact ih _ (h (env 0) hmeets.1) hmeets.2

/-! ## Runs that are cut off -/

variable (H) in
/-- Execute, but at most `k` actions. -/
def runFor : ℕ → Program Act α → (ℕ → Env) → σ → σ
  | 0, _, _, s => s
  | _ + 1, done _, _, s => s
  | k + 1, step a f, env, s =>
    runFor k (f (H _ a (env 0) s).2) (fun n => env (n + 1)) (H _ a (env 0) s).1

/-- A transformer that asks for `P` before every action. -/
def watching (P : σ → Prop) (T : Transformer Act σ) : Transformer Act σ :=
  fun β a Q s => P s ∧ T β a Q s

lemma watching_mono {T : Transformer Act σ} (hT : T.Mono) : (watching P T).Mono :=
  fun h hQ => ⟨h.1, hT h.2 hQ⟩

/-- **Soundness**: what is watched over holds wherever a run is cut off. -/
theorem runFor_of_watching
    (h : wpWith (watching P (demonic H fun _ _ _ _ => True)) p (fun _ => P) s) (k : ℕ)
    (env : ℕ → Env) : P (runFor H k p env s) := by
  induction p generalizing s env k with
  | done a => cases k <;> exact h
  | step a f ih =>
    cases k with
    | zero => exact h.1
    | succ k => exact ih _ (h.2 (env 0) trivial) k _

/-- Every round of a loop starts as the condition asks. -/
def Each (H : Handler Act Env σ) (C : ι → (ℕ → Env) → σ → Prop) (f : ι → Program Act Unit) :
    List ι → (ℕ → Env) → σ → Prop
  | [], _, _ => True
  | x :: xs, env, s =>
    C x env s ∧ Each H C f xs (run H (f x) env s).2.2 (run H (f x) env s).1

instance instDecidableEach (C : ι → (ℕ → Env) → σ → Prop) [∀ x env s, Decidable (C x env s)]
    (f : ι → Program Act Unit) :
    ∀ (xs : List ι) (env : ℕ → Env) (s : σ), Decidable (Each H C f xs env s)
  | [], _, _ => isTrue trivial
  | x :: xs, env, s =>
    have := instDecidableEach C f xs (run H (f x) env s).2.2 (run H (f x) env s).1
    inferInstanceAs (Decidable (_ ∧ _))

/-- The loop rule for rounds under a condition. -/
theorem Each.run (hbody : ∀ x env s, C x env s → I s → I (Program.run H (f x) env s).1)
    (h : Each H C f xs env s) (hs : I s) : I (Program.run H (forEach xs f) env s).1 := by
  induction xs generalizing env s with
  | nil => exact hs
  | cons x xs ih =>
    rw [forEach, run_bind]
    exact ih h.2 (hbody x env s h.1 hs)

/-- What is left of the environment is a part of it. -/
lemma run_env (p : Program Act α) (env : ℕ → Env) (s : σ) (i : ℕ) :
    ∃ j, (Program.run H p env s).2.2 i = env j := by
  induction p generalizing env s with
  | done a => exact ⟨i, rfl⟩
  | step a k ih =>
    obtain ⟨j, hj⟩ := ih _ (fun n => env (n + 1)) (H _ a (env 0) s).1
    exact ⟨j + 1, hj⟩

/-- The same where all environments are admissible. -/
theorem Each.run_of_forall {ok : Env → Prop}
    (hbody : ∀ x env s, (∀ i, ok (env i)) → C x env s → I s → I (Program.run H (f x) env s).1)
    (henv : ∀ i, ok (env i)) (h : Each H C f xs env s) (hs : I s) :
    I (Program.run H (forEach xs f) env s).1 := by
  induction xs generalizing env s with
  | nil => exact hs
  | cons x xs ih =>
    rw [forEach, run_bind]
    refine ih (fun i => ?_) h.2 (hbody x env s henv h.1 hs)
    obtain ⟨j, hj⟩ := run_env (f x) env s i
    exact hj ▸ henv j

/-- **The rule for loops that simulate a fold, unless a round breaks it.**  If a round keeps the
relation exactly when it starts as the condition asks, then the relation holds after every number of
rounds exactly when all rounds start so. -/
theorem forEach_simulates_iff {μ : Type*} {g : μ → ι → μ} {J : (ℕ → Env) → σ → Prop}
    {R : μ → σ → Prop}
    (hJ : ∀ x env s, J env s → J (Program.run H (f x) env s).2.2 (Program.run H (f x) env s).1)
    (hR : ∀ x ∈ xs, ∀ env s m, J env s → R m s →
      (R (g m x) (Program.run H (f x) env s).1 ↔ C x env s)) {m : μ} (hs : J env s) (hm : R m s) :
    (∀ l, l <+: xs → R (l.foldl g m) (Program.run H (forEach l f) env s).1) ↔
      Each H C f xs env s := by
  induction xs generalizing env s m with
  | nil => simpa [Each, forEach] using hm
  | cons x xs ih =>
    have hone := hR x mem_cons_self env s m hs hm
    have hrest := fun hnext => ih (fun y hy => hR y (mem_cons_of_mem x hy))
      (hJ x env s hs) (m := g m x) hnext
    simp only [prefix_cons_iff, forall_eq_or_imp, forall_exists_index, and_imp]
    constructor
    · rintro ⟨_, hall⟩
      have hnext := hall [x] [] rfl nil_prefix
      rw [forEach, run_bind] at hnext
      refine ⟨hone.mp hnext, (hrest hnext).mp fun l hl => ?_⟩
      have hboth := hall (x :: l) l rfl hl
      rwa [forEach, run_bind] at hboth
    · rintro ⟨hcond, heach⟩
      refine ⟨hm, ?_⟩
      rintro _ l rfl hl
      rw [forEach, run_bind]
      exact (hrest (hone.mpr hcond)).mpr heach l hl

variable (H) (ok : Env → Prop)

/-- `Q` holds at the end of every run whose environments are all admissible. -/
def wp (p : Program Act α) (Q : α → σ → Prop) (s : σ) : Prop :=
  wpWith (demonic H fun _ _ e _ => ok e) p Q s

variable {H ok}

@[simp] lemma wp_done {a : α} : wp H ok (done a) Q s ↔ Q a s := Iff.rfl

@[simp] lemma wp_step {a : Act β} {k : β → Program Act α} :
    wp H ok (step a k) Q s ↔ ∀ e, ok e → wp H ok (k (H _ a e s).2) Q (H _ a e s).1 := Iff.rfl

lemma wp_ite {c : Prop} [Decidable c] {q : Program Act α} :
    wp H ok (if c then p else q) Q s ↔ (c → wp H ok p Q s) ∧ (¬ c → wp H ok q Q s) :=
  wpWith_ite

lemma wp_bind {f : α → Program Act β} {Q : β → σ → Prop} :
    wp H ok (p >>= f) Q s ↔ wp H ok p (fun a s => wp H ok (f a) Q s) s :=
  wpWith_bind

lemma wp_mono (h : wp H ok p Q s) (hQ : ∀ a s, Q a s → Q' a s) : wp H ok p Q' s :=
  wpWith_mono demonic_mono h hQ

lemma wp_seq {f : α → Program Act β} {R : β → σ → Prop} (h : wp H ok p Q s)
    (hf : ∀ a s', Q a s' → wp H ok (f a) R s') : wp H ok (p >>= f) R s :=
  wpWith_seq demonic_mono h hf

theorem wp_forEach (xs : List ι) (hbody : ∀ x ∈ xs, ∀ s, I s → wp H ok (f x) (fun _ => I) s)
    (hs : I s) : wp H ok (forEach xs f) (fun _ => I) s :=
  wpWith_forEach demonic_mono xs hbody hs

theorem wp_forEach_each {P : ι → σ → Prop} (xs : List ι) (hbody : ∀ x ∈ xs, ∀ s, I s →
      wp H ok (f x) (fun _ s' => I s' ∧ P x s' ∧ ∀ y, P y s → P y s') s) (hs : I s) :
    wp H ok (forEach xs f) (fun _ s' => I s' ∧ (∀ x ∈ xs, P x s') ∧ ∀ y, P y s → P y s') s :=
  wpWith_forEach_each demonic_mono xs hbody hs

/-- A stronger condition on steps may be used instead. -/
lemma wp.guarded (h : wp H ok p Q s)
    (hguard : ∀ {β : Type} (a : Act β) (e : Env) (s : σ), guard β a e s → ok e) :
    wpWith (demonic H guard) p Q s :=
  wpWith_le demonic_mono (fun a _ s ha e he => ha e (hguard a e s he)) h

lemma meets_of_forall (h : ∀ i {β : Type} (a : Act β) (s : σ), guard β a (env i) s) :
    Meets H guard p env s := by
  induction p generalizing s env with
  | done a => trivial
  | step a k ih => exact ⟨h 0 a s, ih _ fun i => h (i + 1)⟩

theorem wp_run (h : wp H ok p Q s) (henv : ∀ n, ok (env n)) :
    Q (run H p env s).2.1 (run H p env s).1 :=
  wpWith_run h (meets_of_forall fun i _ _ _ => henv i)

/-- **Completeness**: what holds of all runs, the precondition promises. -/
theorem wp_of_run (h : ∀ env : ℕ → Env, (∀ n, ok (env n)) → ∀ r, r = run H p env s → Q r.2.1 r.1)
    (hok : ∃ e, ok e) : wp H ok p Q s := by
  induction p generalizing s with
  | done a =>
    obtain ⟨e, he⟩ := hok
    exact h (fun _ => e) (fun _ => he) _ rfl
  | step a k ih =>
    intro e he
    refine ih _ fun env henv r hr => ?_
    refine h (Nat.rec (motive := fun _ => Env) e fun n _ => env n) (fun n => ?_) r hr
    cases n with
    | zero => exact he
    | succ n => exact henv n

end Program
