import Mathlib.Data.Int.Basic
import ScheduledDb.Core.Program

/-!
# Operations that can stop a program

Division, indexing and allocation are total on the values of a model, and give some default where a
program of the real language panics.  Here they are once more with the panic as a result, in
`Except Panic`, so that a function can be written with all its checks.

To show that it never panics is to show that it agrees with the function without checks:
`foldlM_eq_ok` does so for loops, and `Succeeds` with its rules for programs over a shared state.
-/

/-- What the Go runtime stops a program for. -/
inductive Panic where
  | divideByZero
  | indexOutOfRange
  | makeSliceLen
  deriving DecidableEq, Repr

namespace Runtime

variable {α β γ ε σ : Type}

/-- `x / y` -/
def div (x y : ℤ) : Except Panic ℤ := if y = 0 then .error .divideByZero else .ok (x.tdiv y)

/-- `x % y` -/
def mod (x y : ℤ) : Except Panic ℤ := if y = 0 then .error .divideByZero else .ok (x.tmod y)

/-- `xs[i]` -/
def index (xs : List α) (i : ℕ) : Except Panic α :=
  match xs[i]? with
  | some x => .ok x
  | none => .error .indexOutOfRange

/-- The longest slice of 8-byte elements: an address has 48 bits. -/
def maxSliceLen : ℤ := 35184372088832

/-- `make([]T, n)`, filled with `x`, for elements of 8 bytes. -/
def makeSlice (n : ℤ) (x : α) : Except Panic (List α) :=
  if 0 ≤ n ∧ n ≤ maxSliceLen then .ok (List.replicate n.toNat x) else .error .makeSliceLen

lemma div_eq_ok (x : ℤ) {y : ℤ} (hy : y ≠ 0) : div x y = .ok (x.tdiv y) := if_neg hy

lemma mod_eq_ok (x : ℤ) {y : ℤ} (hy : y ≠ 0) : mod x y = .ok (x.tmod y) := if_neg hy

lemma index_eq_ok {xs : List α} {i : ℕ} {x : α} (h : xs[i]? = some x) : index xs i = .ok x := by
  rw [index, h]

@[simp] lemma ok_bind (a : α) (f : α → Except ε β) : (Except.ok a >>= f) = f a := rfl

/-- **The loop rule**: if every round agrees with a round without checks, as long as an invariant
holds, so does the loop. -/
lemma foldlM_eq_ok {I : σ → Prop} {f : σ → α → Except ε σ} {g : σ → α → σ} {xs : List α}
    (hstep : ∀ s, ∀ x ∈ xs, I s → f s x = .ok (g s x) ∧ I (g s x)) {s : σ} (hs : I s) :
    xs.foldlM f s = .ok (xs.foldl g s) ∧ I (xs.foldl g s) := by
  induction xs generalizing s with
  | nil => exact ⟨rfl, hs⟩
  | cons x xs ih =>
    obtain ⟨hfirst, hkept⟩ := hstep s x List.mem_cons_self hs
    rw [List.foldlM_cons, hfirst, ok_bind, List.foldl_cons]
    exact ih (fun s y hy => hstep s y (List.mem_cons_of_mem x hy)) hkept

end Runtime

/-! ## Programs -/

namespace Program

universe u v w

variable {Act : Type → Type w} {α β ε ι : Type} {Env : Type u} {σ : Type v}
  (H : Handler Act Env σ) (I : σ → Prop)

/-- Go on with the result of a check. -/
def check (x : Except ε α) : ExceptT ε (Program Act) α := ExceptT.mk (pure x)

/-- Where the invariant holds, the program with checks runs like the one without, and keeps the
invariant. -/
def Succeeds (p' : ExceptT ε (Program Act) α) (p : Program Act α) : Prop :=
  ∀ env s, I s →
    run H p'.run env s
      = ((run H p env s).1, .ok (run H p env s).2.1, (run H p env s).2.2) ∧
    I (run H p env s).1

namespace Succeeds

variable {H I} {p' : ExceptT ε (Program Act) α} {p : Program Act α} {f : α → Program Act β}
  {f' : α → ExceptT ε (Program Act) β}

lemma pure (a : α) : Succeeds H I (ε := ε) (Pure.pure a) (Pure.pure a) := fun _ _ hs => ⟨rfl, hs⟩

/-- Sequencing, with what is known of the first result. -/
lemma bind_of {Q : α → Prop} (hp : Succeeds H I p' p) (hQ : ∀ env s, I s → Q (run H p env s).2.1)
    (hf : ∀ a, Q a → Succeeds H I (f' a) (f a)) : Succeeds H I (p' >>= f') (p >>= f) := by
  intro env s hs
  obtain ⟨hrun, hkept⟩ := hp env s hs
  obtain ⟨hrun', hkept'⟩ := hf _ (hQ env s hs) (run H p env s).2.2 _ hkept
  rw [ExceptT.run_bind, run_bind, hrun, run_bind]
  exact ⟨hrun', hkept'⟩

lemma bind (hp : Succeeds H I p' p) (hf : ∀ a, Succeeds H I (f' a) (f a)) :
    Succeeds H I (p' >>= f') (p >>= f) :=
  hp.bind_of (Q := fun _ => True) (fun _ _ _ => trivial) fun a _ => hf a

/-- A check that passes. -/
lemma check_bind {a : α} {x : Except ε α} {q : Program Act β} (hx : x = .ok a)
    (hf : Succeeds H I (f' a) q) : Succeeds H I (check x >>= f') q := by
  subst hx
  exact hf

/-- An action that makes checks. -/
lemma action {a' : Act (Except ε α)} {a : Act α}
    (h : ∀ e s, I s → H _ a' e s = ((H _ a e s).1, .ok (H _ a e s).2) ∧ I (H _ a e s).1) :
    Succeeds H I (ExceptT.mk (perform a')) (perform a) := by
  intro env s hs
  obtain ⟨hrun, hkept⟩ := h (env 0) s hs
  refine ⟨?_, hkept⟩
  change ((H _ a' (env 0) s).1, (H _ a' (env 0) s).2, _) = _
  rw [hrun]
  rfl

/-- Actions without checks. -/
lemma lift (hp : All (fun β a => ∀ e s, I s → I (H β a e s).1) p) :
    Succeeds H I (ε := ε) (ExceptT.lift p) p := by
  intro env s hs
  refine ⟨?_, ?_⟩
  · change run H (p >>= fun a => Pure.pure (Except.ok a)) env s = _
    rw [run_bind]
    rfl
  · induction p generalizing env s with
    | done a => exact hs
    | step a k ih => exact ih _ (hp.2 _) _ _ (hp.1 _ s hs)

lemma ite {c : Prop} [Decidable c] {q' : ExceptT ε (Program Act) α} {q : Program Act α}
    (hp : c → Succeeds H I p' p) (hq : ¬ c → Succeeds H I q' q) :
    Succeeds H I (if c then p' else q') (if c then p else q) := by
  by_cases h : c
  · simpa only [if_pos h] using hp h
  · simpa only [if_neg h] using hq h

lemma forEach {xs : List ι} {f' : ι → ExceptT ε (Program Act) Unit} {f : ι → Program Act Unit}
    (hf : ∀ x, Succeeds H I (f' x) (f x)) : Succeeds H I (xs.forM f') (Program.forEach xs f) := by
  induction xs with
  | nil => exact pure ()
  | cons x xs ih => exact bind (hf x) fun _ => ih

end Succeeds

end Program
