import Mathlib.Tactic.Lemma
import Mathlib.Tactic.Ring
import Mathlib.Tactic.Linarith
import Mathlib.Algebra.Order.Ring.Nat

/-!
# Mixed-radix counters

An odometer has wheels `0, 1, 2, …`, wheel `i` with `n i` faces.  One tick turns wheel `0` by one
face; a wheel that comes round to face `0` turns the next one.  `span n i` is the number of ticks
between two turns of wheel `i`, so after `t` ticks wheel `i` has turned `t / span n i` times
(`carry_iff` is the reason).

`nextTurn T j m` is the number of turns a wheel with `m` faces has made when it next shows face
`j`, counting from `T` turns on.
-/

namespace Odometer

/-- Ticks between two turns of wheel `i`. -/
def span (n : ℕ → ℕ) : ℕ → ℕ
  | 0 => 1
  | i + 1 => span n i * n i

@[simp] lemma span_zero (n : ℕ → ℕ) : span n 0 = 1 := rfl

lemma span_succ (n : ℕ → ℕ) (i : ℕ) : span n (i + 1) = span n i * n i := rfl

variable {n : ℕ → ℕ} {j m T : ℕ}

lemma span_pos (hn : ∀ i, 0 < n i) : ∀ i, 0 < span n i
  | 0 => Nat.one_pos
  | i + 1 => Nat.mul_pos (span_pos hn i) (hn i)

lemma span_mono (hn : ∀ i, 0 < n i) : Monotone (span n) :=
  monotone_nat_of_le_succ fun i => Nat.le_mul_of_pos_right _ (hn i)

lemma span_dvd (n : ℕ → ℕ) {i : ℕ} (hij : i ≤ j) : span n i ∣ span n j := by
  induction hij with
  | refl => exact dvd_rfl
  | step _ ih => exact ih.trans (Nat.dvd_mul_right _ _)

/-- A tick that turns wheel `i + 1` is one that turns wheel `i` and brings it round. -/
lemma carry_iff (i t : ℕ) : t % span n (i + 1) = 0 ↔ t % span n i = 0 ∧ t / span n i % n i = 0 := by
  simp only [span_succ, ← Nat.dvd_iff_mod_eq_zero]
  constructor
  · intro h
    have hdvd : span n i ∣ t := (Nat.dvd_mul_right _ _).trans h
    obtain ⟨q, rfl⟩ := h
    refine ⟨hdvd, ?_⟩
    rcases Nat.eq_zero_or_pos (span n i) with h0 | h0
    · simp [h0]
    · rw [Nat.mul_assoc, Nat.mul_div_cancel_left _ h0]
      exact Nat.dvd_mul_right _ _
  · rintro ⟨⟨q, rfl⟩, hq⟩
    rcases Nat.eq_zero_or_pos (span n i) with h0 | h0
    · simp [h0]
    · rw [Nat.mul_div_cancel_left _ h0] at hq
      exact Nat.mul_dvd_mul_left _ hq

/-- Turns made after one more tick. -/
lemma turns_succ (t G : ℕ) : (t + 1) / G = t / G + if (t + 1) % G = 0 then 1 else 0 := by
  rw [Nat.succ_div]
  simp only [Nat.dvd_iff_mod_eq_zero]

/-- Turns made when face `j` next shows, from `T` turns on. -/
def nextTurn (T j m : ℕ) : ℕ := T + (j + m - T % m) % m

lemma le_nextTurn (T j m : ℕ) : T ≤ nextTurn T j m := Nat.le_add_right _ _

lemma nextTurn_lt (hm : 0 < m) (T j : ℕ) : nextTurn T j m < T + m :=
  Nat.add_lt_add_left (Nat.mod_lt _ hm) T

/-- The face showing now is next shown now. -/
lemma nextTurn_self (T m : ℕ) : nextTurn T (T % m) m = T := by
  simp [nextTurn]

lemma nextTurn_mod (hj : j < m) : nextTurn T j m % m = j := by
  have hm : 0 < m := by omega
  have hT : T % m < m := Nat.mod_lt _ hm
  unfold nextTurn
  rw [Nat.add_mod, Nat.mod_mod]
  rcases Nat.lt_or_ge j (T % m) with h | h
  · rw [Nat.mod_eq_of_lt (a := j + m - T % m) (by omega),
      show T % m + (j + m - T % m) = j + m by omega, Nat.add_mod_right, Nat.mod_eq_of_lt hj]
  · rw [show j + m - T % m = (j - T % m) + m by omega, Nat.add_mod_right,
      Nat.mod_eq_of_lt (a := j - T % m) (by omega), show T % m + (j - T % m) = j by omega,
      Nat.mod_eq_of_lt hj]

/-- Two turn counts less than one revolution apart that show the same face are equal. -/
lemma eq_of_mod_eq {a b : ℕ} (hab : a ≤ b) (hlt : b < a + m) (h : a % m = b % m) : a = b := by
  have hd : (b - a) % m = 0 := Nat.sub_mod_eq_zero_of_mod_eq h.symm
  rw [Nat.mod_eq_of_lt (by omega)] at hd
  omega

/-- The face `o` turns ahead is next shown after `o % m` turns. -/
lemma nextTurn_add (hm : 0 < m) (T o : ℕ) : nextTurn T ((T + o) % m) m = T + o % m := by
  have hmod : nextTurn T ((T + o) % m) m % m = (T + o % m) % m := by
    rw [nextTurn_mod (Nat.mod_lt _ hm), Nat.add_mod_mod]
  have hle := le_nextTurn T ((T + o) % m) m
  have hlt := nextTurn_lt hm T ((T + o) % m)
  have ho : o % m < m := Nat.mod_lt _ hm
  rcases Nat.le_total (nextTurn T ((T + o) % m) m) (T + o % m) with h | h
  · exact eq_of_mod_eq h (by omega) hmod
  · exact (eq_of_mod_eq h (by omega) hmod.symm).symm

/-- Turning past another face does not change when face `j` is next shown. -/
lemma nextTurn_succ (hj : j < m) (hne : j ≠ T % m) : nextTurn (T + 1) j m = nextTurn T j m := by
  have hm : 0 < m := by omega
  have hlt : T < nextTurn T j m := by
    refine lt_of_le_of_ne (le_nextTurn T j m) fun h => hne ?_
    rw [h, nextTurn_mod hj]
  have hmod : nextTurn (T + 1) j m % m = nextTurn T j m % m := by
    rw [nextTurn_mod hj, nextTurn_mod hj]
  have h1 := le_nextTurn (T + 1) j m
  have h2 := nextTurn_lt hm (T + 1) j
  have h3 := nextTurn_lt hm T j
  rcases Nat.le_total (nextTurn (T + 1) j m) (nextTurn T j m) with h | h
  · exact eq_of_mod_eq h (by omega) hmod
  · exact (eq_of_mod_eq h (by omega) hmod.symm).symm

end Odometer
