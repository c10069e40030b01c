import Mathlib.Tactic.Lemma
import Mathlib.Data.Int.Basic

/-!
# Two's-complement 64-bit arithmetic on `ℤ`

Machine integers are kept as `ℤ`, and every operation that can leave the 64-bit range goes
through `wrap64`.  Division and remainder are the truncating ones (`Int.tdiv`, `Int.tmod`).
The only facts a client needs are that `wrap64` is the identity on the range (`wrap64_of_mem`)
and which truncating divisions coincide with the flooring ones.
-/

namespace Machine

/-- `x` is representable as a signed 64-bit integer. -/
def InRange (x : ℤ) : Prop := -9223372036854775808 ≤ x ∧ x < 9223372036854775808

instance (x : ℤ) : Decidable (InRange x) := inferInstanceAs (Decidable (_ ∧ _))

/-- The value a 64-bit register holds after a computation whose exact result is `x`. -/
def wrap64 (x : ℤ) : ℤ := (x + 9223372036854775808) % 18446744073709551616 - 9223372036854775808

variable {x g : ℤ}

lemma wrap64_of_mem (h : InRange x) : wrap64 x = x := by
  obtain ⟨hlo, hhi⟩ := h
  unfold wrap64
  omega

lemma wrap64_inRange (x : ℤ) : InRange (wrap64 x) := by
  unfold InRange wrap64
  omega

/-- Wrapping around does not change what is computed from the result. -/
lemma wrap64_add_mul (x k : ℤ) : wrap64 (x + k * 18446744073709551616) = wrap64 x := by
  unfold wrap64
  omega

lemma wrap64_eq_add (x : ℤ) : ∃ k, wrap64 x = x + k * 18446744073709551616 := by
  refine ⟨-((x + 9223372036854775808) / 18446744073709551616), ?_⟩
  unfold wrap64
  omega

lemma wrap64_wrap64_mul (x y : ℤ) : wrap64 (wrap64 x * y) = wrap64 (x * y) := by
  obtain ⟨k, hk⟩ := wrap64_eq_add x
  have hsplit : wrap64 x * y = x * y + k * y * 18446744073709551616 := by
    rw [hk, Int.add_mul, Int.mul_right_comm]
  rw [hsplit, wrap64_add_mul]

lemma wrap64_wrap64_sub (x y : ℤ) : wrap64 (wrap64 x - y) = wrap64 (x - y) := by
  obtain ⟨k, hk⟩ := wrap64_eq_add x
  have hsplit : wrap64 x - y = x - y + k * 18446744073709551616 := by omega
  rw [hsplit, wrap64_add_mul]

/-- Truncating division by a positive number goes towards zero. -/
lemma InRange.tdiv (h : InRange x) (hg : 0 < g) : InRange (x.tdiv g) := by
  obtain ⟨hlow, hhigh⟩ := h
  obtain hneg | hpos : x < 0 ∨ 0 ≤ x := by omega
  · have h1 : 0 ≤ (-x).tdiv g := Int.tdiv_nonneg (by omega) (Int.le_of_lt hg)
    have h2 : (-x).tdiv g ≤ -x := Int.tdiv_le_self g (by omega)
    rw [Int.neg_tdiv] at h1 h2
    constructor <;> omega
  · have h1 : 0 ≤ x.tdiv g := Int.tdiv_nonneg hpos (Int.le_of_lt hg)
    have h2 : x.tdiv g ≤ x := Int.tdiv_le_self g hpos
    constructor <;> omega

/-- So does cutting a number down to a multiple. -/
lemma InRange.tdiv_mul (h : InRange x) (hg : 0 < g) : InRange (x.tdiv g * g) := by
  obtain ⟨hlow, hhigh⟩ := h
  have hsum := Int.tdiv_mul_add_tmod x g
  obtain hneg | hpos : x < 0 ∨ 0 ≤ x := by omega
  · have hrest : 0 ≤ (-x).tmod g := Int.tmod_nonneg g (by omega)
    have hquot : 0 ≤ (-x).tdiv g * g :=
      Int.mul_nonneg (Int.tdiv_nonneg (by omega) (Int.le_of_lt hg)) (Int.le_of_lt hg)
    rw [Int.neg_tmod] at hrest
    rw [Int.neg_tdiv, Int.neg_mul] at hquot
    constructor <;> omega
  · have hrest := Int.tmod_nonneg g hpos
    have hquot : 0 ≤ x.tdiv g * g :=
      Int.mul_nonneg (Int.tdiv_nonneg hpos (Int.le_of_lt hg)) (Int.le_of_lt hg)
    constructor <;> omega

/-- Past the upper end by less than one period, the register shows a negative number. -/
lemma wrap64_of_overflow (hlo : 9223372036854775808 ≤ x) (hhi : x < 18446744073709551616) :
    wrap64 x = x - 18446744073709551616 := by
  unfold wrap64
  omega

end Machine
