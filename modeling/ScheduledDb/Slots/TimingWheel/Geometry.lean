import Mathlib.Algebra.BigOperators.Intervals
import Mathlib.Algebra.Order.BigOperators.Group.Finset
import Mathlib.Tactic.Positivity
import ScheduledDb.Core.Odometer
import ScheduledDb.Slots.TimingWheel.Def

/-!
# Chain geometry, and where `findBucket` puts a key

The cursors of the wheel form an odometer when the granularities form a chain: level `0` has the
slot gap, and each further level the whole range of the one before.  `WheelGeometry` is such a
shape, with its well-formedness as fields; `Fits` says that a wheel has it.

The result of the file is `findBucket_spec`: for a key `d` slots ahead, which level is chosen
(`level_lt_iff`), and when the bucket's turn comes (`turn_le`, with equality below the last level).
The last level is a ring that far keys wrap around, so there the turn may only be *no later* than
the key's distance asks for.
-/

namespace ScheduledDb

open Machine Odometer Finset Nat

/-- The shape of a wheel whose levels form a chain, at least two deep, with a total range that a
64-bit integer holds. -/
structure WheelGeometry where
  gap : ℤ
  faces : ℕ → ℕ
  depth : ℕ
  gap_pos : 0 < gap
  faces_pos : ∀ i, 0 < faces i
  two_le_depth : 2 ≤ depth
  coverage_lt : (∑ i ∈ Finset.range depth, (span faces (i + 1) : ℤ) * gap) < 9223372036854775808

namespace WheelGeometry

variable (G : WheelGeometry) {t i : ℕ}

/-- Slots between two turns of level `i`. -/
abbrev width (i : ℕ) : ℕ := span G.faces i

/-- Turns level `i` has made after `t` slots. -/
def turns (t i : ℕ) : ℕ := t / G.width i

/-- The time range of all levels together, in seconds. -/
def coverage : ℤ := ∑ i ∈ Finset.range G.depth, (G.width (i + 1) : ℤ) * G.gap

lemma width_pos (i : ℕ) : 0 < G.width i := span_pos G.faces_pos i

lemma width_mono : Monotone G.width := span_mono G.faces_pos

lemma width_succ (i : ℕ) : G.width (i + 1) = G.width i * G.faces i := rfl

@[simp] lemma turns_zero (t : ℕ) : G.turns t 0 = t := Nat.div_one t

lemma turns_eq_of_mul {T : ℕ} (h : G.width i * T = t) : G.turns t i = T := by
  rw [turns, ← h, Nat.mul_div_cancel_left _ (G.width_pos i)]

lemma width_mul_turns_le (t i : ℕ) : G.width i * G.turns t i ≤ t := Nat.mul_div_le t _

/-- The turn at which a bucket comes up next is not over yet. -/
lemma lt_width_mul_nextTurn (t i j : ℕ) :
    t < G.width i * (nextTurn (G.turns t i) j (G.faces i) + 1) :=
  (lt_mul_div_succ t (G.width_pos i)).trans_le
    (mul_le_mul_left _ (succ_le_succ (le_nextTurn _ j (G.faces i))))

/-- A slot that brings level `i` on completes the width of that level. -/
lemma width_mul_turns_succ (h : (t + 1) % G.width i = 0) :
    G.width i * (G.turns t i + 1) = t + 1 := by
  have hsucc : (t + 1) / G.width i = G.turns t i + 1 := by
    rw [turns_succ, if_pos h, turns]
  rw [← hsucc]
  exact Nat.mul_div_cancel' (Nat.dvd_of_mod_eq_zero h)

lemma turns_succ_of_ne (h : (t + 1) % G.width i ≠ 0) : G.turns (t + 1) i = G.turns t i := by
  rw [turns, turns_succ, if_neg h, add_zero, turns]

lemma term_nonneg (i : ℕ) : 0 ≤ (G.width i : ℤ) * G.gap := by
  have := G.gap_pos
  positivity

/-- The range of one level is part of the coverage. -/
lemma range_le_coverage (hi : i < G.depth) : (G.width (i + 1) : ℤ) * G.gap ≤ G.coverage :=
  single_le_sum (f := fun i => (G.width (i + 1) : ℤ) * G.gap)
    (fun i _ => G.term_nonneg (i + 1)) (mem_range.mpr hi)

/-- Two neighbouring levels together are still part of it. -/
lemma range_add_le_coverage (hi : i + 1 < G.depth) :
    (G.width (i + 1) : ℤ) * G.gap + (G.width (i + 2) : ℤ) * G.gap ≤ G.coverage := by
  have hsub : ({i, i + 1} : Finset ℕ) ⊆ range G.depth := by
    intro x hx
    simp only [mem_insert, mem_singleton] at hx
    simp only [mem_range]
    omega
  have h := sum_le_sum_of_subset_of_nonneg hsub
    (f := fun i => (G.width (i + 1) : ℤ) * G.gap) fun i _ _ => G.term_nonneg (i + 1)
  rw [sum_pair (by omega)] at h
  exact h

lemma coverage_pos : 0 < G.coverage := by
  have h := G.range_le_coverage (i := 0) (by have := G.two_le_depth; omega)
  have hw : (0 : ℤ) < G.width 1 := by exact_mod_cast G.width_pos 1
  exact lt_of_lt_of_le (mul_pos hw G.gap_pos) h

lemma faces_le_width_succ (i : ℕ) : G.faces i ≤ G.width (i + 1) :=
  Nat.le_mul_of_pos_left _ (G.width_pos i)

lemma le_mul_gap (n : ℕ) : (n : ℤ) ≤ n * G.gap := by
  have := G.gap_pos
  nlinarith [Int.natCast_nonneg n]

lemma faces_lt (hi : i < G.depth) : (G.faces i : ℤ) < 9223372036854775808 := by
  have h1 : (G.faces i : ℤ) ≤ G.width (i + 1) := by exact_mod_cast G.faces_le_width_succ i
  have h2 := G.le_mul_gap (G.width (i + 1))
  have h3 := G.range_le_coverage hi
  have h4 : G.coverage < 9223372036854775808 := G.coverage_lt
  omega

/-- Below the last level twice the ring still fits, so a cursor plus an offset does. -/
lemma two_faces_lt (hi : i + 1 < G.depth) : 2 * (G.faces i : ℤ) < 9223372036854775808 := by
  have h1 : (G.faces i : ℤ) ≤ G.width (i + 1) := by exact_mod_cast G.faces_le_width_succ i
  have h2 : (G.faces i : ℤ) ≤ G.width (i + 2) := by
    exact_mod_cast (G.faces_le_width_succ i).trans (G.width_mono (by omega))
  have h3 := G.le_mul_gap (G.width (i + 1))
  have h4 := G.le_mul_gap (G.width (i + 2))
  have h5 := G.range_add_le_coverage hi
  have h6 : G.coverage < 9223372036854775808 := G.coverage_lt
  omega

lemma range_inRange (hi : i < G.depth) : InRange ((G.width (i + 1) : ℤ) * G.gap) := by
  have h1 := G.term_nonneg (i + 1)
  have h2 := G.range_le_coverage hi
  have h3 : G.coverage < 9223372036854775808 := G.coverage_lt
  exact ⟨by omega, by omega⟩

end WheelGeometry

/-- A level of the chain: granularity and ring of level `i`. -/
structure WheelLevel.Fits (l : WheelLevel) (G : WheelGeometry) (i : ℕ) : Prop where
  granularity : l.granularity = G.width i * G.gap
  count : l.bucketCount = G.faces i
  length : l.buckets.length = G.faces i

namespace HierarchicalTimingWheel

/-- A wheel of the given geometry. -/
structure Fits (w : HierarchicalTimingWheel) (G : WheelGeometry) : Prop where
  gap : w.slotGapSeconds = G.gap
  depth : w.levels.length = G.depth
  level : ∀ (i : ℕ) (l : WheelLevel), w.levels[i]? = some l → l.Fits G i

variable {G : WheelGeometry} {w : HierarchicalTimingWheel} {l : WheelLevel} {i o c n d : ℕ}
  {T : ℕ → ℕ}

lemma Fits.lt_depth (h : w.Fits G) (hl : w.levels[i]? = some l) : i < G.depth := by
  rw [← h.depth]
  exact (List.getElem?_eq_some_iff.mp hl).1

lemma Fits.get (h : w.Fits G) (hi : i < G.depth) : ∃ l, w.levels[i]? = some l :=
  ⟨_, List.getElem?_eq_getElem (by rw [h.depth]; exact hi)⟩

lemma Fits.levelRange (h : w.Fits G) (hl : w.levels[i]? = some l) :
    wrap64 (l.granularity * l.bucketCount) = G.width (i + 1) * G.gap := by
  have hf := h.level i l hl
  have hprod : l.granularity * l.bucketCount = G.width (i + 1) * G.gap := by
    rw [hf.granularity, hf.count, G.width_succ]
    push_cast
    ring
  rw [hprod, wrap64_of_mem (G.range_inRange (h.lt_depth hl))]

/-- No partial sum of `totalCoverage` overflows. -/
lemma Fits.totalCoverage (h : w.Fits G) : w.totalCoverage = G.coverage := by
  have key : ∀ m, m ≤ G.depth →
      (w.levels.take m).foldl (fun total level =>
        wrap64 (total + wrap64 (level.granularity * level.bucketCount))) 0
        = ∑ i ∈ range m, (G.width (i + 1) : ℤ) * G.gap := by
    intro m
    induction m with
    | zero => intro _; simp
    | succ m ih =>
      intro hm
      obtain ⟨l, hl⟩ := h.get (i := m) (by omega)
      have hlt : m < w.levels.length := by rw [h.depth]; omega
      have hget : w.levels[m] = l := by
        rw [List.getElem?_eq_getElem hlt] at hl
        exact Option.some.inj hl
      rw [List.take_succ_eq_append_getElem hlt, List.foldl_append, ih (by omega), hget]
      simp only [List.foldl_cons, List.foldl_nil]
      rw [h.levelRange hl, sum_range_succ]
      refine wrap64_of_mem ⟨?_, ?_⟩
      · have h1 : 0 ≤ ∑ i ∈ range m, (G.width (i + 1) : ℤ) * G.gap :=
          sum_nonneg fun i _ => G.term_nonneg (i + 1)
        have h2 := G.term_nonneg (m + 1)
        omega
      · rw [← sum_range_succ]
        refine lt_of_le_of_lt ?_ G.coverage_lt
        refine sum_le_sum_of_subset_of_nonneg ?_ fun i _ _ => G.term_nonneg (i + 1)
        exact range_subset_range.mpr hm
  have hall := key G.depth le_rfl
  rw [← h.depth, List.take_length] at hall
  rw [HierarchicalTimingWheel.totalCoverage, hall, h.depth, WheelGeometry.coverage]

/-! ## The level and the bucket chosen for a key -/

/-- What `findBucket` says about a key `d` slots ahead, the cursor of level `i` having made
`T i` turns. -/
structure GoodLoc (G : WheelGeometry) (T : ℕ → ℕ) (d : ℕ) (loc : SlotLoc) : Prop where
  level_lt : loc.level < G.depth
  bucket_lt : loc.bucket < G.faces loc.level
  level_lt_iff : ∀ i, 0 < i → i < G.depth → (loc.level < i ↔ d < G.width i)
  level_zero : loc.level = 0 → loc.bucket = (T 0 + d) % G.faces 0
  turn_le : 0 < loc.level →
    nextTurn (T loc.level) loc.bucket (G.faces loc.level) + 1
      ≤ T loc.level + d / G.width loc.level
  turn_eq : 0 < loc.level → loc.level + 1 < G.depth →
    nextTurn (T loc.level) loc.bucket (G.faces loc.level) + 1
      = T loc.level + d / G.width loc.level

/-- Reducing a sum that fits by the ring size, as the code does it. -/
lemma ringIndex_of_lt (hn : 0 < n) (h : (c + o : ℤ) < 9223372036854775808) :
    (max 0 (min ((wrap64 (c + o)).tmod n) (n - 1 : ℤ))).toNat = (c + o) % n := by
  rw [wrap64_of_mem ⟨by omega, h⟩]
  have hmod : ((c : ℤ) + o).tmod n = ((c + o) % n : ℕ) := by
    rw [Int.tmod_eq_emod_of_nonneg (by omega)]
    push_cast
    rfl
  have hlt : (c + o) % n < n := mod_lt _ hn
  rw [hmod]
  omega

/-- Reducing a sum that overflows: the register is negative, and the clamp gives bucket `0`. -/
lemma ringIndex_of_overflow (hlo : (9223372036854775808 : ℤ) ≤ c + o)
    (hhi : (c + o : ℤ) < 18446744073709551616) :
    (max 0 (min ((wrap64 (c + o)).tmod n) (n - 1 : ℤ))).toNat = 0 := by
  rw [wrap64_of_overflow hlo hhi]
  have hneg : ((c : ℤ) + o - 18446744073709551616).tmod n ≤ 0 := by
    have := Int.tmod_nonneg (n : ℤ) (a := -((c : ℤ) + o - 18446744073709551616)) (by omega)
    rw [Int.neg_tmod] at this
    omega
  omega

/-- The bucket computed at an upper level, `q` bucket widths ahead. -/
lemma upperBucket_turn {T q : ℕ} (hn : 0 < n) (hnlt : (n : ℤ) < 9223372036854775808) (hq : 0 < q)
    (hqlt : (q : ℤ) < 9223372036854775808) :
    let j := (max 0 (min ((wrap64 ((T % n : ℕ) + ((q - 1 : ℕ) : ℤ))).tmod n) (n - 1 : ℤ))).toNat
    j < n ∧ nextTurn T j n + 1 ≤ T + q ∧ (q ≤ n → 2 * (n : ℤ) < 9223372036854775808 →
      nextTurn T j n + 1 = T + q) := by
  intro j
  have hc : T % n < n := mod_lt _ hn
  rcases lt_or_ge ((T % n : ℕ) + ((q - 1 : ℕ) : ℤ)) 9223372036854775808 with h | h
  · have hj : j = (T + (q - 1)) % n := by
      have := ringIndex_of_lt hn h
      rw [mod_add_mod] at this
      exact this
    have hturn : nextTurn T j n = T + (q - 1) % n := by rw [hj, nextTurn_add hn]
    refine ⟨by rw [hj]; exact mod_lt _ hn, ?_, ?_⟩
    · rw [hturn]
      have := mod_le (q - 1) n
      omega
    · intro hqn _
      rw [hturn, mod_eq_of_lt (by omega)]
      omega
  · have hj : j = 0 := ringIndex_of_overflow h (by omega)
    -- the cursor then stands at least one face before the end of the ring
    have hturn : nextTurn T j n ≤ T + (n - T % n) := by
      rw [hj, nextTurn]
      have : (0 + n - T % n) % n ≤ n - T % n := by
        rw [zero_add]
        exact mod_le _ _
      omega
    refine ⟨by omega, by omega, ?_⟩
    intro hqn h2
    omega

/-- The bucket that the loop of `findBucket` computes at the level where it stops. -/
def bucketAt (l : WheelLevel) (delta elapsed : ℤ) : ℕ :=
  (max 0 (min ((wrap64 (l.current
    + wrap64 (delta.tdiv l.granularity - elapsed.tdiv l.granularity))).tmod l.bucketCount)
      (l.bucketCount - 1))).toNat

section Stop

variable {l : WheelLevel} {T : ℕ → ℕ} {d i : ℕ} (hfar : 0 < i → G.width i ≤ d)
  (hstop : d < G.width (i + 1) ∨ i + 1 = G.depth)

include hfar hstop in
/-- The search stops at the level whose range the key falls into, or at the last one. -/
lemma lt_iff_of_stop {i' : ℕ} (hpos : 0 < i') (hi' : i' < G.depth) : i < i' ↔ d < G.width i' := by
  constructor
  · intro hlt
    rcases hstop with h | h
    · exact lt_of_lt_of_le h (G.width_mono hlt)
    · omega
  · intro hlt
    by_contra hge
    have hle : G.width i' ≤ G.width i := G.width_mono (by omega)
    have := hfar (by omega)
    omega

lemma tdiv_granularity (hf : l.Fits G i) :
    ((d : ℤ) * G.gap).tdiv l.granularity = (d / G.width i : ℕ) := by
  rw [hf.granularity, Int.mul_tdiv_mul_of_pos_left _ _ G.gap_pos, Int.ofNat_tdiv]

variable (hd : (d : ℤ) * G.gap < 9223372036854775808)
include hd

/-- Level 0: one bucket a slot, no correction for levels below. -/
lemma goodLoc_bottom (hf : l.Fits G 0) (hcur : l.current = T 0 % G.faces 0)
    (hstop : d < G.width 1 ∨ 1 = G.depth) : GoodLoc G T d ⟨0, bucketAt l (d * G.gap) 0⟩ := by
  have hdepth := G.two_le_depth
  have hdlt : (d : ℤ) < 9223372036854775808 := lt_of_le_of_lt (G.le_mul_gap d) hd
  have hd0 : d < G.faces 0 := by
    rcases hstop with h | h
    · simpa [G.width_succ] using h
    · omega
  have h2 := G.two_faces_lt (i := 0) (by omega)
  have hmod : T 0 % G.faces 0 < G.faces 0 := mod_lt _ (G.faces_pos 0)
  have hq0 : d / G.width 0 = d := by simp [WheelGeometry.width]
  have hoff : wrap64 (((d : ℤ) * G.gap).tdiv l.granularity - (0 : ℤ).tdiv l.granularity) = d := by
    rw [tdiv_granularity hf, hq0, Int.zero_tdiv, sub_zero]
    exact wrap64_of_mem ⟨by omega, hdlt⟩
  rw [bucketAt, hoff, hcur, hf.count, ringIndex_of_lt (G.faces_pos 0) (by omega), mod_add_mod]
  have hzero : ∀ {p : Prop}, 0 < 0 → p := fun h => absurd h (lt_irrefl 0)
  exact ⟨lt_of_lt_of_le two_pos hdepth, mod_lt _ (G.faces_pos 0),
    fun i' hpos hi' => lt_iff_of_stop hzero hstop hpos hi', fun _ => rfl, hzero, hzero⟩

include hfar hstop in
/-- An upper level: the range of the level below is one bucket. -/
lemma goodLoc_upper (hf : l.Fits G i) (hcur : l.current = T i % G.faces i) (hi : i < G.depth)
    (hipos : 0 < i) : GoodLoc G T d ⟨i, bucketAt l (d * G.gap) (G.width i * G.gap)⟩ := by
  have hwpos : 0 < G.width i := G.width_pos i
  have hgap := G.gap_pos
  have hdlt : (d : ℤ) < 9223372036854775808 := lt_of_le_of_lt (G.le_mul_gap d) hd
  have hq : 0 < d / G.width i := div_pos (hfar hipos) hwpos
  have hqle : d / G.width i ≤ d := div_le_self _ _
  have hone : ((G.width i : ℤ) * G.gap).tdiv l.granularity = 1 := by
    rw [hf.granularity]
    exact Int.tdiv_self (by positivity)
  have hoff : wrap64 (((d : ℤ) * G.gap).tdiv l.granularity
      - ((G.width i : ℤ) * G.gap).tdiv l.granularity) = ((d / G.width i - 1 : ℕ) : ℤ) := by
    rw [tdiv_granularity hf, hone, wrap64_of_mem ⟨by omega, by omega⟩]
    omega
  obtain ⟨hj, hle, heq⟩ := upperBucket_turn (T := T i) (G.faces_pos i) (G.faces_lt hi) hq (by omega)
  rw [bucketAt, hoff, hcur, hf.count]
  refine ⟨hi, hj, fun i' hpos hi' => lt_iff_of_stop hfar hstop hpos hi',
    fun h => absurd h hipos.ne', fun _ => hle, fun _ hlast => ?_⟩
  have hlast' : i + 1 < G.depth := hlast
  refine heq ?_ (G.two_faces_lt hlast')
  rcases hstop with h | h
  · rw [G.width_succ] at h
    exact le_of_lt (Nat.div_lt_of_lt_mul h)
  · omega

end Stop

/-- The loop of `findBucket`, entered at level `i` by a key too far for the levels before. -/
lemma findBucketFrom_spec (hw : w.Fits G)
    (hT : ∀ i l, w.levels[i]? = some l → l.current = T i % G.faces i)
    (hd : (d : ℤ) * G.gap < 9223372036854775808) :
    ∀ m i, i + m = G.depth → 0 < m → (0 < i → G.width i ≤ d) →
      ∃ loc, findBucketFrom (d * G.gap) i (if i = 0 then 0 else G.width i * G.gap)
        (w.levels.drop i) = some loc ∧ i ≤ loc.level ∧ GoodLoc G T d loc := by
  intro m
  induction m with
  | zero => intro i _ h; omega
  | succ m ih =>
    intro i him _ hfar
    have hi : i < G.depth := by omega
    obtain ⟨l, hl⟩ := hw.get hi
    have hlen : i < w.levels.length := by rw [hw.depth]; exact hi
    have hdrop : w.levels.drop i = l :: w.levels.drop (i + 1) := by
      rw [List.drop_eq_getElem_cons hlen]
      rw [List.getElem?_eq_getElem hlen] at hl
      rw [Option.some.inj hl]
    have hrest : w.levels.drop (i + 1) = [] ↔ i + 1 = G.depth := by
      rw [List.drop_eq_nil_iff, hw.depth]
      omega
    have hrange : (d : ℤ) * G.gap < (G.width (i + 1) : ℤ) * G.gap ↔ d < G.width (i + 1) := by
      rw [mul_lt_mul_iff_of_pos_right G.gap_pos, cast_lt]
    rw [hdrop]
    simp only [findBucketFrom]
    rw [hw.levelRange hl]
    by_cases hstop : d < G.width (i + 1) ∨ i + 1 = G.depth
    · -- this level takes the key
      rw [if_pos (by rwa [hrange, hrest])]
      refine ⟨_, rfl, le_rfl, ?_⟩
      rcases Nat.eq_zero_or_pos i with rfl | hipos
      · exact goodLoc_bottom hd (hw.level 0 l hl) (hT 0 l hl) hstop
      · rw [if_neg hipos.ne']
        exact goodLoc_upper hfar hstop hd (hw.level i l hl) (hT i l hl) hi hipos
    · -- too far for this level as well
      rw [if_neg (by rwa [hrange, hrest])]
      rw [not_or] at hstop
      obtain ⟨loc, hloc, hle, hgood⟩ := ih (i + 1) (by omega) (by omega)
        fun _ => by omega
      rw [if_neg (by omega)] at hloc
      exact ⟨loc, hloc, by omega, hgood⟩

/-- **Where a key goes.**  A key `d` slots ahead always finds a bucket. -/
lemma findBucket_spec (hw : w.Fits G)
    (hT : ∀ i l, w.levels[i]? = some l → l.current = T i % G.faces i)
    (hd : (d : ℤ) * G.gap < 9223372036854775808) :
    ∃ loc, w.findBucket (d * G.gap) = some loc ∧ GoodLoc G T d loc := by
  have h2 := G.two_le_depth
  obtain ⟨loc, hloc, _, hgood⟩ := findBucketFrom_spec hw hT hd G.depth 0 (by omega) (by omega)
    fun h => absurd h (lt_irrefl 0)
  exact ⟨loc, hloc, hgood⟩

end HierarchicalTimingWheel

end ScheduledDb
