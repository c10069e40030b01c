import ScheduledDb.Slots.TimingWheel.Seating

/-!
# Cascades and ticks

One tick drains the level-0 bucket under the cursor and lets the cascades of that slot happen.
`tick_spec` says all a tick does: the keys it returns are exactly the timely ones whose slot is
over, those are no longer timely, and nothing else changes for any key.

The cascade of level `i` happens in slots divisible by `width i`, when the levels below have just
come round.  At such a moment a key closer than `width i` is placed exactly (its next turn leaves a
remainder shorter than a bucket), and one further away goes to the overflow area.
-/

namespace ScheduledDb

open Machine Odometer Function List

namespace HierarchicalTimingWheel

variable {G : WheelGeometry} {w w' : HierarchicalTimingWheel} {b0 : ℤ} {t : ℕ} {T T' : ℕ → ℕ}
  {k : ℤ} {i j : ℕ} {l : WheelLevel}

/-! ## Frames -/

/-- Sending a key to the overflow area. -/
lemma Seated.toOverflow (h : w.Seated G b0 t T) (hk : KeyInRange G w.currentBase k)
    (m : Finmap fun _ : ℤ => SlotLoc) :
    ({ w with overflow := w.overflow.insert k, slotLocation := m } :
      HierarchicalTimingWheel).Seated G b0 t T := by
  refine
    { initialized := h.initialized
      baseRange := h.baseRange
      fits := ⟨h.fits.gap, h.fits.depth, h.fits.level⟩
      base := h.base
      cursor := h.cursor
      bottom := h.bottom
      upper := h.upper
      range := ?_
      nodup := h.nodup
      overflow_nodup := h.overflow_nodup.insert }
  rintro k' (hk' | hk')
  · exact h.range k' (Or.inl hk')
  · rcases mem_insert_iff.mp hk' with rfl | hk'
    · exact hk
    · exact h.range k' (Or.inr hk')

/-- Only the turns of levels that exist matter. -/
lemma Seated.congr (h : w.Seated G b0 t T) (hT : ∀ i, i < G.depth → T' i = T i) :
    w.Seated G b0 t T' :=
  { h with
    cursor := fun i l hl => by
      rw [hT i (h.fits.lt_depth hl)]
      exact h.cursor i l hl
    upper := fun k i j hi hk => by
      obtain ⟨l, hl, _⟩ := id hk
      rw [hT i (h.fits.lt_depth hl)]
      exact h.upper k i j hi hk }

lemma timely_congr (hw : w.Fits G) (hT : ∀ i, i < G.depth → T' i = T i) (k : ℤ) :
    w.Timely G b0 T' k ↔ w.Timely G b0 T k := by
  have hearly : ∀ i j, w.At k i j → (Early G b0 T' k i j ↔ Early G b0 T k i j) := by
    rintro i j ⟨l, hl, _⟩
    rw [Early, Early, hT i (hw.lt_depth hl)]
  refine or_congr Iff.rfl ?_
  constructor
  · rintro ⟨i, j, hi, hk, he⟩
    exact ⟨i, j, hi, hk, fun h => he ((hearly i j hk).mpr h)⟩
  · rintro ⟨i, j, hi, hk, he⟩
    exact ⟨i, j, hi, hk, fun h => he ((hearly i j hk).mp h)⟩

lemma ahead_congr (hw : w.Fits G) (hT : ∀ i, i < G.depth → T' i = T i) (k : ℤ) :
    w.Ahead G b0 T' k ↔ w.Ahead G b0 T k := by
  refine or_congr Iff.rfl ?_
  constructor
  · rintro ⟨i, j, hi, hk, he⟩
    obtain ⟨l, hl, _⟩ := id hk
    rw [Early, hT i (hw.lt_depth hl)] at he
    exact ⟨i, j, hi, hk, he⟩
  · rintro ⟨i, j, hi, hk, he⟩
    obtain ⟨l, hl, _⟩ := id hk
    refine ⟨i, j, hi, hk, ?_⟩
    rw [Early, hT i (hw.lt_depth hl)]
    exact he

/-! ## One key of a cascaded bucket -/

/-- The clock as a cascade of level `i` finds it: the levels below have just come round. -/
def RoundBelow (G : WheelGeometry) (T : ℕ → ℕ) (t i : ℕ) : Prop :=
  ∀ l, l < i → G.width l * T l = t

/-- What handing on one key does. -/
structure HandsOn (G : WheelGeometry) (b0 : ℤ) (t i : ℕ) (T : ℕ → ℕ)
    (w w' : HierarchicalTimingWheel) (ks : List ℤ) : Prop where
  seated : w'.Seated G b0 t T
  base : w'.currentBase = w.currentBase
  above : ∀ k i' j, i ≤ i' → (w'.At k i' j ↔ w.At k i' j)
  timely : ∀ k, w'.Timely G b0 T k ↔ w.Timely G b0 T k ∨ (k ∈ ks ∧ k - b0 - t < G.width i)
  ahead : ∀ k, w'.Ahead G b0 T k ↔ w.Ahead G b0 T k ∨ (k ∈ ks ∧ (G.width i : ℤ) ≤ k - b0 - t)

lemma cascadeKey_spec (hi : 0 < i) (hid : i < G.depth) (h : w.Seated G b0 t T)
    (hround : RoundBelow G T t i) (hk : KeyInRange G w.currentBase k) (hdue : (t : ℤ) ≤ k - b0) :
    HandsOn G b0 t i T w (cascadeKey i w k) [k] := by
  have hT0 : T 0 = t := by simpa [WheelGeometry.width] using hround 0 hi
  obtain ⟨loc, hfind, hloc⟩ := h.findBucket hk
  have hnat : ((k - b0 - t).toNat : ℤ) = k - b0 - t := Int.toNat_of_nonneg (by omega)
  rw [cascadeKey, hfind]
  simp only []
  split_ifs with hlt
  · -- down to a lower level, at a moment when that level stands at a multiple of its width
    have hnear : (k - b0 - t).toNat < G.width i := (hloc.level_lt_iff i hi hid).mp hlt
    have hclock : G.width loc.level * T loc.level = t := hround loc.level hlt
    have hat := at_place (h.fits.names hloc.level_lt hloc.bucket_lt) k
    have hnotEarly : 0 < loc.level → ¬ Early G b0 T k loc.level loc.bucket := by
      intro hpos hearly
      have hturn := hloc.turn_eq hpos (by omega)
      have hdiv : G.width loc.level * ((k - b0 - t).toNat / G.width loc.level)
          + (k - b0 - t).toNat % G.width loc.level = (k - b0 - t).toNat := Nat.div_add_mod _ _
      have hmod : (k - b0 - t).toNat % G.width loc.level < G.width loc.level :=
        Nat.mod_lt _ (G.width_pos _)
      rw [Early, hturn, Nat.mul_add, hclock] at hearly
      omega
    refine ⟨h.place hT0 hk hloc hclock.le, rfl, ?_, ?_, ?_⟩
    · intro k' i' j hi'
      rw [hat]
      exact or_iff_left fun hc => by omega
    · intro k'
      simp only [Timely, hat, mem_singleton]
      constructor
      · rintro (⟨j, hk' | ⟨rfl, _, _⟩⟩ | ⟨i', j, hi', hk' | ⟨rfl, rfl, rfl⟩, he⟩)
        · exact Or.inl (Or.inl ⟨j, hk'⟩)
        · exact Or.inr ⟨rfl, by omega⟩
        · exact Or.inl (Or.inr ⟨i', j, hi', hk', he⟩)
        · exact Or.inr ⟨rfl, by omega⟩
      · rintro ((⟨j, hk'⟩ | ⟨i', j, hi', hk', he⟩) | ⟨rfl, _⟩)
        · exact Or.inl ⟨j, Or.inl hk'⟩
        · exact Or.inr ⟨i', j, hi', Or.inl hk', he⟩
        · rcases Nat.eq_zero_or_pos loc.level with h0 | hpos
          · exact Or.inl ⟨loc.bucket, Or.inr ⟨rfl, h0.symm, rfl⟩⟩
          · exact Or.inr ⟨loc.level, loc.bucket, hpos, Or.inr ⟨rfl, rfl, rfl⟩, hnotEarly hpos⟩
    · intro k'
      simp only [Ahead, hat, mem_singleton]
      constructor
      · rintro (hk' | ⟨i', j, hi', hk' | ⟨rfl, rfl, rfl⟩, he⟩)
        · exact Or.inl (Or.inl hk')
        · exact Or.inl (Or.inr ⟨i', j, hi', hk', he⟩)
        · exact absurd he (hnotEarly hi')
      · rintro ((hk' | ⟨i', j, hi', hk', he⟩) | ⟨rfl, hfar⟩)
        · exact Or.inl hk'
        · exact Or.inr ⟨i', j, hi', Or.inl hk', he⟩
        · omega
  · -- too far for the levels below: the overflow area
    have hfar : G.width i ≤ (k - b0 - t).toNat := by
      by_contra hc
      exact hlt ((hloc.level_lt_iff i hi hid).mpr (by omega))
    refine ⟨h.toOverflow hk _, rfl, fun k' i' j _ => Iff.rfl, ?_, ?_⟩
    · intro k'
      refine ⟨Or.inl, ?_⟩
      rintro (hk' | ⟨hmem, hnear⟩)
      · exact hk'
      · rw [mem_singleton.mp hmem] at hnear
        omega
    · intro k'
      simp only [Ahead, mem_insert_iff, mem_singleton]
      constructor
      · rintro ((rfl | hk') | hk')
        · exact Or.inr ⟨rfl, by omega⟩
        · exact Or.inl (Or.inl hk')
        · exact Or.inl (Or.inr hk')
      · rintro ((hk' | hk') | ⟨rfl, _⟩)
        · exact Or.inl (Or.inr hk')
        · exact Or.inr hk'
        · exact Or.inl (Or.inl rfl)

/-- Handing on the keys of a bucket one after the other. -/
lemma cascadeKeys_spec (hi : 0 < i) (hid : i < G.depth) (hround : RoundBelow G T t i) :
    ∀ (ks : List ℤ) (w : HierarchicalTimingWheel), w.Seated G b0 t T →
      (∀ k ∈ ks, KeyInRange G w.currentBase k ∧ (t : ℤ) ≤ k - b0) →
      HandsOn G b0 t i T w (ks.foldl (cascadeKey i) w) ks := by
  intro ks
  induction ks with
  | nil =>
    intro w h _
    refine ⟨h, rfl, fun _ _ _ _ => Iff.rfl, fun k => ?_, fun k => ?_⟩
    · simp
    · simp
  | cons k ks ih =>
    intro w h hks
    obtain ⟨hk, hdue⟩ := hks k mem_cons_self
    have h1 := cascadeKey_spec hi hid h hround hk hdue
    have h2 := ih (cascadeKey i w k) h1.seated (by
      intro k' hk'
      rw [h1.base]
      exact hks k' (mem_cons_of_mem k hk'))
    rw [foldl_cons]
    refine ⟨h2.seated, h2.base.trans h1.base, ?_, ?_, ?_⟩
    · intro k' i' j hle
      rw [h2.above k' i' j hle, h1.above k' i' j hle]
    · intro k'
      rw [h2.timely, h1.timely, or_assoc, ← or_and_right, mem_singleton, ← mem_cons]
    · intro k'
      rw [h2.ahead, h1.ahead, or_assoc, ← or_and_right, mem_singleton, ← mem_cons]

/-! ## The cascade of one level -/

lemma getElem?_clear (i' : ℕ) :
    ({ w with levels := w.levels.modify i (·.clear j) } : HierarchicalTimingWheel).levels[i']?
      = (w.levels[i']?).map fun l => if i = i' then l.clear j else l :=
  getElem?_modify_levels rfl i'

lemma Seated.clear (h : w.Seated G b0 t T) (i j : ℕ) :
    ({ w with levels := w.levels.modify i (·.clear j) } :
      HierarchicalTimingWheel).Seated G b0 t T := by
  have hat := w.at_clear i j
  refine
    { initialized := h.initialized
      baseRange := h.baseRange
      fits := h.fits.modify rfl rfl fun l _ hl => hl.congr rfl rfl (length_modify _ _ _)
      base := h.base
      cursor := ?_
      bottom := fun k j' hk => h.bottom k j' ((hat k 0 j').mp hk).1
      upper := fun k i' j' hi' hk => h.upper k i' j' hi' ((hat k i' j').mp hk).1
      range := ?_
      nodup := ?_
      overflow_nodup := h.overflow_nodup }
  · intro i' l hl
    rw [getElem?_clear, Option.map_eq_some_iff] at hl
    obtain ⟨l', hl', rfl⟩ := hl
    split_ifs
    · exact h.cursor i' l' hl'
    · exact h.cursor i' l' hl'
  · rintro k (⟨i', j', hk⟩ | hk)
    · exact h.range k (Or.inl ⟨i', j', ((hat k i' j').mp hk).1⟩)
    · exact h.range k (Or.inr hk)
  · intro i' l j' hl
    rw [getElem?_clear, Option.map_eq_some_iff] at hl
    obtain ⟨l', hl', rfl⟩ := hl
    split_ifs with hi
    · subst hi
      rw [WheelLevel.bucket_clear]
      split_ifs
      · exact nodup_nil
      · exact h.nodup _ l' j' hl'
    · exact h.nodup i' l' j' hl'

/-- Turning the cursor of an upper level past an empty bucket. -/
lemma Seated.turn (h : w.Seated G b0 t T) (hi : 0 < i)
    (hempty : ∀ k, ¬ w.At k i (T i % G.faces i)) :
    ({ w with levels := w.levels.modify i WheelLevel.turn } :
      HierarchicalTimingWheel).Seated G b0 t (update T i (T i + 1)) := by
  refine
    { initialized := h.initialized
      baseRange := h.baseRange
      fits := h.fits.modify rfl rfl fun l _ hl => hl.congr rfl rfl rfl
      base := h.base
      cursor := ?_
      bottom := fun k j hk => h.bottom k j ((at_turn k 0 j).mp hk)
      upper := ?_
      range := ?_
      nodup := ?_
      overflow_nodup := h.overflow_nodup }
  · intro i' l hl
    rw [getElem?_modify_levels rfl, Option.map_eq_some_iff] at hl
    obtain ⟨l', hl', rfl⟩ := hl
    split_ifs with hii
    · subst hii
      rw [update_self, WheelLevel.turn, h.cursor _ l' hl', (h.fits.level _ l' hl').count,
        Nat.mod_add_mod]
    · rw [update_of_ne (Ne.symm hii)]
      exact h.cursor i' l' hl'
  · intro k i' j hi' hk
    have hk' := (at_turn k i' j).mp hk
    by_cases hii : i' = i
    · subst hii
      have hne : j ≠ T i' % G.faces i' := by
        rintro rfl
        exact hempty k hk'
      rw [update_self, nextTurn_succ (h.fits.bucket_lt hk') hne]
      exact h.upper k i' j hi' hk'
    · rw [update_of_ne hii]
      exact h.upper k i' j hi' hk'
  · rintro k (⟨i', j, hk⟩ | hk)
    · exact h.range k (Or.inl ⟨i', j, (at_turn k i' j).mp hk⟩)
    · exact h.range k (Or.inr hk)
  · intro i' l j hl
    rw [getElem?_modify_levels rfl, Option.map_eq_some_iff] at hl
    obtain ⟨l', hl', rfl⟩ := hl
    split_ifs
    · exact h.nodup i' l' j hl'
    · exact h.nodup i' l' j hl'

/-- Turning past an empty bucket makes no copy early or late. -/
lemma early_update {i' : ℕ} (hj : j < G.faces i') (hne : i' = i → j ≠ T i % G.faces i) :
    Early G b0 (update T i (T i + 1)) k i' j ↔ Early G b0 T k i' j := by
  by_cases hii : i' = i
  · subst hii
    rw [Early, Early, update_self, nextTurn_succ hj (hne rfl)]
  · rw [Early, Early, update_of_ne hii]

/-- A key in an upper level is in the bucket that is cleared, or in another one. -/
lemma exists_at_split (hi : 0 < i) (c : ℕ) (k : ℤ) (P : ℕ → ℕ → Prop) :
    (∃ i' j, 0 < i' ∧ w.At k i' j ∧ P i' j) ↔
      (∃ i' j, 0 < i' ∧ (w.At k i' j ∧ ¬ (i' = i ∧ j = c)) ∧ P i' j) ∨ (w.At k i c ∧ P i c) := by
  constructor
  · rintro ⟨i', j, hi', hk, hP⟩
    by_cases hc : i' = i ∧ j = c
    · obtain ⟨rfl, rfl⟩ := hc
      exact Or.inr ⟨hk, hP⟩
    · exact Or.inl ⟨i', j, hi', ⟨hk, hc⟩, hP⟩
  · rintro (⟨i', j, hi', ⟨hk, _⟩, hP⟩ | ⟨hk, hP⟩)
    · exact ⟨i', j, hi', hk, hP⟩
    · exact ⟨i, c, hi, hk, hP⟩

/-- **The cascade of level `i`** hands the keys of one bucket on and turns the cursor; no key
becomes or stops being timely or ahead. -/
lemma cascadeLevel_spec (hi : 0 < i) (hid : i < G.depth) (h : w.Seated G b0 t T)
    (hround : RoundBelow G T t i) (hnow : G.width i * (T i + 1) = t) (hl : w.levels[i]? = some l) :
    (cascadeLevel i l w).Seated G b0 t (update T i (T i + 1)) ∧
      (∀ k, (cascadeLevel i l w).Timely G b0 (update T i (T i + 1)) k
        ↔ w.Timely G b0 T k) ∧
      (∀ k, (cascadeLevel i l w).Ahead G b0 (update T i (T i + 1)) k
        ↔ w.Ahead G b0 T k) := by
  have hcur : l.current = T i % G.faces i := h.cursor i l hl
  have hj : l.current < G.faces i := by
    rw [hcur]
    exact Nat.mod_lt _ (G.faces_pos i)
  have hmem : ∀ k, k ∈ l.bucket l.current ↔ w.At k i l.current := by
    intro k
    constructor
    · intro hk
      exact ⟨l, hl, hk⟩
    · rintro ⟨l', hl', hk⟩
      obtain rfl : l = l' := Option.some.inj (hl.symm.trans hl')
      exact hk
  -- the turn of this bucket is now
  have hturn : nextTurn (T i) l.current (G.faces i) = T i := by rw [hcur, nextTurn_self]
  have hdue : ∀ k, w.At k i l.current → (t : ℤ) ≤ k - b0 := by
    intro k hk
    have hup := h.upper k i l.current hi hk
    rw [hturn, hnow] at hup
    exact hup
  have hearly : ∀ k, Early G b0 T k i l.current ↔ (G.width i : ℤ) ≤ k - b0 - t := by
    intro k
    rw [Early, hturn, hnow]
    push_cast
    omega
  have hat := w.at_clear i l.current
  have hon := cascadeKeys_spec hi hid hround (l.bucket l.current)
    { w with levels := w.levels.modify i (·.clear l.current) } (h.clear i l.current) (by
      intro k hk
      have hk' := (hmem k).mp hk
      exact ⟨h.range k (Or.inl ⟨i, l.current, hk'⟩), hdue k hk'⟩)
  set w1 := (l.bucket l.current).foldl (cascadeKey i)
    { w with levels := w.levels.modify i (·.clear l.current) } with hw1
  have hempty : ∀ k, ¬ w1.At k i (T i % G.faces i) := by
    intro k hk
    rw [← hcur, hon.above k i l.current le_rfl, hat] at hk
    exact hk.2 ⟨rfl, rfl⟩
  have hres : cascadeLevel i l w = { w1 with levels := w1.levels.modify i WheelLevel.turn } := rfl
  have hkeep : ∀ k i' j, w1.At k i' j →
      (Early G b0 (update T i (T i + 1)) k i' j ↔ Early G b0 T k i' j) := by
    intro k i' j hk
    refine early_update (hon.seated.fits.bucket_lt hk) ?_
    rintro rfl rfl
    exact hempty k hk
  have htimely : ∀ k, w.Timely G b0 T k ↔ w1.Timely G b0 T k := by
    intro k
    have hbottom : ∀ j, ¬ (0 = i ∧ j = l.current) := fun j hc => hi.ne hc.1
    have hnear : ¬ (G.width i : ℤ) ≤ k - b0 - t ↔ k - b0 - t < G.width i := not_le
    rw [hon.timely, hmem]
    simp only [Timely, hat, hbottom, not_false_eq_true, and_true]
    rw [w.exists_at_split hi l.current k fun i' j => ¬ Early G b0 T k i' j, hearly, hnear, or_assoc]
  have hahead : ∀ k, w.Ahead G b0 T k ↔ w1.Ahead G b0 T k := by
    intro k
    rw [hon.ahead, hmem]
    simp only [Ahead, hat]
    rw [w.exists_at_split hi l.current k fun i' j => Early G b0 T k i' j, hearly, or_assoc]
  refine ⟨?_, fun k => ?_, fun k => ?_⟩
  · rw [hres]
    exact hon.seated.turn hi hempty
  · rw [htimely k, hres]
    simp only [Timely, at_turn]
    refine or_congr Iff.rfl (exists_congr fun i' => exists_congr fun j => ?_)
    exact and_congr_right fun _ => and_congr_right fun hk => not_congr (hkeep k i' j hk)
  · rw [hahead k, hres]
    simp only [Ahead, at_turn]
    refine or_congr Iff.rfl (exists_congr fun i' => exists_congr fun j => ?_)
    exact and_congr_right fun _ => and_congr_right fun hk => hkeep k i' j hk

/-! ## The chain of cascades -/

/-- **All cascades of slot `t + 1`**, from level `level` on: the cursors end up settled, and no key
becomes or stops being timely or ahead. -/
lemma cascadeFrom_spec : ∀ (left level : ℕ) (w : HierarchicalTimingWheel) (T : ℕ → ℕ),
    0 < level → level + left = G.depth → w.Seated G b0 (t + 1) T →
    RoundBelow G T (t + 1) level → (∀ i, level ≤ i → T i = G.turns t i) →
    (t + 1) % G.width level = 0 →
    (cascadeFrom left level w).Seated G b0 (t + 1) (G.turns (t + 1)) ∧
      (∀ k, (cascadeFrom left level w).Timely G b0 (G.turns (t + 1)) k ↔ w.Timely G b0 T k) ∧
      (∀ k, (cascadeFrom left level w).Ahead G b0 (G.turns (t + 1)) k ↔ w.Ahead G b0 T k) := by
  intro left
  induction left with
  | zero =>
    intro level w T _ hdepth h hround _ _
    have hT : ∀ i, i < G.depth → G.turns (t + 1) i = T i := by
      intro i hi
      exact G.turns_eq_of_mul (hround i (by omega))
    exact ⟨h.congr hT, timely_congr h.fits hT, ahead_congr h.fits hT⟩
  | succ left ih =>
    intro level w T hlevel hdepth h hround habove hmod
    obtain ⟨l, hl⟩ := h.fits.get (i := level) (by omega)
    have hT : T level = G.turns t level := habove level le_rfl
    have hnow : G.width level * (T level + 1) = t + 1 := by
      rw [hT]
      exact G.width_mul_turns_succ hmod
    obtain ⟨hseat, htimely, hahead⟩ := cascadeLevel_spec hlevel (by omega) h hround hnow hl
    have hround' : RoundBelow G (update T level (T level + 1)) (t + 1) (level + 1) := by
      intro i hi
      by_cases hil : i = level
      · subst hil
        rw [update_self, hnow]
      · rw [update_of_ne hil]
        exact hround i (by omega)
    have habove' : ∀ i, level + 1 ≤ i →
        update T level (T level + 1) i = G.turns t i := by
      intro i hi
      rw [update_of_ne (by omega)]
      exact habove i (by omega)
    -- the cursor comes round exactly when the next level is due as well
    have hcarry : (l.current + 1) % l.bucketCount = 0 ↔ (t + 1) % G.width (level + 1) = 0 := by
      rw [h.cursor level l hl, (h.fits.level level l hl).count, Nat.mod_add_mod, carry_iff,
        ← hnow, Nat.mul_div_cancel_left _ (G.width_pos level)]
      simp
    rw [cascadeFrom, hl]
    simp only [hcarry]
    split_ifs with hnext
    · obtain ⟨h1, h2, h3⟩ := ih (level + 1) _ _ (by omega) (by omega) hseat hround' habove' hnext
      exact ⟨h1, fun k => (h2 k).trans (htimely k), fun k => (h3 k).trans (hahead k)⟩
    · have hT' : ∀ i, i < G.depth →
          G.turns (t + 1) i = update T level (T level + 1) i := by
        intro i _
        rcases Nat.lt_or_ge i (level + 1) with hi | hi
        · exact G.turns_eq_of_mul (hround' i hi)
        · rw [habove' i hi]
          refine G.turns_succ_of_ne fun h0 => hnext ?_
          exact Nat.mod_eq_zero_of_dvd
            ((span_dvd G.faces hi).trans (Nat.dvd_of_mod_eq_zero h0))
      refine ⟨hseat.congr hT', fun k => ?_, fun k => ?_⟩
      · rw [timely_congr hseat.fits hT', htimely]
      · rw [ahead_congr hseat.fits hT', hahead]

/-! ## Draining the bottom bucket -/

/-- An upper bucket's turn is still to come, so its keys are not due. -/
lemma Seated.lt_of_upper (h : w.Seated G b0 t (G.turns t)) (hi : 0 < i) (hat : w.At k i j) :
    (t : ℤ) < k - b0 := by
  have hup := h.upper k i j hi hat
  have hlt := G.lt_width_mul_nextTurn t i j
  omega

/-- What the drained bucket holds: the timely keys whose slot is over. -/
lemma mem_drained_iff (h : w.Seated G b0 t (G.turns t)) (hl : w.levels[0]? = some l) (k : ℤ) :
    k ∈ l.bucket l.current ↔ w.Timely G b0 (G.turns t) k ∧ k - b0 ≤ t := by
  have hcur : l.current = t % G.faces 0 := by
    rw [h.cursor 0 l hl, G.turns_zero]
  constructor
  · intro hk
    have hat : w.At k 0 l.current := ⟨l, hl, hk⟩
    refine ⟨Or.inl ⟨l.current, hat⟩, ?_⟩
    rcases h.bottom k l.current hat with ⟨hlo, hhi, hj⟩ | ⟨hlt, _⟩
    · have heq : t = (k - b0).toNat := by
        refine eq_of_mod_eq (m := G.faces 0) (by omega) (by omega) ?_
        rw [← hcur]
        have hnat : ((k - b0).toNat : ℤ) = k - b0 := Int.toNat_of_nonneg (by omega)
        rw [← hnat] at hj
        exact_mod_cast hj
      omega
    · omega
  · rintro ⟨⟨j, hat⟩ | ⟨i, j, hi, hat, _⟩, hdue⟩
    · have hj : j = l.current := by
        rw [hcur]
        rcases h.bottom k j hat with ⟨hlo, _, hj⟩ | ⟨_, hj⟩
        · have hkt : k - b0 = t := by omega
          rw [hkt] at hj
          exact_mod_cast hj
        · exact hj
      obtain ⟨l', hl', hk⟩ := hat
      obtain rfl : l = l' := Option.some.inj (hl.symm.trans hl')
      rwa [← hj]
    · exact absurd (h.lt_of_upper hi hat) (not_lt.mpr hdue)

/-- The turns after a drain, the cascades still to come. -/
def drainedTurns (G : WheelGeometry) (t : ℕ) : ℕ → ℕ :=
  Function.update (G.turns t) 0 (t + 1)

lemma drainedTurns_of_pos (hi : 0 < i) : drainedTurns G t i = G.turns t i :=
  update_of_ne (by omega) _ _

lemma early_drainedTurns (hi : 0 < i) :
    Early G b0 (drainedTurns G t) k i j ↔ Early G b0 (G.turns t) k i j := by
  rw [Early, Early, drainedTurns_of_pos hi]

lemma Seated.drain (h : w.Seated G b0 t (G.turns t)) (hl : w.levels[0]? = some l)
    (hbase : InRange ((b0 + (t + 1)) * G.gap))
    (hrange : ∀ k, w.Holds k → KeyInRange G ((b0 + (t + 1)) * G.gap) k) :
    (w.drain l).Seated G b0 (t + 1) (drainedTurns G t) := by
  have hat := at_drain hl
  have hcur : l.current = t % G.faces 0 := by
    rw [h.cursor 0 l hl, G.turns_zero]
  have hnext : (w.drain l).currentBase = (b0 + (t + 1)) * G.gap := by
    have hsum : w.currentBase + w.slotGapSeconds = (b0 + (t + 1)) * G.gap := by
      rw [h.base, h.fits.gap]
      ring
    rw [HierarchicalTimingWheel.drain, hsum, wrap64_of_mem hbase]
  refine
    { initialized := h.initialized
      baseRange := by
        rw [hnext]
        exact hbase
      fits := h.fits.modify (levels_drain w l) rfl fun l _ hl =>
        hl.congr rfl rfl (length_modify _ _ _)
      base := by
        rw [hnext]
        push_cast
        rfl
      cursor := ?_
      bottom := ?_
      upper := ?_
      range := ?_
      nodup := ?_
      overflow_nodup := h.overflow_nodup }
  · intro i l' hl'
    rw [getElem?_modify_levels (levels_drain w l), Option.map_eq_some_iff] at hl'
    obtain ⟨l'', hl'', rfl⟩ := hl'
    split_ifs with hi
    · subst hi
      have hc := h.cursor 0 l'' hl''
      rw [G.turns_zero] at hc
      rw [drainedTurns, update_self, ← Nat.mod_add_mod, ← hc,
        ← (h.fits.level 0 l'' hl'').count]
      rfl
    · rw [drainedTurns_of_pos (by omega)]
      exact h.cursor i l'' hl''
  · intro k j hk
    obtain ⟨hk, hne⟩ := (hat k 0 j).mp hk
    rcases h.bottom k j hk with ⟨hlo, hhi, hj⟩ | ⟨_, hj⟩
    · refine Or.inl ⟨?_, by push_cast; omega, hj⟩
      have hkt : k - b0 ≠ t := by
        intro hkt
        rw [hkt] at hj
        exact hne ⟨rfl, by rw [hcur]; exact_mod_cast hj⟩
      push_cast
      omega
    · exact absurd ⟨rfl, hj.trans hcur.symm⟩ hne
  · intro k i j hi hk
    rw [drainedTurns_of_pos hi]
    exact h.upper k i j hi ((hat k i j).mp hk).1
  · rw [hnext]
    rintro k (⟨i, j, hk⟩ | hk)
    · exact hrange k (Or.inl ⟨i, j, ((hat k i j).mp hk).1⟩)
    · exact hrange k (Or.inr hk)
  · intro i l' j hl'
    rw [getElem?_modify_levels (levels_drain w l), Option.map_eq_some_iff] at hl'
    obtain ⟨l'', hl'', rfl⟩ := hl'
    split_ifs with hi
    · subst hi
      rw [WheelLevel.bucket_turn, WheelLevel.bucket_clear]
      split_ifs
      · exact nodup_nil
      · exact h.nodup 0 l'' j hl''
    · exact h.nodup i l'' j hl''

/-- A drain takes away the timely keys whose slot is over. -/
lemma timely_drain (h : w.Seated G b0 t (G.turns t)) (hl : w.levels[0]? = some l) (k : ℤ) :
    (w.drain l).Timely G b0 (drainedTurns G t) k
      ↔ w.Timely G b0 (G.turns t) k ∧ (t : ℤ) < k - b0 := by
  have hat := at_drain hl
  have hmem := mem_drained_iff h hl k
  constructor
  · rintro (⟨j, hk⟩ | ⟨i, j, hi, hk, he⟩)
    · obtain ⟨hk, hne⟩ := (hat k 0 j).mp hk
      refine ⟨Or.inl ⟨j, hk⟩, ?_⟩
      by_contra hdue
      -- a due key sits in the drained bucket and nowhere else at level 0
      rcases h.bottom k j hk with ⟨hlo, _, hj⟩ | ⟨_, hj⟩
      · have hkt : k - b0 = t := by omega
        rw [hkt] at hj
        refine hne ⟨rfl, ?_⟩
        rw [h.cursor 0 l hl, G.turns_zero]
        exact_mod_cast hj
      · refine hne ⟨rfl, ?_⟩
        rw [h.cursor 0 l hl, G.turns_zero, hj]
    · have hk' := ((hat k i j).mp hk).1
      rw [early_drainedTurns hi] at he
      exact ⟨Or.inr ⟨i, j, hi, hk', he⟩, h.lt_of_upper hi hk'⟩
  · rintro ⟨⟨j, hk⟩ | ⟨i, j, hi, hk, he⟩, hlater⟩
    · refine Or.inl ⟨j, (hat k 0 j).mpr ⟨hk, ?_⟩⟩
      rintro ⟨_, rfl⟩
      obtain ⟨l', hl', hk'⟩ := hk
      obtain rfl : l = l' := Option.some.inj (hl.symm.trans hl')
      have := (hmem.mp hk').2
      omega
    · refine Or.inr ⟨i, j, hi, (hat k i j).mpr ⟨hk, by omega⟩, ?_⟩
      rwa [early_drainedTurns hi]

lemma ahead_drain (hl : w.levels[0]? = some l) (k : ℤ) :
    (w.drain l).Ahead G b0 (drainedTurns G t) k ↔ w.Ahead G b0 (G.turns t) k := by
  have hat := at_drain hl
  refine or_congr Iff.rfl (exists_congr fun i => exists_congr fun j => ?_)
  refine and_congr_right fun hi => ?_
  rw [early_drainedTurns hi, hat]
  exact and_congr_left fun _ => ⟨fun hk => hk.1, fun hk => ⟨hk, by omega⟩⟩

/-! ## One tick -/

/-- What one tick does. -/
structure Ticks (G : WheelGeometry) (b0 : ℤ) (t : ℕ) (w w' : HierarchicalTimingWheel)
    (ready : List ℤ) : Prop where
  seated : w'.Seated G b0 (t + 1) (G.turns (t + 1))
  nodup : ready.Nodup
  ready : ∀ k, k ∈ ready ↔ w.Timely G b0 (G.turns t) k ∧ k - b0 ≤ t
  timely : ∀ k, w'.Timely G b0 (G.turns (t + 1)) k
    ↔ w.Timely G b0 (G.turns t) k ∧ (t : ℤ) < k - b0
  ahead : ∀ k, w'.Ahead G b0 (G.turns (t + 1)) k ↔ w.Ahead G b0 (G.turns t) k

theorem tick_spec (h : w.Seated G b0 t (G.turns t)) (hbase : InRange ((b0 + (t + 1)) * G.gap))
    (hrange : ∀ k, w.Holds k → KeyInRange G ((b0 + (t + 1)) * G.gap) k) :
    Ticks G b0 t w w.tick.1 w.tick.2 := by
  have hdepth := G.two_le_depth
  obtain ⟨l, hl⟩ := h.fits.get (i := 0) (by omega)
  have hseat := h.drain hl hbase hrange
  have hround : RoundBelow G (drainedTurns G t) (t + 1) 1 := by
    intro i hi
    obtain rfl : i = 0 := by omega
    simp [drainedTurns, WheelGeometry.width]
  have habove : ∀ i, 1 ≤ i → drainedTurns G t i = G.turns t i := fun i hi =>
    drainedTurns_of_pos hi
  have hcarry : (l.current + 1) % l.bucketCount = 0 ↔ (t + 1) % G.width 1 = 0 := by
    rw [h.cursor 0 l hl, (h.fits.level 0 l hl).count, G.turns_zero, Nat.mod_add_mod, G.width_succ]
    simp [WheelGeometry.width]
  have hready : w.tick.2 = l.bucket l.current := by
    rw [tick, hl]
  have hwheel : w.tick.1
      = if (t + 1) % G.width 1 = 0 then (w.drain l).cascade 1 else w.drain l := by
    rw [tick, hl]
    simp only [hcarry]
  have key : w.tick.1.Seated G b0 (t + 1) (G.turns (t + 1)) ∧
      (∀ k, w.tick.1.Timely G b0 (G.turns (t + 1)) k
        ↔ (w.drain l).Timely G b0 (drainedTurns G t) k) ∧
      (∀ k, w.tick.1.Ahead G b0 (G.turns (t + 1)) k
        ↔ (w.drain l).Ahead G b0 (drainedTurns G t) k) := by
    rw [hwheel]
    split_ifs with hmod
    · refine cascadeFrom_spec _ 1 _ _ Nat.one_pos ?_ hseat hround habove hmod
      rw [hseat.fits.depth]
      omega
    · -- no level is due in this slot
      have hT : ∀ i, i < G.depth → G.turns (t + 1) i = drainedTurns G t i := by
        intro i _
        rcases Nat.eq_zero_or_pos i with rfl | hi
        · simp [drainedTurns]
        · rw [drainedTurns_of_pos hi]
          refine G.turns_succ_of_ne fun h0 => hmod ?_
          exact Nat.mod_eq_zero_of_dvd
            ((span_dvd G.faces hi).trans (Nat.dvd_of_mod_eq_zero h0))
      exact ⟨hseat.congr hT, timely_congr hseat.fits hT, ahead_congr hseat.fits hT⟩
  obtain ⟨h1, h2, h3⟩ := key
  refine ⟨h1, ?_, ?_, ?_, ?_⟩
  · rw [hready]
    exact h.nodup 0 l l.current hl
  · rw [hready]
    exact mem_drained_iff h hl
  · intro k
    rw [h2, timely_drain h hl]
  · intro k
    rw [h3, ahead_drain hl]

end HierarchicalTimingWheel

end ScheduledDb
