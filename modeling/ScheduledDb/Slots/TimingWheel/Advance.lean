import ScheduledDb.Slots.TimingWheel.Cascade

/-!
# `Advance`, over any number of slot boundaries

`advance_spec` describes one call of `Advance` on a wheel that satisfies the invariant, however
many boundaries it crosses: it returns the *timely* keys whose slot is over and keeps the timely
keys whose slot is not; the keys that are *ahead* it keeps in any case, also those whose slot has
gone by meanwhile.

The overflow area is looked at once, after the loop.  Every key within the coverage of the wheel is
re-entered, so that the last loop of `Advance`, which hands out overflow keys whose slot has begun,
never finds one.
-/

namespace ScheduledDb

open Machine Odometer

namespace HierarchicalTimingWheel

variable {G : WheelGeometry} {w w' : HierarchicalTimingWheel} {b0 : ℤ} {t : ℕ} {T : ℕ → ℕ}
  {b k a now : ℤ}

/-- A key in range at two bases is in range at every base between them. -/
lemma KeyInRange.between {x : ℤ} (ha : KeyInRange G a k) (hb : KeyInRange G b k) (hax : a ≤ x)
    (hxb : x ≤ b) : KeyInRange G x k := by
  obtain ⟨h1, _, h2⟩ := ha
  obtain ⟨_, h3, _⟩ := hb
  exact ⟨h1, by omega, by omega⟩

/-! ## The loop over the slot boundaries -/

/-- What `n` rounds do, from slot `t` on. -/
structure Rounds (G : WheelGeometry) (b0 : ℤ) (t n : ℕ) (w w' : HierarchicalTimingWheel)
    (ready : List ℤ) : Prop where
  seated : w'.Seated G b0 (t + n) (G.turns (t + n))
  nodup : ready.Nodup
  ready : ∀ k, k ∈ ready ↔ w.Timely G b0 (G.turns t) k ∧ k - b0 < t + n
  timely : ∀ k, w'.Timely G b0 (G.turns (t + n)) k
    ↔ w.Timely G b0 (G.turns t) k ∧ (t + n : ℤ) ≤ k - b0
  ahead : ∀ k, w'.Ahead G b0 (G.turns (t + n)) k ↔ w.Ahead G b0 (G.turns t) k

lemma base_le_base (h : a ≤ b) : a * G.gap ≤ b * G.gap :=
  Int.mul_le_mul_of_nonneg_right h G.gap_pos.le

/-- **The loop of `Advance`.**  By induction on the boundaries still to cross; a round is
`tick_spec`. -/
lemma advanceLoop_spec : ∀ (n rounds t : ℕ) (w : HierarchicalTimingWheel) (acc : List ℤ),
    0 < n → n ≤ rounds → w.Seated G b0 t (G.turns t) → InRange ((b0 + (t + n)) * G.gap) →
    (∀ k, w.Holds k → KeyInRange G ((b0 + (t + n)) * G.gap) k) →
    ∃ w' ready, advanceLoop ((b0 + (t + n)) * G.gap) rounds (w, acc) = (w', acc ++ ready) ∧
      Rounds G b0 t n w w' ready := by
  intro n
  induction n with
  | zero =>
    intro rounds t w acc hn
    omega
  | succ n ih =>
    intro rounds t w acc _ hr h hbase hrange
    obtain ⟨rounds, rfl⟩ : ∃ r, rounds = r + 1 := ⟨rounds - 1, by omega⟩
    have hbound : (b0 + (t + 1)) * G.gap ≤ (b0 + (t + (n + 1 : ℕ))) * G.gap :=
      base_le_base (by push_cast; omega)
    have hstep : (b0 + t) * G.gap ≤ (b0 + (t + 1)) * G.gap := base_le_base (by omega)
    have hlt : (b0 + t) * G.gap < (b0 + (t + (n + 1 : ℕ))) * G.gap :=
      Int.mul_lt_mul_of_pos_right (by push_cast; omega) G.gap_pos
    have hrange1 : ∀ k, w.Holds k → KeyInRange G ((b0 + (t + 1)) * G.gap) k := by
      intro k hk
      refine (h.range k hk).between (hrange k hk) ?_ hbound
      rw [h.base]
      exact hstep
    have hbase1 : InRange ((b0 + (t + 1)) * G.gap) := by
      -- between the range of the current base and that of the last one
      have hlow := h.baseRange.1
      rw [h.base] at hlow
      exact ⟨hlow.trans hstep, lt_of_le_of_lt hbound hbase.2⟩
    have htick := tick_spec h hbase1 hrange1
    rw [advanceLoop, if_pos (by rw [h.base]; exact hlt)]
    rcases Nat.eq_zero_or_pos n with rfl | hn
    · -- the last round
      refine ⟨w.tick.1, w.tick.2, ?_, htick.seated, htick.nodup, ?_, ?_, htick.ahead⟩
      · cases rounds with
        | zero => rfl
        | succ r =>
          rw [advanceLoop, if_neg]
          rw [htick.seated.base]
          push_cast
          simp
      · intro k
        rw [htick.ready]
        push_cast
        exact and_congr_right fun _ => by omega
      · intro k
        rw [htick.timely]
        push_cast
        exact and_congr_right fun _ => by omega
    · have hshift : (b0 + (t + (n + 1 : ℕ))) * G.gap = (b0 + ((t + 1 : ℕ) + n)) * G.gap := by
        push_cast
        ring
      have hheld : ∀ k, w.tick.1.Holds k → w.Holds k := by
        intro k hk
        rw [holds_iff _ G b0 (G.turns (t + 1))] at hk
        rw [holds_iff _ G b0 (G.turns t)]
        rcases hk with hk | hk
        · exact Or.inl ((htick.timely k).mp hk).1
        · exact Or.inr ((htick.ahead k).mp hk)
      rw [hshift] at hbase hrange ⊢
      obtain ⟨w', ready, heq, hrest⟩ := ih rounds (t + 1) w.tick.1 (acc ++ w.tick.2) hn
        (by omega) htick.seated hbase fun k hk => hrange k (hheld k hk)
      have hadd : t + 1 + n = t + (n + 1) := by omega
      refine ⟨w', w.tick.2 ++ ready, by rw [heq, List.append_assoc], ?_, ?_, ?_, ?_, ?_⟩
      · rw [← hadd]
        exact hrest.seated
      · refine List.Nodup.append htick.nodup hrest.nodup ?_
        intro k hk1 hk2
        have h1 := ((htick.ready k).mp hk1).2
        have h2 := ((htick.timely k).mp ((hrest.ready k).mp hk2).1).2
        omega
      · intro k
        rw [List.mem_append, htick.ready, hrest.ready, htick.timely]
        push_cast
        constructor
        · rintro (⟨h1, h2⟩ | ⟨⟨h1, _⟩, h2⟩)
          · exact ⟨h1, by omega⟩
          · exact ⟨h1, by omega⟩
        · rintro ⟨h1, h2⟩
          by_cases hk : k - b0 ≤ t
          · exact Or.inl ⟨h1, hk⟩
          · exact Or.inr ⟨⟨h1, by omega⟩, by omega⟩
      · intro k
        rw [← hadd, hrest.timely, htick.timely, and_assoc]
        push_cast
        exact and_congr_right fun _ => by omega
      · intro k
        rw [← hadd, hrest.ahead, htick.ahead]

/-! ## The overflow area after the loop -/

/-- The wheel's coverage reaches the key. -/
def Within (G : WheelGeometry) (b0 : ℤ) (t : ℕ) (k : ℤ) : Prop :=
  ((k - b0 - t).toNat : ℤ) * G.gap < G.coverage

/-- Re-entering overflow keys, one after the other. -/
lemma reenter_fold : ∀ (ks : List ℤ) (s : HierarchicalTimingWheel × List ℤ),
    s.1.Seated G b0 t (G.turns t) → (∀ k ∈ ks, KeyInRange G s.1.currentBase k) →
    (ks.foldl (reenter G.coverage) s).1.Seated G b0 t (G.turns t) ∧
      (ks.foldl (reenter G.coverage) s).1.overflow = s.1.overflow ∧
      (∀ k, (∃ i j, (ks.foldl (reenter G.coverage) s).1.At k i j)
        ↔ (∃ i j, s.1.At k i j) ∨ (k ∈ ks ∧ Within G b0 t k)) ∧
      (∀ k, k ∈ (ks.foldl (reenter G.coverage) s).2
        ↔ k ∈ s.2 ∨ (k ∈ ks ∧ Within G b0 t k)) := by
  intro ks
  induction ks with
  | nil =>
    intro s h _
    exact ⟨h, rfl, by simp, by simp⟩
  | cons k ks ih =>
    intro s h hks
    have hk := hks k List.mem_cons_self
    obtain ⟨loc, hfind, hloc⟩ := h.findBucket hk
    rw [List.foldl_cons]
    by_cases hin : Within G b0 t k
    · have hplace := h.place (G.turns_zero t) hk hloc (G.width_mul_turns_le t loc.level)
      have hat := at_place (h.fits.names hloc.level_lt hloc.bucket_lt) k
      have hone : reenter G.coverage s k = (s.1.place loc k, s.2 ++ [k]) := by
        have hlt : s.1.deltaTo k < G.coverage := by
          rw [h.deltaTo hk]
          exact hin
        rw [reenter, if_pos hlt, hfind]
      rw [hone]
      obtain ⟨h1, h2, h3, h4⟩ := ih (s.1.place loc k, s.2 ++ [k]) hplace fun k' hk' =>
        hks k' (List.mem_cons_of_mem k hk')
      have hcons : ∀ k', k' ∈ k :: ks ∧ Within G b0 t k' ↔
          k' = k ∨ (k' ∈ ks ∧ Within G b0 t k') := by
        intro k'
        rw [List.mem_cons, or_and_right]
        refine or_congr_left (and_iff_left_of_imp ?_)
        rintro rfl
        exact hin
      have hplaced : ∀ k', (∃ i j, (s.1.place loc k).At k' i j) ↔
          (∃ i j, s.1.At k' i j) ∨ k' = k := by
        intro k'
        simp only [hat]
        constructor
        · rintro ⟨i, j, h | ⟨rfl, _, _⟩⟩
          · exact Or.inl ⟨i, j, h⟩
          · exact Or.inr rfl
        · rintro (⟨i, j, h⟩ | rfl)
          · exact ⟨i, j, Or.inl h⟩
          · exact ⟨loc.level, loc.bucket, Or.inr ⟨rfl, rfl, rfl⟩⟩
      refine ⟨h1, h2, fun k' => ?_, fun k' => ?_⟩
      · rw [h3, hcons, hplaced, or_assoc]
      · rw [h4, hcons, List.mem_append, List.mem_singleton, or_assoc]
    · have hone : reenter G.coverage s k = s := by
        have hge : ¬ s.1.deltaTo k < G.coverage := by
          rw [h.deltaTo hk]
          exact hin
        rw [reenter, if_neg hge]
      rw [hone]
      obtain ⟨h1, h2, h3, h4⟩ := ih s h fun k' hk' => hks k' (List.mem_cons_of_mem k hk')
      have hskip : ∀ k', k' ∈ k :: ks ∧ Within G b0 t k' ↔ k' ∈ ks ∧ Within G b0 t k' := by
        intro k'
        rw [List.mem_cons]
        constructor
        · rintro ⟨rfl | hmem, hw⟩
          · exact absurd hw hin
          · exact ⟨hmem, hw⟩
        · rintro ⟨hmem, hw⟩
          exact ⟨Or.inr hmem, hw⟩
      refine ⟨h1, h2, fun k' => ?_, fun k' => ?_⟩
      · rw [h3, hskip]
      · rw [h4, hskip]

/-- Dropping overflow entries keeps the invariant. -/
lemma Seated.filterOverflow (h : w.Seated G b0 t T) (p : ℤ → Bool) :
    ({ w with overflow := w.overflow.filter p } : HierarchicalTimingWheel).Seated G b0 t T :=
  { initialized := h.initialized
    baseRange := h.baseRange
    fits := ⟨h.fits.gap, h.fits.depth, h.fits.level⟩
    base := h.base
    cursor := h.cursor
    bottom := h.bottom
    upper := h.upper
    range := fun k hk => h.range k (hk.imp_right List.mem_of_mem_filter)
    nodup := h.nodup
    overflow_nodup := h.overflow_nodup.filter p }

/-- **Re-entry keeps every key and empties the overflow area of those within reach.** -/
lemma reenterOverflow_spec (h : w.Seated G b0 t (G.turns t)) :
    w.reenterOverflow.Seated G b0 t (G.turns t) ∧
      (∀ k, w.reenterOverflow.Holds k ↔ w.Holds k) ∧
      (∀ k, k ∈ w.reenterOverflow.overflow ↔ k ∈ w.overflow ∧ ¬ Within G b0 t k) := by
  obtain ⟨h1, h2, h3, h4⟩ := reenter_fold w.overflow (w, []) h fun k hk =>
    h.range k (Or.inr hk)
  have hover : ∀ k, k ∈ w.reenterOverflow.overflow ↔ k ∈ w.overflow ∧ ¬ Within G b0 t k := by
    intro k
    simp only [reenterOverflow, h.fits.totalCoverage, List.mem_filter, h2, h4, decide_eq_true_eq]
    constructor
    · rintro ⟨hk, hn⟩
      exact ⟨hk, fun hw => hn (Or.inr ⟨hk, hw⟩)⟩
    · rintro ⟨hk, hn⟩
      refine ⟨hk, ?_⟩
      rintro (hc | ⟨_, hw⟩)
      · simp at hc
      · exact hn hw
  refine ⟨?_, fun k => ?_, hover⟩
  · rw [reenterOverflow, h.fits.totalCoverage]
    exact h1.filterOverflow _
  · have hat : (∃ i j, w.reenterOverflow.At k i j)
        ↔ (∃ i j, w.At k i j) ∨ (k ∈ w.overflow ∧ Within G b0 t k) := by
      rw [reenterOverflow, h.fits.totalCoverage]
      exact h3 k
    rw [Holds, Holds, hat, hover]
    by_cases hw : Within G b0 t k
    · simp [hw]
    · simp [hw]

/-- No slot that has begun is left in the overflow area. -/
lemma promoteOverflow_eq (h : w.Seated G b0 t T) (hfar : ∀ k ∈ w.overflow, ¬ Within G b0 t k) :
    (promoteOverflow w.currentBase w).1 = w ∧ (promoteOverflow w.currentBase w).2 = [] := by
  have hnone : (w.overflow.filter fun k => w.computeSlotTime k ≤ w.currentBase) = [] := by
    rw [List.filter_eq_nil_iff]
    intro k hk hle
    have hrange := (h.range k (Or.inr hk)).1
    have hcov := G.coverage_pos
    refine hfar k hk ?_
    rw [decide_eq_true_eq, computeSlotTime, h.fits.gap, wrap64_of_mem hrange, h.base] at hle
    have hpast : k ≤ b0 + t := le_of_mul_le_mul_right hle G.gap_pos
    rw [Within, Int.toNat_of_nonpos (by omega)]
    simpa using hcov
  rw [promoteOverflow, hnone]
  simp [forget]

/-! ## The whole call -/

/-- What a call of `Advance` that moves the base by `n > 0` slots does. -/
structure Advances (G : WheelGeometry) (b0 : ℤ) (t n : ℕ) (w w' : HierarchicalTimingWheel)
    (ready : List ℤ) : Prop where
  seated : w'.Seated G b0 (t + n) (G.turns (t + n))
  nodup : ready.Nodup
  ready : ∀ k, k ∈ ready ↔ w.Timely G b0 (G.turns t) k ∧ k - b0 < t + n
  holds : ∀ k, w'.Holds k
    ↔ (w.Timely G b0 (G.turns t) k ∧ (t + n : ℤ) ≤ k - b0) ∨ w.Ahead G b0 (G.turns t) k
  overflow : ∀ k ∈ w'.overflow, ¬ Within G b0 (t + n) k

/-- `Advance` before the next slot boundary does nothing. -/
lemma advance_of_le (hle : w.baseAt now ≤ w.currentBase) : w.advance now = (w, []) := by
  simp only [advance, if_pos hle, ite_self]

/-- **`Advance` over `n` boundaries.** -/
theorem advance_spec (h : w.Seated G b0 t (G.turns t)) {n : ℕ} (hn : 0 < n)
    (hnow : w.baseAt now = (b0 + (t + n)) * G.gap) (hbase : InRange (w.baseAt now))
    (hrange : ∀ k, w.Holds k → KeyInRange G (w.baseAt now) k) :
    Advances G b0 t n w (w.advance now).1 (w.advance now).2 := by
  have hgap := G.gap_pos
  have hdist : w.baseAt now - w.currentBase = n * G.gap := by
    rw [hnow, h.base]
    ring
  have hpos : (0 : ℤ) < n * G.gap := mul_pos (by exact_mod_cast hn) hgap
  have hrounds : n ≤ (w.baseAt now - w.currentBase).toNat := by
    have := G.le_mul_gap n
    omega
  rw [hnow] at hbase hrange
  obtain ⟨w1, ready, heq, hloop⟩ := advanceLoop_spec n _ t w [] hn hrounds h hbase hrange
  obtain ⟨hseat, hholds, hover⟩ := reenterOverflow_spec hloop.seated
  have hcur : w1.reenterOverflow.currentBase = w.baseAt now := by
    rw [hseat.base, hnow]
    push_cast
    rfl
  obtain ⟨hpw, hpr⟩ := promoteOverflow_eq hseat fun k hk => ((hover k).mp hk).2
  rw [hcur] at hpw hpr
  have hadv : w.advance now = (w1.reenterOverflow, ready) := by
    have hgt : ¬ w.baseAt now ≤ w.currentBase := by omega
    rw [← hnow, List.nil_append] at heq
    simp only [advance, h.initialized, Bool.not_true, Bool.false_eq_true, if_false, if_neg hgt,
      heq]
    rw [hpw, hpr, List.append_nil]
  rw [hadv]
  refine ⟨hseat, hloop.nodup, hloop.ready, fun k => ?_, fun k hk => ((hover k).mp hk).2⟩
  rw [hholds, holds_iff _ G b0 (G.turns (t + n)), hloop.timely, hloop.ahead]

/-! ## One boundary at a time -/

/-- Keys on their way to the overflow area are not due, if that area holds far keys only. -/
lemma lt_of_ahead (hfar : ∀ k ∈ w.overflow, ¬ Within G b0 t k) (hk : w.Ahead G b0 (G.turns t) k) :
    (t : ℤ) < k - b0 := by
  rcases hk with hk | ⟨i, j, hi, _, he⟩
  · by_contra hle
    refine hfar k hk ?_
    rw [Within, Int.toNat_of_nonpos (by omega)]
    simpa using G.coverage_pos
  · have hlt := G.lt_width_mul_nextTurn t i j
    rw [Early] at he
    omega

/-- Every key whose slot is over after `n` slots is returned, and no other. -/
structure Serves (G : WheelGeometry) (b0 : ℤ) (t n : ℕ) (w w' : HierarchicalTimingWheel)
    (ready : List ℤ) : Prop where
  seated : w'.Seated G b0 (t + n) (G.turns (t + n))
  ready : ∀ k, k ∈ ready ↔ w.Holds k ∧ k - b0 < t + n
  holds : ∀ k, w'.Holds k ↔ w.Holds k ∧ (t + n : ℤ) ≤ k - b0
  overflow : ∀ k ∈ w'.overflow, ¬ Within G b0 (t + n) k

/-- **`Advance` over one boundary** misses no key: none that is ahead has its slot behind it. -/
lemma Advances.serves {ready : List ℤ} (h : Advances G b0 t 1 w w' ready)
    (hfar : ∀ k ∈ w.overflow, ¬ Within G b0 t k) : Serves G b0 t 1 w w' ready := by
  refine ⟨h.seated, fun k => ?_, fun k => ?_, h.overflow⟩
  · rw [h.ready, holds_iff w G b0 (G.turns t)]
    constructor
    · rintro ⟨h1, h2⟩
      exact ⟨Or.inl h1, h2⟩
    · rintro ⟨h1 | h1, h2⟩
      · exact ⟨h1, h2⟩
      · have := lt_of_ahead hfar h1
        push_cast at h2
        omega
  · rw [h.holds, holds_iff w G b0 (G.turns t)]
    constructor
    · rintro (⟨h1, h2⟩ | h1)
      · exact ⟨Or.inl h1, h2⟩
      · have := lt_of_ahead hfar h1
        exact ⟨Or.inr h1, by push_cast; omega⟩
    · rintro ⟨h1 | h1, h2⟩
      · exact Or.inl ⟨h1, h2⟩
      · exact Or.inr h1

end HierarchicalTimingWheel

end ScheduledDb
