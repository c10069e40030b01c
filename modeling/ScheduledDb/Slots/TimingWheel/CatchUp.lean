import Mathlib.Tactic.LinearCombination
import ScheduledDb.Slots.TimingWheel.ExactFiring
import ScheduledDb.Slots.TimingWheel.Places

/-!
# Catching up

A call of `Advance` after a pause crosses many slot boundaries at once.  Its loop does for each of
them what a call of its own would do; but the overflow area is looked at only once, at the end.

So the jump differs from single steps for one kind of key: one that is in the overflow area, or that
a level above will hand on to it (`Strays`), and whose slot begins before the new base.  Single
steps bring it back into the wheel in time.  After the jump it is entered into the bucket under the
cursor, as a key of the past: it is not returned although its slot is over, and the loop that would
return it, the last one of `Advance`, never sees it.
-/

namespace ScheduledDb

open Machine Odometer HierarchicalTimingWheel List

namespace HierarchicalTimingWheel

variable {G : WheelGeometry} {w w' : HierarchicalTimingWheel} {b0 : ℤ} {t : ℕ} {n i : ℕ} {k now : ℤ}

/-! ## Single steps -/

/-- `Advance` at each of the given times, and all that the calls return. -/
def advanceAll (w : HierarchicalTimingWheel) : List ℤ → HierarchicalTimingWheel × List ℤ
  | [] => (w, [])
  | now :: rest =>
    let next := w.advance now
    ((next.1.advanceAll rest).1, next.2 ++ (next.1.advanceAll rest).2)

/-- The first `n` slot boundaries after the base. -/
def boundaries (w : HierarchicalTimingWheel) (n : ℕ) : List ℤ :=
  (List.range n).map fun i : ℕ => w.currentBase + (i + 1) * w.slotGapSeconds

/-- `Advance` at every slot boundary from the next one to the last before `now`. -/
def stepTo (w : HierarchicalTimingWheel) (now : ℤ) : HierarchicalTimingWheel × List ℤ :=
  w.advanceAll (w.boundaries ((w.baseAt now - w.currentBase) / w.slotGapSeconds).toNat)

/-- One call of `Advance` returns the keys that single steps return, and leaves the same keys. -/
def CatchesUp (w : HierarchicalTimingWheel) (now : ℤ) : Prop :=
  (∀ k, k ∈ (w.advance now).2 ↔ k ∈ (w.stepTo now).2) ∧
    ∀ k, (w.advance now).1.Holds k ↔ (w.stepTo now).1.Holds k

lemma advanceAll_snoc (now : ℤ) (times : List ℤ) : ∀ w : HierarchicalTimingWheel,
    w.advanceAll (times ++ [now])
      = (((w.advanceAll times).1.advance now).1,
        (w.advanceAll times).2 ++ ((w.advanceAll times).1.advance now).2) := by
  induction times with
  | nil =>
    intro w
    simp [advanceAll]
  | cons time rest ih =>
    intro w
    simp [advanceAll, ih]

lemma boundaries_succ (w : HierarchicalTimingWheel) (n : ℕ) :
    w.boundaries (n + 1)
      = w.boundaries n ++ [w.currentBase + (n + 1) * w.slotGapSeconds] := by
  simp [boundaries, range_succ]

/-- One step more. -/
lemma Serves.next {w1 w2 : HierarchicalTimingWheel} {ready ready' : List ℤ}
    (h : Serves G b0 t n w w1 ready) (h' : Serves G b0 (t + n) 1 w1 w2 ready') :
    Serves G b0 t (n + 1) w w2 (ready ++ ready') := by
  refine ⟨h'.seated, fun k => ?_, fun k => ?_, h'.overflow⟩
  · rw [mem_append, h.ready, h'.ready, h.holds]
    push_cast
    constructor
    · rintro (⟨h1, h2⟩ | ⟨⟨h1, _⟩, h2⟩)
      · exact ⟨h1, by omega⟩
      · exact ⟨h1, by omega⟩
    · rintro ⟨h1, h2⟩
      by_cases hk : k - b0 < t + n
      · exact Or.inl ⟨h1, hk⟩
      · exact Or.inr ⟨⟨h1, by omega⟩, by omega⟩
  · rw [h'.holds, h.holds, and_assoc]
    push_cast
    exact and_congr_right fun _ => by omega

/-- A single step misses no key. -/
lemma Seated.serves_one (h : w.Seated G b0 t (G.turns t))
    (hfar : ∀ k ∈ w.overflow, ¬ Within G b0 t k) (hbase : InRange ((b0 + (t + 1)) * G.gap))
    (hrange : ∀ k, w.Holds k → KeyInRange G ((b0 + (t + 1)) * G.gap) k) :
    Serves G b0 t 1 w (w.advance ((b0 + (t + 1)) * G.gap)).1
      (w.advance ((b0 + (t + 1)) * G.gap)).2 := by
  have hnow : w.baseAt ((b0 + (t + 1)) * G.gap) = (b0 + (t + 1)) * G.gap := by
    rw [baseAt, h.fits.gap, Int.mul_tdiv_cancel _ G.gap_pos.ne']
  refine (advance_spec h Nat.one_pos (by simpa using hnow) ?_ ?_).serves hfar
  · rwa [hnow]
  · rwa [hnow]

/-- **Single steps miss no key.**  By induction on the number of boundaries. -/
lemma Seated.serves (h : w.Seated G b0 t (G.turns t)) (hfar : ∀ k ∈ w.overflow, ¬ Within G b0 t k)
    (hn : 0 < n) (hbase : InRange ((b0 + (t + n)) * G.gap))
    (hrange : ∀ k, w.Holds k → KeyInRange G ((b0 + (t + n)) * G.gap) k) :
    Serves G b0 t n w (w.advanceAll (w.boundaries n)).1 (w.advanceAll (w.boundaries n)).2 := by
  have hlow := h.baseRange.1
  rw [h.base] at hlow
  -- the base and the distances of keys stay in range at every boundary on the way
  have hbases : ∀ m : ℕ, m ≤ n → InRange ((b0 + (t + m)) * G.gap) := fun m hm =>
    ⟨hlow.trans (base_le_base (by omega)), lt_of_le_of_lt (base_le_base (by omega)) hbase.2⟩
  have hranges : ∀ m : ℕ, m ≤ n → ∀ k, w.Holds k → KeyInRange G ((b0 + (t + m)) * G.gap) k := by
    intro m hm k hk
    refine (h.range k hk).between (hrange k hk) ?_ (base_le_base (by omega))
    rw [h.base]
    exact base_le_base (by omega)
  have htime : ∀ m : ℕ, w.currentBase + (m + 1) * w.slotGapSeconds = (b0 + (t + m + 1)) * G.gap := by
    intro m
    rw [h.base, h.fits.gap]
    ring
  clear hbase hrange
  induction n, hn using Nat.le_induction with
  | base =>
    have hone := h.serves_one hfar (by simpa using hbases 1 le_rfl)
      (by simpa using hranges 1 le_rfl)
    have hfirst := htime 0
    simp only [Nat.cast_zero, zero_add, one_mul, add_zero] at hfirst
    simpa [boundaries, advanceAll, hfirst] using hone
  | succ n hn ih =>
    have hprev := ih (fun m hm => hbases m (by omega)) fun m hm => hranges m (by omega)
    have hlast := hprev.seated.serves_one hprev.overflow
      (by simpa [add_assoc] using hbases (n + 1) le_rfl) (fun k hk => by
        simpa [add_assoc] using hranges (n + 1) le_rfl k ((hprev.holds k).mp hk).1)
    rw [boundaries_succ, advanceAll_snoc, htime]
    refine hprev.next ?_
    simpa using hlast

/-! ## Keys that stray -/

/-- The base at which level `i` turns next: every level below has to come round first. -/
def nextTurnAt (w : HierarchicalTimingWheel) (i : ℕ) : ℤ :=
  w.currentBase + w.slotGapSeconds
    + ((w.levels.take i).map fun l =>
        ((l.bucketCount : ℤ) - 1 - l.current) * l.granularity).sum

/-- The base at which bucket `j` of level `i` is emptied and its keys are handed on. -/
def handedOnAt (w : HierarchicalTimingWheel) (i : ℕ) (l : WheelLevel) (j : ℕ) : ℤ :=
  w.nextTurnAt i + ((j + l.bucketCount - l.current) % l.bucketCount : ℕ) * l.granularity

/-- A key in the overflow area, or in a bucket that is handed on a whole bucket width before the
key's slot: no lower level can take it then. -/
def Strays (w : HierarchicalTimingWheel) (slotKey : ℤ) : Prop :=
  slotKey ∈ w.overflow ∨
    ∃ i < w.levels.length, ∃ l ∈ w.levels[i]?, ∃ j < l.buckets.length,
      0 < i ∧ slotKey ∈ l.bucket j ∧
        w.handedOnAt i l j + l.granularity ≤ slotKey * w.slotGapSeconds

instance (w : HierarchicalTimingWheel) (slotKey : ℤ) : Decidable (w.Strays slotKey) :=
  inferInstanceAs (Decidable (_ ∨ _))

/-- No stray key has its slot begin before the base that `Advance` moves to. -/
def LeavesNoStray (w : HierarchicalTimingWheel) (now : ℤ) : Prop :=
  ∀ k, w.Strays k → w.baseAt now ≤ k * w.slotGapSeconds

lemma Strays.holds (h : w.Strays k) : w.Holds k := by
  rcases h with h | ⟨i, _, l, hl, j, _, _, hk, _⟩
  · exact Or.inr h
  · exact Or.inl ⟨i, j, l, hl, hk⟩

instance (w : HierarchicalTimingWheel) (now : ℤ) : Decidable (w.LeavesNoStray now) :=
  decidable_of_iff (∀ k ∈ w.keys, w.Strays k → w.baseAt now ≤ k * w.slotGapSeconds)
    ⟨fun h k hk => h k ((w.holds_iff_mem_keys k).mp hk.holds) hk, fun h k _ => h k⟩

/-- Level `i` turns for the next time when its width is completed once more. -/
lemma Seated.nextTurnAt (h : w.Seated G b0 t (G.turns t)) (hi : i ≤ G.depth) :
    w.nextTurnAt i = (b0 + G.width i * (G.turns t i + 1)) * G.gap := by
  induction i with
  | zero =>
    simp [HierarchicalTimingWheel.nextTurnAt, h.base, h.fits.gap, WheelGeometry.width]
    ring
  | succ i ih =>
    obtain ⟨l, hl⟩ := h.fits.get (i := i) (by omega)
    have hf := h.fits.level i l hl
    have hmod := Nat.div_add_mod (G.turns t i) (G.faces i)
    have hturns : G.turns t (i + 1) = G.turns t i / G.faces i := by
      rw [WheelGeometry.turns, WheelGeometry.turns, G.width_succ, Nat.div_div_eq_div_mul]
    have hprev := ih (by omega)
    rw [HierarchicalTimingWheel.nextTurnAt] at hprev ⊢
    rw [take_add_one, hl, map_append, sum_append, ← add_assoc, hprev]
    simp only [Option.toList_some, map_cons, map_nil, sum_cons, sum_nil,
      add_zero, hf.count, hf.granularity, h.cursor i l hl, hturns, G.width_succ]
    zify at hmod
    push_cast
    linear_combination (-(G.width i : ℤ) * G.gap) * hmod

lemma Seated.handedOnAt (h : w.Seated G b0 t (G.turns t)) {l : WheelLevel}
    (hl : w.levels[i]? = some l) (j : ℕ) :
    w.handedOnAt i l j
      = (b0 + (G.width i * (nextTurn (G.turns t i) j (G.faces i) + 1) : ℕ)) * G.gap := by
  have hf := h.fits.level i l hl
  rw [HierarchicalTimingWheel.handedOnAt, h.nextTurnAt (h.fits.lt_depth hl).le, nextTurn, hf.count,
    hf.granularity, h.cursor i l hl]
  push_cast
  ring

/-- Strays are the keys ahead of the clock. -/
lemma Seated.strays_iff (h : w.Seated G b0 t (G.turns t)) (k : ℤ) :
    w.Strays k ↔ w.Ahead G b0 (G.turns t) k := by
  have hearly : ∀ {i : ℕ} {l : WheelLevel} (j : ℕ), w.levels[i]? = some l →
      (w.handedOnAt i l j + l.granularity ≤ k * w.slotGapSeconds
        ↔ Early G b0 (G.turns t) k i j) := by
    intro i l j hl
    rw [h.handedOnAt hl, (h.fits.level i l hl).granularity, h.fits.gap, ← add_mul, Early]
    constructor
    · intro hle
      have := le_of_mul_le_mul_right hle G.gap_pos
      push_cast at this ⊢
      linarith
    · intro hle
      refine base_le_base ?_
      push_cast at hle ⊢
      linarith
  constructor
  · rintro (hk | ⟨i, _, l, hl, j, _, hi, hk, hle⟩)
    · exact Or.inl hk
    · exact Or.inr ⟨i, j, hi, ⟨l, hl, hk⟩, (hearly j hl).mp hle⟩
  · rintro (hk | ⟨i, j, hi, ⟨l, hl, hk⟩, he⟩)
    · exact Or.inl hk
    · exact Or.inr ⟨i, (List.getElem?_eq_some_iff.mp hl).1, l, hl, j,
        WheelLevel.lt_length_of_mem hk, hi, hk, (hearly j hl).mpr he⟩

/-- **A jump against single steps**, on a wheel that stands at slot `t`. -/
lemma Seated.catchesUp_iff (h : w.Seated G b0 t (G.turns t))
    (hfar : ∀ k ∈ w.overflow, ¬ Within G b0 t k) (hnow : InRange now)
    (hrange : ∀ k, w.Holds k → KeyInRange G (w.baseAt now) k) :
    w.CatchesUp now ↔ w.LeavesNoStray now := by
  have hgap := G.gap_pos
  have hbaseAt : w.baseAt now = now.tdiv G.gap * G.gap := by rw [baseAt, h.fits.gap]
  rcases le_or_gt (now.tdiv G.gap) (b0 + t) with hle | hgt
  · -- no boundary: nothing moves, and no stray is that near
    have hstay : w.baseAt now ≤ w.currentBase := by
      rw [hbaseAt, h.base]
      exact base_le_base hle
    have hnone : ((w.baseAt now - w.currentBase) / w.slotGapSeconds).toNat = 0 := by
      have := Int.ediv_le_ediv (h.fits.gap ▸ hgap) (sub_nonpos.mpr hstay)
      rw [Int.zero_ediv] at this
      omega
    refine iff_of_true ?_ fun k hk => ?_
    · simp [CatchesUp, stepTo, hnone, boundaries, advanceAll, advance_of_le hstay]
    · have := lt_of_ahead hfar ((h.strays_iff k).mp hk)
      rw [hbaseAt, h.fits.gap]
      exact base_le_base (by omega)
  · obtain ⟨n, hn⟩ : ∃ n : ℕ, now.tdiv G.gap = b0 + (t + n) :=
      ⟨(now.tdiv G.gap - b0 - t).toNat, by omega⟩
    have hpos : 0 < n := by omega
    have hnew : w.baseAt now = (b0 + (t + n)) * G.gap := by rw [hbaseAt, hn]
    have hcount : ((w.baseAt now - w.currentBase) / w.slotGapSeconds).toNat = n := by
      have hdist : w.baseAt now - w.currentBase = n * G.gap := by
        rw [hnew, h.base]
        ring
      rw [hdist, h.fits.gap, Int.mul_ediv_cancel _ hgap.ne', Int.toNat_natCast]
    have hbase : InRange (w.baseAt now) := by
      rw [hbaseAt]
      exact hnow.tdiv_mul hgap
    have hjump := advance_spec h hpos hnew hbase hrange
    have hsteps := h.serves hfar hpos (hnew ▸ hbase) (hnew ▸ hrange)
    have hlater : ∀ k, w.baseAt now ≤ k * w.slotGapSeconds ↔ (t + n : ℤ) ≤ k - b0 := by
      intro k
      rw [hnew, h.fits.gap, mul_le_mul_iff_left₀ hgap]
      omega
    simp only [CatchesUp, stepTo, hcount, hjump.ready, hjump.holds, hsteps.ready, hsteps.holds,
      holds_iff w G b0 (G.turns t), LeavesNoStray, h.strays_iff, hlater]
    constructor
    · rintro ⟨_, hholds⟩ k hk
      exact ((hholds k).mp (Or.inr hk)).2
    · intro hstrays
      refine ⟨fun k => ?_, fun k => ?_⟩
      · constructor
        · rintro ⟨h1, h2⟩
          exact ⟨Or.inl h1, h2⟩
        · rintro ⟨h1 | h1, h2⟩
          · exact ⟨h1, h2⟩
          · have := hstrays k h1
            omega
      · constructor
        · rintro (⟨h1, h2⟩ | h1)
          · exact ⟨Or.inl h1, h2⟩
          · exact ⟨Or.inr h1, hstrays k h1⟩
        · rintro ⟨h1 | h1, h2⟩
          · exact Or.inl ⟨h1, h2⟩
          · exact Or.inr h1

/-! ## Whole runs -/

/-- A wheel that has not been started, or that stands at some slot with only far keys in the
overflow area. -/
def Standing (w : HierarchicalTimingWheel) (G : WheelGeometry) : Prop :=
  w.Blank G ∨ ∃ b0 t, w.Seated G b0 t (G.turns t) ∧ ∀ k ∈ w.overflow, ¬ Within G b0 t k

/-- `Remove` leaves the shape and the cursors of the levels alone. -/
lemma getElem?_remove {l' : WheelLevel} (h : (w.remove k).levels[i]? = some l') :
    ∃ l, w.levels[i]? = some l ∧ l'.current = l.current ∧ l'.granularity = l.granularity ∧
      l'.bucketCount = l.bucketCount ∧ l'.buckets.length = l.buckets.length := by
  cases hloc : w.slotLocation.lookup k with
  | none =>
    rw [remove, hloc] at h
    exact ⟨l', h, rfl, rfl, rfl, rfl⟩
  | some loc =>
    have hlevels : (w.remove k).levels = w.levels.modify loc.level (·.deleteKey loc.bucket k) := by
      rw [remove, hloc]
    rw [getElem?_modify_levels hlevels, Option.map_eq_some_iff] at h
    obtain ⟨l, hl, rfl⟩ := h
    refine ⟨l, hl, ?_⟩
    split_ifs
    · simp [WheelLevel.deleteKey]
    · simp

lemma Fits.remove (h : w.Fits G) (k : ℤ) : (w.remove k).Fits G where
  gap := by rw [← h.gap, slotGapSeconds, slotGapSeconds, slotGap_remove]
  depth := by
    rw [← h.depth, HierarchicalTimingWheel.remove]
    cases w.slotLocation.lookup k <;> simp
  level := by
    intro i l' hl'
    obtain ⟨l, hl, _, hg, hc, hb⟩ := getElem?_remove hl'
    exact (h.level i l hl).congr hg hc hb

lemma currentBase_remove (w : HierarchicalTimingWheel) (k : ℤ) :
    (w.remove k).currentBase = w.currentBase := by
  rw [remove]
  cases w.slotLocation.lookup k <;> rfl

lemma Seated.remove (h : w.Seated G b0 t (G.turns t)) (k : ℤ) :
    (w.remove k).Seated G b0 t (G.turns t) where
  initialized := (initialized_remove w k).trans h.initialized
  baseRange := by
    rw [currentBase_remove]
    exact h.baseRange
  fits := h.fits.remove k
  base := (currentBase_remove w k).trans h.base
  cursor := by
    intro i l' hl'
    obtain ⟨l, hl, hcur, _⟩ := getElem?_remove hl'
    exact hcur.trans (h.cursor i l hl)
  bottom := fun k' j hk' => h.bottom k' j (at_of_remove hk')
  upper := fun k' i j hi hk' => h.upper k' i j hi (at_of_remove hk')
  range := by
    rw [currentBase_remove]
    exact fun k' hk' => h.range k' (holds_of_remove hk')
  nodup := BucketsNodup.remove h.nodup k
  overflow_nodup := h.overflow_nodup.sublist (w.overflow_remove k)

lemma Blank.remove (h : w.Blank G) (k : ℤ) : (w.remove k).Blank G where
  waiting := (initialized_remove w k).trans h.waiting
  fits := h.fits.remove k
  cursor := by
    intro i l' hl'
    obtain ⟨l, hl, hcur, _⟩ := getElem?_remove hl'
    exact hcur.trans (h.cursor i l hl)
  empty := fun k' hk' => h.empty k' (holds_of_remove hk')

lemma Fits.blank_reset (h : w.Fits G) : w.reset.Blank G := by
  have hlevel : ∀ {i : ℕ} {l' : WheelLevel}, w.reset.levels[i]? = some l' →
      ∃ l, w.levels[i]? = some l ∧
        { l with buckets := l.buckets.map fun _ => [], current := 0 } = l' := by
    intro i l' hl'
    simpa [reset] using hl'
  refine ⟨rfl, ⟨h.gap, ?_, ?_⟩, ?_, ?_⟩
  · rw [← h.depth]
    simp [reset]
  · intro i l' hl'
    obtain ⟨l, hl, rfl⟩ := hlevel hl'
    exact (h.level i l hl).congr rfl rfl (by simp)
  · intro i l' hl'
    obtain ⟨l, hl, rfl⟩ := hlevel hl'
    rfl
  · exact not_holds_reset w

lemma Standing.fits (h : w.Standing G) : w.Fits G := by
  rcases h with h | ⟨b0, t, h, _⟩
  · exact h.fits
  · exact h.fits

/-- The distances that `Advance` computes are 64-bit numbers. -/
def Reaches (w : HierarchicalTimingWheel) (now : ℤ) : Prop :=
  InRange now ∧ ∀ k, w.Holds k → InRange (k * w.slotGapSeconds - w.baseAt now)

instance (w : HierarchicalTimingWheel) (now : ℤ) : Decidable (w.Reaches now) :=
  decidable_of_iff
    (InRange now ∧ ∀ k ∈ w.keys, InRange (k * w.slotGapSeconds - w.baseAt now)) <| by
    simp only [Reaches, holds_iff_mem_keys]

lemma Seated.keyInRange (h : w.Seated G b0 t (G.turns t)) (hnow : w.Reaches now) (hk : w.Holds k) :
    KeyInRange G (w.baseAt now) k := by
  refine ⟨(h.range k hk).1, ?_⟩
  rw [← h.fits.gap]
  exact hnow.2 k hk

lemma Standing.init (h : w.Standing G) (hnow : InRange now) : (w.init now).Standing G := by
  rcases h with h | ⟨b0, t, h, hfar⟩
  · right
    rw [HierarchicalTimingWheel.init, h.waiting, h.fits.gap]
    refine ⟨now.tdiv G.gap, 0, h.start (hnow.tdiv_mul G.gap_pos), ?_⟩
    simp [h.overflow_eq]
  · rw [HierarchicalTimingWheel.init, h.initialized]
    exact Or.inr ⟨b0, t, h, hfar⟩

/-- `Add` to a wheel that stands at some slot. -/
lemma Seated.standing_add (h : w.Seated G b0 t (G.turns t))
    (hfar : ∀ k ∈ w.overflow, ¬ Within G b0 t k) (hk : KeyInRange G w.currentBase k) :
    (w.add k).Standing G := by
  obtain ⟨loc, heq, hloc⟩ := h.add_eq hk
  rw [heq]
  exact Or.inr ⟨b0, t, h.place (G.turns_zero t) hk hloc (G.width_mul_turns_le t loc.level), hfar⟩

lemma Standing.add (h : w.Standing G) (hk : InRange (k * w.slotGapSeconds))
    (hdist : w.initialized = true → InRange (k * w.slotGapSeconds - w.currentBase)) :
    (w.add k).Standing G := by
  rw [h.fits.gap] at hk hdist
  rcases h with h | ⟨b0, t, h, hfar⟩
  · -- a wheel that has not been started starts at the key's own slot
    have hstart : w.started k = { w with currentBase := k * G.gap, initialized := true } := by
      rw [started, h.waiting, computeSlotTime, h.fits.gap, wrap64_of_mem hk,
        Int.mul_tdiv_cancel _ G.gap_pos.ne']
      rfl
    have hadd : w.add k = (w.started k).add k := by
      simp only [HierarchicalTimingWheel.add, started]
      split_ifs <;> rfl
    rw [hadd, hstart]
    refine (h.start hk).standing_add ?_ ⟨hk, ?_⟩
    · simp [h.overflow_eq]
    · simp [InRange]
  · exact h.standing_add hfar ⟨hk, hdist h.initialized⟩

lemma Standing.remove (h : w.Standing G) (k : ℤ) : (w.remove k).Standing G := by
  rcases h with h | ⟨b0, t, h, hfar⟩
  · exact Or.inl (h.remove k)
  · exact Or.inr ⟨b0, t, h.remove k, fun k' hk' => hfar k' ((w.overflow_remove k).subset hk')⟩

/-- A wheel that has not been started does not move. -/
lemma advance_of_waiting (h : w.initialized = false) (now : ℤ) : w.advance now = (w, []) := by
  simp [advance, h]

lemma advanceAll_of_waiting (h : w.initialized = false) (times : List ℤ) :
    w.advanceAll times = (w, []) := by
  induction times with
  | nil => rfl
  | cons now rest ih => simp [advanceAll, advance_of_waiting h, ih]

/-- Moving on, with distances in the 64-bit range. -/
lemma Standing.advance (h : w.Standing G) (hnow : w.Reaches now) :
    (w.advance now).1.Standing G := by
  rcases h with h | ⟨b0, t, h, hfar⟩
  · rw [advance_of_waiting h.waiting]
    exact Or.inl h
  · have hbase : w.baseAt now = now.tdiv G.gap * G.gap := by rw [baseAt, h.fits.gap]
    rcases le_or_gt (now.tdiv G.gap) (b0 + t) with hle | hgt
    · rw [advance_of_le (by rw [hbase, h.base]; exact base_le_base hle)]
      exact Or.inr ⟨b0, t, h, hfar⟩
    · obtain ⟨n, hn⟩ : ∃ n : ℕ, now.tdiv G.gap = b0 + (t + n) :=
        ⟨(now.tdiv G.gap - b0 - t).toNat, by omega⟩
      have hadv := advance_spec h (n := n) (by omega) (by rw [hbase, hn])
        (by rw [hbase]; exact hnow.1.tdiv_mul G.gap_pos) fun k => h.keyInRange hnow
      exact Or.inr ⟨b0, t + n, hadv.seated, hadv.overflow⟩

lemma Standing.catchesUp_iff (h : w.Standing G) (hnow : w.Reaches now) :
    w.CatchesUp now ↔ w.LeavesNoStray now := by
  rcases h with h | ⟨b0, t, h, hfar⟩
  · refine iff_of_true ?_ fun k hk => absurd hk.holds (h.empty k)
    simp [CatchesUp, stepTo, advance_of_waiting h.waiting, advanceAll_of_waiting h.waiting]
  · exact h.catchesUp_iff hfar hnow.1 fun k => h.keyInRange hnow

/-! ## A single level

Without a level above there is no cascade and nothing ever gets to the overflow area.  Far keys wrap
around the one ring, too early, but a jump and single steps treat them alike. -/

/-- A wheel of one level, with nothing in the overflow area, on a slot boundary. -/
structure Single (w : HierarchicalTimingWheel) (gap : ℤ) : Prop where
  wellFormed : w.WellFormed
  one : w.levels.length = 1
  gap_eq : w.slotGapSeconds = gap
  overflow : w.overflow = []
  base : ∃ b, w.currentBase = b * gap
  range : InRange w.currentBase

namespace Single

variable {gap : ℤ}

lemma tick_eq (h : w.Single gap) :
    ∃ l, w.levels[0]? = some l ∧ w.tick = (w.drain l, l.bucket l.current) := by
  obtain ⟨l, hl⟩ : ∃ l, w.levels[0]? = some l :=
    ⟨_, getElem?_eq_getElem (h.one.symm ▸ Nat.one_pos)⟩
  refine ⟨l, hl, ?_⟩
  have hone : ((w.drain l).levels.length - 1) = 0 := by simp [drain, h.one]
  simp [tick, hl, cascade, hone, cascadeFrom]

lemma tick (h : w.Single gap) (hbase : InRange (w.currentBase + gap)) :
    w.tick.1.Single gap ∧ w.tick.1.currentBase = w.currentBase + gap := by
  obtain ⟨l, hl, htick⟩ := h.tick_eq
  obtain ⟨b, hb⟩ := h.base
  have hnext : (w.drain l).currentBase = w.currentBase + gap := by
    simp [drain, h.gap_eq, wrap64_of_mem hbase]
  have hwf := (tick_keeps h.wellFormed).1
  rw [htick] at hwf ⊢
  refine ⟨⟨hwf, ?_, h.gap_eq, h.overflow, ⟨b + 1, ?_⟩, ?_⟩, hnext⟩
  · simp [drain, h.one]
  · rw [hnext, hb]
    ring
  · rwa [hnext]

/-- With nothing in the overflow area the last two loops of `Advance` do nothing. -/
lemma settle (h : w.Single gap) (newBase : ℤ) :
    promoteOverflow newBase w.reenterOverflow = (w, []) := by
  have hre : w.reenterOverflow = w := by
    simp only [reenterOverflow, h.overflow, foldl_nil, filter_nil]
    rw [← h.overflow]
  rw [hre]
  simp only [promoteOverflow, h.overflow, filter_nil, forget, foldl_nil]
  rw [← h.overflow]

/-- A single step is one round of the loop. -/
lemma advance_next (h : w.Single gap) (hrun : w.initialized = true) (hgap : 0 < gap)
    (hbase : InRange (w.currentBase + gap)) : w.advance (w.currentBase + gap) = w.tick := by
  obtain ⟨htick, hmoved⟩ := h.tick hbase
  have hat : w.baseAt (w.currentBase + gap) = w.currentBase + gap := by
    obtain ⟨b, hb⟩ := h.base
    rw [baseAt, h.gap_eq, hb, ← add_one_mul, Int.mul_tdiv_cancel _ hgap.ne']
  obtain ⟨r, hr⟩ : ∃ r, gap.toNat = r + 1 := ⟨gap.toNat - 1, by omega⟩
  have hstop : ∀ acc, advanceLoop (w.currentBase + gap) r (w.tick.1, acc)
      = (w.tick.1, acc) := by
    intro acc
    cases r <;> simp [advanceLoop, hmoved]
  have hloop : advanceLoop (w.currentBase + gap) (r + 1) (w, [])
      = w.tick := by
    rw [advanceLoop, if_pos (by omega), hstop, nil_append]
  simp only [advance, hrun, hat, add_sub_cancel_left, hr, hloop,
    htick.settle]
  simp [show ¬ w.currentBase + gap ≤ w.currentBase by omega]

lemma initialized_tick (h : w.Single gap) : w.tick.1.initialized = w.initialized := by
  obtain ⟨l, _, htick⟩ := h.tick_eq
  simp [htick, drain]

/-- **The loop is the single steps**, round by round. -/
lemma advanceLoop_eq (hgap : 0 < gap) {n : ℕ} : ∀ {w : HierarchicalTimingWheel} (rounds : ℕ)
    (acc : List ℤ), w.Single gap → w.initialized = true → n ≤ rounds →
    InRange (w.currentBase + n * gap) →
    (w.advanceAll (w.boundaries n)).1.Single gap ∧
      advanceLoop (w.currentBase + n * gap) rounds (w, acc)
        = ((w.advanceAll (w.boundaries n)).1, acc ++ (w.advanceAll (w.boundaries n)).2) := by
  induction n with
  | zero =>
    intro w rounds acc h _ _ _
    refine ⟨h, ?_⟩
    cases rounds <;> simp [advanceLoop, boundaries, advanceAll]
  | succ n ih =>
    intro w rounds acc h hrun hr hhigh
    obtain ⟨rounds, rfl⟩ : ∃ r, rounds = r + 1 := ⟨rounds - 1, by omega⟩
    have hn : 0 ≤ (n : ℤ) * gap := mul_nonneg (by omega) hgap.le
    have hsplit : w.currentBase + (n + 1 : ℕ) * gap = w.currentBase + gap + n * gap := by
      push_cast
      ring
    rw [hsplit] at hhigh ⊢
    have hnext : InRange (w.currentBase + gap) := by
      obtain ⟨h1, _⟩ := h.range
      obtain ⟨_, h2⟩ := hhigh
      exact ⟨by omega, by omega⟩
    obtain ⟨htick, hbase⟩ := h.tick hnext
    have hfirst : w.boundaries (n + 1) = (w.currentBase + gap) :: w.tick.1.boundaries n := by
      simp only [boundaries, range_succ_eq_map, map_cons, map_map, h.gap_eq,
        htick.gap_eq, hbase]
      refine congrArg₂ cons (by simp) (map_congr_left fun i _ => ?_)
      simp only [Function.comp_apply]
      push_cast
      ring
    obtain ⟨hsingle, hloop⟩ := ih rounds (acc ++ w.tick.2) htick
      (h.initialized_tick.trans hrun) (by omega) (by rwa [hbase])
    rw [hbase] at hloop
    rw [hfirst, advanceAll, h.advance_next hrun hgap hnext, advanceLoop, if_pos (by omega), hloop,
      append_assoc]
    exact ⟨hsingle, rfl⟩

/-- **One level**: a jump and single steps end in the same state. -/
lemma advance_eq (h : w.Single gap) (hgap : 0 < gap) {now : ℤ} (hnow : InRange now) :
    w.advance now = w.stepTo now ∧ (w.advance now).1.Single gap := by
  cases hrun : w.initialized with
  | false =>
    rw [stepTo, advance_of_waiting hrun, advanceAll_of_waiting hrun]
    exact ⟨rfl, h⟩
  | true =>
    obtain ⟨b, hb⟩ := h.base
    have hat : w.baseAt now = now.tdiv gap * gap := by rw [baseAt, h.gap_eq]
    have hdist : w.baseAt now - w.currentBase = (now.tdiv gap - b) * gap := by
      rw [hat, hb]
      ring
    have hcount : (w.baseAt now - w.currentBase) / w.slotGapSeconds = now.tdiv gap - b := by
      rw [hdist, h.gap_eq, Int.mul_ediv_cancel _ hgap.ne']
    rcases le_or_gt (now.tdiv gap) b with hle | hgt
    · have hstay : w.baseAt now ≤ w.currentBase := by
        rw [hat, hb]
        exact Int.mul_le_mul_of_nonneg_right hle hgap.le
      rw [stepTo, hcount, Int.toNat_of_nonpos (by omega), advance_of_le hstay]
      exact ⟨rfl, h⟩
    · obtain ⟨n, hn⟩ : ∃ n : ℕ, now.tdiv gap - b = n := ⟨_, (Int.toNat_of_nonneg (by omega)).symm⟩
      have hnew : w.baseAt now = w.currentBase + n * gap := by
        rw [← hn, ← hdist]
        ring
      have hle : (n : ℤ) ≤ n * gap := le_mul_of_one_le_right (by omega) hgap
      have hpos : ¬ w.currentBase + n * gap ≤ w.currentBase := by omega
      obtain ⟨hsingle, hloop⟩ := advanceLoop_eq hgap ((n : ℤ) * gap).toNat [] h hrun (n := n)
        (by omega) (by rw [← hnew, hat]; exact hnow.tdiv_mul hgap)
      have hadv : w.advance now = w.advanceAll (w.boundaries n) := by
        simp only [advance, hrun, hnew, add_sub_cancel_left, hloop, hsingle.settle]
        simp [hpos]
      rw [stepTo, hcount, hn, Int.toNat_natCast, hadv]
      exact ⟨rfl, hsingle⟩

lemma catchesUp (h : w.Single gap) (hgap : 0 < gap) {now : ℤ} (hnow : InRange now) :
    w.CatchesUp now := by
  rw [CatchesUp, (h.advance_eq hgap hnow).1]
  simp

lemma leavesNoStray (h : w.Single gap) (now : ℤ) : w.LeavesNoStray now := by
  rintro k (hk | ⟨i, hi, _, _, _, _, hpos, _⟩)
  · simp [h.overflow] at hk
  · rw [h.one] at hi
    omega

lemma init (h : w.Single gap) (hgap : 0 < gap) {now : ℤ} (hnow : InRange now) :
    (w.init now).Single gap := by
  have hwf := h.wellFormed.init now
  rw [HierarchicalTimingWheel.init] at hwf ⊢
  split_ifs at hwf ⊢
  · exact h
  · refine ⟨hwf, h.one, h.gap_eq, h.overflow, ⟨now.tdiv gap, by rw [h.gap_eq]⟩, ?_⟩
    rw [h.gap_eq]
    exact hnow.tdiv_mul hgap

lemma add (h : w.Single gap) (hgap : 0 < gap) (k : ℤ) : (w.add k).Single gap := by
  obtain ⟨loc, _, _, hadd⟩ := h.wellFormed.add_eq k
  have hwf := (add_keeps h.wellFormed k).1
  rw [hadd] at hwf ⊢
  refine ⟨hwf, by simp [place, h.one], ?_, by simpa [place] using h.overflow, ?_, ?_⟩
  · rw [← h.gap_eq, started]
    split_ifs <;> rfl
  · simp only [place, started]
    split_ifs
    · exact h.base
    · exact ⟨_, by rw [h.gap_eq]⟩
  · simp only [place, started]
    split_ifs
    · exact h.range
    · rw [h.gap_eq]
      exact (wrap64_inRange _).tdiv_mul hgap

lemma remove (h : w.Single gap) (k : ℤ) : (w.remove k).Single gap where
  wellFormed := h.wellFormed.remove k
  one := by
    rw [HierarchicalTimingWheel.remove]
    cases w.slotLocation.lookup k <;> simp [h.one]
  gap_eq := by rw [← h.gap_eq, slotGapSeconds, slotGapSeconds, slotGap_remove]
  overflow := by
    have hsub := w.overflow_remove k
    rw [h.overflow] at hsub
    exact sublist_nil.mp hsub
  base := by
    rw [currentBase_remove]
    exact h.base
  range := by
    rw [currentBase_remove]
    exact h.range

lemma reset (h : w.Single gap) : w.reset.Single gap :=
  ⟨h.wellFormed.reset, by simpa [HierarchicalTimingWheel.reset] using h.one, h.gap_eq, rfl, h.base,
    h.range⟩

end Single

end HierarchicalTimingWheel

namespace WheelCall

open HierarchicalTimingWheel

/-- What the call computes with its times and keys stays within 64 bits. -/
def NoOverflow (w : HierarchicalTimingWheel) : WheelCall → Prop
  | init now => InRange now
  | add slotKey =>
    InRange (slotKey * w.slotGapSeconds) ∧
      (w.initialized = true → InRange (slotKey * w.slotGapSeconds - w.currentBase))
  | remove _ => True
  | advance now => w.Reaches now
  | reset => True

instance (w : HierarchicalTimingWheel) : ∀ call : WheelCall, Decidable (call.NoOverflow w)
  | init now => inferInstanceAs (Decidable (InRange now))
  | add slotKey => inferInstanceAs (Decidable (InRange (slotKey * w.slotGapSeconds) ∧
      (w.initialized = true → InRange (slotKey * w.slotGapSeconds - w.currentBase))))
  | remove _ => isTrue trivial
  | advance now => inferInstanceAs (Decidable (w.Reaches now))
  | reset => isTrue trivial

variable {call : WheelCall} {w : HierarchicalTimingWheel} {gap : ℤ}

lemma standing_act {G : WheelGeometry} (h : w.Standing G) (hcall : call.NoOverflow w) :
    (call.act w).Standing G := by
  cases call with
  | init now => exact h.init hcall
  | add slotKey => exact h.add hcall.1 hcall.2
  | remove slotKey => exact h.remove slotKey
  | advance now => exact h.advance hcall
  | reset => exact Or.inl h.fits.blank_reset

lemma single_act (h : w.Single gap) (hgap : 0 < gap) (hcall : call.NoOverflow w) :
    (call.act w).Single gap := by
  cases call with
  | init now => exact h.init hgap hcall
  | add slotKey => exact h.add hgap slotKey
  | remove slotKey => exact h.remove slotKey
  | advance now => exact (h.advance_eq hgap hcall.1).2
  | reset => exact h.reset

/-- A new wheel of one level. -/
lemma single_new {slotGap : Duration} {cfg : WheelLevelConfig} (hpos : 1 ≤ cfg.buckets)
    (hwhole : slotGap = gap * 1000000000) (hgap : 0 < gap) :
    (newHierarchicalTimingWheel slotGap [cfg]).Single gap := by
  refine ⟨wellFormed_new (by simpa using hpos), rfl, ?_, rfl,
    ⟨0, by simp [newHierarchicalTimingWheel]⟩,
    by simp [newHierarchicalTimingWheel, InRange]⟩
  have hsec : seconds slotGap = gap := by
    rw [hwhole, seconds, Int.mul_tdiv_cancel _ (by decide)]
  change (if seconds slotGap = 0 then _ else seconds slotGap) = gap
  rw [hsec, if_neg hgap.ne']

/-- **Catching up.**  Take a wheel of chain configurations and any run of calls on it that stays
within 64 bits; `w` is the wheel the run leaves.  `Advance(now)` returns the keys, and leaves the
keys, that calls at every slot boundary on the way would, if and only if no stray key has its slot
begin before the new base. -/
theorem jump_eq_steps_iff {slotGap : Duration} {configs : List WheelLevelConfig} {gap : ℤ}
    (hne : configs ≠ []) (hchain : ChainFrom slotGap configs) (hwhole : slotGap = gap * 1000000000)
    (hgap : 0 < gap)
    (hcover : (configs.map fun c => seconds c.granularity * c.buckets).sum < 9223372036854775808)
    (calls : List WheelCall) (hcalls : Run.Along act (fun w call => call.NoOverflow w)
      (newHierarchicalTimingWheel slotGap configs) calls) {now : ℤ}
    (hnow : (calls.foldl act (newHierarchicalTimingWheel slotGap configs)).Reaches now) :
    (calls.foldl act (newHierarchicalTimingWheel slotGap configs)).CatchesUp now ↔
      (calls.foldl act (newHierarchicalTimingWheel slotGap configs)).LeavesNoStray now := by
  rcases Nat.lt_or_ge configs.length 2 with hone | hdeep
  · -- one level: both sides hold
    obtain ⟨cfg, rfl⟩ : ∃ cfg, configs = [cfg] := by
      refine length_eq_one_iff.mp ?_
      have := length_pos_iff.mpr hne
      omega
    have hsingle := hcalls.invariant (I := fun w => w.Single gap)
      (fun w call h hcall => single_act h hgap hcall)
      (single_new (hchain.buckets_pos cfg (by simp)) hwhole hgap)
    exact iff_of_true (hsingle.catchesUp hgap hnow.1) (hsingle.leavesNoStray now)
  · have hconfigs : ChainConfigs slotGap configs gap := ⟨hdeep, hchain, hwhole, hgap, hcover⟩
    have hstanding := hcalls.invariant (I := fun w => w.Standing hconfigs.geometry)
      (fun w call h hcall => standing_act h hcall) (Or.inl (blank_newWheel hconfigs))
    exact hstanding.catchesUp_iff hnow

/-- Three buckets of a second and four of three seconds.  Slot 20 strays: it wraps around the upper
level.  A jump to 18 over several cascades still does what single steps do. -/
theorem catchesUp_before_stray :
    let w := [init 0, add 4, add 7, add 20, advance 3, add 5, remove 7].foldl act
      (newHierarchicalTimingWheel 1000000000 smallLevels)
    w.Strays 20 ∧ w.CatchesUp 18 ∧ (w.advance 18).2 = [4, 5] := by
  refine ⟨by decide +kernel, ?_, by decide +kernel⟩
  have hwhole : (1000000000 : ℤ) = 1 * 1000000000 := rfl
  exact (jump_eq_steps_iff (by decide) (by decide) hwhole (by decide) (by decide) _
    (by decide +kernel) (by decide +kernel)).mpr (by decide +kernel)

/-- **A jump that misses a key.**  Slot 20 is over when the base reaches 21; single steps return it,
the jump keeps it. -/
theorem jump_misses_stray :
    let w := [init 0, add 20].foldl act (newHierarchicalTimingWheel 1000000000 smallLevels)
    ¬ w.CatchesUp 21 ∧ (w.stepTo 21).2 = [20] ∧ (w.advance 21).2 = [] ∧
      (w.advance 21).1.Holds 20 ∧ ((w.advance 21).1.advance 22).2 = [20] := by
  have hsteps : (([init 0, add 20].foldl act
      (newHierarchicalTimingWheel 1000000000 smallLevels)).stepTo 21).2 = [20] := by decide +kernel
  have hjump : (([init 0, add 20].foldl act
      (newHierarchicalTimingWheel 1000000000 smallLevels)).advance 21).2 = [] := by decide +kernel
  refine ⟨fun hsame => ?_, hsteps, hjump, by decide +kernel, by decide +kernel⟩
  have hmem := hsame.1 20
  rw [hsteps, hjump] at hmem
  simp at hmem

end WheelCall

end ScheduledDb
