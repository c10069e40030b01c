import ScheduledDb.Slots.TimingWheel.Geometry

/-!
# Every key sits where its time will find it

The invariant of a wheel of chain geometry, `Seated`.  Slots are counted from an origin `b0`, the
base at which every cursor stood at `0`; after `t` slots the base is `b0 + t`, and the cursor of
level `i` has made `T i` turns: `G.turns t i = t / width i` of them between two ticks.

* at level `0` a key sits in the bucket drained in its own slot, or, if its slot is over, in the
  one drained next (`bottom`);
* at an upper level the bucket's turn comes no later than the key's slot (`upper`).

A key may be held in several places at once: adding it again enters it by its distance *then*.
What matters for its future is whether some copy is *timely* — it will be at level `0` in time — or
whether all copies are *ahead*: their bucket's turn comes a whole bucket width before the slot, so
that the cascade sends them to the overflow area.  `Timely` and `Ahead` are the two predicates, and
a cascade changes neither (`cascadeLevel_spec`).
-/

namespace ScheduledDb

open Machine Odometer WheelLevel

/-! ## Buckets -/

namespace WheelLevel

variable {j : ℕ} {l : WheelLevel} {k : ℤ}

lemma mem_bucket_iff : k ∈ l.bucket j ↔ ∃ b, l.buckets[j]? = some b ∧ k ∈ b := by
  unfold bucket
  rw [List.getD_eq_getElem?_getD]
  cases h : l.buckets[j]? with
  | none => simp
  | some b => simp

lemma lt_length_of_mem (h : k ∈ l.bucket j) : j < l.buckets.length := by
  obtain ⟨b, hb, _⟩ := mem_bucket_iff.mp h
  exact (List.getElem?_eq_some_iff.mp hb).1

lemma bucket_modify (l : WheelLevel) (j : ℕ) (f : List ℤ → List ℤ) (j' : ℕ)
    (hj : j < l.buckets.length) :
    (({ l with buckets := l.buckets.modify j f } : WheelLevel)).bucket j'
      = if j = j' then f (l.bucket j') else l.bucket j' := by
  simp only [bucket, List.getD_eq_getElem?_getD, List.getElem?_modify]
  split_ifs with h
  · subst h
    rw [List.getElem?_eq_getElem hj]
    rfl
  · cases l.buckets[j']? <;> rfl

lemma mem_bucket_insertKey (hj : j < l.buckets.length) (k k' : ℤ) (j' : ℕ) :
    k' ∈ (l.insertKey j k).bucket j' ↔ k' ∈ l.bucket j' ∨ (k' = k ∧ j' = j) := by
  rw [insertKey, bucket_modify l j _ j' hj]
  split_ifs with h
  · subst h
    simp only [List.mem_insert_iff, and_true]
    exact or_comm
  · simp [Ne.symm h]

lemma nodup_bucket_insertKey (hj : j < l.buckets.length) (k : ℤ) {j' : ℕ}
    (h : (l.bucket j').Nodup) : ((l.insertKey j k).bucket j').Nodup := by
  rw [insertKey, bucket_modify l j _ j' hj]
  split_ifs
  · exact h.insert
  · exact h

lemma bucket_clear (l : WheelLevel) (j j' : ℕ) :
    (l.clear j).bucket j' = if j = j' then [] else l.bucket j' := by
  rcases lt_or_ge j l.buckets.length with hj | hj
  · rw [clear, bucket_modify l j _ j' hj]
  · rw [clear, List.modify_eq_self hj]
    split_ifs with h
    · subst h
      simp [bucket, hj]
    · rfl

@[simp] lemma bucket_turn (l : WheelLevel) (j : ℕ) : l.turn.bucket j = l.bucket j := rfl

/-- A level whose shape an update leaves alone still fits. -/
lemma Fits.congr {l' : WheelLevel} {G : WheelGeometry} {i : ℕ} (h : l.Fits G i)
    (hg : l'.granularity = l.granularity) (hc : l'.bucketCount = l.bucketCount)
    (hb : l'.buckets.length = l.buckets.length) : l'.Fits G i :=
  ⟨hg.trans h.granularity, hc.trans h.count, hb.trans h.length⟩

end WheelLevel

namespace HierarchicalTimingWheel

variable {G : WheelGeometry} {w w' : HierarchicalTimingWheel} {b0 : ℤ} {t : ℕ} {T : ℕ → ℕ} {i j : ℕ}
  {f : WheelLevel → WheelLevel} {k : ℤ} {loc : SlotLoc}

lemma getElem?_modify_levels (h : w'.levels = w.levels.modify i f) (i' : ℕ) :
    w'.levels[i']? = (w.levels[i']?).map fun l => if i = i' then f l else l := by
  rw [h, List.getElem?_modify]
  cases w.levels[i']? <;> rfl

/-- Membership after one level has been updated. -/
lemma at_modify (h : w'.levels = w.levels.modify i f) (k : ℤ) (i' j : ℕ) :
    w'.At k i' j ↔
      ∃ l, w.levels[i']? = some l ∧ k ∈ (if i = i' then f l else l).bucket j := by
  simp only [At, getElem?_modify_levels h, Option.map_eq_some_iff]
  constructor
  · rintro ⟨l, ⟨l', hl', rfl⟩, hk⟩
    exact ⟨l', hl', hk⟩
  · rintro ⟨l, hl, hk⟩
    exact ⟨_, ⟨l, hl, rfl⟩, hk⟩

lemma Fits.modify (hw : w.Fits G) (h : w'.levels = w.levels.modify i f)
    (hgap : w'.slotGap = w.slotGap)
    (hf : ∀ l, w.levels[i]? = some l → l.Fits G i → (f l).Fits G i) : w'.Fits G where
  gap := by rw [← hw.gap, slotGapSeconds, slotGapSeconds, hgap]
  depth := by rw [h, List.length_modify, hw.depth]
  level := by
    intro i' l' hl'
    rw [getElem?_modify_levels h, Option.map_eq_some_iff] at hl'
    obtain ⟨l, hl, rfl⟩ := hl'
    split_ifs with hi
    · subst hi
      exact hf l hl (hw.level i l hl)
    · exact hw.level i' l hl

lemma Fits.bucket_lt (hw : w.Fits G) (h : w.At k i j) : j < G.faces i := by
  obtain ⟨l, hl, hk⟩ := h
  rw [← (hw.level i l hl).length]
  exact lt_length_of_mem hk

lemma levels_place (w : HierarchicalTimingWheel) (loc : SlotLoc) (k : ℤ) :
    (w.place loc k).levels = w.levels.modify loc.level (·.insertKey loc.bucket k) := rfl

/-- `loc` names a bucket of the wheel. -/
def Names (w : HierarchicalTimingWheel) (loc : SlotLoc) : Prop :=
  ∃ l, w.levels[loc.level]? = some l ∧ loc.bucket < l.buckets.length

lemma Fits.names (hw : w.Fits G) (hlev : loc.level < G.depth)
    (hbkt : loc.bucket < G.faces loc.level) : w.Names loc := by
  obtain ⟨l, hl⟩ := hw.get hlev
  refine ⟨l, hl, ?_⟩
  rw [(hw.level _ l hl).length]
  exact hbkt

lemma at_place (hloc : w.Names loc) (k k' : ℤ) (i j : ℕ) :
    (w.place loc k).At k' i j ↔ w.At k' i j ∨ (k' = k ∧ i = loc.level ∧ j = loc.bucket) := by
  obtain ⟨l0, hl0, hlt⟩ := hloc
  rw [at_modify (levels_place w loc k)]
  constructor
  · rintro ⟨l, hl, hk⟩
    split_ifs at hk with hi
    · subst hi
      obtain rfl : l0 = l := Option.some.inj (hl0.symm.trans hl)
      rcases (mem_bucket_insertKey hlt k k' j).mp hk with hk | ⟨rfl, rfl⟩
      · exact Or.inl ⟨l0, hl0, hk⟩
      · exact Or.inr ⟨rfl, rfl, rfl⟩
    · exact Or.inl ⟨l, hl, hk⟩
  · rintro (⟨l, hl, hk⟩ | ⟨rfl, rfl, rfl⟩)
    · refine ⟨l, hl, ?_⟩
      split_ifs with hi
      · subst hi
        obtain rfl : l0 = l := Option.some.inj (hl0.symm.trans hl)
        exact (mem_bucket_insertKey hlt k k' j).mpr (Or.inl hk)
      · exact hk
    · refine ⟨l0, hl0, ?_⟩
      rw [if_pos rfl]
      exact (mem_bucket_insertKey hlt k' k' _).mpr (Or.inr ⟨rfl, rfl⟩)

lemma holds_place (hloc : w.Names loc) (k k' : ℤ) :
    (w.place loc k).Holds k' ↔ w.Holds k' ∨ k' = k := by
  have hat := at_place hloc k k'
  constructor
  · rintro (⟨i, j, hk⟩ | hk)
    · rcases (hat i j).mp hk with hk | ⟨rfl, _, _⟩
      · exact Or.inl (Or.inl ⟨i, j, hk⟩)
      · exact Or.inr rfl
    · exact Or.inl (Or.inr hk)
  · rintro ((⟨i, j, hk⟩ | hk) | rfl)
    · exact Or.inl ⟨i, j, (hat i j).mpr (Or.inl hk)⟩
    · exact Or.inr hk
    · exact Or.inl ⟨loc.level, loc.bucket, (hat _ _).mpr (Or.inr ⟨rfl, rfl, rfl⟩)⟩

/-- Emptying a bucket, whatever else becomes of the level. -/
lemma at_of_clear (hf : ∀ l, w.levels[i]? = some l → ∀ j', (f l).bucket j' = (l.clear j).bucket j')
    (hw : w'.levels = w.levels.modify i f) (k : ℤ) (i' j' : ℕ) :
    w'.At k i' j' ↔ w.At k i' j' ∧ ¬ (i' = i ∧ j' = j) := by
  rw [at_modify hw]
  constructor
  · rintro ⟨l, hl, hk⟩
    split_ifs at hk with hi
    · subst hi
      rw [hf l hl, bucket_clear] at hk
      split_ifs at hk with hjj
      · simp at hk
      · exact ⟨⟨l, hl, hk⟩, fun hc => hjj hc.2.symm⟩
    · exact ⟨⟨l, hl, hk⟩, fun hc => hi hc.1.symm⟩
  · rintro ⟨⟨l, hl, hk⟩, hne⟩
    refine ⟨l, hl, ?_⟩
    split_ifs with hi
    · subst hi
      rw [hf l hl, bucket_clear, if_neg fun hc => hne ⟨rfl, hc.symm⟩]
      exact hk
    · exact hk

lemma at_clear (w : HierarchicalTimingWheel) (i j : ℕ) (k : ℤ) (i' j' : ℕ) :
    ({ w with levels := w.levels.modify i (·.clear j) } : HierarchicalTimingWheel).At k i' j'
      ↔ w.At k i' j' ∧ ¬ (i' = i ∧ j' = j) :=
  at_of_clear (fun _ _ _ => rfl) rfl k i' j'

lemma at_turn (k : ℤ) (i' j : ℕ) :
    ({ w with levels := w.levels.modify i turn } : HierarchicalTimingWheel).At k i' j
      ↔ w.At k i' j := by
  rw [at_modify rfl]
  refine exists_congr fun l => and_congr_right fun _ => ?_
  split_ifs <;> rfl

lemma levels_drain (w : HierarchicalTimingWheel) (l : WheelLevel) :
    (w.drain l).levels = w.levels.modify 0 fun l => (l.clear l.current).turn := rfl

/-- Which copies are left after a drain. -/
lemma at_drain {l : WheelLevel} (hl : w.levels[0]? = some l) (k : ℤ) (i j : ℕ) :
    (w.drain l).At k i j ↔ w.At k i j ∧ ¬ (i = 0 ∧ j = l.current) := by
  refine at_of_clear (fun l' hl' j' => ?_) (levels_drain w l) k i j
  obtain rfl : l = l' := Option.some.inj (hl.symm.trans hl')
  rfl

/-! ## The invariant -/

/-- The slot time of a key and its distance from the base are computed without overflow. -/
def KeyInRange (G : WheelGeometry) (base k : ℤ) : Prop :=
  InRange (k * G.gap) ∧ InRange (k * G.gap - base)

/-- The wheel after `t` slots from slot `b0` on, with its cursors at the turns `T`: every key sits
in the bucket that its distance from the base asks for. -/
structure Seated (w : HierarchicalTimingWheel) (G : WheelGeometry) (b0 : ℤ) (t : ℕ)
    (T : ℕ → ℕ) : Prop where
  initialized : w.initialized = true
  baseRange : InRange w.currentBase
  fits : w.Fits G
  base : w.currentBase = (b0 + t) * G.gap
  cursor : ∀ (i : ℕ) (l : WheelLevel), w.levels[i]? = some l → l.current = T i % G.faces i
  bottom : ∀ k j, w.At k 0 j →
    ((t : ℤ) ≤ k - b0 ∧ k - b0 < t + G.faces 0 ∧ (j : ℤ) = (k - b0) % G.faces 0)
      ∨ (k - b0 < t ∧ j = t % G.faces 0)
  upper : ∀ k i j, 0 < i → w.At k i j →
    ((G.width i * (nextTurn (T i) j (G.faces i) + 1) : ℕ) : ℤ) ≤ k - b0
  range : ∀ k, w.Holds k → KeyInRange G w.currentBase k
  nodup : ∀ (i : ℕ) (l : WheelLevel) (j : ℕ), w.levels[i]? = some l → (l.bucket j).Nodup
  overflow_nodup : w.overflow.Nodup

/-- The copy in bucket `j` of level `i` is handed on a whole bucket width before its slot. -/
def Early (G : WheelGeometry) (b0 : ℤ) (T : ℕ → ℕ) (k : ℤ) (i j : ℕ) : Prop :=
  ((G.width i * (nextTurn (T i) j (G.faces i) + 1) + G.width i : ℕ) : ℤ) ≤ k - b0

/-- Some copy of the key will reach level `0` in time. -/
def Timely (w : HierarchicalTimingWheel) (G : WheelGeometry) (b0 : ℤ) (T : ℕ → ℕ) (k : ℤ) :
    Prop :=
  (∃ j, w.At k 0 j) ∨ ∃ i j, 0 < i ∧ w.At k i j ∧ ¬ Early G b0 T k i j

/-- Some copy of the key is in the overflow area or on its way there. -/
def Ahead (w : HierarchicalTimingWheel) (G : WheelGeometry) (b0 : ℤ) (T : ℕ → ℕ) (k : ℤ) :
    Prop :=
  k ∈ w.overflow ∨ ∃ i j, 0 < i ∧ w.At k i j ∧ Early G b0 T k i j

lemma holds_iff (w : HierarchicalTimingWheel) (G : WheelGeometry) (b0 : ℤ) (T : ℕ → ℕ) (k : ℤ) :
    w.Holds k ↔ w.Timely G b0 T k ∨ w.Ahead G b0 T k := by
  constructor
  · rintro (⟨i, j, h⟩ | h)
    · rcases Nat.eq_zero_or_pos i with rfl | hi
      · exact Or.inl (Or.inl ⟨j, h⟩)
      · by_cases he : Early G b0 T k i j
        · exact Or.inr (Or.inr ⟨i, j, hi, h, he⟩)
        · exact Or.inl (Or.inr ⟨i, j, hi, h, he⟩)
    · exact Or.inr (Or.inl h)
  · rintro ((⟨j, h⟩ | ⟨i, j, _, h, _⟩) | (h | ⟨i, j, _, h, _⟩))
    · exact Or.inl ⟨0, j, h⟩
    · exact Or.inl ⟨i, j, h⟩
    · exact Or.inr h
    · exact Or.inl ⟨i, j, h⟩

/-- The distance `findBucket` is asked about: slots ahead, none for a past slot. -/
lemma deltaTo_of_base {gap b : ℤ} (hgap : 0 < gap) (hw : w.slotGapSeconds = gap)
    (hbase : w.currentBase = b * gap) (hkey : InRange (k * gap))
    (hdist : InRange (k * gap - b * gap)) : w.deltaTo k = ((k - b).toNat : ℤ) * gap := by
  simp only [HierarchicalTimingWheel.deltaTo, computeSlotTime, hw, hbase]
  rw [wrap64_of_mem hkey, wrap64_of_mem hdist, ← sub_mul]
  rcases lt_or_ge (k - b) 0 with hneg | hpos
  · rw [if_pos (mul_neg_of_neg_of_pos hneg hgap), Int.toNat_of_nonpos hneg.le]
    simp
  · rw [if_neg (not_lt.mpr (mul_nonneg hpos hgap.le)), Int.toNat_of_nonneg hpos]

lemma Seated.deltaTo (h : w.Seated G b0 t T) (hk : KeyInRange G w.currentBase k) :
    w.deltaTo k = ((k - b0 - t).toNat : ℤ) * G.gap := by
  rw [deltaTo_of_base G.gap_pos h.fits.gap h.base hk.1 (by rw [← h.base]; exact hk.2), ← sub_sub]

lemma Seated.delta_lt (h : w.Seated G b0 t T) (hk : KeyInRange G w.currentBase k) :
    ((k - b0 - t).toNat : ℤ) * G.gap < 9223372036854775808 := by
  have hgap := G.gap_pos
  have h2 := hk.2.2
  rw [h.base] at h2
  rcases lt_or_ge (k - b0 - t) 0 with hneg | hpos
  · rw [Int.toNat_of_nonpos hneg.le]
    simp
  · rw [Int.toNat_of_nonneg hpos]
    linarith

/-- Under the invariant `findBucket` always answers, and answers well. -/
lemma Seated.findBucket (h : w.Seated G b0 t T) (hk : KeyInRange G w.currentBase k) :
    ∃ loc, w.findBucket (w.deltaTo k) = some loc ∧ GoodLoc G T (k - b0 - t).toNat loc := by
  rw [h.deltaTo hk]
  exact findBucket_spec h.fits h.cursor (h.delta_lt hk)

/-- **Entering a key keeps the invariant**, at a level whose turns are not ahead of the clock. -/
lemma Seated.place (h : w.Seated G b0 t T) (hT0 : T 0 = t) (hk : KeyInRange G w.currentBase k)
    (hloc : GoodLoc G T (k - b0 - t).toNat loc) (hclock : G.width loc.level * T loc.level ≤ t) :
    (w.place loc k).Seated G b0 t T := by
  have hat := at_place (h.fits.names hloc.level_lt hloc.bucket_lt) k
  have hlen : ∀ l, w.levels[loc.level]? = some l → loc.bucket < l.buckets.length := by
    intro l hl
    rw [(h.fits.level _ l hl).length]
    exact hloc.bucket_lt
  refine
    { initialized := h.initialized
      baseRange := h.baseRange
      fits := h.fits.modify (levels_place w loc k) rfl fun l _ hl =>
        hl.congr rfl rfl (List.length_modify _ _ _)
      base := h.base
      cursor := ?_
      bottom := ?_
      upper := ?_
      range := ?_
      nodup := ?_
      overflow_nodup := h.overflow_nodup }
  · intro i l hl
    rw [getElem?_modify_levels (levels_place w loc k), Option.map_eq_some_iff] at hl
    obtain ⟨l', hl', rfl⟩ := hl
    split_ifs
    · exact h.cursor i l' hl'
    · exact h.cursor i l' hl'
  · intro k' j hk'
    rcases (hat k' 0 j).mp hk' with hk' | ⟨rfl, hlev, rfl⟩
    · exact h.bottom k' j hk'
    · -- the new copy: its own slot's bucket, or the one under the cursor
      have hb := hloc.level_zero hlev.symm
      have hfar : (k' - b0 - t).toNat < G.width 1 :=
        (hloc.level_lt_iff 1 Nat.one_pos (by have := G.two_le_depth; omega)).mp (by omega)
      have hw1 : G.width 1 = G.faces 0 := by simp [G.width_succ, WheelGeometry.width]
      rw [hT0] at hb
      rcases lt_or_ge (k' - b0 - t) 0 with hneg | hpos
      · rw [Int.toNat_of_nonpos hneg.le, Nat.add_zero] at hb
        exact Or.inr ⟨by omega, hb⟩
      · refine Or.inl ⟨by omega, by omega, ?_⟩
        rw [hb]
        push_cast
        rw [Int.toNat_of_nonneg hpos]
        congr 1
        ring
  · intro k' i j hi hk'
    rcases (hat k' i j).mp hk' with hk' | ⟨rfl, rfl, rfl⟩
    · exact h.upper k' i j hi hk'
    · have hturn := hloc.turn_le hi
      have hlong : G.width loc.level ≤ (k' - b0 - t).toNat := by
        by_contra hlt
        have := (hloc.level_lt_iff loc.level hi hloc.level_lt).mpr (by omega)
        omega
      have hwpos := G.width_pos loc.level
      have hle : G.width loc.level * (nextTurn (T loc.level) loc.bucket (G.faces loc.level) + 1)
          ≤ t + (k' - b0 - t).toNat := by
        calc G.width loc.level * (nextTurn (T loc.level) loc.bucket (G.faces loc.level) + 1)
            ≤ G.width loc.level * (T loc.level + (k' - b0 - t).toNat / G.width loc.level) :=
              Nat.mul_le_mul_left _ hturn
          _ = G.width loc.level * T loc.level
                + G.width loc.level * ((k' - b0 - t).toNat / G.width loc.level) :=
              Nat.mul_add _ _ _
          _ ≤ t + (k' - b0 - t).toNat := Nat.add_le_add hclock (Nat.mul_div_le _ _)
      omega
  · intro k' hk'
    rcases hk' with ⟨i, j, hk'⟩ | hk'
    · rcases (hat k' i j).mp hk' with hk' | ⟨rfl, _, _⟩
      · exact h.range k' (Or.inl ⟨i, j, hk'⟩)
      · exact hk
    · exact h.range k' (Or.inr hk')
  · intro i l j hl
    rw [getElem?_modify_levels (levels_place w loc k), Option.map_eq_some_iff] at hl
    obtain ⟨l', hl', rfl⟩ := hl
    split_ifs with hi
    · subst hi
      exact nodup_bucket_insertKey (hlen l' hl') k (h.nodup _ l' j hl')
    · exact h.nodup i l' j hl'

end HierarchicalTimingWheel

end ScheduledDb
