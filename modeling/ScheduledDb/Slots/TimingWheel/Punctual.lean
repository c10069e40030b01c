import ScheduledDb.Core.Run
import ScheduledDb.Slots.TimingWheel.Conservation
import ScheduledDb.Slots.TimingWheel.ExactFiring

/-!
# Never early, and nothing lost

However far an `Advance` jumps, and however often a key is added, no key is handed out before its
slot is over.  Only level `0` hands keys out, so only its buckets matter: a key sits there in a
bucket whose turn does not come before the key's slot (`WheelLevel.OnTime`).  Where the copies in
the levels above sit is of no concern, since a cascade asks `findBucket` again.

The last loop of `Advance` is the exception: it hands out keys of the overflow area whose slot has
only begun.  It finds none as long as `totalCoverage` is positive, since such a key is re-entered
before; but the sum of the level ranges may leave the 64-bit range.
-/

namespace ScheduledDb

open Machine Odometer HierarchicalTimingWheel List

/-! ## Level `0` -/

namespace WheelLevel

variable {l : WheelLevel} {gap b k : ℤ}

/-- The bottom level, the base being at slot `b`: no key's bucket has its turn before the key's
slot. -/
structure OnTime (l : WheelLevel) (gap b : ℤ) : Prop where
  granularity : l.granularity = gap
  current_lt : l.current < l.bucketCount
  length : l.buckets.length = l.bucketCount
  count_lt : 2 * (l.bucketCount : ℤ) < 9223372036854775808
  due : ∀ j k, k ∈ l.bucket j → k + l.current ≤ b + nextTurn l.current j l.bucketCount

lemma OnTime.insertKey (h : l.OnTime gap b) {d : ℕ} (hd : d < l.bucketCount) (hk : k ≤ b + d) :
    (l.insertKey ((l.current + d) % l.bucketCount) k).OnTime gap b where
  granularity := h.granularity
  current_lt := h.current_lt
  length := (length_modify _ _ _).trans h.length
  count_lt := h.count_lt
  due := by
    intro j k' hk'
    have hpos : 0 < l.bucketCount := by omega
    rw [mem_bucket_insertKey (by rw [h.length]; exact Nat.mod_lt _ hpos)] at hk'
    rcases hk' with hk' | ⟨rfl, rfl⟩
    · exact h.due j k' hk'
    · change k' + l.current ≤ b + nextTurn l.current ((l.current + d) % l.bucketCount) l.bucketCount
      rw [nextTurn_add hpos, Nat.mod_eq_of_lt hd]
      push_cast
      linarith

/-- A key whose slot has begun may go to any bucket. -/
lemma OnTime.insertKey_of_le (h : l.OnTime gap b) (hk : k ≤ b) {j : ℕ} (hj : j < l.bucketCount) :
    (l.insertKey j k).OnTime gap b where
  granularity := h.granularity
  current_lt := h.current_lt
  length := (length_modify _ _ _).trans h.length
  count_lt := h.count_lt
  due := by
    intro j' k' hk'
    rw [mem_bucket_insertKey (by rw [h.length]; exact hj)] at hk'
    rcases hk' with hk' | ⟨rfl, rfl⟩
    · exact h.due j' k' hk'
    · change k' + l.current ≤ b + nextTurn l.current j' l.bucketCount
      have hturn := le_nextTurn l.current j' l.bucketCount
      omega

lemma OnTime.deleteKey (h : l.OnTime gap b) (j : ℕ) (k : ℤ) : (l.deleteKey j k).OnTime gap b where
  granularity := h.granularity
  current_lt := h.current_lt
  length := (length_modify _ _ _).trans h.length
  count_lt := h.count_lt
  due := by
    intro j' k' hk'
    rw [bucket_deleteKey] at hk'
    split_ifs at hk'
    · exact h.due j' k' (mem_of_mem_filter hk')
    · exact h.due j' k' hk'

/-- The bucket under the cursor is due. -/
lemma OnTime.le_of_mem_current (h : l.OnTime gap b) (hk : k ∈ l.bucket l.current) : k ≤ b := by
  have hdue := h.due _ k hk
  have hself := nextTurn_self l.current l.bucketCount
  rw [Nat.mod_eq_of_lt h.current_lt] at hself
  rw [hself] at hdue
  linarith

/-- Draining that bucket takes the level to the next slot. -/
lemma OnTime.drain (h : l.OnTime gap b) : ((l.clear l.current).turn).OnTime gap (b + 1) where
  granularity := h.granularity
  current_lt := Nat.mod_lt _ (by have := h.current_lt; exact Nat.zero_lt_of_lt this)
  length := (length_modify _ _ _).trans h.length
  count_lt := h.count_lt
  due := by
    intro j k hk
    have hlt := h.current_lt
    rw [bucket_turn, bucket_clear] at hk
    split_ifs at hk with hj
    · exact absurd hk not_mem_nil
    · have hjlt : j < l.bucketCount := by
        rw [← h.length]
        exact lt_length_of_mem hk
      have hdue := h.due j k hk
      have hnext : nextTurn (l.current + 1) j l.bucketCount = nextTurn l.current j l.bucketCount :=
        nextTurn_succ hjlt (by rw [Nat.mod_eq_of_lt hlt]; exact Ne.symm hj)
      change k + ((l.current + 1) % l.bucketCount : ℕ)
        ≤ b + 1 + nextTurn ((l.current + 1) % l.bucketCount) j l.bucketCount
      -- counting turns from the cursor's face is the same as counting them from the start
      have hshift : nextTurn ((l.current + 1) % l.bucketCount) j l.bucketCount + (l.current + 1)
          = nextTurn (l.current + 1) j l.bucketCount + (l.current + 1) % l.bucketCount := by
        simp only [nextTurn, Nat.mod_mod]
        omega
      rw [hnext] at hshift
      zify at hshift
      push_cast
      linarith

end WheelLevel

/-! ## The wheel -/

/-- A key whose slot begins and ends at a non-negative 64-bit time. -/
def SlotInTime (gap k : ℤ) : Prop := 0 ≤ k ∧ InRange ((k + 1) * gap)

instance (gap k : ℤ) : Decidable (SlotInTime gap k) := inferInstanceAs (Decidable (_ ∧ _))

variable {gap k b : ℤ}

lemma SlotInTime.inRange (hk : SlotInTime gap k) (hgap : 0 < gap) : InRange (k * gap) := by
  obtain ⟨hk0, hk1⟩ := hk
  have hslot : 0 ≤ k * gap := mul_nonneg hk0 hgap.le
  have hend := hk1.2
  rw [add_one_mul] at hend
  exact ⟨by linarith, by linarith⟩

/-- A key whose slot begins at a 64-bit time that is not too far ahead of slot `b`. -/
def Near (gap b k : ℤ) : Prop := InRange (k * gap) ∧ k * gap - b * gap < 9223372036854775808

lemma Near.mono {b' : ℤ} (h : Near gap b k) (hgap : 0 < gap) (hle : b ≤ b') : Near gap b' k := by
  have hbase : b * gap ≤ b' * gap := mul_le_mul_of_nonneg_right hle hgap.le
  exact ⟨h.1, by linarith [h.2]⟩

namespace HierarchicalTimingWheel

variable {w w' : HierarchicalTimingWheel} {gap b k : ℤ} {i : ℕ} {f : WheelLevel → WheelLevel}
  {delta now : ℤ} {l : WheelLevel} {slotGap : Duration}

/-- Changing buckets and cursors does not change the coverage. -/
lemma totalCoverage_modify (hw : w'.levels = w.levels.modify i f)
    (hg : ∀ l, (f l).granularity = l.granularity) (hc : ∀ l, (f l).bucketCount = l.bucketCount) :
    w'.totalCoverage = w.totalCoverage := by
  rw [totalCoverage, totalCoverage, hw]
  have hfold : ∀ (levels : List WheelLevel) (i : ℕ) (total : ℤ),
      (levels.modify i f).foldl (fun total level =>
        wrap64 (total + wrap64 (level.granularity * level.bucketCount))) total
      = levels.foldl (fun total level =>
        wrap64 (total + wrap64 (level.granularity * level.bucketCount))) total := by
    intro levels
    induction levels with
    | nil => simp
    | cons l levels ih =>
      intro i total
      cases i with
      | zero => simp [hg, hc]
      | succ i => simp only [modify_succ_cons, foldl_cons, ih]
  exact hfold w.levels i 0

/-- A wheel whose base is at slot `b` and whose bottom level is on time. -/
structure OnTime (w : HierarchicalTimingWheel) (gap b : ℤ) : Prop where
  running : w.initialized = true
  gap_eq : w.slotGapSeconds = gap
  base_eq : w.currentBase = b * gap
  deep : 2 ≤ w.levels.length
  coverage : 0 < w.totalCoverage
  bottom : ∀ l, w.levels[0]? = some l → l.OnTime gap b

/-- A level is changed: the levels above level `0` do not count. -/
lemma OnTime.modify (h : w.OnTime gap b) (hw : w'.levels = w.levels.modify i f)
    (hrun : w'.initialized = w.initialized) (hslot : w'.slotGap = w.slotGap)
    (hbase : w'.currentBase = w.currentBase) (hg : ∀ l, (f l).granularity = l.granularity)
    (hc : ∀ l, (f l).bucketCount = l.bucketCount)
    (hbottom : i = 0 → ∀ l, w.levels[0]? = some l → (f l).OnTime gap b) : w'.OnTime gap b where
  running := hrun.trans h.running
  gap_eq := by rw [← h.gap_eq, slotGapSeconds, slotGapSeconds, hslot]
  base_eq := hbase.trans h.base_eq
  deep := by
    rw [hw, length_modify]
    exact h.deep
  coverage := by
    rw [totalCoverage_modify hw hg hc]
    exact h.coverage
  bottom := by
    intro l hl
    rw [getElem?_modify_levels hw, Option.map_eq_some_iff] at hl
    obtain ⟨l', hl', rfl⟩ := hl
    split_ifs with hi
    · exact hbottom hi l' hl'
    · exact h.bottom l' hl'

/-- A key entered at level `i` leaves the levels below `i` out. -/
lemma le_level_of_findBucketFrom : ∀ {levels : List WheelLevel} {i : ℕ} {elapsed : ℤ}
    {loc : SlotLoc}, findBucketFrom delta i elapsed levels = some loc → i ≤ loc.level := by
  intro levels
  induction levels with
  | nil =>
    intro i elapsed loc h
    cases h
  | cons l rest ih =>
    intro i elapsed loc h
    rw [findBucketFrom] at h
    split_ifs at h
    · cases h
      exact le_rfl
    · have := ih h
      omega

/-- When `findBucket` chooses level `0`, and which bucket of it. -/
lemma findBucket_bottom {rest : List WheelLevel} (hl : w.levels = l :: rest) (hrest : rest ≠ [])
    {loc : SlotLoc} (hfind : w.findBucket delta = some loc) (hzero : loc.level = 0) :
    delta < wrap64 (l.granularity * l.bucketCount) ∧
      loc.bucket = (max 0 (min ((wrap64 (l.current + wrap64 (delta.tdiv l.granularity))).tmod
        l.bucketCount) (l.bucketCount - 1))).toNat := by
  rw [findBucket, hl, findBucketFrom] at hfind
  split_ifs at hfind with hhere
  · cases hfind
    refine ⟨hhere.resolve_right hrest, ?_⟩
    simp
  · have := le_level_of_findBucketFrom hfind
    omega

/-- With twice the ring in range, so is the cursor plus an offset. -/
lemma ringIndex_near {c d n : ℕ} (hc : c < n) (hd : d < n)
    (hn : 2 * (n : ℤ) < 9223372036854775808) :
    (max 0 (min ((wrap64 (c + wrap64 d)).tmod n) (n - 1 : ℤ))).toNat = (c + d) % n := by
  have hslots : wrap64 (d : ℤ) = d := wrap64_of_mem ⟨by omega, by omega⟩
  rw [hslots, ringIndex_of_lt (by omega) (by omega)]

lemma wrap64_le {x : ℤ} (hx : 0 ≤ x) : wrap64 x ≤ x := by
  unfold wrap64
  omega

section Kept

variable (hgap : 0 < gap)

include hgap

lemma OnTime.deltaTo (h : w.OnTime gap b) (hk : Near gap b k) (hle : b ≤ k) :
    w.deltaTo k = ((k - b).toNat : ℤ) * gap := by
  have hahead : b * gap ≤ k * gap := mul_le_mul_of_nonneg_right hle hgap.le
  exact deltaTo_of_base hgap h.gap_eq h.base_eq hk.1 ⟨by linarith, hk.2⟩

/-- **Entering a key keeps the bottom level on time.** -/
lemma OnTime.place (h : w.OnTime gap b) (hk : Near gap b k) {loc : SlotLoc}
    (hfind : w.findBucket (w.deltaTo k) = some loc) : (w.place loc k).OnTime gap b := by
  refine h.modify (levels_place w loc k) rfl rfl rfl (fun _ => rfl) (fun _ => rfl) ?_
  intro hzero l hl
  have hon := h.bottom l hl
  obtain ⟨rest, hlevels⟩ : ∃ rest, w.levels = l :: rest := by
    cases hw : w.levels with
    | nil => simp [hw] at hl
    | cons l' rest =>
      rw [hw] at hl
      cases hl
      exact ⟨rest, rfl⟩
  have hrest : rest ≠ [] := by
    rintro rfl
    have := h.deep
    rw [hlevels] at this
    simp at this
  obtain ⟨hlt, hbucket⟩ := findBucket_bottom hlevels hrest hfind hzero
  have hpos : 0 < l.bucketCount := Nat.zero_lt_of_lt hon.current_lt
  rcases le_or_gt k b with hpast | hahead
  · exact hon.insertKey_of_le hpast (by omega)
  · rw [h.deltaTo hgap hk hahead.le, hon.granularity] at hlt hbucket
    have hnear : (k - b).toNat < l.bucketCount := by
      have hprod : ((k - b).toNat : ℤ) * gap < l.bucketCount * gap := by
        rw [mul_comm (l.bucketCount : ℤ)]
        exact lt_of_lt_of_le hlt (wrap64_le (mul_nonneg hgap.le (by omega)))
      exact_mod_cast lt_of_mul_lt_mul_right hprod hgap.le
    rw [Int.mul_tdiv_cancel _ hgap.ne', ringIndex_near hon.current_lt hnear hon.count_lt] at hbucket
    rw [hbucket]
    exact hon.insertKey hnear (by linarith [Int.self_le_toNat (k - b)])

/-- So does every move of a cascade. -/
lemma onTime_kept : Kept (Near gap b) fun w => w.OnTime gap b where
  place := fun h hk hfind => h.place hgap hk hfind
  toOverflow := fun _ h => ⟨h.running, h.gap_eq, h.base_eq, h.deep, h.coverage, h.bottom⟩
  clear := fun _ _ hi h =>
    h.modify rfl rfl rfl rfl (fun _ => rfl) (fun _ => rfl) fun h0 => absurd h0 hi
  turn := fun _ hi h =>
    h.modify rfl rfl rfl rfl (fun _ => rfl) (fun _ => rfl) fun h0 => absurd h0 hi

end Kept

/-! ## `Advance` -/

lemma OnTime.drain (h : w.OnTime gap b) (hnext : InRange ((b + 1) * gap)) :
    (w.drain l).OnTime gap (b + 1) where
  running := h.running
  gap_eq := h.gap_eq
  base_eq := by
    change wrap64 (w.currentBase + w.slotGapSeconds) = (b + 1) * gap
    rw [h.gap_eq, h.base_eq, ← add_one_mul, wrap64_of_mem hnext]
  deep := by
    rw [levels_drain, length_modify]
    exact h.deep
  coverage := by
    rw [totalCoverage_modify (levels_drain w l) (fun _ => rfl) fun _ => rfl]
    exact h.coverage
  bottom := by
    intro l' hl'
    rw [getElem?_modify_levels (levels_drain w l), Option.map_eq_some_iff] at hl'
    obtain ⟨l'', hl'', rfl⟩ := hl'
    rw [if_pos rfl]
    exact (h.bottom l'' hl'').drain

/-- **One round**: what it hands out is due, and the rest is on time at the next slot. -/
lemma OnTime.tick (h : w.OnTime gap b) (hwf : w.WellFormed)
    (hkeys : ∀ k, w.Holds k → Near gap b k) (hgap : 0 < gap) (hnext : InRange ((b + 1) * gap)) :
    w.tick.1.OnTime gap (b + 1) ∧ ∀ k ∈ w.tick.2, k ≤ b := by
  obtain ⟨l, hl⟩ : ∃ l, w.levels[0]? = some l :=
    ⟨_, getElem?_eq_getElem (by have := h.deep; omega)⟩
  refine ⟨?_, fun k hk => (h.bottom l hl).le_of_mem_current ?_⟩
  · exact (onTime_kept hgap).tick hwf (fun k hk => (hkeys k hk).mono hgap (by omega)) hl
      (h.drain hnext)
  · rwa [HierarchicalTimingWheel.tick, hl] at hk

/-- **The loop**, up to slot `b'`. -/
lemma OnTime.advanceLoop {b' : ℤ} (hgap : 0 < gap) (hend : InRange (b' * gap)) (rounds : ℕ) :
    ∀ {w : HierarchicalTimingWheel} {b : ℤ} (ready : List ℤ), w.OnTime gap b → w.WellFormed →
      (∀ k, w.Holds k → Near gap b k) → InRange (b * gap) → b ≤ b' → b' - b ≤ rounds →
      (advanceLoop (b' * gap) rounds (w, ready)).1.OnTime gap b' ∧
        ∀ k ∈ (advanceLoop (b' * gap) rounds (w, ready)).2, k ∈ ready ∨ k < b' := by
  induction rounds with
  | zero =>
    intro w b ready h _ _ _ hle hrounds
    obtain rfl : b = b' := by
      push_cast at hrounds
      omega
    exact ⟨h, fun k hk => Or.inl hk⟩
  | succ rounds ih =>
    intro w b ready h hwf hkeys hbase hle hrounds
    rw [HierarchicalTimingWheel.advanceLoop, h.base_eq]
    split_ifs with hlt
    · have hstep : b < b' := lt_of_mul_lt_mul_right hlt hgap.le
      have hnext : InRange ((b + 1) * gap) := by
        have hlow : b * gap ≤ (b + 1) * gap := mul_le_mul_of_nonneg_right (by omega) hgap.le
        have hhigh : (b + 1) * gap ≤ b' * gap := mul_le_mul_of_nonneg_right hstep hgap.le
        exact ⟨le_trans hbase.1 hlow, lt_of_le_of_lt hhigh hend.2⟩
      obtain ⟨hon, hready⟩ := h.tick hwf hkeys hgap hnext
      obtain ⟨hwf', hholds⟩ := tick_keeps hwf
      obtain ⟨hlast, hall⟩ := ih (ready ++ w.tick.2) hon hwf'
        (fun k hk => (hkeys k ((hholds k).mpr (Or.inl hk))).mono hgap (by omega)) hnext hstep
        (by push_cast at hrounds; linarith)
      refine ⟨hlast, fun k hk => ?_⟩
      rcases hall k hk with hk | hk
      · rcases mem_append.mp hk with hk | hk
        · exact Or.inl hk
        · exact Or.inr (lt_of_le_of_lt (hready k hk) hstep)
      · exact Or.inr hk
    · obtain rfl : b = b' := le_antisymm hle (le_of_mul_le_mul_right (not_lt.mp hlt) hgap)
      exact ⟨h, fun k hk => Or.inl hk⟩

/-- Re-entry takes the keys within reach.  Entering a key does not change the distance of another. -/
lemma mem_reenter_iff {deltaMax : ℤ} (ks : List ℤ) (k : ℤ) :
    ∀ {s : HierarchicalTimingWheel × List ℤ}, s.1.WellFormed →
      (k ∈ (ks.foldl (reenter deltaMax) s).2 ↔ k ∈ s.2 ∨ (k ∈ ks ∧ s.1.deltaTo k < deltaMax)) := by
  induction ks with
  | nil => simp
  | cons k' ks ih =>
    intro s hwf
    obtain ⟨loc, hfind, _⟩ := hwf.findBucket (s.1.deltaTo k')
    rw [foldl_cons]
    by_cases hin : s.1.deltaTo k' < deltaMax
    · have hone : reenter deltaMax s k' = (s.1.place loc k', s.2 ++ [k']) := by
        rw [reenter, if_pos hin, hfind]
      have hsame : (s.1.place loc k').deltaTo k = s.1.deltaTo k := rfl
      rw [hone, ih (hwf.place loc k'), hsame, mem_append, mem_singleton, mem_cons,
        or_assoc]
      refine or_congr_right ⟨?_, ?_⟩
      · rintro (rfl | ⟨hk, hlt⟩)
        · exact ⟨Or.inl rfl, hin⟩
        · exact ⟨Or.inr hk, hlt⟩
      · rintro ⟨rfl | hk, hlt⟩
        · exact Or.inl rfl
        · exact Or.inr ⟨hk, hlt⟩
    · have hone : reenter deltaMax s k' = s := by rw [reenter, if_neg hin]
      rw [hone, ih hwf, mem_cons]
      refine or_congr_right (and_congr_left fun hlt => ?_)
      refine (or_iff_right ?_).symm
      rintro rfl
      exact hin hlt

lemma mem_overflow_reenterOverflow (hwf : w.WellFormed) (k : ℤ) :
    k ∈ w.reenterOverflow.overflow ↔ k ∈ w.overflow ∧ w.totalCoverage ≤ w.deltaTo k := by
  obtain ⟨_, hover, _⟩ := reenter_keeps w.totalCoverage w.overflow (s := (w, [])) hwf
    (fun k hk => Or.inr hk) (by simp)
  change k ∈ filter _ _ ↔ _
  rw [mem_filter, hover, decide_eq_true_eq, mem_reenter_iff w.overflow k (s := (w, [])) hwf]
  simp only [not_mem_nil, false_or, not_and, not_lt]
  exact ⟨fun ⟨hk, hfar⟩ => ⟨hk, hfar hk⟩, fun ⟨hk, hfar⟩ => ⟨hk, fun _ => hfar⟩⟩

lemma OnTime.reenterOverflow (h : w.OnTime gap b) (hgap : 0 < gap)
    (hkeys : ∀ k, w.Holds k → Near gap b k) : w.reenterOverflow.OnTime gap b := by
  have hon : (w.overflow.foldl (reenter w.totalCoverage) (w, [])).1.OnTime
      gap b :=
    (onTime_kept hgap).reenter (fun k hk => hkeys k (Or.inr hk)) h
  exact ⟨hon.running, hon.gap_eq, hon.base_eq, hon.deep, hon.coverage, hon.bottom⟩

/-- **The last loop** finds no key of the slot that has just begun: it is within reach. -/
lemma OnTime.lt_of_mem_promoteOverflow (h : w.OnTime gap b) (hgap : 0 < gap) (hwf : w.WellFormed)
    (hkeys : ∀ k, w.Holds k → Near gap b k) {k : ℤ}
    (hk : k ∈ (promoteOverflow (b * gap) w.reenterOverflow).2) : k < b := by
  obtain ⟨hk, hbegun⟩ := mem_filter.mp hk
  obtain ⟨hk, hfar⟩ := (mem_overflow_reenterOverflow hwf k).mp hk
  have hnear := hkeys k (Or.inr hk)
  have hpast : k ≤ b := by
    rw [decide_eq_true_eq, computeSlotTime, (h.reenterOverflow hgap hkeys).gap_eq,
      wrap64_of_mem hnear.1] at hbegun
    exact le_of_mul_le_mul_right hbegun hgap
  by_contra hnow
  rw [h.deltaTo hgap hnear (not_lt.mp hnow), Int.toNat_of_nonpos (by linarith), Nat.cast_zero,
    zero_mul] at hfar
  exact absurd h.coverage (not_lt.mpr hfar)

/-- **`Advance` to any later time** hands out only keys whose slot is over. -/
lemma OnTime.advance (h : w.OnTime gap b) (hgap : 0 < gap) (hbase : InRange (b * gap))
    (hwf : w.WellFormed) (hkeys : ∀ k, w.Holds k → Near gap b k) (hnow : InRange now) :
    (∃ b', b ≤ b' ∧ InRange (b' * gap) ∧ (w.advance now).1.OnTime gap b') ∧
      ∀ k ∈ (w.advance now).2, k < now.tdiv gap := by
  have hbaseAt : w.baseAt now = now.tdiv gap * gap := by rw [baseAt, h.gap_eq]
  rcases le_or_gt (w.baseAt now) w.currentBase with hle | hgt
  · rw [advance_of_le hle]
    exact ⟨⟨b, le_rfl, hbase, h⟩, by simp⟩
  · have hlater : b < now.tdiv gap := by
      rw [hbaseAt, h.base_eq] at hgt
      exact lt_of_mul_lt_mul_right hgt hgap.le
    have hend : InRange (now.tdiv gap * gap) := hnow.tdiv_mul hgap
    have hrounds : now.tdiv gap - b ≤ ((w.baseAt now - w.currentBase).toNat : ℤ) := by
      rw [hbaseAt, h.base_eq, ← sub_mul]
      have hmul : (now.tdiv gap - b) * 1 ≤ (now.tdiv gap - b) * gap :=
        mul_le_mul_of_nonneg_left hgap (by linarith)
      exact le_trans (by linarith) (Int.self_le_toNat _)
    obtain ⟨hloop, hready⟩ := OnTime.advanceLoop hgap hend _ [] h hwf hkeys hbase hlater.le hrounds
    obtain ⟨hwf', hholds⟩ :=
      advanceLoop_keeps (now.tdiv gap * gap) (w.baseAt now - w.currentBase).toNat [] hwf
    have hkeys' : ∀ k, (HierarchicalTimingWheel.advanceLoop (now.tdiv gap * gap)
        (w.baseAt now - w.currentBase).toNat (w, [])).1.Holds k → Near gap (now.tdiv gap) k := by
      intro k hk
      rcases (hholds k).mpr (Or.inl hk) with hk | hk
      · exact (hkeys k hk).mono hgap hlater.le
      · exact absurd hk not_mem_nil
    have hlast := fun k => hloop.lt_of_mem_promoteOverflow hgap hwf' hkeys' (k := k)
    have hre := hloop.reenterOverflow hgap hkeys'
    rw [HierarchicalTimingWheel.advance, h.running]
    simp only [Bool.not_true, Bool.false_eq_true, if_false, if_neg (not_le.mpr hgt)]
    rw [hbaseAt] at *
    refine ⟨⟨now.tdiv gap, hlater.le, hend, ?_⟩, fun k hk => ?_⟩
    · exact ⟨hre.running, hre.gap_eq, hre.base_eq, hre.deep, hre.coverage, hre.bottom⟩
    · rcases mem_append.mp hk with hk | hk
      · exact (hready k hk).resolve_left not_mem_nil
      · exact hlast k hk

/-! ## Runs -/

/-- The clock of a wheel that is not running yet, set to slot `b`. -/
def startAt (w : HierarchicalTimingWheel) (base : ℤ) : HierarchicalTimingWheel :=
  { w with currentBase := base, initialized := true }

/-- The invariant of a run: once the wheel runs, its keys are not too far ahead and its bottom level
is on time; before, it is empty and would be on time whatever the first base. -/
structure Patient (w : HierarchicalTimingWheel) (gap : ℤ) : Prop where
  wellFormed : w.WellFormed
  gap_eq : w.slotGapSeconds = gap
  started : w.initialized = true → ∃ b, InRange (b * gap) ∧ (∀ k, w.Holds k → Near gap b k) ∧
    w.OnTime gap b
  waiting : w.initialized = false → (∀ k, ¬ w.Holds k) ∧ ∀ b, (w.startAt (b * gap)).OnTime gap b

lemma OnTime.remove (h : w.OnTime gap b) (k : ℤ) : (w.remove k).OnTime gap b := by
  rw [HierarchicalTimingWheel.remove]
  split
  · next loc _ =>
    refine h.modify (i := loc.level) (f := (·.deleteKey loc.bucket k)) rfl rfl rfl rfl
      (fun _ => rfl) (fun _ => rfl) fun _ l hl => ?_
    exact (h.bottom l hl).deleteKey loc.bucket k
  · exact ⟨h.running, h.gap_eq, h.base_eq, h.deep, h.coverage, h.bottom⟩

lemma startAt_remove (w : HierarchicalTimingWheel) (k base : ℤ) :
    (w.remove k).startAt base = (w.startAt base).remove k := by
  have hloc : (w.startAt base).slotLocation = w.slotLocation := rfl
  rw [remove, remove, hloc]
  cases w.slotLocation.lookup k <;> rfl

lemma Patient.remove (h : w.Patient gap) (k : ℤ) : (w.remove k).Patient gap where
  wellFormed := h.wellFormed.remove k
  gap_eq := by rw [← h.gap_eq, slotGapSeconds, slotGapSeconds, slotGap_remove]
  started := by
    rw [initialized_remove]
    intro hrun
    obtain ⟨b, hbase, hkeys, hon⟩ := h.started hrun
    exact ⟨b, hbase, fun k' hk' => hkeys k' (holds_of_remove hk'), hon.remove k⟩
  waiting := by
    rw [initialized_remove]
    intro hwait
    obtain ⟨hempty, hon⟩ := h.waiting hwait
    refine ⟨fun k' hk' => hempty k' (holds_of_remove hk'), fun b => ?_⟩
    rw [startAt_remove]
    exact (hon b).remove k

/-- A wheel that starts on a slot boundary. -/
lemma Patient.startAt (h : w.Patient gap) (hwait : w.initialized = false)
    (hbase : InRange (b * gap)) :
    (w.startAt (b * gap)).Patient gap where
  wellFormed := ⟨h.wellFormed.levels_ne, h.wellFormed.count_pos, h.wellFormed.length_eq⟩
  gap_eq := h.gap_eq
  started := fun _ =>
    ⟨b, hbase, fun k hk => absurd hk ((h.waiting hwait).1 k), (h.waiting hwait).2 b⟩
  waiting := nofun

lemma Patient.init (h : w.Patient gap) (hgap : 0 < gap) (hnow : InRange now) :
    (w.init now).Patient gap := by
  cases hrun : w.initialized with
  | true =>
    rw [HierarchicalTimingWheel.init, if_pos hrun]
    exact h
  | false =>
    have hinit : w.init now = w.startAt (now.tdiv gap * gap) := by
      rw [HierarchicalTimingWheel.init, hrun, h.gap_eq]
      rfl
    rw [hinit]
    exact h.startAt hrun (hnow.tdiv_mul hgap)

/-- The clock that `Add` finds or sets, and the distance of the key to it. -/
lemma Patient.started_add (h : w.Patient gap) (hgap : 0 < gap) (hk : InRange (k * gap))
    (hahead : w.initialized = true → k * gap - w.currentBase < 9223372036854775808) :
    (w.started k).Patient gap ∧ (w.started k).initialized = true ∧
      k * gap - (w.started k).currentBase < 9223372036854775808 := by
  rw [HierarchicalTimingWheel.started]
  cases hrun : w.initialized with
  | true => exact ⟨h, hrun, hahead hrun⟩
  | false =>
    have hbase : (w.computeSlotTime k).tdiv w.slotGapSeconds * w.slotGapSeconds = k * gap := by
      rw [computeSlotTime, h.gap_eq, wrap64_of_mem hk, Int.mul_tdiv_cancel _ hgap.ne']
    rw [hbase]
    refine ⟨h.startAt hrun hk, rfl, ?_⟩
    change k * gap - k * gap < 9223372036854775808
    omega

lemma Patient.add (h : w.Patient gap) (hgap : 0 < gap) (hk : InRange (k * gap))
    (hahead : w.initialized = true → k * gap - w.currentBase < 9223372036854775808) :
    (w.add k).Patient gap := by
  obtain ⟨loc, hfind, hloc, hadd⟩ := h.wellFormed.add_eq k
  obtain ⟨hstart, hrun, hdist⟩ := h.started_add hgap hk hahead
  obtain ⟨b, hbase, hkeys, hon⟩ := hstart.started hrun
  have hnear : Near gap b k := ⟨hk, hon.base_eq ▸ hdist⟩
  rw [hadd]
  refine ⟨hstart.wellFormed.place loc k, hstart.gap_eq, fun _ => ⟨b, hbase, fun k' hk' => ?_,
    hon.place hgap hnear hfind⟩, fun hwait => ?_⟩
  · rcases (holds_place hloc k k').mp hk' with hk' | rfl
    · exact hkeys k' hk'
    · exact hnear
  · have hsame : ((w.started k).place loc k).initialized = true := hrun
    rw [hsame] at hwait
    cases hwait

/-- **`Advance` hands out only keys whose slot is over**, to whatever time, and never goes back. -/
lemma Patient.advance (h : w.Patient gap) (hgap : 0 < gap) (hnow : InRange now) :
    (w.advance now).1.Patient gap ∧ (∀ k ∈ (w.advance now).2, k < now.tdiv gap) ∧
      w.currentBase ≤ (w.advance now).1.currentBase := by
  cases hrun : w.initialized with
  | false =>
    rw [HierarchicalTimingWheel.advance, hrun]
    exact ⟨h, by simp⟩
  | true =>
    obtain ⟨b, hbase, hkeys, hon⟩ := h.started hrun
    obtain ⟨⟨b', hle, hbase', hon'⟩, hready⟩ := hon.advance hgap hbase h.wellFormed hkeys hnow
    refine ⟨⟨h.wellFormed.advance now, hon'.gap_eq, fun _ => ⟨b', hbase', fun k hk => ?_, hon'⟩,
      fun hwait => ?_⟩, hready, ?_⟩
    · exact (hkeys k ((holds_advance h.wellFormed now k).mpr (Or.inl hk))).mono hgap hle
    · rw [hon'.running] at hwait
      cases hwait
    · rw [hon.base_eq, hon'.base_eq]
      exact mul_le_mul_of_nonneg_right hle hgap.le

lemma seconds_pos {d : Duration} (h : 1000000000 ≤ d) : 0 < seconds d := by
  rw [seconds, Int.tdiv_eq_ediv_of_nonneg (by linarith)]
  exact Int.le_ediv_of_mul_le (by decide) h

/-- The first level of a new chain, at any base. -/
lemma onTime_newWheelLevel {cfg : WheelLevelConfig} (hg : cfg.granularity = slotGap)
    (hpos : 1 ≤ cfg.buckets) (hcount : 2 * cfg.buckets < 9223372036854775808) (b : ℤ) :
    (newWheelLevel cfg).OnTime (seconds slotGap) b where
  granularity := by rw [newWheelLevel, hg]
  current_lt := by
    change 0 < cfg.buckets.toNat
    omega
  length := length_replicate
  count_lt := by
    change 2 * (cfg.buckets.toNat : ℤ) < 9223372036854775808
    rw [Int.toNat_of_nonneg (by linarith)]
    exact hcount
  due := by
    intro j k hk
    rw [bucket_newWheelLevel] at hk
    exact absurd hk not_mem_nil

/-- A new wheel. -/
lemma patient_new {configs : List WheelLevelConfig} (hgap : 1000000000 ≤ slotGap)
    (hdeep : 2 ≤ configs.length) (hchain : ChainFrom slotGap configs)
    (hdur : ∀ c ∈ configs, InRange c.granularity)
    (hcover : 0 < (newHierarchicalTimingWheel slotGap configs).totalCoverage) :
    (newHierarchicalTimingWheel slotGap configs).Patient (seconds slotGap) := by
  have hsec := seconds_pos hgap
  have hne : configs ≠ [] := by
    rintro rfl
    simp at hdeep
  have hgapEq : (newHierarchicalTimingWheel slotGap configs).slotGapSeconds = seconds slotGap :=
    if_neg hsec.ne'
  refine ⟨wellFormed_new hchain.buckets_pos, hgapEq, nofun,
    fun _ => ⟨not_holds_newWheel hne, fun b => ?_⟩⟩
  refine ⟨rfl, hgapEq, rfl, ?_, hcover, ?_⟩
  · change 2 ≤ (map _ _).length
    rw [length_map, if_neg hne]
    exact hdeep
  · intro l hl
    match configs, hdeep with
    | c0 :: c1 :: rest, _ =>
      obtain ⟨hg0, hpos, hg1, _, _⟩ := hchain
      obtain rfl : newWheelLevel c0 = l := Option.some.inj hl
      have hrange := (hdur c1 (by simp)).2
      rw [hg1] at hrange
      refine onTime_newWheelLevel hg0 hpos ?_ b
      have hmul : 1000000000 * c0.buckets ≤ slotGap * c0.buckets :=
        mul_le_mul_of_nonneg_right hgap (by linarith)
      linarith

end HierarchicalTimingWheel

namespace WheelCall

variable {w : HierarchicalTimingWheel} {gap : ℤ}

/-- A call with non-negative 64-bit times, of one of the methods but `Reset`. -/
def Regular (gap : ℤ) : WheelCall → Prop
  | init now => 0 ≤ now ∧ InRange now
  | add slotKey => SlotInTime gap slotKey
  | remove _ => True
  | advance now => 0 ≤ now ∧ InRange now
  | reset => False

instance (gap : ℤ) : ∀ call : WheelCall, Decidable (call.Regular gap)
  | init now => inferInstanceAs (Decidable (0 ≤ now ∧ InRange now))
  | add slotKey => inferInstanceAs (Decidable (SlotInTime gap slotKey))
  | remove _ => isTrue trivial
  | advance now => inferInstanceAs (Decidable (0 ≤ now ∧ InRange now))
  | reset => isFalse id

/-- The slot of every key that the call returns is over. -/
def NeverEarly (gap : ℤ) (w : HierarchicalTimingWheel) : WheelCall → Prop
  | advance now => ∀ k ∈ (w.advance now).2, (k + 1) * gap ≤ now / gap * gap
  | _ => True

/-- A key leaves the wheel only by being returned or removed. -/
def LosesNothing (w : HierarchicalTimingWheel) (call : WheelCall) : Prop :=
  ∀ k, w.Holds k → (call.act w).Holds k ∨ k ∈ call.returned w ∨ call = remove k

lemma losesNothing (hwf : w.WellFormed) {call : WheelCall} (hcall : call ≠ reset) :
    call.LosesNothing w := by
  intro k hk
  cases call with
  | init now => exact Or.inl ((holds_init now k).mpr hk)
  | add slotKey =>
    exact Or.inl (((add_keeps hwf slotKey).2 k).mpr (Or.inl hk))
  | remove slotKey =>
    by_cases heq : k = slotKey
    · exact Or.inr (Or.inr (by rw [heq]))
    · exact Or.inl ((holds_remove_of_ne heq).mpr hk)
  | advance now =>
    exact ((holds_advance hwf now k).mp hk).imp_right Or.inl
  | reset => exact absurd rfl hcall

/-- One call. -/
lemma patient_of_regular (h : w.Patient gap ∧ (w.initialized = true → 0 ≤ w.currentBase))
    (hgap : 0 < gap) {call : WheelCall} (hcall : call.Regular gap) :
    call.NeverEarly gap w ∧ (call.act w).Patient gap ∧
      ((call.act w).initialized = true → 0 ≤ (call.act w).currentBase) := by
  obtain ⟨h, hbase⟩ := h
  cases call with
  | init now =>
    refine ⟨trivial, h.init hgap hcall.2, fun _ => ?_⟩
    show 0 ≤ (w.init now).currentBase
    rw [HierarchicalTimingWheel.init]
    split_ifs with hrun
    · exact hbase hrun
    · rw [h.gap_eq]
      exact mul_nonneg (Int.tdiv_nonneg hcall.1 hgap.le) hgap.le
  | add slotKey =>
    have hkey := SlotInTime.inRange hcall hgap
    have hahead : w.initialized = true → slotKey * gap - w.currentBase < 9223372036854775808 :=
      fun hrun => by linarith [hkey.2, hbase hrun]
    refine ⟨trivial, h.add hgap hkey hahead, fun _ => ?_⟩
    obtain ⟨loc, -, -, hadd⟩ := h.wellFormed.add_eq slotKey
    show 0 ≤ (w.add slotKey).currentBase
    rw [hadd]
    show 0 ≤ (w.started slotKey).currentBase
    rw [started]
    split_ifs with hrun
    · exact hbase hrun
    · show 0 ≤ (w.computeSlotTime slotKey).tdiv w.slotGapSeconds * w.slotGapSeconds
      rw [computeSlotTime, h.gap_eq, wrap64_of_mem hkey,
        Int.mul_tdiv_cancel _ hgap.ne']
      exact mul_nonneg hcall.1 hgap.le
  | remove slotKey =>
    refine ⟨trivial, h.remove slotKey, ?_⟩
    show (w.remove slotKey).initialized = true → 0 ≤ (w.remove slotKey).currentBase
    rw [HierarchicalTimingWheel.remove]
    split <;> exact hbase
  | advance now =>
    obtain ⟨hnext, hready, hlater⟩ := h.advance hgap hcall.2
    refine ⟨fun k hk => ?_, hnext, fun hrun => ?_⟩
    · rw [← Int.tdiv_eq_ediv_of_nonneg hcall.1]
      exact mul_le_mul_of_nonneg_right (hready k hk) hgap.le
    · cases hstarted : w.initialized with
      | true => exact (hbase hstarted).trans hlater
      | false =>
        have hsame : (w.advance now).1 = w := by
          rw [HierarchicalTimingWheel.advance, hstarted]
          rfl
        rw [act, hsame, hstarted] at hrun
        cases hrun
  | reset => exact hcall.elim

/-- **Never early, never lost.**  In every run on a wheel of chain configurations whose coverage is
positive, every key that an `Advance` returns has its slot behind it, and a key leaves the wheel
only by being returned or removed. -/
theorem never_early_never_lost {slotGap : Duration} {configs : List WheelLevelConfig}
    (hgap : 1000000000 ≤ slotGap) (hdeep : 2 ≤ configs.length) (hchain : ChainFrom slotGap configs)
    (hdur : ∀ c ∈ configs, InRange c.granularity)
    (hcover : 0 < (newHierarchicalTimingWheel slotGap configs).totalCoverage)
    (calls : List WheelCall) (hcalls : ∀ call ∈ calls, call.Regular (seconds slotGap)) :
    Run.Along act (fun w call => call.NeverEarly (seconds slotGap) w ∧ call.LosesNothing w)
      (newHierarchicalTimingWheel slotGap configs) calls := by
  have hpos := seconds_pos hgap
  refine Run.Along.of_invariant
    (I := fun w : HierarchicalTimingWheel =>
      w.Patient (seconds slotGap) ∧ (w.initialized = true → 0 ≤ w.currentBase))
    (D := fun call => call.Regular (seconds slotGap)) ?_
    ⟨patient_new hgap hdeep hchain hdur hcover, nofun⟩ hcalls
  intro w call h hcall
  obtain ⟨hearly, hnext⟩ := patient_of_regular h hpos hcall
  refine ⟨⟨hearly, losesNothing h.1.wellFormed ?_⟩, hnext⟩
  rintro rfl
  exact hcall

/-- Three buckets of a second and four of three seconds; the wheel jumps over slots, and a key is
added again. -/
theorem never_early_never_lost_after_jump :
    let w0 := newHierarchicalTimingWheel 1000000000 [⟨1000000000, 3⟩, ⟨3000000000, 4⟩]
    let calls := [add 4, init 0, advance 6, add 7, add 20, advance 7, add 7, remove 20, advance 30]
    Run.Along act (fun w call => call.NeverEarly (seconds 1000000000) w ∧ call.LosesNothing w)
        w0 calls ∧
      ((calls.take 8).foldl act w0).Holds 7 ∧
      7 ∈ (advance 30).returned ((calls.take 8).foldl act w0) :=
  ⟨never_early_never_lost (by decide) (by decide) (by decide) (by decide) (by decide) _ (by decide),
    by decide +kernel, by decide +kernel⟩

end WheelCall

namespace HierarchicalTimingWheel

variable {w w' : HierarchicalTimingWheel} {k : ℤ} {coverage : ℤ} {slotGap : Duration}

/-! ## A coverage that overflows -/

/-- A key in the overflow area, the slot gap and the coverage: no move of a cascade changes them. -/
structure Strands (k : ℤ) (slotGap : Duration) (coverage : ℤ) (w : HierarchicalTimingWheel) :
    Prop where
  overflow : k ∈ w.overflow
  gap : w.slotGap = slotGap
  coverage : w.totalCoverage = coverage

lemma Strands.modify (h : Strands k slotGap coverage w) {i : ℕ} {f : WheelLevel → WheelLevel}
    (hw : w'.levels = w.levels.modify i f) (hover : k ∈ w'.overflow) (hgap : w'.slotGap = w.slotGap)
    (hg : ∀ l, (f l).granularity = l.granularity) (hc : ∀ l, (f l).bucketCount = l.bucketCount) :
    Strands k slotGap coverage w' :=
  ⟨hover, hgap.trans h.gap, (totalCoverage_modify hw hg hc).trans h.coverage⟩

lemma strands_kept :
    Kept (fun _ => True) (Strands k slotGap coverage) where
  place := fun h _ _ => h.modify (levels_place _ _ _) h.overflow rfl (fun _ => rfl) fun _ => rfl
  toOverflow := fun _ h => ⟨mem_insert_of_mem h.overflow, h.gap, h.coverage⟩
  clear := fun _ _ _ h => h.modify rfl h.overflow rfl (fun _ => rfl) fun _ => rfl
  turn := fun _ _ h => h.modify rfl h.overflow rfl (fun _ => rfl) fun _ => rfl

/-- A turn of the wheel leaves a stranded key where it is. -/
lemma Strands.tick (h : Strands k slotGap coverage w) (hwf : w.WellFormed) :
    Strands k slotGap coverage w.tick.1 := by
  cases hl : w.levels[0]? with
  | none =>
    rw [HierarchicalTimingWheel.tick, hl]
    exact h
  | some l =>
    refine strands_kept.tick hwf (fun _ _ => trivial) hl ?_
    exact h.modify (levels_drain w l) h.overflow rfl (fun _ => rfl) fun _ => rfl

/-- **With no positive coverage the overflow area is never re-entered**, and `Advance` hands its
keys out as soon as their slot begins. -/
lemma mem_advance_of_overflow (hwf : w.WellFormed) (hrun : w.initialized = true)
    (hk : k ∈ w.overflow) (hcover : w.totalCoverage ≤ 0) {now : ℤ}
    (hlater : w.currentBase < w.baseAt now) (hbegun : w.computeSlotTime k ≤ w.baseAt now) :
    k ∈ (w.advance now).2 := by
  set rounds := (w.baseAt now - w.currentBase).toNat
  have hloop : Strands k w.slotGap w.totalCoverage
      (advanceLoop (w.baseAt now) rounds (w, [])).1 :=
    advanceLoop_invariant (fun _ h hwf => h.tick hwf) _ _ [] ⟨hk, rfl, rfl⟩ hwf
  have hwf' := (advanceLoop_keeps (w.baseAt now) rounds [] hwf).1
  set w1 := (advanceLoop (w.baseAt now) rounds (w, [])).1
  have hgap : w1.reenterOverflow.slotGap = w.slotGap :=
    (strands_kept.reenter (fun _ _ => trivial) (s := (w1, [])) hloop).gap
  have hstill : k ∈ w1.reenterOverflow.overflow := by
    refine (mem_overflow_reenterOverflow hwf' k).mpr ⟨hloop.overflow, ?_⟩
    rw [hloop.coverage]
    refine hcover.trans ?_
    simp only [deltaTo]
    split_ifs <;> omega
  rw [advance, hrun]
  simp only [Bool.not_true, Bool.false_eq_true, if_false, if_neg (not_le.mpr hlater)]
  refine mem_append_right _ (mem_filter.mpr ⟨hstill, ?_⟩)
  rw [decide_eq_true_eq]
  rwa [computeSlotTime, slotGapSeconds, hgap]

end HierarchicalTimingWheel

namespace WheelCall

/-- Slots of `2 ^ 33` seconds, three levels of one bucket and one of `2 ^ 30 - 3`: the sum of the
ranges is `2 ^ 63`, which the register shows as a negative number. -/
def longLevels : List WheelLevelConfig :=
  [⟨8589934592000000000, 1⟩, ⟨8589934592000000000, 1⟩, ⟨8589934592000000000, 1⟩,
    ⟨8589934592000000000, 1073741821⟩]

/-- The last slot but one of that wheel's time goes to the overflow area at the first `Advance`, and
is returned when it begins. -/
theorem early_with_overflowing_coverage :
    let gap : ℤ := 8589934592
    let k : ℤ := 1073741822
    let w := [init 0, add k, advance gap].foldl act
      (newHierarchicalTimingWheel 8589934592000000000 longLevels)
    seconds 8589934592000000000 = gap ∧ ChainFrom 8589934592000000000 longLevels ∧
      (∀ c ∈ longLevels, InRange c.granularity) ∧
      (∀ call ∈ [init 0, add k, advance gap, advance (k * gap)], call.Regular gap) ∧
      ¬ (advance (k * gap)).NeverEarly gap w := by
  intro gap k w
  have hwf : w.WellFormed :=
    wellFormed_run _ (wellFormed_new (by decide))
  have hover : k ∈ w.overflow := by decide +kernel
  refine ⟨by decide, by decide, by decide, by decide, fun hearly => ?_⟩
  have hready := hearly k (mem_advance_of_overflow hwf (by decide +kernel)
    hover (by decide +kernel) (by decide +kernel) (by decide +kernel))
  exact absurd hready (by decide)

end WheelCall

end ScheduledDb
