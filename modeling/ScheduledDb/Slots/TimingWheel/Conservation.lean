import ScheduledDb.Slots.TimingWheel.Seating

/-!
# Nothing gets lost inside the wheel

Whatever the granularities, the cursors and the base, a call of `Advance` neither invents nor loses
a key: it holds or returns afterwards exactly what it held before (`holds_advance`).  All that is
asked of the wheel is that its levels have the buckets they say they have (`WellFormed`).
-/

namespace ScheduledDb

open Machine List

namespace WheelLevel

lemma bucket_deleteKey (l : WheelLevel) (j : ℕ) (k : ℤ) (j' : ℕ) :
    (l.deleteKey j k).bucket j' = if j = j' then (l.bucket j').filter (· ≠ k) else l.bucket j' := by
  rcases lt_or_ge j l.buckets.length with hj | hj
  · rw [deleteKey, bucket_modify l j _ j' hj]
  · rw [deleteKey, modify_eq_self hj]
    split_ifs with h
    · subst h
      simp [bucket, hj]
    · rfl

end WheelLevel

namespace HierarchicalTimingWheel

variable {w w' : HierarchicalTimingWheel} {i j : ℕ} {l : WheelLevel} {k k' : ℤ}

/-- All keys, bucket by bucket. -/
def keys (w : HierarchicalTimingWheel) : List ℤ :=
  (w.levels.flatMap fun l => l.buckets.flatten) ++ w.overflow

lemma holds_iff_mem_keys (w : HierarchicalTimingWheel) (k : ℤ) : w.Holds k ↔ k ∈ w.keys := by
  have hat : (∃ i j, w.At k i j) ↔ ∃ l ∈ w.levels, ∃ b ∈ l.buckets, k ∈ b := by
    constructor
    · rintro ⟨i, j, l, hl, hk⟩
      obtain ⟨b, hb, hk⟩ := WheelLevel.mem_bucket_iff.mp hk
      exact ⟨l, mem_of_getElem? hl, b, mem_of_getElem? hb, hk⟩
    · rintro ⟨l, hl, b, hb, hk⟩
      obtain ⟨i, hi⟩ := mem_iff_getElem?.mp hl
      obtain ⟨j, hj⟩ := mem_iff_getElem?.mp hb
      exact ⟨i, j, l, hi, WheelLevel.mem_bucket_iff.mpr ⟨b, hj, hk⟩⟩
  simp [Holds, hat, keys]

lemma not_holds_reset (w : HierarchicalTimingWheel) (k : ℤ) : ¬ w.reset.Holds k := by
  rw [holds_iff_mem_keys]
  simp [keys, reset]

instance (w : HierarchicalTimingWheel) (k : ℤ) : Decidable (w.Holds k) :=
  decidable_of_iff _ (w.holds_iff_mem_keys k).symm

/-- There is a level, and every level has as many buckets as it says, at least one. -/
structure WellFormed (w : HierarchicalTimingWheel) : Prop where
  levels_ne : w.levels ≠ []
  count_pos : ∀ l ∈ w.levels, 0 < l.bucketCount
  length_eq : ∀ l ∈ w.levels, l.buckets.length = l.bucketCount

lemma WellFormed.modify (h : w.WellFormed) {f : WheelLevel → WheelLevel}
    (hw : w'.levels = w.levels.modify i f) (hcount : ∀ l, (f l).bucketCount = l.bucketCount)
    (hlength : ∀ l, (f l).buckets.length = l.buckets.length) : w'.WellFormed := by
  have hmem : ∀ l' ∈ w'.levels, ∃ l ∈ w.levels,
      l'.bucketCount = l.bucketCount ∧ l'.buckets.length = l.buckets.length := by
    intro l' hl'
    obtain ⟨i', hi'⟩ := mem_iff_getElem?.mp hl'
    rw [getElem?_modify_levels hw, Option.map_eq_some_iff] at hi'
    obtain ⟨l, hl, rfl⟩ := hi'
    refine ⟨l, mem_iff_getElem?.mpr ⟨i', hl⟩, ?_⟩
    split_ifs
    · exact ⟨hcount l, hlength l⟩
    · exact ⟨rfl, rfl⟩
  refine ⟨?_, ?_, ?_⟩
  · rw [hw]
    intro hnil
    have hlen := congrArg length hnil
    rw [length_modify] at hlen
    exact h.levels_ne (length_eq_zero_iff.mp hlen)
  · intro l' hl'
    obtain ⟨l, hl, hc, _⟩ := hmem l' hl'
    rw [hc]
    exact h.count_pos l hl
  · intro l' hl'
    obtain ⟨l, hl, hc, hb⟩ := hmem l' hl'
    rw [hc, hb]
    exact h.length_eq l hl

/-- The loop of `findBucket` ends in a bucket of one of the levels it is given. -/
lemma findBucketFrom_names (delta : ℤ) : ∀ (levels : List WheelLevel) (i : ℕ) (elapsed : ℤ),
    levels ≠ [] → (∀ l ∈ levels, 0 < l.bucketCount) →
    (∀ l ∈ levels, l.buckets.length = l.bucketCount) →
    ∃ loc l, findBucketFrom delta i elapsed levels = some loc ∧ i ≤ loc.level ∧
      levels[loc.level - i]? = some l ∧ loc.bucket < l.buckets.length := by
  intro levels
  induction levels with
  | nil =>
    intro i elapsed hne
    exact absurd rfl hne
  | cons l rest ih =>
    intro i elapsed _ hcount hlength
    rw [findBucketFrom]
    split_ifs with hhere
    · refine ⟨_, l, rfl, le_rfl, by simp, ?_⟩
      rw [hlength l mem_cons_self]
      have := hcount l mem_cons_self
      dsimp only
      omega
    · rw [not_or] at hhere
      obtain ⟨loc, l', hfind, hi, hl', hb⟩ := ih (i + 1)
        (wrap64 (l.granularity * l.bucketCount)) hhere.2
        (fun x hx => hcount x (mem_cons_of_mem l hx))
        (fun x hx => hlength x (mem_cons_of_mem l hx))
      refine ⟨loc, l', hfind, by omega, ?_, hb⟩
      have hsub : loc.level - i = (loc.level - (i + 1)) + 1 := by omega
      rw [hsub, getElem?_cons_succ]
      exact hl'

lemma WellFormed.findBucket (h : w.WellFormed) (delta : ℤ) :
    ∃ loc, w.findBucket delta = some loc ∧ w.Names loc := by
  obtain ⟨loc, l, hfind, _, hl, hb⟩ := findBucketFrom_names delta w.levels 0 0
    h.levels_ne h.count_pos h.length_eq
  exact ⟨loc, hfind, l, by simpa using hl, hb⟩

/-! ## The elementary moves -/

lemma WellFormed.place (h : w.WellFormed) (loc : SlotLoc) (k : ℤ) : (w.place loc k).WellFormed :=
  h.modify (levels_place w loc k) (fun _ => rfl) fun _ => length_modify _ _ _

lemma holds_toOverflow (k k' : ℤ) (m : Finmap fun _ : ℤ => SlotLoc) :
    ({ w with overflow := w.overflow.insert k, slotLocation := m } :
      HierarchicalTimingWheel).Holds k' ↔ w.Holds k' ∨ k' = k := by
  simp only [Holds, mem_insert_iff]
  constructor
  · rintro (hk | rfl | hk)
    · exact Or.inl (Or.inl hk)
    · exact Or.inr rfl
    · exact Or.inl (Or.inr hk)
  · rintro ((hk | hk) | rfl)
    · exact Or.inl hk
    · exact Or.inr (Or.inr hk)
    · exact Or.inr (Or.inl rfl)

/-- Clearing a bucket gives up its keys, unless they are held elsewhere. -/
lemma holds_clear (hl : w.levels[i]? = some l)
    (hat : ∀ i' j', w'.At k i' j' ↔ w.At k i' j' ∧ ¬ (i' = i ∧ j' = j))
    (hover : w'.overflow = w.overflow) : w.Holds k ↔ w'.Holds k ∨ k ∈ l.bucket j := by
  constructor
  · rintro (⟨i', j', hk⟩ | hk)
    · by_cases hpos : i' = i ∧ j' = j
      · obtain ⟨rfl, rfl⟩ := hpos
        obtain ⟨l', hl', hk⟩ := hk
        obtain rfl : l = l' := Option.some.inj (hl.symm.trans hl')
        exact Or.inr hk
      · exact Or.inl (Or.inl ⟨i', j', (hat i' j').mpr ⟨hk, hpos⟩⟩)
    · exact Or.inl (Or.inr (by rw [hover]; exact hk))
  · rintro ((⟨i', j', hk⟩ | hk) | hk)
    · exact Or.inl ⟨i', j', ((hat i' j').mp hk).1⟩
    · rw [hover] at hk
      exact Or.inr hk
    · exact Or.inl ⟨i, j, l, hl, hk⟩

/-- The wheel with its clock running, as `Add` looks for a bucket in it. -/
def started (w : HierarchicalTimingWheel) (slotKey : ℤ) : HierarchicalTimingWheel :=
  if w.initialized then w
  else
    { w with
      currentBase := (w.computeSlotTime slotKey).tdiv w.slotGapSeconds * w.slotGapSeconds
      initialized := true }

/-- The bucket that `Add` chooses. -/
def bucketFor (w : HierarchicalTimingWheel) (slotKey : ℤ) : Option SlotLoc :=
  (w.started slotKey).findBucket ((w.started slotKey).deltaTo slotKey)

@[simp] lemma started_levels (k : ℤ) : (w.started k).levels = w.levels := by
  unfold started
  split_ifs <;> rfl

@[simp] lemma started_slotLocation (k : ℤ) : (w.started k).slotLocation = w.slotLocation := by
  unfold started
  split_ifs <;> rfl

@[simp] lemma started_overflow (k : ℤ) : (w.started k).overflow = w.overflow := by
  unfold started
  split_ifs <;> rfl

lemma WellFormed.started (h : w.WellFormed) (k : ℤ) : (w.started k).WellFormed := by
  constructor
  · simpa using h.levels_ne
  · simpa using h.count_pos
  · simpa using h.length_eq

lemma holds_started (k k' : ℤ) : (w.started k).Holds k' ↔ w.Holds k' := by
  simp [Holds, At]

/-- `Add` always finds a bucket. -/
lemma WellFormed.add_eq (h : w.WellFormed) (k : ℤ) :
    ∃ loc, w.bucketFor k = some loc ∧ (w.started k).Names loc ∧
      w.add k = (w.started k).place loc k := by
  obtain ⟨loc, hfind, hloc⟩ := (h.started k).findBucket ((w.started k).deltaTo k)
  refine ⟨loc, hfind, hloc, ?_⟩
  rw [HierarchicalTimingWheel.started] at hfind ⊢
  simp only [HierarchicalTimingWheel.add, hfind]

/-- `Add` holds the key, whatever the wheel. -/
lemma add_keeps (h : w.WellFormed) (k : ℤ) :
    (w.add k).WellFormed ∧ ∀ k', (w.add k).Holds k' ↔ w.Holds k' ∨ k' = k := by
  obtain ⟨loc, _, hloc, hadd⟩ := h.add_eq k
  rw [hadd]
  refine ⟨(h.started k).place loc k, fun k' => ?_⟩
  rw [holds_place hloc, holds_started]

lemma WellFormed.reset (h : w.WellFormed) : w.reset.WellFormed := by
  refine ⟨?_, ?_, ?_⟩
  · simpa [HierarchicalTimingWheel.reset] using h.levels_ne
  · intro l' hl'
    obtain ⟨l, hl, rfl⟩ := mem_map.mp hl'
    exact h.count_pos l hl
  · intro l' hl'
    obtain ⟨l, hl, rfl⟩ := mem_map.mp hl'
    rw [← h.length_eq l hl]
    exact length_map _

/-- **`Remove`** takes the key out of the bucket that `slotLocation` names. -/
lemma at_remove (w : HierarchicalTimingWheel) (k k' : ℤ) (i j : ℕ) :
    (w.remove k).At k' i j ↔
      w.At k' i j ∧ (k' = k → w.slotLocation.lookup k ≠ some ⟨i, j⟩) := by
  rw [remove]
  cases w.slotLocation.lookup k with
  | none => simp [At]
  | some loc =>
    simp only []
    rw [at_modify rfl, At]
    simp only [← exists_and_right, and_assoc]
    refine exists_congr fun l => and_congr_right fun _ => ?_
    split_ifs with hi
    · rw [WheelLevel.bucket_deleteKey]
      split_ifs with hj
      · subst hi hj
        simp
      · refine (and_iff_left_of_imp fun _ _ heq => hj ?_).symm
        rw [Option.some.inj heq]
    · refine (and_iff_left_of_imp fun _ _ heq => hi ?_).symm
      rw [Option.some.inj heq]

/-- A key without a recorded place is taken out of the overflow area. -/
lemma mem_overflow_remove (w : HierarchicalTimingWheel) (k k' : ℤ) :
    k' ∈ (w.remove k).overflow ↔
      k' ∈ w.overflow ∧ (k' = k → w.slotLocation.lookup k ≠ none) := by
  rw [remove]
  cases w.slotLocation.lookup k with
  | none => simp
  | some loc => simp

/-- `Remove` touches no other key. -/
lemma holds_remove_of_ne (hne : k' ≠ k) : (w.remove k).Holds k' ↔ w.Holds k' := by
  simp [Holds, at_remove, mem_overflow_remove, hne]

lemma initialized_remove (w : HierarchicalTimingWheel) (k : ℤ) :
    (w.remove k).initialized = w.initialized := by
  rw [remove]
  cases w.slotLocation.lookup k <;> rfl

lemma slotGap_remove (w : HierarchicalTimingWheel) (k : ℤ) : (w.remove k).slotGap = w.slotGap := by
  rw [remove]
  cases w.slotLocation.lookup k <;> rfl

lemma at_of_remove (h : (w.remove k).At k' i j) : w.At k' i j :=
  ((w.at_remove k k' i j).mp h).1

lemma overflow_remove (w : HierarchicalTimingWheel) (k : ℤ) :
    (w.remove k).overflow.Sublist w.overflow := by
  rw [remove]
  cases w.slotLocation.lookup k with
  | none => exact filter_sublist
  | some loc => exact Sublist.refl _

lemma holds_of_remove (hk : (w.remove k).Holds k') : w.Holds k' := by
  rcases hk with ⟨i, j, hk⟩ | hk
  · exact Or.inl ⟨i, j, at_of_remove hk⟩
  · exact Or.inr ((w.mem_overflow_remove k k').mp hk).1

/-- A wheel that is not running yet holds the same keys after `Init`. -/
lemma holds_init (now k : ℤ) : (w.init now).Holds k ↔ w.Holds k := by
  rw [init]
  split_ifs
  · rfl
  · rfl

lemma WellFormed.init (h : w.WellFormed) (now : ℤ) : (w.init now).WellFormed := by
  rw [HierarchicalTimingWheel.init]
  split_ifs
  · exact h
  · exact ⟨h.levels_ne, h.count_pos, h.length_eq⟩

lemma WellFormed.remove (h : w.WellFormed) (k : ℤ) : (w.remove k).WellFormed := by
  rw [HierarchicalTimingWheel.remove]
  split
  · exact h.modify rfl (fun _ => rfl) fun _ => length_modify _ _ _
  · exact ⟨h.levels_ne, h.count_pos, h.length_eq⟩

/-! ## Cascades -/

/-- Handing one key on enters it somewhere. -/
lemma cascadeKey_keeps (h : w.WellFormed) (level : ℕ) (k : ℤ) :
    (cascadeKey level w k).WellFormed ∧
      ∀ k', (cascadeKey level w k).Holds k' ↔ w.Holds k' ∨ k' = k := by
  obtain ⟨loc, hfind, hloc⟩ := h.findBucket (w.deltaTo k)
  rw [cascadeKey, hfind]
  simp only []
  split_ifs
  · exact ⟨h.place loc k, holds_place hloc k⟩
  · exact ⟨⟨h.levels_ne, h.count_pos, h.length_eq⟩, fun k' => holds_toOverflow k k' _⟩

lemma cascadeKeys_keeps (level : ℕ) (ks : List ℤ) : ∀ {w : HierarchicalTimingWheel},
    w.WellFormed → (ks.foldl (cascadeKey level) w).WellFormed ∧
      ∀ k', (ks.foldl (cascadeKey level) w).Holds k' ↔ w.Holds k' ∨ k' ∈ ks := by
  induction ks with
  | nil =>
    intro w h
    exact ⟨h, by simp⟩
  | cons k ks ih =>
    intro w h
    obtain ⟨h1, h2⟩ := cascadeKey_keeps h level k
    obtain ⟨h3, h4⟩ := ih h1
    refine ⟨h3, fun k' => ?_⟩
    rw [foldl_cons, h4, h2, mem_cons, or_assoc]

/-- Turning a cursor moves no key. -/
lemma holds_turn (k : ℤ) :
    ({ w with levels := w.levels.modify i WheelLevel.turn } : HierarchicalTimingWheel).Holds k
      ↔ w.Holds k := by
  refine or_congr (exists_congr fun i' => exists_congr fun j => ?_) Iff.rfl
  rw [at_modify rfl]
  refine exists_congr fun l => and_congr_right fun _ => ?_
  split_ifs <;> rfl

lemma cascadeLevel_keeps (h : w.WellFormed) {level : ℕ} (hl : w.levels[level]? = some l) :
    (cascadeLevel level l w).WellFormed ∧
      ∀ k, (cascadeLevel level l w).Holds k ↔ w.Holds k := by
  have hcleared : ({ w with levels := w.levels.modify level (·.clear l.current) } :
      HierarchicalTimingWheel).WellFormed :=
    h.modify rfl (fun _ => rfl) fun _ => length_modify _ _ _
  obtain ⟨h1, h2⟩ := cascadeKeys_keeps level (l.bucket l.current) hcleared
  refine ⟨h1.modify rfl (fun _ => rfl) fun _ => rfl, fun k => ?_⟩
  have hclear : w.Holds k ↔ ({ w with levels := w.levels.modify level (·.clear l.current) } :
      HierarchicalTimingWheel).Holds k ∨ k ∈ l.bucket l.current :=
    holds_clear hl (w.at_clear level l.current k) rfl
  rw [cascadeLevel, holds_turn, h2, hclear]

lemma cascadeFrom_keeps (left : ℕ) : ∀ (level : ℕ) {w : HierarchicalTimingWheel}, w.WellFormed →
    (cascadeFrom left level w).WellFormed ∧
      ∀ k, (cascadeFrom left level w).Holds k ↔ w.Holds k := by
  induction left with
  | zero =>
    intro level w h
    exact ⟨h, fun _ => Iff.rfl⟩
  | succ left ih =>
    intro level w h
    rw [cascadeFrom]
    cases hl : w.levels[level]? with
    | none => exact ⟨h, fun _ => Iff.rfl⟩
    | some l =>
      obtain ⟨h1, h2⟩ := cascadeLevel_keeps h hl
      simp only []
      split_ifs
      · obtain ⟨h3, h4⟩ := ih (level + 1) h1
        exact ⟨h3, fun k => (h4 k).trans (h2 k)⟩
      · exact ⟨h1, h2⟩

/-- A property of wheels that the moves of a cascade keep, for keys with the property `K`.  They
leave the clock alone, and the cursor of level `0`. -/
structure Kept (K : ℤ → Prop) (P : HierarchicalTimingWheel → Prop) : Prop where
  place : ∀ {w loc k}, P w → K k → w.findBucket (w.deltaTo k) = some loc → P (w.place loc k)
  toOverflow : ∀ {w} k, P w →
    P { w with overflow := w.overflow.insert k, slotLocation := w.slotLocation.erase k }
  clear : ∀ {w} i j, i ≠ 0 → P w → P { w with levels := w.levels.modify i (·.clear j) }
  turn : ∀ {w} i, i ≠ 0 → P w → P { w with levels := w.levels.modify i WheelLevel.turn }

section Kept

variable {K : ℤ → Prop} {P : HierarchicalTimingWheel → Prop}

lemma Kept.cascadeKey (h : Kept K P) (hP : P w) {k : ℤ} (hk : K k) (level : ℕ) :
    P (cascadeKey level w k) := by
  rw [HierarchicalTimingWheel.cascadeKey]
  cases hfind : w.findBucket (w.deltaTo k) with
  | none => exact h.toOverflow k hP
  | some loc =>
    simp only []
    split_ifs
    · exact h.place hP hk hfind
    · exact h.toOverflow k hP

lemma Kept.cascadeKeys (h : Kept K P) (level : ℕ) {ks : List ℤ} (hks : ∀ k ∈ ks, K k) :
    ∀ {w : HierarchicalTimingWheel}, P w →
      P (ks.foldl (HierarchicalTimingWheel.cascadeKey level) w) := by
  induction ks with
  | nil => exact fun hP => hP
  | cons k ks ih =>
    intro w hP
    exact ih (fun k' hk' => hks k' (mem_cons_of_mem k hk'))
      (h.cascadeKey hP (hks k mem_cons_self) level)

lemma Kept.cascadeLevel (h : Kept K P) (hK : ∀ k, w.Holds k → K k) (hP : P w) {level : ℕ}
    (hlevel : level ≠ 0) {l : WheelLevel} (hl : w.levels[level]? = some l) :
    P (cascadeLevel level l w) := by
  refine h.turn level hlevel (h.cascadeKeys level (fun k hk => ?_) (h.clear level _ hlevel hP))
  exact hK k (Or.inl ⟨level, l.current, l, hl, hk⟩)

/-- **What every move keeps, a whole cascade keeps.** -/
lemma Kept.cascadeFrom (h : Kept K P) (left : ℕ) : ∀ (level : ℕ) {w : HierarchicalTimingWheel},
    level ≠ 0 → w.WellFormed → (∀ k, w.Holds k → K k) → P w → P (cascadeFrom left level w) := by
  induction left with
  | zero => exact fun _ _ _ _ _ hP => hP
  | succ left ih =>
    intro level w hlevel hwf hK hP
    rw [HierarchicalTimingWheel.cascadeFrom]
    cases hl : w.levels[level]? with
    | none => exact hP
    | some l =>
      have hstep := h.cascadeLevel hK hP hlevel hl
      obtain ⟨hwf', hholds⟩ := cascadeLevel_keeps hwf hl
      simp only []
      split_ifs
      · exact ih (level + 1) (by omega) hwf' (fun k hk => hK k ((hholds k).mp hk)) hstep
      · exact hstep

/-- A round of `Advance` is draining a bucket, and a cascade. -/
lemma Kept.tick (h : Kept K P) (hwf : w.WellFormed) (hK : ∀ k, w.Holds k → K k) {l : WheelLevel}
    (hl : w.levels[0]? = some l) (hdrain : P (w.drain l)) : P w.tick.1 := by
  have hdrained : (w.drain l).WellFormed :=
    hwf.modify (levels_drain w l) (fun _ => rfl) fun _ => length_modify _ _ _
  have hfewer : ∀ k, (w.drain l).Holds k → K k := fun k hk =>
    hK k ((holds_clear hl (at_drain hl k) rfl).mpr (Or.inl hk))
  rw [HierarchicalTimingWheel.tick, hl]
  simp only []
  split_ifs
  · exact h.cascadeFrom _ 1 one_ne_zero hdrained hfewer hdrain
  · exact hdrain

/-- Re-entry only enters keys. -/
lemma Kept.reenter (h : Kept K P) {deltaMax : ℤ} {ks : List ℤ} (hks : ∀ k ∈ ks, K k) :
    ∀ {s : HierarchicalTimingWheel × List ℤ}, P s.1 → P (ks.foldl (reenter deltaMax) s).1 := by
  induction ks with
  | nil => exact fun hP => hP
  | cons k ks ih =>
    intro s hP
    refine ih (fun k' hk' => hks k' (mem_cons_of_mem k hk')) ?_
    rw [HierarchicalTimingWheel.reenter]
    split_ifs
    · cases hfind : s.1.findBucket (s.1.deltaTo k) with
      | none => exact hP
      | some loc => exact h.place hP (hks k mem_cons_self) hfind
    · exact hP

end Kept

/-! ## `Advance` -/

/-- A tick hands out what the drained bucket held, and keeps the rest. -/
lemma tick_keeps (h : w.WellFormed) :
    w.tick.1.WellFormed ∧ ∀ k, w.Holds k ↔ w.tick.1.Holds k ∨ k ∈ w.tick.2 := by
  obtain ⟨l, hl⟩ : ∃ l, w.levels[0]? = some l := by
    cases hlevels : w.levels with
    | nil => exact absurd hlevels h.levels_ne
    | cons l rest => exact ⟨l, rfl⟩
  have hdrain : ∀ k, w.Holds k ↔ (w.drain l).Holds k ∨ k ∈ l.bucket l.current := fun k =>
    holds_clear hl (at_drain hl k) rfl
  have hwf : (w.drain l).WellFormed :=
    h.modify rfl (fun _ => rfl) fun _ => length_modify _ _ _
  rw [tick, hl]
  simp only []
  split_ifs
  · obtain ⟨h1, h2⟩ := cascadeFrom_keeps ((w.drain l).levels.length - 1) 1 hwf
    exact ⟨h1, fun k => (hdrain k).trans (or_congr_left (h2 k).symm)⟩
  · exact ⟨hwf, hdrain⟩

lemma advanceLoop_keeps (newBase : ℤ) (rounds : ℕ) : ∀ {w : HierarchicalTimingWheel}
    (ready : List ℤ), w.WellFormed →
    (advanceLoop newBase rounds (w, ready)).1.WellFormed ∧
      ∀ k, w.Holds k ∨ k ∈ ready ↔ (advanceLoop newBase rounds (w, ready)).1.Holds k ∨
        k ∈ (advanceLoop newBase rounds (w, ready)).2 := by
  induction rounds with
  | zero =>
    intro w ready h
    exact ⟨h, fun _ => Iff.rfl⟩
  | succ rounds ih =>
    intro w ready h
    rw [advanceLoop]
    split_ifs
    · obtain ⟨h1, h2⟩ := tick_keeps h
      obtain ⟨h3, h4⟩ := ih (ready ++ w.tick.2) h1
      refine ⟨h3, fun k => ?_⟩
      rw [← h4, h2, mem_append, or_assoc, or_comm (a := k ∈ w.tick.2)]
    · exact ⟨h, fun _ => Iff.rfl⟩

/-- **What a tick keeps, the first loop of `Advance` keeps.** -/
lemma advanceLoop_invariant {I : HierarchicalTimingWheel → Prop}
    (htick : ∀ w, I w → w.WellFormed → I w.tick.1) (newBase : ℤ) (rounds : ℕ) :
    ∀ {w : HierarchicalTimingWheel} (ready : List ℤ), I w → w.WellFormed →
      I (advanceLoop newBase rounds (w, ready)).1 := by
  induction rounds with
  | zero => exact fun _ h _ => h
  | succ rounds ih =>
    intro w ready h hwf
    rw [advanceLoop]
    split_ifs
    · exact ih _ (htick w h hwf) (tick_keeps hwf).1
    · exact h

/-- `Advance` does nothing, or goes through its three loops. -/
lemma advance_cases (w : HierarchicalTimingWheel) (now : ℤ) :
    w.advance now = (w, []) ∨ ∃ s p,
      s = advanceLoop (w.baseAt now) (w.baseAt now - w.currentBase).toNat (w, []) ∧
      p = promoteOverflow (w.baseAt now) s.1.reenterOverflow ∧
      w.advance now = (p.1, s.2 ++ p.2) := by
  rw [advance]
  split_ifs
  · exact .inl rfl
  · simp only []
    split_ifs
    · exact .inl rfl
    · exact .inr ⟨_, _, rfl, rfl, rfl⟩

/-- Re-entry puts an overflow key into a bucket, or leaves it. -/
lemma reenter_keeps (deltaMax : ℤ) (ks : List ℤ) : ∀ {s : HierarchicalTimingWheel × List ℤ},
    s.1.WellFormed → (∀ k ∈ ks, s.1.Holds k) → (∀ k ∈ s.2, ∃ i j, s.1.At k i j) →
    (ks.foldl (reenter deltaMax) s).1.WellFormed ∧
      (ks.foldl (reenter deltaMax) s).1.overflow = s.1.overflow ∧
      (∀ k, (ks.foldl (reenter deltaMax) s).1.Holds k ↔ s.1.Holds k) ∧
      ∀ k ∈ (ks.foldl (reenter deltaMax) s).2,
        ∃ i j, (ks.foldl (reenter deltaMax) s).1.At k i j := by
  induction ks with
  | nil =>
    intro s h _ hdone
    exact ⟨h, rfl, fun _ => Iff.rfl, hdone⟩
  | cons k ks ih =>
    intro s h hks hdone
    rw [foldl_cons]
    obtain ⟨loc, hfind, hloc⟩ := h.findBucket (s.1.deltaTo k)
    by_cases hin : s.1.deltaTo k < deltaMax
    · have hone : reenter deltaMax s k = (s.1.place loc k, s.2 ++ [k]) := by
        rw [reenter, if_pos hin, hfind]
      have hholds : ∀ k', (s.1.place loc k).Holds k' ↔ s.1.Holds k' := by
        intro k'
        rw [holds_place hloc]
        refine or_iff_left_of_imp ?_
        rintro rfl
        exact hks k' mem_cons_self
      rw [hone]
      obtain ⟨h1, h2, h3, h4⟩ := ih (s := (s.1.place loc k, s.2 ++ [k])) (h.place loc k)
        (fun k' hk' => (hholds k').mpr (hks k' (mem_cons_of_mem k hk'))) (by
          intro k' hk'
          rcases mem_append.mp hk' with hk' | hk'
          · obtain ⟨i, j, hat⟩ := hdone k' hk'
            exact ⟨i, j, (at_place hloc k k' i j).mpr (Or.inl hat)⟩
          · obtain rfl := mem_singleton.mp hk'
            exact ⟨_, _, (at_place hloc k' k' _ _).mpr (Or.inr ⟨rfl, rfl, rfl⟩)⟩)
      exact ⟨h1, h2, fun k' => (h3 k').trans (hholds k'), h4⟩
    · have hone : reenter deltaMax s k = s := by rw [reenter, if_neg hin]
      rw [hone]
      exact ih h (fun k' hk' => hks k' (mem_cons_of_mem k hk')) hdone

lemma reenterOverflow_keeps (h : w.WellFormed) :
    w.reenterOverflow.WellFormed ∧ ∀ k, w.reenterOverflow.Holds k ↔ w.Holds k := by
  obtain ⟨h1, h2, h3, h4⟩ := reenter_keeps w.totalCoverage w.overflow (s := (w, [])) h
    (fun k hk => Or.inr hk) (by simp)
  refine ⟨⟨h1.levels_ne, h1.count_pos, h1.length_eq⟩, fun k => ?_⟩
  rw [← h3]
  constructor
  · rintro (hk | hk)
    · exact Or.inl hk
    · exact Or.inr (mem_of_mem_filter hk)
  · rintro (hk | hk)
    · exact Or.inl hk
    · by_cases hdone : k ∈ (w.overflow.foldl (reenter w.totalCoverage) (w, [])).2
      · exact Or.inl (h4 k hdone)
      · exact Or.inr (mem_filter.mpr ⟨hk, by simpa using hdone⟩)

lemma holds_promoteOverflow (newBase : ℤ) (k : ℤ) :
    w.Holds k ↔ (promoteOverflow newBase w).1.Holds k ∨ k ∈ (promoteOverflow newBase w).2 := by
  constructor
  · rintro (hk | hk)
    · exact Or.inl (Or.inl hk)
    · by_cases hready : k ∈ (promoteOverflow newBase w).2
      · exact Or.inr hready
      · exact Or.inl (Or.inr (mem_filter.mpr ⟨hk, decide_eq_true hready⟩))
  · rintro ((hk | hk) | hk)
    · exact Or.inl hk
    · exact Or.inr (mem_of_mem_filter hk)
    · exact Or.inr (mem_of_mem_filter hk)

lemma WellFormed.advance (h : w.WellFormed) (now : ℤ) : (w.advance now).1.WellFormed := by
  obtain heq | ⟨s, p, rfl, rfl, heq⟩ := w.advance_cases now
  · rw [heq]
    exact h
  · obtain ⟨h1, _⟩ := advanceLoop_keeps (w.baseAt now) (w.baseAt now - w.currentBase).toNat [] h
    obtain ⟨h2, _⟩ := reenterOverflow_keeps h1
    rw [heq]
    exact ⟨h2.levels_ne, h2.count_pos, h2.length_eq⟩

/-- **Conservation**: a key is held before `Advance` exactly if it is held or returned after. -/
theorem holds_advance (h : w.WellFormed) (now : ℤ) (k : ℤ) :
    w.Holds k ↔ (w.advance now).1.Holds k ∨ k ∈ (w.advance now).2 := by
  obtain heq | ⟨s, p, hs, rfl, heq⟩ := w.advance_cases now
  · simp [heq]
  · obtain ⟨h1, h2⟩ := advanceLoop_keeps (w.baseAt now) (w.baseAt now - w.currentBase).toNat [] h
    rw [← hs] at h1 h2
    obtain ⟨_, h4⟩ := reenterOverflow_keeps h1
    have hloop : w.Holds k ↔ s.1.Holds k ∨ k ∈ s.2 := by simpa using h2 k
    have hpromote := holds_promoteOverflow (w := s.1.reenterOverflow) (w.baseAt now) k
    rw [heq, hloop, ← h4 k, hpromote, mem_append, or_assoc, or_comm (b := k ∈ s.2)]

/-- A new wheel is well formed, if every configured level has buckets. -/
lemma wellFormed_new {slotGap : Duration} {configs : List WheelLevelConfig}
    (h : ∀ cfg ∈ configs, 1 ≤ cfg.buckets) :
    (newHierarchicalTimingWheel slotGap configs).WellFormed := by
  have hall : ∀ cfg ∈ (if configs = [] then defaultWheelConfigs slotGap else configs),
      1 ≤ cfg.buckets := by
    split_ifs
    · intro cfg hcfg
      simp only [defaultWheelConfigs, mem_cons, not_mem_nil, or_false] at hcfg
      rcases hcfg with rfl | rfl | rfl <;> simp
    · exact h
  refine ⟨?_, ?_, ?_⟩
  · simp only [newHierarchicalTimingWheel, ne_eq, map_eq_nil_iff]
    split_ifs with hnil
    · simp [defaultWheelConfigs]
    · exact hnil
  · intro l hl
    obtain ⟨cfg, hcfg, rfl⟩ := mem_map.mp hl
    have hpos := hall cfg hcfg
    simp only [newWheelLevel]
    omega
  · intro l hl
    obtain ⟨cfg, _, rfl⟩ := mem_map.mp hl
    exact length_replicate

end HierarchicalTimingWheel

/-! ## Calls -/

/-- A call of one of the wheel's methods. -/
inductive WheelCall where
  | init (now : ℤ)
  | add (slotKey : ℤ)
  | remove (slotKey : ℤ)
  | advance (now : ℤ)
  | reset
  deriving DecidableEq, Repr

namespace WheelCall

/-- The wheel after a call. -/
def act (w : HierarchicalTimingWheel) : WheelCall → HierarchicalTimingWheel
  | init now => w.init now
  | add slotKey => w.add slotKey
  | remove slotKey => w.remove slotKey
  | advance now => (w.advance now).1
  | reset => w.reset

/-- The keys that a call returns. -/
def returned (w : HierarchicalTimingWheel) : WheelCall → List ℤ
  | advance now => (w.advance now).2
  | _ => []

lemma wellFormed_act {w : HierarchicalTimingWheel} (h : w.WellFormed) (call : WheelCall) :
    (call.act w).WellFormed := by
  cases call with
  | init now => exact h.init now
  | add slotKey => exact (HierarchicalTimingWheel.add_keeps h slotKey).1
  | remove slotKey => exact h.remove slotKey
  | advance now => exact h.advance now
  | reset => exact h.reset

lemma wellFormed_run (calls : List WheelCall) : ∀ {w : HierarchicalTimingWheel}, w.WellFormed →
    (calls.foldl act w).WellFormed := by
  induction calls with
  | nil => exact fun h => h
  | cons call calls ih => exact fun h => ih (wellFormed_act h call)

end WheelCall

end ScheduledDb
