import Mathlib.Data.Finset.Dedup
import ScheduledDb.Core.FiniteMap
import ScheduledDb.Core.Run
import ScheduledDb.Slots.TimingWheel.Conservation

/-!
# One place for every key

The representation invariant of the wheel, `Placed`: a key is in the bucket that `slotLocation`
names and in no other, and a key of the overflow area is in no bucket.  `Remove` relies on it, and
so does `Size`.

Every call keeps the invariant but one.  `Add` does not look whether the key is held: it chooses a
bucket by the distance from the base, which may have moved since the key was added first, and the
new place is recorded over the old one.  The invariant holds all along a run exactly if every `Add`
finds the key nowhere or in the bucket that it chooses.
-/

namespace ScheduledDb

open Machine HierarchicalTimingWheel WheelLevel List

namespace WheelLevel

lemma nodup_bucket_clear {l : WheelLevel} (j : ℕ) {j' : ℕ} (h : (l.bucket j').Nodup) :
    ((l.clear j).bucket j').Nodup := by
  rw [bucket_clear]
  split_ifs
  · exact nodup_nil
  · exact h

lemma nodup_bucket_deleteKey {l : WheelLevel} (j : ℕ) (k : ℤ) {j' : ℕ} (h : (l.bucket j').Nodup) :
    ((l.deleteKey j k).bucket j').Nodup := by
  rw [bucket_deleteKey]
  split_ifs
  · exact h.filter _
  · exact h

end WheelLevel

namespace HierarchicalTimingWheel

variable {w : HierarchicalTimingWheel} {k : ℤ} {ks : List ℤ} {i : ℕ} {w' : HierarchicalTimingWheel}
  {loc : SlotLoc} {l : WheelLevel}

/-- No bucket has a key twice. -/
def BucketsNodup (w : HierarchicalTimingWheel) : Prop :=
  ∀ (i : ℕ) (l : WheelLevel) (j : ℕ), w.levels[i]? = some l → (l.bucket j).Nodup

lemma BucketsNodup.modify (h : w.BucketsNodup) {f : WheelLevel → WheelLevel}
    (hw : w'.levels = w.levels.modify i f)
    (hf : ∀ l j, w.levels[i]? = some l → (l.bucket j).Nodup → ((f l).bucket j).Nodup) :
    w'.BucketsNodup := by
  intro i' l' j hl'
  rw [getElem?_modify_levels hw, Option.map_eq_some_iff] at hl'
  obtain ⟨l, hl, rfl⟩ := hl'
  split_ifs with hi
  · subst hi
    exact hf l j hl (h i l j hl)
  · exact h i' l j hl

/-- Every key is in one place, and `slotLocation` says in which bucket. -/
structure Placed (w : HierarchicalTimingWheel) : Prop where
  located : ∀ k i j, w.At k i j ↔ w.slotLocation.lookup k = some ⟨i, j⟩
  overflow : ∀ k ∈ w.overflow, w.slotLocation.lookup k = none
  nodup : w.BucketsNodup
  overflow_nodup : w.overflow.Nodup

/-- The same while the keys `pending` have been taken out and not put back yet. -/
structure PlacedBut (w : HierarchicalTimingWheel) (pending : List ℤ) : Prop where
  located : ∀ k i j, k ∉ pending → (w.At k i j ↔ w.slotLocation.lookup k = some ⟨i, j⟩)
  overflow : ∀ k ∈ w.overflow, w.slotLocation.lookup k = none
  nowhere : ∀ k ∈ pending, ¬ w.Holds k
  nodup : w.BucketsNodup
  overflow_nodup : w.overflow.Nodup

lemma PlacedBut.placed (h : w.PlacedBut []) : w.Placed where
  located := fun k i j => h.located k i j not_mem_nil
  overflow := h.overflow
  nodup := h.nodup
  overflow_nodup := h.overflow_nodup

/-- A key is in one bucket at most. -/
lemma Placed.at_unique (h : w.Placed) {i' j j' : ℕ} (hat : w.At k i j) (hat' : w.At k i' j') :
    i = i' ∧ j = j' := by
  have hloc := (h.located k i j).mp hat
  rw [(h.located k i' j').mp hat'] at hloc
  cases hloc
  exact ⟨rfl, rfl⟩

/-- Only buckets, overflow and recorded places matter. -/
lemma Placed.congr (h : w.Placed) (hlevels : w'.levels = w.levels)
    (hloc : w'.slotLocation = w.slotLocation) (hover : w'.overflow = w.overflow) : w'.Placed where
  located := by simpa only [At, hlevels, hloc] using h.located
  overflow := by simpa only [hover, hloc] using h.overflow
  nodup := by simpa only [BucketsNodup, hlevels] using h.nodup
  overflow_nodup := by simpa only [hover] using h.overflow_nodup

/-- A key that is held nowhere may be taken for pending. -/
lemma Placed.but_single (h : w.Placed) (hk : ¬ w.Holds k) : w.PlacedBut [k] where
  located := fun k' i j _ => h.located k' i j
  overflow := h.overflow
  nowhere := by simpa using hk
  nodup := h.nodup
  overflow_nodup := h.overflow_nodup

/-! ## Putting a key into its place -/

lemma BucketsNodup.place (h : w.BucketsNodup) (hloc : w.Names loc) (k : ℤ) :
    (w.place loc k).BucketsNodup := by
  refine h.modify (levels_place w loc k) fun l j hl hj => ?_
  obtain ⟨l', hl', hlt⟩ := hloc
  obtain rfl : l' = l := Option.some.inj (hl'.symm.trans hl)
  exact nodup_bucket_insertKey hlt k hj

lemma PlacedBut.place (h : w.PlacedBut (k :: ks)) (hk : k ∉ ks) (hloc : w.Names loc) :
    (w.place loc k).PlacedBut ks where
  located := by
    intro k' i j hk'
    rw [at_place hloc]
    by_cases heq : k' = k
    · subst heq
      have hno : ¬ w.At k' i j := fun hat => h.nowhere k' mem_cons_self (Or.inl ⟨i, j, hat⟩)
      have hsome : (w.place loc k').slotLocation.lookup k' = some loc := Finmap.lookup_insert _
      rw [hsome]
      cases loc
      simp [hno, eq_comm]
    · have hsame : (w.place loc k).slotLocation.lookup k' = w.slotLocation.lookup k' :=
        Finmap.lookup_insert_of_ne _ heq
      rw [hsame, ← h.located k' i j (by simp [heq, hk'])]
      simp [heq]
  overflow := by
    intro k' hk'
    have hne : k' ≠ k := by
      rintro rfl
      exact h.nowhere k' mem_cons_self (Or.inr hk')
    exact (Finmap.lookup_insert_of_ne _ hne).trans (h.overflow k' hk')
  nowhere := by
    intro k' hk'
    have hne : k' ≠ k := by
      rintro rfl
      exact hk hk'
    rw [holds_place hloc]
    simpa [hne] using h.nowhere k' (mem_cons_of_mem k hk')
  nodup := h.nodup.place hloc k
  overflow_nodup := h.overflow_nodup

lemma PlacedBut.toOverflow (h : w.PlacedBut (k :: ks)) (hk : k ∉ ks) :
    ({ w with overflow := w.overflow.insert k, slotLocation := w.slotLocation.erase k } :
      HierarchicalTimingWheel).PlacedBut ks where
  located := by
    intro k' i j hk'
    change w.At k' i j ↔ (w.slotLocation.erase k).lookup k' = some ⟨i, j⟩
    by_cases heq : k' = k
    · subst heq
      have hno : ¬ w.At k' i j := fun hat => h.nowhere k' mem_cons_self (Or.inl ⟨i, j, hat⟩)
      simp [hno]
    · rw [Finmap.lookup_erase_ne heq]
      exact h.located k' i j (by simp [heq, hk'])
  overflow := by
    intro k' hk'
    change (w.slotLocation.erase k).lookup k' = none
    by_cases heq : k' = k
    · subst heq
      exact Finmap.lookup_erase _ _
    · rw [Finmap.lookup_erase_ne heq]
      exact h.overflow k' ((mem_insert_iff.mp hk').resolve_left heq)
  nowhere := by
    intro k' hk'
    have hne : k' ≠ k := by
      rintro rfl
      exact hk hk'
    rw [holds_toOverflow]
    simpa [hne] using h.nowhere k' (mem_cons_of_mem k hk')
  nodup := h.nodup
  overflow_nodup := h.overflow_nodup.insert

/-! ## Cascades -/

lemma PlacedBut.cascadeKey (h : w.PlacedBut (k :: ks)) (hwf : w.WellFormed) (hk : k ∉ ks)
    (level : ℕ) : (cascadeKey level w k).PlacedBut ks := by
  obtain ⟨loc, hfind, hloc⟩ := hwf.findBucket (w.deltaTo k)
  rw [HierarchicalTimingWheel.cascadeKey, hfind]
  simp only []
  split_ifs
  · exact h.place hk hloc
  · exact h.toOverflow hk

/-- The keys of a bucket, one after the other. -/
lemma PlacedBut.cascadeKeys (level : ℕ) (hks : ks.Nodup) : ∀ {w : HierarchicalTimingWheel},
    w.WellFormed → w.PlacedBut ks →
    (ks.foldl (HierarchicalTimingWheel.cascadeKey level) w).Placed := by
  induction ks with
  | nil => exact fun _ h => h.placed
  | cons k ks ih =>
    intro w hwf h
    obtain ⟨hk, hks⟩ := nodup_cons.mp hks
    exact ih hks (cascadeKey_keeps hwf level k).1 (h.cascadeKey hwf hk level)

/-- Emptying a bucket leaves its keys pending. -/
lemma Placed.clear (h : w.Placed) (hl : w.levels[i]? = some l) (j : ℕ) :
    ({ w with levels := w.levels.modify i (·.clear j) } :
      HierarchicalTimingWheel).PlacedBut (l.bucket j) where
  located := by
    intro k i' j' hk
    rw [at_clear, ← h.located k i' j']
    refine and_iff_left_of_imp ?_
    rintro ⟨l', hl', hk'⟩ ⟨rfl, rfl⟩
    obtain rfl : l = l' := Option.some.inj (hl.symm.trans hl')
    exact hk hk'
  overflow := h.overflow
  nowhere := by
    rintro k hk (⟨i', j', hat⟩ | hover)
    · obtain ⟨hat, hne⟩ := (w.at_clear i j k i' j').mp hat
      exact hne (h.at_unique hat ⟨l, hl, hk⟩)
    · have hhere := (h.located k i j).mp ⟨l, hl, hk⟩
      rw [h.overflow k hover] at hhere
      cases hhere
  nodup := h.nodup.modify rfl fun _ j' _ hj' => nodup_bucket_clear j hj'
  overflow_nodup := h.overflow_nodup

lemma Placed.turn (h : w.Placed) (i : ℕ) :
    ({ w with levels := w.levels.modify i turn } : HierarchicalTimingWheel).Placed where
  located := by
    intro k i' j
    rw [at_turn]
    exact h.located k i' j
  overflow := h.overflow
  nodup := h.nodup.modify rfl fun _ _ _ hj => hj
  overflow_nodup := h.overflow_nodup

lemma Placed.cascadeLevel (h : w.Placed) (hwf : w.WellFormed) {level : ℕ}
    (hl : w.levels[level]? = some l) : (cascadeLevel level l w).Placed := by
  have hcleared : ({ w with levels := w.levels.modify level (·.clear l.current) } :
      HierarchicalTimingWheel).WellFormed :=
    hwf.modify rfl (fun _ => rfl) fun _ => length_modify _ _ _
  exact ((h.clear hl l.current).cascadeKeys level (h.nodup level l l.current hl) hcleared).turn level

lemma Placed.cascadeFrom (left : ℕ) : ∀ (level : ℕ) {w : HierarchicalTimingWheel}, w.Placed →
    w.WellFormed → (cascadeFrom left level w).Placed := by
  induction left with
  | zero => exact fun _ _ h _ => h
  | succ left ih =>
    intro level w h hwf
    rw [HierarchicalTimingWheel.cascadeFrom]
    cases hl : w.levels[level]? with
    | none => exact h
    | some l =>
      simp only []
      split_ifs
      · exact ih (level + 1) (h.cascadeLevel hwf hl) (cascadeLevel_keeps hwf hl).1
      · exact h.cascadeLevel hwf hl

/-! ## `Advance` -/

lemma lookup_forget (m : Finmap fun _ : ℤ => SlotLoc) (ready : List ℤ) (k : ℤ) :
    (forget m ready).lookup k = if k ∈ ready then none else m.lookup k := by
  unfold forget
  induction ready generalizing m with
  | nil => simp
  | cons r ready ih =>
    rw [foldl_cons, ih]
    by_cases hk : k = r
    · subst hk
      simp
    · simp [hk]

/-- The drained keys lose their recorded places, and nothing else changes. -/
lemma Placed.drain (h : w.Placed) (hl : w.levels[0]? = some l) :
    (w.drain l).Placed where
  located := by
    intro k i j
    rw [at_drain hl]
    change _ ↔ (forget w.slotLocation (l.bucket l.current)).lookup k = some ⟨i, j⟩
    rw [lookup_forget, h.located]
    constructor
    · rintro ⟨hloc, hne⟩
      rw [if_neg]
      · exact hloc
      · intro hk
        exact hne (h.at_unique ((h.located k i j).mpr hloc) ⟨l, hl, hk⟩)
    · intro hloc
      split_ifs at hloc with hk
      refine ⟨hloc, ?_⟩
      rintro ⟨rfl, rfl⟩
      obtain ⟨l', hl', hk'⟩ := (h.located k 0 l.current).mpr hloc
      obtain rfl : l = l' := Option.some.inj (hl.symm.trans hl')
      exact hk hk'
  overflow := by
    intro k hk
    change (forget w.slotLocation (l.bucket l.current)).lookup k = none
    rw [lookup_forget, h.overflow k hk, ite_self]
  nodup := h.nodup.modify (levels_drain w l) fun l' _ _ hj =>
    nodup_bucket_clear l'.current hj
  overflow_nodup := h.overflow_nodup

/-- A turn of the wheel, with the keys it hands down. -/
lemma Placed.tick (h : w.Placed) (hwf : w.WellFormed) : w.tick.1.Placed := by
  rw [HierarchicalTimingWheel.tick]
  cases hl : w.levels[0]? with
  | none => exact h
  | some l =>
    simp only []
    split_ifs
    · exact Placed.cascadeFrom _ 1 (h.drain hl)
        (hwf.modify (levels_drain w l) (fun _ => rfl) fun _ => length_modify _ _ _)
    · exact h.drain hl

/-- The wheel once the keys `done` have left the overflow area. -/
def withoutOverflow (w : HierarchicalTimingWheel) (done : List ℤ) : HierarchicalTimingWheel :=
  { w with overflow := w.overflow.filter (· ∉ done) }

/-- Taking one key out of the overflow area leaves it pending. -/
lemma Placed.withoutOverflow_single (h : w.Placed) (hk : k ∈ w.overflow) :
    (w.withoutOverflow [k]).PlacedBut [k] where
  located := fun k' i j _ => h.located k' i j
  overflow := fun k' hk' => h.overflow k' (mem_of_mem_filter hk')
  nowhere := by
    intro k' hk'
    obtain rfl := mem_singleton.mp hk'
    rintro (⟨i, j, hat⟩ | hover)
    · have hloc := (h.located k' i j).mp hat
      rw [h.overflow k' hk] at hloc
      cases hloc
    · simp [withoutOverflow] at hover
  nodup := h.nodup
  overflow_nodup := h.overflow_nodup.filter _

/-- The second loop of `Advance`.  While it runs, the keys put back are still in the overflow
area. -/
lemma placed_reenter (deltaMax : ℤ) (hks : ks.Nodup) : ∀ {s : HierarchicalTimingWheel × List ℤ},
    s.1.WellFormed → (s.1.withoutOverflow s.2).Placed → (∀ k ∈ ks, k ∈ s.1.overflow ∧ k ∉ s.2) →
    ((ks.foldl (reenter deltaMax) s).1.withoutOverflow (ks.foldl (reenter deltaMax) s).2).Placed := by
  induction ks with
  | nil => exact fun _ h _ => h
  | cons k ks ih =>
    intro s hwf h hin
    obtain ⟨hk, hks⟩ := nodup_cons.mp hks
    obtain ⟨hover, hnew⟩ := hin k mem_cons_self
    obtain ⟨loc, hfind, hloc⟩ := hwf.findBucket (s.1.deltaTo k)
    rw [foldl_cons]
    by_cases hreach : s.1.deltaTo k < deltaMax
    · have hone : reenter deltaMax s k = (s.1.place loc k, s.2 ++ [k]) := by
        rw [reenter, if_pos hreach, hfind]
      rw [hone]
      refine ih hks (hwf.place loc k) ?_ fun k' hk' => ?_
      · have hmem : k ∈ (s.1.withoutOverflow s.2).overflow :=
          mem_filter.mpr ⟨hover, by simpa using hnew⟩
        have hnames : ((s.1.withoutOverflow s.2).withoutOverflow [k]).Names loc := hloc
        have hplace := ((h.withoutOverflow_single hmem).place not_mem_nil hnames).placed
        refine hplace.congr rfl rfl ?_
        simp [withoutOverflow, place, filter_filter, and_comm]
      · have hne : k' ≠ k := by
          rintro rfl
          exact hk hk'
        obtain ⟨hover', hnew'⟩ := hin k' (mem_cons_of_mem k hk')
        exact ⟨hover', by simp [hnew', hne]⟩
    · have hone : reenter deltaMax s k = s := by rw [reenter, if_neg hreach]
      rw [hone]
      exact ih hks hwf h fun k' hk' => hin k' (mem_cons_of_mem k hk')

lemma Placed.reenterOverflow (h : w.Placed) (hwf : w.WellFormed) : w.reenterOverflow.Placed := by
  refine placed_reenter w.totalCoverage h.overflow_nodup (s := (w, [])) hwf ?_ (by simp)
  exact h.congr rfl rfl (by simp [withoutOverflow])

lemma Placed.promoteOverflow (h : w.Placed) (newBase : ℤ) :
    (promoteOverflow newBase w).1.Placed where
  located := by
    intro k i j
    change w.At k i j ↔ (forget w.slotLocation (HierarchicalTimingWheel.promoteOverflow
      newBase w).2).lookup k = some ⟨i, j⟩
    rw [h.located, lookup_forget]
    split_ifs with hk
    · rw [h.overflow k (mem_of_mem_filter hk)]
      exact ⟨nofun, nofun⟩
    · rfl
  overflow := by
    intro k hk
    change (forget w.slotLocation (HierarchicalTimingWheel.promoteOverflow
      newBase w).2).lookup k = none
    rw [lookup_forget, h.overflow k (mem_of_mem_filter hk), ite_self]
  nodup := h.nodup
  overflow_nodup := h.overflow_nodup.filter _

lemma Placed.advance (h : w.Placed) (hwf : w.WellFormed) (now : ℤ) : (w.advance now).1.Placed := by
  obtain heq | ⟨s, p, rfl, rfl, heq⟩ := w.advance_cases now
  · rw [heq]
    exact h
  · have hplaced := advanceLoop_invariant (fun _ h hwf => Placed.tick h hwf) (w.baseAt now)
      (w.baseAt now - w.currentBase).toNat [] h hwf
    have hloop := advanceLoop_keeps (w.baseAt now) (w.baseAt now - w.currentBase).toNat [] hwf
    rw [heq]
    exact (hplaced.reenterOverflow hloop.1).promoteOverflow _

/-! ## The other calls -/

/-- `Add` finds the key nowhere, or in the bucket that it chooses. -/
def AddsInPlace (w : HierarchicalTimingWheel) (k : ℤ) : Prop :=
  w.Holds k → w.slotLocation.lookup k = w.bucketFor k

instance (w : HierarchicalTimingWheel) (k : ℤ) : Decidable (w.AddsInPlace k) :=
  inferInstanceAs (Decidable (_ → _))

/-- **`Add`** keeps the invariant, or makes a second copy. -/
lemma placed_add_iff (h : w.Placed) (hwf : w.WellFormed) (k : ℤ) :
    (w.add k).Placed ↔ w.AddsInPlace k := by
  obtain ⟨loc, hfor, hloc, hadd⟩ := hwf.add_eq k
  have hstarted : (w.started k).Placed := h.congr (by simp) (by simp) (by simp)
  have hnew : (w.add k).slotLocation.lookup k = some loc := by
    rw [hadd]
    exact Finmap.lookup_insert _
  constructor
  · rintro hafter (⟨i, j, hat⟩ | hover)
    · have hstill : (w.add k).At k i j := by
        rw [hadd, at_place hloc]
        exact Or.inl (by simpa [At] using hat)
      rw [(h.located k i j).mp hat, hfor, ← hnew, (hafter.located k i j).mp hstill]
    · have hstill : k ∈ (w.add k).overflow := by
        rw [hadd]
        change k ∈ (w.started k).overflow
        rwa [started_overflow]
      rw [hafter.overflow k hstill] at hnew
      cases hnew
  · intro hin
    rw [hadd]
    by_cases hk : w.Holds k
    · -- the key is there already
      have hthere : w.slotLocation.lookup k = some loc := (hin hk).trans hfor
      have hat : w.At k loc.level loc.bucket := (h.located k _ _).mpr hthere
      have hsame : ∀ k', ((w.started k).place loc k).slotLocation.lookup k'
          = w.slotLocation.lookup k' := by
        intro k'
        change ((w.started k).slotLocation.insert k loc).lookup k' = _
        rw [started_slotLocation, Finmap.lookup_insert_ite]
        split_ifs with heq
        · rw [heq, hthere]
        · rfl
      refine ⟨fun k' i j => ?_, fun k' hk' => ?_, hstarted.nodup.place hloc k,
        hstarted.overflow_nodup⟩
      · rw [hsame, at_place hloc, ← h.located k' i j]
        have hstart : (w.started k).At k' i j ↔ w.At k' i j := by simp [At]
        rw [hstart]
        refine or_iff_left_of_imp ?_
        rintro ⟨rfl, rfl, rfl⟩
        exact hat
      · rw [hsame]
        change k' ∈ (w.started k).overflow at hk'
        rw [started_overflow] at hk'
        exact h.overflow k' hk'
    · have hnot : ¬ (w.started k).Holds k := fun hheld => hk ((holds_started k k).mp hheld)
      exact ((hstarted.but_single hnot).place not_mem_nil hloc).placed

lemma Placed.init (h : w.Placed) (now : ℤ) : (w.init now).Placed := by
  rw [HierarchicalTimingWheel.init]
  split_ifs
  · exact h
  · exact h.congr rfl rfl rfl

/-- The one bucket that `slotLocation` names is the only one that has the key. -/
lemma Placed.at_remove (h : w.Placed) (k k' : ℤ) (i j : ℕ) :
    (w.remove k).At k' i j ↔ w.At k' i j ∧ k' ≠ k := by
  rw [HierarchicalTimingWheel.at_remove]
  refine and_congr_right fun hat => forall_congr' fun hk => ?_
  subst hk
  simp [(h.located k' i j).mp hat]

lemma Placed.mem_overflow_remove (h : w.Placed) (k k' : ℤ) :
    k' ∈ (w.remove k).overflow ↔ k' ∈ w.overflow ∧ k' ≠ k := by
  rw [HierarchicalTimingWheel.mem_overflow_remove]
  refine and_congr_right fun hmem => forall_congr' fun hk => ?_
  subst hk
  simp [h.overflow k' hmem]

lemma lookup_remove (w : HierarchicalTimingWheel) (k k' : ℤ) :
    (w.remove k).slotLocation.lookup k'
      = if k' = k then none else w.slotLocation.lookup k' := by
  rw [remove]
  cases hloc : w.slotLocation.lookup k with
  | none =>
    split_ifs with hk
    · rw [hk]
      exact hloc
    · rfl
  | some loc => exact w.slotLocation.lookup_erase_ite k k'

lemma BucketsNodup.remove (h : w.BucketsNodup) (k : ℤ) : (w.remove k).BucketsNodup := by
  rw [HierarchicalTimingWheel.remove]
  split
  · exact h.modify rfl fun _ _ _ hj => nodup_bucket_deleteKey _ k hj
  · exact h

lemma Placed.remove (h : w.Placed) (k : ℤ) : (w.remove k).Placed where
  located := by
    intro k' i j
    rw [h.at_remove, lookup_remove, h.located]
    split_ifs with hk
    · simp [hk]
    · simp [hk]
  overflow := by
    intro k' hk'
    rw [lookup_remove, if_neg ((h.mem_overflow_remove k k').mp hk').2]
    exact h.overflow k' ((h.mem_overflow_remove k k').mp hk').1
  nodup := h.nodup.remove k
  overflow_nodup := by
    rw [HierarchicalTimingWheel.remove]
    split
    · exact h.overflow_nodup
    · exact h.overflow_nodup.filter _

/-- Nothing holds a removed key. -/
lemma Placed.not_holds_remove (h : w.Placed) (k : ℤ) : ¬ (w.remove k).Holds k := by
  rintro (⟨i, j, hat⟩ | hover)
  · exact ((h.at_remove k k i j).mp hat).2 rfl
  · exact ((h.mem_overflow_remove k k).mp hover).2 rfl

/-- A wheel with empty buckets, as it is made and as `Reset` leaves it. -/
lemma placed_of_empty (hlevels : ∀ l ∈ w.levels, ∀ b ∈ l.buckets, b = [])
    (hloc : w.slotLocation = ∅) (hover : w.overflow = []) : w.Placed := by
  have hempty : ∀ (i : ℕ) (l : WheelLevel) (j : ℕ), w.levels[i]? = some l → l.bucket j = [] := by
    intro i l j hl
    refine eq_nil_iff_forall_not_mem.mpr fun k hk => ?_
    obtain ⟨b, hb, hk⟩ := mem_bucket_iff.mp hk
    rw [hlevels l (mem_of_getElem? hl) b (mem_of_getElem? hb)] at hk
    exact not_mem_nil hk
  constructor
  · intro k i j
    rw [hloc, Finmap.lookup_empty]
    refine iff_of_false ?_ nofun
    rintro ⟨l, hl, hk⟩
    rw [hempty i l j hl] at hk
    exact not_mem_nil hk
  · simp [hover]
  · intro i l j hl
    rw [hempty i l j hl]
    exact nodup_nil
  · rw [hover]
    exact nodup_nil

lemma placed_reset (w : HierarchicalTimingWheel) : w.reset.Placed := by
  refine placed_of_empty ?_ rfl rfl
  simp only [reset, mem_map]
  rintro _ ⟨l, _, rfl⟩ b hb
  obtain ⟨_, _, rfl⟩ := mem_map.mp hb
  rfl

lemma placed_new (slotGap : Duration) (configs : List WheelLevelConfig) :
    (newHierarchicalTimingWheel slotGap configs).Placed := by
  refine placed_of_empty ?_ rfl rfl
  simp only [newHierarchicalTimingWheel, mem_map]
  rintro _ ⟨cfg, _, rfl⟩ b hb
  exact eq_of_mem_replicate hb

/-! ## `Size` -/

lemma size_eq_length_keys (w : HierarchicalTimingWheel) : w.size = w.keys.length := by
  have hlevel : ∀ (bs : List (List ℤ)) (count : ℕ),
      bs.foldl (fun c b => c + b.length) count = count + bs.flatten.length := by
    intro bs
    induction bs with
    | nil => simp
    | cons b bs ih =>
      intro count
      rw [foldl_cons, ih, flatten_cons, length_append, add_assoc]
  have hlevels : ∀ (ls : List WheelLevel) (count : ℕ),
      ls.foldl (fun count l => l.buckets.foldl (fun c b => c + b.length) count) count
        = count + (ls.flatMap fun l => l.buckets.flatten).length := by
    intro ls
    induction ls with
    | nil => simp
    | cons l ls ih =>
      intro count
      rw [foldl_cons, ih, hlevel, flatMap_cons, length_append, add_assoc]
  rw [size, hlevels, keys, length_append, zero_add]

lemma Placed.nodup_keys (h : w.Placed) : w.keys.Nodup := by
  have hat : ∀ (i j : ℕ) (hi : i < w.levels.length) (hj : j < w.levels[i].buckets.length) (k : ℤ),
      k ∈ w.levels[i].buckets[j] → w.At k i j := fun i j hi hj k hk =>
    ⟨w.levels[i], getElem?_eq_getElem hi,
      mem_bucket_iff.mpr ⟨_, getElem?_eq_getElem hj, hk⟩⟩
  refine nodup_append.mpr ⟨?_, h.overflow_nodup, ?_⟩
  · refine nodup_flatMap.mpr ⟨fun l hl => ?_, ?_⟩
    · obtain ⟨i, hi, rfl⟩ := mem_iff_getElem.mp hl
      refine nodup_flatten.mpr ⟨fun b hb => ?_, ?_⟩
      · obtain ⟨j, hj, rfl⟩ := mem_iff_getElem.mp hb
        have hbucket := h.nodup i w.levels[i] j (getElem?_eq_getElem hi)
        rwa [bucket, getD_eq_getElem?_getD, getElem?_eq_getElem hj] at hbucket
      · refine pairwise_iff_getElem.mpr fun j j' hj hj' hlt k hk hk' => ?_
        exact absurd (h.at_unique (hat i j hi hj k hk) (hat i j' hi hj' k hk')).2 hlt.ne
    · refine pairwise_iff_getElem.mpr fun i i' hi hi' hlt k hk hk' => ?_
      obtain ⟨b, hb, hk⟩ := mem_flatten.mp hk
      obtain ⟨j, hj, rfl⟩ := mem_iff_getElem.mp hb
      obtain ⟨b', hb', hk'⟩ := mem_flatten.mp hk'
      obtain ⟨j', hj', rfl⟩ := mem_iff_getElem.mp hb'
      exact absurd (h.at_unique (hat i j hi hj k hk) (hat i' j' hi' hj' k hk')).1 hlt.ne
  · intro k hk k' hk' heq
    subst heq
    obtain ⟨l, hl, hk⟩ := mem_flatMap.mp hk
    obtain ⟨i, hi, rfl⟩ := mem_iff_getElem.mp hl
    obtain ⟨b, hb, hk⟩ := mem_flatten.mp hk
    obtain ⟨j, hj, rfl⟩ := mem_iff_getElem.mp hb
    have hloc := (h.located k i j).mp (hat i j hi hj k hk)
    rw [h.overflow k hk'] at hloc
    cases hloc

/-! ## Whole runs -/

/-- What the methods of the wheel rely on and promise. -/
structure Sound (w : HierarchicalTimingWheel) : Prop where
  placed : w.Placed
  removed : ∀ k, ¬ (w.remove k).Holds k
  size : w.size = w.keys.toFinset.card

lemma sound_iff_placed (w : HierarchicalTimingWheel) : w.Sound ↔ w.Placed := by
  refine ⟨Sound.placed, fun h => ⟨h, h.not_holds_remove, ?_⟩⟩
  rw [size_eq_length_keys, toFinset_card_of_nodup h.nodup_keys]

end HierarchicalTimingWheel

namespace WheelCall

variable {w : HierarchicalTimingWheel}

/-- An `Add` finds its key nowhere, or in the bucket that it chooses; other calls are free. -/
def InPlace (w : HierarchicalTimingWheel) : WheelCall → Prop
  | add slotKey => w.AddsInPlace slotKey
  | _ => True

instance (w : HierarchicalTimingWheel) : ∀ call : WheelCall, Decidable (call.InPlace w)
  | add slotKey => inferInstanceAs (Decidable (w.AddsInPlace slotKey))
  | init _ => isTrue trivial
  | remove _ => isTrue trivial
  | advance _ => isTrue trivial
  | reset => isTrue trivial

lemma placed_act_iff (hwf : w.WellFormed) (h : w.Placed) (call : WheelCall) :
    (call.act w).Placed ↔ call.InPlace w := by
  cases call with
  | add slotKey => exact placed_add_iff h hwf slotKey
  | init now => exact iff_of_true (h.init now) trivial
  | remove slotKey => exact iff_of_true (h.remove slotKey) trivial
  | advance now => exact iff_of_true (h.advance hwf now) trivial
  | reset => exact iff_of_true w.placed_reset trivial

/-- **One place for every key**, all along a run: exactly if no `Add` finds its key in another
place than the bucket that it chooses. -/
theorem sound_iff {slotGap : Duration} {configs : List WheelLevelConfig}
    (hbuckets : ∀ cfg ∈ configs, 1 ≤ cfg.buckets) (calls : List WheelCall) :
    (∀ done, done <+: calls →
        (done.foldl act (newHierarchicalTimingWheel slotGap configs)).Sound) ↔
      Run.Along act InPlace (newHierarchicalTimingWheel slotGap configs) calls := by
  have hstart : (newHierarchicalTimingWheel slotGap configs).WellFormed :=
    wellFormed_new hbuckets
  have hwf : ∀ done : List WheelCall,
      (done.foldl act (newHierarchicalTimingWheel slotGap configs)).WellFormed :=
    fun done => wellFormed_run done hstart
  rw [← Run.forall_prefix_iff (I := fun w => w.WellFormed ∧ w.Placed) (C := InPlace)]
  · simp only [sound_iff_placed, hwf, true_and]
  · rintro w call ⟨hwf, h⟩
    rw [and_iff_right (wellFormed_act hwf call)]
    exact placed_act_iff hwf h call
  · exact ⟨hstart, placed_new slotGap configs⟩

/-- Two small levels: three buckets of one second, four of three seconds. -/
def smallLevels : List WheelLevelConfig :=
  [{ granularity := 1000000000, buckets := 3 }, { granularity := 3000000000, buckets := 4 }]

/-- Keys on both levels and in the overflow area, handed down, re-entered, removed and returned. -/
theorem sound_handed_down :
    Run.Along act InPlace (newHierarchicalTimingWheel 1000000000 smallLevels)
        [init 0, add 2, add 4, add 4, add 13, advance 4, add 13, remove 4, advance 6, add 20, reset,
          add 20] ∧
      ∀ done, done <+: [init 0, add 2, add 4, add 4, add 13, advance 4, add 13, remove 4, advance 6,
          add 20, reset, add 20] →
        (done.foldl act (newHierarchicalTimingWheel 1000000000 smallLevels)).Sound := by
  have hplaced : Run.Along act InPlace (newHierarchicalTimingWheel 1000000000 smallLevels)
      [init 0, add 2, add 4, add 4, add 13, advance 4, add 13, remove 4, advance 6, add 20, reset,
        add 20] := by
    decide +kernel
  exact ⟨hplaced, (sound_iff (by decide) _).mpr hplaced⟩

/-- Slot `4`, added at base `0` to the upper level and again at base `2` to the lower one, is in two
buckets.  `Size` counts it twice, and `Remove` leaves a copy. -/
theorem sound_added_twice_fails :
    let w := [init 0, add 4, advance 2, add 4].foldl act
      (newHierarchicalTimingWheel 1000000000 smallLevels)
    ¬ w.Sound ∧ w.At 4 0 1 ∧ w.At 4 1 0 ∧ w.size = 2 ∧ w.keys.toFinset.card = 1 ∧
      (w.remove 4).Holds 4 := by
  have hheld : (([init 0, add 4, advance 2, add 4].foldl act
      (newHierarchicalTimingWheel 1000000000 smallLevels)).remove 4).Holds 4 := by
    decide +kernel
  refine ⟨fun hsound => hsound.removed 4 hheld, ⟨_, rfl, ?_⟩, ⟨_, rfl, ?_⟩, ?_, ?_, hheld⟩
  all_goals decide +kernel

end WheelCall

end ScheduledDb
