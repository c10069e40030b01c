import ScheduledDb.Core.Checked
import ScheduledDb.Core.FiniteMap
import ScheduledDb.Slots.TimingWheel.Conservation

/-!
# The timing wheel with its checks

The functions of the wheel once more, with every division, every index and every allocation checked
as the runtime checks it.  In a `Safe` wheel none of the checks fails, and the functions are those
without checks: `checked_add`, `checked_remove`, `checked_advance`, `checked_peekMin`.

A level other than the last may well have granularity zero: its range is then zero, and `findBucket`
passes it by.
-/

namespace ScheduledDb

open Machine Runtime HierarchicalTimingWheel List

namespace HierarchicalTimingWheel

variable {w w' : HierarchicalTimingWheel}

/-! ## The functions -/

namespace Checked

/-- The loop of `findBucket`. -/
def findBucketFrom (delta : ℤ) : ℕ → ℤ → List WheelLevel → Except Panic (Option SlotLoc)
  | _, _, [] => pure none
  | i, elapsed, level :: rest =>
    let levelRange := wrap64 (level.granularity * level.bucketCount)
    if delta < levelRange ∨ rest = [] then do
      let bucketsIntoLevel ← div delta level.granularity
      let elapsedBuckets ← div elapsed level.granularity
      let offset := wrap64 (bucketsIntoLevel - elapsedBuckets)
      let bucket ← mod (wrap64 (level.current + offset)) level.bucketCount
      pure (some ⟨i, (max 0 (min bucket (level.bucketCount - 1))).toNat⟩)
    else findBucketFrom delta (i + 1) levelRange rest

def findBucket (w : HierarchicalTimingWheel) (delta : ℤ) : Except Panic (Option SlotLoc) :=
  findBucketFrom delta 0 0 w.levels

/-- The bucket `levels[loc.level].buckets[loc.bucket]`. -/
def bucketAt (w : HierarchicalTimingWheel) (loc : SlotLoc) : Except Panic (List ℤ) := do
  let level ← index w.levels loc.level
  index level.buckets loc.bucket

def place (w : HierarchicalTimingWheel) (loc : SlotLoc) (slotKey : ℤ) :
    Except Panic HierarchicalTimingWheel := do
  let _ ← bucketAt w loc
  pure (w.place loc slotKey)

def init (w : HierarchicalTimingWheel) (now : ℤ) : Except Panic HierarchicalTimingWheel :=
  if w.initialized then pure w
  else do
    let slots ← div now w.slotGapSeconds
    pure { w with currentBase := slots * w.slotGapSeconds, initialized := true }

/-- The wheel with its clock running. -/
def started (w : HierarchicalTimingWheel) (slotKey : ℤ) : Except Panic HierarchicalTimingWheel :=
  if w.initialized then pure w
  else do
    let slots ← div (w.computeSlotTime slotKey) w.slotGapSeconds
    pure { w with currentBase := slots * w.slotGapSeconds, initialized := true }

def add (w : HierarchicalTimingWheel) (slotKey : ℤ) : Except Panic HierarchicalTimingWheel := do
  let w ← started w slotKey
  match ← findBucket w (w.deltaTo slotKey) with
  | none => pure { w with overflow := w.overflow.insert slotKey }
  | some loc => place w loc slotKey

def remove (w : HierarchicalTimingWheel) (slotKey : ℤ) : Except Panic HierarchicalTimingWheel :=
  match w.slotLocation.lookup slotKey with
  | some loc => do
      let _ ← bucketAt w loc
      pure (w.remove slotKey)
  | none => pure (w.remove slotKey)

def cascadeKey (level : ℕ) (w : HierarchicalTimingWheel) (slotKey : ℤ) :
    Except Panic HierarchicalTimingWheel := do
  match ← findBucket w (w.deltaTo slotKey) with
  | some loc =>
    if loc.level < level then place w loc slotKey
    else
      pure { w with
        overflow := w.overflow.insert slotKey
        slotLocation := w.slotLocation.erase slotKey }
  | none =>
    pure { w with
      overflow := w.overflow.insert slotKey
      slotLocation := w.slotLocation.erase slotKey }

def cascadeLevel (level : ℕ) (l : WheelLevel) (w : HierarchicalTimingWheel) :
    Except Panic HierarchicalTimingWheel := do
  let bucket ← index l.buckets l.current
  let w := { w with levels := w.levels.modify level (·.clear l.current) }
  let w ← bucket.foldlM (cascadeKey level) w
  let _ ← mod (l.current + 1) l.bucketCount
  pure { w with levels := w.levels.modify level WheelLevel.turn }

def cascadeFrom : ℕ → ℕ → HierarchicalTimingWheel → Except Panic HierarchicalTimingWheel
  | 0, _, w => pure w
  | left + 1, level, w =>
    match w.levels[level]? with
    | none => pure w
    | some l => do
        let w ← cascadeLevel level l w
        if (l.current + 1) % l.bucketCount = 0 then cascadeFrom left (level + 1) w else pure w

def cascade (w : HierarchicalTimingWheel) (level : ℕ) : Except Panic HierarchicalTimingWheel :=
  cascadeFrom (w.levels.length - level) level w

def tick (w : HierarchicalTimingWheel) : Except Panic (HierarchicalTimingWheel × List ℤ) := do
  let l ← index w.levels 0
  let bucket ← index l.buckets l.current
  let _ ← mod (l.current + 1) l.bucketCount
  let drained := w.drain l
  let w ← if (l.current + 1) % l.bucketCount = 0 then cascade drained 1 else pure drained
  pure (w, bucket)

def advanceLoop (newBase : ℤ) :
    ℕ → HierarchicalTimingWheel × List ℤ → Except Panic (HierarchicalTimingWheel × List ℤ)
  | 0, s => pure s
  | rounds + 1, (w, ready) =>
    if w.currentBase < newBase then do
      let s ← tick w
      advanceLoop newBase rounds (s.1, ready ++ s.2)
    else pure (w, ready)

def reenter (deltaMax : ℤ) (s : HierarchicalTimingWheel × List ℤ) (slotKey : ℤ) :
    Except Panic (HierarchicalTimingWheel × List ℤ) :=
  if s.1.deltaTo slotKey < deltaMax then do
    match ← findBucket s.1 (s.1.deltaTo slotKey) with
    | some loc => do
        let w ← place s.1 loc slotKey
        pure (w, s.2 ++ [slotKey])
    | none => pure s
  else pure s

def reenterOverflow (w : HierarchicalTimingWheel) : Except Panic HierarchicalTimingWheel := do
  let s ← w.overflow.foldlM (reenter w.totalCoverage) (w, [])
  pure { s.1 with overflow := s.1.overflow.filter (· ∉ s.2) }

def advance (w : HierarchicalTimingWheel) (now : ℤ) :
    Except Panic (HierarchicalTimingWheel × List ℤ) :=
  if !w.initialized then pure (w, [])
  else do
    let slots ← div now w.slotGapSeconds
    let newBase := slots * w.slotGapSeconds
    if newBase ≤ w.currentBase then pure (w, [])
    else do
      let s ← advanceLoop newBase (newBase - w.currentBase).toNat (w, [])
      let w ← reenterOverflow s.1
      let p := promoteOverflow newBase w
      pure (p.1, s.2 ++ p.2)

/-- The search of `PeekMin` in one level, from the given offsets on. -/
def firstBucketFrom (l : WheelLevel) : List ℕ → Except Panic (List ℤ)
  | [] => pure []
  | offset :: rest => do
      let idx ← mod ((l.current : ℤ) + offset) l.bucketCount
      let bucket ← index l.buckets idx.toNat
      if bucket.isEmpty then firstBucketFrom l rest else pure bucket

def peekMin (w : HierarchicalTimingWheel) : Except Panic ℤ :=
  if !w.initialized then pure (-1)
  else do
    let minTime ← w.levels.foldlM (fun m l => do
      let bucket ← firstBucketFrom l (List.range l.bucketCount)
      pure (bucket.foldl w.minSlotTime m)) (-1)
    pure (w.overflow.foldl w.minSlotTime minTime)

end Checked

/-! ## Safe wheels -/

/-- Every cursor is within its level, every recorded place is a bucket, and the last level, which
takes what the others do not, has a granularity. -/
structure Safe (w : HierarchicalTimingWheel) : Prop where
  wellFormed : w.WellFormed
  cursor : ∀ (i : ℕ) (l : WheelLevel), w.levels[i]? = some l → l.current < l.bucketCount
  last : ∀ l, w.levels[w.levels.length - 1]? = some l → l.granularity ≠ 0
  located : ∀ k loc, w.slotLocation.lookup k = some loc → w.Names loc

variable {i : ℕ} {f : WheelLevel → WheelLevel} {loc : SlotLoc}

lemma names_modify (hw : w'.levels = w.levels.modify i f)
    (hlength : ∀ l, (f l).buckets.length = l.buckets.length) (h : w.Names loc) : w'.Names loc := by
  obtain ⟨l, hl, hlt⟩ := h
  refine ⟨if i = loc.level then f l else l, ?_, ?_⟩
  · rw [getElem?_modify_levels hw, hl]
    rfl
  · split_ifs
    · rw [hlength]
      exact hlt
    · exact hlt

/-- A change of one level that keeps its sizes. -/
lemma Safe.modify (h : w.Safe) (hw : w'.levels = w.levels.modify i f)
    (hcount : ∀ l, (f l).bucketCount = l.bucketCount)
    (hgranularity : ∀ l, (f l).granularity = l.granularity)
    (hlength : ∀ l, (f l).buckets.length = l.buckets.length)
    (hcursor : ∀ l, l.current < l.bucketCount → (f l).current < l.bucketCount)
    (hlocated : ∀ k loc, w'.slotLocation.lookup k = some loc → w.Names loc) : w'.Safe where
  wellFormed := h.wellFormed.modify hw hcount hlength
  cursor := by
    intro i' l' hl'
    rw [getElem?_modify_levels hw, Option.map_eq_some_iff] at hl'
    obtain ⟨l, hl, rfl⟩ := hl'
    split_ifs
    · rw [hcount]
      exact hcursor l (h.cursor i' l hl)
    · exact h.cursor i' l hl
  last := by
    intro l' hl'
    rw [hw, length_modify, ← hw, getElem?_modify_levels hw, Option.map_eq_some_iff] at hl'
    obtain ⟨l, hl, rfl⟩ := hl'
    split_ifs
    · rw [hgranularity]
      exact h.last l hl
    · exact h.last l hl
  located := fun k loc hk => names_modify hw hlength (hlocated k loc hk)

/-- A change that leaves the levels alone. -/
lemma Safe.of_levels (h : w.Safe) (hw : w'.levels = w.levels)
    (hlocated : ∀ k loc, w'.slotLocation.lookup k = some loc → w.Names loc) : w'.Safe where
  wellFormed := ⟨hw ▸ h.wellFormed.levels_ne, hw ▸ h.wellFormed.count_pos,
    hw ▸ h.wellFormed.length_eq⟩
  cursor := hw ▸ h.cursor
  last := hw ▸ h.last
  located := by
    intro k loc hk
    obtain ⟨l, hl, hlt⟩ := hlocated k loc hk
    exact ⟨l, hw ▸ hl, hlt⟩

lemma Safe.turn_lt (l : WheelLevel) (h : l.current < l.bucketCount) :
    l.turn.current < l.bucketCount := Nat.mod_lt _ (by omega)

lemma Safe.place (h : w.Safe) (hloc : w.Names loc) (k : ℤ) : (w.place loc k).Safe := by
  refine h.modify (levels_place w loc k) (fun _ => rfl) (fun _ => rfl)
    (fun _ => length_modify _ _ _) (fun _ hlt => hlt) fun k' loc' hk' => ?_
  rcases Finmap.lookup_of_insert hk' with ⟨-, rfl⟩ | hold
  · exact hloc
  · exact h.located k' loc' hold

lemma Safe.toOverflow (h : w.Safe) (k : ℤ) :
    ({ w with overflow := w.overflow.insert k, slotLocation := w.slotLocation.erase k } :
      HierarchicalTimingWheel).Safe :=
  h.of_levels rfl fun k' loc hk' => h.located k' loc (Finmap.lookup_of_erase hk')

lemma lookup_of_forget {m : Finmap fun _ : ℤ => SlotLoc} {ready : List ℤ} {k : ℤ}
    (h : (forget m ready).lookup k = some loc) : m.lookup k = some loc := by
  induction ready generalizing m with
  | nil => exact h
  | cons k' ready ih => exact Finmap.lookup_of_erase (ih h)

lemma Safe.drain (h : w.Safe) (l : WheelLevel) : (w.drain l).Safe :=
  h.modify (levels_drain w l) (fun _ => rfl) (fun _ => rfl) (fun _ => length_modify _ _ _)
    (fun l hlt => Safe.turn_lt (l.clear l.current) hlt)
    fun k loc hk => h.located k loc (lookup_of_forget hk)

lemma Safe.remove (h : w.Safe) (k : ℤ) : (w.remove k).Safe := by
  rw [HierarchicalTimingWheel.remove]
  split
  · exact h.modify rfl (fun _ => rfl) (fun _ => rfl) (fun _ => length_modify _ _ _)
      (fun _ hlt => hlt) fun k' loc hk' => h.located k' loc (Finmap.lookup_of_erase hk')
  · exact h.of_levels rfl h.located

lemma Safe.init (h : w.Safe) (now : ℤ) : (w.init now).Safe := by
  rw [HierarchicalTimingWheel.init]
  split_ifs
  · exact h
  · exact h.of_levels rfl h.located

lemma Safe.reset (h : w.Safe) : w.reset.Safe where
  wellFormed := h.wellFormed.reset
  cursor := by
    intro i l' hl'
    simp only [HierarchicalTimingWheel.reset, getElem?_map, Option.map_eq_some_iff] at hl'
    obtain ⟨l, hl, rfl⟩ := hl'
    exact Nat.zero_lt_of_lt (h.cursor i l hl)
  last := by
    intro l' hl'
    simp only [HierarchicalTimingWheel.reset, length_map, getElem?_map,
      Option.map_eq_some_iff] at hl'
    obtain ⟨l, hl, rfl⟩ := hl'
    exact h.last l hl
  located := by
    intro k loc hk
    simp [HierarchicalTimingWheel.reset] at hk

/-! ## No check fails -/

lemma slotGapSeconds_ne_zero (w : HierarchicalTimingWheel) : w.slotGapSeconds ≠ 0 := by
  unfold slotGapSeconds
  split_ifs with hzero
  · decide
  · exact hzero

lemma deltaTo_nonneg (w : HierarchicalTimingWheel) (k : ℤ) : 0 ≤ w.deltaTo k := by
  simp only [deltaTo]
  split_ifs
  · exact le_rfl
  · omega

/-- The level that is chosen has a granularity: a range of zero is below no distance. -/
lemma checked_findBucketFrom {delta : ℤ} (hdelta : 0 ≤ delta) :
    ∀ (levels : List WheelLevel) (i : ℕ) (elapsed : ℤ), (∀ l ∈ levels, 0 < l.bucketCount) →
      (∀ l, levels[levels.length - 1]? = some l → l.granularity ≠ 0) →
      Checked.findBucketFrom delta i elapsed levels
        = .ok (findBucketFrom delta i elapsed levels) := by
  intro levels
  induction levels with
  | nil => exact fun _ _ _ _ => rfl
  | cons l rest ih =>
    intro i elapsed hcount hlast
    rw [Checked.findBucketFrom, findBucketFrom]
    by_cases hhere : delta < wrap64 (l.granularity * l.bucketCount) ∨ rest = []
    · have hgranularity : l.granularity ≠ 0 := by
        rcases hhere with hless | rfl
        · intro hzero
          rw [hzero, zero_mul, wrap64_of_mem (by decide)] at hless
          omega
        · exact hlast l rfl
      have hbuckets : (l.bucketCount : ℤ) ≠ 0 := by
        have := hcount l mem_cons_self
        omega
      simp only [if_pos hhere, div_eq_ok _ hgranularity, mod_eq_ok _ hbuckets, ok_bind]
      rfl
    · simp only [if_neg hhere]
      refine ih _ _ (fun l' hl' => hcount l' (mem_cons_of_mem l hl')) fun l' hl' => ?_
      cases rest with
      | nil => simp at hl'
      | cons l'' rest => exact hlast l' hl'

section

variable (h : w.Safe) {loc : SlotLoc} {level : ℕ} {l : WheelLevel}
include h

lemma checked_findBucket (k : ℤ) :
    Checked.findBucket w (w.deltaTo k) = .ok (w.findBucket (w.deltaTo k)) :=
  checked_findBucketFrom (w.deltaTo_nonneg k) _ _ _ h.wellFormed.count_pos h.last

omit h in
lemma checked_bucketAt (hloc : w.Names loc) : ∃ bucket, Checked.bucketAt w loc = .ok bucket := by
  obtain ⟨l, hl, hlt⟩ := hloc
  refine ⟨l.buckets[loc.bucket], ?_⟩
  rw [Checked.bucketAt, index_eq_ok hl, ok_bind]
  exact index_eq_ok (getElem?_eq_getElem hlt)

omit h in
lemma checked_place (hloc : w.Names loc) (k : ℤ) : Checked.place w loc k = .ok (w.place loc k) := by
  obtain ⟨bucket, hbucket⟩ := checked_bucketAt hloc
  rw [Checked.place, hbucket]
  rfl

omit h in
lemma checked_init (now : ℤ) : Checked.init w now = .ok (w.init now) := by
  rw [Checked.init, init]
  split_ifs
  · rfl
  · rw [div_eq_ok now w.slotGapSeconds_ne_zero]
    rfl

lemma Safe.started (k : ℤ) : (w.started k).Safe := by
  refine h.of_levels (started_levels k) fun k' loc hk' => ?_
  rw [started_slotLocation] at hk'
  exact h.located k' loc hk'

lemma checked_add (k : ℤ) : Checked.add w k = .ok (w.add k) ∧ (w.add k).Safe := by
  have hstarted := h.started k
  obtain ⟨loc, hfind, hloc, hadd⟩ := h.wellFormed.add_eq k
  have hbegin : Checked.started w k = .ok (w.started k) := by
    rw [Checked.started, started, div_eq_ok _ w.slotGapSeconds_ne_zero]
    split_ifs <;> rfl
  rw [Checked.add, hbegin, ok_bind, checked_findBucket hstarted, ok_bind, hadd]
  rw [bucketFor] at hfind
  rw [hfind]
  exact ⟨checked_place hloc k, hstarted.place hloc k⟩

lemma checked_remove (k : ℤ) : Checked.remove w k = .ok (w.remove k) := by
  rw [Checked.remove]
  split
  · next loc hloc =>
      obtain ⟨bucket, hbucket⟩ := checked_bucketAt (h.located k loc hloc)
      rw [hbucket]
      rfl
  · rfl

lemma checked_cascadeKey (level : ℕ) (k : ℤ) :
    Checked.cascadeKey level w k = .ok (cascadeKey level w k) ∧ (cascadeKey level w k).Safe := by
  obtain ⟨loc, hfind, hloc⟩ := h.wellFormed.findBucket (w.deltaTo k)
  rw [Checked.cascadeKey, cascadeKey, checked_findBucket h, ok_bind, hfind]
  simp only []
  split_ifs
  · exact ⟨checked_place hloc k, h.place hloc k⟩
  · exact ⟨rfl, h.toOverflow k⟩

lemma Safe.index_current (hl : w.levels[level]? = some l) :
    index l.buckets l.current = .ok (l.bucket l.current) := by
  have hlt : l.current < l.buckets.length := by
    rw [h.wellFormed.length_eq l (mem_of_getElem? hl)]
    exact h.cursor level l hl
  rw [index_eq_ok (getElem?_eq_getElem hlt), WheelLevel.bucket,
    getD_eq_getElem?_getD, getElem?_eq_getElem hlt, Option.getD_some]

lemma checked_cascadeLevel (hl : w.levels[level]? = some l) :
    Checked.cascadeLevel level l w = .ok (cascadeLevel level l w) ∧
      (cascadeLevel level l w).Safe := by
  have hcleared : ({ w with levels := w.levels.modify level (·.clear l.current) } :
      HierarchicalTimingWheel).Safe :=
    h.modify rfl (fun _ => rfl) (fun _ => rfl) (fun _ => length_modify _ _ _)
      (fun _ hlt => hlt) h.located
  have hcursor := h.cursor level l hl
  have hbucket := h.index_current hl
  have hkeys : ∀ s, ∀ k ∈ l.bucket l.current, s.Safe →
      Checked.cascadeKey level s k = .ok (cascadeKey level s k) ∧ (cascadeKey level s k).Safe :=
    fun s k _ hs => checked_cascadeKey hs level k
  obtain ⟨hloop, hkept⟩ := foldlM_eq_ok hkeys hcleared
  simp only [Checked.cascadeLevel, hbucket, ok_bind, hloop,
    mod_eq_ok _ (by omega : (l.bucketCount : ℤ) ≠ 0)]
  exact ⟨rfl, hkept.modify rfl (fun _ => rfl) (fun _ => rfl) (fun _ => rfl) Safe.turn_lt
    hkept.located⟩

end

lemma checked_cascadeFrom (left : ℕ) : ∀ (level : ℕ) {w : HierarchicalTimingWheel}, w.Safe →
    Checked.cascadeFrom left level w = .ok (cascadeFrom left level w) ∧
      (cascadeFrom left level w).Safe := by
  induction left with
  | zero => exact fun _ _ h => ⟨rfl, h⟩
  | succ left ih =>
    intro level w h
    rw [Checked.cascadeFrom, cascadeFrom]
    cases hl : w.levels[level]? with
    | none => exact ⟨rfl, h⟩
    | some l =>
      obtain ⟨hlevel, hkept⟩ := checked_cascadeLevel h hl
      simp only [hlevel, ok_bind]
      split_ifs
      · exact ih (level + 1) hkept
      · exact ⟨rfl, hkept⟩

section

variable (h : w.Safe)
include h

/-- **A round of `Advance`.** -/
lemma checked_tick : Checked.tick w = .ok w.tick ∧ w.tick.1.Safe := by
  obtain ⟨l, hl⟩ : ∃ l, w.levels[0]? = some l := by
    cases hlevels : w.levels with
    | nil => exact absurd hlevels h.wellFormed.levels_ne
    | cons l rest => exact ⟨l, rfl⟩
  have hbucket := h.index_current hl
  have hcount := h.cursor 0 l hl
  have hdrained := h.drain l
  obtain ⟨hcascade, hkept⟩ := checked_cascadeFrom ((w.drain l).levels.length - 1) 1 hdrained
  simp only [Checked.tick, tick, hl, index_eq_ok hl, hbucket, ok_bind,
    mod_eq_ok _ (by omega : (l.bucketCount : ℤ) ≠ 0)]
  split_ifs
  · rw [Checked.cascade, hcascade]
    exact ⟨rfl, hkept⟩
  · exact ⟨rfl, hdrained⟩

omit h in
lemma checked_advanceLoop (newBase : ℤ) (rounds : ℕ) : ∀ {w : HierarchicalTimingWheel}
    (ready : List ℤ), w.Safe →
    Checked.advanceLoop newBase rounds (w, ready) = .ok (advanceLoop newBase rounds (w, ready)) ∧
      (advanceLoop newBase rounds (w, ready)).1.Safe := by
  induction rounds with
  | zero => exact fun _ h => ⟨rfl, h⟩
  | succ rounds ih =>
    intro w ready h
    obtain ⟨htick, hkept⟩ := checked_tick h
    simp only [Checked.advanceLoop, advanceLoop, htick, ok_bind]
    split_ifs
    · exact ih (ready ++ w.tick.2) hkept
    · exact ⟨rfl, h⟩

omit h in
lemma checked_reenter {s : HierarchicalTimingWheel × List ℤ} (hs : s.1.Safe) (deltaMax k : ℤ) :
    Checked.reenter deltaMax s k = .ok (reenter deltaMax s k) ∧ (reenter deltaMax s k).1.Safe := by
  obtain ⟨loc, hfind, hloc⟩ := hs.wellFormed.findBucket (s.1.deltaTo k)
  simp only [Checked.reenter, reenter, checked_findBucket hs, ok_bind, hfind,
    checked_place hloc]
  split_ifs
  · exact ⟨rfl, hs.place hloc k⟩
  · exact ⟨rfl, hs⟩

lemma checked_reenterOverflow :
    Checked.reenterOverflow w = .ok w.reenterOverflow ∧ w.reenterOverflow.Safe := by
  have hkeys : ∀ s : HierarchicalTimingWheel × List ℤ, ∀ k ∈ w.overflow, s.1.Safe →
      Checked.reenter w.totalCoverage s k = .ok (reenter w.totalCoverage s k) ∧
        (reenter w.totalCoverage s k).1.Safe :=
    fun s k _ hs => checked_reenter hs w.totalCoverage k
  obtain ⟨hloop, hkept⟩ := foldlM_eq_ok (I := fun s => s.1.Safe) (s := (w, [])) hkeys h
  rw [Checked.reenterOverflow, hloop]
  exact ⟨rfl, hkept.of_levels rfl hkept.located⟩

/-- **`Advance`.** -/
lemma checked_advance (now : ℤ) :
    Checked.advance w now = .ok (w.advance now) ∧ (w.advance now).1.Safe := by
  obtain ⟨hloop, hkept⟩ := checked_advanceLoop (w.baseAt now)
    (w.baseAt now - w.currentBase).toNat [] h
  obtain ⟨hreenter, hkept'⟩ := checked_reenterOverflow hkept
  rw [Checked.advance, advance, div_eq_ok now w.slotGapSeconds_ne_zero]
  split_ifs
  · exact ⟨rfl, h⟩
  · simp only [ok_bind]
    change (if w.baseAt now ≤ w.currentBase then _ else _) = _ ∧ _
    split_ifs
    · exact ⟨rfl, h⟩
    · change (Checked.advanceLoop (w.baseAt now) (w.baseAt now - w.currentBase).toNat (w, [])
        >>= _) = _ ∧ _
      rw [hloop, ok_bind, hreenter, ok_bind]
      exact ⟨rfl, hkept'.of_levels rfl fun k loc hk => hkept'.located k loc (lookup_of_forget hk)⟩

omit h in
lemma checked_firstBucketFrom {l : WheelLevel} (hcount : 0 < l.bucketCount)
    (hlength : l.buckets.length = l.bucketCount) (offsets : List ℕ) :
    Checked.firstBucketFrom l offsets
      = .ok (((offsets.map fun offset => l.bucket ((l.current + offset) % l.bucketCount)).find?
          fun b => !b.isEmpty).getD []) := by
  induction offsets with
  | nil => rfl
  | cons offset rest ih =>
    have hmod : mod ((l.current : ℤ) + offset) l.bucketCount
        = .ok (((l.current + offset) % l.bucketCount : ℕ) : ℤ) := by
      rw [mod_eq_ok _ (by omega), Int.tmod_eq_emod_of_nonneg (by omega)]
      push_cast
      rfl
    have hlt : (l.current + offset) % l.bucketCount < l.buckets.length := by
      rw [hlength]
      exact Nat.mod_lt _ hcount
    have hbucket : index l.buckets ((l.current + offset) % l.bucketCount)
        = .ok (l.bucket ((l.current + offset) % l.bucketCount)) := by
      rw [index_eq_ok (getElem?_eq_getElem hlt), WheelLevel.bucket,
        getD_eq_getElem?_getD, getElem?_eq_getElem hlt, Option.getD_some]
    simp only [Checked.firstBucketFrom, hmod, ok_bind, Int.toNat_natCast, hbucket, map_cons,
      find?_cons]
    cases hempty : (l.bucket ((l.current + offset) % l.bucketCount)).isEmpty with
    | true => simpa using ih
    | false => simp; rfl

lemma checked_peekMin : Checked.peekMin w = .ok w.peekMin := by
  have hlevel : ∀ (m : ℤ), ∀ l ∈ w.levels, True → ((do
      let bucket ← Checked.firstBucketFrom l (range l.bucketCount)
      pure (bucket.foldl w.minSlotTime m) : Except Panic ℤ)
        = .ok ((firstBucket l).foldl w.minSlotTime m)) ∧ True := by
    intro m l hl _
    rw [checked_firstBucketFrom (h.wellFormed.count_pos l hl) (h.wellFormed.length_eq l hl)]
    exact ⟨rfl, trivial⟩
  rw [Checked.peekMin, peekMin]
  split_ifs
  · rfl
  · rw [(foldlM_eq_ok (I := fun _ => True) hlevel trivial).1]
    rfl

end

end HierarchicalTimingWheel

/-! ## Construction -/

/-- One level as it is allocated. -/
def newWheelLevelChecked (cfg : WheelLevelConfig) : Except Panic WheelLevel := do
  let buckets ← makeSlice cfg.buckets []
  pure
    { granularity := seconds cfg.granularity
      bucketCount := cfg.buckets.toNat
      buckets := buckets
      current := 0 }

def newHierarchicalTimingWheelChecked (slotGap : Duration) (configs : List WheelLevelConfig) :
    Except Panic HierarchicalTimingWheel := do
  let levels ← (if configs = [] then defaultWheelConfigs slotGap else configs).mapM
    newWheelLevelChecked
  pure
    { levels := levels
      currentBase := 0
      slotGap := slotGap
      slotLocation := ∅
      overflow := []
      initialized := false }

/-- Configurations from which a safe wheel can be made. -/
structure SafeConfigs (configs : List WheelLevelConfig) : Prop where
  ne_nil : configs ≠ []
  buckets : ∀ c ∈ configs, 1 ≤ c.buckets ∧ c.buckets ≤ maxSliceLen
  last : ∀ c ∈ configs.getLast?, seconds c.granularity ≠ 0

section

variable {configs : List WheelLevelConfig} (h : SafeConfigs configs) (slotGap : Duration)
include h

lemma mapM_newWheelLevelChecked :
    configs.mapM newWheelLevelChecked = .ok (configs.map newWheelLevel) := by
  have hbuckets := h.buckets
  clear h
  induction configs with
  | nil => rfl
  | cons c rest ih =>
    obtain ⟨hlow, hhigh⟩ := hbuckets c mem_cons_self
    have hlevel : newWheelLevelChecked c = .ok (newWheelLevel c) := by
      rw [newWheelLevelChecked, makeSlice, if_pos ⟨by omega, hhigh⟩]
      rfl
    rw [mapM_cons, hlevel, ok_bind, ih fun c' hc' => hbuckets c' (mem_cons_of_mem c hc')]
    rfl

/-- **The constructor.** -/
lemma newHierarchicalTimingWheelChecked_eq :
    newHierarchicalTimingWheelChecked slotGap configs
      = .ok (newHierarchicalTimingWheel slotGap configs) := by
  rw [newHierarchicalTimingWheelChecked, newHierarchicalTimingWheel, if_neg h.ne_nil,
    mapM_newWheelLevelChecked h]
  rfl

lemma safe_new : (newHierarchicalTimingWheel slotGap configs).Safe where
  wellFormed := wellFormed_new fun c hc => (h.buckets c hc).1
  cursor := by
    intro i l hl
    simp only [newHierarchicalTimingWheel, if_neg h.ne_nil, getElem?_map,
      Option.map_eq_some_iff] at hl
    obtain ⟨c, hc, rfl⟩ := hl
    have hpos := (h.buckets c (mem_of_getElem? hc)).1
    simp only [newWheelLevel]
    omega
  last := by
    intro l hl
    simp only [newHierarchicalTimingWheel, if_neg h.ne_nil, length_map, getElem?_map,
      Option.map_eq_some_iff] at hl
    obtain ⟨c, hc, rfl⟩ := hl
    exact h.last c (by rw [getLast?_eq_getElem?]; exact hc)
  located := by
    intro k loc hk
    simp [newHierarchicalTimingWheel] at hk

end

end ScheduledDb
