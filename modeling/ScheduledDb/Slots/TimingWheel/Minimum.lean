import ScheduledDb.Slots.TimingWheel.CatchUp

/-!
# The minimum that `PeekMin` finds

`PeekMin` looks at the overflow area and, on every level, at the first bucket from the cursor that
is not empty.  On level `0` the buckets come in the order of their slots.  On the levels above two
neighbouring buckets may hold keys in the wrong order, since the bucket of a key depends on where in
its bucket width the base was when the key was added, and the last level wraps far keys around.

`peekMin_iff` says, for all runs, when the smallest key is found: when it is in one of the places
that are looked at (`InSight`), as it always is on level `0`.
-/

namespace ScheduledDb

open Machine Odometer

namespace HierarchicalTimingWheel

variable {w : HierarchicalTimingWheel} {gap : ℤ} {l : WheelLevel} {k : ℤ} {j : ℕ}
  {w' : HierarchicalTimingWheel}

/-! ## The places that are looked at -/

/-- The key is in the first bucket from the cursor that is not empty. -/
def First (l : WheelLevel) (k : ℤ) : Prop :=
  ∃ offset < l.bucketCount, k ∈ l.bucket ((l.current + offset) % l.bucketCount) ∧
    ∀ o < offset, l.bucket ((l.current + o) % l.bucketCount) = []

instance (l : WheelLevel) (k : ℤ) : Decidable (First l k) :=
  inferInstanceAs (Decidable (∃ offset < l.bucketCount, _ ∧ _))

/-- `PeekMin` sees the key. -/
def InSight (w : HierarchicalTimingWheel) (k : ℤ) : Prop :=
  (∃ l ∈ w.levels, First l k) ∨ k ∈ w.overflow

instance (w : HierarchicalTimingWheel) (k : ℤ) : Decidable (w.InSight k) :=
  inferInstanceAs (Decidable (_ ∨ _))

lemma mem_firstBucket : k ∈ firstBucket l ↔ First l k := by
  rw [firstBucket, List.find?_map, First]
  cases hfind : (List.range l.bucketCount).find? ((fun b : List ℤ => !b.isEmpty) ∘ fun offset =>
      l.bucket ((l.current + offset) % l.bucketCount)) with
  | none =>
    rw [List.find?_range_eq_none] at hfind
    simp only [Option.map_none, Option.getD_none, List.not_mem_nil, false_iff]
    rintro ⟨offset, hoffset, hk, -⟩
    have hempty := hfind offset hoffset
    simp only [Function.comp, Bool.not_not, List.isEmpty_iff] at hempty
    rw [hempty] at hk
    exact List.not_mem_nil hk
  | some offset =>
    rw [List.find?_range_eq_some] at hfind
    obtain ⟨hne, hlt, hbefore⟩ := hfind
    simp only [Function.comp, Bool.not_not, List.isEmpty_iff] at hbefore
    simp only [Option.map_some, Option.getD_some]
    constructor
    · intro hk
      exact ⟨offset, List.mem_range.mp hlt, hk, hbefore⟩
    · rintro ⟨offset', -, hk, hbefore'⟩
      -- two first buckets are one
      rcases Nat.lt_trichotomy offset' offset with h | rfl | h
      · rw [hbefore offset' h] at hk
        cases hk
      · exact hk
      · simp [hbefore' offset h] at hne

/-- All keys that `PeekMin` looks at, in its order. -/
def seen (w : HierarchicalTimingWheel) : List ℤ := w.levels.flatMap firstBucket ++ w.overflow

lemma mem_seen : k ∈ w.seen ↔ w.InSight k := by
  simp [seen, InSight, mem_firstBucket]

lemma First.holds (hl : l ∈ w.levels) (h : First l k) : w.Holds k := by
  obtain ⟨offset, -, hk, -⟩ := h
  obtain ⟨i, hi⟩ := List.mem_iff_getElem?.mp hl
  exact Or.inl ⟨i, _, l, hi, hk⟩

lemma InSight.holds (h : w.InSight k) : w.Holds k := by
  rcases h with ⟨l, hl, hk⟩ | hk
  · exact hk.holds hl
  · exact Or.inr hk

/-- Every bucket is so many turns away from the cursor. -/
lemma exists_offset {n : ℕ} (hn : 0 < n) (c : ℕ) (hj : j < n) :
    ∃ offset < n, (c + offset) % n = j := by
  refine ⟨(j + n - c % n) % n, Nat.mod_lt _ hn, ?_⟩
  have hc : c % n < n := Nat.mod_lt c hn
  rw [Nat.add_mod_mod, ← Nat.mod_add_mod, show c % n + (j + n - c % n) = j + n by omega,
    Nat.add_mod_right, Nat.mod_eq_of_lt hj]

/-- A level with keys has a first bucket with keys. -/
lemma exists_first (hwf : w.WellFormed) (hl : l ∈ w.levels) (hk : k ∈ l.bucket j) :
    ∃ k', First l k' := by
  have hj : j < l.bucketCount := hwf.length_eq l hl ▸ WheelLevel.lt_length_of_mem hk
  obtain ⟨offset, hoffset, rfl⟩ := exists_offset (hwf.count_pos l hl) l.current hj
  have hex : ∃ o, l.bucket ((l.current + o) % l.bucketCount) ≠ [] :=
    ⟨offset, List.ne_nil_of_mem hk⟩
  obtain ⟨k', hk'⟩ := List.exists_mem_of_ne_nil _ (Nat.find_spec hex)
  refine ⟨k', Nat.find hex, ?_, hk', fun o ho => not_not.mp (Nat.find_min hex ho)⟩
  exact lt_of_le_of_lt (Nat.find_min' hex (List.ne_nil_of_mem hk)) hoffset

lemma seen_eq_nil_iff (hwf : w.WellFormed) : w.seen = [] ↔ ∀ k, ¬ w.Holds k := by
  constructor
  · rintro hnil k (⟨i, j, l, hl, hk⟩ | hk)
    · have hl := List.mem_of_getElem? hl
      obtain ⟨k', hk'⟩ := exists_first hwf hl hk
      have hmem : k' ∈ w.seen := mem_seen.mpr (Or.inl ⟨l, hl, hk'⟩)
      simp [hnil] at hmem
    · have hmem : k ∈ w.seen := mem_seen.mpr (Or.inr hk)
      simp [hnil] at hmem
  · intro hempty
    refine List.eq_nil_iff_forall_not_mem.mpr fun k hk => ?_
    exact hempty k (mem_seen.mp hk).holds

/-! ## The running minimum -/

/-- The running minimum after the given keys. -/
def Least (w : HierarchicalTimingWheel) (ks : List ℤ) (minTime : ℤ) : Prop :=
  (ks = [] ∧ minTime = -1) ∨
    ∃ k ∈ ks, minTime = w.computeSlotTime k ∧ ∀ k' ∈ ks, w.computeSlotTime k ≤ w.computeSlotTime k'

/-- One more key.  No slot time is mistaken for "none yet". -/
lemma Least.concat {ks : List ℤ} {minTime : ℤ} (h : w.Least ks minTime)
    (hks : ∀ k ∈ ks, 0 ≤ w.computeSlotTime k) (k : ℤ) :
    w.Least (ks ++ [k]) (w.minSlotTime minTime k) := by
  right
  rcases h with ⟨rfl, rfl⟩ | ⟨least, hmem, rfl, hleast⟩
  · exact ⟨k, by simp, by simp [minSlotTime], by simp⟩
  · have hnonneg := hks least hmem
    rw [minSlotTime]
    split_ifs with hlt
    · have hlt : w.computeSlotTime k < w.computeSlotTime least := by omega
      refine ⟨k, by simp, rfl, fun k' hk' => ?_⟩
      rcases List.mem_append.mp hk' with hk' | hk'
      · exact hlt.le.trans (hleast k' hk')
      · rw [List.mem_singleton.mp hk']
    · refine ⟨least, List.mem_append_left _ hmem, rfl, fun k' hk' => ?_⟩
      rcases List.mem_append.mp hk' with hk' | hk'
      · exact hleast k' hk'
      · rw [List.mem_singleton.mp hk']
        omega

lemma least_foldl (ks : List ℤ) (hks : ∀ k ∈ ks, 0 ≤ w.computeSlotTime k) :
    w.Least ks (ks.foldl w.minSlotTime (-1)) := by
  induction ks using List.reverseRecOn with
  | nil => exact Or.inl ⟨rfl, rfl⟩
  | append_singleton ks k ih =>
    rw [List.foldl_append]
    have hks' : ∀ k' ∈ ks, 0 ≤ w.computeSlotTime k' := fun k' hk' =>
      hks k' (List.mem_append_left _ hk')
    exact (ih hks').concat hks' k

lemma peekMin_eq (hrun : w.initialized = true) : w.peekMin = w.seen.foldl w.minSlotTime (-1) := by
  rw [peekMin, hrun, seen, List.foldl_append, List.foldl_flatMap]
  rfl

/-! ## What `Advance` leaves alone -/

/-- The slot gap, and whether the wheel is running. -/
def settings (w : HierarchicalTimingWheel) : Duration × Bool := (w.slotGap, w.initialized)

lemma kept_settings (x : Duration × Bool) : Kept (fun _ => True) fun w => w.settings = x where
  place h _ _ := h
  toOverflow _ h := h
  clear _ _ _ h := h
  turn _ _ h := h

lemma settings_tick {x : Duration × Bool} (h : w.settings = x) (hwf : w.WellFormed) :
    w.tick.1.settings = x := by
  obtain ⟨l, hl⟩ : ∃ l, w.levels[0]? = some l :=
    ⟨_, List.getElem?_eq_getElem (List.length_pos_iff.mpr hwf.levels_ne)⟩
  exact (kept_settings x).tick hwf (fun _ _ => trivial) hl h

lemma settings_advance (hwf : w.WellFormed) (now : ℤ) :
    (w.advance now).1.settings = w.settings := by
  obtain heq | ⟨s, p, rfl, rfl, heq⟩ := w.advance_cases now
  · rw [heq]
  · have hloop := advanceLoop_invariant (fun _ => settings_tick) (w.baseAt now)
      (w.baseAt now - w.currentBase).toNat [] (Eq.refl w.settings) hwf
    rw [heq]
    exact (kept_settings _).reenter (fun _ _ => trivial) hloop

/-! ## Runs -/

/-- Every key is one whose slot time `PeekMin` can tell, and a wheel that is not running is
empty. -/
structure Readable (w : HierarchicalTimingWheel) (gap : ℤ) : Prop where
  wellFormed : w.WellFormed
  gap_eq : w.slotGapSeconds = gap
  waiting : w.initialized = false → ∀ k, ¬ w.Holds k
  keys : ∀ k, w.Holds k → 0 ≤ k ∧ InRange (k * gap)

lemma Readable.computeSlotTime (h : w.Readable gap) (hk : w.Holds k) :
    w.computeSlotTime k = k * gap := by
  rw [HierarchicalTimingWheel.computeSlotTime, h.gap_eq, wrap64_of_mem (h.keys k hk).2]

lemma Readable.peekMin (h : w.Readable gap) (hgap : 0 < gap) : w.Least w.seen w.peekMin := by
  cases hrun : w.initialized with
  | false =>
    refine Or.inl ⟨(seen_eq_nil_iff h.wellFormed).mpr (h.waiting hrun), ?_⟩
    simp [HierarchicalTimingWheel.peekMin, hrun]
  | true =>
    rw [peekMin_eq hrun]
    refine least_foldl w.seen fun k hk => ?_
    have hk := (mem_seen.mp hk).holds
    rw [h.computeSlotTime hk]
    exact mul_nonneg (h.keys k hk).1 hgap.le

/-- **What `PeekMin` says**: the smallest slot time in sight, or `-1` if there is none. -/
lemma Readable.peekMin_eq_iff (h : w.Readable gap) (hgap : 0 < gap) :
    (w.peekMin = -1 ↔ ∀ k, ¬ w.Holds k) ∧
      ∀ m, w.Holds m → (∀ k, w.Holds k → m ≤ k) → (w.peekMin = m * gap ↔ w.InSight m) := by
  have hnil := seen_eq_nil_iff h.wellFormed
  rcases h.peekMin hgap with ⟨hempty, hmin⟩ | ⟨k, hk, hmin, hleast⟩
  · refine ⟨iff_of_true hmin (hnil.mp hempty), fun m hm => absurd hm (hnil.mp hempty m)⟩
  · have hsight := mem_seen.mp hk
    have hnonneg := (h.keys k hsight.holds).1
    rw [h.computeSlotTime hsight.holds] at hmin hleast
    refine ⟨iff_of_false ?_ fun hempty => hempty k hsight.holds, fun m hm hall => ?_⟩
    · have := mul_nonneg hnonneg hgap.le
      omega
    · constructor
      · intro heq
        have hmk : m = k := Int.eq_of_mul_eq_mul_right hgap.ne' (heq.symm.trans hmin)
        rwa [hmk]
      · intro hm'
        have hle := hleast m (mem_seen.mpr hm')
        rw [h.computeSlotTime hm] at hle
        have hge : k ≥ m := hall k hsight.holds
        have hkm : k = m := le_antisymm (le_of_mul_le_mul_right hle hgap) hge
        rw [hmin, hkm]

lemma slotGapSeconds_congr (h : w'.slotGap = w.slotGap) : w'.slotGapSeconds = w.slotGapSeconds := by
  rw [slotGapSeconds, slotGapSeconds, h]

/-- Fewer keys, and the same settings. -/
lemma Readable.shrink (h : w.Readable gap) (hwf : w'.WellFormed) (hset : w'.settings = w.settings)
    (hkeys : ∀ k, w'.Holds k → w.Holds k) : w'.Readable gap := by
  obtain ⟨hgap, hrun⟩ := Prod.mk.inj hset
  refine ⟨hwf, (slotGapSeconds_congr hgap).trans h.gap_eq, fun hwait k hk => ?_,
    fun k hk => h.keys k (hkeys k hk)⟩
  exact h.waiting (hrun.symm.trans hwait) k (hkeys k hk)

lemma Readable.add (h : w.Readable gap) (hk : 0 ≤ k ∧ InRange (k * gap)) :
    (w.add k).Readable gap := by
  obtain ⟨hwf, hholds⟩ := add_keeps h.wellFormed k
  obtain ⟨loc, -, -, hadd⟩ := h.wellFormed.add_eq k
  have hrun : (w.add k).initialized = true := by
    rw [hadd]
    change (w.started k).initialized = true
    rw [started]
    split_ifs with hinit
    · exact hinit
    · rfl
  have hgapEq : (w.add k).slotGap = w.slotGap := by
    rw [hadd]
    change (w.started k).slotGap = w.slotGap
    rw [started]
    split_ifs <;> rfl
  refine ⟨hwf, (slotGapSeconds_congr hgapEq).trans h.gap_eq, fun hwait => ?_, fun k' hk' => ?_⟩
  · simp [hrun] at hwait
  · rcases (hholds k').mp hk' with hk' | rfl
    · exact h.keys k' hk'
    · exact hk

lemma Readable.init (h : w.Readable gap) (now : ℤ) : (w.init now).Readable gap := by
  refine ⟨h.wellFormed.init now, ?_, ?_, fun k hk => h.keys k ((holds_init now k).mp hk)⟩
  · rw [← h.gap_eq, HierarchicalTimingWheel.init]
    split_ifs <;> rfl
  · rw [HierarchicalTimingWheel.init]
    split_ifs with hrun
    · simp [hrun]
    · simp

lemma Readable.remove (h : w.Readable gap) (k : ℤ) : (w.remove k).Readable gap :=
  h.shrink (h.wellFormed.remove k) (Prod.ext (slotGap_remove w k) (initialized_remove w k))
    fun _ hk => holds_of_remove hk

lemma Readable.advance (h : w.Readable gap) (now : ℤ) : (w.advance now).1.Readable gap :=
  h.shrink (h.wellFormed.advance now) (settings_advance h.wellFormed now) fun k hk =>
    (holds_advance h.wellFormed now k).mpr (Or.inl hk)

lemma Readable.reset (h : w.Readable gap) : w.reset.Readable gap :=
  ⟨h.wellFormed.reset, h.gap_eq, fun _ => not_holds_reset w,
    fun k hk => absurd hk (not_holds_reset w k)⟩

/-! ## Level `0` -/

/-- **The smallest key is in sight if it is on level `0`.**  A key there is as many buckets from the
cursor as its slot is ahead, or in the bucket under the cursor if its slot has begun.  So a bucket
before it would hold a smaller key. -/
lemma Seated.inSight_of_bottom {G : WheelGeometry} {b0 : ℤ} {t : ℕ}
    (h : w.Seated G b0 t (G.turns t)) {m : ℤ} (hleast : ∀ k, w.Holds k → m ≤ k) (hm : w.At m 0 j) :
    w.InSight m := by
  obtain ⟨l, hl, hmem⟩ := hm
  have hcount : l.bucketCount = G.faces 0 := (h.fits.level 0 l hl).count
  have hcur : l.current = t % G.faces 0 := by rw [h.cursor 0 l hl, G.turns_zero]
  have hfaces := G.faces_pos 0
  have hbucket : ∀ o, (l.current + o) % l.bucketCount = (t + o) % G.faces 0 := fun o => by
    rw [hcount, hcur, Nat.mod_add_mod]
  refine Or.inl ⟨l, List.mem_of_getElem? hl, ?_⟩
  rcases h.bottom m j ⟨l, hl, hmem⟩ with ⟨hge, hlt, hj⟩ | ⟨_, hj⟩
  · refine ⟨(m - b0 - t).toNat, by omega, ?_, fun o ho => ?_⟩
    · have hpos : (t + (m - b0 - t).toNat) % G.faces 0 = j := by
        zify
        rw [hj]
        congr 1
        omega
      rwa [hbucket, hpos]
    · refine List.eq_nil_iff_forall_not_mem.mpr fun k hk => ?_
      rw [hbucket] at hk
      have hmk := hleast k (Or.inl ⟨0, _, l, hl, hk⟩)
      rcases h.bottom k _ ⟨l, hl, hk⟩ with ⟨hge', hlt', hj'⟩ | ⟨hlt', _⟩
      · -- both `k` and the slot `o` ahead are less than a revolution ahead
        have hmod : ((t + o : ℕ) : ℤ) % G.faces 0 = (k - b0) % G.faces 0 := by exact_mod_cast hj'
        have hdvd : (G.faces 0 : ℤ) ∣ (t + o : ℕ) - (k - b0) :=
          Int.dvd_of_emod_eq_zero (Int.emod_eq_emod_iff_emod_sub_eq_zero.mp hmod)
        have hzero := Int.eq_zero_of_abs_lt_dvd hdvd (abs_lt.mpr ⟨by omega, by omega⟩)
        omega
      · omega
  · refine ⟨0, by omega, ?_, fun o ho => absurd ho (Nat.not_lt_zero o)⟩
    rwa [hbucket, Nat.add_zero, ← hj]

end HierarchicalTimingWheel

namespace WheelCall

open HierarchicalTimingWheel

variable {w : HierarchicalTimingWheel} {gap : ℤ}

/-- The keys that are added are not negative, and their slot times are 64-bit numbers. -/
def AddsInRange (gap : ℤ) : WheelCall → Prop
  | add slotKey => 0 ≤ slotKey ∧ InRange (slotKey * gap)
  | _ => True

instance (gap : ℤ) : ∀ call : WheelCall, Decidable (call.AddsInRange gap)
  | add slotKey => inferInstanceAs (Decidable (0 ≤ slotKey ∧ InRange (slotKey * gap)))
  | init _ => isTrue trivial
  | remove _ => isTrue trivial
  | advance _ => isTrue trivial
  | reset => isTrue trivial

lemma readable_act (h : w.Readable gap) {call : WheelCall} (hcall : call.AddsInRange gap) :
    (call.act w).Readable gap := by
  cases call with
  | init now => exact h.init now
  | add slotKey => exact h.add hcall
  | remove slotKey => exact h.remove slotKey
  | advance now => exact h.advance now
  | reset => exact h.reset

lemma readable_run (calls : List WheelCall) : ∀ {w : HierarchicalTimingWheel}, w.Readable gap →
    (∀ call ∈ calls, call.AddsInRange gap) → (calls.foldl act w).Readable gap := by
  induction calls with
  | nil => exact fun h _ => h
  | cons call calls ih =>
    intro w h hcalls
    exact ih (readable_act h (hcalls call List.mem_cons_self))
      fun call' hmem => hcalls call' (List.mem_cons_of_mem call hmem)

lemma readable_new {slotGap : Duration} {configs : List WheelLevelConfig}
    (hbuckets : ∀ cfg ∈ configs, 1 ≤ cfg.buckets) :
    (newHierarchicalTimingWheel slotGap configs).Readable
      (newHierarchicalTimingWheel slotGap configs).slotGapSeconds := by
  have hempty : ∀ k, ¬ (newHierarchicalTimingWheel slotGap configs).Holds k := by
    intro k
    rw [holds_iff_mem_keys]
    simp [keys, newHierarchicalTimingWheel, newWheelLevel]
  exact ⟨wellFormed_new hbuckets, rfl, fun _ => hempty, fun k hk => absurd hk (hempty k)⟩

/-- The gap of a wheel is positive, that of a new one with a gap of less than a second included. -/
lemma slotGapSeconds_pos {slotGap : Duration} (h : 0 ≤ slotGap) (configs : List WheelLevelConfig) :
    0 < (newHierarchicalTimingWheel slotGap configs).slotGapSeconds := by
  have hsec : 0 ≤ seconds slotGap := Int.tdiv_nonneg h (by decide)
  change 0 < if seconds slotGap = 0 then seconds defaultSlotGap else seconds slotGap
  split_ifs with hzero
  · decide
  · omega

/-- **The minimum.**  Take a wheel and any run of calls on it that adds only keys that are not
negative, with 64-bit slot times; `w` is the wheel the run leaves.  `PeekMin` says `-1` exactly if
the wheel is empty.  It says the slot time of the smallest key exactly if that key is in sight.  It
is on level `0` of a chain of two levels or more, if the run has stayed within 64 bits. -/
theorem peekMin_iff {slotGap : Duration} {configs : List WheelLevelConfig}
    (hbuckets : ∀ cfg ∈ configs, 1 ≤ cfg.buckets) (hgap : 0 ≤ slotGap) (calls : List WheelCall)
    (hcalls : ∀ call ∈ calls,
      call.AddsInRange (newHierarchicalTimingWheel slotGap configs).slotGapSeconds) :
    let gap := (newHierarchicalTimingWheel slotGap configs).slotGapSeconds
    let w := calls.foldl act (newHierarchicalTimingWheel slotGap configs)
    (w.peekMin = -1 ↔ ∀ k, ¬ w.Holds k) ∧
      ∀ m, w.Holds m → (∀ k, w.Holds k → m ≤ k) →
        (w.peekMin = m * gap ↔ w.InSight m) ∧
          (ChainConfigs slotGap configs gap →
            Run.Along act (fun w call => call.NoOverflow w)
              (newHierarchicalTimingWheel slotGap configs) calls →
            ∀ j, w.At m 0 j → w.InSight m) := by
  intro gap w
  have hreadable : w.Readable gap := readable_run calls (readable_new hbuckets) hcalls
  have hpos : 0 < gap := slotGapSeconds_pos hgap configs
  obtain ⟨hempty, hmin⟩ := hreadable.peekMin_eq_iff hpos
  refine ⟨hempty, fun m hm hleast => ⟨hmin m hm hleast, fun hconfigs hbits j hbottom => ?_⟩⟩
  have hstanding : w.Standing hconfigs.geometry :=
    hbits.invariant (I := fun w => w.Standing hconfigs.geometry)
      (fun w call h hcall => standing_act h hcall) (Or.inl (blank_newWheel hconfigs))
  rcases hstanding with hblank | ⟨b0, t, hseated, -⟩
  · exact absurd hm (hblank.empty m)
  · exact hseated.inSight_of_bottom hleast hbottom

/-- Three buckets of a second and four of three seconds.  Slot 6 is on the upper level, in the first
bucket there, and slot 20 wraps around to the last one. -/
theorem peekMin_sees_six :
    let w := [init 0, add 20, add 6, advance 2, add 8].foldl act
      (newHierarchicalTimingWheel 1000000000 smallLevels)
    w.InSight 6 ∧ w.peekMin = 6 * 1 := by
  have hsight : ([init 0, add 20, add 6, advance 2, add 8].foldl act
      (newHierarchicalTimingWheel 1000000000 smallLevels)).InSight 6 := by decide +kernel
  have hleast : ∀ k ∈ ([init 0, add 20, add 6, advance 2, add 8].foldl act
      (newHierarchicalTimingWheel 1000000000 smallLevels)).keys, 6 ≤ k := by decide +kernel
  have hmin := (peekMin_iff (by decide) (by decide)
    [init 0, add 20, add 6, advance 2, add 8] (by decide)).2 6 hsight.holds
      fun k hk => hleast k ((holds_iff_mem_keys _ k).mp hk)
  exact ⟨hsight, hmin.1.mpr hsight⟩

/-- **A minimum that is not seen.**  Slot 6 is added when the base is at 0, to the second bucket of
the upper level, and slot 7 when the base is at 2, to the first one.  `PeekMin` says 7. -/
theorem peekMin_misses_six :
    let w := [init 0, add 6, advance 2, add 7].foldl act
      (newHierarchicalTimingWheel 1000000000 smallLevels)
    ChainConfigs 1000000000 smallLevels 1 ∧ w.Holds 6 ∧ (∀ k, w.Holds k → 6 ≤ k) ∧
      w.peekMin = 7 := by
  have hleast : ∀ k ∈ ([init 0, add 6, advance 2, add 7].foldl act
      (newHierarchicalTimingWheel 1000000000 smallLevels)).keys, 6 ≤ k := by decide +kernel
  exact ⟨⟨by decide, by decide, rfl, by decide, by decide⟩, by decide +kernel,
    fun k hk => hleast k ((holds_iff_mem_keys _ k).mp hk), by decide +kernel⟩

end WheelCall

end ScheduledDb
