import Mathlib.Algebra.BigOperators.Fin
import ScheduledDb.Core.Timer
import ScheduledDb.Slots.TimingWheel.Advance

/-!
# Exact firing

A wheel of chain geometry whose clock moves one slot at a time *is* the ideal timer: `Tracks` says
that the two stand at the same slot and hold the same keys, `Tracks.add` and `Tracks.advance` that
both calls keep it so, and `exact_firing` reads off what every `Advance` of every run returns.

The chain has to be one of whole seconds.  The constructor cuts the fraction off every granularity
by itself, so that a slot gap of 1.5 s gives levels of 1 s and 3 s, which are no chain of two
buckets; a key is then returned late.  And the distance of a key from the base must fit in 64 bits:
one that wraps around looks like a slot of the past.
-/

namespace ScheduledDb

open Machine Odometer IdealTimer List

/-! ## Configurations that form a chain -/

/-- Each level's granularity is the range of the level before it. -/
def ChainFrom : Duration → List WheelLevelConfig → Prop
  | _, [] => True
  | g, c :: rest => c.granularity = g ∧ 1 ≤ c.buckets ∧ ChainFrom (g * c.buckets) rest

instance : ∀ (g : Duration) (configs : List WheelLevelConfig), Decidable (ChainFrom g configs)
  | _, [] => .isTrue trivial
  | g, c :: rest =>
    have := instDecidableChainFrom (g * c.buckets) rest
    inferInstanceAs
      (Decidable (c.granularity = g ∧ 1 ≤ c.buckets ∧ ChainFrom (g * c.buckets) rest))

/-- A chain of at least two levels, with a slot gap of `gap` whole seconds and a total range that
64 bits hold. -/
structure ChainConfigs (slotGap : Duration) (configs : List WheelLevelConfig) (gap : ℤ) :
    Prop where
  two_le : 2 ≤ configs.length
  chain : ChainFrom slotGap configs
  whole : slotGap = gap * 1000000000
  gap_pos : 0 < gap
  coverage : (configs.map fun c => seconds c.granularity * c.buckets).sum < 9223372036854775808

/-- Bucket counts as the faces of an odometer. -/
def facesOf (configs : List WheelLevelConfig) (i : ℕ) : ℕ :=
  (configs.map fun c => c.buckets.toNat).getD i 1

variable {configs : List WheelLevelConfig} {c : WheelLevelConfig} {g : Duration}

lemma facesOf_of_get {i : ℕ} (h : configs[i]? = some c) : facesOf configs i = c.buckets.toNat := by
  simp [facesOf, getD_eq_getElem?_getD, h]

lemma ChainFrom.buckets_pos :
    ∀ {g : Duration}, ChainFrom g configs → ∀ c ∈ configs, 1 ≤ c.buckets := by
  induction configs with
  | nil =>
    intro g _ c hc
    simp at hc
  | cons c rest ih =>
    rintro g ⟨_, hpos, hrest⟩ c' hc'
    rcases mem_cons.mp hc' with rfl | hc'
    · exact hpos
    · exact ih hrest c' hc'

lemma ChainFrom.first (h : ChainFrom g configs) (hc : configs[0]? = some c) : c.granularity = g := by
  cases configs with
  | nil => simp at hc
  | cons c' rest =>
    obtain rfl : c' = c := by simpa using hc
    exact h.1

lemma ChainFrom.next :
    ∀ {g : Duration} {i : ℕ} {c c' : WheelLevelConfig}, ChainFrom g configs →
      configs[i]? = some c → configs[i + 1]? = some c' →
      c'.granularity = c.granularity * c.buckets := by
  induction configs with
  | nil =>
    intro g i c c' _ hc
    simp at hc
  | cons c0 rest ih =>
    rintro g i c c' ⟨hg, _, hrest⟩ hc hc'
    cases i with
    | zero =>
      obtain rfl : c0 = c := by simpa using hc
      rw [hg]
      exact hrest.first (by simpa using hc')
    | succ i => exact ih hrest (by simpa using hc) (by simpa using hc')

/-- The granularity of level `i` is its width, in slot gaps. -/
lemma ChainFrom.granularity (h : ChainFrom g configs) :
    ∀ (i : ℕ) (c : WheelLevelConfig), configs[i]? = some c →
      c.granularity = span (facesOf configs) i * g := by
  intro i
  induction i with
  | zero =>
    intro c hc
    rw [h.first hc]
    simp
  | succ i ih =>
    intro c' hc'
    have hlt : i < configs.length := by
      have := (List.getElem?_eq_some_iff.mp hc').1
      omega
    have hc : configs[i]? = some configs[i] := List.getElem?_eq_getElem hlt
    have hpos : 1 ≤ (configs[i]).buckets := h.buckets_pos _ (getElem_mem hlt)
    rw [h.next hc hc', ih _ hc, span_succ, facesOf_of_get hc]
    push_cast
    rw [Int.toNat_of_nonneg (by omega)]
    ring

/-! ### In whole seconds

A wheel has its granularities in seconds, each cut off by itself; what counts is the chain that they
form then. -/

/-- The granularities as the wheel has them. -/
def inSeconds (configs : List WheelLevelConfig) : List WheelLevelConfig :=
  configs.map fun c => { c with granularity := seconds c.granularity }

/-- A chain of at least two levels, once all durations are in whole seconds. -/
structure SecondsChain (slotGap : Duration) (configs : List WheelLevelConfig) : Prop where
  two_le : 2 ≤ configs.length
  chain : ChainFrom (seconds slotGap) (inSeconds configs)
  gap_pos : 0 < seconds slotGap
  coverage : (configs.map fun c => seconds c.granularity * c.buckets).sum < 9223372036854775808

lemma facesOf_inSeconds (configs : List WheelLevelConfig) :
    facesOf (inSeconds configs) = facesOf configs := by
  funext i
  simp [facesOf, inSeconds, Function.comp_def]

lemma seconds_mul (g : ℤ) : seconds (g * 1000000000) = g := Int.mul_tdiv_cancel g (by decide)

/-- A chain of whole seconds is one. -/
lemma ChainFrom.inSeconds :
    ∀ {g : ℤ}, ChainFrom (g * 1000000000) configs → ChainFrom g (inSeconds configs) := by
  induction configs with
  | nil =>
    intro g _
    trivial
  | cons c rest ih =>
    rintro g ⟨hg, hpos, hrest⟩
    refine ⟨?_, hpos, ih ?_⟩
    · change seconds c.granularity = g
      rw [hg, seconds_mul]
    · rwa [mul_right_comm] at hrest

namespace SecondsChain

variable {slotGap : Duration} {configs : List WheelLevelConfig} (h : SecondsChain slotGap configs)
include h

lemma buckets_pos : ∀ c ∈ configs, 1 ≤ c.buckets := by
  intro c hc
  exact h.chain.buckets_pos { c with granularity := seconds c.granularity }
    (mem_map_of_mem hc)

lemma seconds_granularity {i : ℕ} {c : WheelLevelConfig} (hc : configs[i]? = some c) :
    seconds c.granularity = span (facesOf configs) i * seconds slotGap := by
  have hget : (inSeconds configs)[i]? = some { c with granularity := seconds c.granularity } := by
    simp [inSeconds, hc]
  have hspan := h.chain.granularity i _ hget
  rwa [facesOf_inSeconds] at hspan

lemma facesOf_pos (i : ℕ) : 0 < facesOf configs i := by
  rcases Nat.lt_or_ge i configs.length with hi | hi
  · have hpos := h.buckets_pos _ (getElem_mem hi)
    rw [facesOf_of_get (getElem?_eq_getElem hi)]
    omega
  · simp [facesOf, getD_eq_getElem?_getD, getElem?_eq_none hi]

lemma sum_range :
    ∑ i ∈ Finset.range configs.length, (span (facesOf configs) (i + 1) : ℤ) * seconds slotGap
      = (configs.map fun c => seconds c.granularity * c.buckets).sum := by
  rw [← Fin.sum_univ_getElem, Finset.sum_range, ← Fin.sum_congr' _ (length_map _)]
  refine Finset.sum_congr rfl fun i _ => ?_
  have hi : (i : ℕ) < configs.length := by simpa using i.2
  have hpos := h.buckets_pos _ (getElem_mem hi)
  have hc : configs[(i : ℕ)]? = some configs[(i : ℕ)] := getElem?_eq_getElem hi
  simp only [Fin.val_cast, getElem_map, h.seconds_granularity hc, span_succ,
    facesOf_of_get hc]
  push_cast
  rw [Int.toNat_of_nonneg (by omega)]
  ring

lemma ne_nil : configs ≠ [] := by
  rintro rfl
  have := h.two_le
  simp at this

/-- The geometry that the wheel has. -/
def geometry : WheelGeometry where
  gap := seconds slotGap
  faces := facesOf configs
  depth := configs.length
  gap_pos := h.gap_pos
  faces_pos := h.facesOf_pos
  two_le_depth := h.two_le
  coverage_lt := by
    rw [h.sum_range]
    exact h.coverage

end SecondsChain

section ChainConfigs

variable {slotGap : Duration} {configs : List WheelLevelConfig} {gap : ℤ}
  (h : ChainConfigs slotGap configs gap)
include h

lemma ChainConfigs.seconds_slotGap : seconds slotGap = gap := by rw [h.whole, seconds_mul]

lemma ChainConfigs.secondsChain : SecondsChain slotGap configs where
  two_le := h.two_le
  chain := by
    rw [h.seconds_slotGap]
    exact ChainFrom.inSeconds (h.whole ▸ h.chain)
  gap_pos := by
    rw [h.seconds_slotGap]
    exact h.gap_pos
  coverage := h.coverage

/-- The geometry of a chain of configurations, with the gap under its own name. -/
def ChainConfigs.geometry : WheelGeometry :=
  { h.secondsChain.geometry with
    gap := gap
    gap_pos := h.gap_pos
    coverage_lt := h.seconds_slotGap ▸ h.secondsChain.geometry.coverage_lt }

end ChainConfigs

/-! ## A fresh wheel -/

namespace HierarchicalTimingWheel

variable {slotGap : Duration} {configs : List WheelLevelConfig} {gap : ℤ} {G : WheelGeometry}
  {w : HierarchicalTimingWheel} {b0 : ℤ} {t : ℕ} {s : Timer}

lemma getElem?_newWheel (h : configs ≠ []) (i : ℕ) :
    (newHierarchicalTimingWheel slotGap configs).levels[i]? = configs[i]?.map newWheelLevel := by
  simp [newHierarchicalTimingWheel, h]

lemma bucket_newWheelLevel (c : WheelLevelConfig) (j : ℕ) : (newWheelLevel c).bucket j = [] := by
  simp only [WheelLevel.bucket, newWheelLevel, getD_eq_getElem?_getD, getElem?_replicate]
  split_ifs
  · rfl
  · rfl

lemma fits_newWheel (h : SecondsChain slotGap configs) :
    (newHierarchicalTimingWheel slotGap configs).Fits h.geometry := by
  have hne := h.ne_nil
  refine ⟨?_, ?_, ?_⟩
  · change (if seconds slotGap = 0 then _ else seconds slotGap) = seconds slotGap
    rw [if_neg h.gap_pos.ne']
  · simp [newHierarchicalTimingWheel, hne, SecondsChain.geometry]
  · intro i l hl
    rw [getElem?_newWheel hne, Option.map_eq_some_iff] at hl
    obtain ⟨c, hc, rfl⟩ := hl
    refine ⟨h.seconds_granularity hc, (facesOf_of_get hc).symm, ?_⟩
    rw [newWheelLevel, length_replicate]
    exact (facesOf_of_get hc).symm

lemma not_at_newWheel (hne : configs ≠ []) (k : ℤ) (i j : ℕ) :
    ¬ (newHierarchicalTimingWheel slotGap configs).At k i j := by
  rintro ⟨l, hl, hk⟩
  rw [getElem?_newWheel hne, Option.map_eq_some_iff] at hl
  obtain ⟨c, _, rfl⟩ := hl
  simp [bucket_newWheelLevel] at hk

lemma not_holds_newWheel (hne : configs ≠ []) (k : ℤ) :
    ¬ (newHierarchicalTimingWheel slotGap configs).Holds k := by
  rintro (⟨i, j, hk⟩ | hk)
  · exact not_at_newWheel hne k i j hk
  · simp [newHierarchicalTimingWheel] at hk

/-- A wheel as it is made: all cursors at the start, and no keys. -/
structure Blank (w : HierarchicalTimingWheel) (G : WheelGeometry) : Prop where
  waiting : w.initialized = false
  fits : w.Fits G
  cursor : ∀ (i : ℕ) (l : WheelLevel), w.levels[i]? = some l → l.current = 0
  empty : ∀ k, ¬ w.Holds k

lemma Blank.overflow_eq (h : w.Blank G) : w.overflow = [] :=
  eq_nil_iff_forall_not_mem.mpr fun k hk => h.empty k (Or.inr hk)

lemma blank_of_secondsChain (h : SecondsChain slotGap configs) :
    (newHierarchicalTimingWheel slotGap configs).Blank h.geometry := by
  refine ⟨rfl, fits_newWheel h, ?_, not_holds_newWheel h.ne_nil⟩
  intro i l hl
  rw [getElem?_newWheel h.ne_nil, Option.map_eq_some_iff] at hl
  obtain ⟨c, _, rfl⟩ := hl
  rfl

lemma blank_newWheel (h : ChainConfigs slotGap configs gap) :
    (newHierarchicalTimingWheel slotGap configs).Blank h.geometry := by
  have hgeometry : h.geometry = h.secondsChain.geometry := by
    simp only [ChainConfigs.geometry, SecondsChain.geometry, h.seconds_slotGap]
  rw [hgeometry]
  exact blank_of_secondsChain h.secondsChain

/-- From a blank wheel on, slots are counted from the base it is given. -/
lemma Blank.start (h : w.Blank G) {b : ℤ} (hb : InRange (b * G.gap)) :
    ({ w with
      currentBase := b * G.gap
      initialized := true } : HierarchicalTimingWheel).Seated G b 0 (G.turns 0) where
  initialized := rfl
  baseRange := hb
  fits := ⟨h.fits.gap, h.fits.depth, h.fits.level⟩
  base := by simp
  cursor := by
    intro i l hl
    rw [h.cursor i l hl]
    simp [WheelGeometry.turns]
  bottom := fun k j hk => absurd (Or.inl ⟨0, j, hk⟩) (h.empty k)
  upper := fun k i j _ hk => absurd (Or.inl ⟨i, j, hk⟩) (h.empty k)
  range := fun k hk => absurd hk (h.empty k)
  nodup := by
    intro i l j hl
    have hnil : l.bucket j = [] :=
      eq_nil_iff_forall_not_mem.mpr fun k hk => h.empty k (Or.inl ⟨i, j, l, hl, hk⟩)
    rw [hnil]
    exact nodup_nil
  overflow_nodup := by
    change w.overflow.Nodup
    rw [h.overflow_eq]
    exact nodup_nil

/-! ## The wheel tracks the ideal timer -/

/-- The wheel stands where the timer stands and holds what is pending. -/
structure Tracks (G : WheelGeometry) (b0 : ℤ) (t : ℕ) (w : HierarchicalTimingWheel) (s : Timer) :
    Prop where
  seated : w.Seated G b0 t (G.turns t)
  far : ∀ k ∈ w.overflow, ¬ Within G b0 t k
  base : s.base = b0 + t
  holds : ∀ k, w.Holds k ↔ k ∈ s.pending
  nonneg : ∀ k, w.Holds k → 0 ≤ k

lemma Tracks.currentBase (h : Tracks G b0 t w s) : w.currentBase = s.base * G.gap := by
  rw [h.seated.base, h.base]

/-- A freshly initialised wheel tracks a timer with nothing pending. -/
lemma Blank.tracks (h : w.Blank G) {now0 : ℤ} (hnow : InRange now0) :
    Tracks G (now0.tdiv G.gap) 0 (w.init now0) ⟨now0.tdiv G.gap, ∅⟩ := by
  have hw : w.init now0 =
      { w with
        currentBase := now0.tdiv G.gap * G.gap
        initialized := true } := by
    rw [init, if_neg (by simp [h.waiting]), h.fits.gap]
  rw [hw]
  refine ⟨h.start (hnow.tdiv_mul G.gap_pos), ?_, by simp, fun k => ?_, fun k hk => ?_⟩
  · intro k hk
    exact absurd (Or.inr hk) (h.empty k)
  · exact iff_of_false (h.empty k) (Set.notMem_empty k)
  · exact absurd hk (h.empty k)

/-- On an initialised wheel `Add` enters the key into a bucket. -/
lemma Seated.add_eq (h : w.Seated G b0 t (G.turns t)) {k : ℤ} (hk : KeyInRange G w.currentBase k) :
    ∃ loc, w.add k = w.place loc k ∧ GoodLoc G (G.turns t) (k - b0 - t).toNat loc := by
  obtain ⟨loc, hfind, hloc⟩ := h.findBucket hk
  refine ⟨loc, ?_, hloc⟩
  simp only [add, h.initialized, if_true, hfind]

/-- **`Add` adds.** -/
lemma Tracks.add (h : Tracks G b0 t w s) {k : ℤ} (hk : 0 ≤ k)
    (hrange : KeyInRange G w.currentBase k) : Tracks G b0 t (w.add k) (s.step (.add k)) := by
  obtain ⟨loc, heq, hloc⟩ := h.seated.add_eq hrange
  have hholds : ∀ k', (w.add k).Holds k' ↔ w.Holds k' ∨ k' = k := by
    intro k'
    rw [heq]
    exact holds_place (h.seated.fits.names hloc.level_lt hloc.bucket_lt) k k'
  refine ⟨?_, ?_, h.base, ?_, ?_⟩
  · rw [heq]
    exact h.seated.place (G.turns_zero t) hrange hloc (G.width_mul_turns_le t loc.level)
  · rw [heq]
    exact h.far
  · intro k'
    rw [hholds, h.holds, or_comm]
    rfl
  · intro k' hk'
    rcases (hholds k').mp hk' with hk' | rfl
    · exact h.nonneg k' hk'
    · exact hk

/-- **An `Advance` over at most one boundary returns what is due.** -/
lemma Tracks.advance (h : Tracks G b0 t w s) {now : ℤ} (hnow : InRange now)
    (hone : w.baseAt now ≤ w.currentBase + w.slotGapSeconds) :
    ∃ t', Tracks G b0 t' (w.advance now).1 (s.step (.reach (now.tdiv G.gap))) ∧
      (w.advance now).2.Nodup ∧
      ∀ k, k ∈ (w.advance now).2 ↔ k ∈ s.due (now.tdiv G.gap) := by
  have hgap := G.gap_pos
  have hbase : w.baseAt now = now.tdiv G.gap * G.gap := by rw [baseAt, h.seated.fits.gap]
  rcases le_or_gt (now.tdiv G.gap) (b0 + t) with hle | hgt
  · -- no boundary: neither side moves
    have hstay : w.baseAt now ≤ w.currentBase := by
      rw [hbase, h.seated.base]
      exact base_le_base hle
    rw [advance_of_le hstay]
    have hmax : max s.base (now.tdiv G.gap) = s.base := max_eq_left (by rw [h.base]; exact hle)
    have hnlt : ¬ s.base < now.tdiv G.gap := by
      rw [h.base]
      omega
    refine ⟨t, ⟨h.seated, h.far, ?_, ?_, h.nonneg⟩, nodup_nil, ?_⟩
    · rw [Timer.step, hmax, h.base]
    · intro k
      rw [h.holds, Timer.step]
      simp [hnlt]
    · intro k
      simp [Timer.due, hnlt]
  · have hnext : now.tdiv G.gap = b0 + (t + 1) := by
      have hle : now.tdiv G.gap * G.gap ≤ (b0 + (t + 1)) * G.gap := by
        rw [← hbase]
        rw [h.seated.base, h.seated.fits.gap] at hone
        linarith
      have := le_of_mul_le_mul_right hle hgap
      omega
    have hrange : InRange (w.baseAt now) := by
      rw [hbase]
      exact hnow.tdiv_mul hgap
    have hkeys : ∀ k, w.Holds k → KeyInRange G (w.baseAt now) k := by
      intro k hk
      obtain ⟨hr1, hr2⟩ := h.seated.range k hk
      have hpos : 0 ≤ k * G.gap := mul_nonneg (h.nonneg k hk) hgap.le
      have hstep : w.currentBase ≤ w.baseAt now := by
        rw [hbase, h.seated.base]
        exact base_le_base (by omega)
      refine ⟨hr1, ?_, ?_⟩
      · have := hrange.2
        omega
      · have := hr2.2
        omega
    have hadv := advance_spec h.seated (n := 1) Nat.one_pos (by rw [hbase, hnext]; simp) hrange
      hkeys
    have hserves := hadv.serves h.far
    have hlt : s.base < now.tdiv G.gap := by
      rw [h.base]
      exact hgt
    refine ⟨t + 1, ⟨hadv.seated, hadv.overflow, ?_, ?_, ?_⟩, hadv.nodup, ?_⟩
    · rw [Timer.step, max_eq_right hlt.le, hnext]
      push_cast
      rfl
    · intro k
      rw [hserves.holds, h.holds, Timer.step, Set.mem_ofPred_eq, hnext]
      exact and_congr_right fun _ => by rw [h.base]; push_cast; omega
    · intro k hk
      exact h.nonneg k ((hserves.holds k).mp hk).1
    · intro k
      rw [hserves.ready, h.holds, Timer.due, Set.mem_ofPred_eq, h.base, hnext]
      push_cast
      constructor
      · rintro ⟨h1, h2⟩
        exact ⟨by omega, h1, by omega⟩
      · rintro ⟨_, h1, h2⟩
        exact ⟨h1, by omega⟩

end HierarchicalTimingWheel

/-! ## Runs -/

/-- A call on the wheel. -/
inductive WheelOp where
  | add (slotKey : ℤ)
  | advance (now : ℤ)
  deriving DecidableEq, Repr

namespace WheelOp

def apply (w : HierarchicalTimingWheel) : WheelOp → HierarchicalTimingWheel
  | add slotKey => w.add slotKey
  | advance now => (w.advance now).1

def run (w : HierarchicalTimingWheel) (ops : List WheelOp) : HierarchicalTimingWheel :=
  ops.foldl apply w

/-- What a run may do next: add a key of non-negative slot, both ends of which are 64-bit times and
whose distance from the base is one too, or advance over at most one slot boundary. -/
def Allowed (w : HierarchicalTimingWheel) : WheelOp → Prop
  | add slotKey =>
    0 ≤ slotKey ∧ InRange ((slotKey + 1) * w.slotGapSeconds) ∧
      InRange (slotKey * w.slotGapSeconds - w.currentBase)
  | advance now => InRange now ∧ w.baseAt now ≤ w.currentBase + w.slotGapSeconds

instance (w : HierarchicalTimingWheel) : ∀ op : WheelOp, Decidable (op.Allowed w)
  | add slotKey => inferInstanceAs (Decidable (0 ≤ slotKey ∧
      InRange ((slotKey + 1) * w.slotGapSeconds) ∧
        InRange (slotKey * w.slotGapSeconds - w.currentBase)))
  | advance now => inferInstanceAs (Decidable (InRange now ∧
      w.baseAt now ≤ w.currentBase + w.slotGapSeconds))

/-- Every operation is allowed in the state it finds. -/
def AllowedRun : HierarchicalTimingWheel → List WheelOp → Prop
  | _, [] => True
  | w, op :: ops => op.Allowed w ∧ AllowedRun (op.apply w) ops

instance : ∀ (w : HierarchicalTimingWheel) (ops : List WheelOp), Decidable (AllowedRun w ops)
  | _, [] => .isTrue trivial
  | w, op :: ops =>
    have := instDecidableAllowedRun (op.apply w) ops
    inferInstanceAs (Decidable (op.Allowed w ∧ AllowedRun (op.apply w) ops))

lemma allowedRun_append {w : HierarchicalTimingWheel} {xs ys : List WheelOp} :
    AllowedRun w (xs ++ ys) ↔ AllowedRun w xs ∧ AllowedRun (run w xs) ys := by
  induction xs generalizing w with
  | nil => simp [AllowedRun, run]
  | cons op xs ih =>
    rw [cons_append, AllowedRun, AllowedRun, ih, and_assoc]
    rfl

/-- The same call on the ideal timer. -/
def event (gap : ℤ) : WheelOp → Event
  | add slotKey => .add slotKey
  | advance now => .reach (now.tdiv gap)

lemma event_eq_add {gap : ℤ} {op : WheelOp} {k : ℤ} (h : op.event gap = .add k) : op = add k := by
  cases op with
  | add k' =>
    obtain rfl : k' = k := by simpa [event] using h
    rfl
  | advance now => simp [event] at h

/-- The timer gets a key exactly where the wheel does. -/
lemma exists_split_iff {gap k : ℤ} {ops : List WheelOp} {P : List Event → Prop} :
    (∃ pre suf, ops.map (event gap) = pre ++ .add k :: suf ∧ P pre) ↔
      ∃ before after, ops = before ++ .add k :: after ∧ P (before.map (event gap)) := by
  constructor
  · rintro ⟨pre, suf, hsplit, hP⟩
    obtain ⟨before, rest, rfl, rfl, hrest⟩ := map_eq_append_iff.mp hsplit
    obtain ⟨op, after, rfl, hop, _⟩ := map_eq_cons_iff.mp hrest
    obtain rfl := event_eq_add hop
    exact ⟨before, after, rfl, hP⟩
  · rintro ⟨before, after, rfl, hP⟩
    refine ⟨before.map (event gap), after.map (event gap), ?_, hP⟩
    rw [map_append, map_cons]
    rfl

end WheelOp

namespace HierarchicalTimingWheel

variable {G : WheelGeometry} {w : HierarchicalTimingWheel} {b0 : ℤ} {t : ℕ} {s : Timer}

/-- One call keeps the wheel on the timer's track. -/
lemma Tracks.step (h : Tracks G b0 t w s) {op : WheelOp} (hop : op.Allowed w) :
    ∃ t', Tracks G b0 t' (op.apply w) (s.step (op.event G.gap)) := by
  cases op with
  | add k =>
    obtain ⟨h0, h1, h2⟩ := hop
    rw [h.seated.fits.gap] at h1 h2
    have hgap := G.gap_pos
    have hpos : 0 ≤ k * G.gap := mul_nonneg h0 hgap.le
    have hlt : k * G.gap ≤ (k + 1) * G.gap := base_le_base (by omega)
    exact ⟨t, h.add h0 ⟨⟨by omega, lt_of_le_of_lt hlt h1.2⟩, h2⟩⟩
  | advance now =>
    obtain ⟨h1, h2⟩ := hop
    obtain ⟨t', ht', _⟩ := h.advance h1 h2
    exact ⟨t', ht'⟩

/-- A whole run does. -/
lemma Tracks.run (ops : List WheelOp) : ∀ {w : HierarchicalTimingWheel} {s : Timer} {t : ℕ},
    Tracks G b0 t w s → WheelOp.AllowedRun w ops →
    ∃ t', Tracks G b0 t' (WheelOp.run w ops) (s.run (ops.map (WheelOp.event G.gap))) := by
  induction ops with
  | nil =>
    intro w s t h _
    exact ⟨t, h⟩
  | cons op ops ih =>
    rintro w s t h ⟨hop, hops⟩
    obtain ⟨t', ht'⟩ := h.step hop
    exact ih ht' hops

lemma Tracks.baseAt (h : Tracks G b0 t w s) (now : ℤ) : w.baseAt now = now.tdiv G.gap * G.gap := by
  rw [HierarchicalTimingWheel.baseAt, h.seated.fits.gap]

/-- A boundary that an allowed `Advance` crosses is the end of the timer's slot. -/
lemma Tracks.tdiv_eq_succ (h : Tracks G b0 t w s) {now : ℤ} (hop : (WheelOp.advance now).Allowed w)
    (hlt : w.currentBase < w.baseAt now) : now.tdiv G.gap = s.base + 1 := by
  have hle := hop.2
  rw [h.baseAt, h.currentBase] at hlt
  rw [h.baseAt, h.currentBase, h.seated.fits.gap, ← add_one_mul] at hle
  have h1 := lt_of_mul_lt_mul_right hlt G.gap_pos.le
  have h2 := le_of_mul_le_mul_right hle G.gap_pos
  omega

/-- The `Advance` calls of a run from a blank wheel on. -/
lemma Blank.fires (hblank : w.Blank G) {now0 : ℤ} (hnow0 : InRange now0) (pre : List WheelOp)
    (now : ℤ) (hrun : WheelOp.AllowedRun (w.init now0) (pre ++ [.advance now])) :
    let w0 := w.init now0
    let w := WheelOp.run w0 pre
    (w.baseAt now ≤ w.currentBase → w.advance now = (w, [])) ∧
      (w.currentBase < w.baseAt now →
        (w.advance now).1.currentBase = w.currentBase + G.gap ∧
        (w.advance now).2.Nodup ∧
        ∀ k, k ∈ (w.advance now).2 ↔
          ∃ before after, pre = before ++ .add k :: after ∧
            (((WheelOp.run w0 before).currentBase ≤ k * G.gap ∧
                (w.advance now).1.currentBase = (k + 1) * G.gap) ∨
              (k * G.gap < (WheelOp.run w0 before).currentBase ∧
                (WheelOp.run w0 before).currentBase = w.currentBase))) := by
  intro w0 w
  have hgap := G.gap_pos
  have hinit := hblank.tracks hnow0
  obtain ⟨hpre, hlast, _⟩ := WheelOp.allowedRun_append.mp hrun
  obtain ⟨t, htrack⟩ := hinit.run pre hpre
  obtain ⟨t', hafter, hnodup, hready⟩ := htrack.advance hlast.1 hlast.2
  -- the base of every wheel of the run is the timer's
  have hbases : ∀ before after, pre = before ++ after →
      (WheelOp.run w0 before).currentBase
        = ((⟨now0.tdiv G.gap, ∅⟩ : Timer).run (before.map (WheelOp.event G.gap))).base * G.gap := by
    intro before after hsplit
    rw [hsplit, WheelOp.allowedRun_append] at hpre
    obtain ⟨t'', htrack''⟩ := hinit.run before hpre.1
    exact htrack''.currentBase
  refine ⟨fun hle => advance_of_le hle, fun hlt => ?_⟩
  set s := (⟨now0.tdiv G.gap, ∅⟩ : Timer).run (pre.map (WheelOp.event G.gap)) with hs
  have hwbase : w.currentBase = s.base * G.gap := htrack.currentBase
  have hnext : now.tdiv G.gap = s.base + 1 := htrack.tdiv_eq_succ hlast hlt
  have hmoved : (w.advance now).1.currentBase = (s.base + 1) * G.gap := by
    have hcur := hafter.currentBase
    change (w.advance now).1.currentBase = (max s.base (now.tdiv G.gap)) * G.gap at hcur
    rw [hcur, hnext, max_eq_right (by omega)]
  refine ⟨by rw [hmoved, hwbase, add_one_mul], hnodup, fun k => ?_⟩
  have hk : k ∈ (w.advance now).2 ↔ k ∈ s.due (now.tdiv G.gap) := hready k
  rw [hk, hnext, mem_due_run, ← hs, WheelOp.exists_split_iff, hmoved, hwbase]
  -- the same calls; what is left is to divide by the gap
  refine exists_congr fun before => exists_congr fun after => and_congr_right fun hsplit => ?_
  rw [hbases before _ hsplit, mul_left_inj' hgap.ne', mul_left_inj' hgap.ne',
    mul_le_mul_iff_left₀ hgap, mul_lt_mul_iff_left₀ hgap]
  omega

/-- **Exact firing.**  Take a wheel of chain configurations initialised at `now0` and any allowed
run `pre` of calls on it; `w` is the wheel the run leaves.  An `Advance` that crosses no slot
boundary returns nothing.  One that crosses a boundary returns, without repetition, exactly the
keys added while their slot had not begun to lie behind the base and whose slot ends at the new
base, and the keys added too late since the base last moved. -/
theorem exact_firing {slotGap : Duration} {configs : List WheelLevelConfig} {gap : ℤ}
    (hchain : ChainConfigs slotGap configs gap) {now0 : ℤ} (hnow0 : InRange now0)
    (pre : List WheelOp) (now : ℤ)
    (hrun : WheelOp.AllowedRun ((newHierarchicalTimingWheel slotGap configs).init now0)
      (pre ++ [.advance now])) :
    let w0 := (newHierarchicalTimingWheel slotGap configs).init now0
    let w := WheelOp.run w0 pre
    (w.baseAt now ≤ w.currentBase → w.advance now = (w, [])) ∧
      (w.currentBase < w.baseAt now →
        (w.advance now).1.currentBase = w.currentBase + gap ∧
        (w.advance now).2.Nodup ∧
        ∀ k, k ∈ (w.advance now).2 ↔
          ∃ before after, pre = before ++ .add k :: after ∧
            (((WheelOp.run w0 before).currentBase ≤ k * gap ∧
                (w.advance now).1.currentBase = (k + 1) * gap) ∨
              (k * gap < (WheelOp.run w0 before).currentBase ∧
                (WheelOp.run w0 before).currentBase = w.currentBase))) :=
  (blank_newWheel hchain).fires hnow0 pre now hrun

/-- Slots of two seconds, two levels of two buckets, initialised at time 5: key 3 is returned by
the `Advance` that ends its slot. -/
theorem exact_firing_two_second_slots :
    ChainConfigs 2000000000 [⟨2000000000, 2⟩, ⟨4000000000, 2⟩] 2 ∧
      3 ∈ ((WheelOp.run
        ((newHierarchicalTimingWheel 2000000000 [⟨2000000000, 2⟩, ⟨4000000000, 2⟩]).init 5)
        [.add 1, .add 3, .advance 6]).advance 8).2 := by
  have hchain : ChainConfigs 2000000000 [⟨2000000000, 2⟩, ⟨4000000000, 2⟩] 2 :=
    ⟨by decide, by decide, by decide, by decide, by decide⟩
  refine ⟨hchain, ?_⟩
  have hnow : InRange 5 := by decide
  have hfire := exact_firing hchain hnow [.add 1, .add 3, .advance 6] 8 (by decide)
  exact ((hfire.2 (by decide)).2.2 3).mpr
    ⟨[.add 1], [.advance 6], rfl, Or.inl ⟨by decide, by decide⟩⟩

/-- Without whole seconds, and without room for the distance of a key, firing is not exact.  With a
slot gap of 1.5 s (slots of one second; levels of 1 s and 3 s) key 3 is not returned when the base
reaches 4 but one slot later.  With slots of one second and the base at -2, the key of the last
64-bit second is returned by the very next `Advance`.  What becomes of a key when the levels cover
more than 64 bits is shown by `early_with_overflowing_coverage`. -/
theorem not_exact_firing :
    (let configs : List WheelLevelConfig := [⟨1500000000, 2⟩, ⟨3000000000, 2⟩]
      let w0 := (newHierarchicalTimingWheel 1500000000 configs).init 0
      let w := WheelOp.run w0 [.add 3, .advance 1, .advance 2, .advance 3]
      ChainFrom 1500000000 configs ∧ w0.slotGapSeconds = 1 ∧
        WheelOp.AllowedRun w0 [.add 3, .advance 1, .advance 2, .advance 3, .advance 4, .advance 5] ∧
        w0.currentBase ≤ 3 * 1 ∧ (w.advance 4).1.currentBase = (3 + 1) * 1 ∧
        (w.advance 4).2 = [] ∧ ((w.advance 4).1.advance 5).2 = [3]) ∧
    (let configs : List WheelLevelConfig := [⟨1000000000, 1⟩, ⟨1000000000, 1⟩]
      let w0 := (newHierarchicalTimingWheel 1000000000 configs).init (-2)
      let k : ℤ := 9223372036854775806
      ChainFrom 1000000000 configs ∧ w0.slotGapSeconds = 1 ∧ InRange ((k + 1) * 1) ∧
        w0.currentBase ≤ k * 1 ∧ (w0.add k).baseAt (-1) ≤ (w0.add k).currentBase + 1 ∧
        ((w0.add k).advance (-1)).1.currentBase = -1 ∧ ((w0.add k).advance (-1)).2 = [k]) := by
  refine ⟨?_, ?_⟩
  · decide
  · decide

end HierarchicalTimingWheel

end ScheduledDb
