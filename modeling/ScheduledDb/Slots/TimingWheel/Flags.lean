import ScheduledDb.Node
import ScheduledDb.Slots.TimingWheel.ExactFiring

/-!
# The wheel that the flags give

`main` builds the configuration of the timing wheel from seven flags.  A granularity flag that is left
at zero is derived from the slot gap alone: the second level gets 360 slot gaps and the third one
360 · 24, whatever the numbers of buckets of the levels below are.

With the default numbers, and a slot gap of whole seconds, this is a chain, and the wheel is exact.
`flags_never_late` says so for every choice of flags that makes a chain once the fractions of a second
are cut off; `late_with_181_buckets` is a choice that does not.
-/

namespace ScheduledDb

open Machine

/-- The flags about slots and the timing wheel, with their defaults. -/
structure WheelFlags where
  slotGap : Duration := 10000000000
  level0Granularity : Duration := 0
  level0Buckets : ℤ := 360
  level1Granularity : Duration := 0
  level1Buckets : ℤ := 24
  level2Granularity : Duration := 0
  level2Buckets : ℤ := 365
  deriving DecidableEq, Repr

namespace WheelFlags

variable (flags : WheelFlags)

/-- The `wheelConfigs` of `main`. -/
def wheelConfigs : List WheelLevelConfig :=
  let l0g := if flags.level0Granularity = 0 then flags.slotGap else flags.level0Granularity
  let l1g :=
    if flags.level1Granularity = 0 then wrap64 (flags.slotGap * 360) else flags.level1Granularity
  let l2g :=
    if flags.level2Granularity = 0 then wrap64 (wrap64 (flags.slotGap * 360) * 24)
    else flags.level2Granularity
  [{ granularity := l0g, buckets := flags.level0Buckets },
   { granularity := l1g, buckets := flags.level1Buckets },
   { granularity := l2g, buckets := flags.level2Buckets }]

/-- The queue that `main` makes of the flags. -/
def queue : PersistentSlotQueue :=
  newPersistentSlotQueueWithConfig flags.slotGap flags.wheelConfigs

variable {flags}

lemma queue_wheel (hgap : 0 < seconds flags.slotGap) :
    flags.queue.wheel = newHierarchicalTimingWheel flags.slotGap flags.wheelConfigs := by
  have hne : flags.slotGap ≠ 0 := by
    intro hzero
    rw [hzero] at hgap
    exact absurd hgap (by decide)
  simp [queue, newPersistentSlotQueueWithConfig, hne]

/-- With the default numbers of buckets on the lower levels, a slot gap of whole seconds and a last
level that 64 bits can count in seconds, the levels are a chain. -/
lemma secondsChain_of_default {g : ℤ} (hg : 1 ≤ g) (hgap : flags.slotGap = g * 1000000000)
    (hderived : flags.level0Granularity = 0 ∧ flags.level1Granularity = 0 ∧
      flags.level2Granularity = 0)
    (hbuckets : flags.level0Buckets = 360 ∧ flags.level1Buckets = 24 ∧ 1 ≤ flags.level2Buckets)
    (hfit : g * 8640000000000 < 9223372036854775808)
    (hcoverage : g * 9000 + g * 8640 * flags.level2Buckets < 9223372036854775808) :
    SecondsChain flags.slotGap flags.wheelConfigs := by
  obtain ⟨h0, h1, h2⟩ := hderived
  obtain ⟨hb0, hb1, hb2⟩ := hbuckets
  have hl1 : wrap64 (g * 1000000000 * 360) = g * 360 * 1000000000 := by
    rw [wrap64_of_mem ⟨by omega, by omega⟩]
    omega
  have hl2 : wrap64 (g * 360 * 1000000000 * 24) = g * 8640 * 1000000000 := by
    rw [wrap64_of_mem ⟨by omega, by omega⟩]
    omega
  have hconfigs : flags.wheelConfigs = [⟨g * 1000000000, 360⟩, ⟨g * 360 * 1000000000, 24⟩,
      ⟨g * 8640 * 1000000000, flags.level2Buckets⟩] := by
    simp only [wheelConfigs, h0, h1, h2, if_true, hb0, hb1, hgap, hl1, hl2]
  rw [hconfigs]
  refine ⟨by simp, ?_, ?_, ?_⟩
  · simp only [hgap, inSeconds, List.map_cons, List.map_nil, seconds_mul, ChainFrom]
    exact ⟨trivial, by decide, trivial, by decide, by ring, hb2, trivial⟩
  · rw [hgap, seconds_mul]
    exact hg
  · simp only [List.map_cons, List.map_nil, seconds_mul, List.sum_cons, List.sum_nil]
    omega

/-- **No key is late** in a wheel whose levels are a chain of whole seconds.  The calls of the run are
those of `WheelOp.Allowed`: keys from zero on that stay within 64 bits, and an `Advance` for every
slot boundary. -/
theorem flags_never_late (flags : WheelFlags)
    (hchain : SecondsChain flags.slotGap flags.wheelConfigs) (now0 : ℤ) (hnow0 : InRange now0)
    (before after : List WheelOp) (k now : ℤ)
    (hrun : WheelOp.AllowedRun (flags.queue.wheel.init now0)
      (before ++ .add k :: after ++ [.advance now])) :
    let gap := seconds flags.slotGap
    let w0 := flags.queue.wheel.init now0
    let w := WheelOp.run w0 (before ++ .add k :: after)
    (WheelOp.run w0 before).currentBase ≤ k * gap →
    w.currentBase < (k + 1) * gap → (w.advance now).1.currentBase = (k + 1) * gap →
      k ∈ (w.advance now).2 := by
  intro gap w0 w hadded hbefore hafter
  have hblank := HierarchicalTimingWheel.blank_of_secondsChain hchain
  rw [← queue_wheel hchain.gap_pos] at hblank
  obtain ⟨hstays, hmoves⟩ := hblank.fires hnow0 (before ++ .add k :: after) now hrun
  have hlt : w.currentBase < w.baseAt now := by
    by_contra hle
    have hsame := hstays (not_lt.mp hle)
    rw [hsame] at hafter
    exact hbefore.ne hafter
  exact ((hmoves hlt).2.2 k).mpr ⟨before, after, rfl, Or.inl ⟨hadded, hafter⟩⟩

/-- The default flags: key 361, added to the second level at time 0 and handed down at time 3600, is
returned at time 3620. -/
theorem never_late_by_default :
    let flags : WheelFlags := {}
    let ops : List WheelOp := (List.range 361).map fun i => .advance (10 * (i + 1))
    SecondsChain flags.slotGap flags.wheelConfigs ∧
      361 ∈ ((WheelOp.run (flags.queue.wheel.init 0) ([] ++ .add 361 :: ops)).advance 3620).2 := by
  intro flags ops
  have hchain : SecondsChain flags.slotGap flags.wheelConfigs :=
    secondsChain_of_default (g := 10) (by decide) rfl (by decide) (by decide) (by decide) (by decide)
  refine ⟨hchain, ?_⟩
  exact flags_never_late flags hchain 0 (by decide) [] ops 361 3620 (by decide +kernel)
    (by decide) (by decide +kernel) (by decide +kernel)

/-- **A key is late**: with 181 buckets of one second on the first level, the second bucket of the
second level begins at 360, and is handed down when the base is at 362. -/
theorem late_with_181_buckets :
    let flags : WheelFlags :=
      { slotGap := 1000000000, level0Buckets := 181, level1Buckets := 2, level2Buckets := 1 }
    let ops : List WheelOp := .add 360 :: (List.range 360).map fun i => .advance (i + 1)
    let w := WheelOp.run (flags.queue.wheel.init 0) ops
    WheelOp.AllowedRun (flags.queue.wheel.init 0)
        (ops ++ [.advance 361, .advance 362, .advance 363]) ∧
      (flags.queue.wheel.init 0).currentBase ≤ 360 * seconds flags.slotGap ∧
      (w.advance 361).1.currentBase = (360 + 1) * seconds flags.slotGap ∧
      360 ∉ (w.advance 361).2 ∧
      360 ∈ ((WheelOp.run w [.advance 361, .advance 362]).advance 363).2 := by
  decide +kernel

end WheelFlags

end ScheduledDb
