import Mathlib.Data.Finmap
import ScheduledDb.Core.Int64

/-!
# The hierarchical timing wheel

The wheel of `internal/slots/timing_wheel.go`, function by function.  A level is a ring of
buckets with a cursor; a bucket and the overflow area are sets of slot keys, kept as lists
without repetitions (Go's `map[int64]struct{}`, whose iteration order is unspecified and which
nothing below depends on).  Times are Unix seconds; `slotGap` and the configured granularities
are durations in nanoseconds, as in `time.Duration`.

`findBucket` places a key by its distance from `currentBase`; `advance` moves `currentBase` one
slot gap at a time, draining the level-0 bucket under the cursor (`tick`) and, when a cursor comes
round, redistributing the bucket of the level above (`cascade`).
-/

namespace ScheduledDb

open Machine

/-- `time.Duration`: a number of nanoseconds. -/
abbrev Duration := ℤ

/-- `int64(d.Seconds())`: whole seconds, the fraction cut off.  (The source goes through `float64`,
which is exact for whole seconds and rounds fractions only beyond `2 ^ 23` seconds.) -/
def seconds (d : Duration) : ℤ := d.tdiv 1000000000

def defaultSlotGap : Duration := 10000000000

structure WheelLevelConfig where
  granularity : Duration
  buckets : ℤ
  deriving DecidableEq, Repr

def defaultWheelConfigs (slotGap : Duration) : List WheelLevelConfig :=
  let slotGap := if slotGap = 0 then defaultSlotGap else slotGap
  [{ granularity := slotGap, buckets := 360 },
   { granularity := wrap64 (slotGap * 360), buckets := 24 },
   { granularity := wrap64 (wrap64 (slotGap * 360) * 24), buckets := 365 }]

structure WheelLevel where
  granularity : ℤ
  bucketCount : ℕ
  buckets : List (List ℤ)
  current : ℕ
  deriving DecidableEq, Repr

structure SlotLoc where
  level : ℕ
  bucket : ℕ
  deriving DecidableEq, Repr

structure HierarchicalTimingWheel where
  levels : List WheelLevel
  currentBase : ℤ
  slotGap : Duration
  slotLocation : Finmap fun _ : ℤ => SlotLoc
  overflow : List ℤ
  initialized : Bool

namespace WheelLevel

/-- The keys in bucket `j`. -/
def bucket (l : WheelLevel) (j : ℕ) : List ℤ := l.buckets.getD j []

/-- A key comes into a bucket. -/
def insertKey (l : WheelLevel) (j : ℕ) (slotKey : ℤ) : WheelLevel :=
  { l with buckets := l.buckets.modify j (List.insert slotKey) }

/-- A key is taken out of a bucket. -/
def deleteKey (l : WheelLevel) (j : ℕ) (slotKey : ℤ) : WheelLevel :=
  { l with buckets := l.buckets.modify j (List.filter (· ≠ slotKey)) }

/-- Put a fresh empty bucket at `j`. -/
def clear (l : WheelLevel) (j : ℕ) : WheelLevel :=
  { l with buckets := l.buckets.modify j fun _ => [] }

/-- Move the cursor to the next bucket of the ring. -/
def turn (l : WheelLevel) : WheelLevel :=
  { l with current := (l.current + 1) % l.bucketCount }

end WheelLevel

/-- One level as `NewHierarchicalTimingWheel` allocates it. -/
def newWheelLevel (cfg : WheelLevelConfig) : WheelLevel where
  granularity := seconds cfg.granularity
  bucketCount := cfg.buckets.toNat
  buckets := List.replicate cfg.buckets.toNat []
  current := 0

def newHierarchicalTimingWheel (slotGap : Duration) (configs : List WheelLevelConfig) :
    HierarchicalTimingWheel where
  levels := (if configs = [] then defaultWheelConfigs slotGap else configs).map newWheelLevel
  currentBase := 0
  slotGap := slotGap
  slotLocation := ∅
  overflow := []
  initialized := false

namespace HierarchicalTimingWheel

/-- The slot gap in seconds; a gap below one second falls back to the default. -/
def slotGapSeconds (w : HierarchicalTimingWheel) : ℤ :=
  if seconds w.slotGap = 0 then seconds defaultSlotGap else seconds w.slotGap

def init (w : HierarchicalTimingWheel) (now : ℤ) : HierarchicalTimingWheel :=
  if w.initialized then w
  else
    { w with
      currentBase := now.tdiv w.slotGapSeconds * w.slotGapSeconds
      initialized := true }

def computeSlotTime (w : HierarchicalTimingWheel) (slotKey : ℤ) : ℤ :=
  wrap64 (slotKey * w.slotGapSeconds)

/-- The distance of a key's slot from the base, a past slot counting as due now. -/
def deltaTo (w : HierarchicalTimingWheel) (slotKey : ℤ) : ℤ :=
  let delta := wrap64 (w.computeSlotTime slotKey - w.currentBase)
  if delta < 0 then 0 else delta

/-- The loop of `findBucket`, from level `i` on, with the range of the level before it. -/
def findBucketFrom (delta : ℤ) : ℕ → ℤ → List WheelLevel → Option SlotLoc
  | _, _, [] => none
  | i, elapsed, level :: rest =>
    let levelRange := wrap64 (level.granularity * level.bucketCount)
    if delta < levelRange ∨ rest = [] then
      let bucketsIntoLevel := delta.tdiv level.granularity
      let offset := wrap64 (bucketsIntoLevel - elapsed.tdiv level.granularity)
      let bucket := (wrap64 (level.current + offset)).tmod level.bucketCount
      some ⟨i, (max 0 (min bucket (level.bucketCount - 1))).toNat⟩
    else findBucketFrom delta (i + 1) levelRange rest

def findBucket (w : HierarchicalTimingWheel) (delta : ℤ) : Option SlotLoc :=
  findBucketFrom delta 0 0 w.levels

def totalCoverage (w : HierarchicalTimingWheel) : ℤ :=
  w.levels.foldl (fun total level =>
    wrap64 (total + wrap64 (level.granularity * level.bucketCount))) 0

/-- Enter a key into the bucket `loc` names, and record where it is. -/
def place (w : HierarchicalTimingWheel) (loc : SlotLoc) (slotKey : ℤ) :
    HierarchicalTimingWheel :=
  { w with
    levels := w.levels.modify loc.level (·.insertKey loc.bucket slotKey)
    slotLocation := w.slotLocation.insert slotKey loc }

def add (w : HierarchicalTimingWheel) (slotKey : ℤ) : HierarchicalTimingWheel :=
  let slotTime := w.computeSlotTime slotKey
  let w :=
    if w.initialized then w
    else
      { w with
        currentBase := slotTime.tdiv w.slotGapSeconds * w.slotGapSeconds
        initialized := true }
  match w.findBucket (w.deltaTo slotKey) with
  | none => { w with overflow := w.overflow.insert slotKey }
  | some loc => w.place loc slotKey

def remove (w : HierarchicalTimingWheel) (slotKey : ℤ) : HierarchicalTimingWheel :=
  match w.slotLocation.lookup slotKey with
  | some loc =>
    { w with
      levels := w.levels.modify loc.level (·.deleteKey loc.bucket slotKey)
      slotLocation := w.slotLocation.erase slotKey }
  | none => { w with overflow := w.overflow.filter (· ≠ slotKey) }

/-- One key of a cascaded bucket: down to a lower level, or out to the overflow area. -/
def cascadeKey (level : ℕ) (w : HierarchicalTimingWheel) (slotKey : ℤ) :
    HierarchicalTimingWheel :=
  match w.findBucket (w.deltaTo slotKey) with
  | some loc =>
    if loc.level < level then w.place loc slotKey
    else
      { w with
        overflow := w.overflow.insert slotKey
        slotLocation := w.slotLocation.erase slotKey }
  | none =>
    { w with
      overflow := w.overflow.insert slotKey
      slotLocation := w.slotLocation.erase slotKey }

/-- Empty the bucket under the cursor of one level, hand its keys on, and turn the cursor. -/
def cascadeLevel (level : ℕ) (l : WheelLevel) (w : HierarchicalTimingWheel) :
    HierarchicalTimingWheel :=
  let w := { w with levels := w.levels.modify level (·.clear l.current) }
  let w := (l.bucket l.current).foldl (cascadeKey level) w
  { w with levels := w.levels.modify level WheelLevel.turn }

/-- `cascade(level)`, the recursion bounded by the number of levels left. -/
def cascadeFrom : ℕ → ℕ → HierarchicalTimingWheel → HierarchicalTimingWheel
  | 0, _, w => w
  | left + 1, level, w =>
    match w.levels[level]? with
    | none => w
    | some l =>
      let w := cascadeLevel level l w
      if (l.current + 1) % l.bucketCount = 0 then cascadeFrom left (level + 1) w else w

def cascade (w : HierarchicalTimingWheel) (level : ℕ) : HierarchicalTimingWheel :=
  cascadeFrom (w.levels.length - level) level w

/-- Forget the recorded places of drained keys. -/
def forget (m : Finmap fun _ : ℤ => SlotLoc) (ready : List ℤ) : Finmap fun _ : ℤ => SlotLoc :=
  ready.foldl (fun m slotKey => m.erase slotKey) m

/-- Drain the level-0 bucket under the cursor and turn the cursor, the base having moved on. -/
def drain (w : HierarchicalTimingWheel) (l : WheelLevel) : HierarchicalTimingWheel :=
  { w with
    currentBase := wrap64 (w.currentBase + w.slotGapSeconds)
    levels := w.levels.modify 0 fun l => (l.clear l.current).turn
    slotLocation := forget w.slotLocation (l.bucket l.current) }

/-- One round of the loop in `Advance`: the base moves on by one slot gap. -/
def tick (w : HierarchicalTimingWheel) : HierarchicalTimingWheel × List ℤ :=
  match w.levels[0]? with
  | none => (w, [])
  | some l =>
    let drained := w.drain l
    (if (l.current + 1) % l.bucketCount = 0 then drained.cascade 1 else drained,
      l.bucket l.current)

/-- The loop of `Advance`.  A round moves the base by at least one second, so `newBase -
currentBase` rounds are enough. -/
def advanceLoop (newBase : ℤ) :
    ℕ → HierarchicalTimingWheel × List ℤ → HierarchicalTimingWheel × List ℤ
  | 0, s => s
  | rounds + 1, (w, ready) =>
    if w.currentBase < newBase then
      advanceLoop newBase rounds (w.tick.1, ready ++ w.tick.2)
    else (w, ready)

/-- One key of the overflow area, re-entered when the wheel reaches that far. -/
def reenter (deltaMax : ℤ) (s : HierarchicalTimingWheel × List ℤ) (slotKey : ℤ) :
    HierarchicalTimingWheel × List ℤ :=
  if s.1.deltaTo slotKey < deltaMax then
    match s.1.findBucket (s.1.deltaTo slotKey) with
    | some loc => (s.1.place loc slotKey, s.2 ++ [slotKey])
    | none => s
  else s

/-- The second loop of `Advance`: overflow keys within the total coverage go back into buckets. -/
def reenterOverflow (w : HierarchicalTimingWheel) : HierarchicalTimingWheel :=
  let s := w.overflow.foldl (reenter w.totalCoverage) (w, [])
  { s.1 with overflow := s.1.overflow.filter (· ∉ s.2) }

/-- The last loop of `Advance`: overflow keys whose slot has begun are ready. -/
def promoteOverflow (newBase : ℤ) (w : HierarchicalTimingWheel) :
    HierarchicalTimingWheel × List ℤ :=
  let promoted := w.overflow.filter fun slotKey => w.computeSlotTime slotKey ≤ newBase
  ({ w with
      overflow := w.overflow.filter (· ∉ promoted)
      slotLocation := forget w.slotLocation promoted },
    promoted)

/-- `(now / slotGapSeconds) * slotGapSeconds` -/
def baseAt (w : HierarchicalTimingWheel) (now : ℤ) : ℤ :=
  now.tdiv w.slotGapSeconds * w.slotGapSeconds

def advance (w : HierarchicalTimingWheel) (now : ℤ) : HierarchicalTimingWheel × List ℤ :=
  if !w.initialized then (w, [])
  else
    let newBase := w.baseAt now
    if newBase ≤ w.currentBase then (w, [])
    else
      let s := advanceLoop newBase (newBase - w.currentBase).toNat (w, [])
      let p := promoteOverflow newBase s.1.reenterOverflow
      (p.1, s.2 ++ p.2)

/-- The running minimum of `PeekMin`, `-1` standing for "none yet". -/
def minSlotTime (w : HierarchicalTimingWheel) (minTime slotKey : ℤ) : ℤ :=
  if minTime = -1 ∨ w.computeSlotTime slotKey < minTime then w.computeSlotTime slotKey
  else minTime

/-- The first non-empty bucket of a level in ring order from the cursor. -/
def firstBucket (l : WheelLevel) : List ℤ :=
  (((List.range l.bucketCount).map fun offset =>
    l.bucket ((l.current + offset) % l.bucketCount)).find? fun b => !b.isEmpty).getD []

def peekMin (w : HierarchicalTimingWheel) : ℤ :=
  if !w.initialized then -1
  else
    let minTime := w.levels.foldl (fun m l => (firstBucket l).foldl w.minSlotTime m) (-1)
    w.overflow.foldl w.minSlotTime minTime

def size (w : HierarchicalTimingWheel) : ℕ :=
  w.levels.foldl (fun count l => l.buckets.foldl (fun c b => c + b.length) count) 0
    + w.overflow.length

def reset (w : HierarchicalTimingWheel) : HierarchicalTimingWheel :=
  { w with
    levels := w.levels.map fun l =>
      { l with buckets := l.buckets.map fun _ => [], current := 0 }
    slotLocation := ∅
    overflow := []
    initialized := false }

/-- Key `slotKey` sits in bucket `j` of level `i`. -/
def At (w : HierarchicalTimingWheel) (slotKey : ℤ) (i j : ℕ) : Prop :=
  ∃ l, w.levels[i]? = some l ∧ slotKey ∈ l.bucket j

/-- The wheel holds a key: in some bucket or in the overflow area. -/
def Holds (w : HierarchicalTimingWheel) (slotKey : ℤ) : Prop :=
  (∃ i j, w.At slotKey i j) ∨ slotKey ∈ w.overflow

end HierarchicalTimingWheel

end ScheduledDb
