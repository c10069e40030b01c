import ScheduledDb.Store.Store

/-!
# Capacity limits

`size_calculator.go`, `memory_tracker.go`, `job_counter.go` and `limit_manager.go` of
`internal/slots`.  The two counters are in the replicated state; checking reads them, recording
hands Raft one command for each.
-/

namespace ScheduledDb

open Machine Program

/-! ## Sizes -/

structure SizeCalculator where
  baseOverhead : ℕ
  deriving DecidableEq, Repr

def newSizeCalculator : SizeCalculator := ⟨128⟩

namespace SizeCalculator

/-- The length of what `json.Marshal` gives. -/
def calculatePayloadSize (payload : Payload) : ℕ := payload.json.utf8ByteSize

/-- `CalculateSize`.  No sum of lengths of texts in memory leaves the 64-bit range. -/
def calculateSize (sc : SizeCalculator) (job : Job) : ℕ :=
  sc.baseOverhead + job.id.utf8ByteSize + job.webhookURL.utf8ByteSize + job.cronExpr.utf8ByteSize
    + (job.payload.map calculatePayloadSize).getD 0 + 64

end SizeCalculator

/-! ## Checks and counters -/

inductive CapacityType where
  | memory
  | jobCount
  deriving DecidableEq, Repr

def CapacityType.text : CapacityType → String
  | .memory => "memory"
  | .jobCount => "job_count"

structure CapacityError where
  type : CapacityType
  current : ℤ
  limit : ℤ
  requested : ℤ := 0
  deriving DecidableEq, Repr

/-- `CapacityError.Error` -/
def CapacityError.message (e : CapacityError) : String :=
  match e.type with
  | .memory =>
    if e.requested > 0 then
      "insufficient memory: current=" ++ toString e.current ++ " bytes, limit="
        ++ toString e.limit ++ " bytes, requested=" ++ toString e.requested ++ " bytes"
    else
      "insufficient memory: current=" ++ toString e.current ++ " bytes, limit="
        ++ toString e.limit ++ " bytes"
  | .jobCount =>
    "maximum jobs reached: current=" ++ toString e.current ++ ", limit=" ++ toString e.limit

/-- `CapacityError.HTTPStatus` -/
def CapacityError.httpStatus (_ : CapacityError) : ℕ := 507

structure MemoryUsage where
  currentBytes : ℤ
  limitBytes : ℤ
  availableBytes : ℤ
  deriving DecidableEq, Repr

/-- A tracker with its limit, an `int64`. -/
structure MemoryTracker where
  memoryLimit : ℤ
  inRange : InRange memoryLimit

namespace MemoryTracker

/-- `GetUsage`, without the percentage. -/
def getUsage (mt : MemoryTracker) : Program Act MemoryUsage := do
  let current ← perform .getMemoryUsage
  pure
    { currentBytes := current
      limitBytes := mt.memoryLimit
      availableBytes := max 0 (wrap64 (mt.memoryLimit - current)) }

def checkCapacity (mt : MemoryTracker) (size : ℤ) : Program Act (Option CapacityError) := do
  let usage ← mt.getUsage
  if wrap64 (usage.currentBytes + size) > usage.limitBytes then
    pure (some ⟨.memory, usage.currentBytes, usage.limitBytes, size⟩)
  else pure none

def incrementUsage (_ : MemoryTracker) (size : ℤ) : Program Act (Option String) :=
  Store.updateMemoryUsage size

def decrementUsage (_ : MemoryTracker) (size : ℤ) : Program Act (Option String) :=
  Store.updateMemoryUsage (-size)

end MemoryTracker

structure JobCounter where
  limit : ℤ
  inRange : InRange limit

namespace JobCounter

def checkCapacity (jc : JobCounter) : Program Act (Option CapacityError) := do
  let current ← perform .getJobCount
  if current ≥ jc.limit then pure (some { type := .jobCount, current := current, limit := jc.limit })
  else pure none

def increment (_ : JobCounter) : Program Act (Option String) := Store.updateJobCount 1

def decrement (_ : JobCounter) : Program Act (Option String) := Store.updateJobCount (-1)

end JobCounter

structure LimitManager where
  memoryTracker : MemoryTracker
  jobCounter : JobCounter
  sizeCalculator : SizeCalculator

namespace LimitManager

/-- The size of a job. -/
def size (lm : LimitManager) (job : Job) : ℤ := lm.sizeCalculator.calculateSize job

def checkCapacity (lm : LimitManager) (job : Job) : Program Act (Option CapacityError) := do
  match ← lm.memoryTracker.checkCapacity (lm.size job) with
  | some err => pure (some err)
  | none => lm.jobCounter.checkCapacity

/-- The two counter updates; the first is taken back if the second fails. -/
def recordJobAdded (lm : LimitManager) (job : Job) : Program Act (Option String) := do
  match ← lm.memoryTracker.incrementUsage (lm.size job) with
  | some err => pure (some err)
  | none => do
      match ← lm.jobCounter.increment with
      | some err => do
          let _ ← lm.memoryTracker.decrementUsage (lm.size job)
          pure (some err)
      | none => pure none

/-- The two counter updates; the first stays if the second fails. -/
def recordJobRemoved (lm : LimitManager) (job : Job) : Program Act (Option String) := do
  match ← lm.memoryTracker.decrementUsage (lm.size job) with
  | some err => pure (some err)
  | none => lm.jobCounter.decrement

end LimitManager

end ScheduledDb
