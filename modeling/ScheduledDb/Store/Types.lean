import Mathlib.Data.Int.Notation
import Mathlib.Tactic.Lemma

/-!
# Jobs, slots, execution states and commands

The record types of `internal/store/types`.  Text enumerations (`JobType`, `JobStatus`,
`CommandType`) are inductive types with one more constructor for any other text, as the Go types
are strings.

Commands travel through the Raft log as JSON, and so does a snapshot.  The encoding is the identity
on every record below except for one field: a payload that is an empty map is dropped
(`omitempty`) and comes back as no payload at all.  `Command.wire` is what the log delivers.
-/

namespace ScheduledDb

inductive JobType where
  | unico
  | recurrente
  | other (text : String)
  deriving DecidableEq, Repr

def JobType.text : JobType → String
  | .unico => "unico"
  | .recurrente => "recurrente"
  | .other text => text

inductive JobStatus where
  | pending
  | inProgress
  | completed
  | failed
  | cancelled
  | timeout
  | other (text : String)
  deriving DecidableEq, Repr

def JobStatus.text : JobStatus → String
  | .pending => "pending"
  | .inProgress => "in_progress"
  | .completed => "completed"
  | .failed => "failed"
  | .cancelled => "cancelled"
  | .timeout => "timeout"
  | .other text => text

/-- A payload, as the text that `json.Marshal` gives for the map. -/
structure Payload where
  json : String
  deriving DecidableEq, Repr

/-- The empty map. -/
def Payload.empty : Payload := ⟨"\x7b\x7d"⟩

structure Job where
  id : String
  type : JobType
  timestamp : Option ℤ := none
  cronExpr : String := ""
  lastDate : Option ℤ := none
  createdAt : ℤ := 0
  webhookURL : String := ""
  payload : Option Payload := none
  deriving DecidableEq, Repr

/-- A job after encoding and decoding: an empty payload is gone. -/
def Job.wire (j : Job) : Job :=
  { j with payload := if j.payload = some Payload.empty then none else j.payload }

lemma Job.wire_wire (j : Job) : j.wire.wire = j.wire := by
  unfold Job.wire
  by_cases h : j.payload = some Payload.empty
  · simp [h]
  · simp [h]

structure SlotData where
  key : ℤ
  minTime : ℤ
  maxTime : ℤ
  jobIDs : List String
  deriving DecidableEq, Repr

structure ExecutionAttempt where
  attemptNum : ℤ
  startTime : ℤ
  endTime : ℤ := 0
  nodeID : String
  status : JobStatus := .other ""
  httpStatus : ℤ := 0
  responseTime : ℤ := 0
  errorMessage : String := ""
  errorType : String := ""
  deriving DecidableEq, Repr

structure JobExecutionState where
  jobID : String
  status : JobStatus
  attemptCount : ℤ := 0
  createdAt : ℤ
  firstAttemptAt : ℤ := 0
  lastAttemptAt : ℤ := 0
  completedAt : ℤ := 0
  cancelledAt : ℤ := 0
  cancellationReason : String := ""
  executingNodeID : String := ""
  attempts : List ExecutionAttempt := []
  deriving DecidableEq, Repr

inductive CommandType where
  | createJob
  | deleteJob
  | createSlot
  | deleteSlot
  | archiveSlot
  | unarchiveSlot
  | updateJobStatus
  | recordAttempt
  | pruneAttempts
  | updateMemoryUsage
  | updateJobCount
  | other (text : String)
  deriving DecidableEq, Repr

structure StatusCommand where
  jobID : String
  status : JobStatus := .other ""
  nodeID : String := ""
  attempt : Option ExecutionAttempt := none
  timestamp : ℤ
  cancellationReason : String := ""
  deriving DecidableEq, Repr

structure Command where
  type : CommandType
  job : Option Job := none
  id : String := ""
  slot : Option SlotData := none
  coldSlot : Option SlotData := none
  statusCommand : Option StatusCommand := none
  attempts : List ExecutionAttempt := []
  memoryDelta : ℤ := 0
  jobCountDelta : ℤ := 0
  deriving DecidableEq, Repr

/-- A command as it comes out of the log. -/
def Command.wire (c : Command) : Command := { c with job := c.job.map Job.wire }

end ScheduledDb
