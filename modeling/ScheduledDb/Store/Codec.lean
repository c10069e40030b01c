import Mathlib.Data.String.Basic
import ScheduledDb.Core.Json
import ScheduledDb.Store.Snapshot

/-!
# The records as JSON

What `encoding/json` makes of the records of `internal/store/types` by their struct tags, for log
entries (`Command.encode`) and for snapshots (`Snapshot.encode`, the anonymous struct of `Persist`),
and how they are read back.  Reading gives the record again, but for three things: an empty payload
is gone, a status, job type or command type is one of the constants if its text is that of one, and
empty lists are not told from `nil` ones.  `read` is the record as it comes out; it changes nothing
the second time.

A state machine that has only ever applied log entries therefore holds records that reading leaves
alone (`Legible`), and its snapshot comes back as it was.
-/

namespace ScheduledDb

open Machine Json

/-! ## Texts -/

namespace JobType

def ofText (text : String) : JobType :=
  if text = "unico" then .unico else if text = "recurrente" then .recurrente else .other text

/-- A job type as it is read back. -/
def read (t : JobType) : JobType := ofText t.text

lemma text_ofText (text : String) : (ofText text).text = text := by
  unfold ofText
  split_ifs with h h
  · exact h.symm
  · exact h.symm
  · rfl

lemma read_read (t : JobType) : t.read.read = t.read := congrArg ofText (text_ofText t.text)

end JobType

namespace JobStatus

def ofText (text : String) : JobStatus :=
  if text = "pending" then .pending
  else if text = "in_progress" then .inProgress
  else if text = "completed" then .completed
  else if text = "failed" then .failed
  else if text = "cancelled" then .cancelled
  else if text = "timeout" then .timeout
  else .other text

/-- A status as it is read back. -/
def read (s : JobStatus) : JobStatus := ofText s.text

lemma text_ofText (text : String) : (ofText text).text = text := by
  unfold ofText
  split_ifs with h h h h h h
  all_goals first | exact h.symm | rfl

lemma read_read (s : JobStatus) : s.read.read = s.read := congrArg ofText (text_ofText s.text)

end JobStatus

namespace CommandType

def text : CommandType → String
  | .createJob => "create_job"
  | .deleteJob => "delete_job"
  | .createSlot => "create_slot"
  | .deleteSlot => "delete_slot"
  | .archiveSlot => "archive_slot"
  | .unarchiveSlot => "unarchive_slot"
  | .updateJobStatus => "update_job_status"
  | .recordAttempt => "record_attempt"
  | .pruneAttempts => "prune_attempts"
  | .updateMemoryUsage => "update_memory_usage"
  | .updateJobCount => "update_job_count"
  | .other text => text

def ofText (text : String) : CommandType :=
  if text = "create_job" then .createJob
  else if text = "delete_job" then .deleteJob
  else if text = "create_slot" then .createSlot
  else if text = "delete_slot" then .deleteSlot
  else if text = "archive_slot" then .archiveSlot
  else if text = "unarchive_slot" then .unarchiveSlot
  else if text = "update_job_status" then .updateJobStatus
  else if text = "record_attempt" then .recordAttempt
  else if text = "prune_attempts" then .pruneAttempts
  else if text = "update_memory_usage" then .updateMemoryUsage
  else if text = "update_job_count" then .updateJobCount
  else .other text

/-- A command type as it is read back. -/
def read (t : CommandType) : CommandType := ofText t.text

end CommandType

/-! ## Jobs and slots -/

namespace Job

/-- A payload is written unless it is empty. -/
def omitPayload (payload : Option Payload) : Option Json :=
  payload.bind fun p => if p = Payload.empty then none else some (.raw p.json)

def readPayload : Json → Option (Option Payload)
  | .null => some none
  | .raw text => some (some ⟨text⟩)
  | _ => none

def encode (j : Job) : Json :=
  .struct
    [("id", some (.str j.id)),
     ("type", some (.str j.type.text)),
     ("timestamp", j.timestamp.map .num),
     ("cron_expression", omitString j.cronExpr),
     ("last_date", j.lastDate.map .num),
     ("created_at", some (.num j.createdAt)),
     ("webhook_url", omitString j.webhookURL),
     ("payload", omitPayload j.payload)]

def decode (data : Json) : Option Job := do
  let id ← data.field "id" readString
  let type ← data.field "type" readString
  let timestamp ← data.field "timestamp" (readPtr readInt)
  let cronExpr ← data.field "cron_expression" readString
  let lastDate ← data.field "last_date" (readPtr readInt)
  let createdAt ← data.field "created_at" readInt
  let webhookURL ← data.field "webhook_url" readString
  let payload ← data.field "payload" readPayload
  return {
    id, type := .ofText type, timestamp, cronExpr, lastDate, createdAt, webhookURL, payload }

/-- A job as it is read back. -/
def read (j : Job) : Job := { j.wire with type := j.type.read }

lemma readPayload_omitPayload (payload : Option Payload) :
    readPayload ((omitPayload payload).getD .null)
      = some (if payload = some Payload.empty then none else payload) := by
  cases payload with
  | none => rfl
  | some p =>
    by_cases hp : p = Payload.empty
    · simp [omitPayload, hp, readPayload]
    · simp [omitPayload, hp, readPayload]

lemma decode_encode (j : Job) : decode j.encode = some j.read := by
  simp [decode, encode, field_struct, List.lookup_cons, readPayload_omitPayload, read, wire,
    JobType.read]

end Job

namespace SlotData

/-- `isNil` says whether an empty list of jobs is a `nil` slice. -/
def encode (isNil : Bool) (s : SlotData) : Json :=
  .struct
    [("key", some (.num s.key)),
     ("min_time", some (.num s.minTime)),
     ("max_time", some (.num s.maxTime)),
     ("job_ids", some (writeList isNil .str s.jobIDs))]

def decode (data : Json) : Option SlotData := do
  let key ← data.field "key" readInt
  let minTime ← data.field "min_time" readInt
  let maxTime ← data.field "max_time" readInt
  let jobIDs ← data.field "job_ids" (readList readString)
  return { key, minTime, maxTime, jobIDs }

lemma decode_encode (isNil : Bool) (s : SlotData) : decode (s.encode isNil) = some s := by
  have hids : readList readString (writeList isNil Json.str s.jobIDs)
      = some (s.jobIDs.map fun id => id) :=
    readList_writeList readString_str isNil s.jobIDs
  simp [decode, encode, field_struct, List.lookup_cons, hids]

end SlotData

/-! ## Execution states -/

namespace ExecutionAttempt

def encode (a : ExecutionAttempt) : Json :=
  .struct
    [("attempt_num", some (.num a.attemptNum)),
     ("start_time", some (.num a.startTime)),
     ("end_time", omitInt a.endTime),
     ("node_id", some (.str a.nodeID)),
     ("status", some (.str a.status.text)),
     ("http_status", omitInt a.httpStatus),
     ("response_time_ms", omitInt a.responseTime),
     ("error_message", omitString a.errorMessage),
     ("error_type", omitString a.errorType)]

def decode (data : Json) : Option ExecutionAttempt := do
  let attemptNum ← data.field "attempt_num" readInt
  let startTime ← data.field "start_time" readInt
  let endTime ← data.field "end_time" readInt
  let nodeID ← data.field "node_id" readString
  let status ← data.field "status" readString
  let httpStatus ← data.field "http_status" readInt
  let responseTime ← data.field "response_time_ms" readInt
  let errorMessage ← data.field "error_message" readString
  let errorType ← data.field "error_type" readString
  return {
    attemptNum, startTime, endTime, nodeID, status := .ofText status, httpStatus, responseTime,
    errorMessage, errorType }

/-- An attempt as it is read back. -/
def read (a : ExecutionAttempt) : ExecutionAttempt := { a with status := a.status.read }

lemma decode_encode (a : ExecutionAttempt) : decode a.encode = some a.read := by
  simp [decode, encode, field_struct, List.lookup_cons, read, JobStatus.read]

end ExecutionAttempt

namespace JobExecutionState

/-- `isNil` says whether an empty list of attempts is a `nil` slice. -/
def encode (isNil : Bool) (s : JobExecutionState) : Json :=
  .struct
    [("job_id", some (.str s.jobID)),
     ("status", some (.str s.status.text)),
     ("attempt_count", some (.num s.attemptCount)),
     ("created_at", some (.num s.createdAt)),
     ("first_attempt_at", omitInt s.firstAttemptAt),
     ("last_attempt_at", omitInt s.lastAttemptAt),
     ("completed_at", omitInt s.completedAt),
     ("cancelled_at", omitInt s.cancelledAt),
     ("cancellation_reason", omitString s.cancellationReason),
     ("executing_node_id", omitString s.executingNodeID),
     ("attempts", some (writeList isNil ExecutionAttempt.encode s.attempts))]

def decode (data : Json) : Option JobExecutionState := do
  let jobID ← data.field "job_id" readString
  let status ← data.field "status" readString
  let attemptCount ← data.field "attempt_count" readInt
  let createdAt ← data.field "created_at" readInt
  let firstAttemptAt ← data.field "first_attempt_at" readInt
  let lastAttemptAt ← data.field "last_attempt_at" readInt
  let completedAt ← data.field "completed_at" readInt
  let cancelledAt ← data.field "cancelled_at" readInt
  let cancellationReason ← data.field "cancellation_reason" readString
  let executingNodeID ← data.field "executing_node_id" readString
  let attempts ← data.field "attempts" (readList ExecutionAttempt.decode)
  return {
    jobID, status := .ofText status, attemptCount, createdAt, firstAttemptAt, lastAttemptAt,
    completedAt, cancelledAt, cancellationReason, executingNodeID, attempts }

/-- An execution state as it is read back. -/
def read (s : JobExecutionState) : JobExecutionState :=
  { s with status := s.status.read, attempts := s.attempts.map ExecutionAttempt.read }

lemma decode_encode (isNil : Bool) (s : JobExecutionState) :
    decode (s.encode isNil) = some s.read := by
  have hattempts := readList_writeList ExecutionAttempt.decode_encode isNil s.attempts
  simp [decode, encode, field_struct, List.lookup_cons, hattempts, read, JobStatus.read]

end JobExecutionState

/-! ## Commands -/

namespace StatusCommand

def encode (c : StatusCommand) : Json :=
  .struct
    [("job_id", some (.str c.jobID)),
     ("status", some (.str c.status.text)),
     ("node_id", omitString c.nodeID),
     ("attempt", c.attempt.map ExecutionAttempt.encode),
     ("timestamp", some (.num c.timestamp)),
     ("cancellation_reason", omitString c.cancellationReason)]

def decode (data : Json) : Option StatusCommand := do
  let jobID ← data.field "job_id" readString
  let status ← data.field "status" readString
  let nodeID ← data.field "node_id" readString
  let attempt ← data.field "attempt" (readPtr ExecutionAttempt.decode)
  let timestamp ← data.field "timestamp" readInt
  let cancellationReason ← data.field "cancellation_reason" readString
  return { jobID, status := .ofText status, nodeID, attempt, timestamp, cancellationReason }

/-- A status command as it is read back. -/
def read (c : StatusCommand) : StatusCommand :=
  { c with status := c.status.read, attempt := c.attempt.map ExecutionAttempt.read }

lemma decode_encode (c : StatusCommand) : decode c.encode = some c.read := by
  have hattempt : readPtr ExecutionAttempt.decode ((c.attempt.map ExecutionAttempt.encode).getD .null)
      = some (c.attempt.map ExecutionAttempt.read) :=
    readPtr_map (fun _ => nofun) ExecutionAttempt.decode_encode
  simp [decode, encode, field_struct, List.lookup_cons, hattempt, read, JobStatus.read]

end StatusCommand

namespace Command

/-- `slotNil` and `coldNil` say whether empty lists of jobs in the two slots are `nil` slices. -/
def encode (slotNil coldNil : Bool) (c : Command) : Json :=
  .struct
    [("type", some (.str c.type.text)),
     ("job", c.job.map Job.encode),
     ("id", omitString c.id),
     ("slot", c.slot.map (SlotData.encode slotNil)),
     ("cold_slot", c.coldSlot.map (SlotData.encode coldNil)),
     ("status_command", c.statusCommand.map StatusCommand.encode),
     ("attempts", omitList ExecutionAttempt.encode c.attempts),
     ("memory_delta", omitInt c.memoryDelta),
     ("job_count_delta", omitInt c.jobCountDelta)]

def decode (data : Json) : Option Command := do
  let type ← data.field "type" readString
  let job ← data.field "job" (readPtr Job.decode)
  let id ← data.field "id" readString
  let slot ← data.field "slot" (readPtr SlotData.decode)
  let coldSlot ← data.field "cold_slot" (readPtr SlotData.decode)
  let statusCommand ← data.field "status_command" (readPtr StatusCommand.decode)
  let attempts ← data.field "attempts" (readList ExecutionAttempt.decode)
  let memoryDelta ← data.field "memory_delta" readInt
  let jobCountDelta ← data.field "job_count_delta" readInt
  return {
    type := .ofText type, job, id, slot, coldSlot, statusCommand, attempts, memoryDelta,
    jobCountDelta }

/-- A command as it is read back. -/
def read (c : Command) : Command :=
  { c with
    type := c.type.read
    job := c.job.map Job.read
    statusCommand := c.statusCommand.map StatusCommand.read
    attempts := c.attempts.map ExecutionAttempt.read }

lemma decode_encode (slotNil coldNil : Bool) (c : Command) :
    decode (c.encode slotNil coldNil) = some c.read := by
  have hjob : readPtr Job.decode ((c.job.map Job.encode).getD .null) = some (c.job.map Job.read) :=
    readPtr_map (fun _ => nofun) Job.decode_encode
  have hslot : ∀ (isNil : Bool) (slot : Option SlotData),
      readPtr SlotData.decode ((slot.map (SlotData.encode isNil)).getD .null)
        = some (slot.map fun slot => slot) :=
    fun isNil _ => readPtr_map (fun _ => nofun) (SlotData.decode_encode isNil)
  have hstatus : readPtr StatusCommand.decode
      ((c.statusCommand.map StatusCommand.encode).getD .null)
        = some (c.statusCommand.map StatusCommand.read) :=
    readPtr_map (fun _ => nofun) StatusCommand.decode_encode
  have hattempts := readList_omitList ExecutionAttempt.decode_encode c.attempts
  simp [decode, encode, field_struct, List.lookup_cons, hjob, hslot, hstatus, hattempts, read,
    CommandType.read]

end Command

/-! ## Snapshots -/

namespace Snapshot

/-- The struct that `Persist` writes; `slotNil` and `stateNil` say which empty lists are `nil`
slices. -/
def encode (slotNil : ℤ → Bool) (stateNil : String → Bool) (s : Snapshot) : Json :=
  .struct
    [("jobs", some (writeMap id (fun _ => Job.encode) s.jobs)),
     ("slots", some (writeMap printKey (fun key => SlotData.encode (slotNil key)) s.slots)),
     ("cold_slot_meta", some (writeSet printKey s.coldSlotMeta)),
     ("execution_states",
      some (writeMap id (fun jobID => JobExecutionState.encode (stateNil jobID))
        s.executionStates)),
     ("memory_usage", some (.num s.memoryUsage)),
     ("job_count", some (.num s.jobCount))]

/-- The struct that `Restore` reads. -/
def decode (data : Json) : Option Snapshot := do
  let jobs ← data.field "jobs" (readMap some Job.decode)
  let slots ← data.field "slots" (readMap parseInt64 SlotData.decode)
  let coldSlotMeta ← data.field "cold_slot_meta" (readSet parseInt64)
  let executionStates ← data.field "execution_states" (readMap some JobExecutionState.decode)
  let memoryUsage ← data.field "memory_usage" readInt
  let jobCount ← data.field "job_count" readInt
  return { jobs, slots, coldSlotMeta, executionStates, memoryUsage, jobCount }

/-- A snapshot that is written without loss: reading leaves its records alone, and its slot keys
are 64-bit numbers. -/
structure Legible (s : Snapshot) : Prop where
  jobs : ∀ id job, s.jobs.lookup id = some job → job.read = job
  slots : ∀ key slot, s.slots.lookup key = some slot → InRange key
  coldSlotMeta : ∀ key ∈ s.coldSlotMeta, InRange key
  executionStates : ∀ id state, s.executionStates.lookup id = some state → state.read = state

/-- **Writing and reading a snapshot.** -/
lemma decode_encode {s : Snapshot} (h : s.Legible) (slotNil : ℤ → Bool)
    (stateNil : String → Bool) : decode (s.encode slotNil stateNil) = some s := by
  have hjobs : readMap some Job.decode (writeMap id (fun _ => Job.encode) s.jobs)
      = some (s.jobs.mapValues Job.read) :=
    readMap_writeMap (fun _ _ _ => rfl) fun _ job _ => job.decode_encode
  have hslots : readMap parseInt64 SlotData.decode
      (writeMap printKey (fun key => SlotData.encode (slotNil key)) s.slots)
        = some (s.slots.mapValues fun slot => slot) :=
    readMap_writeMap (fun key slot hlook => parseInt64_printKey (h.slots key slot hlook))
      fun key slot _ => slot.decode_encode (slotNil key)
  have hcold : readSet parseInt64 (writeSet printKey s.coldSlotMeta) = some s.coldSlotMeta :=
    readSet_writeSet fun key hkey => parseInt64_printKey (h.coldSlotMeta key hkey)
  have hstates : readMap some JobExecutionState.decode
      (writeMap id (fun jobID => JobExecutionState.encode (stateNil jobID)) s.executionStates)
        = some (s.executionStates.mapValues JobExecutionState.read) :=
    readMap_writeMap (fun _ _ _ => rfl) fun jobID state _ => state.decode_encode (stateNil jobID)
  rw [Finmap.mapValues_eq_self h.jobs] at hjobs
  rw [Finmap.mapValues_eq_self fun _ _ _ => rfl] at hslots
  rw [Finmap.mapValues_eq_self h.executionStates] at hstates
  simp [decode, encode, field_struct, List.lookup_cons, hjobs, hslots, hcold, hstates]

end Snapshot

end ScheduledDb
