import ScheduledDb.Core.FiniteMap
import ScheduledDb.Store.SlotKey
import ScheduledDb.Store.Types

/-!
# The replicated state machine

The state machine of `internal/store/fsm.go`.  A state holds the jobs, the slots kept in memory
(*hot*), the keys of the slots moved to the node's own cold store, the execution states and the two
capacity counters; the cold store itself is part of the record, as the map it is, and absent when
cold spilling is off.  Cold-store calls may fail; which of them fail is an argument.

`applyCommandInternal` follows the source's `switch`, one function per longer case.
-/

namespace ScheduledDb

open Machine

/-! ## Errors and answers -/

/-- The errors a command can be answered with. -/
inductive FsmError where
  | jobRequired
  | jobIDRequired
  | slotRequired
  | slotKeyRequired (command : String)
  | invalidSlotKey (text : String)
  | coldSlotRequired
  | coldStoreNotEnabled
  | archiveFailed (key : ℤ) (cause : String)
  | unarchiveFailed (key : ℤ) (cause : String)
  | statusCommandRequired (command : String)
  | stateNotFound (jobID : String)
  | attemptRequired
  | unknownStatus (status : JobStatus)
  | invalidTransition (source target : JobStatus)
  | unknownCommand (text : String)
  deriving DecidableEq, Repr

/-- `Error()` -/
def FsmError.message : FsmError → String
  | jobRequired => "job is required for create command"
  | jobIDRequired => "job ID is required for delete command"
  | slotRequired => "slot is required for create slot command"
  | slotKeyRequired command => "slot key is required for " ++ command ++ " command"
  | invalidSlotKey text => "invalid slot key: " ++ text
  | coldSlotRequired => "cold slot data is required for archive slot command"
  | coldStoreNotEnabled => "cold store not enabled"
  | archiveFailed key cause =>
    "failed to archive slot " ++ printKey key ++ " to cold store: " ++ cause
  | unarchiveFailed key cause =>
    "failed to unarchive slot " ++ printKey key ++ " from cold store: " ++ cause
  | statusCommandRequired command => "status command is required for " ++ command
  | stateNotFound jobID => "execution state not found for job " ++ jobID ++ ": not found"
  | attemptRequired => "attempt is required for record attempt command"
  | unknownStatus status => "unknown status: " ++ status.text
  | invalidTransition source target =>
    "invalid state transition from " ++ source.text ++ " to " ++ target.text
  | unknownCommand text => "unknown command type: " ++ text

/-- What applying a command answers (`interface{}` in the source). -/
inductive Response where
  | nil
  | job (job : Job)
  | slot (slot : SlotData)
  | number (n : ℤ)
  | error (e : FsmError)
  deriving DecidableEq, Repr

def Response.isError : Response → Bool
  | .error _ => true
  | _ => false

/-! ## State -/

structure FSM where
  jobs : Finmap fun _ : String => Job
  slots : Finmap fun _ : ℤ => SlotData
  coldSlotMeta : Finset ℤ
  coldStore : Option (Finmap fun _ : ℤ => SlotData)
  executionStates : Finmap fun _ : String => JobExecutionState
  memoryUsage : ℤ
  jobCount : ℤ
  deriving DecidableEq

def newFSM : FSM where
  jobs := ∅
  slots := ∅
  coldSlotMeta := ∅
  coldStore := none
  executionStates := ∅
  memoryUsage := 0
  jobCount := 0

def newFSMWithColdStore (coldStore : Finmap fun _ : ℤ => SlotData) : FSM :=
  { newFSM with coldStore := some coldStore }

/-- A state machine without jobs and slots, with or without a cold store. -/
def FSM.blank (coldStore : Option (Finmap fun _ : ℤ => SlotData)) : FSM :=
  { newFSM with coldStore := coldStore }

/-- Which cold-store calls fail while a command is applied, and with which error. -/
structure ColdFaults where
  put : Option String := none
  get : Option String := none
  delete : Option String := none
  deriving DecidableEq, Repr

/-! ## Status transitions -/

def validTransitions : JobStatus → Option (List JobStatus)
  | .pending => some [.inProgress, .cancelled]
  | .inProgress => some [.completed, .failed, .timeout, .cancelled]
  | .timeout => some [.inProgress]
  | .failed => some [.inProgress]
  | .completed => some []
  | .cancelled => some []
  | .other _ => none

/-- `validateStateTransition`; `none` is `nil`. -/
def validateStateTransition (source target : JobStatus) : Option FsmError :=
  match validTransitions source with
  | none => some (.unknownStatus source)
  | some allowed => if target ∈ allowed then none else some (.invalidTransition source target)

/-- The fields an accepted status update writes. -/
def JobExecutionState.update (state : JobExecutionState) (cmd : StatusCommand) :
    JobExecutionState :=
  let state := { state with status := cmd.status }
  match cmd.status with
  | .inProgress =>
    { state with
      firstAttemptAt := if state.firstAttemptAt = 0 then cmd.timestamp else state.firstAttemptAt
      lastAttemptAt := cmd.timestamp
      executingNodeID := cmd.nodeID
      attemptCount := state.attemptCount + 1 }
  | .completed | .failed => { state with completedAt := cmd.timestamp, executingNodeID := "" }
  | .cancelled =>
    { state with
      completedAt := cmd.timestamp
      cancelledAt := cmd.timestamp
      cancellationReason := cmd.cancellationReason
      executingNodeID := "" }
  | .timeout => { state with executingNodeID := "" }
  | .pending | .other _ => state

/-- The state of a job nothing has happened to yet. -/
def newExecutionState (jobID : String) (createdAt : ℤ) : JobExecutionState where
  jobID := jobID
  status := .pending
  createdAt := createdAt

namespace FSM

/-- The second half of `applyStatusUpdate`, with the job's state at hand. -/
def transition (f : FSM) (state : JobExecutionState) (cmd : StatusCommand) : FSM × Response :=
  match validateStateTransition state.status cmd.status with
  | some e => (f, .error e)
  | none =>
    ({ f with executionStates := f.executionStates.insert cmd.jobID (state.update cmd) }, .nil)

/-- A missing execution state is created first, and stays even if the update is rejected. -/
def applyStatusUpdate (f : FSM) (cmd : StatusCommand) : FSM × Response :=
  match f.executionStates.lookup cmd.jobID with
  | some state => f.transition state cmd
  | none =>
    let state := newExecutionState cmd.jobID cmd.timestamp
    ({ f with executionStates := f.executionStates.insert cmd.jobID state } : FSM).transition
      state cmd

def applyRecordAttempt (f : FSM) (cmd : StatusCommand) : FSM × Response :=
  match f.executionStates.lookup cmd.jobID with
  | none => (f, .error (.stateNotFound cmd.jobID))
  | some state =>
    match cmd.attempt with
    | none => (f, .error .attemptRequired)
    | some attempt =>
      ({ f with
          executionStates := f.executionStates.insert cmd.jobID
            { state with attempts := state.attempts ++ [attempt] } },
        .nil)

def applyPruneAttempts (f : FSM) (cmd : StatusCommand) (keptAttempts : List ExecutionAttempt) :
    FSM × Response :=
  match f.executionStates.lookup cmd.jobID with
  | none => (f, .error (.stateNotFound cmd.jobID))
  | some state =>
    ({ f with
        executionStates := f.executionStates.insert cmd.jobID
          { state with attempts := keptAttempts } },
      .nil)

/-- `atomic.Int64.Add` followed by the reset of a negative value to zero. -/
def addClamped (value delta : ℤ) : ℤ := max 0 (wrap64 (value + delta))

def applyMemoryUpdate (f : FSM) (delta : ℤ) : FSM × Response :=
  ({ f with memoryUsage := addClamped f.memoryUsage delta },
    .number (addClamped f.memoryUsage delta))

def applyJobCountUpdate (f : FSM) (delta : ℤ) : FSM × Response :=
  ({ f with jobCount := addClamped f.jobCount delta }, .number (addClamped f.jobCount delta))

def applyCreateJob (f : FSM) (job : Job) : FSM × Response :=
  ({ f with
      jobs := f.jobs.insert job.id job
      executionStates :=
        f.executionStates.insert job.id (newExecutionState job.id job.createdAt) },
    .job job)

def applyDeleteJob (f : FSM) (id : String) : FSM × Response :=
  ({ f with jobs := f.jobs.erase id, executionStates := f.executionStates.erase id }, .nil)

/-- A failed `DeleteColdSlot` is logged and the entry stays. -/
def deleteColdSlot (coldStore : Finmap fun _ : ℤ => SlotData) (faults : ColdFaults) (key : ℤ) :
    Finmap fun _ : ℤ => SlotData :=
  if faults.delete.isSome then coldStore else coldStore.erase key

def applyDeleteSlot (f : FSM) (faults : ColdFaults) (id : String) : FSM × Response :=
  match scanKey id with
  | none => (f, .error (.invalidSlotKey id))
  | some key =>
    ({ f with
        slots := f.slots.erase key
        coldSlotMeta := f.coldSlotMeta.erase key
        coldStore := f.coldStore.map fun c => deleteColdSlot c faults key },
      .nil)

def applyArchiveSlot (f : FSM) (faults : ColdFaults) (coldSlot : SlotData) : FSM × Response :=
  match f.coldStore with
  | none => (f, .error .coldStoreNotEnabled)
  | some c =>
    match faults.put with
    | some cause => (f, .error (.archiveFailed coldSlot.key cause))
    | none =>
      ({ f with
          slots := f.slots.erase coldSlot.key
          coldSlotMeta := insert coldSlot.key f.coldSlotMeta
          coldStore := some (c.insert coldSlot.key coldSlot) },
        .nil)

def applyUnarchiveSlot (f : FSM) (faults : ColdFaults) (id : String) : FSM × Response :=
  match f.coldStore with
  | none => (f, .error .coldStoreNotEnabled)
  | some c =>
    match scanKey id with
    | none => (f, .error (.invalidSlotKey id))
    | some key =>
      match faults.get with
      | some cause => (f, .error (.unarchiveFailed key cause))
      | none =>
        ({ f with
            slots :=
              match c.lookup key with
              | some slotData => f.slots.insert key slotData
              | none => f.slots
            coldSlotMeta := f.coldSlotMeta.erase key
            coldStore := some (deleteColdSlot c faults key) },
          .nil)

def applyCommandInternal (faults : ColdFaults) (f : FSM) (cmd : Command) : FSM × Response :=
  match cmd.type with
  | .createJob =>
    match cmd.job with
    | none => (f, .error .jobRequired)
    | some job => f.applyCreateJob job
  | .deleteJob => if cmd.id = "" then (f, .error .jobIDRequired) else f.applyDeleteJob cmd.id
  | .createSlot =>
    match cmd.slot with
    | none => (f, .error .slotRequired)
    | some slot => ({ f with slots := f.slots.insert slot.key slot }, .slot slot)
  | .deleteSlot =>
    if cmd.id = "" then (f, .error (.slotKeyRequired "delete slot"))
    else f.applyDeleteSlot faults cmd.id
  | .archiveSlot =>
    match cmd.coldSlot with
    | none => (f, .error .coldSlotRequired)
    | some coldSlot => f.applyArchiveSlot faults coldSlot
  | .unarchiveSlot =>
    if cmd.id = "" then (f, .error (.slotKeyRequired "unarchive slot"))
    else f.applyUnarchiveSlot faults cmd.id
  | .updateJobStatus =>
    match cmd.statusCommand with
    | none => (f, .error (.statusCommandRequired "update job status"))
    | some statusCommand => f.applyStatusUpdate statusCommand
  | .recordAttempt =>
    match cmd.statusCommand with
    | none => (f, .error (.statusCommandRequired "record attempt"))
    | some statusCommand => f.applyRecordAttempt statusCommand
  | .pruneAttempts =>
    match cmd.statusCommand with
    | none => (f, .error (.statusCommandRequired "prune attempts"))
    | some statusCommand => f.applyPruneAttempts statusCommand cmd.attempts
  | .updateMemoryUsage => f.applyMemoryUpdate cmd.memoryDelta
  | .updateJobCount => f.applyJobCountUpdate cmd.jobCountDelta
  | .other text => (f, .error (.unknownCommand text))

/-- `FSM.Apply` of a log entry: the command as the log delivers it. -/
def apply (faults : ColdFaults) (f : FSM) (cmd : Command) : FSM × Response :=
  f.applyCommandInternal faults cmd.wire

/-- Apply a log; every entry comes with what the cold store does meanwhile. -/
def applyLog (f : FSM) (log : List (ColdFaults × Command)) : FSM :=
  log.foldl (fun f entry => (f.apply entry.1 entry.2).1) f

@[simp] lemma applyLog_nil (f : FSM) : f.applyLog [] = f := rfl

@[simp] lemma applyLog_cons (f : FSM) (entry : ColdFaults × Command)
    (log : List (ColdFaults × Command)) :
    f.applyLog (entry :: log) = (f.apply entry.1 entry.2).1.applyLog log := rfl

/-! ## Reads -/

def getJob (f : FSM) (id : String) : Option Job := f.jobs.lookup id

/-- What the cold store has under a key, whether the key is marked as cold or not. -/
def coldCopy (f : FSM) (key : ℤ) : Option SlotData := f.coldStore.bind fun c => c.lookup key

/-- What `GetSlot` sees under the read lock: the slot in memory, and whether the key is marked as
cold. -/
def lookupSlot (f : FSM) (key : ℤ) : Option SlotData × Bool :=
  (f.slots.lookup key, decide (key ∈ f.coldSlotMeta))

/-- The rest of `GetSlot`, with what it has seen.  It reads the cold store after the lock has been
released; a read that fails counts as no slot. -/
def finishGetSlot (f : FSM) (key : ℤ) (readFails : Bool) (seen : Option SlotData × Bool) :
    Option SlotData :=
  match seen.1 with
  | some slot => some slot
  | none => if seen.2 = true ∧ readFails = false then f.coldCopy key else none

/-- `GetSlot`, if nothing happens between its two steps. -/
def getSlot (f : FSM) (key : ℤ) (readFails : Bool) : Option SlotData :=
  f.finishGetSlot key readFails (f.lookupSlot key)

lemma getSlot_of_cold {f : FSM} {key : ℤ}
    (h : (f.lookupSlot key).1 = none ∧ (f.lookupSlot key).2 = true) (readFails : Bool) :
    f.getSlot key readFails = if readFails then none else f.coldCopy key := by
  cases readFails <;> simp [getSlot, finishGetSlot, h]

lemma getSlot_of_not_cold {f : FSM} {key : ℤ}
    (h : ¬ ((f.lookupSlot key).1 = none ∧ (f.lookupSlot key).2 = true)) (readFails : Bool) :
    f.getSlot key readFails = (f.lookupSlot key).1 := by
  rw [getSlot, finishGetSlot]
  cases hhot : (f.lookupSlot key).1 with
  | none => exact if_neg fun hcold => h ⟨hhot, hcold.1⟩
  | some slot => rfl

/-- The slot in memory, or else the cold copy of a marked key. -/
lemma getSlot_eq (f : FSM) (key : ℤ) (readFails : Bool) :
    f.getSlot key readFails = (f.slots.lookup key).or
      (if key ∈ f.coldSlotMeta ∧ readFails = false then f.coldCopy key else none) := by
  simp only [getSlot, finishGetSlot, lookupSlot]
  cases f.slots.lookup key with
  | none => simp
  | some slot => rfl

def isSlotCold (f : FSM) (key : ℤ) : Bool := key ∈ f.coldSlotMeta

def getExecutionState (f : FSM) (jobID : String) : Option JobExecutionState :=
  f.executionStates.lookup jobID

end FSM

/-! ## Effects

Every command does one of ten things to the state.  Proofs about all commands go by cases on the
effect instead of the `switch`. -/

inductive Effect where
  | none
  | putJob (job : Job)
  | dropJob (id : String)
  | putSlot (slot : SlotData)
  | dropSlot (key : ℤ)
  | archive (slot : SlotData)
  | unarchive (key : ℤ)
  | putState (id : String) (state : JobExecutionState)
  | setMemoryUsage (n : ℤ)
  | setJobCount (n : ℤ)

namespace Effect

/-- The state after an effect. -/
def act (faults : ColdFaults) (f : FSM) : Effect → FSM
  | none => f
  | putJob job =>
    { f with
      jobs := f.jobs.insert job.id job
      executionStates :=
        f.executionStates.insert job.id (newExecutionState job.id job.createdAt) }
  | dropJob id =>
    { f with jobs := f.jobs.erase id, executionStates := f.executionStates.erase id }
  | putSlot slot => { f with slots := f.slots.insert slot.key slot }
  | dropSlot key =>
    { f with
      slots := f.slots.erase key
      coldSlotMeta := f.coldSlotMeta.erase key
      coldStore := f.coldStore.map fun c => FSM.deleteColdSlot c faults key }
  | archive slot =>
    { f with
      slots := f.slots.erase slot.key
      coldSlotMeta := insert slot.key f.coldSlotMeta
      coldStore := f.coldStore.map fun c => c.insert slot.key slot }
  | unarchive key =>
    { f with
      slots :=
        match f.coldStore.bind fun c => c.lookup key with
        | some slotData => f.slots.insert key slotData
        | .none => f.slots
      coldSlotMeta := f.coldSlotMeta.erase key
      coldStore := f.coldStore.map fun c => FSM.deleteColdSlot c faults key }
  | putState id state => { f with executionStates := f.executionStates.insert id state }
  | setMemoryUsage n => { f with memoryUsage := n }
  | setJobCount n => { f with jobCount := n }

/-- The key of the slot an effect moves in or out of the cold store. -/
def coldKey : Effect → Option ℤ
  | dropSlot key => some key
  | archive slot => some slot.key
  | unarchive key => some key
  | _ => .none

end Effect

namespace FSM

/-- The effect of a status update: the updated state, or the fresh one of a job without one, or
nothing. -/
def statusEffect (f : FSM) (cmd : StatusCommand) : Effect :=
  match f.executionStates.lookup cmd.jobID with
  | some state =>
    if validateStateTransition state.status cmd.status = none then
      .putState cmd.jobID (state.update cmd)
    else .none
  | none =>
    let state := newExecutionState cmd.jobID cmd.timestamp
    if validateStateTransition .pending cmd.status = none then
      .putState cmd.jobID (state.update cmd)
    else .putState cmd.jobID state

/-- The effect of replacing a job's attempts. -/
def attemptsEffect (f : FSM) (cmd : StatusCommand)
    (attempts : JobExecutionState → Option (List ExecutionAttempt)) : Effect :=
  match f.executionStates.lookup cmd.jobID with
  | none => .none
  | some state =>
    match attempts state with
    | none => .none
    | some kept => .putState cmd.jobID { state with attempts := kept }

/-- The effect of a command that names a slot key as text. -/
def keyEffect (id : String) (effect : ℤ → Effect) : Effect :=
  if id = "" then .none
  else
    match scanKey id with
    | none => .none
    | some key => effect key

def effect (faults : ColdFaults) (f : FSM) (cmd : Command) : Effect :=
  match cmd.type with
  | .createJob => (cmd.job.map Effect.putJob).getD .none
  | .deleteJob => if cmd.id = "" then .none else .dropJob cmd.id
  | .createSlot => (cmd.slot.map Effect.putSlot).getD .none
  | .deleteSlot => keyEffect cmd.id .dropSlot
  | .archiveSlot =>
    if f.coldStore.isSome ∧ faults.put = none then (cmd.coldSlot.map Effect.archive).getD .none
    else .none
  | .unarchiveSlot =>
    if f.coldStore.isSome ∧ faults.get = none then keyEffect cmd.id .unarchive else .none
  | .updateJobStatus => (cmd.statusCommand.map f.statusEffect).getD .none
  | .recordAttempt =>
    (cmd.statusCommand.map fun sc =>
      f.attemptsEffect sc fun state => sc.attempt.map fun a => state.attempts ++ [a]).getD .none
  | .pruneAttempts =>
    (cmd.statusCommand.map fun sc => f.attemptsEffect sc fun _ => some cmd.attempts).getD .none
  | .updateMemoryUsage => .setMemoryUsage (addClamped f.memoryUsage cmd.memoryDelta)
  | .updateJobCount => .setJobCount (addClamped f.jobCount cmd.jobCountDelta)
  | .other _ => .none

/-- Which effects a command can have. -/
inductive EffectOf (faults : ColdFaults) (f : FSM) (cmd : Command) : Effect → Prop where
  | none : EffectOf faults f cmd .none
  | putJob {job : Job} (type : cmd.type = .createJob) (arg : cmd.job = some job) :
      EffectOf faults f cmd (.putJob job)
  | dropJob (type : cmd.type = .deleteJob) (arg : cmd.id ≠ "") :
      EffectOf faults f cmd (.dropJob cmd.id)
  | putSlot {slot : SlotData} (type : cmd.type = .createSlot) (arg : cmd.slot = some slot) :
      EffectOf faults f cmd (.putSlot slot)
  | dropSlot {key : ℤ} (type : cmd.type = .deleteSlot) (arg : cmd.id ≠ "")
      (scan : scanKey cmd.id = some key) : EffectOf faults f cmd (.dropSlot key)
  | archive {slot : SlotData} (type : cmd.type = .archiveSlot) (arg : cmd.coldSlot = some slot)
      (cold : f.coldStore.isSome) : EffectOf faults f cmd (.archive slot)
  | unarchive {key : ℤ} (type : cmd.type = .unarchiveSlot) (arg : cmd.id ≠ "")
      (scan : scanKey cmd.id = some key) (cold : f.coldStore.isSome) :
      EffectOf faults f cmd (.unarchive key)
  | putState {sc : StatusCommand} {state : JobExecutionState} (arg : cmd.statusCommand = some sc) :
      EffectOf faults f cmd (.putState sc.jobID state)
  | setMemoryUsage (type : cmd.type = .updateMemoryUsage) :
      EffectOf faults f cmd (.setMemoryUsage (addClamped f.memoryUsage cmd.memoryDelta))
  | setJobCount (type : cmd.type = .updateJobCount) :
      EffectOf faults f cmd (.setJobCount (addClamped f.jobCount cmd.jobCountDelta))

variable {cmd : Command} {faults : ColdFaults} {f : FSM}

lemma effectOf_keyEffect {effect : ℤ → Effect}
    (h : ∀ key, cmd.id ≠ "" → scanKey cmd.id = some key → EffectOf faults f cmd (effect key)) :
    EffectOf faults f cmd (keyEffect cmd.id effect) := by
  unfold keyEffect
  split_ifs with hid
  · exact .none
  · cases hkey : scanKey cmd.id with
    | none => exact .none
    | some key => exact h key hid hkey

lemma effectOf_attempts {sc : StatusCommand} (harg : cmd.statusCommand = some sc)
    (attempts : JobExecutionState → Option (List ExecutionAttempt)) :
    EffectOf faults f cmd (f.attemptsEffect sc attempts) := by
  unfold attemptsEffect
  split
  · exact .none
  · split
    · exact .none
    · exact .putState harg

/-- **Inversion of a command.** -/
theorem effectOf (faults : ColdFaults) (f : FSM) (cmd : Command) :
    EffectOf faults f cmd (f.effect faults cmd) := by
  cases htype : cmd.type with
  | createJob =>
    cases hjob : cmd.job with
    | none => simpa [effect, htype, hjob] using EffectOf.none
    | some job => simpa [effect, htype, hjob] using EffectOf.putJob htype hjob
  | deleteJob =>
    simp only [effect, htype]
    split_ifs with hid
    · exact .none
    · exact .dropJob htype hid
  | createSlot =>
    cases hslot : cmd.slot with
    | none => simpa [effect, htype, hslot] using EffectOf.none
    | some slot => simpa [effect, htype, hslot] using EffectOf.putSlot htype hslot
  | deleteSlot =>
    simp only [effect, htype]
    exact effectOf_keyEffect fun key hid hkey => .dropSlot htype hid hkey
  | archiveSlot =>
    simp only [effect, htype]
    split_ifs with hcold
    · cases hslot : cmd.coldSlot with
      | none => exact .none
      | some slot => exact .archive htype hslot hcold.1
    · exact .none
  | unarchiveSlot =>
    simp only [effect, htype]
    split_ifs with hcold
    · exact effectOf_keyEffect fun key hid hkey => .unarchive htype hid hkey hcold.1
    · exact .none
  | updateJobStatus =>
    cases hcmd : cmd.statusCommand with
    | none => simpa [effect, htype, hcmd] using EffectOf.none
    | some sc =>
      simp only [effect, htype, hcmd, Option.map_some, Option.getD_some, statusEffect]
      split
      · split_ifs
        · exact .putState hcmd
        · exact .none
      · split_ifs
        · exact .putState hcmd
        · exact .putState hcmd
  | recordAttempt | pruneAttempts =>
    cases hcmd : cmd.statusCommand with
    | none => simpa [effect, htype, hcmd] using EffectOf.none
    | some sc =>
      simp only [effect, htype, hcmd, Option.map_some, Option.getD_some]
      exact effectOf_attempts hcmd _
  | updateMemoryUsage =>
    simp only [effect, htype]
    exact .setMemoryUsage htype
  | updateJobCount =>
    simp only [effect, htype]
    exact .setJobCount htype
  | other text => simpa [effect, htype] using EffectOf.none

lemma applyStatusUpdate_fst (faults : ColdFaults) (f : FSM) (cmd : StatusCommand) :
    (f.applyStatusUpdate cmd).1 = (f.statusEffect cmd).act faults f := by
  cases hstate : f.executionStates.lookup cmd.jobID with
  | some state =>
    cases hvalid : validateStateTransition state.status cmd.status with
    | none => simp [applyStatusUpdate, transition, statusEffect, hstate, hvalid, Effect.act]
    | some e => simp [applyStatusUpdate, transition, statusEffect, hstate, hvalid, Effect.act]
  | none =>
    cases hvalid : validateStateTransition .pending cmd.status with
    | none =>
      simp [applyStatusUpdate, transition, statusEffect, hstate, hvalid, Effect.act,
        newExecutionState, Finmap.insert_insert]
    | some e =>
      simp [applyStatusUpdate, transition, statusEffect, hstate, hvalid, Effect.act,
        newExecutionState]

/-- What a handler has done and answered: the state is that after the effect, and an error is the
answer only if there was no effect. -/
structure Performed (faults : ColdFaults) (f : FSM) (e : Effect) (r : FSM × Response) : Prop where
  state : r.1 = e.act faults f
  refused : r.2.isError = true → e = .none

section Performed

variable {faults : ColdFaults} {f : FSM}

lemma Performed.error (e : FsmError) : Performed faults f .none (f, .error e) :=
  ⟨rfl, fun _ => rfl⟩

lemma Performed.ok {e : Effect} {r : FSM × Response} (hstate : r.1 = e.act faults f)
    (hok : r.2.isError = false) : Performed faults f e r :=
  ⟨hstate, by simp [hok]⟩

lemma performed_deleteSlot {id : String} (hid : id ≠ "") :
    Performed faults f (keyEffect id .dropSlot) (f.applyDeleteSlot faults id) := by
  rw [keyEffect, if_neg hid, applyDeleteSlot]
  cases scanKey id with
  | none => exact .error _
  | some key => exact .ok rfl rfl

lemma performed_archiveSlot (slot : SlotData) :
    Performed faults f (if f.coldStore.isSome ∧ faults.put = none then .archive slot else .none)
      (f.applyArchiveSlot faults slot) := by
  rw [applyArchiveSlot]
  cases hcold : f.coldStore with
  | none =>
    rw [if_neg (by simp)]
    exact .error _
  | some c =>
    cases faults.put with
    | none =>
      rw [if_pos ⟨rfl, rfl⟩]
      exact .ok (by simp [Effect.act, hcold]) rfl
    | some cause =>
      rw [if_neg (by simp)]
      exact .error _

lemma performed_unarchiveSlot {id : String} (hid : id ≠ "") :
    Performed faults f
      (if f.coldStore.isSome ∧ faults.get = none then keyEffect id .unarchive else .none)
      (f.applyUnarchiveSlot faults id) := by
  rw [applyUnarchiveSlot, keyEffect, if_neg hid]
  cases hcold : f.coldStore with
  | none =>
    rw [if_neg (by simp)]
    exact .error _
  | some c =>
    cases scanKey id with
    | none =>
      rw [ite_self]
      exact .error _
    | some key =>
      cases faults.get with
      | none =>
        rw [if_pos ⟨rfl, rfl⟩]
        exact .ok (by simp [Effect.act, hcold]) rfl
      | some cause =>
        rw [if_neg (by simp)]
        exact .error _

lemma performed_recordAttempt (sc : StatusCommand) :
    Performed faults f
      (f.attemptsEffect sc fun state => sc.attempt.map fun a => state.attempts ++ [a])
      (f.applyRecordAttempt sc) := by
  rw [applyRecordAttempt, attemptsEffect]
  cases f.executionStates.lookup sc.jobID with
  | none => exact .error _
  | some state =>
    cases sc.attempt with
    | none => exact .error _
    | some attempt => exact .ok rfl rfl

lemma performed_pruneAttempts (sc : StatusCommand) (kept : List ExecutionAttempt) :
    Performed faults f (f.attemptsEffect sc fun _ => some kept) (f.applyPruneAttempts sc kept) := by
  rw [applyPruneAttempts, attemptsEffect]
  cases f.executionStates.lookup sc.jobID with
  | none => exact .error _
  | some state => exact .ok rfl rfl

/-- A status update apart, an error means that nothing has been done. -/
lemma performed_applyCommandInternal (faults : ColdFaults) (f : FSM) {cmd : Command}
    (h : cmd.type ≠ .updateJobStatus) :
    Performed faults f (f.effect faults cmd) (f.applyCommandInternal faults cmd) := by
  rw [applyCommandInternal, effect]
  cases htype : cmd.type with
  | createJob =>
    cases cmd.job with
    | none => exact .error _
    | some job => exact .ok rfl rfl
  | deleteJob =>
    simp only []
    split_ifs
    · exact .error _
    · exact .ok rfl rfl
  | createSlot =>
    cases cmd.slot with
    | none => exact .error _
    | some slot => exact .ok rfl rfl
  | deleteSlot =>
    simp only []
    split_ifs with hid
    · rw [keyEffect, if_pos hid]
      exact .error _
    · exact performed_deleteSlot hid
  | archiveSlot =>
    cases cmd.coldSlot with
    | none => simpa using Performed.error _
    | some slot => exact performed_archiveSlot slot
  | unarchiveSlot =>
    simp only []
    by_cases hid : cmd.id = ""
    · simpa [keyEffect, hid] using Performed.error _
    · rw [if_neg hid]
      exact performed_unarchiveSlot hid
  | updateJobStatus => exact absurd htype h
  | recordAttempt =>
    cases cmd.statusCommand with
    | none => exact .error _
    | some sc => exact performed_recordAttempt sc
  | pruneAttempts =>
    cases cmd.statusCommand with
    | none => exact .error _
    | some sc => exact performed_pruneAttempts sc cmd.attempts
  | updateMemoryUsage => exact .ok rfl rfl
  | updateJobCount => exact .ok rfl rfl
  | other text => exact .error _

end Performed

/-- **Applying a command is performing its effect.** -/
theorem applyCommandInternal_fst (faults : ColdFaults) (f : FSM) (cmd : Command) :
    (f.applyCommandInternal faults cmd).1 = (f.effect faults cmd).act faults f := by
  by_cases htype : cmd.type = .updateJobStatus
  · cases hcmd : cmd.statusCommand with
    | none => simp [applyCommandInternal, effect, htype, hcmd, Effect.act]
    | some sc => simp [applyCommandInternal, effect, htype, hcmd, applyStatusUpdate_fst faults]
  · exact (performed_applyCommandInternal faults f htype).state

lemma apply_fst (faults : ColdFaults) (f : FSM) (cmd : Command) :
    (f.apply faults cmd).1 = (f.effect faults cmd.wire).act faults f :=
  applyCommandInternal_fst faults f cmd.wire

/-! ## Jobs and counters -/

/-- Two states with the same jobs and counters. -/
structure SameJobs (f f' : FSM) : Prop where
  jobs : f'.jobs = f.jobs
  memoryUsage : f'.memoryUsage = f.memoryUsage
  jobCount : f'.jobCount = f.jobCount

lemma SameJobs.refl (f : FSM) : f.SameJobs f := ⟨rfl, rfl, rfl⟩

lemma SameJobs.trans {f' f'' : FSM} (h : f.SameJobs f') (h' : f'.SameJobs f'') :
    f.SameJobs f'' :=
  ⟨h'.jobs.trans h.jobs, h'.memoryUsage.trans h.memoryUsage, h'.jobCount.trans h.jobCount⟩

end FSM

/-- A command about slots or execution states. -/
def Command.LeavesJobs (cmd : Command) : Prop :=
  cmd.type ∉ [.createJob, .deleteJob, .updateMemoryUsage, .updateJobCount]

instance (cmd : Command) : Decidable cmd.LeavesJobs := inferInstanceAs (Decidable (¬ _))

namespace FSM

/-- Such a command changes neither jobs nor counters. -/
lemma sameJobs_apply {cmd : Command} (h : cmd.LeavesJobs) (f : FSM) (faults : ColdFaults) :
    f.SameJobs (f.apply faults cmd).1 := by
  have hof := f.effectOf faults cmd.wire
  have hwire : cmd.wire.type = cmd.type := rfl
  rw [apply_fst]
  cases heffect : f.effect faults cmd.wire with
  | putJob job =>
    rw [heffect] at hof
    cases hof with
    | putJob htype _ => simp [Command.LeavesJobs, ← hwire, htype] at h
  | dropJob id =>
    rw [heffect] at hof
    cases hof with
    | dropJob htype _ => simp [Command.LeavesJobs, ← hwire, htype] at h
  | setMemoryUsage m =>
    rw [heffect] at hof
    cases hof with
    | setMemoryUsage htype => simp [Command.LeavesJobs, ← hwire, htype] at h
  | setJobCount c =>
    rw [heffect] at hof
    cases hof with
    | setJobCount htype => simp [Command.LeavesJobs, ← hwire, htype] at h
  | _ => exact ⟨rfl, rfl, rfl⟩

end FSM

/-- A command that neither creates nor deletes a job. -/
lemma FSM.jobs_apply {cmd : Command} (hcreate : cmd.type ≠ .createJob)
    (hdelete : cmd.type ≠ .deleteJob) (f : FSM) (faults : ColdFaults) :
    (f.apply faults cmd).1.jobs = f.jobs := by
  have hof := f.effectOf faults cmd.wire
  rw [FSM.apply_fst]
  cases heffect : f.effect faults cmd.wire with
  | putJob job =>
    rw [heffect] at hof
    cases hof with
    | putJob htype _ => exact absurd htype hcreate
  | dropJob id =>
    rw [heffect] at hof
    cases hof with
    | dropJob htype _ => exact absurd htype hdelete
  | _ => rfl

/-- A command about jobs, execution states or counters. -/
def Command.LeavesSlots (cmd : Command) : Prop :=
  cmd.type ∉ [.createSlot, .deleteSlot, .archiveSlot, .unarchiveSlot]

instance (cmd : Command) : Decidable cmd.LeavesSlots := inferInstanceAs (Decidable (¬ _))

namespace FSM

/-- The same slots, hot and cold. -/
structure SameSlots (f f' : FSM) : Prop where
  slots : f'.slots = f.slots
  coldSlotMeta : f'.coldSlotMeta = f.coldSlotMeta
  coldStore : f'.coldStore = f.coldStore

/-- Such a command changes no slots. -/
lemma sameSlots_apply {cmd : Command} (h : cmd.LeavesSlots) (f : FSM) (faults : ColdFaults) :
    f.SameSlots (f.apply faults cmd).1 := by
  have hof := f.effectOf faults cmd.wire
  have hwire : cmd.wire.type = cmd.type := rfl
  rw [apply_fst]
  cases heffect : f.effect faults cmd.wire with
  | putSlot slot =>
    rw [heffect] at hof
    cases hof with
    | putSlot htype _ => simp [Command.LeavesSlots, ← hwire, htype] at h
  | dropSlot key =>
    rw [heffect] at hof
    cases hof with
    | dropSlot htype _ _ => simp [Command.LeavesSlots, ← hwire, htype] at h
  | archive slot =>
    rw [heffect] at hof
    cases hof with
    | archive htype _ _ => simp [Command.LeavesSlots, ← hwire, htype] at h
  | unarchive key =>
    rw [heffect] at hof
    cases hof with
    | unarchive htype _ _ _ => simp [Command.LeavesSlots, ← hwire, htype] at h
  | _ => exact ⟨rfl, rfl, rfl⟩

/-! ## Single commands -/

variable (faults : ColdFaults) (f : FSM)

lemma apply_createJob (job : Job) :
    (f.apply faults { type := .createJob, job := some job }).1
      = { f with
          jobs := f.jobs.insert job.id job.wire
          executionStates :=
            f.executionStates.insert job.id (newExecutionState job.id job.createdAt) } := rfl

lemma apply_deleteJob {id : String} (hid : id ≠ "") :
    (f.apply faults { type := .deleteJob, id := id }).1
      = { f with jobs := f.jobs.erase id, executionStates := f.executionStates.erase id } := by
  rw [apply_fst]
  simp [effect, Command.wire, Effect.act, hid]

/-- Without an id nothing is deleted. -/
lemma apply_deleteJob_empty : (f.apply faults { type := .deleteJob, id := "" }).1 = f := rfl

/-- Within the 64-bit range, and not below zero, adding is adding. -/
lemma addClamped_eq {value delta : ℤ} (h : InRange (value + delta)) (h0 : 0 ≤ value + delta) :
    addClamped value delta = value + delta := by
  rw [addClamped, wrap64_of_mem h, max_eq_right h0]

/-! ## Everything is filed under its own name -/

/-- Jobs, slots and execution states are stored under the id or key they carry. -/
structure Filed (f : FSM) : Prop where
  jobs : ∀ id job, f.jobs.lookup id = some job → job.id = id
  slots : ∀ key slot, f.slots.lookup key = some slot → slot.key = key
  cold : ∀ c, f.coldStore = some c → ∀ key slot, c.lookup key = some slot → slot.key = key
  executionStates : ∀ id state, f.executionStates.lookup id = some state → state.jobID = id

lemma lookup_of_deleteColdSlot {c : Finmap fun _ : ℤ => SlotData} {faults : ColdFaults}
    {key key' : ℤ} {slot : SlotData} (h : (deleteColdSlot c faults key).lookup key' = some slot) :
    c.lookup key' = some slot := by
  unfold deleteColdSlot at h
  split_ifs at h
  · exact h
  · exact Finmap.lookup_of_erase h

/-- What a cold store, if there is one, has under a key after a deletion. -/
lemma bind_deleteColdSlot (c : Option (Finmap fun _ : ℤ => SlotData)) (faults : ColdFaults)
    (key key' : ℤ) :
    ((c.map fun c => deleteColdSlot c faults key).bind fun c => c.lookup key')
      = if key' = key ∧ faults.delete.isSome = false then none
        else c.bind fun c => c.lookup key' := by
  cases c with
  | none => simp
  | some c =>
    cases hfault : faults.delete.isSome with
    | true => simp [deleteColdSlot, hfault]
    | false => simpa [deleteColdSlot, hfault] using Finmap.lookup_erase_ite c key key'

lemma filed_newFSM : newFSM.Filed where
  jobs := by simp [newFSM]
  slots := by simp [newFSM]
  cold := by simp [newFSM]
  executionStates := by simp [newFSM]

lemma filed_newFSMWithColdStore : (newFSMWithColdStore ∅).Filed where
  jobs := by simp [newFSMWithColdStore, newFSM]
  slots := by simp [newFSMWithColdStore, newFSM]
  cold := by
    rintro c hc key slot hslot
    obtain rfl : ∅ = c := Option.some.inj hc
    simp at hslot
  executionStates := by simp [newFSMWithColdStore, newFSM]

end FSM

end ScheduledDb
