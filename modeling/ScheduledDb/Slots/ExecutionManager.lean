import ScheduledDb.Slots.PersistentSlots
import ScheduledDb.Store.StatusTracker

/-!
# The execution manager

`internal/slots/execution_manager.go` as programs.  `Execute` asks `CanExecute`, marks the job as in
progress, calls the webhook and records how it ended.  The check and the mark are two steps, and
what the state machine says to the mark does not come back (see `ScheduledDb.Store.StatusTracker`),
so a webhook is started whenever the mark was committed.

The time limit and the cancellation of a webhook call show in how the call ends, which is up to the
environment; the table of cancel functions is left out.
-/

namespace ScheduledDb

open Program StatusTracker

structure ExecutionManager where
  nodeID : String
  maxAttempts : ℤ
  deriving DecidableEq, Repr

/-- An error of a webhook call. -/
structure WebhookError where
  message : String
  cause : ErrorCause
  deriving DecidableEq, Repr

/-- `strings.Contains` -/
def containsText (text part : String) : Bool := decide (part.toList <:+: text.toList)

namespace ExecutionManager

/-- `NewExecutionManager` gives its tracker a callback. -/
def statusTracker (_ : ExecutionManager) : StatusTracker where
  callback := true

def classifyError (err : WebhookError) : String :=
  match err.cause with
  | .deadlineExceeded => "timeout"
  | .canceled => "cancelled"
  | .other =>
    if containsText err.message "connection refused" then "connection_error"
    else if containsText err.message "no such host" || containsText err.message "dns" then
      "dns_error"
    else if containsText err.message "timeout" then "timeout"
    else if containsText err.message "status"
        && (containsText err.message "4" || containsText err.message "5") then "http_error"
    else "unknown"

/-- What `executeWebhook` makes of the end of the call: HTTP status, response time and error.  A job
without URL is not called at all. -/
def webhookResult (job : Job) (outcome : WebhookOutcome) : ℤ × ℤ × Option WebhookError :=
  if job.webhookURL = "" then (0, 0, none)
  else
    match outcome with
    | .transportError message cause responseTime => (0, responseTime, some ⟨message, cause⟩)
    | .response statusCode responseTime =>
      if statusCode ≥ 400 then
        (statusCode, responseTime,
          some ⟨"webhook returned status " ++ toString statusCode, .other⟩)
      else (statusCode, responseTime, none)

/-- After a webhook call that failed. -/
def finishFailed (em : ExecutionManager) (job : Job) (attempt : ExecutionAttempt)
    (httpStatus : ℤ) (err : WebhookError) : Program Act (Option String) := do
  match ← StatusTracker.getStatus job.id with
  | .ok state =>
    if state.status = .cancelled then pure none else recordFailure
  | .error _ => recordFailure
where
  /-- Mark the job as failed; an error of that is only logged. -/
  recordFailure : Program Act (Option String) := do
    let _ ← em.statusTracker.markFailed job.id (some
      { attempt with
        status := .failed
        errorMessage := err.message
        errorType := classifyError err
        httpStatus := httpStatus })
    pure (some err.message)

/-- After a webhook call that succeeded. -/
def finishSucceeded (em : ExecutionManager) (job : Job) (attempt : ExecutionAttempt)
    (httpStatus : ℤ) : Program Act (Option String) := do
  match ← StatusTracker.getStatus job.id with
  | .ok state =>
    if state.status = .cancelled then do
      let _ ← StatusTracker.recordAttempt job.id (some attempt)
      pure none
    else recordSuccess
  | .error _ => recordSuccess
where
  recordSuccess : Program Act (Option String) :=
    em.statusTracker.markCompleted job.id (some
      { attempt with status := .completed, httpStatus := httpStatus })

/-- `Execute` from the webhook call on. -/
def callWebhook (em : ExecutionManager) (job : Job) (attemptNum : ℤ) :
    Program Act (Option String) := do
  let startTime ← perform .now
  let outcome ← perform (.executeWebhook job)
  let endTime ← perform .now
  let result := webhookResult job outcome
  let attempt : ExecutionAttempt :=
    { attemptNum := attemptNum
      startTime := startTime
      endTime := endTime
      nodeID := em.nodeID
      responseTime := result.2.1 }
  match result.2.2 with
  | some err => em.finishFailed job attempt result.1 err
  | none => em.finishSucceeded job attempt result.1

/-- The number of the attempt that is about to start. -/
def nextAttempt (jobID : String) : Program Act ℤ := do
  match ← StatusTracker.getStatus jobID with
  | .ok state => pure (state.attemptCount + 1)
  | .error _ => pure 1

/-- `Execute` for a job that may run. -/
def startAttempt (em : ExecutionManager) (job : Job) (attemptNum : ℤ) :
    Program Act (Option String) := do
  if attemptNum > em.maxAttempts then pure (some "exceeded max attempts")
  else do
    match ← em.statusTracker.markInProgress job.id em.nodeID with
    | some err => pure (some ("failed to mark job in progress: " ++ err))
    | none => em.callWebhook job attemptNum

def execute (em : ExecutionManager) (job : Job) : Program Act (Option String) := do
  match ← StatusTracker.canExecute job.id with
  | .error err => pure (some ("failed to check execution status: " ++ err))
  | .ok false => pure none
  | .ok true => do
      let attemptNum ← nextAttempt job.id
      em.startAttempt job attemptNum

/-! ## What an execution does at all -/

lemma all_nextAttempt {P : Command → Prop} (jobID : String) :
    All (Detached P) (nextAttempt jobID) := by
  refine ⟨trivial, fun state => ?_⟩
  cases state with
  | none => trivial
  | some state => trivial

lemma all_canExecute {P : Command → Prop} (jobID : String) :
    All (Detached P) (canExecute jobID) := by
  refine ⟨trivial, fun state => ?_⟩
  cases state with
  | none => trivial
  | some state => trivial

section Actions

variable {P : Command → Prop} {job : Job}
  (hrecord : ∀ sc : StatusCommand, sc.jobID = job.id → P (FSM.attemptRecord sc))
include hrecord

section Finish

variable (hupdate : ∀ sc : StatusCommand, sc.jobID = job.id → sc.status ≠ .inProgress →
  P (FSM.statusUpdate sc))
include hupdate

/-- After the call there are only a record and the end of the attempt. -/
lemma all_finishFailed (em : ExecutionManager) (attempt : ExecutionAttempt) (httpStatus : ℤ)
    (err : WebhookError) : All (Detached P) (em.finishFailed job attempt httpStatus err) := by
  have hmark : All (Detached P) (finishFailed.recordFailure em job attempt httpStatus err) :=
    All.bind (all_mark _ (all_recordFirst hrecord)
      fun now => hupdate _ rfl (by simp)) fun _ => trivial
  refine ⟨trivial, fun state => ?_⟩
  cases state with
  | none => exact hmark
  | some state => exact all_ite.mpr ⟨fun _ => trivial, fun _ => hmark⟩

lemma all_finishSucceeded (em : ExecutionManager) (attempt : ExecutionAttempt) (httpStatus : ℤ) :
    All (Detached P) (em.finishSucceeded job attempt httpStatus) := by
  have hmark : All (Detached P) (finishSucceeded.recordSuccess em job attempt httpStatus) :=
    all_mark _ (all_recordFirst hrecord)
      fun now => hupdate _ rfl (by simp)
  refine ⟨trivial, fun state => ?_⟩
  cases state with
  | none => exact hmark
  | some state =>
    refine all_ite.mpr ⟨fun _ => ?_, fun _ => hmark⟩
    exact (all_recordAttempt hrecord).bind fun _ => trivial

end Finish

variable {K : ∀ β : Type, Act β → Prop} (hK : ∀ {β : Type} (a : Act β), Detached P β a → K β a)
  (hwebhook : K _ (.executeWebhook job))
  (hupdate : ∀ sc : StatusCommand, sc.jobID = job.id → P (FSM.statusUpdate sc))
include hK hwebhook hupdate

lemma all_callWebhook (em : ExecutionManager) (attemptNum : ℤ) :
    All K (em.callWebhook job attemptNum) := by
  have hfinish := fun sc hid (_ : StatusCommand.status sc ≠ .inProgress) => hupdate sc hid
  simp only [callWebhook, perform_bind, all_step]
  refine ⟨hK _ trivial, fun start => ⟨hwebhook, fun outcome => ⟨hK _ trivial, fun stop => ?_⟩⟩⟩
  cases (webhookResult job outcome).2.2 with
  | some err => exact (all_finishFailed hrecord hfinish em _ _ err).mono hK
  | none => exact (all_finishSucceeded hrecord hfinish em _ _).mono hK

/-- **`Execute` calls the webhook of its job, and has commands about its execution state.** -/
theorem all_execute (em : ExecutionManager) : All K (em.execute job) := by
  have hstart : ∀ attemptNum, All K (em.startAttempt job attemptNum) := by
    intro attemptNum
    refine all_ite.mpr ⟨fun _ => trivial, fun _ => All.bind
      ((all_mark em.statusTracker all_done fun now => hupdate _ rfl).mono hK)
      fun r => ?_⟩
    cases r with
    | some err => trivial
    | none => exact all_callWebhook hrecord hK hwebhook hupdate em attemptNum
  refine ((all_canExecute job.id).mono hK).bind fun r => ?_
  match r with
  | .error err => trivial
  | .ok false => trivial
  | .ok true => exact ((all_nextAttempt job.id).mono hK).bind hstart

end Actions

/-- **An execution leaves jobs and counters alone.** -/
lemma issues_execute (em : ExecutionManager) (job : Job) :
    All (Issues Command.LeavesJobs) (em.execute job) := by
  have hwebhook : Issues Command.LeavesJobs _ (.executeWebhook job) := trivial
  exact em.all_execute (fun sc _ => FSM.attemptRecord_leavesJobs sc)
    (fun _ ha => Store.Issues.of_quiet (Store.Detached.quiet ha)) hwebhook fun sc _ =>
      FSM.statusUpdate_leavesJobs sc

end ExecutionManager

end ScheduledDb
