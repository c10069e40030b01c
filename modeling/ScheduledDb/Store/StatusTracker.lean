import ScheduledDb.Store.Status
import ScheduledDb.Store.Store

/-!
# The status tracker

`internal/store/status_tracker.go` as programs, and what their answer is worth.

The four `Mark…` functions issue one or two commands and report success when Raft has committed
them.  Whether the state machine *accepted* them is in the answer that `Store.Apply` drops, so that
on a stable leader they always report success (`wp_mark`).  `mark_reports_iff` says for which calls
the report is right.
-/

namespace ScheduledDb

open Machine Program FSM

/-- A tracker, with or without a status-change callback. -/
structure StatusTracker where
  callback : Bool := false
  deriving DecidableEq, Repr

namespace StatusTracker

/-- The text of `GetStatus`'s error. -/
def stateNotFound (jobID : String) : String :=
  "execution state not found for job " ++ jobID ++ ": not found"

def getStatus (jobID : String) : Program Act (Except String JobExecutionState) := do
  match ← perform (.getExecutionState jobID) with
  | none => pure (.error (stateNotFound jobID))
  | some state => pure (.ok state)

/-- The `switch` of `CanExecute`. -/
def executable : JobStatus → Except String Bool
  | .pending => .ok true
  | .timeout => .ok true
  | .failed => .ok true
  | .completed => .ok false
  | .cancelled => .ok false
  | .inProgress => .ok false
  | .other text => .error ("unknown status: " ++ text)

def canExecute (jobID : String) : Program Act (Except String Bool) := do
  match ← perform (.getExecutionState jobID) with
  | none => pure (.ok true)
  | some state => pure (executable state.status)

def applyStatusCommand (cmd : Command) : Program Act (Option String) := do
  match ← Store.apply cmd with
  | some err => pure (some (Store.applyFailed err))
  | none => pure none

def recordAttempt (jobID : String) (attempt : Option ExecutionAttempt) :
    Program Act (Option String) := do
  let now ← perform .now
  applyStatusCommand (FSM.attemptRecord { jobID := jobID, attempt := attempt, timestamp := now })

/-- The recording that comes before a job is marked as completed or failed. -/
def recordFirst (jobID : String) (attempt : Option ExecutionAttempt) :
    Program Act (Option String) := do
  match ← recordAttempt jobID attempt with
  | some err => pure (some ("failed to record attempt: " ++ err))
  | none => pure none

def notifyCallback (st : StatusTracker) (oldStatus newStatus : JobStatus) : Program Act Unit :=
  if st.callback = true then perform (.statusChanged oldStatus newStatus) else pure ()

/-- What the `Mark…` functions have in common: the previous status is read for the callback, with a
default for a job without state; then come `first` and the status update. -/
def mark (st : StatusTracker) (jobID : String) (assumed : JobStatus)
    (first : Program Act (Option String)) (command : ℤ → StatusCommand) :
    Program Act (Option String) := do
  if ← perform .isLeader then do
    let prevState ← perform (.getExecutionState jobID)
    let prevStatus := (prevState.map JobExecutionState.status).getD assumed
    match ← first with
    | some err => pure (some err)
    | none => do
        let now ← perform .now
        match ← applyStatusCommand (FSM.statusUpdate (command now)) with
        | some err => pure (some err)
        | none => do
            st.notifyCallback prevStatus (command now).status
            pure none
  else pure (some Store.errNotLeader)

def markInProgress (st : StatusTracker) (jobID nodeID : String) : Program Act (Option String) :=
  st.mark jobID .pending (pure none) fun now =>
    { jobID := jobID, status := .inProgress, nodeID := nodeID, timestamp := now }

def markCompleted (st : StatusTracker) (jobID : String) (attempt : Option ExecutionAttempt) :
    Program Act (Option String) :=
  st.mark jobID .inProgress (recordFirst jobID attempt) fun now =>
    { jobID := jobID, status := .completed, timestamp := now }

def markFailed (st : StatusTracker) (jobID : String) (attempt : Option ExecutionAttempt) :
    Program Act (Option String) :=
  st.mark jobID .inProgress (recordFirst jobID attempt) fun now =>
    { jobID := jobID, status := .failed, timestamp := now }

def markCancelled (st : StatusTracker) (jobID reason : String) : Program Act (Option String) :=
  st.mark jobID .pending (pure none) fun now =>
    { jobID := jobID, status := .cancelled, timestamp := now, cancellationReason := reason }

/-- One job of the loop in `CheckTimeouts`. -/
def checkTimeout (st : StatusTracker) (timeout : Duration) (now : ℤ) (timedOut : List String)
    (entry : Σ _ : String, JobExecutionState) : Program Act (List String) :=
  if entry.2.status = .inProgress ∧ wrap64 (now - entry.2.lastAttemptAt) > seconds timeout then do
    match ← applyStatusCommand (FSM.statusUpdate
      { jobID := entry.1, status := .timeout, timestamp := now }) with
    | some _ => pure timedOut
    | none => do
        st.notifyCallback .inProgress .timeout
        pure (timedOut ++ [entry.1])
  else pure timedOut

def checkTimeouts (st : StatusTracker) (timeout : Duration) :
    Program Act (Except String (List String)) := do
  if ← perform .isLeader then do
    let allStates ← perform .getAllExecutionStates
    let now ← perform .now
    let timedOut ← foldEach allStates (st.checkTimeout timeout now) []
    pure (.ok timedOut)
  else pure (.error Store.errNotLeader)

def applyPruneCommand (statusCmd : StatusCommand) (keptAttempts : List ExecutionAttempt) :
    Program Act (Option String) :=
  applyStatusCommand (FSM.attemptPrune statusCmd keptAttempts)

/-- One job of the loop in `PruneOldAttempts`.  An error is only logged. -/
def pruneAttempts (cutoffTime : ℤ) (entry : Σ _ : String, JobExecutionState) :
    Program Act Unit :=
  let keptAttempts := entry.2.attempts.filter fun attempt => cutoffTime ≤ attempt.startTime
  let prunedCount := entry.2.attempts.length - keptAttempts.length
  if entry.2.attempts.length ≠ 0 ∧ prunedCount > 0 then do
    let now ← perform .now
    let _ ← applyPruneCommand { jobID := entry.1, timestamp := now } keptAttempts
    pure ()
  else pure ()

/-- `time.Now().Add(-retention).Unix()`.  The clock of the model shows whole seconds.  A fraction of
a second counts only if `retention` has one too, and then gives this cutoff or that of the next
second. -/
def cutoff (retention : Duration) (now : ℤ) : ℤ := (now * 1000000000 - retention) / 1000000000

def pruneOldAttempts (retention : Duration) : Program Act (Option String) := do
  if ← perform .isLeader then do
    let allStates ← perform .getAllExecutionStates
    let now ← perform .now
    forEach allStates (pruneAttempts (cutoff retention now))
    pure none
  else pure (some Store.errNotLeader)

/-! ## What the tracker does at all -/

section Detached

variable {P : Command → Prop} {attempt : Option ExecutionAttempt} {jobID : String}

lemma all_applyStatusCommand {cmd : Command} (h : P cmd) :
    All (Detached P) (applyStatusCommand cmd) := by
  refine (Store.detached_propose h).bind fun r => ?_
  cases r with
  | none => trivial
  | some err => trivial

lemma all_recordAttempt (h : ∀ sc : StatusCommand, sc.jobID = jobID → P (attemptRecord sc)) :
    All (Detached P) (recordAttempt jobID attempt) :=
  ⟨trivial, fun _ => all_applyStatusCommand (h _ rfl)⟩

lemma all_recordFirst (h : ∀ sc : StatusCommand, sc.jobID = jobID → P (attemptRecord sc)) :
    All (Detached P) (recordFirst jobID attempt) := by
  refine (all_recordAttempt h).bind fun r => ?_
  cases r with
  | none => trivial
  | some err => trivial

lemma all_notifyCallback (st : StatusTracker) (oldStatus newStatus : JobStatus) :
    All (Detached P) (st.notifyCallback oldStatus newStatus) := by
  simp only [notifyCallback, all_ite]
  exact ⟨fun _ => ⟨trivial, fun _ => trivial⟩, fun _ => trivial⟩

lemma all_mark (st : StatusTracker) {assumed : JobStatus} {first : Program Act (Option String)}
    {command : ℤ → StatusCommand} (hfirst : All (Detached P) first)
    (h : ∀ now, P (statusUpdate (command now))) :
    All (Detached P) (st.mark jobID assumed first command) := by
  simp only [mark, perform_bind, all_step, all_ite]
  refine ⟨trivial, fun _ => ⟨fun _ => ⟨trivial, fun prev => hfirst.bind fun r => ?_⟩,
    fun _ => trivial⟩⟩
  cases r with
  | some err => trivial
  | none =>
    refine ⟨trivial, fun now => (all_applyStatusCommand (h now)).bind fun r => ?_⟩
    cases r with
    | some err => trivial
    | none => exact (all_notifyCallback st _ _).bind fun _ => trivial

lemma all_checkTimeouts (st : StatusTracker) (timeout : Duration)
    (h : ∀ sc : StatusCommand, sc.status = .timeout → P (statusUpdate sc)) :
    All (Detached P) (st.checkTimeouts timeout) := by
  simp only [checkTimeouts, perform_bind, all_step, all_ite]
  refine ⟨trivial, fun _ => ⟨fun _ => ⟨trivial, fun states => ⟨trivial, fun now => ?_⟩⟩,
    fun _ => trivial⟩⟩
  refine (all_foldEach (fun timedOut entry _ => ?_) []).bind fun _ => trivial
  simp only [checkTimeout, all_ite]
  refine ⟨fun _ => (all_applyStatusCommand (h _ rfl)).bind fun r => ?_, fun _ => trivial⟩
  cases r with
  | some err => trivial
  | none => exact (all_notifyCallback st _ _).bind fun _ => trivial

end Detached

end StatusTracker

/-! ## On a stable leader -/

namespace Store

end Store

namespace StatusTracker

variable {thread : ℕ} {n : Node} {cmd : Command} {Q : Option String → Node → Prop} {jobID : String}
  {t : ℕ} {st : StatusTracker} {op : MarkOp} {n' : Node}

lemma wp_applyStatusCommand (h : ∀ faults, Q none (n.applyCommand thread faults cmd)) :
    wp (handle thread) Env.Stable (applyStatusCommand cmd) Q n := by
  rw [applyStatusCommand, wp_bind]
  exact Store.wpWith_propose (fun _ _ _ h => h) fun e _ => h e.faults

lemma wp_recordFirst {attempt : Option ExecutionAttempt}
    (h : ∀ now faults, Q none (n.applyCommand thread faults
      (attemptRecord { jobID := jobID, attempt := attempt, timestamp := now }))) :
    wp (handle thread) Env.Stable (recordFirst jobID attempt) Q n := by
  simp only [recordFirst, recordAttempt, wp_bind, perform_bind, wp_step]
  exact fun e _ => wp_applyStatusCommand fun faults => h e.now faults

/-- The node after the callback, if there is one. -/
def notified (st : StatusTracker) (thread : ℕ) (oldStatus newStatus : JobStatus) (n : Node) :
    Node :=
  if st.callback = true then n.record thread (.statusChanged oldStatus newStatus) else n

/-- **A `Mark…` call on a stable leader reports success.**  `first` being such that it succeeds and
leaves a node of the kind `B`. -/
lemma wp_mark (st : StatusTracker) {assumed : JobStatus} {first : Program Act (Option String)}
    {command : ℤ → StatusCommand} {B : Node → Prop}
    (hfirst : wp (handle thread) Env.Stable first (fun r n' => r = none ∧ B n') n) :
    wp (handle thread) Env.Stable (st.mark jobID assumed first command)
      (fun r n' => r = none ∧ ∃ nb now faults, B nb ∧
        n' = st.notified thread
          (((n.fsm.getExecutionState jobID).map JobExecutionState.status).getD assumed)
          (command now).status
          (nb.applyCommand thread faults (statusUpdate (command now)))) n := by
  simp only [mark, perform_bind, wp_step, wp_ite, wp_bind]
  refine fun e he => ⟨fun _ e' _ => ?_, fun hno => absurd he.1 hno⟩
  refine wp_mono hfirst ?_
  rintro _ nb ⟨rfl, hb⟩
  simp only [wp_step, wp_bind]
  refine fun e'' _ => wp_applyStatusCommand fun faults => ?_
  simp only [notifyCallback, wp_bind, wp_ite]
  refine ⟨fun hcb e3 _ => ⟨rfl, nb, e''.now, faults, hb, ?_⟩, fun hcb =>
    ⟨rfl, nb, e''.now, faults, hb, ?_⟩⟩
  · rw [notified, if_pos hcb]
    rfl
  · rw [notified, if_neg hcb]
    rfl

/-! ## The four calls -/

/-- A call of `MarkInProgress`, `MarkCompleted`, `MarkFailed` or `MarkCancelled`. -/
inductive MarkOp where
  | inProgress (nodeID : String)
  | completed (attempt : Option ExecutionAttempt)
  | failed (attempt : Option ExecutionAttempt)
  | cancelled (reason : String)
  deriving DecidableEq, Repr

namespace MarkOp

/-- The call. -/
def call (st : StatusTracker) (jobID : String) : MarkOp → Program Act (Option String)
  | inProgress nodeID => st.markInProgress jobID nodeID
  | completed attempt => st.markCompleted jobID attempt
  | failed attempt => st.markFailed jobID attempt
  | cancelled reason => st.markCancelled jobID reason

/-- The status asked for. -/
def status : MarkOp → JobStatus
  | inProgress _ => .inProgress
  | completed _ => .completed
  | failed _ => .failed
  | cancelled _ => .cancelled

/-- The attempt to be recorded first, where there is one. -/
def recorded : MarkOp → Option (Option ExecutionAttempt)
  | completed attempt => some attempt
  | failed attempt => some attempt
  | inProgress _ => none
  | cancelled _ => none

/-- The state machine will take every command of the call. -/
def Allowed (op : MarkOp) (f : FSM) (jobID : String) : Prop :=
  validateStateTransition (f.statusOf jobID) op.status = none ∧
    (op.recorded.isNone = true ∨
      op.recorded.join.isSome = true ∧ (f.executionStates.lookup jobID).isSome = true)

instance (op : MarkOp) (f : FSM) (jobID : String) : Decidable (op.Allowed f jobID) :=
  inferInstanceAs (Decidable (_ ∧ _))

/-- The node when the status update is issued. -/
def Before (op : MarkOp) (jobID : String) (thread : ℕ) (n nb : Node) : Prop :=
  match op.recorded with
  | none => nb = n
  | some attempt => ∃ now faults, nb = n.applyCommand thread faults
      (FSM.attemptRecord { jobID := jobID, attempt := attempt, timestamp := now })

/-- The node after the call. -/
def After (st : StatusTracker) (op : MarkOp) (jobID : String) (thread : ℕ) (n n' : Node) : Prop :=
  ∃ nb sc prev faults, op.Before jobID thread n nb ∧ sc.jobID = jobID ∧ sc.status = op.status ∧
    n' = st.notified thread prev op.status (nb.applyCommand thread faults (FSM.statusUpdate sc))

lemma wp_call (st : StatusTracker) (op : MarkOp) (jobID : String) :
    wp (handle thread) Env.Stable (op.call st jobID)
      (fun r n' => r = none ∧ After st op jobID thread n n') n := by
  have hrecord : ∀ attempt, wp (handle thread) Env.Stable (recordFirst jobID attempt)
      (fun r n' => r = none ∧ ∃ now faults, n' = n.applyCommand thread faults
        (attemptRecord { jobID := jobID, attempt := attempt, timestamp := now })) n :=
    fun attempt => wp_recordFirst fun now faults => ⟨rfl, now, faults, rfl⟩
  cases op with
  | inProgress nodeID | cancelled reason =>
    refine wp_mono (wp_mark st (B := fun nb => nb = n) ⟨rfl, rfl⟩) ?_
    rintro _ _ ⟨rfl, nb, now, faults, hb, rfl⟩
    exact ⟨rfl, nb, _, _, faults, hb, rfl, rfl, rfl⟩
  | completed attempt | failed attempt =>
    refine wp_mono (wp_mark st (hrecord attempt)) ?_
    rintro _ _ ⟨rfl, nb, now, faults, hb, rfl⟩
    exact ⟨rfl, nb, _, _, faults, hb, rfl, rfl, rfl⟩

end MarkOp

/-- The state machine accepted every command among the events. -/
def AllAccepted (events : List (ℕ × Event)) : Prop :=
  ∀ t before cmd response, (t, Event.applied before cmd response) ∈ events →
    response.isError = false

lemma allAccepted_append {l l' : List (ℕ × Event)} :
    AllAccepted (l ++ l') ↔ AllAccepted l ∧ AllAccepted l' := by
  constructor
  · intro h
    exact ⟨fun t b c r hm => h t b c r (List.mem_append_left l' hm),
      fun t b c r hm => h t b c r (List.mem_append_right l hm)⟩
  · rintro ⟨h1, h2⟩ t b c r hm
    exact (List.mem_append.mp hm).elim (h1 t b c r) (h2 t b c r)

@[simp] lemma allAccepted_nil : AllAccepted [] := by simp [AllAccepted]

@[simp] lemma allAccepted_applied {before : FSM} {response : Response} :
    AllAccepted [(t, .applied before cmd response)] ↔ response.isError = false := by
  constructor
  · intro h
    exact h t before cmd response List.mem_cons_self
  · intro h t' b c r hm
    simp only [List.mem_singleton, Prod.mk.injEq, Event.applied.injEq] at hm
    rw [hm.2.2.2]
    exact h

@[simp] lemma allAccepted_statusChanged {oldStatus newStatus : JobStatus} :
    AllAccepted [(t, .statusChanged oldStatus newStatus)] := by
  intro t' b c r hm
  simp at hm

/-- The callback was called with the given new status. -/
def Notified (events : List (ℕ × Event)) (status : JobStatus) : Prop :=
  ∃ t oldStatus, (t, Event.statusChanged oldStatus status) ∈ events

/-- What a `Mark…` call should tell: success, with the callback if there is one, exactly if every
command was accepted, and then the job has the status asked for. -/
def Reports (st : StatusTracker) (op : MarkOp) (jobID : String) (n : Node)
    (result : Option String) (n' : Node) : Prop :=
  (result = none ∧ (st.callback = true → Notified (n.newEvents n') op.status)
      ↔ AllAccepted (n.newEvents n')) ∧
    (AllAccepted (n.newEvents n') →
      (n'.fsm.getExecutionState jobID).map JobExecutionState.status = some op.status)

/-- The events of the status update and the callback. -/
def updateEvents (st : StatusTracker) (thread : ℕ) (prev status : JobStatus) (f : FSM)
    (faults : ColdFaults) (sc : StatusCommand) : List (ℕ × Event) :=
  (thread, .applied f (FSM.statusUpdate sc) (f.apply faults (FSM.statusUpdate sc)).2) ::
    if st.callback = true then [(thread, .statusChanged prev status)] else []

lemma trace_notified (st : StatusTracker) (prev status : JobStatus) (n : Node)
    (faults : ColdFaults) (sc : StatusCommand) :
    (st.notified thread prev status (n.applyCommand thread faults (statusUpdate sc))).trace
      = n.trace ++ st.updateEvents thread prev status n.fsm faults sc := by
  rw [notified, updateEvents]
  split_ifs
  · simp [Node.record, Node.applyCommand]
  · simp [Node.applyCommand]

@[simp] lemma fsm_notified (st : StatusTracker) (prev status : JobStatus) (n : Node) :
    (st.notified thread prev status n).fsm = n.fsm := by
  rw [notified]
  split_ifs
  · rfl
  · rfl

lemma allAccepted_updateEvents (st : StatusTracker) (prev status : JobStatus) (f : FSM)
    (faults : ColdFaults) (sc : StatusCommand) :
    AllAccepted (st.updateEvents thread prev status f faults sc)
      ↔ validateStateTransition (f.statusOf sc.jobID) sc.status = none := by
  rw [updateEvents, ← List.singleton_append, allAccepted_append, allAccepted_applied,
    statusUpdate_accepted_iff]
  refine and_iff_left ?_
  split_ifs
  · exact allAccepted_statusChanged
  · exact allAccepted_nil

/-- All commands of the call were accepted exactly if it was allowed. -/
lemma MarkOp.After.allAccepted_iff (h : MarkOp.After st op jobID thread n n') :
    AllAccepted (n.newEvents n') ↔ op.Allowed n.fsm jobID := by
  obtain ⟨nb, sc, prev, faults, hbefore, rfl, hstatus, rfl⟩ := h
  rw [Node.newEvents, trace_notified, MarkOp.Allowed]
  cases hrec : op.recorded with
  | none =>
    rw [MarkOp.Before, hrec] at hbefore
    subst hbefore
    rw [List.drop_left, allAccepted_updateEvents, hstatus]
    simp
  | some attempt =>
    rw [MarkOp.Before, hrec] at hbefore
    obtain ⟨now, faults', rfl⟩ := hbefore
    simp only [Node.applyCommand, List.append_assoc, List.drop_left]
    rw [allAccepted_append, allAccepted_applied, allAccepted_updateEvents,
      attemptRecord_accepted_iff, statusOf_attemptRecord, hstatus]
    simp only [Option.isNone_some, Bool.false_eq_true, Option.join_some, false_or]
    tauto

/-- Recording an attempt changes neither jobs nor statuses, and counts for nothing. -/
lemma MarkOp.Before.same {nb : Node} (h : op.Before jobID thread n nb) :
    nb.fsm.jobs = n.fsm.jobs ∧ (∀ id, nb.fsm.statusOf id = n.fsm.statusOf id) ∧
      ∀ id, nb.fsm.attemptsOf id = n.fsm.attemptsOf id := by
  cases hrec : op.recorded with
  | none =>
    rw [MarkOp.Before, hrec] at h
    simp [h]
  | some attempt =>
    rw [MarkOp.Before, hrec] at h
    obtain ⟨now, faults, rfl⟩ := h
    exact ⟨(sameJobs_apply (attemptRecord_leavesJobs _) n.fsm faults).jobs,
      statusOf_attemptRecord faults n.fsm _, attemptsOf_attemptRecord faults n.fsm _⟩

lemma MarkOp.After.jobs (h : MarkOp.After st op jobID thread n n') : n'.fsm.jobs = n.fsm.jobs := by
  obtain ⟨nb, sc, prev, faults, hbefore, _, _, rfl⟩ := h
  have hjobs := (sameJobs_apply (statusUpdate_leavesJobs sc) nb.fsm faults).jobs
  rw [fsm_notified, Node.applyCommand_fsm, hjobs, hbefore.same.1]

lemma MarkOp.After.statusOf (h : MarkOp.After st op jobID thread n n')
    (hvalid : validateStateTransition (n.fsm.statusOf jobID) op.status = none) :
    n'.fsm.statusOf jobID = op.status := by
  obtain ⟨nb, sc, prev, faults, hbefore, rfl, hstatus, rfl⟩ := h
  have hnew := statusOf_statusUpdate faults nb.fsm sc sc.jobID
  rw [if_pos ⟨rfl, by rwa [hbefore.same.2.1, hstatus]⟩, hstatus] at hnew
  rw [fsm_notified, Node.applyCommand_fsm, hnew]

lemma MarkOp.After.attemptsOf (h : MarkOp.After st op jobID thread n n')
    (hop : op.status ≠ .inProgress) (id : String) : n'.fsm.attemptsOf id = n.fsm.attemptsOf id := by
  obtain ⟨nb, sc, prev, faults, hbefore, _, hstatus, rfl⟩ := h
  rw [fsm_notified, Node.applyCommand_fsm,
    attemptsOf_statusUpdate faults nb.fsm (by rwa [hstatus]), hbefore.same.2.2]

/-- An attempt that may start is counted. -/
lemma MarkOp.After.attemptsOf_inProgress {nodeID : String}
    (h : MarkOp.After st (.inProgress nodeID) jobID thread n n')
    (hvalid : validateStateTransition (n.fsm.statusOf jobID) .inProgress = none) :
    n'.fsm.attemptsOf jobID = n.fsm.attemptsOf jobID + 1 := by
  obtain ⟨nb, sc, prev, faults, hbefore, rfl, hstatus, rfl⟩ := h
  obtain rfl : nb = n := hbefore
  rw [fsm_notified, Node.applyCommand_fsm]
  exact attemptsOf_statusUpdate_inProgress faults nb.fsm hstatus (by rwa [hstatus])

/-- If they were, the job has the status asked for. -/
lemma MarkOp.After.status_of_allowed (h : MarkOp.After st op jobID thread n n')
    (hallowed : op.Allowed n.fsm jobID) :
    (n'.fsm.getExecutionState jobID).map JobExecutionState.status = some op.status := by
  have hnew := h.statusOf hallowed.1
  obtain ⟨nb, sc, prev, faults, _, rfl, _, rfl⟩ := h
  have hsome := isSome_lookup_statusUpdate faults nb.fsm sc
  rw [fsm_notified, Node.applyCommand_fsm] at hnew ⊢
  rw [getExecutionState]
  cases hstate : (nb.fsm.apply faults (statusUpdate sc)).1.executionStates.lookup sc.jobID with
  | none =>
    rw [hstate] at hsome
    simp at hsome
  | some state =>
    rw [statusOf_of_lookup hstate] at hnew
    rw [Option.map_some, hnew]

lemma MarkOp.After.notified (h : MarkOp.After st op jobID thread n n') (hcb : st.callback = true) :
    Notified (n.newEvents n') op.status := by
  obtain ⟨nb, sc, prev, faults, hbefore, rfl, hstatus, rfl⟩ := h
  refine ⟨thread, prev, ?_⟩
  have htail : (thread, Event.statusChanged prev op.status)
      ∈ st.updateEvents thread prev op.status nb.fsm faults sc := by
    simp [updateEvents, hcb]
  obtain ⟨l, hl⟩ : ∃ l, nb.trace = n.trace ++ l := by
    cases hrec : op.recorded with
    | none =>
      rw [MarkOp.Before, hrec] at hbefore
      exact ⟨[], by rw [hbefore, List.append_nil]⟩
    | some attempt =>
      rw [MarkOp.Before, hrec] at hbefore
      obtain ⟨now, faults', rfl⟩ := hbefore
      exact ⟨_, rfl⟩
  rw [Node.newEvents, trace_notified, hl, List.append_assoc, List.drop_left]
  exact List.mem_append_right l htail

/-- **When success means applied.**  A `Mark…` call on a stable leader reports truly exactly if the
state machine is going to accept all its commands; otherwise it reports success all the same. -/
theorem mark_reports_iff (st : StatusTracker) (op : MarkOp) (jobID : String) (thread : ℕ)
    (n : Node) (env : ℕ → Env) (hstable : ∀ i, (env i).Stable) :
    Reports st op jobID n (run (handle thread) (op.call st jobID) env n).2.1
        (run (handle thread) (op.call st jobID) env n).1
      ↔ op.Allowed n.fsm jobID := by
  obtain ⟨hnone, hafter⟩ := wp_run (MarkOp.wp_call st op jobID) hstable
  rw [Reports, hafter.allAccepted_iff]
  constructor
  · rintro ⟨hreport, _⟩
    exact hreport.mp ⟨hnone, hafter.notified⟩
  · intro hallowed
    exact ⟨⟨fun _ => hallowed, fun _ => ⟨hnone, hafter.notified⟩⟩,
      hafter.status_of_allowed⟩

/-- A node that knows one job, in the given status. -/
def nodeWithStatus (status : JobStatus) : Node where
  fsm :=
    { newFSM with
      executionStates := Finmap.singleton "a" { jobID := "a", status := status, createdAt := 0 } }
  queue := newPersistentSlotQueue 0

/-- Cancelling a pending job is reported truly. -/
theorem mark_reports_cancel_pending :
    (MarkOp.cancelled "r").Allowed (nodeWithStatus .pending).fsm "a" ∧
      Reports {} (.cancelled "r") "a" (nodeWithStatus .pending)
        (run (handle 0) (markCancelled {} "a" "r") (fun _ => Env.calm 7)
          (nodeWithStatus .pending)).2.1
        (run (handle 0) (markCancelled {} "a" "r") (fun _ => Env.calm 7)
          (nodeWithStatus .pending)).1 := by
  have hallowed : (MarkOp.cancelled "r").Allowed (nodeWithStatus .pending).fsm "a" := by decide
  exact ⟨hallowed, (mark_reports_iff {} (.cancelled "r") "a" 0 (nodeWithStatus .pending)
    (fun _ => Env.calm 7) fun _ => ⟨rfl, rfl⟩).mpr hallowed⟩

/-- **A swallowed rejection**: cancelling a completed job reports success, and the job stays
completed. -/
theorem mark_reports_success_of_rejected_cancel :
    (run (handle 0) (markCancelled {} "a" "r") (fun _ => Env.calm 7)
        (nodeWithStatus .completed)).2.1 = none ∧
      (((run (handle 0) (markCancelled {} "a" "r") (fun _ => Env.calm 7)
        (nodeWithStatus .completed)).1.fsm.getExecutionState "a").map JobExecutionState.status)
          = some .completed ∧
      ¬ Reports {} (.cancelled "r") "a" (nodeWithStatus .completed)
        (run (handle 0) (markCancelled {} "a" "r") (fun _ => Env.calm 7)
          (nodeWithStatus .completed)).2.1
        (run (handle 0) (markCancelled {} "a" "r") (fun _ => Env.calm 7)
          (nodeWithStatus .completed)).1 := by
  refine ⟨rfl, by decide, fun hreports => ?_⟩
  have haccepted := hreports.1.mp ⟨rfl, fun h => by cases h⟩
  have hrejected := haccepted 0 (nodeWithStatus .completed).fsm
    (statusUpdate
      { jobID := "a", status := .cancelled, timestamp := 7, cancellationReason := "r" })
    (.error (.invalidTransition .completed .cancelled)) (List.Mem.head _)
  exact absurd hrejected (by decide)

end StatusTracker

end ScheduledDb
