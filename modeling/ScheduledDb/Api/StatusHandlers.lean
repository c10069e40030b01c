import ScheduledDb.Api.JobHandlers
import ScheduledDb.Store.Codec
import ScheduledDb.Store.Statistics

/-!
# Asking for jobs, and cancelling them, over HTTP

`GetJob`, `GetJobStatus`, `GetJobExecutions`, `ListJobsByStatus` and `CancelJob` of
`internal/api/job_handlers.go`.  The first four read the node's own state, on a leader or not.
`CancelJob` marks a job as cancelled and answers with the status that it finds afterwards, which need
not be `cancelled`.  What its call of `ExecutionManager.CancelJob` does to a webhook call that is on
its way shows in how that call ends, as in `ScheduledDb.Slots.ExecutionManager`.

A job has an execution state from its creation to its deletion (`FSM.Stated`), so that what the
handlers answer for a job without one is never seen, and the four views of a job agree
(**`status_views_agree`**).
-/

namespace ScheduledDb

open Machine Program StatusTracker Handlers JobStatus

/-- What the handlers answer: as those in `ScheduledDb.Api.JobHandlers` do, or with the data of
execution states. -/
inductive ApiResponse where
  | plain (response : HttpResponse)
  | state (state : JobExecutionState)
  | executions (jobID : String) (attempts : List ExecutionAttempt)
  | cancelled (jobID : String) (status : JobStatus) (cancelledAt : ℤ) (message : Option String)
  | jobs (jobs : List JobExecutionState) (total : ℕ)
  deriving DecidableEq, Repr

def ApiResponse.error (status : ℕ) (message : String) : ApiResponse := .plain (.error status message)

namespace StatusTracker

def getExecutionHistory (jobID : String) : Program Act (Except String (List ExecutionAttempt)) := do
  match ← perform (.getExecutionState jobID) with
  | none => pure (.error (stateNotFound jobID))
  | some state => pure (.ok state.attempts)

end StatusTracker

namespace Handlers

/-- What `GetJob`, `GetJobStatus` and `GetJobExecutions` have in common. -/
def withJob (id : String) (answer : Job → Program Act ApiResponse) : Program Act ApiResponse := do
  if id = "" then pure (.error 400 "Job ID is required")
  else do
    match ← perform (.getJob id) with
    | none => pure (.error 404 "Job not found")
    | some job => answer job

def getJob (id : String) : Program Act ApiResponse :=
  withJob id fun job => pure (.plain (.job job))

def getJobStatus (id : String) : Program Act ApiResponse :=
  withJob id fun _ => do
    match ← StatusTracker.getStatus id with
    | .ok state => pure (.state state)
    | .error _ => do
        let now ← perform .now
        pure (.state { jobID := id, status := .pending, createdAt := now, attempts := [] })

def getJobExecutions (id : String) : Program Act ApiResponse :=
  withJob id fun _ => do
    match ← StatusTracker.getExecutionHistory id with
    | .ok attempts => pure (.executions id attempts)
    | .error _ => pure (.executions id [])

def listJobsByStatus (statusParam : String) : Program Act ApiResponse := do
  if statusParam = "" then pure (.error 400 "status query parameter is required")
  else if JobStatus.ofText statusParam ∈ JobStatus.all then do
    let states ← StatusTracker.listByStatus (JobStatus.ofText statusParam)
    pure (.jobs states states.length)
  else pure (.error 400 "invalid status parameter")

/-- `CancelJob` for a job that was seen in progress or not.  The tracker is made for the request and
has no callback. -/
def markJobCancelled (id reason : String) (wasInProgress : Bool) : Program Act ApiResponse := do
  match ← StatusTracker.markCancelled {} id reason with
  | some _ => pure (.error 500 "Failed to cancel job")
  | none => do
      match ← StatusTracker.getStatus id with
      | .error _ => pure (.error 500 "Failed to get job status")
      | .ok state =>
        pure (.cancelled id state.status state.cancelledAt
          (if wasInProgress then some "Job was in progress, cancellation attempted" else none))

/-- `CancelJob`; a body that cannot be decoded gives an empty reason. -/
def cancelJob (id reason : String) : Program Act ApiResponse := do
  if ← perform .isLeader then
    withJob id fun _ => do
      match ← StatusTracker.getStatus id with
      | .ok state => markJobCancelled id reason (state.status = .inProgress)
      | .error _ => markJobCancelled id reason false
  else pure (.plain .proxied)

end Handlers

/-! ## Jobs and execution states -/

namespace FSM

/-- Every job has an execution state. -/
def Stated (f : FSM) : Prop :=
  ∀ id job, f.jobs.lookup id = some job → ∃ state, f.executionStates.lookup id = some state

variable {f : FSM} {log : List (ColdFaults × Command)}

/-- A command gives a new job a state, drops the state with the job, and otherwise changes states
only. -/
lemma Stated.apply (h : f.Stated) (faults : ColdFaults) (cmd : Command) :
    (f.apply faults cmd).1.Stated := by
  intro id job hjob
  rw [apply_fst] at hjob ⊢
  cases heffect : f.effect faults cmd.wire with
  | putJob new =>
    simp only [heffect, Effect.act, Finmap.lookup_insert_ite] at hjob ⊢
    split_ifs with hid
    · exact ⟨_, rfl⟩
    · rw [if_neg hid] at hjob
      exact h id job hjob
  | dropJob dropped =>
    simp only [heffect, Effect.act, Finmap.lookup_erase_ite] at hjob ⊢
    split_ifs at hjob ⊢
    exact h id job hjob
  | putState written new =>
    simp only [heffect, Effect.act, Finmap.lookup_insert_ite] at hjob ⊢
    split_ifs
    · exact ⟨_, rfl⟩
    · exact h id job hjob
  | _ =>
    rw [heffect] at hjob
    exact h id job hjob

lemma Stated.applyLog (h : f.Stated) : (f.applyLog log).Stated := by
  induction log generalizing f with
  | nil => exact h
  | cons entry log ih => exact ih (h.apply entry.1 entry.2)

lemma stated_empty (coldSpilling : Bool) : (empty coldSpilling).Stated := by
  intro id job hjob
  cases coldSpilling with
  | false | true => simp [empty, blank, newFSM] at hjob

/-- No log leads to a status other than the six. -/
lemma status_mem_all_of_log (coldSpilling : Bool) {id : String} {state : JobExecutionState}
    (hstate : ((empty coldSpilling).applyLog log).executionStates.lookup id = some state) :
    state.status ∈ JobStatus.all := by
  have hall : ((empty coldSpilling).applyLog log).Remembers
      (fun state (_ : Unit) => state.status ∈ JobStatus.all)
      fun id => history () (fun _ _ => ()) id (empty coldSpilling) log () := by
    refine Remembers.applyLog (D := fun _ => True) ?_ ?_ ?_ ?_ (remembers_empty _ coldSpilling _)
    · intro id createdAt
      simp [newExecutionState, all]
    · intro state _ kept h
      exact h
    · intro state _ sc _ _ hvalid
      rw [update_status]
      rcases transition_cases hvalid with ⟨htarget, _⟩ | ⟨htarget | htarget | htarget, _⟩ |
          ⟨htarget, _⟩ <;>
        simp [htarget, all]
    · intro _ _ _ _ _
      trivial
  exact hall id state hstate

end FSM

/-- The answer of a handler that runs alone. -/
def Handlers.answer (thread : ℕ) (p : Program Act ApiResponse) (env : ℕ → Env) (n : Node) :
    ApiResponse := (run (handle thread) p env n).2.1

/-- A status is read as it is written. -/
lemma JobStatus.ofText_text {status : JobStatus} (h : status ∈ all) :
    ofText status.text = status ∧ status.text ≠ "" := by
  simp only [all, List.mem_cons, List.not_mem_nil, or_false] at h
  rcases h with rfl | rfl | rfl | rfl | rfl | rfl <;> decide

section Views

variable (thread : ℕ) (env : ℕ → Env) {n : Node}

lemma answer_listJobsByStatus {status : JobStatus} (hstatus : status ∈ all) :
    answer thread (listJobsByStatus status.text) env n
      = .jobs (run (handle thread) (listByStatus status) env n).2.1
          (run (handle thread) (listByStatus status) env n).2.1.length := by
  obtain ⟨hread, hne⟩ := ofText_text hstatus
  rw [answer, listJobsByStatus, if_neg hne, hread, if_pos hstatus, run_bind]
  rfl

/-- What the list of a status has under an id: the job's state, if that is its status. -/
lemma filter_listByStatus (hfiled : n.fsm.Filed) {id : String} {state : JobExecutionState}
    (hstate : n.fsm.executionStates.lookup id = some state) (status : JobStatus) :
    (run (handle thread) (listByStatus status) env n).2.1.filter
        (fun listed => listed.jobID = id)
      = if state.status = status then [state] else [] := by
  let copy := (env 0).order _ n.fsm.executionStates.sortedEntries
  have hcopy : copy.Perm n.fsm.executionStates.sortedEntries := (env 0).order_perm _ _
  have hmem : ∀ x : Σ _ : String, JobExecutionState,
      x ∈ copy ↔ n.fsm.executionStates.lookup x.1 = some x.2 := fun x =>
    hcopy.mem_iff.trans (Finmap.mem_sortedEntries _ x.1 x.2)
  -- the copy has one entry under the id
  have hone : copy.filter (fun x => x.2.jobID = id) = [⟨id, state⟩] := by
    refine List.perm_singleton.mp ((List.perm_ext_iff_of_nodup
      ((hcopy.nodup_iff.mpr (Finmap.nodup_sortedEntries _)).filter _) (List.nodup_singleton _)).mpr
      fun x => ?_)
    rw [List.mem_filter, hmem, List.mem_singleton, decide_eq_true_eq]
    constructor
    · rintro ⟨hx, hid⟩
      obtain rfl : x.1 = id := (hfiled.executionStates x.1 x.2 hx).symm.trans hid
      rw [hstate] at hx
      rw [Option.some.inj hx]
    · rintro rfl
      exact ⟨hstate, hfiled.executionStates id state hstate⟩
  show ((copy.map Sigma.snd).filter fun listed => listed.status = status).filter _ = _
  rw [List.filter_filter, List.filter_map]
  have hsplit : copy.filter ((fun listed : JobExecutionState =>
        decide (listed.jobID = id) && decide (listed.status = status)) ∘ Sigma.snd)
      = (copy.filter fun x => x.2.jobID = id).filter fun x => x.2.status = status := by
    rw [List.filter_filter]
    exact List.filter_congr fun x _ => Bool.and_comm _ _
  rw [hsplit, hone]
  by_cases hstatus : state.status = status
  · simp [hstatus]
  · simp [hstatus]

/-- **The views of a job agree.**  In every state that a log leads to, a job that is not stored is not
found; a stored one has an execution state of its own, which is what `GetJobStatus` answers, the
attempts of which are what `GetJobExecutions` answers, and which `ListJobsByStatus` has in the list of
its status, once, and in no other. -/
theorem status_views_agree (coldSpilling : Bool) (log : List (ColdFaults × Command))
    (hn : n.fsm = (FSM.empty coldSpilling).applyLog log) {id : String} (hid : id ≠ "") :
    (n.fsm.jobs.lookup id = none →
      ∀ p ∈ [getJob id, getJobStatus id, getJobExecutions id],
        answer thread p env n = .error 404 "Job not found") ∧
    ∀ job, n.fsm.jobs.lookup id = some job →
      ∃ state : JobExecutionState, state.jobID = id ∧ state.status ∈ JobStatus.all ∧
        answer thread (getJob id) env n = .plain (.job job) ∧
        answer thread (getJobStatus id) env n = .state state ∧
        answer thread (getJobExecutions id) env n
          = .executions id state.attempts ∧
        ∀ status ∈ JobStatus.all, ∃ states,
          answer thread (listJobsByStatus status.text) env n
            = .jobs states states.length ∧
          states.filter (fun listed => listed.jobID = id)
            = if state.status = status then [state] else [] := by
  have hfiled : n.fsm.Filed := hn ▸ (FSM.filed_empty coldSpilling).applyLog
  have hstated : n.fsm.Stated := hn ▸ (FSM.stated_empty coldSpilling).applyLog
  constructor
  · intro hnone p hp
    simp only [List.mem_cons, List.not_mem_nil, or_false] at hp
    rcases hp with rfl | rfl | rfl <;>
      simp [answer, getJob, getJobStatus, getJobExecutions,
        withJob, hid, handle, FSM.getJob, hnone]
  · intro job hjob
    obtain ⟨state, hstate⟩ := hstated id job hjob
    refine ⟨state, hfiled.executionStates id state hstate,
      FSM.status_mem_all_of_log coldSpilling (hn ▸ hstate), ?_, ?_, ?_, fun status hstatus => ?_⟩
    · simp [answer, getJob, withJob, hid, handle, FSM.getJob, hjob]
    · simp [answer, getJobStatus, withJob, getStatus, hid,
        handle, FSM.getJob, hjob, FSM.getExecutionState, hstate]
    · simp [answer, getJobExecutions, withJob,
        getExecutionHistory, hid, handle, FSM.getJob, hjob, FSM.getExecutionState,
        hstate]
    · exact ⟨_, answer_listJobsByStatus thread env hstatus,
        filter_listByStatus thread env hfiled hstate status⟩

end Views

/-- A job in progress is in the list of its status. -/
theorem status_views_agree_in_progress :
    let n : Node :=
      { fsm := (FSM.empty true).applyLog
          [({}, { type := .createJob, job := some { id := "a", type := .unico } }),
            ({}, FSM.statusUpdate { jobID := "a", status := .inProgress, timestamp := 7 })]
        queue := newPersistentSlotQueue 0 }
    let answer := fun p => answer 0 p (fun _ => Env.calm 8) n
    ∃ state, answer (getJobStatus "a") = .state state ∧ state.status = .inProgress ∧
      ∃ states, answer (listJobsByStatus "in_progress") = .jobs states states.length ∧
        states.filter (fun listed => listed.jobID = "a") = [state] := by
  intro n answer
  have hjob : n.fsm.jobs.lookup "a" = some { id := "a", type := .unico } := by decide +kernel
  obtain ⟨state, -, -, -, hstate, -, hlists⟩ :=
    (status_views_agree 0 (fun _ => Env.calm 8) true _ (n := n) rfl (by decide)).2 _ hjob
  have hstatus : state.status = .inProgress := by
    have hknown : answer (getJobStatus "a") = .state
        { jobID := "a", status := .inProgress, attemptCount := 1, createdAt := 0, firstAttemptAt := 7,
          lastAttemptAt := 7 } := by decide +kernel
    rw [ApiResponse.state.inj (hstate.symm.trans hknown)]
  obtain ⟨states, hanswer, hfilter⟩ := hlists .inProgress (by decide)
  exact ⟨state, hstate, hstatus, states, hanswer, hfilter.trans (if_pos hstatus)⟩

end ScheduledDb
