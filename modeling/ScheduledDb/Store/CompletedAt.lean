import ScheduledDb.Store.ExecutionStates

/-!
# The completion time of an execution state

`applyStatusUpdate` sets `CompletedAt` when a job completes, fails or is cancelled, and no command
ever takes it back.  A failed job may be tried again, and keeps the time of its failure through the
new attempt and through a timeout of it.

`completedAt_fits_iff` says of every state that a log leads to for which jobs the field still belongs
to what their status says: for all but those that are in progress or timed out after a failure.
-/

namespace ScheduledDb

/-- The job failed at some time. -/
def HasFailed (updates : List StatusCommand) : Prop := ∃ sc ∈ updates, sc.status = .failed

instance (updates : List StatusCommand) : Decidable (HasFailed updates) :=
  inferInstanceAs (Decidable (∃ sc ∈ updates, sc.status = .failed))

/-- The completion time is that of the update that put the job into its status. -/
def JobExecutionState.CompletedBy (state : JobExecutionState) (updates : List StatusCommand) :
    Prop :=
  ∃ sc, updates.getLast? = some sc ∧ sc.status = state.status ∧ state.completedAt = sc.timestamp

/-- An execution state and the updates of the job that were accepted since it was created. -/
structure JobExecutionState.Follows (state : JobExecutionState) (updates : List StatusCommand) :
    Prop where
  stamped : ∀ sc ∈ updates, 0 < sc.timestamp
  pending : state.status = .pending → updates = []
  finished : state.status.Finished → state.CompletedBy updates
  unfinished : ¬ state.status.Finished →
    state.status = .pending ∨ state.status = .inProgress ∨ state.status = .timeout
  /-- What is left of an earlier failure. -/
  leftover : ¬ state.status.Finished → (state.completedAt ≠ 0 ↔ HasFailed updates)

namespace JobExecutionState.Follows

variable {state : JobExecutionState} {updates : List StatusCommand} {sc : StatusCommand}

lemma new (jobID : String) (createdAt : ℤ) : (newExecutionState jobID createdAt).Follows [] where
  stamped := by simp
  pending := fun _ => rfl
  finished := by simp [newExecutionState, JobStatus.Finished]
  unfinished := by simp [newExecutionState]
  leftover := by simp [newExecutionState, HasFailed]

lemma completedAt_pos (h : state.Follows updates) (hfinished : state.status.Finished) :
    0 < state.completedAt := by
  obtain ⟨sc, hlast, _, htime⟩ := h.finished hfinished
  exact htime ▸ h.stamped sc (List.mem_of_getLast? hlast)

/-- Where there may be another attempt, the completion time tells whether the job has failed. -/
lemma completedAt_iff (h : state.Follows updates)
    (hstatus : state.status.Finished → state.status = .failed) :
    state.completedAt ≠ 0 ↔ HasFailed updates := by
  by_cases hfinished : state.status.Finished
  · obtain ⟨sc, hlast, hsame, _⟩ := h.finished hfinished
    refine ⟨fun _ => ?_, fun _ => (h.completedAt_pos hfinished).ne'⟩
    exact ⟨sc, List.mem_of_getLast? hlast, hsame.trans (hstatus hfinished)⟩
  · exact h.leftover hfinished

/-- One more update: either the job is finished with it, or it starts or ends an attempt that may
not be the first one. -/
lemma update (h : state.Follows updates)
    (hvalid : validateStateTransition state.status sc.status = none) (htime : 0 < sc.timestamp) :
    (state.update sc).Follows (updates ++ [sc]) := by
  have hstamped : ∀ other ∈ updates ++ [sc], 0 < other.timestamp := by
    intro other hother
    rcases List.mem_append.mp hother with hold | hnew
    · exact h.stamped other hold
    · exact (List.mem_singleton.mp hnew) ▸ htime
  have htarget := transition_cases hvalid
  have hpending : sc.status ≠ .pending := by
    intro hpending
    simp [hpending] at htarget
  by_cases hfinished : sc.status.Finished
  · have hcompleted : (state.update sc).completedAt = sc.timestamp := by
      rw [FSM.update_completedAt, if_pos hfinished]
    exact
      { stamped := hstamped
        pending := by simp [hpending]
        finished := fun _ => ⟨sc, by simp, by simp, hcompleted⟩
        unfinished := by simp [hfinished]
        leftover := by simp [hfinished] }
  · have hcompleted : (state.update sc).completedAt = state.completedAt := by
      rw [FSM.update_completedAt, if_neg hfinished]
    simp only [JobStatus.Finished, not_or] at hfinished
    have hsource : state.status.Finished → state.status = .failed := by
      rintro (hdone | hdone | hdone)
      · simp [hdone] at htarget
      · exact hdone
      · simp [hdone] at htarget
    have hleft := h.completedAt_iff hsource
    exact
      { stamped := hstamped
        pending := by simp [hpending]
        finished := by simp [JobStatus.Finished, hfinished]
        unfinished := by
          intro _
          rw [FSM.update_status]
          tauto
        leftover := by simpa [hcompleted, HasFailed, hfinished] using fun _ => hleft }

end JobExecutionState.Follows

namespace FSM

/-- The updates of the job that were accepted since its execution state was last created. -/
def updatesSince (id : String) (f : FSM) (log : List (ColdFaults × Command)) : List StatusCommand :=
  history [] (fun updates sc => updates ++ [sc]) id f log []

/-- **Along a whole log**, every execution state follows the updates of its job. -/
lemma follows_of_log (coldSpilling : Bool) {log : List (ColdFaults × Command)}
    (hlog : ∀ entry ∈ log, ∀ sc ∈ entry.2.statusCommand, 0 < sc.timestamp) {id : String}
    {state : JobExecutionState}
    (hstate : ((empty coldSpilling).applyLog log).executionStates.lookup id = some state) :
    state.Follows (updatesSince id (empty coldSpilling) log) := by
  have hall : ((empty coldSpilling).applyLog log).Remembers JobExecutionState.Follows
      fun id => updatesSince id (empty coldSpilling) log :=
    Remembers.applyLog (D := fun sc => 0 < sc.timestamp) (fun _ _ => .new _ _)
      (fun _ _ _ h => { h with }) (fun _ _ _ h htime hvalid => h.update hvalid htime)
      (fun entry hentry _ => hlog entry hentry) (remembers_empty _ coldSpilling _)
  exact hall id state hstate

/-- **Whose completion time fits.**  A job has a completion time exactly if it is finished, and then
that of the update that finished it, unless it is in progress or timed out and has failed before. -/
theorem completedAt_fits_iff (coldSpilling : Bool) (log : List (ColdFaults × Command))
    (hlog : ∀ entry ∈ log, ∀ sc ∈ entry.2.statusCommand, 0 < sc.timestamp) (id : String)
    (state : JobExecutionState)
    (hstate : ((empty coldSpilling).applyLog log).executionStates.lookup id = some state) :
    let updates := updatesSince id (empty coldSpilling) log
    ((state.completedAt ≠ 0 ↔ state.status.Finished) ∧
        (state.status.Finished → state.CompletedBy updates))
      ↔ (state.status = .inProgress ∨ state.status = .timeout → ¬ HasFailed updates) := by
  intro updates
  have hfollows := follows_of_log coldSpilling hlog hstate
  constructor
  · rintro ⟨hiff, -⟩ hstatus
    have hunfinished : ¬ state.status.Finished := by
      rcases hstatus with hstatus | hstatus <;> simp [JobStatus.Finished, hstatus]
    rw [← hfollows.leftover hunfinished]
    exact fun hne => hunfinished (hiff.mp hne)
  · intro hnever
    refine ⟨⟨fun hne => ?_, fun hfinished => (hfollows.completedAt_pos hfinished).ne'⟩,
      hfollows.finished⟩
    by_contra hunfinished
    have hfailed := (hfollows.leftover hunfinished).mp hne
    rcases hfollows.unfinished hunfinished with hstatus | hstatus
    · -- nothing has happened to the job yet
      have hnone : updates = [] := hfollows.pending hstatus
      simp [HasFailed, updates, hnone] at hfailed
    · exact hnever hstatus hfailed

/-- A job that is tried, and then marked as given, at times 8, 9 and so on. -/
def attemptLog (outcomes : List JobStatus) : List (ColdFaults × Command) :=
  ({}, { type := .createJob, job := some { id := "a", type := .unico, timestamp := some 5 } }) ::
    ({}, statusUpdate { jobID := "a", status := .inProgress, nodeID := "n", timestamp := 7 }) ::
    outcomes.mapIdx fun i status =>
      ({}, statusUpdate { jobID := "a", status := status, nodeID := "n", timestamp := 8 + i })

/-- The first attempt times out and the second one succeeds: the completion time is that of the
success. -/
theorem completedAt_of_completed :
    let log := attemptLog [.timeout, .inProgress, .completed]
    let state : JobExecutionState :=
      { jobID := "a", status := .completed, attemptCount := 2, createdAt := 0, firstAttemptAt := 7,
        lastAttemptAt := 9, completedAt := 10 }
    ((empty false).applyLog log).executionStates.lookup "a" = some state ∧
      (state.completedAt ≠ 0 ↔ state.status.Finished) ∧
      (state.status.Finished → state.CompletedBy (updatesSince "a" (empty false) log)) :=
  ⟨by decide +kernel,
    (completedAt_fits_iff false (attemptLog [.timeout, .inProgress, .completed])
      (by decide +kernel) "a" _ (by decide +kernel)).mpr (by decide)⟩

/-- A job is tried again after a failure, and this attempt times out.  Both in progress and after
the timeout it has the time of its failure as its completion time. -/
theorem completedAt_left_by_failure :
    (∀ entry ∈ attemptLog [.failed, .inProgress, .timeout],
      ∀ sc ∈ entry.2.statusCommand, 0 < sc.timestamp) ∧
    (((empty false).applyLog (attemptLog [.failed, .inProgress])).executionStates.lookup "a").map
        (fun state => (state.status, state.completedAt)) = some (.inProgress, 8) ∧
    (((empty false).applyLog (attemptLog [.failed, .inProgress, .timeout])).executionStates.lookup
        "a").map (fun state => (state.status, state.completedAt)) = some (.timeout, 8) := by
  decide +kernel

end FSM

end ScheduledDb
